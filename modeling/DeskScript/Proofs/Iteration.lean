import DeskScript.Proofs.Calm
import DeskScript.Proofs.Reading

/-! Iterations of a script: the loop of a run shows the plain reading of the script's steps, over and
over, until one of them stops the run. -/

namespace DeskScript

/-- What an iteration of the run shows by the plain reading of its script. -/
def Run.reading (w : World) (r : Run) : Reading := Forest.reading w ⟨r, true⟩ r.script.steps

namespace Piece

/-- Whether a pause keeps a step from being entered. -/
def isBarred (p : Piece) : Bool :=
  match p.job with
  | .levelOpen _ _ _ => p.state.phase = .paused
  | _ => false

def marks (ps : List Piece) : List Mark := ps.filterMap mark?

end Piece

/-- How far the loop of a run has got in an iteration: it has shown `part`, and `work` is left. In the
middle of the steps what was shown and what is left together read as the whole iteration. -/
inductive Run.Progress (w : World) (r : Run) : (part : List Mark) → (work : Work) → Prop
  | waiting {pauses : Work} : (∀ job ∈ pauses, job.isPause = true) →
      Progress w r [] (pauses ++ .iterate r :: State.closing r)
  | opening : Progress w r [] (.iterateOpen r :: State.closing r)
  | walking {part : List Mark} {work : Work} : Lane.Walk ⟨r, true⟩ work →
      Reading.andThen ⟨part, false⟩ (work.reading w) = r.reading w →
      Progress w r part (work ++ .endIteration r :: State.closing r)
  | counting : (r.reading w).stops = false →
      Progress w r (r.reading w).marks (.count r :: State.closing r)

namespace Run.Progress

variable {setup : Setup} {w : World} {r : Run} {part : List Mark} {p : Piece} {rest work work' : Work}
  {ps : List Piece}

theorem isPrefix (h : r.Progress w part work) : part <+: (r.reading w).marks := by
  cases h with
  | waiting | opening => exact List.nil_prefix
  | walking _ hr =>
    rw [← hr, Reading.marks_andThen]
    exact List.prefix_append _ _
  | counting => exact List.prefix_refl _

theorem cases_cons {job : Job} (h : r.Progress w part (job :: rest)) :
    (job.isPause = true ∧ part = [] ∧ r.Progress w [] rest) ∨
    (job = .iterate r ∧ part = [] ∧ rest = State.closing r) ∨
    (job = .iterateOpen r ∧ part = [] ∧ rest = State.closing r) ∨
    (∃ ws, rest = ws ++ .endIteration r :: State.closing r ∧ Lane.Walk ⟨r, true⟩ (job :: ws) ∧
      Reading.andThen ⟨part, false⟩ (Work.reading w (job :: ws)) = r.reading w) ∨
    (job = .endIteration r ∧ rest = State.closing r ∧ r.reading w = ⟨part, false⟩) ∨
    (job = .count r ∧ rest = State.closing r ∧ r.reading w = ⟨part, false⟩) := by
  generalize hl : job :: rest = l at h
  cases h with
  | @waiting pauses hp =>
    cases pauses with
    | nil =>
      cases hl
      exact .inr (.inl ⟨rfl, rfl, rfl⟩)
    | cons j pauses =>
      cases hl
      exact .inl ⟨hp _ (by simp), rfl, .waiting fun j hj => hp j (by simp [hj])⟩
  | opening =>
    cases hl
    exact .inr (.inr (.inl ⟨rfl, rfl, rfl⟩))
  | @walking part ws walk hr =>
    cases ws with
    | nil =>
      cases hl
      have whole : r.reading w = ⟨part, false⟩ := hr.symm.trans (Reading.andThen_nothing _)
      exact .inr (.inr (.inr (.inr (.inl ⟨rfl, rfl, whole⟩))))
    | cons j ws =>
      cases hl
      exact .inr (.inr (.inr (.inl ⟨ws, rfl, walk, hr⟩)))
  | counting hs =>
    cases hl
    exact .inr (.inr (.inr (.inr (.inr ⟨rfl, rfl, Reading.ext rfl hs⟩))))

/-- A piece of work takes the iteration a piece further, unless a pause keeps a step from being
entered. -/
theorem advance (h : r.Progress w part (p.job :: rest)) (hw : p.world = w)
    (hh : p.job.isHalt = false) (live : p.state.isCancelled r.token = false)
    (open' : p.isBarred = false) :
    r.Progress w (if p.job.isCount then [] else part ++ p.mark?.toList) (p.next setup ++ rest) := by
  obtain ⟨w', s, job⟩ := p
  subst hw
  rcases h.cases_cons with ⟨pause, rfl, later⟩ | ⟨rfl, rfl, rfl⟩ | ⟨rfl, rfl, rfl⟩ |
    ⟨ws, rfl, walk, hr⟩ | ⟨rfl, rfl, whole⟩ | ⟨rfl, rfl, whole⟩
  · cases job with
    | rest ms | giveWay ms => exact later
    | _ => cases pause
  · have hn : Piece.next setup ⟨w', s, .iterate r⟩ = [.iterateOpen r] := by
      have live : s.isCancelled r.token = false := live
      simp [Piece.next, Job.run, Job.guarded, live]
    rw [hn]
    exact .opening
  · by_cases hp : s.phase = .paused
    · have hn : Piece.next setup ⟨w', s, .iterateOpen r⟩ =
          [.giveWay setup.pace.pausePoll, .iterate r] := by
        simp [Piece.next, Job.run, hp]
      rw [hn]
      exact @waiting w' r [.giveWay _] (by simp [Job.isPause])
    · have hn : Piece.next setup ⟨w', s, .iterateOpen r⟩ =
          [.level ⟨r, true⟩ r.script.steps, .endIteration r] := by
        simp [Piece.next, Job.run, hp]
      have walk : Lane.Walk ⟨r, true⟩ [.level ⟨r, true⟩ r.script.steps] := .cons rfl (by simp) rfl
      rw [hn]
      exact .walking walk (Reading.andThen_nothing _)
  · have own := walk.head
    have going : s.phase = .paused → ∀ l step steps, job ≠ .levelOpen l step steps := by
      rintro hp l step steps rfl
      simp [Piece.isBarred, hp] at open'
    have same : job.reading w' = Reading.andThen ⟨(job.mark w').toList, false⟩
        (Work.reading w' (job.run setup w' s).next) :=
      Job.reading_run own rfl hh live going
    have single : job.isCount = false := by
      cases job <;> first | rfl | exact absurd own id
    have whole : Reading.andThen ⟨part ++ (job.mark w').toList, false⟩
        (Work.reading w' ((job.run setup w' s).next ++ ws)) = r.reading w' := by
      rw [← hr, Work.reading, same, Work.reading_append]
      simp only [← Reading.andThen_assoc, Reading.marks_andThen, List.append_assoc]
    have walk' : Lane.Walk ⟨r, true⟩ ((job.run setup w' s).next ++ ws) :=
      walk.run hh setup w' (by simp)
    have walking := Progress.walking walk' whole
    rw [List.append_assoc] at walking
    rw [single]
    exact walking
  · have hn : Piece.next setup ⟨w', s, .endIteration r⟩ = [.count r] := by
      have live : s.isCancelled r.token = false := live
      simp [Piece.next, Job.run, Job.guarded, live]
    have counting : r.Progress w' (r.reading w').marks (.count r :: State.closing r) :=
      .counting (by rw [whole])
    rw [whole] at counting
    rw [hn]
    simpa [Job.isCount, Piece.mark?, Job.mark] using counting
  · exact @waiting w' r [.giveWay 0, .rest setup.pace.iterationDelay] (by simp [Job.isPause])

/-- Where the loop stops the run, everything that the iteration shows was shown. -/
theorem halt (h : r.Progress w part (.halt :: work)) : r.reading w = ⟨part, true⟩ := by
  rcases h.cases_cons with ⟨hp, -⟩ | ⟨hj, -⟩ | ⟨hj, -⟩ | ⟨ws, -, -, hr⟩ | ⟨hj, -⟩ | ⟨hj, -⟩
  · cases hp
  · cases hj
  · cases hj
  · rw [← hr]
    simp [Work.reading, Job.reading, Reading.andThen]
  · cases hj
  · cases hj

/-- An iteration is counted when everything was shown and the run was not stopped. -/
theorem counted {r' : Run} (h : r.Progress w part (.count r' :: rest)) :
    r.reading w = ⟨part, false⟩ := by
  rcases h.cases_cons with ⟨hp, -⟩ | ⟨hj, -⟩ | ⟨hj, -⟩ | ⟨ws, -, walk, -⟩ | ⟨hj, -⟩ | ⟨-, -, whole⟩
  · cases hp
  · cases hj
  · cases hj
  · exact absurd walk.head id
  · cases hj
  · exact whole

/-- The loop repeats the iteration. -/
theorem of_goes (h : r.Progress w [] work) (goes : work.Goes setup ps work')
    (free : ∀ p ∈ ps, p.world = w ∧ p.state.isCancelled r.token = false ∧ p.isBarred = false) :
    ∃ part, r.Progress w part work' ∧ Piece.marks ps =
      (List.replicate (ps.countP (·.job.isCount)) (r.reading w).marks).flatten ++ part ∧
      ((r.reading w).stops = true → ps.countP (·.job.isCount) = 0) := by
  induction goes with
  | refl => exact ⟨[], h, by simp [Piece.marks], by simp⟩
  | @snoc ps p rest goes hh ih =>
    obtain ⟨part, progress, marks, stops⟩ := ih fun q hq => free q (List.mem_append_left _ hq)
    obtain ⟨hw, live, open'⟩ := free p (by simp)
    have progress' : r.Progress w _ (p.next setup ++ rest) := progress.advance hw hh live open'
    have grown : Piece.marks (ps ++ [p]) = Piece.marks ps ++ p.mark?.toList := by
      cases hm : p.mark? <;> simp [Piece.marks, hm]
    cases hc : p.job.isCount with
    | false =>
      rw [hc] at progress'
      refine ⟨_, progress', ?_, ?_⟩
      · simp [grown, marks, hc, List.countP_append]
      · simpa [hc, List.countP_append] using stops
    | true =>
      obtain ⟨silent, whole⟩ : p.mark? = none ∧ r.reading w = ⟨part, false⟩ := by
        obtain ⟨w', s, job⟩ := p
        cases job with
        | count r' => exact ⟨rfl, progress.counted⟩
        | _ => cases hc
      rw [hc] at progress'
      refine ⟨_, progress', ?_, ?_⟩
      · simp [grown, marks, hc, List.countP_append, silent, whole, List.replicate_succ']
      · simp [whole]

end Run.Progress

/-- The loop of the run is about to begin an iteration. -/
def Moment.Begins (m : Moment) (r : Run) : Prop :=
  ∃ pauses : Work, (∀ job ∈ pauses, job.isPause = true) ∧
    m.Loops r (pauses ++ .iterate r :: State.closing r)

/-- A run begins with an iteration. -/
theorem Moment.begins_start {setup : Setup} {s : State} (h : s.Orderly) {script : Script}
    (hs : (s.start setup script).1 = true) :
    Begins ⟨(s.start setup script).2, none⟩ ⟨s.issued, script.withDefaults⟩ ∧
      (s.start setup script).2.phase = .running := by
  unfold State.start at hs ⊢
  split at hs
  · rename_i hr
    rw [if_pos hr]
    unfold State.openRun at hs ⊢
    by_cases hp : s.phase = .idle
    · rw [if_pos hp]
      refine ⟨⟨[], by simp, rfl, h.fresh, ?_, by simp⟩, rfl⟩
      exact ⟨_, mem_threads_none.mpr (List.mem_append_right _ List.mem_cons_self),
        by simp [Thread.isLoopOf], rfl⟩
    · rw [if_neg hp] at hs
      cases hs
  · cases hs

end DeskScript

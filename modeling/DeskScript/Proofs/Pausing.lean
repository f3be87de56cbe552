import DeskScript.Proofs.Finishing
import Mathlib.Data.List.Nodup

/-! Pauses in the middle of an iteration: when the loop of a run keeps to the plain reading of its script,
and when it strays from it. -/

namespace DeskScript

/-! ### Steps that may yet be entered -/

namespace Job

/-- The steps that may yet be entered, in order. -/
def pending : Job → List Step
  | .level _ steps => Forest.inOrder steps
  | .levelOpen _ step steps => Forest.inOrder (step :: steps)
  | .enter _ step => step :: step.inside
  | .body _ step => step.inside
  | .decide _ _ thens elses => Forest.inOrder thens ++ Forest.inOrder elses
  | _ => []

/-- Whether the work shows nothing unless it enters a step, and neither does what it leaves. -/
def isIdle : Job → Bool
  | .level _ _ | .levelOpen _ _ _ | .enter _ _ | .rest _ | .endIteration _ | .count _ | .clear
  | .settle _ => true
  | _ => false

/-- Work of the loop in the middle of its steps adds no step to those that may yet be entered. -/
theorem pending_run {setup : Setup} {w : World} {s : State} {lane : Lane} {job : Job}
    (own : job.IsOf lane) (hf : lane.foreground = true) :
    ((job.run setup w s).next.flatMap pending).Sublist job.pending := by
  cases job with
  | level l steps =>
    cases steps with
    | nil => exact List.nil_sublist _
    | cons step steps =>
      simp only [run, guarded]
      split <;> simp [pending]
  | levelOpen l step steps =>
    simp only [run, unlessPaused]
    split <;> simp [pending, Forest.inOrder]
  | enter l step => simp [run, pending]
  | body l step => cases step <;> simp [run, ofStep, pending, Step.inside]
  | decide l q thens elses =>
    cases q with
    | ask e next => simp [run, pending]
    | done truth =>
      simp only [run, branch, pending, List.flatMap_cons, List.flatMap_nil, List.append_nil]
      split
      · exact List.sublist_append_left _ _
      · exact List.sublist_append_right _ _
      · exact List.nil_sublist _
  | aim step action since q => cases q <;> exact List.nil_sublist _
  | act step action since place =>
    simp only [run, perform]
    split <;> exact List.nil_sublist _
  | report step action since ok =>
    simp only [run, afterAction]
    split <;> exact List.nil_sublist _
  | enlist r o =>
    simp only [run, guarded]
    split <;> exact List.nil_sublist _
  | halt =>
    simp only [run]
    split <;> exact List.nil_sublist _
  | enlistOpen | rest => exact List.nil_sublist _
  | survey | probe | takeIn => exact absurd (hf.symm.trans own) (by simp)
  | tell e => cases e <;> exact List.nil_sublist _
  | _ => exact absurd own id

/-- Idle work that enters no step leaves idle work and shows nothing. -/
theorem isIdle_run {setup : Setup} {w : World} {s : State} {job : Job} (h : job.isIdle = true)
    (he : job.isEnter = false) (hc : job.isCount = false) :
    job.mark w = none ∧ (∀ j ∈ (job.run setup w s).next, j.isIdle = true) ∧
      ∀ y ∈ (job.run setup w s).next.flatMap pending, y ∈ job.pending := by
  cases job with
  | level l steps =>
    cases steps with
    | nil => simp [mark, run]
    | cons step steps =>
      simp only [run, guarded]
      split <;> simp [mark, isIdle, pending]
  | levelOpen l step steps =>
    simp only [run, unlessPaused]
    split <;> simp [mark, isIdle, pending, Forest.inOrder]
  | endIteration r =>
    simp only [run, guarded]
    split <;> simp [mark, isIdle, pending]
  | rest | clear | settle => simp [mark, run]
  | enter => cases he
  | count => cases hc
  | _ => cases h

end Job

/-- The steps that may yet be entered by the work, in order. -/
def Work.pending (work : Work) : List Step := work.flatMap Job.pending

theorem Work.pending_append (a b : Work) : pending (a ++ b) = pending a ++ pending b := by
  simp [pending]

theorem Work.pending_cons (job : Job) (work : Work) :
    pending (job :: work) = job.pending ++ pending work := by
  simp [pending]

/-! ### Iterations that pauses may bar -/

namespace Piece

/-- Whether no step is entered once a pause has kept one from being entered. -/
def Undisturbed (ps : List Piece) : Prop :=
  ps.Pairwise fun p q => p.isBarred = true → q.job.isEnter = false

def entered (ps : List Piece) : List Step := (marks ps).filterMap Mark.entered?

instance (ps : List Piece) : Decidable (Undisturbed ps) :=
  inferInstanceAs (Decidable (ps.Pairwise fun p q => p.isBarred = true → q.job.isEnter = false))

theorem undisturbed_of_free {ps : List Piece} (free : ∀ p ∈ ps, p.isBarred = false) :
    Undisturbed ps := by
  rw [Undisturbed, List.pairwise_iff_getElem]
  intro i j hi hj hij hb
  rw [free _ (List.getElem_mem hi)] at hb
  cases hb

theorem undisturbed_snoc {ps : List Piece} {p : Piece} :
    Undisturbed (ps ++ [p]) ↔
      Undisturbed ps ∧ ((∃ q ∈ ps, q.isBarred = true) → p.job.isEnter = false) := by
  unfold Undisturbed
  rw [List.pairwise_append]
  constructor
  · rintro ⟨h, -, hp⟩
    refine ⟨h, ?_⟩
    rintro ⟨q, hq, hb⟩
    exact hp q hq p (by simp) hb
  · rintro ⟨h, hp⟩
    refine ⟨h, List.pairwise_singleton _ _, ?_⟩
    intro q hq p' hp' hb
    obtain rfl : p' = p := by simpa using hp'
    exact hp ⟨q, hq, hb⟩

theorem marks_snoc (ps : List Piece) (p : Piece) : marks (ps ++ [p]) = marks ps ++ p.mark?.toList := by
  cases hm : p.mark? <;> simp [marks, hm]

theorem entered_snoc (ps : List Piece) (p : Piece) :
    entered (ps ++ [p]) = entered ps ++ (p.mark?.toList).filterMap Mark.entered? := by
  rw [entered, marks_snoc, List.filterMap_append, entered]

end Piece

open Piece (Undisturbed)

variable {setup : Setup} {w : World} {r : Run} {part : List Mark} {p : Piece} {rest work work' : Work}
  {ps : List Piece}

/-- In the middle of an iteration no step comes up again. -/
theorem Run.Progress.nodup_pending (h : r.Progress w part (p.job :: rest))
    (distinct : (Forest.inOrder r.script.steps).Nodup) (nodup : (Work.pending (p.job :: rest)).Nodup) :
    (Work.pending (p.next setup ++ rest)).Nodup := by
  obtain ⟨w', s, job⟩ := p
  have closing : Work.pending (State.closing r) = [] := rfl
  rw [Work.pending_append]
  rw [Work.pending_cons] at nodup
  rcases h.cases_cons with ⟨pause, -⟩ | ⟨rfl, -, rfl⟩ | ⟨rfl, -, rfl⟩ | ⟨ws, -, walk, -⟩ |
    ⟨rfl, rfl, -⟩ | ⟨rfl, rfl, -⟩
  · cases job with
    | rest ms | giveWay ms => exact nodup
    | _ => cases pause
  · simp only [Piece.next, Job.run, Job.guarded, closing, List.append_nil]
    split <;> exact List.nodup_nil
  · simp only [Piece.next, Job.run, closing, List.append_nil]
    split
    · exact List.nodup_nil
    · simpa [Work.pending, Job.pending] using distinct
  · exact nodup.sublist ((Job.pending_run walk.head rfl).append_right _)
  · simp only [Piece.next, Job.run, Job.guarded, closing, List.append_nil]
    split <;> exact List.nodup_nil
  · exact List.nodup_nil

/-- Where a pause keeps a step from being entered, that step was to be shown next, and the work that is
left is idle. -/
theorem Run.Progress.barred (h : r.Progress w part (p.job :: rest)) (hb : p.isBarred = true) :
    ∃ x more, (r.reading w).marks = part ++ .entered true x :: more ∧ p.mark? = none ∧
      p.next setup = [] ∧ (∀ job ∈ rest, job.isIdle = true) ∧
      ((Work.pending (p.job :: rest)).Nodup → x ∉ Work.pending rest) := by
  obtain ⟨w', s, job⟩ := p
  cases job with
  | levelOpen l x steps =>
    have hp : s.phase = .paused := by simpa [Piece.isBarred] using hb
    rcases h.cases_cons with ⟨hj, -⟩ | ⟨hj, -⟩ | ⟨hj, -⟩ | ⟨ws, rfl, walk, hr⟩ | ⟨hj, -⟩ | ⟨hj, -⟩
    · cases hj
    · cases hj
    · cases hj
    · obtain rfl : l = ⟨r, true⟩ := walk.head
      obtain ⟨more, marks⟩ : ∃ more, (r.reading w).marks = part ++ .entered true x :: more := by
        rw [← hr, Work.reading, Job.reading, Step.reading, Reading.andThen_assoc,
          Reading.andThen_assoc, Reading.marks_andThen, Reading.marks_andThen]
        exact ⟨_, rfl⟩
      refine ⟨x, more, marks, rfl, by simp [Piece.next, Job.run, Job.unlessPaused, hp], ?_, ?_⟩
      · intro job hj
        rcases List.mem_append.mp hj with hj | hj
        · have trails := List.all_eq_true.mp (walk.trails rfl) job hj
          cases job <;> first | rfl | cases trails
        · simp only [State.closing, List.mem_cons, List.not_mem_nil, or_false] at hj
          rcases hj with rfl | rfl | rfl <;> rfl
      · intro nodup hx
        rw [Work.pending_cons, Job.pending, Forest.inOrder, List.cons_append, List.nodup_cons] at nodup
        exact nodup.1 (List.mem_append_right _ hx)
    · cases hj
    · cases hj
  | _ => cases hb

/-- Where the loop of a run stands in an iteration: it goes on as the plain reading of the script does,
or it left it because a pause kept a step from being entered, or it has strayed from it since then. -/
inductive Run.Stand (w : World) (r : Run) (ps : List Piece) (work : Work) : Prop
  | onCourse : r.Progress w (Piece.marks ps) work → (∀ p ∈ ps, p.isBarred = false) →
      ((Forest.inOrder r.script.steps).Nodup → work.pending.Nodup) → Stand w r ps work
  | left (x : Step) (more : List Mark) :
      (r.reading w).marks = Piece.marks ps ++ .entered true x :: more →
      (∃ p ∈ ps, p.isBarred = true) → Undisturbed ps → (∀ job ∈ work, job.isIdle = true) →
      ((Forest.inOrder r.script.steps).Nodup → x ∉ work.pending) → Stand w r ps work
  | strayed : ¬ Undisturbed ps → ((Forest.inOrder r.script.steps).Nodup →
      ¬ Piece.entered ps <+: (r.reading w).entered) → Stand w r ps work

namespace Run.Stand

/-- A loop that is on course stays so, or leaves it where a pause keeps a step from being entered. -/
theorem step_onCourse (progress : r.Progress w (Piece.marks ps) (p.job :: rest))
    (free : ∀ p ∈ ps, p.isBarred = false)
    (nodup : (Forest.inOrder r.script.steps).Nodup → (Work.pending (p.job :: rest)).Nodup)
    (hw : p.world = w) (hh : p.job.isHalt = false) (hc : p.job.isCount = false)
    (live : p.state.isCancelled r.token = false) : r.Stand w (ps ++ [p]) (p.next setup ++ rest) := by
  cases hb : p.isBarred with
  | false =>
    have progress' : r.Progress w _ (p.next setup ++ rest) := progress.advance hw hh live hb
    rw [hc] at progress'
    refine .onCourse ?_ ?_ fun distinct => progress.nodup_pending distinct (nodup distinct)
    · rw [Piece.marks_snoc]
      exact progress'
    · simp only [List.mem_append, List.mem_singleton]
      rintro q (hq | rfl)
      · exact free q hq
      · exact hb
  | true =>
    obtain ⟨x, more, marks, silent, hn, idle, fresh⟩ :
        ∃ x more, _ ∧ _ ∧ p.next setup = [] ∧ _ := progress.barred hb
    rw [hn, List.nil_append]
    refine .left x more ?_ ⟨p, by simp, hb⟩ ?_ idle fun distinct => fresh (nodup distinct)
    · rw [Piece.marks_snoc, silent]
      simpa using marks
    · refine Piece.undisturbed_snoc.mpr ⟨Piece.undisturbed_of_free free, ?_⟩
      rintro ⟨q, hq, hb⟩
      rw [free q hq] at hb
      cases hb

/-- A loop that left its course strays from it when it enters a step. -/
theorem step_left {x : Step} {more : List Mark}
    (marks : (r.reading w).marks = Piece.marks ps ++ .entered true x :: more)
    (barred : ∃ p ∈ ps, p.isBarred = true) (calm : Undisturbed ps)
    (idle : ∀ job ∈ p.job :: rest, job.isIdle = true)
    (fresh : (Forest.inOrder r.script.steps).Nodup → x ∉ Work.pending (p.job :: rest))
    (hc : p.job.isCount = false) : r.Stand w (ps ++ [p]) (p.next setup ++ rest) := by
  rw [Work.pending_cons] at fresh
  cases he : p.job.isEnter with
  | false =>
    obtain ⟨silent, idle', within⟩ := Job.isIdle_run (idle _ List.mem_cons_self) he hc
    refine .left x more ?_ ?_ ?_ ?_ ?_
    · rw [Piece.marks_snoc, Piece.mark?, silent]
      simpa using marks
    · obtain ⟨q, hq, hb⟩ := barred
      exact ⟨q, List.mem_append_left _ hq, hb⟩
    · exact Piece.undisturbed_snoc.mpr ⟨calm, fun _ => he⟩
    · intro job hj
      rcases List.mem_append.mp hj with hj | hj
      · exact idle' job hj
      · exact idle job (List.mem_cons_of_mem _ hj)
    · intro distinct hx
      rw [Work.pending_append] at hx
      exact fresh distinct (List.mem_append.mpr ((List.mem_append.mp hx).imp_left (within x)))
  | true =>
    obtain ⟨w', s, job⟩ := p
    cases job with
    | enter l y =>
      refine .strayed ?_ fun distinct hprefix => ?_
      · intro calm'
        have entersNone := (Piece.undisturbed_snoc.mp calm').2 barred
        cases entersNone
      · -- The step that was barred was to be entered here, and it is another one.
        have entered : (r.reading w).entered =
            Piece.entered ps ++ x :: more.filterMap Mark.entered? := by
          simp [Reading.entered, marks, Piece.entered, Mark.entered?]
        rw [Piece.entered_snoc, entered, List.prefix_append_right_inj] at hprefix
        have same : y = x := by
          simpa [Piece.mark?, Job.mark, Mark.entered?] using hprefix
        apply fresh distinct
        simp [Job.pending, same]
    | _ => cases he

/-- A piece of work within the iteration leads from one stand to another. -/
theorem step (h : r.Stand w ps (p.job :: rest)) (hw : p.world = w) (hh : p.job.isHalt = false)
    (hc : p.job.isCount = false) (live : p.state.isCancelled r.token = false) :
    r.Stand w (ps ++ [p]) (p.next setup ++ rest) := by
  cases h with
  | onCourse progress free nodup => exact step_onCourse progress free nodup hw hh hc live
  | left x more marks barred calm idle fresh => exact step_left marks barred calm idle fresh hc
  | strayed disturbed lost =>
    refine .strayed ?_ fun distinct hprefix => ?_
    · intro calm
      exact disturbed (Piece.undisturbed_snoc.mp calm).1
    · rw [Piece.entered_snoc] at hprefix
      exact lost distinct ((List.prefix_append _ _).trans hprefix)

/-- The pieces of work of an iteration lead from its beginning to a stand. -/
theorem of_goes (h : r.Progress w [] work) (fresh : work.pending = []) (goes : work.Goes setup ps work')
    (free : ∀ p ∈ ps, p.world = w ∧ p.state.isCancelled r.token = false ∧ p.job.isCount = false) :
    r.Stand w ps work' := by
  induction goes with
  | refl => exact .onCourse h (by simp) fun _ => by simp [fresh]
  | @snoc ps p rest goes hh ih =>
    obtain ⟨hw, live, hc⟩ := free p (by simp)
    exact (ih fun q hq => free q (List.mem_append_left _ hq)).step hw hh hc live

/-- What was shown is a beginning of the plain reading where no step was entered after a pause had kept
one from being entered. -/
theorem isPrefix (h : r.Stand w ps work) (calm : Undisturbed ps) :
    Piece.marks ps <+: (r.reading w).marks := by
  cases h with
  | onCourse progress => exact progress.isPrefix
  | left x more marks =>
    rw [marks]
    exact List.prefix_append _ _
  | strayed disturbed => exact absurd calm disturbed

/-- Where a step was entered after a pause had kept one from being entered, and all steps differ, the
steps that were entered are no beginning of the plain reading. -/
theorem undisturbed (h : r.Stand w ps work) (distinct : (Forest.inOrder r.script.steps).Nodup)
    (hp : Piece.entered ps <+: (r.reading w).entered) : Undisturbed ps := by
  cases h with
  | onCourse _ free => exact Piece.undisturbed_of_free free
  | left _ _ _ _ calm => exact calm
  | strayed _ lost => exact absurd hp (lost distinct)

end Run.Stand

def Happening.loopStep? (r : Run) (e : Happening) : Option Step :=
  (e.loopMark? r).bind Mark.entered?

/-- Within an iteration, whenever the run is paused and resumed, the loop enters a beginning of the
steps that it enters when it is never paused, as long as it enters none after a pause kept one from
being entered. Where all steps of the script differ it does so in no other case. -/
theorem Course.pausing {m₀ m : Moment} {hs₀ hs : List Happening} (c₀ : Course setup .fresh hs₀ m₀)
    (begins : m₀.Begins r) (c : Course setup m₀ hs m) (steady : ∀ e ∈ hs, e.IsIn w)
    (single : ∀ p ∈ pieces r hs, p.job.isCount = false) :
    (Undisturbed (pieces r hs) → hs.filterMap (·.loopMark? r) <+: (r.reading w).marks ∧
      hs.filterMap (·.loopStep? r) <+: (r.reading w).entered) ∧
    ((Forest.inOrder r.script.steps).Nodup →
      hs.filterMap (·.loopStep? r) <+: (r.reading w).entered → Undisturbed (pieces r hs)) ∧
    (m₀.active = none → m₀.state.phase = .running → ∃ hs' m', Course setup m₀ hs' m' ∧
      (∀ e ∈ hs', e.IsCalm w) ∧ hs'.filterMap (·.loopMark? r) = (r.reading w).marks) := by
  have sound₀ : m₀.Sound := c₀.sound Moment.sound_fresh
  obtain ⟨pauses, hp, loops₀⟩ := begins
  have start : r.Progress w [] (pauses ++ .iterate r :: State.closing r) := .waiting hp
  have marks_eq : hs.filterMap (·.loopMark? r) = Piece.marks (pieces r hs) := c.loopMarks_eq sound₀
  have entered_eq : hs.filterMap (·.loopStep? r) = Piece.entered (pieces r hs) := by
    rw [Piece.entered, ← marks_eq, List.filterMap_filterMap]
    rfl
  -- A pause and the closing of the run hold no steps.
  have fresh : Work.pending (pauses ++ .iterate r :: State.closing r) = [] := by
    rw [Work.pending_append, Work.pending, List.flatMap_eq_nil_iff.mpr]
    · rfl
    · intro job hj
      have := hp job hj
      cases job <;> first | rfl | cases this
  have free : ∀ p ∈ pieces r hs,
      p.world = w ∧ p.state.isCancelled r.token = false ∧ p.job.isCount = false := by
    intro p hm
    obtain ⟨live, t, before, -, he, -⟩ := c.of_mem_pieces hm
    exact ⟨steady _ he _ _ _ _ rfl, live, single p hm⟩
  obtain ⟨ps, work, stand, shown, undisturbed⟩ : ∃ ps work, r.Stand w ps work ∧
      Piece.marks (pieces r hs) = Piece.marks ps ∧ (Undisturbed (pieces r hs) ↔ Undisturbed ps) := by
    obtain ⟨ps, work, goes, ends⟩ := c.loop sound₀ loops₀
    rcases ends with ⟨same, -⟩ | ⟨-, ⟨same, -⟩ | ⟨p, rest, -, hj, same⟩⟩
    · rw [same] at free ⊢
      exact ⟨ps, work, .of_goes start fresh goes free, rfl, Iff.rfl⟩
    · rw [same] at free ⊢
      exact ⟨ps, work, .of_goes start fresh goes free, rfl, Iff.rfl⟩
    · -- What stops the run shows nothing and enters no step.
      rw [same] at free ⊢
      refine ⟨ps, work, .of_goes start fresh goes fun q hq => free q (List.mem_append_left _ hq), ?_, ?_⟩
      · rw [Piece.marks_snoc, Piece.mark?, hj]
        exact List.append_nil _
      · rw [Piece.undisturbed_snoc, hj]
        exact and_iff_left fun _ => rfl
  have entered : Piece.entered (pieces r hs) = Piece.entered ps := by
    rw [Piece.entered, shown, Piece.entered]
  refine ⟨fun calm => ?_, fun distinct => ?_, fun ha running => ?_⟩
  · rw [marks_eq, entered_eq, shown, entered]
    have marks : Piece.marks ps <+: (r.reading w).marks := stand.isPrefix (undisturbed.mp calm)
    exact ⟨marks, marks.filterMap _⟩
  · rw [entered_eq, entered, undisturbed]
    exact stand.undisturbed distinct
  · obtain ⟨hs', m', c', calm', marks, -⟩ :=
      start.finishes setup sound₀ loops₀ (by simp [Moment.Yields, ha]) running
    exact ⟨hs', m', c', calm', marks⟩

/-- A script with a group of two steps, which is left only after a while, and a step after it. -/
def Script.lingering : Script :=
  let go (id : String) (delay : Option UInt64) : Step :=
    .action ⟨id, none, none, delay⟩ (.flow .proceed)
  { (default : Script) with
    name := "lingering"
    steps := [.group ⟨"group", none, none, some 100⟩ "" [go "first" (some 10), go "second" none],
      go "last" none] }

/-- The group is left as long as the run is paused, which stays so until the iteration ends. -/
theorem pausing_lingering :
    ∃ w r m₀ hs₀ m hs, Course ⟨{}, 500, true⟩ .fresh hs₀ m₀ ∧ m₀.Begins r ∧
      Course ⟨{}, 500, true⟩ m₀ hs m ∧ (∀ e ∈ hs, e.IsIn w) ∧
      (∀ p ∈ Course.pieces r hs, p.job.isCount = false) ∧ (Forest.inOrder r.script.steps).Nodup ∧
      (∃ e ∈ hs, e.isPause = true) ∧ Undisturbed (Course.pieces r hs) ∧
      hs.filterMap (·.loopStep? r) <+: (r.reading w).entered ∧
      (hs.filterMap (·.loopStep? r)).map Step.id = ["group", "first"] := by
  let w : World := ⟨fun _ => .ok none, fun _ => .ok (), fun _ _ => .ok (), fun _ => .ok ()⟩
  let r : Run := ⟨0, Script.lingering.withDefaults⟩
  let m₀ : Moment := ⟨(({} : State).start ⟨{}, 500, true⟩ .lingering).2, none⟩
  have c₀ : Course ⟨{}, 500, true⟩ .fresh _ m₀ := .single (.ask {} (.start .lingering))
  obtain ⟨begins, running⟩ : m₀.Begins r ∧ m₀.state.phase = .running :=
    Moment.begins_start State.orderly_fresh rfl
  obtain ⟨hs, m, c, steady, found⟩ := @Moment.exists_course ⟨{}, 500, true⟩ m₀ w
    (.turn 0 :: List.replicate 16 .go ++ [.ask .pause, .pass 10, .turn 0] ++ List.replicate 3 .go ++
      [.pass 100, .turn 0] ++ List.replicate 3 .go)
    (fun hs _ => (Course.pieces r hs).all (fun p => !p.job.isCount) && hs.any Happening.isPause &&
      decide (Undisturbed (Course.pieces r hs)) &&
      (hs.filterMap (·.loopStep? r)).map Step.id == ["group", "first"])
    (by decide +kernel)
  simp only [Bool.and_eq_true, List.all_eq_true, List.any_eq_true, Bool.not_eq_true', beq_iff_eq,
    decide_eq_true_eq] at found
  obtain ⟨⟨⟨single, paused⟩, calm⟩, entered⟩ := found
  obtain ⟨shown, only, -⟩ := c₀.pausing begins c steady single
  have distinct : (Forest.inOrder r.script.steps).Nodup :=
    List.Nodup.of_map Step.id (by decide +kernel)
  exact ⟨w, r, m₀, _, m, hs, c₀, begins, c, steady, single, distinct, paused,
    only distinct (shown calm).2, (shown calm).2, entered⟩

/-- Where the run is resumed after the group was left, but before the step after it was to be entered,
that step is entered, and the rest of the group is skipped. -/
theorem pausing_skips :
    ∃ w r m₀ hs₀ m hs m' hs', Course ⟨{}, 500, true⟩ .fresh hs₀ m₀ ∧ m₀.Begins r ∧
      Course ⟨{}, 500, true⟩ m₀ hs m ∧ Course ⟨{}, 500, true⟩ m₀ hs' m' ∧
      (∀ e ∈ hs ++ hs', e.IsIn w) ∧ (∀ e ∈ hs', e.isPause = false) ∧
      (∀ p ∈ Course.pieces r hs ++ Course.pieces r hs', p.job.isCount = false) ∧
      (hs.filterMap (·.loopStep? r)).map Step.id = ["group", "first", "last"] ∧
      (hs'.filterMap (·.loopStep? r)).map Step.id = ["group", "first", "second", "last"] ∧
      ¬ hs.filterMap (·.loopStep? r) <+: hs'.filterMap (·.loopStep? r) := by
  let w : World := ⟨fun _ => .ok none, fun _ => .ok (), fun _ _ => .ok (), fun _ => .ok ()⟩
  let r : Run := ⟨0, Script.lingering.withDefaults⟩
  let m₀ : Moment := ⟨(({} : State).start ⟨{}, 500, true⟩ .lingering).2, none⟩
  have c₀ : Course ⟨{}, 500, true⟩ .fresh _ m₀ := .single (.ask {} (.start .lingering))
  have begins : m₀.Begins r := (Moment.begins_start State.orderly_fresh rfl).1
  obtain ⟨hs, m, c, steady, found⟩ := @Moment.exists_course ⟨{}, 500, true⟩ m₀ w
    (.turn 0 :: List.replicate 16 .go ++ [.ask .pause, .pass 10, .turn 0] ++ List.replicate 3 .go ++
      [.ask .resume, .pass 100, .turn 0] ++ List.replicate 11 .go)
    (fun hs _ => (Course.pieces r hs).all (fun p => !p.job.isCount) &&
      (hs.filterMap (·.loopStep? r)).map Step.id == ["group", "first", "last"])
    (by decide +kernel)
  obtain ⟨hs', m', c', steady', found'⟩ := @Moment.exists_course ⟨{}, 500, true⟩ m₀ w
    (.turn 0 :: List.replicate 16 .go ++ [.pass 10, .turn 0] ++ List.replicate 11 .go ++
      [.pass 100, .turn 0] ++ List.replicate 11 .go)
    (fun hs _ => (Course.pieces r hs).all (fun p => !p.job.isCount) &&
      hs.all (fun e => !e.isPause) &&
      (hs.filterMap (·.loopStep? r)).map Step.id == ["group", "first", "second", "last"])
    (by decide +kernel)
  simp only [Bool.and_eq_true, List.all_eq_true, Bool.not_eq_true', beq_iff_eq] at found found'
  obtain ⟨single, entered⟩ := found
  obtain ⟨⟨single', unpaused⟩, entered'⟩ := found'
  refine ⟨w, r, m₀, _, m, hs, m', hs', c₀, begins, c, c', ?_, unpaused, ?_, entered, entered', ?_⟩
  · intro e he
    exact (List.mem_append.mp he).elim (steady e) (steady' e)
  · intro p hp
    exact (List.mem_append.mp hp).elim (single p) (single' p)
  · intro h
    have := h.map Step.id
    rw [entered, entered'] at this
    revert this
    decide

end DeskScript

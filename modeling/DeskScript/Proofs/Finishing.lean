import DeskScript.Proofs.Iteration

/-! An iteration comes to its end: the loop of a run that nobody interrupts gets to the point where the
iteration is counted or the run is stopped. -/

namespace DeskScript

namespace Work

/-- A bound for the pieces of work to be done, whatever comes in between. -/
def left (w : World) : Work → Nat
  | [] => 0
  | job :: work => job.effort w + left w work

theorem left_append (w : World) (a b : Work) : left w (a ++ b) = left w a + left w b := by
  induction a with
  | nil => simp [left]
  | cons job a ih => rw [List.cons_append, left, left, ih, Nat.add_assoc]

theorem effort_eq_left {w : World} {work : Work} (h : ∀ ms, .giveWay ms ∉ work) :
    effort w work = left w work := by
  induction work with
  | nil => rfl
  | cons job work ih =>
    rw [left, ← ih fun ms hm => h ms (List.mem_cons_of_mem _ hm)]
    cases job with
    | giveWay ms => exact absurd List.mem_cons_self (h ms)
    | _ => rfl

end Work

variable {setup : Setup} {w : World} {r : Run} {part : List Mark} {p : Piece} {rest work : Work}

/-- Every piece of work leaves less to be done before the iteration is counted. -/
theorem Run.Progress.left_lt (h : r.Progress w part (p.job :: rest)) (hw : p.world = w)
    (hh : p.job.isHalt = false) (hc : p.job.isCount = false)
    (live : p.state.isCancelled r.token = false) (running : p.state.phase ≠ .paused) :
    Work.left w (p.next setup ++ rest) < Work.left w (p.job :: rest) := by
  obtain ⟨w', s, job⟩ := p
  subst hw
  rw [Work.left_append, Work.left]
  refine Nat.add_lt_add_right ?_ _
  have live : s.isCancelled r.token = false := live
  have running : s.phase ≠ .paused := running
  show Work.left w' (job.run setup w' s).next < job.effort w'
  rcases h.cases_cons with ⟨pause, -⟩ | ⟨rfl, -⟩ | ⟨rfl, -⟩ | ⟨ws, -, walk, -⟩ | ⟨rfl, -⟩ | ⟨rfl, -⟩
  · cases job with
    | rest ms | giveWay ms => exact Nat.one_pos
    | _ => cases pause
  · simp [Job.run, Job.guarded, live, Work.left, Job.effort]
  · simp [Job.run, running, Work.left, Job.effort]
    omega
  · -- In the middle of the steps nothing gives way and no stock is taken of the observers.
    have own := walk.head
    have walk' : Lane.Walk ⟨r, true⟩ ((job.run setup w' s).next ++ ws) :=
      walk.run hh setup w' (by simp)
    have steady : ∀ ms, .giveWay ms ∉ (job.run setup w' s).next :=
      fun ms hm => walk'.own _ (List.mem_append_left _ hm)
    have looks : job.looks = 0 := by
      cases job <;> first | rfl | exact absurd own (by simp [Job.IsOf])
    rw [← Work.effort_eq_left steady]
    have less := job.effort_run setup w' s
    omega
  · simp [Job.run, Job.guarded, live, Work.left, Job.effort]
  · cases hc

theorem Happening.isCalm_shifted : Happening.IsCalm w .shifted := by
  refine ⟨?_, rfl, rfl⟩
  intro w' s t job he
  cases he

theorem Happening.isCalm_worked {s : State} {t : Thread} {job : Job} (hl : t.isLoopOf r = true) :
    Happening.IsCalm w (.worked w s t job) := by
  have role := (Thread.isLoopOf_iff.mp hl).1
  refine ⟨?_, rfl, ?_⟩
  · intro w' s' t' job' he
    cases he
    rfl
  · cases job <;> simp [isStop, role]

/-- The loop of a run has its turn, or no thread has. -/
def Moment.Yields (m : Moment) (r : Run) (work : Work) : Prop :=
  ∀ t, m.active = some t → t.isLoopOf r = true ∧ t.work = work

namespace Moment.Loops

/-- The loop of a run can have its turn whenever no other thread has, and shows nothing before it. -/
theorem turn {m : Moment} (h : m.Loops r work) (ha : m.Yields r work) :
    ∃ hs s t, Course setup m hs ⟨s, some t⟩ ∧ (∀ e ∈ hs, e.IsCalm w) ∧
      hs.filterMap (·.loopMark? r) = [] ∧ Loops ⟨s, some t⟩ r work ∧ t.isLoopOf r = true ∧
      t.work = work ∧ s.phase = m.state.phase ∧ s.iterations = m.state.iterations := by
  obtain ⟨s, active⟩ := m
  cases active with
  | some t =>
    obtain ⟨hl, hw⟩ := ha t rfl
    exact ⟨[], s, t, .refl, by simp, rfl, h, hl, hw, rfl, rfl⟩
  | none =>
    obtain ⟨t, ht, loop, hw⟩ := h.loop
    have live : s.isCancelled r.token = false := h.live
    obtain ⟨before, after, hs⟩ := List.append_of_mem (mem_threads_none.mp ht)
    -- Time passes until the loop is due.
    let s' : State := { s with clock := s.clock + (t.due - s.clock) }
    have ready : t.isReady s' = true := by
      have : t.due ≤ s.clock + (t.due - s.clock) := by omega
      simp [Thread.isReady, s', this]
    have token := (Thread.isLoopOf_iff.mp loop).2
    have same : t.resume s' = t := by
      have live' : s'.isCancelled r.token = false := live
      simp [Thread.resume, token, live']
    have turn : Step setup ⟨s', none⟩ .shifted
        ⟨{ s' with threads := before ++ after }, some (t.resume s')⟩ := .turn hs ready
    rw [same] at turn
    have calm : Happening.IsCalm w .shifted := Happening.isCalm_shifted
    refine ⟨_, _, t, .cons (.pass s (t.due - s.clock)) (.single turn), by simpa using calm, rfl, ?_,
      loop, hw, rfl, rfl⟩
    exact ⟨h.run, live, ⟨t, mem_threads_some.mpr (.inl rfl), loop, hw⟩, h.ne_nil⟩

/-- When the loop has its turn it can do its next piece of work, and no other thread has its turn right
after that. -/
theorem piece {s : State} {t : Thread} {job : Job} (h : Loops ⟨s, some t⟩ r (job :: rest))
    (sound : Sound ⟨s, some t⟩) (hl : t.isLoopOf r = true) (hw : t.work = job :: rest)
    (setup : Setup) (w : World) : ∃ m, Step setup ⟨s, some t⟩ (.worked w s t job) m ∧
      m.Yields r ((job.run setup w s).next ++ rest) ∧
      (m.state.iterations = s.iterations + if job.isCount then 1 else 0) ∧
      (job.isHalt = false → m.state.phase = s.phase) := by
  have alive : t.Alive s := sound.alive h.run h.live hw
  obtain ⟨m, st, yields⟩ : ∃ m, Step setup ⟨s, some t⟩ (.worked w s t job) m ∧
      m.Yields r ((job.run setup w s).next ++ rest) := by
    cases hp : (job.run setup w s).pause with
    | none =>
      refine ⟨_, .work w hw hp, ?_⟩
      intro t' ht
      cases ht
      exact ⟨hl, rfl⟩
    | some ms =>
      refine ⟨_, .wait w hw hp, ?_⟩
      intro t' ht
      cases ht
  obtain ⟨rest', -, -, ⟨threads, hs⟩, -⟩ := st.after
  refine ⟨m, st, yields, ?_, ?_⟩
  · rw [hs]
    exact job.iterations_run setup w s
  · intro hh
    have spares : s.Spares (job.run setup w s).state := alive.spares hw hh sound.live
    rw [hs]
    exact spares.phase

end Moment.Loops

/-- Where no other thread has its turn, the script's loop can go on to the point where the iteration is
counted or the run is stopped, and shows what there is left of the iteration until then. -/
theorem Run.Progress.finishes (setup : Setup) {m : Moment} (h : r.Progress w part work)
    (sound : m.Sound) (loops : m.Loops r work) (ha : m.Yields r work)
    (running : m.state.phase = .running) :
    ∃ hs m', Course setup m hs m' ∧ (∀ e ∈ hs, e.IsCalm w) ∧
      part ++ hs.filterMap (·.loopMark? r) = (r.reading w).marks ∧
      (m'.state.isCancelled r.token = true ∨
        m'.state.run = some r ∧ m'.state.iterations = m.state.iterations + 1) := by
  induction hn : work.left w using Nat.strongRecOn generalizing m part work with
  | ind n ih =>
    obtain ⟨hs₀, s, t, c₀, calm₀, silent, loops₀, hl, hw, phase, count⟩ :
        ∃ hs s t, Course setup m hs ⟨s, some t⟩ ∧ (∀ e ∈ hs, e.IsCalm w) ∧ _ := loops.turn ha
    have sound₀ : Moment.Sound ⟨s, some t⟩ := c₀.sound sound
    have live : s.isCancelled r.token = false := loops₀.live
    have running₀ : s.phase = .running := phase.trans running
    cases work with
    | nil => exact absurd rfl loops.ne_nil
    | cons job rest =>
      obtain ⟨m₁, st, yields, iterations, same⟩ := loops₀.piece sound₀ hl hw setup w
      rw [count] at iterations
      have c₁ : Course setup m (hs₀ ++ [.worked w s t job]) m₁ := c₀.snoc st
      have calm₁ : ∀ e ∈ hs₀ ++ [.worked w s t job], e.IsCalm w := by
        intro e he
        rcases List.mem_append.mp he with he | he
        · exact calm₀ e he
        · rw [List.mem_singleton.mp he]
          exact Happening.isCalm_worked hl
      have shown : (hs₀ ++ [Happening.worked w s t job]).filterMap (·.loopMark? r) =
          (job.mark w).toList := by
        rw [List.filterMap_append, silent]
        cases hm : job.mark w <;> simp [Happening.loopMark?, hl, hm]
      have hp : Happening.piece? r (.worked w s t job) = some ⟨w, s, job⟩ := by
        simp [Happening.piece?, hl, live]
      cases loops₀.step sound₀ st with
      | aside he => exact absurd (hp.symm.trans he) (by simp)
      | stopped he => exact absurd (hp.symm.trans he) (by simp)
      | halted p rest' he hj _ hc =>
        cases hj
        have whole : r.reading w = ⟨part, true⟩ := h.halt
        refine ⟨_, m₁, c₁, calm₁, ?_, .inl hc⟩
        rw [shown, whole]
        exact List.append_nil _
      | own p rest' he hw' hh loops₁ =>
        obtain rfl : p = ⟨w, s, job⟩ := Option.some.inj (he.symm.trans hp)
        cases hw'
        have hh : job.isHalt = false := hh
        cases hc : job.isCount with
        | true =>
          rw [hc] at iterations
          refine ⟨_, m₁, c₁, calm₁, ?_, .inr ⟨loops₁.run, iterations⟩⟩
          cases job with
          | count r' =>
            have whole : r.reading w = ⟨part, false⟩ := h.counted
            rw [shown, whole]
            exact List.append_nil _
          | _ => cases hc
        | false =>
          rw [hc] at iterations
          have unpaused : s.phase ≠ .paused := by simp [running₀]
          have progress₁ : r.Progress w _ (Piece.next setup ⟨w, s, job⟩ ++ rest) :=
            h.advance rfl hh live (by cases job <;> simp [Piece.isBarred, unpaused])
          have hc' : Job.isCount (Piece.job ⟨w, s, job⟩) = false := hc
          rw [hc'] at progress₁
          have less : Work.left w (Piece.next setup ⟨w, s, job⟩ ++ rest) < n :=
            hn ▸ h.left_lt (p := ⟨w, s, job⟩) rfl hh hc live unpaused
          obtain ⟨hs₁, m', c₂, calm₂, marks, goal⟩ :=
            ih _ less progress₁ (sound₀.step st) loops₁ yields ((same hh).trans running₀) rfl
          refine ⟨_, m', c₁.append c₂, ?_, ?_, by rwa [iterations] at goal⟩
          · intro e he
            exact (List.mem_append.mp he).elim (calm₁ e) (calm₂ e)
          · rw [List.filterMap_append, shown, ← List.append_assoc]
            exact marks

/-! ### Iterations over and over -/

/-- As long as nobody interferes the loop of a run shows whole readings of its script, and then a part of
one: all of it, if the reading stops the run. -/
theorem Course.iterates {m₀ m : Moment} {hs : List Happening} (c : Course setup m₀ hs m)
    (sound₀ : m₀.Sound) (begins : m₀.Begins r) (unpaused : m₀.state.phase ≠ .paused)
    (calm : ∀ e ∈ hs, e.IsCalm w) : ∃ k part, hs.filterMap (·.loopMark? r) =
        (List.replicate k (r.reading w).marks).flatten ++ part ∧
      part <+: (r.reading w).marks ∧
      ((r.reading w).stops = true → k = 0) ∧
      (m.state.run = some r → m.state.iterations = m₀.state.iterations + k) ∧
      (m.state.isCancelled r.token = true → r.reading w = ⟨part, true⟩) ∧
      (m.state.isCancelled r.token = false → ∃ work, r.Progress w part work ∧ m.Loops r work) := by
  obtain ⟨pauses, hp, loops₀⟩ := begins
  have marks_eq := c.loopMarks_eq (r := r) sound₀
  have iterations := c.iterations_eq sound₀ loops₀.run
  obtain ⟨ps, work, goes, ends⟩ := c.loop sound₀ loops₀
  have within : ∀ p ∈ ps, p ∈ pieces r hs := by
    rcases ends with ⟨same, -⟩ | ⟨-, ⟨same, -⟩ | ⟨p, rest, -, -, same⟩⟩
    · simp [same]
    · simp [same]
    · simp only [same]
      exact fun q hq => List.mem_append_left _ hq
  have free : ∀ p ∈ ps, p.world = w ∧ p.state.isCancelled r.token = false ∧ p.isBarred = false := by
    intro p hm
    obtain ⟨hw, live, open'⟩ := c.free_of_calm unpaused calm p (within p hm)
    refine ⟨hw, live, ?_⟩
    unfold Piece.isBarred
    split <;> simp [open']
  have start : r.Progress w [] (pauses ++ .iterate r :: State.closing r) := .waiting hp
  obtain ⟨part, progress, marks, stops⟩ := start.of_goes goes free
  rcases ends with ⟨same, loops⟩ | ⟨hc, ⟨-, e, he, stop⟩ | ⟨p, rest, rfl, hj, same⟩⟩
  · refine ⟨_, part, ?_, progress.isPrefix, stops, ?_, ?_, fun _ => ⟨work, progress, loops⟩⟩
    · rw [marks_eq, same]
      exact marks
    · rwa [same] at iterations
    · intro hc
      exact absurd (hc.symm.trans loops.live) (by simp)
  · rw [(calm e he).unstopped] at stop
    cases stop
  · have silent : p.mark? = none := by rw [Piece.mark?, hj]; rfl
    have single : p.job.isCount = false := by rw [hj]; rfl
    refine ⟨_, part, ?_, progress.isPrefix, stops, ?_, fun _ => progress.halt, ?_⟩
    · rw [marks_eq, same]
      simpa [Piece.marks, silent] using marks
    · intro hr
      rw [iterations hr, same]
      simp [single]
    · intro live
      exact absurd (hc.symm.trans live) (by simp)

/-- As long as nobody interferes the loop of a run shows the plain reading of its script over and over.
The steps of the reading are entered in the order of the script, each once at most; where the reading
stops the run it does so in the first iteration, and nothing more is shown or counted; and every
iteration can be brought to its end. -/
theorem Course.repeats {m₀ m : Moment} {hs₀ hs : List Happening} (c₀ : Course setup .fresh hs₀ m₀)
    (begins : m₀.Begins r) (running : m₀.state.phase = .running) (c : Course setup m₀ hs m)
    (calm : ∀ e ∈ hs, e.IsCalm w) :
    (r.reading w).entered.Sublist (Forest.inOrder r.script.steps) ∧
    (∃ k part, hs.filterMap (·.loopMark? r) =
        (List.replicate k (r.reading w).marks).flatten ++ part ∧
      part <+: (r.reading w).marks ∧
      ((r.reading w).stops = true → k = 0) ∧
      (m.state.run = some r → m.state.iterations = m₀.state.iterations + k) ∧
      (m.state.isCancelled r.token = true → r.reading w = ⟨part, true⟩)) ∧
    (m.state.isCancelled r.token = false → m.active = none →
      ∃ hs' m', Course setup m hs' m' ∧ (∀ e ∈ hs', e.IsCalm w) ∧
        (m'.state.isCancelled r.token = true ∨
          m'.state.run = some r ∧ m'.state.iterations = m.state.iterations + 1)) := by
  have sound₀ : m₀.Sound := c₀.sound Moment.sound_fresh
  have sound : m.Sound := c.sound sound₀
  have unpaused : m₀.state.phase ≠ .paused := by simp [running]
  obtain ⟨k, part, marks, isPrefix, stops, iterations, whole, goes⟩ :=
    c.iterates sound₀ begins unpaused calm
  refine ⟨Forest.entered_reading w _ _, ⟨k, part, marks, isPrefix, stops, iterations, whole⟩, ?_⟩
  intro live ha
  obtain ⟨work, progress, loops⟩ := goes live
  have running : m.state.phase = .running :=
    (sound.orderly.going_iff.mpr ⟨r, loops.run, loops.live⟩).resolve_right
      (c.unpaused unpaused fun e he => (calm e he).free)
  obtain ⟨hs', m', c', calm', -, goal⟩ := progress.finishes setup sound loops (by simp [Moment.Yields, ha]) running
  exact ⟨hs', m', c', calm', goal⟩

/-- A script with a group and a conditional, which stops itself at its end. -/
theorem repeats_stopper :
    ∃ w r m₀ hs₀ m hs, Course ⟨{}, 500, true⟩ .fresh hs₀ m₀ ∧ m₀.Begins r ∧
      m₀.state.phase = .running ∧ Course ⟨{}, 500, true⟩ m₀ hs m ∧ (∀ e ∈ hs, e.IsCalm w) ∧
      hs.filterMap (·.loopMark? r) = (r.reading w).marks ∧ (r.reading w).stops = true ∧
      (hs.filterMap fun e => (e.loopMark? r).bind Mark.entered?).map Step.id =
        ["group", "in group", "branch", "otherwise", "end"] := by
  let header (id : String) : Header := ⟨id, none, none, none⟩
  let go (id : String) : Step := .action (header id) (.flow .proceed)
  let script : Script := { (default : Script) with
    name := "stopper"
    steps := [.group (header "group") "" [go "in group"],
      .conditional (header "branch") (.present (.position ⟨0, 0⟩)) [go "then"] [go "otherwise"],
      .action (header "end") (.flow .stop)] }
  let w : World := ⟨fun _ => .ok none, fun _ => .ok (), fun _ _ => .ok (), fun _ => .ok ()⟩
  let r : Run := ⟨0, script.withDefaults⟩
  let m₀ : Moment := ⟨(({} : State).start ⟨{}, 500, true⟩ script).2, none⟩
  have c₀ : Course ⟨{}, 500, true⟩ .fresh _ m₀ := .single (.ask {} (.start script))
  obtain ⟨begins, running⟩ : m₀.Begins r ∧ m₀.state.phase = .running :=
    Moment.begins_start State.orderly_fresh rfl
  obtain ⟨hs, m, c, steady, found⟩ := @Moment.exists_course ⟨{}, 500, true⟩ m₀ w
    (.turn 0 :: List.replicate 45 .go)
    (fun hs m => hs.all (fun e => !e.isPause && !e.isStop) && m.state.isCancelled r.token &&
      (hs.filterMap fun e => (e.loopMark? r).bind Mark.entered?).map Step.id ==
        ["group", "in group", "branch", "otherwise", "end"])
    (by decide +kernel)
  simp only [Bool.and_eq_true, List.all_eq_true, Bool.not_eq_true', beq_iff_eq] at found
  obtain ⟨⟨calm, stopped⟩, entered⟩ := found
  have calm' : ∀ e ∈ hs, e.IsCalm w := fun e he => ⟨steady e he, (calm e he).1, (calm e he).2⟩
  obtain ⟨-, ⟨k, part, marks, -, stops, -, whole⟩, -⟩ := c₀.repeats begins running c calm'
  have whole : r.reading w = ⟨part, true⟩ := whole stopped
  rw [stops (by rw [whole]), List.replicate_zero, List.flatten_nil, List.nil_append] at marks
  exact ⟨w, r, m₀, _, m, hs, c₀, begins, running, c, calm', by rw [marks, whole], by rw [whole], entered⟩

end DeskScript

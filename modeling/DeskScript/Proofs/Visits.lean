import DeskScript.Proofs.Loop
import DeskScript.Proofs.Parties

/-! Visits: somebody waits for an observer to be taken in. That is done before all else, and once. -/

namespace DeskScript

/-- Somebody who has waited since then for the observer to be taken in. -/
def Thread.visiting (o : Observer) (since : Nat) : Thread := ⟨.visitor, none, [.takeIn o], [], since⟩

/-- With somebody first in line who waits for the observer to be taken in. -/
def State.visit (s : State) (o : Observer) : State :=
  { s with threads := .visiting o s.clock :: s.threads }

/-- The observer that is taken in, if somebody waits for that. -/
def Happening.visited? : Happening → Option Observer
  | .worked _ _ t (.takeIn o) => if t.role = .visitor then some o else none
  | _ => none

/-- Whether nothing is to be taken in any more for the one who waits for the thread, if somebody does: it
has only steps before it. -/
def Thread.IsServed (t : Thread) : Prop :=
  t.role = .visitor → ∃ lane, ∀ job ∈ t.work ++ t.closing, job.IsFor lane

variable {setup : Setup} {w : World} {s : State} {t u : Thread} {job : Job} {rest : Work}
  {o : Observer} {m m' : Moment} {e : Happening} {hs : List Happening}

/-! ### Whom taking in is done for -/

namespace Thread

theorem isServed_of_role (h : t.role ≠ .visitor) : t.IsServed := fun visitor => absurd visitor h

theorem IsServed.resume (h : t.IsServed) (s : State) : (t.resume s).IsServed := by
  unfold Thread.resume
  split
  · split
    · intro visitor
      obtain ⟨lane, own⟩ := h visitor
      have closing : ∀ job ∈ t.closing, job.IsFor lane := fun j hj => own j (List.mem_append_right _ hj)
      exact ⟨lane, List.forall_mem_append.mpr ⟨closing, closing⟩⟩
    · exact h
  · exact h

/-- Steps leave steps. -/
theorem IsServed.advance (h : t.IsServed) (hw : t.work = job :: rest) (due : Nat) :
    IsServed { t.advance (job.run setup w s) rest with due } := by
  intro visitor
  obtain ⟨lane, own⟩ := h visitor
  rw [hw, List.cons_append, List.forall_mem_cons, List.forall_mem_append] at own
  obtain ⟨head, behind, closing⟩ := own
  exact ⟨lane, List.forall_mem_append.mpr ⟨List.forall_mem_append.mpr ⟨head.next, behind⟩, closing⟩⟩

/-- Whoever is served is not one for whom an observer is taken in. -/
theorem IsServed.visited?_eq_none (h : t.IsServed) (hw : t.work = job :: rest) :
    Happening.visited? (.worked w s t job) = none := by
  cases job with
  | takeIn o =>
    refine if_neg fun visitor => ?_
    obtain ⟨lane, own⟩ := h visitor
    exact own (.takeIn o) (by simp [hw])
  | _ => rfl

/-- Once the observer has been taken in, whoever waits for that is served. -/
theorem isServed_visiting (setup : Setup) (w : World) (s : State) (o : Observer) (since : Nat) :
    ((visiting o since).advance ((Job.takeIn o).run setup w s) []).IsServed := by
  intro _
  simp only [advance, visiting, Job.run]
  split
  · rename_i r _ _
    exact ⟨⟨r, false⟩, by simp [Job.IsFor]⟩
  · exact ⟨⟨default, true⟩, by simp⟩

end Thread

/-- Work starts no thread for which somebody waits. -/
theorem Job.isServed_run (setup : Setup) (w : World) (job : Job) (h : ∀ t ∈ s.threads, t.IsServed) :
    ∀ t ∈ (job.run setup w s).state.threads, t.IsServed := by
  obtain ⟨new, threads, watchers⟩ := job.threads_run setup w s
  rw [threads, List.forall_mem_append]
  refine ⟨h, fun t ht => ?_⟩
  obtain ⟨k, due, rfl⟩ := watchers t ht
  exact Thread.isServed_of_role (by simp [Thread.watcher])

/-- Nor does what is asked from outside. -/
theorem Intervention.isServed_take (setup : Setup) (i : Intervention)
    (h : ∀ t ∈ s.threads, t.IsServed) : ∀ t ∈ (i.take setup s).2.threads, t.IsServed := by
  have change (before after : Phase) (e : Event) :
      ∀ t ∈ (s.change before after e).2.threads, t.IsServed := by
    unfold State.change State.transition
    split <;> rename_i hp
    · split at hp <;> cases hp
      exact h
    · exact h
  cases i with
  | start script =>
    change ∀ t ∈ (s.start setup script).2.threads, t.IsServed
    unfold State.start State.openRun
    split
    · by_cases hp : s.phase = .idle
      · rw [if_pos hp]
        refine List.forall_mem_append.mpr ⟨h, List.forall_mem_singleton.mpr ?_⟩
        exact Thread.isServed_of_role (by simp)
      · rw [if_neg hp]
        exact h
    · exact h
  | pause | resume => exact change _ _ _
  | stop =>
    intro t ht
    exact h t (s.hushes_stop.threads ▸ ht)

/-- Where everybody is served no observer is taken in for somebody who waits, and everybody is served
after that. -/
theorem Moment.Step.served (st : m.Step setup e m') (h : ∀ t ∈ m.threads, t.IsServed) :
    e.visited? = none ∧ ∀ t ∈ m'.threads, t.IsServed := by
  cases st with
  | ask s i => exact ⟨rfl, i.isServed_take setup h⟩
  | pass s ms => exact ⟨rfl, h⟩
  | @turn s before after t line ready =>
    have line : s.threads = before ++ t :: after := line
    have all : ∀ u ∈ s.threads, u.IsServed := h
    rw [line, List.forall_mem_append, List.forall_mem_cons] at all
    obtain ⟨first, own, last⟩ := all
    refine ⟨rfl, List.forall_mem_append.mpr ⟨?_, List.forall_mem_append.mpr ⟨first, last⟩⟩⟩
    exact List.forall_mem_singleton.mpr (own.resume s)
  | @work w s t job rest hw hp =>
    obtain ⟨own, others⟩ : t.IsServed ∧ ∀ u ∈ s.threads, u.IsServed := by simpa [threads] using h
    refine ⟨own.visited?_eq_none hw, List.forall_mem_append.mpr ⟨?_, job.isServed_run setup w others⟩⟩
    exact List.forall_mem_singleton.mpr (own.advance hw t.due)
  | @wait w s t job rest _ hw _ | @await w _ s t job rest hw _ =>
    obtain ⟨own, others⟩ : t.IsServed ∧ ∀ u ∈ s.threads, u.IsServed := by simpa [threads] using h
    refine ⟨own.visited?_eq_none hw, fun u hu => ?_⟩
    rcases mem_enqueue.mp (mem_threads_none.mp hu) with rfl | hu
    · exact own.advance hw _
    · exact job.isServed_run setup w others u hu
  | leave => exact ⟨rfl, fun u hu => h u (List.mem_append_right _ (mem_threads_none.mp hu))⟩

theorem Course.served (c : Course setup m hs m') (h : ∀ t ∈ m.threads, t.IsServed) :
    (∀ e ∈ hs, e.visited? = none) ∧ ∀ t ∈ m'.threads, t.IsServed := by
  induction c with
  | refl => exact ⟨by simp, h⟩
  | snoc _ st ih =>
    obtain ⟨past, served⟩ := ih
    obtain ⟨last, served⟩ := st.served served
    exact ⟨List.forall_mem_append.mpr ⟨past, List.forall_mem_singleton.mpr last⟩, served⟩

/-! ### Visits -/

/-- Whether it may come to the second state while somebody waits, from the first state on, for the
observer to be taken in: after the visitor's turn has come, with these happenings. -/
structure State.TakesIn (setup : Setup) (w : World) (o : Observer) (s s' : State)
    (hs : List Happening) : Prop where
  /-- The visitor has the first turn, and takes in the observer before anything else is done. -/
  course : Course setup ⟨s.visit o, none⟩
    (.shifted :: .worked w s (.visiting o s.clock) (.takeIn o) :: hs) ⟨s', none⟩
  /-- No observer is taken in again, unless somebody was still waiting for that. -/
  once : (∀ t ∈ s.threads, t.IsServed) →
    (∀ e ∈ hs, e.visited? = none) ∧ ∀ t ∈ s'.threads, t.IsServed
  /-- At the end nobody waits any more, or all threads are to wait for ages, or there have been as many
  turns as are allowed. -/
  ends : (∀ t ∈ s'.threads, t.role ≠ .visitor) ∨
    (∀ t ∈ s'.threads, t.isReady s' = false ∧ s.clock + 1 <<< 64 ≤ t.due) ∨
    State.stretch ≤ hs.length + 1

namespace Job

@[simp] theorem state_run_takeIn : ((takeIn o).run setup w s).state = s := by
  simp only [run]
  split <;> rfl

@[simp] theorem pause_run_takeIn : ((takeIn o).run setup w s).pause = none := by
  simp only [run]
  split <;> rfl

end Job

namespace State

theorem goOn_of_cons (hw : t.work = job :: rest) (hp : (job.run setup w s).pause = none) :
    goOn setup w t s =
      goOn setup w (t.advance (job.run setup w s) rest) (job.run setup w s).state := by
  rw [goOn]
  split
  · rename_i none
    cases hw.symm.trans none
  · rename_i job' rest' hw'
    cases hw.symm.trans hw'
    split
    · rfl
    · rename_i ms pauses
      cases hp.symm.trans pauses

theorem isReady_visiting (s : State) (o : Observer) :
    (Thread.visiting o s.clock).isReady (s.visit o) = true := by
  simp [Thread.isReady, Thread.visiting, visit]

theorem takeReady_visit (s : State) (o : Observer) :
    (s.visit o).takeReady = some (.visiting o s.clock, s.threads) := by
  have line : (s.visit o).threads = .visiting o s.clock :: s.threads := rfl
  rw [takeReady, List.span_eq_takeWhile_dropWhile, line]
  simp [isReady_visiting]

/-- Where a visitor has come the turns begin with the visitor's, who takes in the observer and goes on. -/
theorem takeTurns_visit {finished : State → Bool} {limit fuel : Nat}
    (waits : finished (s.visit o) = false) :
    takeTurns setup w finished limit (fuel + 1) (s.visit o) =
      takeTurns setup w finished limit fuel
        (goOn setup w ((Thread.visiting o s.clock).advance ((Job.takeIn o).run setup w s) []) s) := by
  have onwards : goOn setup w (.visiting o s.clock) s =
      goOn setup w ((Thread.visiting o s.clock).advance ((Job.takeIn o).run setup w s) []) s := by
    rw [goOn_of_cons rfl Job.pause_run_takeIn, Job.state_run_takeIn]
  rw [takeTurns, if_neg (by simp [waits]), takeReady_visit, ← onwards]
  rfl

/-- Who waits for an observer to be taken in waits for just that. -/
theorem takesIn_awaitVisitors (setup : Setup) (w : World) (s : State) (o : Observer) :
    ∃ hs, s.TakesIn setup w o (awaitVisitors setup w (s.visit o)) hs := by
  let finished (s : State) : Bool := s.threads.all fun t => t.role ≠ .visitor
  let visitor : Thread := .visiting o s.clock
  let served : Thread := visitor.advance ((Job.takeIn o).run setup w s) []
  obtain ⟨fuel, turns⟩ : ∃ n, stretch = n + 1 := ⟨stretch - 1, by decide⟩
  have waits : finished (s.visit o) = false := by
    simp [finished, visit, Thread.visiting]
  have turn : Moment.Step setup ⟨s.visit o, none⟩ .shifted ⟨s, some visitor⟩ :=
    @Moment.Step.turn setup (s.visit o) [] s.threads visitor rfl (s.isReady_visiting o)
  have take : Moment.Step setup ⟨s, some visitor⟩ (.worked w s visitor (.takeIn o)) ⟨s, some served⟩ := by
    have step := @Moment.Step.work setup w s visitor (.takeIn o) [] rfl Job.pause_run_takeIn
    rwa [Job.state_run_takeIn] at step
  obtain ⟨hs₁, c₁⟩ := course_goOn setup w served s
  obtain ⟨hs₂, s', last, c₂, ends⟩ :=
    course_takeTurns setup w finished (s.clock + 1 <<< 64) fuel (goOn setup w served s)
  have rest : Course setup ⟨s, some served⟩ (hs₁ ++ hs₂) ⟨s', none⟩ := c₁.append c₂
  have whole : awaitVisitors setup w (s.visit o) = s' := by
    rw [awaitVisitors, turns]
    exact (takeTurns_visit waits).trans last
  refine ⟨hs₁ ++ hs₂, whole ▸ ⟨.cons turn (.cons take rest), fun others => ?_, ?_⟩⟩
  · refine rest.served (List.forall_mem_append.mpr ⟨?_, others⟩)
    exact List.forall_mem_singleton.mpr (Thread.isServed_visiting setup w s o s.clock)
  · rcases ends with done | waiting | long
    · exact .inl (by simpa [finished] using done)
    · exact .inr (.inl waiting)
    · refine .inr (.inr ?_)
      rw [List.length_append]
      omega

end State

end DeskScript

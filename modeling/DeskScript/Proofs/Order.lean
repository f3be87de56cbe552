import DeskScript.Proofs.Effects

/-! The order that phase, current run and tokens keep. -/

namespace DeskScript

namespace State

/-- How phase, run and tokens hang together. -/
structure Orderly (s : State) : Prop where
  idle_iff : s.phase = .idle ↔ s.run = none
  stopped_iff : s.phase = .stopped ↔ ∃ r, s.run = some r ∧ s.isCancelled r.token = true
  run_lt : ∀ r, s.run = some r → r.token < s.issued
  polling_lt : ∀ p, s.polling = some p → p < s.issued
  polling_ne : ∀ p r, s.polling = some p → s.run = some r → p ≠ r.token
  cancelled_lt : ∀ t, s.isCancelled t = true → t < s.issued

theorem orderly_fresh : Orderly {} := by
  constructor <;> simp [isCancelled]

theorem Orderly.fresh {s : State} (h : s.Orderly) : s.isCancelled s.issued = false := by
  rw [← Bool.not_eq_true]
  intro hc
  exact Nat.lt_irrefl _ (h.cancelled_lt _ hc)

/-- A run that goes on or is paused is the current one, and its token is not cancelled. -/
theorem Orderly.going_iff {s : State} (h : s.Orderly) :
    (s.phase = .running ∨ s.phase = .paused) ↔
      ∃ r, s.run = some r ∧ s.isCancelled r.token = false := by
  have hi := h.idle_iff
  have hs := h.stopped_iff
  cases hr : s.run with
  | none =>
    have hp : s.phase = .idle := hi.mpr hr
    simp [hp]
  | some r =>
    simp only [hr, Option.some.injEq, exists_eq_left', reduceCtorEq, iff_false] at hi hs ⊢
    rw [← Bool.not_eq_true, ← hs]
    cases hp : s.phase <;> simp_all

/-- Only phase, run and tokens count. -/
theorem Orderly.congr {s s' : State} (h : s.Orderly) (phase : s'.phase = s.phase)
    (run : s'.run = s.run) (polling : s'.polling = s.polling) (issued : s'.issued = s.issued)
    (cancelled : s'.cancelled = s.cancelled) : s'.Orderly := by
  have hc : s'.isCancelled = s.isCancelled := funext (isCancelled_congr cancelled)
  obtain ⟨hi, hs, hr, hp, hn, hl⟩ := h
  constructor <;> simp only [phase, run, polling, issued, hc] <;> assumption

theorem Orderly.kept {s s' : State} {new : List Note} (h : s.Orderly) (k : s.Kept s' new) :
    s'.Orderly := by
  obtain ⟨step, n, rfl⟩ := k
  exact h.congr rfl rfl rfl rfl rfl

theorem Orderly.openRun {s s' : State} {script : Script} {r : Run} (h : s.Orderly)
    (ho : s.openRun script = some (r, s')) : s'.Orderly := by
  unfold State.openRun at ho
  split at ho
  · cases ho
    have fresh := h.fresh
    constructor
    · simp
    · simpa [isCancelled] using fresh
    · simp
    · intro p hp
      exact Nat.lt_succ_of_lt (h.polling_lt p hp)
    · intro p r hp hr
      cases hr
      exact Nat.ne_of_lt (h.polling_lt p hp)
    · intro t ht
      exact Nat.lt_succ_of_lt (h.cancelled_lt t ht)
  · cases ho

/-- A run that goes on may be paused, and one that is paused may go on. -/
theorem Orderly.transition {s s' : State} {before after : Phase} (h : s.Orderly)
    (ht : s.transition before after = some s')
    (hb : before = .running ∨ before = .paused) (ha : after = .running ∨ after = .paused) :
    s'.Orderly := by
  unfold State.transition at ht
  split at ht
  · rename_i hp
    cases ht
    obtain ⟨r, hr, hc⟩ := h.going_iff.mp (hp ▸ hb)
    have idle : after ≠ .idle := by rcases ha with rfl | rfl <;> decide
    have stopped : after ≠ .stopped := by rcases ha with rfl | rfl <;> decide
    constructor
    · simp [idle, hr]
    · simpa [stopped, hr, isCancelled] using hc
    · exact h.run_lt
    · exact h.polling_lt
    · exact h.polling_ne
    · exact h.cancelled_lt
  · cases ht

theorem Orderly.halt {s : State} (h : s.Orderly) : s.halt.2.Orderly := by
  unfold State.halt
  split
  · rename_i r hr
    constructor
    · simp [cancel, hr]
    · simp [cancel, hr, isCancelled]
    · exact h.run_lt
    · exact h.polling_lt
    · exact h.polling_ne
    · intro t ht
      have ht : t = r.token ∨ s.isCancelled t = true := by simpa [cancel, isCancelled] using ht
      rcases ht with rfl | ht
      · exact h.run_lt r hr
      · exact h.cancelled_lt t ht
  · rename_i hr
    have hp : s.phase = .idle := h.idle_iff.mpr hr
    exact h.congr hp.symm rfl rfl rfl rfl

theorem Orderly.settle {s : State} (h : s.Orderly) (r : Run) : (s.settle r).Orderly := by
  unfold State.settle
  split
  · split
    · constructor
      · simp
      · simp
      · simp
      · exact h.polling_lt
      · simp
      · exact h.cancelled_lt
    · exact h
  · exact h

theorem Orderly.clear {s : State} (h : s.Orderly) : s.clear.Orderly := by
  unfold State.clear
  cases hp : s.polling with
  | none => exact h.congr rfl rfl hp.symm rfl rfl
  | some p =>
    have hc (t : Token) : (s.cancel p).isCancelled t = (decide (t = p) || s.isCancelled t) := by simp
    constructor
    · exact h.idle_iff
    · have keep : ∀ r, s.run = some r → (s.cancel p).isCancelled r.token = s.isCancelled r.token := by
        intro r hr
        simp [hc, (h.polling_ne p r hp hr).symm]
      have hs := h.stopped_iff
      constructor
      · intro hq
        obtain ⟨r, hr, hrc⟩ := hs.mp hq
        exact ⟨r, hr, (keep r hr).trans hrc⟩
      · rintro ⟨r, hr, hrc⟩
        exact hs.mpr ⟨r, hr, (keep r hr).symm.trans hrc⟩
    · exact h.run_lt
    · simp
    · simp
    · intro t ht
      have ht : t = p ∨ s.isCancelled t = true := by simpa [cancel, isCancelled] using ht
      rcases ht with rfl | ht
      · exact h.polling_lt t hp
      · exact h.cancelled_lt t ht

theorem Orderly.enlist {s : State} (h : s.Orderly) (setup : Setup) (o : Observer)
    (priority : Int32) : (s.enlist setup o priority).Orderly := by
  unfold State.enlist
  dsimp only
  split
  · exact h.congr rfl rfl rfl rfl rfl
  · unfold State.startPolling
    split
    · constructor
      · exact h.idle_iff
      · exact h.stopped_iff
      · intro r hr
        exact Nat.lt_succ_of_lt (h.run_lt r hr)
      · simp
      · intro p r hp hr
        cases hp
        exact Nat.ne_of_gt (h.run_lt r hr)
      · intro t ht
        exact Nat.lt_succ_of_lt (h.cancelled_lt t ht)
    · constructor
      · exact h.idle_iff
      · exact h.stopped_iff
      · exact h.run_lt
      · simp
      · simp
      · exact h.cancelled_lt

theorem Orderly.stop {s : State} (h : s.Orderly) : s.stop.Orderly := by
  unfold State.stop
  dsimp only
  split
  · exact h.halt.clear.kept (kept_note _ _)
  · exact h.halt.clear

end State

/-- Every piece of work keeps order. -/
theorem State.Orderly.work {s : State} (h : s.Orderly) (setup : Setup) (w : World) (job : Job) :
    (job.run setup w s).state.Orderly := by
  by_cases hd : job.isDecisive = true
  · cases job with
    | halt => exact h.halt
    | clear => exact h.clear
    | settle r => exact h.settle r
    | enlistOpen r o => exact h.enlist setup o _
    | _ => cases hd
  · exact h.kept (job.kept_run setup w s (by simpa using hd))

/-! ### Interventions -/

/-- What is asked of the engine from outside. -/
inductive Intervention where
  | start (script : Script)
  | pause
  | resume
  | stop

/-- Does what is asked; with the answer, which a stop does not give. -/
def Intervention.take (setup : Setup) (s : State) : Intervention → Option Bool × State
  | start script => (some (s.start setup script).1, (s.start setup script).2)
  | pause => (some s.pause.1, s.pause.2)
  | resume => (some s.resume.1, s.resume.2)
  | stop => (none, s.stop)

/-- The phase to which the intervention leads from the phase `p`, if it changes it at all. -/
def Intervention.change (setup : Setup) (p : Phase) : Intervention → Option Phase
  | .start _ => if setup.hasRuntime ∧ p = .idle then some .running else none
  | .pause => if p = .running then some .paused else none
  | .resume => if p = .paused then some .running else none
  | .stop => if p = .running ∨ p = .paused then some .stopped else none

/-- An intervention changes the phase as the table says, and the answer tells whether it did. -/
theorem Intervention.take_eq {setup : Setup} {s : State} (h : s.Orderly) (i : Intervention) :
    (i.take setup s).2.phase = (i.change setup s.phase).getD s.phase ∧
      ∀ ok, (i.take setup s).1 = some ok → ok = (i.change setup s.phase).isSome := by
  cases i with
  | start script =>
    simp only [take, change, State.start, State.openRun]
    by_cases hr : setup.hasRuntime = true
    · by_cases hp : s.phase = .idle
      · simp [hr, hp, State.launch, State.spawn, State.tell, State.note]
      · simp [hr, hp]
    · simp [hr]
  | pause =>
    have hp := s.change_phase .running .paused .scriptPaused
    have ha := s.change_answer .running .paused .scriptPaused
    simp only [take, change, State.pause, hp, ha]
    split <;> simp_all
  | resume =>
    have hp := s.change_phase .paused .running .scriptResumed
    have ha := s.change_answer .paused .running .scriptResumed
    simp only [take, change, State.resume, hp, ha]
    split <;> simp_all
  | stop =>
    refine ⟨?_, by simp [take]⟩
    simp only [take, change, State.stop_phase]
    have hi := h.idle_iff
    cases hr : s.run with
    | none => simp [hi.mpr hr]
    | some r =>
      have hn : s.phase ≠ .idle := by simp [hi, hr]
      cases hp : s.phase <;> simp_all

end DeskScript

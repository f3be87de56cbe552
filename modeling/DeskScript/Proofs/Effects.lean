import DeskScript.Engine.Control
import Mathlib.Tactic.Common

/-! What the pieces of work and the changes made at one stroke leave as it was, and what they tell. -/

namespace DeskScript

/-- Whether the work changes the current run, its phase, tokens or threads. -/
def Job.isDecisive : Job → Bool
  | .halt | .clear | .settle _ | .enlistOpen _ _ => true
  | _ => false

namespace State

@[simp] theorem isCancelled_cancel (s : State) (t u : Token) :
    (s.cancel t).isCancelled u = (decide (u = t) || s.isCancelled u) := by
  simp [isCancelled, cancel]

@[simp] theorem clear_run (s : State) : s.clear.run = s.run := by
  unfold clear
  split <;> rfl

@[simp] theorem clear_phase (s : State) : s.clear.phase = s.phase := by
  unfold clear
  split <;> rfl

@[simp] theorem clear_threads (s : State) : s.clear.threads = s.threads := by
  unfold clear
  split <;> rfl

@[simp] theorem clear_polling (s : State) : s.clear.polling = none := by
  unfold clear
  split <;> rfl

@[simp] theorem clear_issued (s : State) : s.clear.issued = s.issued := by
  unfold clear
  split <;> rfl

theorem isCancelled_clear (s : State) (t : Token) :
    s.clear.isCancelled t = (decide (s.polling = some t) || s.isCancelled t) := by
  unfold clear
  cases hp : s.polling with
  | none => simp [isCancelled]
  | some p => simp [isCancelled, cancel, eq_comm]

@[simp] theorem halt_run (s : State) : s.halt.2.run = s.run := by
  unfold halt
  split <;> rfl

theorem enlist_run (s : State) (setup : Setup) (o : Observer) (priority : Int32) :
    (s.enlist setup o priority).run = s.run := by
  unfold enlist startPolling
  dsimp only
  split
  · rfl
  · split <;> rfl

theorem enlist_registry (s : State) (setup : Setup) (o : Observer) (priority : Int32) :
    (s.enlist setup o priority).registry = s.registry.register o priority := by
  unfold enlist startPolling
  dsimp only
  split
  · rfl
  · split <;> rfl

theorem change_run (s : State) (before after : Phase) (e : Event) :
    (s.change before after e).2.run = s.run := by
  unfold change transition
  split
  · rename_i h
    split at h <;> cases h
    rfl
  · rfl

theorem stop_run (s : State) : s.stop.run = s.run := by
  unfold stop
  dsimp only
  split
  · exact (clear_run _).trans s.halt_run
  · exact (clear_run _).trans s.halt_run

theorem change_phase (s : State) (before after : Phase) (e : Event) :
    (s.change before after e).2.phase = if s.phase = before then after else s.phase := by
  unfold change transition
  by_cases h : s.phase = before
  · rw [if_pos h, if_pos h]
    rfl
  · rw [if_neg h, if_neg h]

theorem change_answer (s : State) (before after : Phase) (e : Event) :
    (s.change before after e).1 = decide (s.phase = before) := by
  unfold change transition
  by_cases h : s.phase = before
  · rw [if_pos h, decide_eq_true h]
  · rw [if_neg h, decide_eq_false h]

theorem stop_phase (s : State) : s.stop.phase = if s.run = none then .idle else .stopped := by
  have hs : s.stop.phase = s.halt.2.phase := by
    unfold stop
    dsimp only
    split
    · exact clear_phase _
    · exact clear_phase _
  rw [hs]
  unfold halt
  split
  · rename_i r hr
    rw [if_neg (by simp [hr])]
  · rename_i hr
    rw [if_pos hr]

theorem clear_tell (s : State) (e : Event) : (s.tell e).clear = s.clear.tell e := by
  unfold clear
  have hp : (s.tell e).polling = s.polling := rfl
  rw [hp]
  cases s.polling <;> rfl

theorem isCancelled_congr {s s' : State} (h : s'.cancelled = s.cancelled) (t : Token) :
    s'.isCancelled t = s.isCancelled t := by
  simp only [isCancelled, h]

/-- The state is the same but for new notes and for what the script's own loop counts. -/
def Kept (s s' : State) (new : List Note) : Prop :=
  ∃ step n, s' = { s with
    notes := new.map (s.clock, ·) ++ s.notes, currentStep := step, iterations := n }

theorem Kept.refl (s : State) : s.Kept s [] := ⟨_, _, rfl⟩

theorem kept_note (s : State) (n : Note) : s.Kept (s.note n) [n] := ⟨_, _, rfl⟩

end State

/-- What the work tells. -/
def Job.note? (w : World) (s : State) : Job → Option Note
  | .enter lane step => some (.entered lane.foreground step.id)
  | .decide _ (.ask e _) _ _ | .aim _ _ _ (.ask e _) | .probe (.ask e _) =>
    some (.looked e (w.find e))
  | .act _ action _ place =>
    match action.deed place with
    | .call c => some (.called c (w.input c).isOk)
    | _ => none
  | .report step action since ok => some (.event (outcomeEvent step action (s.clock - since) ok))
  | .tell e => some (.event e)
  | _ => none

/-- Most work only tells something and counts. -/
theorem Job.kept_run (setup : Setup) (w : World) (s : State) (job : Job)
    (h : job.isDecisive = false) : s.Kept (job.run setup w s).state (job.note? w s).toList := by
  cases job with
  | iterate r | endIteration r | enlist r o | watch p | relax p =>
    simp only [run, guarded]
    split <;> exact .refl s
  | iterateOpen r =>
    simp only [run]
    split <;> exact .refl s
  | levelOpen lane step steps =>
    simp only [run, unlessPaused]
    split <;> exact .refl s
  | level lane steps =>
    cases steps with
    | nil => exact .refl s
    | cons step steps =>
      simp only [run, guarded]
      split <;> exact .refl s
  | enter lane step =>
    simp only [run, enterStep]
    split
    · exact ⟨_, _, rfl⟩
    · exact s.kept_note _
  | decide lane q thens elses => cases q <;> [exact .refl s; exact s.kept_note _]
  | aim step action since q => cases q <;> [exact .refl s; exact s.kept_note _]
  | probe q => cases q <;> [exact .refl s; exact s.kept_note _]
  | act step action since aim =>
    simp only [run, perform, note?]
    cases action.deed aim with
    | call c => exact s.kept_note _
    | _ => exact .refl s
  | takeIn o =>
    simp only [run]
    split <;> exact .refl s
  | count r => exact ⟨_, _, rfl⟩
  | report step action since ok => exact s.kept_note _
  | tell e => exact s.kept_note _
  | body | rest | giveWay | survey => exact .refl s
  | halt | clear | settle | enlistOpen => cases h

/-- Work opens no run. -/
theorem Job.run_eq_some {setup : Setup} {w : World} {s : State} {job : Job} {r : Run}
    (h : (job.run setup w s).state.run = some r) : s.run = some r := by
  by_cases hd : job.isDecisive = true
  · cases job with
    | halt => exact s.halt_run.symm.trans h
    | clear => exact s.clear_run.symm.trans h
    | settle r' =>
      simp only [run, State.settle] at h
      split at h
      · split at h
        · cases h
        · exact h
      · exact h
    | enlistOpen r' o => exact (s.enlist_run setup o _).symm.trans h
    | _ => cases hd
  · obtain ⟨step, n, hs⟩ := job.kept_run setup w s (by simpa using hd)
    rw [hs] at h
    exact h

theorem Job.notes_run (setup : Setup) (w : World) (s : State) (job : Job) :
    (job.run setup w s).state.notes = (job.note? w s).toList.map (s.clock, ·) ++ s.notes := by
  by_cases hd : job.isDecisive = true
  · cases job with
    | halt =>
      simp only [run, State.halt]
      split <;> rfl
    | clear =>
      simp only [run, State.clear]
      split <;> rfl
    | settle r =>
      simp only [run, State.settle]
      split
      · split <;> rfl
      · rfl
    | enlistOpen r o =>
      simp only [run, State.enlist, State.startPolling]
      split
      · rfl
      · split <;> rfl
    | _ => cases hd
  · obtain ⟨step, n, h⟩ := job.kept_run setup w s (by simpa using hd)
    rw [h]

/-! ### What is told of runs -/

/-- Whether the event tells of the life of a run, and not of a step or an observer. -/
def Event.isOfRun : Event → Bool
  | .scriptStarted _ | .scriptStopped | .scriptPaused | .scriptResumed => true
  | _ => false

/-- The name of the script that was started. -/
def Event.started? : Event → Option String
  | .scriptStarted name => some name
  | _ => none

/-- Whether the work neither stops nor settles a run, nor tells of its life. -/
def Job.sparesRuns : Job → Bool
  | .halt | .settle _ => false
  | .tell e => !e.isOfRun
  | _ => true

namespace State

theorem events_congr {s s' : State} (h : s'.notes = s.notes) : s'.events = s.events := by
  simp only [events, h]

@[simp] theorem events_tell (s : State) (e : Event) : (s.tell e).events = s.events ++ [e] := by
  simp [events, tell, note]

@[simp] theorem events_clear (s : State) : s.clear.events = s.events := by
  apply events_congr
  unfold clear
  split <;> rfl

@[simp] theorem events_halt (s : State) : s.halt.2.events = s.events := by
  apply events_congr
  unfold halt
  split <;> rfl

end State

/-- Work that spares the runs tells at most of a step or an observer. -/
theorem Job.events_run (setup : Setup) (w : World) (s : State) (job : Job)
    (h : job.sparesRuns = true) :
    ∃ new, (job.run setup w s).state.events = s.events ++ new ∧ ∀ e ∈ new, e.isOfRun = false := by
  have told : ∀ e, job.note? w s = some (.event e) → e.isOfRun = false := by
    intro e he
    cases job with
    | report step action since ok =>
      cases he
      cases ok <;> rfl
    | tell e' =>
      cases he
      simpa [sparesRuns] using h
    | decide lane q thens elses => cases q <;> simp [note?] at he
    | aim step action since q => cases q <;> simp [note?] at he
    | probe q => cases q <;> simp [note?] at he
    | act step action since aim =>
      simp only [note?] at he
      split at he <;> simp at he
    | _ => simp [note?] at he
  have hn := job.notes_run setup w s
  cases ht : job.note? w s with
  | none => exact ⟨[], by simp [State.events, hn, ht], by simp⟩
  | some n =>
    cases n with
    | event e => exact ⟨[e], by simp [State.events, hn, ht], by simpa using told e ht⟩
    | _ => exact ⟨[], by simp [State.events, hn, ht], by simp⟩

theorem Job.phase_run (setup : Setup) (w : World) (s : State) {job : Job}
    (h : job.sparesRuns = true) : (job.run setup w s).state.phase = s.phase := by
  by_cases hd : job.isDecisive = true
  · cases job with
    | clear => exact State.clear_phase s
    | enlistOpen r o =>
      simp only [run, State.enlist, State.startPolling]
      split
      · rfl
      · split <;> rfl
    | halt | settle => cases h
    | _ => cases hd
  · obtain ⟨step, n, hs⟩ := job.kept_run setup w s (by simpa using hd)
    rw [hs]

end DeskScript

import DeskScript.Proofs.Concord
import DeskScript.Proofs.Journaling

/-! In what order the life of runs is told. What changes the phase does so at one stroke and tells of it at
another, and between the two any other party may do both. -/

namespace DeskScript

variable {setup : Setup} {w : World} {s : State} {t : Thread} {job : Job} {rest : Work} {r : Run}
  {stage : Stage} {c c' c₀ : Scene} {k : Stroke} {ks ks₀ : List Stroke} {p q : Phase}
  {es es' : List Event}

/-! ### Paths of phases -/

/-- What is to be told of the changes by which one phase leads to another. A run that was stopped winds
up in silence. -/
inductive Phase.Path (p : Phase) : List Event → Phase → Prop
  | refl : Path p [] p
  | started {es : List Event} (name : String) :
      Path p es .idle → Path p (es ++ [.scriptStarted name]) .running
  | paused {es : List Event} : Path p es .running → Path p (es ++ [.scriptPaused]) .paused
  | resumed {es : List Event} : Path p es .paused → Path p (es ++ [.scriptResumed]) .running
  | stopped {es : List Event} {q : Phase} :
      Path p es q → q = .running ∨ q = .paused → Path p (es ++ [.scriptStopped]) .stopped
  | settled {es : List Event} : Path p es .stopped → Path p es .idle

/-- The beginning of a path is a path. -/
theorem Phase.Path.cut (h : Phase.Path p es q) (first : es' <+: es) : ∃ q', Phase.Path p es' q' := by
  induction h with
  | refl => exact ⟨p, List.prefix_nil.mp first ▸ .refl⟩
  | started name h ih =>
    rcases List.prefix_concat_iff.mp first with rfl | first
    · exact ⟨_, h.started name⟩
    · exact ih first
  | paused h ih =>
    rcases List.prefix_concat_iff.mp first with rfl | first
    · exact ⟨_, h.paused⟩
    · exact ih first
  | resumed h ih =>
    rcases List.prefix_concat_iff.mp first with rfl | first
    · exact ⟨_, h.resumed⟩
    · exact ih first
  | stopped h going ih =>
    rcases List.prefix_concat_iff.mp first with rfl | first
    · exact ⟨_, h.stopped going⟩
    · exact ih first
  | settled _ ih => exact ih first

/-- Where no run is open the first thing to be told is that a script was started. -/
theorem Phase.Path.begins (h : Phase.Path .idle es q) :
    (es = [] ∧ q = .idle) ∨ ∃ name es', es = .scriptStarted name :: es' := by
  have on {es : List Event} (e : Event) (h : ∃ name es', es = .scriptStarted name :: es') :
      ∃ name es', es ++ [e] = .scriptStarted name :: es' := by
    obtain ⟨name, es', rfl⟩ := h
    exact ⟨name, _, rfl⟩
  induction h with
  | refl => exact .inl ⟨rfl, rfl⟩
  | started name _ ih =>
    rcases ih with ⟨rfl, -⟩ | begun
    · exact .inr ⟨name, [], rfl⟩
    · exact .inr (on _ begun)
  | paused _ ih | resumed _ ih => exact .inr (on _ (ih.resolve_left (by simp)))
  | stopped _ going ih =>
    refine .inr (on _ (ih.resolve_left ?_))
    rintro ⟨-, rfl⟩
    cases going <;> contradiction
  | settled _ ih => exact .inr (ih.resolve_left (by simp))

/-! ### Turns, and what is told of them -/

/-- The event of the turn that the life of runs takes when the current run is halted, if it takes one. -/
def State.haltTurn? (s : State) : Option Event := if s.halt.1 then some .scriptStopped else none

/-- The event of the turn that the life of runs takes at the stage. -/
def Stage.turn? (s : State) : Stage → Option Event
  | .openRun script => if s.phase = .idle then some (.scriptStarted script.name) else none
  | .shift before _ e => if s.phase = before then some e else none
  | .halt => s.haltTurn?
  | _ => none

def Job.turn? (s : State) : Job → Option Event
  | .halt => s.haltTurn?
  | _ => none

/-- The event of the turn that the life of runs takes at the stroke. -/
def Stroke.turn? : Stroke → Option Event
  | .served s stage => stage.turn? s
  | .worked _ s _ job => job.turn? s
  | _ => none

def Stage.told? : Stage → Option Event
  | .tell e => if e.isOfRun then some e else none
  | _ => none

def Job.told? : Job → Option Event
  | .tell e => if e.isOfRun then some e else none
  | _ => none

/-- What is told of the life of runs at the stroke. -/
def Stroke.told? : Stroke → Option Event
  | .served _ stage => stage.told?
  | .worked _ _ _ job => job.told?
  | _ => none

def Thread.untold (t : Thread) : List Event := t.work.filterMap Job.told?

/-- What has yet to be told of the life of runs. -/
def Scene.untold (c : Scene) : List Event :=
  c.threads.flatMap Thread.untold ++ c.stages.filterMap Stage.told?

/-- Every turn is taken when all turns before it have been told. -/
def Prompt (ks : List Stroke) : Prop :=
  ∀ i (h : i < ks.length), ks[i].turn? ≠ none →
    ((ks.take i).filterMap Stroke.told?).length = ((ks.take i).filterMap Stroke.turn?).length

instance (ks : List Stroke) : Decidable (Prompt ks) :=
  inferInstanceAs (Decidable (∀ i (h : i < ks.length), ks[i].turn? ≠ none →
    ((ks.take i).filterMap Stroke.told?).length = ((ks.take i).filterMap Stroke.turn?).length))

/-- The stage tells of nothing but the life of runs, and only of its own turn. -/
def Stage.IsFrank : Stage → Prop
  | .shift before after e => (before = .running ∧ after = .paused ∧ e = .scriptPaused) ∨
      (before = .paused ∧ after = .running ∧ e = .scriptResumed)
  | .tell e => e.isOfRun = true
  | _ => True

/-- At most the end of a run is yet to be told, and that at once. -/
inductive Work.IsFrank : Work → Prop
  | quiet {work : Work} : work.filterMap Job.told? = [] → IsFrank work
  | telling {rest : Work} : rest.filterMap Job.told? = [] → IsFrank (.tell .scriptStopped :: rest)
  | clearing {rest : Work} :
      rest.filterMap Job.told? = [] → IsFrank (.clear :: .tell .scriptStopped :: rest)

/-- Who waits has nothing left to tell. -/
structure Scene.IsFrank (c : Scene) : Prop where
  stages : ∀ stage ∈ c.stages, stage.IsFrank
  line : ∀ t ∈ c.state.threads, t.untold = []
  active : ∀ t ∈ c.active, Work.IsFrank t.work

theorem Scene.isFrank_fresh : fresh.IsFrank where
  stages := by simp [fresh, Scene.stages]
  line := by simp [fresh]
  active := by simp [fresh]

/-! ### What stages and work do -/

namespace Stage

theorem isFrank_of_demand {q : Demand} (h : stage ∈ q.stages setup) :
    stage.IsFrank ∧ stage.told? = none := by
  cases q with
  | ask i =>
    cases i with
    | start script =>
      simp only [Demand.stages] at h
      split at h
      · rw [List.mem_singleton.mp h]
        exact ⟨trivial, rfl⟩
      · cases h
    | pause =>
      rw [List.mem_singleton.mp h]
      exact ⟨.inl ⟨rfl, rfl, rfl⟩, rfl⟩
    | resume =>
      rw [List.mem_singleton.mp h]
      exact ⟨.inr ⟨rfl, rfl, rfl⟩, rfl⟩
    | stop =>
      rw [List.mem_singleton.mp h]
      exact ⟨trivial, rfl⟩
  | _ =>
    rw [List.mem_singleton.mp h]
    exact ⟨trivial, rfl⟩

/-- A turn is yet to be told when it has been taken. -/
theorem next_run (h : stage.IsFrank) (s : State) :
    (∀ x ∈ (stage.run s).2, x.IsFrank) ∧
      (stage.run s).2.filterMap told? = (stage.turn? s).toList := by
  cases stage with
  | openRun script =>
    by_cases hp : s.phase = .idle
    · simp [run_openRun_of_idle hp, turn?, hp, IsFrank, told?, Event.isOfRun]
    · simp [run_openRun_of_busy hp, turn?, hp]
  | shift before after e =>
    by_cases hp : s.phase = before
    · have life : e.isOfRun = true := by
        rcases h with ⟨-, -, rfl⟩ | ⟨-, -, rfl⟩ <;> rfl
      simp [run_shift_of_eq hp, turn?, hp, IsFrank, told?, life]
    · simp [run_shift_of_ne hp, turn?, hp]
  | halt =>
    simp only [run_halt, turn?, State.haltTurn?]
    cases s.halt.1 with
    | true => exact ⟨by simp [IsFrank, Event.isOfRun], rfl⟩
    | false => exact ⟨by simp [IsFrank], rfl⟩
  | _ => exact ⟨by simp [run], rfl⟩

theorem untold_newcomers (s : State) (stage : Stage) :
    (stage.newcomers s).flatMap Thread.untold = [] := by
  cases stage <;> rfl

/-- A stage tells what it is there to tell. -/
theorem events_run (h : stage.IsFrank) (s : State) :
    (stage.run s).1.events = s.events ++ stage.told?.toList := by
  cases stage with
  | openRun script =>
    by_cases hp : s.phase = .idle
    · rw [run_openRun_of_idle hp]
      exact (List.append_nil _).symm
    · rw [run_openRun_of_busy hp]
      exact (List.append_nil _).symm
  | shift before after e =>
    by_cases hp : s.phase = before
    · rw [run_shift_of_eq hp]
      exact (List.append_nil _).symm
    · rw [run_shift_of_ne hp]
      exact (List.append_nil _).symm
  | halt => exact (s.events_halt).trans (List.append_nil _).symm
  | clear => exact (s.events_clear).trans (List.append_nil _).symm
  | tell e =>
    have life : e.isOfRun = true := h
    simp only [told?, if_pos life]
    exact s.events_tell e
  | launch | unregister | setActive => exact (List.append_nil _).symm
  | visit => exact (List.append_nil _).symm

end Stage

namespace Job

/-- A turn is yet to be told when it has been taken. -/
theorem told?_next (setup : Setup) (w : World) (s : State) (job : Job) :
    (job.run setup w s).next.filterMap told? = (job.turn? s).toList := by
  cases job with
  | halt =>
    simp only [run, turn?, State.haltTurn?]
    cases s.halt.1 <;> rfl
  | level lane steps =>
    cases steps with
    | nil => rfl
    | cons step steps =>
      simp only [run, guarded]
      split <;> rfl
  | iterate | endIteration | enlist | watch | relax =>
    simp only [run, guarded]
    split <;> rfl
  | iterateOpen | levelOpen =>
    simp only [run, unlessPaused]
    split <;> rfl
  | body lane step => cases step <;> rfl
  | decide lane q thens elses => cases q <;> rfl
  | aim step action since q => cases q <;> rfl
  | act step action since place =>
    simp only [run, perform]
    split <;> rfl
  | report step action since ok =>
    simp only [run, afterAction]
    split <;> rfl
  | probe q =>
    cases q with
    | ask e next => rfl
    | done fired => cases fired <;> rfl
  | takeIn o =>
    simp only [run]
    split <;> rfl
  | count | enter | enlistOpen | rest | giveWay | clear | tell | settle | survey => rfl

/-- Work tells of the life of runs what it is there to tell. -/
theorem events_life (setup : Setup) (w : World) (s : State) (job : Job) :
    (job.run setup w s).state.events.filter Event.isOfRun =
      s.events.filter Event.isOfRun ++ job.told?.toList := by
  by_cases spares : job.sparesRuns = true
  · obtain ⟨new, events, other⟩ := job.events_run setup w s spares
    have untold : job.told? = none := by
      cases job with
      | tell e =>
        have other : e.isOfRun = false := by simpa [sparesRuns] using spares
        simp [told?, other]
      | _ => rfl
    have quiet : new.filter Event.isOfRun = [] := by simpa using other
    rw [events, untold, List.filter_append, quiet]
    rfl
  · cases job with
    | halt =>
      change s.halt.2.events.filter _ = _
      rw [s.events_halt]
      exact (List.append_nil _).symm
    | settle r =>
      have same : (s.settle r).events = s.events := by
        refine State.events_congr ?_
        unfold State.settle
        split
        · split <;> rfl
        · rfl
      change (s.settle r).events.filter _ = _
      rw [same]
      exact (List.append_nil _).symm
    | tell e =>
      have life : e.isOfRun = true := by simpa [sparesRuns] using spares
      change (s.tell e).events.filter _ = _
      simp [told?, life]
    | _ => exact absurd rfl spares

end Job

namespace Work.IsFrank

/-- Work that is neither telling nor about to is followed by none that is. -/
theorem quiet_cons (h : IsFrank (job :: rest)) (clears : job ≠ .clear) (tells : ∀ e, job ≠ .tell e) :
    rest.filterMap Job.told? = [] := by
  cases h with
  | quiet h =>
    rw [List.filterMap_eq_nil_iff] at h ⊢
    exact fun j hj => h j (List.mem_cons_of_mem _ hj)
  | telling => exact absurd rfl (tells _)
  | clearing => exact absurd rfl clears

theorem run (h : IsFrank (job :: rest)) : IsFrank ((job.run setup w s).next ++ rest) := by
  cases h with
  | quiet h =>
    have behind : rest.filterMap Job.told? = [] := by
      rw [List.filterMap_eq_nil_iff] at h ⊢
      exact fun j hj => h j (List.mem_cons_of_mem _ hj)
    by_cases halts : job = .halt
    · subst halts
      cases hh : s.halt.1 <;> simp only [Job.run, hh]
      · exact .quiet (by simpa [Job.told?] using behind)
      · exact .clearing behind
    · refine .quiet ?_
      have none : job.turn? s = none := by
        cases job with
        | halt => exact absurd rfl halts
        | _ => rfl
      rw [List.filterMap_append, Job.told?_next, none, behind]
      rfl
  | telling h => exact .quiet h
  | clearing h => exact .telling h

end Work.IsFrank

/-! ### What strokes do -/

/-- Halting the current run takes a turn unless that has been stopped, or there is none. -/
theorem Phase.Path.halt (h : Phase.Path p es s.phase) (orderly : s.Orderly) :
    Phase.Path p (es ++ s.haltTurn?.toList) s.halt.2.phase := by
  unfold State.haltTurn? State.halt
  cases hr : s.run with
  | none =>
    have idle : s.phase = .idle := orderly.idle_iff.mpr hr
    rw [idle] at h
    simpa using h
  | some r =>
    have busy : s.phase ≠ .idle := by simp [orderly.idle_iff, hr]
    by_cases hp : s.phase = .stopped
    · rw [hp] at h
      simpa [hp] using h
    · have going : s.phase = .running ∨ s.phase = .paused := by
        cases hs : s.phase <;> simp_all
      simpa [hp] using h.stopped going

namespace Scene

/-- A stroke takes the phase along a path. -/
theorem Step.path (st : c.Step setup k c') (sound : c.Sound) (frank : c.IsFrank)
    (h : Phase.Path p es c.state.phase) : Phase.Path p (es ++ k.turn?.toList) c'.state.phase := by
  have stay (same : c'.state.phase = c.state.phase) : Phase.Path p (es ++ []) c'.state.phase := by
    rwa [List.append_nil, same]
  cases k with
  | arrived q =>
    obtain ⟨hs, -⟩ := st.after_arrive
    exact stay (by rw [hs])
  | served s stage =>
    obtain ⟨rfl, mem, -, hs, -⟩ := st.after_serve
    have own := frank.stages stage mem
    simp only [Stroke.turn?]
    cases stage with
    | openRun script =>
      by_cases hp : c.state.phase = .idle
      · rw [hp] at h
        rw [hs, Stage.run_openRun_of_idle hp, Stage.turn?, if_pos hp]
        exact h.started script.name
      · rw [Stage.turn?, if_neg hp]
        exact stay (by rw [hs, Stage.run_openRun_of_busy hp])
    | shift before after e =>
      by_cases hp : c.state.phase = before
      · rw [hs, Stage.run_shift_of_eq hp, Stage.turn?, if_pos hp]
        rw [hp] at h
        rcases own with ⟨rfl, rfl, rfl⟩ | ⟨rfl, rfl, rfl⟩
        · exact h.paused
        · exact h.resumed
      · rw [Stage.turn?, if_neg hp]
        exact stay (by rw [hs, Stage.run_shift_of_ne hp])
    | halt =>
      rw [hs]
      exact h.halt sound.orderly
    | clear => exact stay (by rw [hs]; exact c.state.clear_phase)
    | visit =>
      refine stay ?_
      rw [hs]
      rfl
    | launch | tell | unregister | setActive => exact stay (by rw [hs]; rfl)
  | worked w s t job =>
    obtain ⟨rest, rfl, -, -, -, ⟨threads, hs⟩, -⟩ := st.after_work
    have phase : c'.state.phase = (job.run setup w c.state).state.phase := by rw [hs]
    simp only [Stroke.turn?]
    by_cases spares : job.sparesRuns = true
    · have none : job.turn? c.state = none := by
        cases job with
        | halt => cases spares
        | _ => rfl
      rw [none]
      exact stay (phase.trans (Job.phase_run setup w c.state spares))
    · cases job with
      | halt =>
        rw [phase]
        exact h.halt sound.orderly
      | settle r =>
        obtain ⟨winds, -⟩ := sound.of_settle st
        rw [phase]
        simp only [Job.run, State.settle, Job.turn?, Option.toList_none, List.append_nil]
        cases hr : c.state.run with
        | none => exact h
        | some current =>
          dsimp only
          split
          · rename_i same
            have stopped : c.state.phase = .stopped :=
              sound.orderly.stopped_iff.mpr ⟨current, hr, same ▸ winds.cancelled⟩
            exact .settled (stopped ▸ h)
          · exact h
      | tell e => exact stay phase
      | _ => exact absurd rfl spares
  | shifted =>
    obtain ⟨⟨clock, threads, hs⟩, -⟩ := st.after_shift
    exact stay (by rw [hs])

/-- What a stroke tells is added to what has been told. -/
theorem Step.events (st : c.Step setup k c') (frank : c.IsFrank) :
    c'.state.events.filter Event.isOfRun =
      c.state.events.filter Event.isOfRun ++ k.told?.toList := by
  cases k with
  | arrived q =>
    obtain ⟨hs, -⟩ := st.after_arrive
    rw [hs]
    exact (List.append_nil _).symm
  | served s stage =>
    obtain ⟨rfl, mem, -, hs, -⟩ := st.after_serve
    have own := frank.stages stage mem
    have life : stage.told?.toList.filter Event.isOfRun = stage.told?.toList := by
      cases stage with
      | tell e =>
        have life : e.isOfRun = true := own
        simp [Stage.told?, life]
      | _ => rfl
    rw [hs, Stage.events_run own, List.filter_append, life]
    rfl
  | worked w s t job =>
    obtain ⟨rest, rfl, -, -, -, ⟨threads, hs⟩, -⟩ := st.after_work
    rw [hs]
    exact job.events_life setup w c.state
  | shifted =>
    obtain ⟨⟨clock, threads, hs⟩, -⟩ := st.after_shift
    have same : c'.state.events = c.state.events := State.events_congr (by rw [hs])
    rw [same]
    exact (List.append_nil _).symm

/-- What goes on after waiting has nothing left to tell. -/
theorem IsFrank.untold_resume (frank : c.IsFrank) (sound : c.Sound) (ht : t ∈ c.state.threads) :
    (t.resume c.state).untold = [] := by
  rcases (sound.line t ht).resume with ⟨same, -⟩ | ⟨hw, -⟩ | ⟨r, -, -, hw⟩
  · rw [same]
    exact frank.line t ht
  · rw [Thread.untold, hw]
    rfl
  · rw [Thread.untold, hw]
    rfl

theorem Step.frank (st : c.Step setup k c') (sound : c.Sound) (h : c.IsFrank) : c'.IsFrank := by
  cases k with
  | arrived q =>
    obtain ⟨hs, ha, more⟩ := st.after_arrive
    constructor
    · intro x hx
      exact (more x hx).elim (fun hx => (Stage.isFrank_of_demand hx).1) (h.stages x)
    · rw [hs]
      exact h.line
    · rw [ha]
      exact h.active
  | served s stage =>
    obtain ⟨rfl, mem, ha, hs, more⟩ := st.after_serve
    have own := h.stages stage mem
    constructor
    · intro x hx
      exact (more x hx).elim ((Stage.next_run own c.state).1 x) (h.stages x)
    · intro u hu
      rw [hs] at hu
      rcases List.mem_append.mp ((stage.threads_run c.state).mem_iff.mp hu) with hu | hu
      · exact List.flatMap_eq_nil_iff.mp (stage.untold_newcomers c.state) u hu
      · exact h.line u hu
    · rw [ha]
      exact h.active
  | worked w s t job =>
    obtain ⟨rest, due, others, new, rfl, ht, hw, ha, -, -, -, watchers, active, line⟩ := st.split_work
    have frank : Work.IsFrank (job :: rest) := hw ▸ h.active t ht
    constructor
    · rw [Scene.stages, ha]
      exact h.stages
    · intro u hu
      rcases line u hu with hu | hu | ⟨rfl, waits⟩
      · exact h.line u hu
      · obtain ⟨k, due, rfl⟩ := watchers u hu
        rfl
      · -- Neither a halt nor what comes right after it waits.
        have behind : rest.filterMap Job.told? = [] := by
          refine frank.quiet_cons ?_ ?_
          · rintro rfl
            exact waits ⟨rfl, rfl⟩
          · rintro e rfl
            exact waits ⟨rfl, rfl⟩
        have none : job.turn? c.state = none := by
          cases job with
          | halt => exact absurd ⟨rfl, rfl⟩ waits
          | _ => rfl
        change ((job.run setup w c.state).next ++ rest).filterMap Job.told? = []
        rw [List.filterMap_append, Job.told?_next, none, behind]
        rfl
    · intro u hu
      rcases active u hu with rfl | hu
      · exact frank.run
      · exact h.active u hu
  | shifted =>
    cases st with
    | @part before after ha =>
      refine ⟨fun x hx => h.stages x ?_, h.line, h.active⟩
      simpa [Scene.stages, ha] using hx
    | pass ms => exact ⟨h.stages, h.line, h.active⟩
    | @turn t before after ht ready =>
      refine ⟨h.stages, fun u hu => h.line u (mem_of_cut ht hu), fun u hu => ?_⟩
      rcases List.mem_cons.mp hu with rfl | hu
      · exact .quiet (h.untold_resume sound (by simp [ht]))
      · exact h.active u hu
    | @leave t before after ha hw =>
      exact ⟨h.stages, h.line, fun u hu => h.active u (mem_of_cut ha hu)⟩

/-- When a turn is taken it is yet to be told, and it is so until it is told. -/
theorem Step.untold (st : c.Step setup k c') (sound : c.Sound) (frank : c.IsFrank) :
    (k.turn?.toList ++ c.untold).Perm (k.told?.toList ++ c'.untold) := by
  cases k with
  | arrived q =>
    cases st with
    | arrive =>
      have quiet : (q.stages setup).filterMap Stage.told? = [] :=
        List.filterMap_eq_nil_iff.mpr fun x hx => (Stage.isFrank_of_demand hx).2
      simp [Scene.untold, Scene.threads, Scene.stages, Stroke.turn?, Stroke.told?, quiet]
  | served s stage =>
    obtain ⟨rfl, ha, hs, others, before, after⟩ := st.split_serve
    have own := frank.stages stage (before.mem_iff.mpr (by simp))
    have threads : (c'.threads.flatMap Thread.untold).Perm (c.threads.flatMap Thread.untold) := by
      have more : c'.threads.Perm (stage.newcomers c.state ++ c.threads) := by
        rw [Scene.threads, ha, hs]
        exact ((stage.threads_run c.state).append_left c.active).trans
          (List.perm_append_comm_assoc _ _ _)
      have split := more.flatMap_right Thread.untold
      rwa [List.flatMap_append, stage.untold_newcomers, List.nil_append] at split
    have was : c.untold.Perm (stage.told?.toList ++
        (c.threads.flatMap Thread.untold ++ others.filterMap Stage.told?)) := by
      have first : (stage :: others).filterMap Stage.told? =
          stage.told?.toList ++ others.filterMap Stage.told? := by
        rw [List.filterMap_cons]
        cases stage.told? <;> rfl
      refine ((before.filterMap Stage.told?).append_left _).trans ?_
      rw [first]
      exact List.perm_append_comm_assoc _ _ _
    have is : c'.untold.Perm ((stage.turn? c.state).toList ++
        (c.threads.flatMap Thread.untold ++ others.filterMap Stage.told?)) := by
      refine (threads.append (after.filterMap Stage.told?)).trans ?_
      rw [List.filterMap_append, (Stage.next_run own c.state).2]
      exact List.perm_append_comm_assoc _ _ _
    exact ((was.append_left _).trans (List.perm_append_comm_assoc _ _ _)).trans (is.append_left _).symm
  | worked w s t job =>
    obtain ⟨rest, due, others, new, rfl, ht, hw, ha, -, before, after, watchers, -⟩ := st.split_work
    let stay := rest.filterMap Job.told? ++ (others.flatMap Thread.untold ++
      c.stages.filterMap Stage.told?)
    have was : c.untold.Perm (job.told?.toList ++ stay) := by
      have own : t.untold = job.told?.toList ++ rest.filterMap Job.told? := by
        rw [Thread.untold, hw, List.filterMap_cons]
        cases job.told? <;> rfl
      refine ((before.flatMap_right Thread.untold).append_right _).trans (.of_eq ?_)
      simp only [List.flatMap_cons, own, List.append_assoc, stay]
    have is : c'.untold.Perm ((job.turn? c.state).toList ++ stay) := by
      have own : (t.after (job.run setup w c.state) rest due).untold =
          (job.turn? c.state).toList ++ rest.filterMap Job.told? := by
        rw [← Job.told?_next setup w c.state job, ← List.filterMap_append]
        rfl
      have none : new.flatMap Thread.untold = [] := by
        refine List.flatMap_eq_nil_iff.mpr fun u hu => ?_
        obtain ⟨k, due, rfl⟩ := watchers u hu
        rfl
      have stages : c'.stages = c.stages := by rw [Scene.stages, ha, Scene.stages]
      rw [Scene.untold, stages]
      refine ((after.flatMap_right Thread.untold).append_right _).trans (.of_eq ?_)
      simp only [List.flatMap_cons, List.flatMap_append, own, none, List.append_nil,
        List.append_assoc, stay]
    exact ((was.append_left _).trans (List.perm_append_comm_assoc _ _ _)).trans (is.append_left _).symm
  | shifted =>
    refine .of_eq ?_
    change c.untold = c'.untold
    cases st with
    | @part before after ha => simp [Scene.untold, Scene.threads, Scene.stages, ha]
    | pass ms => rfl
    | @turn t before after ht ready =>
      have mem : t ∈ c.state.threads := by simp [ht]
      simp [Scene.untold, Scene.threads, Scene.stages, ht, frank.line t mem,
        frank.untold_resume sound mem]
    | @leave t before after ha hw =>
      have none : t.untold = [] := by rw [Thread.untold, hw]; rfl
      simp [Scene.untold, Scene.threads, Scene.stages, ha, none]

end Scene

/-! ### What weaves do -/

/-- What is taken is told, once. -/
structure Weave.Account (c₀ : Scene) (ks : List Stroke) (c : Scene) : Prop where
  frank : c.IsFrank
  events : c.state.events.filter Event.isOfRun =
    c₀.state.events.filter Event.isOfRun ++ ks.filterMap Stroke.told?
  untold : (ks.filterMap Stroke.turn? ++ c₀.untold).Perm (ks.filterMap Stroke.told? ++ c.untold)
  path : Phase.Path c₀.state.phase (ks.filterMap Stroke.turn?) c.state.phase

theorem filterMap_snoc {α β : Type} (f : α → Option β) (l : List α) (a : α) :
    (l ++ [a]).filterMap f = l.filterMap f ++ (f a).toList := by
  rw [List.filterMap_append, List.filterMap_cons]
  cases f a <;> rfl

theorem Weave.account (v : Weave setup c₀ ks c) (sound : c₀.Sound) (frank : c₀.IsFrank) :
    Account c₀ ks c := by
  induction v with
  | refl => exact ⟨frank, (List.append_nil _).symm, .refl _, .refl⟩
  | @snoc c₁ c₂ ks k v st ih =>
    have sound₁ := v.sound sound
    refine ⟨st.frank sound₁ ih.frank, ?_, ?_, ?_⟩
    · rw [st.events ih.frank, ih.events, filterMap_snoc, List.append_assoc]
    · rw [filterMap_snoc, filterMap_snoc, List.append_assoc, List.append_assoc]
      calc
        (ks.filterMap Stroke.turn? ++ (k.turn?.toList ++ c₀.untold)).Perm
            (k.turn?.toList ++ (ks.filterMap Stroke.turn? ++ c₀.untold)) :=
          List.perm_append_comm_assoc _ _ _
        List.Perm _ (k.turn?.toList ++ (ks.filterMap Stroke.told? ++ c₁.untold)) :=
          ih.untold.append_left _
        List.Perm _ (ks.filterMap Stroke.told? ++ (k.turn?.toList ++ c₁.untold)) :=
          List.perm_append_comm_assoc _ _ _
        List.Perm _ (ks.filterMap Stroke.told? ++ (k.told?.toList ++ c₂.untold)) :=
          (st.untold sound₁ ih.frank).append_left _
    · rw [filterMap_snoc]
      exact st.path sound₁ ih.frank ih.path

theorem prompt_snoc (h : Prompt (ks ++ [k])) : Prompt ks ∧ (k.turn? ≠ none →
    (ks.filterMap Stroke.told?).length = (ks.filterMap Stroke.turn?).length) := by
  constructor
  · intro i hi turn
    have here := h i (by simp; omega)
    rw [List.getElem_append_left hi, List.take_append_of_le_length (by omega)] at here
    exact here turn
  · intro turn
    have last := h ks.length (by simp)
    rw [List.getElem_concat_length rfl, List.take_left] at last
    exact last turn

/-- What tells takes no turn. -/
theorem Stroke.turn?_of_told? (h : k.told? ≠ none) : k.turn? = none := by
  cases k with
  | served s stage => cases stage <;> first | rfl | exact absurd rfl h
  | worked w s t job => cases job <;> first | rfl | exact absurd rfl h
  | arrived | shifted => rfl

/-- Where each turn is taken when all before it have been told, turns are told in their order. -/
theorem Weave.told_in_turn (v : Weave setup c₀ ks c) (sound : c₀.Sound) (frank : c₀.IsFrank)
    (told : c₀.untold = []) (prompt : Prompt ks) :
    ks.filterMap Stroke.turn? = ks.filterMap Stroke.told? ++ c.untold ∧ c.untold.length ≤ 1 := by
  induction v with
  | refl => simp [told]
  | @snoc c₁ c₂ ks k v st ih =>
    obtain ⟨before, now⟩ := prompt_snoc prompt
    obtain ⟨order, few⟩ := ih before
    have perm := st.untold (v.sound sound) (v.account sound frank).frank
    rw [filterMap_snoc, filterMap_snoc]
    cases hk : k.turn? with
    | some e =>
      have none : k.told? = none := by
        by_contra tells
        rw [Stroke.turn?_of_told? tells] at hk
        cases hk
      have all : c₁.untold = [] := by
        have lengths := now (by simp [hk])
        rw [order, List.length_append] at lengths
        exact List.length_eq_zero_iff.mp (by omega)
      rw [hk, none, all] at perm
      have left : c₂.untold = [e] := List.perm_singleton.mp perm.symm
      simp [order, all, none, left]
    | none =>
      rw [hk] at perm
      cases ht : k.told? with
      | none =>
        rw [ht] at perm
        have perm : c₁.untold.Perm c₂.untold := perm
        have left : c₂.untold = c₁.untold := by
          rcases Nat.le_one_iff_eq_zero_or_eq_one.mp few with none | one
          · rw [List.length_eq_zero_iff] at none
            rw [none] at perm ⊢
            exact List.perm_nil.mp perm.symm
          · obtain ⟨e, one⟩ := List.length_eq_one_iff.mp one
            rw [one] at perm ⊢
            exact List.perm_singleton.mp perm.symm
        simp [order, left, few]
      | some e =>
        rw [ht] at perm
        have perm : c₁.untold.Perm (e :: c₂.untold) := perm
        have only : c₂.untold = [] := by
          have lengths := perm.length_eq
          rw [List.length_cons] at lengths
          exact List.length_eq_zero_iff.mp (by omega)
        rw [only] at perm
        rw [order, List.perm_singleton.mp perm, only]
        simp

/-! ### What the journal shows -/

/-- A journal shows as many of the last events as it has room for. -/
theorem Journal.events_recordAll (n : Nat) (es : List Event) :
    ((empty n).recordAll es).events = es.drop (es.length - max n 1) := by
  have holds := holds_applyAll n (es.map .record)
  rw [applyAll_map_record, sinceClear_map_record] at holds
  exact holds.events

/-- However the strokes of several parties are interwoven, the turns that the life of runs takes are those
of a path of phases; each of them is told once, after it was taken, unless it is yet to be told; and from
any moment at which none is yet to be told they are told in their order, and so along the path, as long
as each is taken when all turns before it have been told. The journal shows the last of what is told. -/
theorem Weave.telling (v₀ : Weave setup .fresh ks₀ c₀) (v : Weave setup c₀ ks c) :
    Phase.Path .idle ((ks₀ ++ ks).filterMap Stroke.turn?) c.state.phase ∧
    ((ks₀ ++ ks).filterMap Stroke.turn?).Perm
      ((ks₀ ++ ks).filterMap Stroke.told? ++ c.untold) ∧
    c.state.events.filter Event.isOfRun = (ks₀ ++ ks).filterMap Stroke.told? ∧
    (∀ n, ((Journal.empty n).recordAll c.state.events).events =
      c.state.events.drop (c.state.events.length - max n 1)) ∧
    (c₀.untold = [] → Prompt ks →
      ks.filterMap Stroke.turn? = ks.filterMap Stroke.told? ++ c.untold ∧
      ∃ q, Phase.Path c₀.state.phase (ks.filterMap Stroke.told?) q) := by
  have whole := (v₀.append v).account Scene.sound_fresh Scene.isFrank_fresh
  refine ⟨whole.path, ?_, whole.events, fun n => Journal.events_recordAll n _, fun told prompt => ?_⟩
  · have untold := whole.untold
    rwa [show Scene.fresh.untold = [] from rfl, List.append_nil] at untold
  · have sound := v₀.sound Scene.sound_fresh
    have frank := (v₀.account Scene.sound_fresh Scene.isFrank_fresh).frank
    obtain ⟨order, -⟩ := v.told_in_turn sound frank told prompt
    exact ⟨order, (v.account sound frank).path.cut (order ▸ List.prefix_append _ _)⟩

/-- A run is started, paused and stopped, each as soon as what was done before has been told. -/
theorem telling_promptly :
    ∃ ks c, Weave ⟨{}, 500, true⟩ .fresh ks c ∧ Scene.fresh.untold = [] ∧ Prompt ks ∧
      c.state.events = [.scriptStarted "brief", .scriptPaused, .scriptResumed, .scriptStopped] ∧
      ks.filterMap Stroke.turn? = ks.filterMap Stroke.told? ++ c.untold ∧
      ∃ q, Phase.Path .idle (ks.filterMap Stroke.told?) q := by
  let w : World := ⟨fun _ => .ok (some ⟨0, 0⟩), fun _ => .ok (), fun _ _ => .ok (), fun _ => .ok ()⟩
  let script : Script := { (default : Script) with name := "brief" }
  obtain ⟨ks, c, v, -, found⟩ := @Scene.exists_weave ⟨{}, 500, true⟩ .fresh w
    [.ask (.start script), .ask .pause, .ask .resume, .ask .stop, .serve 0, .serve 0, .serve 1,
      .serve 1, .serve 0, .serve 2, .serve 2, .serve 3, .serve 3, .serve 3]
    (fun ks c => Prompt ks ∧
      c.state.events = [.scriptStarted "brief", .scriptPaused, .scriptResumed, .scriptStopped])
    (by decide +kernel)
  obtain ⟨prompt, events⟩ := of_decide_eq_true found
  obtain ⟨-, -, -, -, ordered⟩ := Weave.refl.telling v
  obtain ⟨order, path⟩ := ordered rfl prompt
  exact ⟨ks, c, v, rfl, prompt, events, order, path⟩

/-- A stop is told before the start of its run, and in the next run it is told that the run goes on before
it is told that it was paused. -/
theorem telling_belated :
    ∃ ks c, Weave ⟨{}, 500, true⟩ .fresh ks c ∧ (∀ q, .arrived q ∈ ks → ∃ i, q = .ask i) ∧
      ks.filterMap Stroke.turn? = [.scriptStarted "brief", .scriptStopped, .scriptStarted "brief",
        .scriptPaused, .scriptResumed] ∧
      ((Journal.empty Journal.usualCapacity).recordAll c.state.events).events =
        [.scriptStopped, .scriptStarted "brief", .scriptStarted "brief", .scriptResumed,
          .scriptPaused] ∧
      ∀ q, ¬ Phase.Path .idle
        ((Journal.empty Journal.usualCapacity).recordAll c.state.events).events q := by
  let w : World := ⟨fun _ => .ok (some ⟨0, 0⟩), fun _ => .ok (), fun _ _ => .ok (), fun _ => .ok ()⟩
  let script : Script := { (default : Script) with name := "brief" }
  obtain ⟨ks, c, v, asks, found⟩ := @Scene.exists_weave ⟨{}, 500, true⟩ .fresh w
    [.ask (.start script), .serve 0, .ask .stop, .serve 1, .serve 1, .serve 1, .serve 0, .serve 0,
      .turn 0, .go 0, .go 0, .ask (.start script), .serve 2, .serve 2, .serve 2, .ask .pause, .serve 3,
      .ask .resume, .serve 4, .serve 4, .serve 3]
    (fun ks c => ks.filterMap Stroke.turn? = [.scriptStarted "brief", .scriptStopped,
        .scriptStarted "brief", .scriptPaused, .scriptResumed] ∧
      ((Journal.empty Journal.usualCapacity).recordAll c.state.events).events =
        [.scriptStopped, .scriptStarted "brief", .scriptStarted "brief", .scriptResumed,
          .scriptPaused])
    (by decide +kernel)
  obtain ⟨turns, events⟩ := of_decide_eq_true found
  refine ⟨ks, c, v, fun q hq => ?_, turns, events, fun q path => ?_⟩
  · obtain ⟨i, hi, -⟩ := asks q hq
    exact ⟨i, hi⟩
  · rw [events] at path
    rcases path.begins with ⟨none, -⟩ | ⟨name, es, begun⟩
    · cases none
    · cases begun

end DeskScript

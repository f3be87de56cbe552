import DeskScript.Proofs.Preparing
import DeskScript.Proofs.Weaving

/-! What a script without errors promises to every run of it. The steps that a run may come to are those
that were looked at before, whichever thread comes to them and whenever. -/

namespace DeskScript

/-! ### What may be asked for -/

/-- Whatever is asked for has the property `p`, and whatever results has the property `q`. -/
def Inquiry.Asks {α : Type} (p : Element → Prop) (q : α → Prop) : Inquiry α → Prop
  | .done a => q a
  | .ask e next => p e ∧ ∀ sighting, (next sighting).Asks p q

section Asks

variable {p : Element → Prop}

theorem Inquiry.Asks.bind {α β : Type} {q : α → Prop} {q' : β → Prop} {i : Inquiry α}
    {f : α → Inquiry β} (h : i.Asks p q) (next : ∀ a, q a → (f a).Asks p q') :
    (i.bind f).Asks p q' := by
  induction i with
  | done a => exact next a h
  | ask e more ih => exact ⟨h.1, fun sighting => ih sighting (h.2 sighting)⟩

mutual

theorem Condition.asks_inquiry (c : Condition) (h : ∀ e ∈ c.elements, p e) :
    c.inquiry.Asks p fun _ => True := by
  cases c with
  | present e | absent e =>
    rw [Condition.inquiry]
    exact ⟨h e (by simp [Condition.elements]), fun _ => trivial⟩
  | all cs =>
    rw [Condition.inquiry]
    exact Condition.asks_inquiryAll cs h
  | any cs =>
    rw [Condition.inquiry]
    exact Condition.asks_inquiryAny cs h
  | not c =>
    rw [Condition.inquiry]
    exact (Condition.asks_inquiry c h).bind fun _ _ => trivial

theorem Condition.asks_inquiryAll (cs : List Condition)
    (h : ∀ e ∈ Condition.elementsOfList cs, p e) :
    (Condition.inquiryAll cs).Asks p fun _ => True := by
  cases cs with
  | nil => trivial
  | cons c cs =>
    rw [Condition.elementsOfList, List.forall_mem_append] at h
    rw [Condition.inquiryAll]
    refine (Condition.asks_inquiry c h.1).bind fun truth _ => ?_
    split
    · exact Condition.asks_inquiryAll cs h.2
    · trivial

theorem Condition.asks_inquiryAny (cs : List Condition)
    (h : ∀ e ∈ Condition.elementsOfList cs, p e) :
    (Condition.inquiryAny cs).Asks p fun _ => True := by
  cases cs with
  | nil => trivial
  | cons c cs =>
    rw [Condition.elementsOfList, List.forall_mem_append] at h
    rw [Condition.inquiryAny]
    refine (Condition.asks_inquiry c h.1).bind fun truth _ => ?_
    split
    · exact Condition.asks_inquiryAny cs h.2
    · trivial

end

theorem Action.asks_aim {a : Action} (h : ∀ e ∈ a.targets, p e) : a.aim.Asks p fun _ => True := by
  unfold aim
  split
  · trivial
  · rename_i e ht
    exact ⟨h e (by simp [ht]), fun _ => trivial⟩
  · rename_i e₁ e₂ es ht
    exact ⟨h e₁ (by simp [ht]), fun _ => ⟨h e₂ (by simp [ht]), fun _ => trivial⟩⟩

theorem Registry.asks_scan {q : Observer → Prop} {es : List Entry}
    (h : ∀ e ∈ es, (∀ x ∈ e.observer.condition.elements, p x) ∧ q e.observer) :
    (scan es).Asks p fun fired => ∀ o ∈ fired, q o := by
  induction es with
  | nil => exact fun _ ho => nomatch ho
  | cons e es ih =>
    obtain ⟨first, others⟩ := List.forall_mem_cons.mp h
    refine (Condition.asks_inquiry _ first.1).bind fun truth _ => ?_
    split
    · rintro o ⟨⟩
      exact first.2
    · exact ih others

end Asks

/-! ### Within a script -/

/-- All steps that a run of the script may come to. -/
def Script.reach (script : Script) : List Step := Forest.everyStep script.withDefaults.steps

/-- The run is one of the script. -/
def Run.IsOf (script : Script) (r : Run) : Prop := r.script = script.withDefaults

/-- The work keeps to the steps of the script. -/
def Job.IsWithin (script : Script) : Job → Prop
  | .iterate r | .iterateOpen r | .endIteration r | .count r | .settle r => r.IsOf script
  | .level lane steps => lane.run.IsOf script ∧ steps ⊆ script.reach
  | .levelOpen lane step steps => lane.run.IsOf script ∧ step :: steps ⊆ script.reach
  | .enter lane step | .body lane step => lane.run.IsOf script ∧ step ∈ script.reach
  | .decide lane q thens elses =>
    lane.run.IsOf script ∧ q.Asks Element.IsFit (fun _ => True) ∧ thens ⊆ script.reach ∧
      elses ⊆ script.reach
  | .aim _ action _ q =>
    (∃ h, .action h action ∈ script.reach) ∧ q.Asks Element.IsFit fun _ => True
  | .act _ action _ _ => ∃ h, .action h action ∈ script.reach
  | .enlist r o | .enlistOpen r o => r.IsOf script ∧ o.IsAmong script.reach
  | .probe q => q.Asks Element.IsFit fun fired => ∀ o ∈ fired, o.IsAmong script.reach
  | .takeIn o => o.IsAmong script.reach
  | .report _ _ _ _ | .rest _ | .giveWay _ | .halt | .clear | .tell _ | .watch _ | .survey
  | .relax _ => True

/-- The current run is one of the script, and so are all observers. -/
structure State.IsWithin (script : Script) (s : State) : Prop where
  run : ∀ r, s.run = some r → r.IsOf script
  registry : ∀ e ∈ s.registry.entries, e.observer.IsAmong script.reach

def Thread.IsWithin (script : Script) (t : Thread) : Prop :=
  ∀ job ∈ t.work ++ t.closing, job.IsWithin script

def Stage.IsWithin (script : Script) : Stage → Prop
  | .openRun other => other = script
  | .launch r => r.IsOf script
  | _ => True

structure Scene.IsWithin (script : Script) (c : Scene) : Prop where
  state : c.state.IsWithin script
  threads : ∀ t ∈ c.threads, t.IsWithin script
  stages : ∀ stage ∈ c.stages, stage.IsWithin script

variable {script : Script} {setup : Setup}

theorem Script.reach_children {step : Step} {steps : List Step} (hs : step ∈ script.reach)
    (hc : steps ∈ step.childLists) : steps ⊆ script.reach :=
  Forest.children_subset_everyStep hs hc

theorem Script.Lawful.isFit_observer (lawful : script.Lawful) {o : Observer}
    (h : o.IsAmong script.reach) : ∀ e ∈ o.condition.elements, e.IsFit := by
  obtain ⟨h, hm, -⟩ := h
  exact (lawful.isFit hm).elements

/-! ### What stays within a script -/

namespace State.IsWithin

variable {s : State}

theorem congr {s' : State} (h : s.IsWithin script) (run : s'.run = s.run)
    (registry : s'.registry = s.registry) : s'.IsWithin script :=
  ⟨by rw [run]; exact h.run, by rw [registry]; exact h.registry⟩

theorem clear (h : s.IsWithin script) : s.clear.IsWithin script := by
  refine ⟨by rw [clear_run]; exact h.run, ?_⟩
  unfold State.clear
  split <;> exact fun _ he => nomatch he

theorem halt (h : s.IsWithin script) : s.halt.2.IsWithin script := by
  refine h.congr s.halt_run ?_
  unfold State.halt
  split <;> rfl

theorem settle (h : s.IsWithin script) (r : Run) : (s.settle r).IsWithin script := by
  unfold State.settle
  split
  · split
    · exact ⟨by simp, h.registry⟩
    · exact h
  · exact h

theorem enlist (h : s.IsWithin script) {o : Observer} (ho : o.IsAmong script.reach)
    (priority : Int32) : (s.enlist setup o priority).IsWithin script := by
  constructor
  · rw [State.enlist_run]
    exact h.run
  · rw [State.enlist_registry]
    intro e he
    rcases Registry.mem_register.mp he with ⟨he, -⟩ | rfl
    · exact h.registry e he
    · exact ho

/-- Work within the script leaves the state within it. -/
theorem work (h : s.IsWithin script) (w : World) {job : Job} (hj : job.IsWithin script) :
    (job.run setup w s).state.IsWithin script := by
  by_cases hd : job.isDecisive = true
  · cases job with
    | halt => exact h.halt
    | clear => exact h.clear
    | settle r => exact h.settle r
    | enlistOpen r o => exact h.enlist hj.2 _
    | _ => cases hd
  · obtain ⟨step, n, hs⟩ := job.kept_run setup w s (by simpa using hd)
    rw [hs]
    exact h.congr rfl rfl

end State.IsWithin

/-- Work within the script leaves only such work to be done. -/
theorem Job.IsWithin.next {job : Job} (h : job.IsWithin script) (lawful : script.Lawful) (w : World)
    {s : State} (hs : s.IsWithin script) :
    ∀ j ∈ (job.run setup w s).next, j.IsWithin script := by
  have only {j : Job} (hj : j.IsWithin script) : ∀ j' ∈ [j], j'.IsWithin script := by simpa using hj
  cases job with
  | iterate r | endIteration r =>
    simp only [run, guarded]
    split
    · simp
    · exact only h
  | iterateOpen r =>
    have inside : r.script.steps ⊆ script.reach := by
      rw [show r.script = script.withDefaults from h]
      exact Forest.subset_everyStep _
    simp only [run]
    split
    · simpa [Job.IsWithin] using h
    · simpa [Job.IsWithin] using ⟨⟨h, inside⟩, h⟩
  | count r => simpa [run, Job.IsWithin] using h
  | level lane steps =>
    cases steps with
    | nil => simp [run]
    | cons step steps =>
      simp only [run, guarded]
      split
      · simp
      · exact only h
  | levelOpen lane step steps =>
    have split := List.cons_subset.mp h.2
    simp only [run, unlessPaused]
    split
    · simp
    · simpa [Job.IsWithin] using ⟨⟨h.1, split.1⟩, h.1, split.2⟩
  | enter lane step => simpa [run, Job.IsWithin] using h
  | body lane step =>
    have fit := lawful.isFit h.2
    cases step with
    | action hd a => exact only ⟨⟨hd, h.2⟩, Action.asks_aim fit.elements⟩
    | conditional hd c thens elses =>
      exact only ⟨h.1, Condition.asks_inquiry c fit.elements,
        Script.reach_children h.2 (by simp [Step.childLists]),
        Script.reach_children h.2 (by simp [Step.childLists])⟩
    | observer hd c steps => exact only ⟨h.1, hd, h.2, rfl⟩
    | group hd name steps => exact only ⟨h.1, Script.reach_children h.2 (by simp [Step.childLists])⟩
  | decide lane q thens elses =>
    cases q with
    | ask e next => exact only ⟨h.1, h.2.1.2 _, h.2.2⟩
    | done truth =>
      refine only ⟨h.1, ?_⟩
      unfold branch
      split
      · exact h.2.2.1
      · exact h.2.2.2
      · exact List.nil_subset _
  | aim step action since q =>
    cases q with
    | ask e next => exact only ⟨h.1, h.2.2 _⟩
    | done place => exact only h.1
  | act step action since place =>
    simp only [run, perform]
    split <;> simp [Job.IsWithin]
  | report step action since ok =>
    simp only [run, afterAction]
    split <;> simp [Job.IsWithin]
  | enlist r o =>
    simp only [run, guarded]
    split
    · simp
    · exact only h
  | halt =>
    simp only [run]
    split <;> simp [Job.IsWithin]
  | watch k | relax k =>
    simp only [run, guarded]
    split <;> simp [Job.IsWithin]
  | survey =>
    refine only (Registry.asks_scan fun e he => ?_)
    have among := hs.registry e (Registry.mem_candidates.mp he).1
    exact ⟨lawful.isFit_observer among, among⟩
  | probe q =>
    cases q with
    | ask e next => exact only (h.2 _)
    | done fired =>
      cases fired with
      | none => simp [run]
      | some o => exact only (h o rfl)
  | takeIn o =>
    obtain ⟨hd, hm, -⟩ := h
    simp only [run]
    split
    · rename_i r _ hr
      simpa [Job.IsWithin] using
        ⟨hs.run r hr, Script.reach_children hm (by simp [Step.childLists])⟩
    · simp
  | enlistOpen | rest | giveWay | clear | tell | settle => simp [run]

theorem Thread.isWithin_watcher (k : Token) (due : Nat) : (Thread.watcher k due).IsWithin script := by
  simp [Thread.IsWithin, watcher, Job.IsWithin]

theorem Thread.IsWithin.resume {t : Thread} (h : t.IsWithin script) (s : State) :
    (t.resume s).IsWithin script := by
  have dropped : ∀ job ∈ t.closing, job.IsWithin script :=
    fun job hj => h job (List.mem_append_right _ hj)
  unfold Thread.resume
  split
  · split
    · simpa [Thread.IsWithin, or_imp, forall_and] using dropped
    · exact h
  · exact h

/-- A stage of a demand within the script keeps to it. -/
theorem Stage.IsWithin.run {stage : Stage} (h : stage.IsWithin script) {s : State}
    (hs : s.IsWithin script) : (stage.run s).1.IsWithin script ∧
      (∀ x ∈ (stage.run s).2, x.IsWithin script) ∧
      ∀ u ∈ (stage.run s).1.threads, u ∈ s.threads ∨ u.IsWithin script := by
  have changed {past : List Stage} (quiet : ∀ x ∈ past, x.IsWithin script) {s' : State}
      (hs' : s'.IsWithin script) (threads : s'.threads = s.threads) :
      s'.IsWithin script ∧ (∀ x ∈ past, x.IsWithin script) ∧
        ∀ u ∈ s'.threads, u ∈ s.threads ∨ u.IsWithin script :=
    ⟨hs', quiet, fun u hu => .inl (threads ▸ hu)⟩
  cases stage with
  | openRun other =>
    obtain rfl : other = script := h
    simp only [Stage.run]
    cases ho : s.openRun other.withDefaults with
    | none => exact changed (by simp) hs rfl
    | some opened =>
      obtain ⟨r, s'⟩ := opened
      unfold State.openRun at ho
      split at ho <;> cases ho
      refine changed ?_ ⟨?_, hs.registry⟩ rfl
      · simp [Stage.IsWithin, Run.IsOf]
      · rintro r ⟨⟩
        rfl
  | launch r =>
    refine ⟨hs.congr rfl rfl, by simp [Stage.run], fun u hu => ?_⟩
    refine (List.mem_append.mp hu).imp_right fun hu => ?_
    rw [List.mem_singleton.mp hu]
    have hr : r.IsOf script := h
    simp [Thread.IsWithin, State.closing, Job.IsWithin, hr]
  | shift before after e =>
    simp only [Stage.run, State.transition]
    by_cases hp : s.phase = before
    · rw [if_pos hp]
      exact changed (by simp [Stage.IsWithin]) (hs.congr rfl rfl) rfl
    · rw [if_neg hp]
      exact changed (by simp) hs rfl
  | halt =>
    have threads : s.halt.2.threads = s.threads := by
      unfold State.halt
      split <;> rfl
    have quiet (told : Bool) :
        ∀ x ∈ Stage.clear :: if told then [.tell .scriptStopped] else [], x.IsWithin script := by
      cases told <;> simp [Stage.IsWithin]
    exact changed (quiet _) hs.halt threads
  | clear => exact changed (by simp [Stage.run]) hs.clear s.clear_threads
  | tell e => exact changed (by simp [Stage.run]) (hs.congr rfl rfl) rfl
  | unregister id =>
    refine changed (by simp [Stage.run]) ⟨hs.run, fun e he => ?_⟩ rfl
    exact hs.registry e (Registry.mem_unregister.mp he).1
  | setActive id active =>
    refine changed (by simp [Stage.run]) ⟨hs.run, fun e he => ?_⟩ rfl
    rcases Registry.mem_setActive.mp he with ⟨he, -⟩ | ⟨e', he', -, rfl⟩
    · exact hs.registry e he
    · exact hs.registry e' he'
  | visit =>
    refine ⟨hs.congr rfl rfl, by simp [Stage.run], fun u hu => ?_⟩
    rcases Moment.mem_enqueue.mp hu with rfl | hu
    · exact .inr (by simp [Thread.IsWithin, Job.IsWithin])
    · exact .inl hu

/-- The demands are those that start no other script. -/
def Stroke.IsFor (script : Script) : Stroke → Prop
  | .arrived (.ask (.start other)) => other = script
  | _ => True

namespace Scene.IsWithin

variable {c c' : Scene} {k : Stroke}

theorem fresh (script : Script) : Scene.fresh.IsWithin script := by
  constructor
  · exact ⟨by simp [Scene.fresh], by simp [Scene.fresh]⟩
  · simp [Scene.fresh, Scene.threads]
  · simp [Scene.fresh, Scene.stages]

/-- The work that is done at a stroke is within the script. -/
theorem worked (h : c.IsWithin script) {w : World} {s : State} {t : Thread} {job : Job}
    (st : c.Step setup (.worked w s t job) c') : job.IsWithin script := by
  obtain ⟨rest, -, ht, hw, -⟩ := st.after_work
  exact h.threads t (List.mem_append_left _ ht) job (by simp [hw])

/-- No stroke leads out of a script that has no errors. -/
theorem step (lawful : script.Lawful) (h : c.IsWithin script) (own : k.IsFor script)
    (st : c.Step setup k c') : c'.IsWithin script := by
  have stay {u : Thread} (hu : u ∈ c.active ∨ u ∈ c.state.threads) : u.IsWithin script :=
    h.threads u (List.mem_append.mpr hu)
  cases k with
  | arrived q =>
    obtain ⟨hs, ha, more⟩ := st.after_arrive
    refine ⟨hs ▸ h.state, fun u hu => ?_, fun x hx => ?_⟩
    · rw [Scene.threads, hs, ha] at hu
      exact h.threads u hu
    · refine (more x hx).elim (fun hx => ?_) (h.stages x)
      cases q with
      | ask i =>
        cases i with
        | start other =>
          simp only [Demand.stages] at hx
          split at hx
          · rw [List.mem_singleton.mp hx]
            exact own
          · cases hx
        | _ =>
          rw [List.mem_singleton.mp hx]
          trivial
      | _ =>
        rw [List.mem_singleton.mp hx]
        trivial
  | served s stage =>
    obtain ⟨rfl, hm, ha, hs, more⟩ := st.after_serve
    obtain ⟨state, next, started⟩ := (h.stages stage hm).run h.state
    refine ⟨hs ▸ state, fun u hu => ?_, fun x hx => (more x hx).elim (next x) (h.stages x)⟩
    rcases List.mem_append.mp hu with hu | hu
    · exact stay (.inl (ha ▸ hu))
    · exact (started u (hs ▸ hu)).elim (fun hu => stay (.inr hu)) id
  | worked w s t job =>
    obtain ⟨rest, rfl, ht, hw, ha, ⟨line, hs⟩, others⟩ := st.after_work
    have hj : job.IsWithin script := h.worked st
    refine ⟨?_, fun u hu => ?_, ?_⟩
    · rw [hs]
      exact (h.state.work w hj).congr rfl rfl
    · rcases others u hu with ⟨due, rfl⟩ | hu | hu
      · intro j hj'
        have behind : ∀ j ∈ rest ++ t.closing, j.IsWithin script := fun j hj' =>
          stay (.inl ht) j (by simpa [hw] using .inr (List.mem_append.mp hj'))
        simp only [Thread.advance, List.append_assoc] at hj'
        exact (List.mem_append.mp hj').elim (hj.next lawful w h.state j) (behind j)
      · exact stay (.inl hu)
      · obtain ⟨new, hn, watchers⟩ := job.threads_run setup w c.state
        rcases List.mem_append.mp (hn ▸ hu) with hu | hu
        · exact stay (.inr hu)
        · obtain ⟨k, due, rfl⟩ := watchers u hu
          exact Thread.isWithin_watcher k due
    · rw [Scene.stages, ha]
      exact h.stages
  | shifted =>
    obtain ⟨⟨clock, line, hs⟩, fewer, others⟩ := st.after_shift
    refine ⟨?_, fun u hu => ?_, fun x hx => h.stages x (fewer hx)⟩
    · rw [hs]
      exact h.state.congr rfl rfl
    · rcases others u hu with hu | ⟨t, ht, rfl⟩
      · exact h.threads u hu
      · exact (stay (.inr ht)).resume _

end Scene.IsWithin

/-- Only what an inquiry may ask for is looked for. -/
theorem Job.IsWithin.looked {job : Job} (h : job.IsWithin script) {w : World} {e : Element}
    {sighting : Sighting} (hm : job.mark w = some (.looked e sighting)) : e.IsFit := by
  cases job with
  | decide lane q thens elses =>
    cases q <;> cases hm
    exact h.2.1.1
  | aim step action since q =>
    cases q <;> cases hm
    exact h.2.1
  | probe q =>
    cases q <;> cases hm
    exact h.1
  | act step action since place =>
    simp only [mark] at hm
    split at hm <;> cases hm
  | tell e => cases e <;> cases hm
  | _ => cases hm

/-- Where no error was found on a script, every run of it keeps to what was looked at, whatever is asked
and whenever, on every screen, and however the threads take their turns: each picture that is looked for
has a threshold from 0 to 1, no combination of keys is empty, and each observer is registered with the
priority of its own place in the script. That is found in the table of the run under its name, and no
observer was left out of the table because of another with the same name. -/
theorem Weave.vetted {c : Scene} {ks : List Stroke} (v : Weave setup .fresh ks c)
    (sound : ∀ f ∈ script.findings, f.severity ≠ .error)
    (own : ∀ other, .arrived (.ask (.start other)) ∈ ks → other = script) :
    (∀ w s t job p sighting, .worked w s t job ∈ ks →
      job.mark w = some (.looked (.picture p) sighting) →
        ∃ threshold, p.threshold = some threshold ∧ 0 ≤ threshold ∧ threshold ≤ 1) ∧
    (∀ w s t step keys since aim,
      .worked w s t (.act step (.keyboard (.pressCombination keys)) since aim) ∈ ks → keys ≠ []) ∧
    ∀ w s t r o, .worked w s t (.enlistOpen r o) ∈ ks →
      Priority.table r.script.steps = Priority.ofVisits (Forest.walk r.script.steps) ∧
      ∃ depth position, o.Stands r.script.steps depth position ∧
        Forest.Observes script.steps o.id depth position ∧
        (Priority.table r.script.steps).lookup o.id = some (Priority.ofPlace depth position) ∧
        ∃ e ∈ ((Job.enlistOpen r o).run setup w s).state.registry.entries,
          e.observer = o ∧ e.priority = Priority.ofPlace depth position := by
  have lawful : script.Lawful := Script.lawful_of_findings sound
  have allowed : ∀ k ∈ ks, Stroke.IsFor script k := by
    intro k hk
    unfold Stroke.IsFor
    split
    · exact own _ hk
    · trivial
  have within := (v.keeps (I := Scene.IsWithin script)
    (P := fun k => ∀ w s t job, k = .worked w s t job → job.IsWithin script)
    (fun c k c' h own st => ⟨h.step lawful own st, fun w s t job hk => h.worked (hk ▸ st)⟩)
    (.fresh script) allowed).2
  refine ⟨?_, ?_, ?_⟩
  · intro w s t job p sighting hk hm
    exact (within _ hk w s t job rfl).looked hm p rfl
  · intro w s t step keys since aim hk
    obtain ⟨h, hm⟩ := within _ hk w s t _ rfl
    exact (lawful.isFit hm).combination keys rfl
  · intro w s t r o hk
    obtain ⟨hr, among⟩ := within _ hk w s t _ rfl
    obtain ⟨depth, position, stands⟩ := among.stands
    obtain ⟨found, priority⟩ := Script.priority_of_stands lawful.ids hr stands
    have hr : r.script = script.withDefaults := hr
    have distinct : r.script.ids.Nodup := by
      rw [hr, script.ids_withDefaults]
      exact lawful.ids
    refine ⟨Priority.table_eq_ofVisits distinct, depth, position, hr ▸ stands, stands.origin,
      priority ▸ found, ?_⟩
    refine ⟨⟨o, true, r.priority o.id, s.registry.sequenceOf o.id⟩, ?_, rfl, priority⟩
    rw [Job.run, State.enlist_registry]
    exact Registry.mem_register.mpr (.inr rfl)

/-- An observer with another one inside it. -/
def Script.nesting : Script := { (default : Script) with
  name := "nesting"
  steps := [
    .observer ⟨"outer", none, none, none⟩ (.present (.picture ⟨"", none⟩)) [
      .group ⟨"group", none, none, none⟩ "group" [
        .observer ⟨"inner", none, none, none⟩ (.present (.position ⟨0, 0⟩)) [],
        .action ⟨"copy", none, none, none⟩ (.keyboard (.pressCombination ["ctrl", "c"]))]],
    .action ⟨"wait", none, none, none⟩ (.system (.wait 1000))] }

/-- Whether a picture is looked for. -/
def Stroke.isLook : Stroke → Bool
  | .worked w _ _ job =>
    match job.mark w with
    | some (.looked (.picture _) _) => true
    | _ => false
  | _ => false

theorem Stroke.exists_of_isLook {k : Stroke} (h : k.isLook = true) :
    ∃ w s t job p sighting, k = .worked w s t job ∧
      job.mark w = some (.looked (.picture p) sighting) := by
  unfold isLook at h
  split at h
  · split at h
    · rename_i hm
      exact ⟨_, _, _, _, _, _, rfl, hm⟩
    · cases h
  · cases h

/-- Whether several keys are pressed at once. -/
def Stroke.isCombination : Stroke → Bool
  | .worked _ _ _ (.act _ (.keyboard (.pressCombination _)) _ _) => true
  | _ => false

theorem Stroke.exists_of_isCombination {k : Stroke} (h : k.isCombination = true) :
    ∃ w s t step keys since aim,
      k = .worked w s t (.act step (.keyboard (.pressCombination keys)) since aim) := by
  unfold isCombination at h
  split at h
  · exact ⟨_, _, _, _, _, _, _, rfl⟩
  · cases h

/-- Whether an observer registers one named `id`. -/
def Stroke.isEnlistment (id : String) : Stroke → Bool
  | .worked _ _ t (.enlistOpen _ o) => t.role == .watcher && o.id == id
  | _ => false

theorem Stroke.exists_of_isEnlistment {k : Stroke} {id : String} (h : k.isEnlistment id = true) :
    ∃ w s t r o, k = .worked w s t (.enlistOpen r o) ∧ t.role = .watcher ∧ o.id = id := by
  unfold isEnlistment at h
  split at h
  · rw [Bool.and_eq_true, beq_iff_eq, beq_iff_eq] at h
    exact ⟨_, _, _, _, _, rfl, h⟩
  · cases h

/-- While the loop is in the middle of an action, the inner observer is registered by the outer one. -/
theorem Weave.vetted_nesting :
    ∃ ks c, Weave ⟨{}, 500, true⟩ .fresh ks c ∧
      (∀ f ∈ Script.nesting.findings, f.severity ≠ .error) ∧
      (∀ other, .arrived (.ask (.start other)) ∈ ks → other = .nesting) ∧
      (∃ w s t job p sighting, .worked w s t job ∈ ks ∧
        job.mark w = some (.looked (.picture p) sighting) ∧
        ∃ threshold, p.threshold = some threshold ∧ 0 ≤ threshold ∧ threshold ≤ 1) ∧
      (∃ w s t step keys since aim,
        .worked w s t (.act step (.keyboard (.pressCombination keys)) since aim) ∈ ks ∧ keys ≠ []) ∧
      ∃ w s t r o, .worked w s t (.enlistOpen r o) ∈ ks ∧ t.role = .watcher ∧ o.id = "inner" ∧
        ∃ depth position, Forest.Observes Script.nesting.steps o.id depth position ∧
          ∃ e ∈ ((Job.enlistOpen r o).run ⟨{}, 500, true⟩ w s).state.registry.entries,
            e.observer = o ∧ e.priority = Priority.ofPlace depth position := by
  let w : World := ⟨fun _ => .ok (some ⟨0, 0⟩), fun _ => .ok (), fun _ _ => .ok (), fun _ => .ok ()⟩
  obtain ⟨ks, c, v, arrived, found⟩ := @Scene.exists_weave ⟨{}, 500, true⟩ .fresh w
    ([.ask (.start .nesting), .serve 0, .serve 0, .serve 0, .turn 0] ++ List.replicate 17 (.go 0) ++
      [.turn 0] ++ List.replicate 27 (.go 0))
    (fun ks _ => ks.any Stroke.isLook && ks.any Stroke.isCombination &&
      ks.any (Stroke.isEnlistment "inner"))
    (by decide +kernel)
  simp only [Bool.and_eq_true, List.any_eq_true] at found
  obtain ⟨⟨⟨k₁, hk₁, look⟩, k₂, hk₂, press⟩, k₃, hk₃, enlist⟩ := found
  have sound : ∀ f ∈ Script.nesting.findings, f.severity ≠ .error := by decide +kernel
  have own : ∀ other, .arrived (.ask (.start other)) ∈ ks → other = .nesting := by
    intro other ho
    obtain ⟨i, hi, hm⟩ := arrived _ ho
    obtain rfl := Demand.ask.inj hi
    simpa using hm
  obtain ⟨looked, pressed, enlisted⟩ := v.vetted sound own
  refine ⟨ks, c, v, sound, own, ?_, ?_, ?_⟩
  · obtain ⟨w, s, t, job, p, sighting, rfl, hm⟩ := Stroke.exists_of_isLook look
    exact ⟨w, s, t, job, p, sighting, hk₁, hm, looked w s t job p sighting hk₁ hm⟩
  · obtain ⟨w, s, t, step, keys, since, aim, rfl⟩ := Stroke.exists_of_isCombination press
    exact ⟨w, s, t, step, keys, since, aim, hk₂, pressed _ _ _ _ _ _ _ hk₂⟩
  · obtain ⟨w, s, t, r, o, rfl, role, id⟩ := Stroke.exists_of_isEnlistment enlist
    obtain ⟨-, depth, position, -, observes, -, entry⟩ := enlisted w s t r o hk₃
    exact ⟨w, s, t, r, o, hk₃, role, id, depth, position, observes, entry⟩

end DeskScript

import DeskScript.Proofs.Moments

/-! The engine as a machine whose threads are active side by side. What is asked from outside is served
one stroke at a time, as far as the engine is locked, and between two strokes of one party any other may
do its own. -/

namespace DeskScript

/-! ### What is asked from outside -/

/-- What is done at one stroke for somebody outside. -/
inductive Stage where
  | openRun (script : Script)
  | launch (run : Run)
  | shift (before after : Phase) (e : Event)
  | halt
  | clear
  | tell (e : Event)
  | unregister (id : String)
  | setActive (id : String) (active : Bool)
  /-- Begins a tick of the observers by hand. -/
  | visit

/-- Does a stage; with the stages that are to come before all others of the same demand. -/
def Stage.run (s : State) : Stage → State × List Stage
  | .openRun script =>
    match s.openRun script.withDefaults with
    | some (r, s) => (s, [.tell (.scriptStarted script.name), .launch r])
    | none => (s, [])
  | .launch r => (s.launch r, [])
  | .shift before after e =>
    match s.transition before after with
    | some s => (s, [.tell e])
    | none => (s, [])
  | .halt =>
    let (stopped, s) := s.halt
    (s, .clear :: if stopped then [.tell .scriptStopped] else [])
  | .clear => (s.clear, [])
  | .tell e => (s.tell e, [])
  | .unregister id => ({ s with registry := s.registry.unregister id }, [])
  | .setActive id active => ({ s with registry := s.registry.setActive id active }, [])
  | .visit => (s.enqueue ⟨.visitor, none, [.survey], [], s.clock⟩, [])

/-- What is asked of the engine or of its observers. -/
inductive Demand where
  | ask (i : Intervention)
  | unregister (id : String)
  | setActive (id : String) (active : Bool)
  | check

/-- The stages with which a demand begins. Where no thread can be started nothing is. -/
def Demand.stages (setup : Setup) : Demand → List Stage
  | .ask (.start script) => if setup.hasRuntime then [.openRun script] else []
  | .ask .pause => [.shift .running .paused .scriptPaused]
  | .ask .resume => [.shift .paused .running .scriptResumed]
  | .ask .stop => [.halt]
  | .unregister id => [.unregister id]
  | .setActive id active => [.setActive id active]
  | .check => [.visit]

/-! ### Weaves -/

/-- The state together with the threads that are active, and for each demand the stages to come. -/
structure Scene where
  state : State
  active : List Thread
  asked : List (List Stage)

namespace Scene

def fresh : Scene := ⟨{}, [], []⟩

def threads (c : Scene) : List Thread := c.active ++ c.state.threads

def stages (c : Scene) : List Stage := c.asked.flatten

/-- Who is left when one goes was there before. -/
theorem mem_of_cut {l before after : List Thread} {t u : Thread} (h : l = before ++ t :: after)
    (hu : u ∈ before ++ after) : u ∈ l := by
  rw [h, List.mem_append, List.mem_cons]
  exact (List.mem_append.mp hu).imp_right .inr

end Scene

/-- What is done at one stroke, with the state in which it is. -/
inductive Stroke where
  | arrived (q : Demand)
  | served (s : State) (stage : Stage)
  | worked (w : World) (s : State) (t : Thread) (job : Job)
  | shifted

/-- One stroke of the machine. -/
inductive Scene.Step (setup : Setup) (c : Scene) : Stroke → Scene → Prop
  /-- Something is asked. -/
  | arrive (q : Demand) : Step setup c (.arrived q) { c with asked := c.asked ++ [q.stages setup] }
  /-- The next stage of a demand is done. -/
  | serve {stage : Stage} {stages : List Stage} {before after : List (List Stage)} :
      c.asked = before ++ (stage :: stages) :: after →
      Step setup c (.served c.state stage)
        ⟨(stage.run c.state).1, c.active,
          before ++ ((stage.run c.state).2 ++ stages) :: after⟩
  /-- A demand is done with. -/
  | part {before after : List (List Stage)} : c.asked = before ++ [] :: after →
      Step setup c .shifted { c with asked := before ++ after }
  /-- Time passes. -/
  | pass (ms : Nat) :
      Step setup c .shifted { c with state := { c.state with clock := c.state.clock + ms } }
  /-- A thread has its turn, whoever else is active. -/
  | turn {t : Thread} {before after : List Thread} :
      c.state.threads = before ++ t :: after → t.isReady c.state = true →
      Step setup c .shifted
        ⟨{ c.state with threads := before ++ after }, t.resume c.state :: c.active, c.asked⟩
  /-- An active thread does a piece of work and goes on. -/
  | work (w : World) {t : Thread} {before after : List Thread} {job : Job} {rest : Work} :
      c.active = before ++ t :: after → t.work = job :: rest →
      (job.run setup w c.state).pause = none →
      Step setup c (.worked w c.state t job)
        ⟨(job.run setup w c.state).state,
          before ++ t.advance (job.run setup w c.state) rest :: after, c.asked⟩
  /-- An active thread does a piece of work and waits, as long as it says. -/
  | wait (w : World) {t : Thread} {before after : List Thread} {job : Job} {rest : Work}
      {ms : UInt64} :
      c.active = before ++ t :: after → t.work = job :: rest →
      (job.run setup w c.state).pause = some ms →
      Step setup c (.worked w c.state t job)
        ⟨(job.run setup w c.state).state.enqueue
          { t.advance (job.run setup w c.state) rest with due := c.state.clock + ms.toNat },
          before ++ after, c.asked⟩
  /-- An active thread asks something of the world and waits for the answer. -/
  | await (w : World) (due : Nat) {t : Thread} {before after : List Thread} {job : Job}
      {rest : Work} :
      c.active = before ++ t :: after → t.work = job :: rest → job.asks = true →
      Step setup c (.worked w c.state t job)
        ⟨(job.run setup w c.state).state.enqueue { t.advance (job.run setup w c.state) rest with due },
          before ++ after, c.asked⟩
  /-- An active thread with nothing left to do ends. -/
  | leave {t : Thread} {before after : List Thread} :
      c.active = before ++ t :: after → t.work = [] →
      Step setup c .shifted { c with active := before ++ after }

/-- What may be done from one scene to another, in order. -/
inductive Weave (setup : Setup) (c : Scene) : List Stroke → Scene → Prop
  | refl : Weave setup c [] c
  | snoc {c₁ c₂ : Scene} {ks : List Stroke} {k : Stroke} :
      Weave setup c ks c₁ → c₁.Step setup k c₂ → Weave setup c (ks ++ [k]) c₂

variable {setup : Setup} {c c' c₁ c₂ : Scene} {ks ks₁ ks₂ : List Stroke} {k : Stroke}

namespace Weave

theorem append (w₁ : Weave setup c ks₁ c₁) (w₂ : Weave setup c₁ ks₂ c₂) :
    Weave setup c (ks₁ ++ ks₂) c₂ := by
  induction w₂ with
  | refl => simpa using w₁
  | snoc _ step ih =>
    rw [← List.append_assoc]
    exact ih.snoc step

theorem single (step : c.Step setup k c₁) : Weave setup c [k] c₁ := Weave.refl.snoc step

theorem cons (step : c.Step setup k c₁) (v : Weave setup c₁ ks c₂) : Weave setup c (k :: ks) c₂ :=
  (single step).append v

/-- What every stroke allowed by `Q` keeps holds at the end of a weave of such strokes if it holds at its
beginning, and so does for each stroke what it brings about. -/
theorem keeps {I : Scene → Prop} {P Q : Stroke → Prop}
    (step : ∀ c k c', I c → Q k → c.Step setup k c' → I c' ∧ P k)
    (v : Weave setup c ks c') (h : I c) (allowed : ∀ k ∈ ks, Q k) : I c' ∧ ∀ k ∈ ks, P k := by
  induction v with
  | refl => exact ⟨h, by simp⟩
  | @snoc c₁ c₂ ks k v st ih =>
    rw [List.forall_mem_append] at allowed
    obtain ⟨hi, hp⟩ := ih allowed.1
    obtain ⟨hi', hk⟩ := step _ _ _ hi (allowed.2 k (by simp)) st
    refine ⟨hi', ?_⟩
    rw [List.forall_mem_append, List.forall_mem_singleton]
    exact ⟨hp, hk⟩

end Weave

/-! ### What a stroke leaves as it was -/

/-- Work starts no thread but one that polls the observers. -/
theorem Job.threads_run (setup : Setup) (w : World) (s : State) (job : Job) :
    ∃ new, (job.run setup w s).state.threads = s.threads ++ new ∧
      ∀ u ∈ new, ∃ k due, u = Thread.watcher k due := by
  have none {s' : State} (h : s'.threads = s.threads) : ∃ new, s'.threads = s.threads ++ new ∧
      ∀ u ∈ new, ∃ k due, u = Thread.watcher k due :=
    ⟨[], by rw [h, List.append_nil], by simp⟩
  by_cases hd : job.isDecisive = true
  · cases job with
    | halt =>
      refine none ?_
      simp only [run, State.halt]
      split <;> rfl
    | clear => exact none s.clear_threads
    | settle r =>
      refine none ?_
      simp only [run, State.settle]
      split
      · split <;> rfl
      · rfl
    | enlistOpen r o =>
      simp only [run, State.enlist, State.startPolling]
      split
      · exact none rfl
      · split
        · exact ⟨_, rfl, fun u hu => ⟨_, _, List.mem_singleton.mp hu⟩⟩
        · exact none rfl
    | _ => cases hd
  · obtain ⟨step, n, hs⟩ := job.kept_run setup w s (by simpa using hd)
    rw [hs]
    exact none rfl

namespace Scene.Step

/-- A piece of work changes the state; its thread keeps what is left, and all others stay. -/
theorem after_work {w : World} {s : State} {t : Thread} {job : Job}
    (st : c.Step setup (.worked w s t job) c') :
    ∃ rest, s = c.state ∧ t ∈ c.active ∧ t.work = job :: rest ∧ c'.asked = c.asked ∧
      (∃ threads, c'.state = { (job.run setup w s).state with threads }) ∧
      ∀ u ∈ c'.threads, (∃ due, u = { t.advance (job.run setup w s) rest with due }) ∨
        u ∈ c.active ∨ u ∈ (job.run setup w s).state.threads := by
  cases st with
  | @work _ _ before after job rest ha hw hp =>
    refine ⟨rest, rfl, by simp [ha], hw, rfl, ⟨_, rfl⟩, fun u hu => ?_⟩
    rcases List.mem_append.mp hu with hu | hu
    · rcases List.mem_append.mp hu with hb | hu
      · exact .inr (.inl (mem_of_cut ha (List.mem_append_left _ hb)))
      · rcases List.mem_cons.mp hu with rfl | hu
        · exact .inl ⟨t.due, rfl⟩
        · exact .inr (.inl (mem_of_cut ha (List.mem_append_right _ hu)))
    · exact .inr (.inr hu)
  | @wait _ _ before after job rest ms ha hw hp =>
    refine ⟨rest, rfl, by simp [ha], hw, rfl, ⟨_, rfl⟩, fun u hu => ?_⟩
    rcases List.mem_append.mp hu with hu | hu
    · exact .inr (.inl (mem_of_cut ha hu))
    · exact (Moment.mem_enqueue.mp hu).imp (fun h => ⟨_, h⟩) .inr
  | @await _ due _ before after job rest ha hw hq =>
    refine ⟨rest, rfl, by simp [ha], hw, rfl, ⟨_, rfl⟩, fun u hu => ?_⟩
    rcases List.mem_append.mp hu with hu | hu
    · exact .inr (.inl (mem_of_cut ha hu))
    · exact (Moment.mem_enqueue.mp hu).imp (fun h => ⟨_, h⟩) .inr

/-- A stage changes the state, and leaves all active threads and all other stages as they are. -/
theorem after_serve {s : State} {stage : Stage} (st : c.Step setup (.served s stage) c') :
    s = c.state ∧ stage ∈ c.stages ∧ c'.active = c.active ∧ c'.state = (stage.run s).1 ∧
      ∀ x ∈ c'.stages, x ∈ (stage.run s).2 ∨ x ∈ c.stages := by
  cases st with
  | @serve _ stages before after ha =>
    refine ⟨rfl, by simp [Scene.stages, ha], rfl, rfl, fun x hx => ?_⟩
    simp only [Scene.stages, ha, List.flatten_append, List.flatten_cons, List.mem_append,
      List.mem_cons] at hx ⊢
    tauto

theorem after_arrive {q : Demand} (st : c.Step setup (.arrived q) c') :
    c'.state = c.state ∧ c'.active = c.active ∧
      ∀ x ∈ c'.stages, x ∈ q.stages setup ∨ x ∈ c.stages := by
  cases st with
  | arrive =>
    refine ⟨rfl, rfl, fun x hx => ?_⟩
    simp only [Scene.stages, List.flatten_append, List.flatten_singleton, List.mem_append] at hx
    exact hx.symm

/-- Otherwise only time passes, or a thread goes on after waiting, or something is done with. -/
theorem after_shift (st : c.Step setup .shifted c') :
    (∃ clock threads, c'.state = { c.state with clock, threads }) ∧ c'.stages ⊆ c.stages ∧
      ∀ u ∈ c'.threads, u ∈ c.threads ∨ ∃ t ∈ c.state.threads, u = t.resume c.state := by
  cases st with
  | @part before after ha =>
    refine ⟨⟨_, _, rfl⟩, ?_, fun u hu => .inl hu⟩
    simp [Scene.stages, ha]
  | pass ms => exact ⟨⟨_, _, rfl⟩, List.Subset.refl _, fun u hu => .inl hu⟩
  | @turn t before after ht ready =>
    refine ⟨⟨_, _, rfl⟩, List.Subset.refl _, fun u hu => ?_⟩
    rcases List.mem_append.mp hu with hu | hu
    · rcases List.mem_cons.mp hu with rfl | hu
      · exact .inr ⟨t, by simp [ht], rfl⟩
      · exact .inl (List.mem_append_left _ hu)
    · exact .inl (List.mem_append_right _ (mem_of_cut ht hu))
  | @leave t before after ha hw =>
    refine ⟨⟨_, _, rfl⟩, List.Subset.refl _, fun u hu => .inl ?_⟩
    rcases List.mem_append.mp hu with hu | hu
    · exact List.mem_append_left _ (mem_of_cut ha hu)
    · exact List.mem_append_right _ hu

end Scene.Step

/-! ### Courses are weaves -/

def Stroke.isWork : Stroke → Bool
  | .worked _ _ _ _ => true
  | _ => false

/-- The piece of work as a stroke. -/
def Happening.stroke? : Happening → Option Stroke
  | .worked w s t job => some (.worked w s t job)
  | .asked _ | .shifted => none

def Moment.scene (m : Moment) : Scene := ⟨m.state, m.active.toList, []⟩

/-- The stages, and those to which they lead, lead from one state to the other when they are done one
right after the other. -/
inductive Stage.Lead : State → List Stage → State → Prop
  | done (s : State) : Lead s [] s
  | next {s s' : State} {stage : Stage} {stages : List Stage} :
      Lead (stage.run s).1 ((stage.run s).2 ++ stages) s' → Lead s (stage :: stages) s'

/-- The stages of an intervention, done one right after the other, do what the intervention does. -/
theorem Intervention.lead (setup : Setup) (s : State) (i : Intervention) :
    Stage.Lead s ((Demand.ask i).stages setup) (i.take setup s).2 := by
  have shift (before after : Phase) (e : Event) :
      Stage.Lead s [.shift before after e] (s.change before after e).2 := by
    refine .next ?_
    simp only [Stage.run, State.change]
    cases s.transition before after with
    | none => exact .done s
    | some s' => exact .next (.done _)
  cases i with
  | start script =>
    simp only [Demand.stages, take, State.start]
    split
    · refine .next ?_
      simp only [Stage.run]
      cases s.openRun script.withDefaults with
      | none => exact .done s
      | some opened => exact .next (.next (.done _))
    · exact .done s
  | pause => exact shift _ _ _
  | resume => exact shift _ _ _
  | stop =>
    refine .next ?_
    simp only [Stage.run, take, State.stop]
    cases s.halt with
    | mk stopped s =>
      cases stopped with
      | true => exact .next (.next (.done _))
      | false => exact .next (.done _)

theorem Stage.Lead.weave {s s' : State} {stages : List Stage} (h : Stage.Lead s stages s')
    (setup : Setup) : ∃ ks, Weave setup ⟨s, [], [stages]⟩ ks ⟨s', [], []⟩ ∧
      ks.filter Stroke.isWork = [] := by
  induction h with
  | done s => exact ⟨_, .single (@Scene.Step.part setup ⟨s, [], [[]]⟩ [] [] rfl), rfl⟩
  | @next s s' stage stages _ ih =>
    obtain ⟨ks, v, silent⟩ := ih
    exact ⟨_, .cons (@Scene.Step.serve setup ⟨s, [], [stage :: stages]⟩ stage stages [] [] rfl) v,
      silent⟩

/-- What happens where threads give way to others only when they wait may be done stroke by stroke. -/
theorem Moment.Step.weave {m m' : Moment} {h : Happening} (st : m.Step setup h m') :
    ∃ ks, Weave setup m.scene ks m'.scene ∧ ks.filter Stroke.isWork = h.stroke?.toList := by
  cases st with
  | ask s i =>
    obtain ⟨ks, v, silent⟩ := (i.lead setup s).weave setup
    exact ⟨_, .cons (.arrive (.ask i)) v, silent⟩
  | pass s ms => exact ⟨_, .single (@Scene.Step.pass setup ⟨s, [], []⟩ ms), rfl⟩
  | turn ht ready => exact ⟨_, .single (@Scene.Step.turn setup ⟨_, [], []⟩ _ _ _ ht ready), rfl⟩
  | work w hw hp =>
    exact ⟨_, .single (@Scene.Step.work setup ⟨_, [_], []⟩ w _ [] [] _ _ rfl hw hp), rfl⟩
  | wait w hw hp =>
    exact ⟨_, .single (@Scene.Step.wait setup ⟨_, [_], []⟩ w _ [] [] _ _ _ rfl hw hp), rfl⟩
  | await w due hw ha =>
    exact ⟨_, .single (@Scene.Step.await setup ⟨_, [_], []⟩ w due _ [] [] _ _ rfl hw ha), rfl⟩
  | leave hw => exact ⟨_, .single (@Scene.Step.leave setup ⟨_, [_], []⟩ _ [] [] rfl hw), rfl⟩

/-- Every course is a weave with the same pieces of work. -/
theorem Course.weave {m m' : Moment} {hs : List Happening} (v : Course setup m hs m') :
    ∃ ks, Weave setup m.scene ks m'.scene ∧
      ks.filter Stroke.isWork = hs.filterMap Happening.stroke? := by
  induction v with
  | refl => exact ⟨[], .refl, rfl⟩
  | @snoc m₁ m₂ hs h v st ih =>
    obtain ⟨ks₁, v₁, same₁⟩ := ih
    obtain ⟨ks₂, v₂, same₂⟩ := st.weave
    refine ⟨ks₁ ++ ks₂, v₁.append v₂, ?_⟩
    rw [List.filter_append, same₁, same₂, List.filterMap_append]
    cases hh : h.stroke? <;> simp [hh]

/-! ### Weaves by choice -/

/-- What is done next. Threads and demands are chosen by their places. -/
inductive Pick where
  | ask (i : Intervention)
  | serve (place : Nat)
  | pass (ms : Nat)
  | turn (place : Nat)
  /-- The active thread in this place goes on as it does when the world answers at once. -/
  | go (place : Nat)

/-- The next scene, if there can be one by the choice. -/
def Scene.next (setup : Setup) (w : World) (c : Scene) : Pick → Option (Stroke × Scene)
  | .ask i => some (.arrived (.ask i), { c with asked := c.asked ++ [(Demand.ask i).stages setup] })
  | .serve place =>
    match c.asked.drop place with
    | (stage :: stages) :: after =>
      some (.served c.state stage, ⟨(stage.run c.state).1, c.active,
        c.asked.take place ++ ((stage.run c.state).2 ++ stages) :: after⟩)
    | _ => none
  | .pass ms => some (.shifted, { c with state := { c.state with clock := c.state.clock + ms } })
  | .turn place =>
    match c.state.threads.drop place with
    | t :: after =>
      if t.isReady c.state then
        some (.shifted, ⟨{ c.state with threads := c.state.threads.take place ++ after },
          t.resume c.state :: c.active, c.asked⟩)
      else none
    | [] => none
  | .go place =>
    match c.active.drop place with
    | t :: after =>
      match t.work with
      | [] => some (.shifted, { c with active := c.active.take place ++ after })
      | job :: rest =>
        let o := job.run setup w c.state
        match o.pause with
        | none =>
          some (.worked w c.state t job,
            ⟨o.state, c.active.take place ++ t.advance o rest :: after, c.asked⟩)
        | some ms =>
          some (.worked w c.state t job,
            ⟨o.state.enqueue { t.advance o rest with due := c.state.clock + ms.toNat },
              c.active.take place ++ after, c.asked⟩)
    | [] => none

/-- What is done when the choices are made one after the other, and the scene to which they lead. -/
def Scene.follow (setup : Setup) (w : World) : Scene → List Pick → Option (List Stroke × Scene)
  | c, [] => some ([], c)
  | c, p :: ps =>
    match c.next setup w p with
    | none => none
    | some (k, c') => (follow setup w c' ps).map fun (ks, c) => (k :: ks, c)

theorem Scene.step_next {w : World} {p : Pick} (hn : c.next setup w p = some (k, c')) :
    c.Step setup k c' := by
  have cut {α : Type} {l : List α} {x : α} {after : List α} {place : Nat}
      (hd : l.drop place = x :: after) : l = l.take place ++ x :: after := by
    rw [← hd, List.take_append_drop]
  cases p with
  | ask i =>
    cases hn
    exact .arrive (.ask i)
  | serve place =>
    simp only [next] at hn
    split at hn <;> cases hn
    rename_i hd
    exact .serve (cut hd)
  | pass ms =>
    cases hn
    exact .pass ms
  | turn place =>
    simp only [next] at hn
    split at hn
    · rename_i hd
      split at hn <;> cases hn
      rename_i ready
      exact .turn (cut hd) ready
    · cases hn
  | go place =>
    simp only [next] at hn
    split at hn
    · rename_i hd
      split at hn
      · rename_i hw
        cases hn
        exact .leave (cut hd) hw
      · rename_i hw
        split at hn <;> cases hn
        · rename_i hp
          exact .work w (cut hd) hw hp
        · rename_i hp
          exact .wait w (cut hd) hw hp
    · cases hn

/-- What is done by choice is a weave. -/
theorem Scene.weave_follow {w : World} {ps : List Pick} (h : c.follow setup w ps = some (ks, c')) :
    Weave setup c ks c' := by
  induction ps generalizing c ks with
  | nil =>
    cases h
    exact .refl
  | cons p ps ih =>
    simp only [follow] at h
    split at h
    · cases h
    · rename_i k c₁ hn
      obtain ⟨⟨ks', c₂⟩, hf, he⟩ := Option.map_eq_some_iff.mp h
      cases he
      exact .cons (step_next hn) (ih hf)

theorem Scene.arrived_follow {w : World} {ps : List Pick} (h : c.follow setup w ps = some (ks, c'))
    {q : Demand} (hq : .arrived q ∈ ks) : ∃ i, q = .ask i ∧ .ask i ∈ ps := by
  induction ps generalizing c ks with
  | nil =>
    cases h
    cases hq
  | cons p ps ih =>
    simp only [follow] at h
    split at h
    · cases h
    · rename_i k c₁ hn
      obtain ⟨⟨ks', c₂⟩, hf, he⟩ := Option.map_eq_some_iff.mp h
      cases he
      rcases List.mem_cons.mp hq with rfl | hq
      · cases p with
        | ask i =>
          cases hn
          exact ⟨i, rfl, by simp⟩
        | pass ms => cases hn
        | serve place | turn place | go place =>
          simp only [next] at hn
          repeat' split at hn
          all_goals cases hn
      · obtain ⟨i, rfl, hi⟩ := ih hf hq
        exact ⟨i, rfl, List.mem_cons_of_mem _ hi⟩

/-- A weave can be found by making choices and looking at where they lead. -/
theorem Scene.exists_weave (w : World) (ps : List Pick) (P : List Stroke → Scene → Bool)
    (h : (c.follow setup w ps).any (fun v => P v.1 v.2) = true) :
    ∃ ks c', Weave setup c ks c' ∧ (∀ q, .arrived q ∈ ks → ∃ i, q = .ask i ∧ .ask i ∈ ps) ∧
      P ks c' = true := by
  cases hf : c.follow setup w ps with
  | none =>
    rw [hf] at h
    cases h
  | some v =>
    rw [hf] at h
    exact ⟨v.1, v.2, weave_follow hf, fun _ => arrived_follow hf, h⟩

end DeskScript

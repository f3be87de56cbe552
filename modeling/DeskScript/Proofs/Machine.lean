import DeskScript.Proofs.Order
import Mathlib.Data.List.TakeDrop
import Mathlib.Data.List.TakeWhile

/-! The engine as a machine. One thread at a time goes on until it lets others go first; what is
asked from outside comes in between, and so does the time that passes. -/

namespace DeskScript

/-! ### What the work shows -/

/-- Whether the world has a part in what is to be done. -/
def Deed.isOutward : Deed → Bool
  | .call _ | .launch _ _ | .close _ => true
  | .wait _ | .nothing | .refused _ => false

/-- What a piece of work shows of the script. -/
inductive Mark where
  | entered (foreground : Bool) (step : Step)
  | looked (element : Element) (sighting : Sighting)
  | did (deed : Deed) (ok : Bool)
  | reported (step : Step) (action : Action) (ok : Bool)
  | enlisted (observer : Observer) (priority : Int32)
  | fired (id : String)

def Mark.entered? : Mark → Option Step
  | .entered _ step => some step
  | _ => none

/-- What is told of a mark. Of an action it is told how long it took. -/
def Mark.note? (milliseconds : Nat) : Mark → Option Note
  | .entered foreground step => some (.entered foreground step.id)
  | .looked e sighting => some (.looked e sighting)
  | .did (.call c) ok => some (.called c ok)
  | .did _ _ | .enlisted _ _ => none
  | .reported step action ok => some (.event (Job.outcomeEvent step action milliseconds ok))
  | .fired id => some (.event (.observerTriggered id))

namespace Job

/-- What the work shows. -/
def mark (w : World) : Job → Option Mark
  | .enter lane step => some (.entered lane.foreground step)
  | .decide _ (.ask e _) _ _ | .aim _ _ _ (.ask e _) | .probe (.ask e _) =>
    some (.looked e (w.find e))
  | .act _ action _ place =>
    let deed := action.deed place
    if deed.isOutward then some (.did deed (w.perform deed).isOk) else none
  | .report step action _ ok => some (.reported step action ok)
  | .enlistOpen r o => some (.enlisted o (r.priority o.id))
  | .tell (.observerTriggered id) => some (.fired id)
  | _ => none

/-- Whether others may go first after the work although there is no time to wait: it asks something
of the world, or waits until it may use the mouse and the keyboard. -/
def asks : Job → Bool
  | .decide _ (.ask _ _) _ _ | .probe (.ask _ _) | .aim _ _ _ _ | .act _ _ _ _ => true
  | _ => false

/-- What work shows it tells. -/
theorem note?_of_mark {w : World} {job : Job} {mark : Mark} (h : job.mark w = some mark)
    (s : State) : ∃ ms, job.note? w s = mark.note? ms := by
  cases job with
  | decide lane q thens elses | aim step action since q | probe q =>
    cases q <;> cases h
    exact ⟨0, rfl⟩
  | act step action since place =>
    simp only [Job.mark] at h
    split at h
    · cases h
      refine ⟨0, ?_⟩
      simp only [Job.note?]
      cases action.deed place <;> rfl
    · cases h
  | report step action since ok =>
    cases h
    exact ⟨s.clock - since, rfl⟩
  | tell e =>
    cases e <;> cases h
    exact ⟨0, rfl⟩
  | enter lane step | enlistOpen r o =>
    cases h
    exact ⟨0, rfl⟩
  | _ => cases h

/-- Work that shows nothing of the script tells of the life of a run at most. -/
theorem note?_of_no_mark {w : World} {job : Job} (h : job.mark w = none) (s : State) :
    job.note? w s = none ∨ ∃ e, job = .tell e ∧ job.note? w s = some (.event e) := by
  cases job with
  | decide lane q thens elses | aim step action since q | probe q =>
    cases q <;> cases h
    exact .inl rfl
  | act step action since place =>
    refine .inl ?_
    simp only [Job.mark] at h
    simp only [Job.note?]
    cases hd : action.deed place <;> first | rfl | simp [hd, Deed.isOutward] at h
  | tell e => exact .inr ⟨e, rfl, rfl⟩
  | enter | report | enlistOpen => cases h
  | _ => exact .inl rfl

end Job

/-! ### Courses -/

/-- The state together with the thread that goes on, if one does. -/
structure Moment where
  state : State
  active : Option Thread

def Moment.threads (m : Moment) : List Thread := m.active.toList ++ m.state.threads

def Moment.fresh : Moment := ⟨{}, none⟩

/-- What leads from one moment to the next. For a piece of work it is said in which world and in
which state it was done, and by which thread. -/
inductive Happening where
  | asked (i : Intervention)
  | worked (w : World) (s : State) (t : Thread) (job : Job)
  | shifted

def Happening.isAsked : Happening → Bool
  | .asked _ => true
  | .worked _ _ _ _ | .shifted => false

/-- One step of the machine. -/
inductive Moment.Step (setup : Setup) : Moment → Happening → Moment → Prop
  /-- Something is asked from outside. -/
  | ask (s : State) (i : Intervention) : Step setup ⟨s, none⟩ (.asked i) ⟨(i.take setup s).2, none⟩
  /-- Time passes. -/
  | pass (s : State) (ms : Nat) : Step setup ⟨s, none⟩ .shifted ⟨{ s with clock := s.clock + ms }, none⟩
  /-- A thread has its turn. -/
  | turn {s : State} {before after : List Thread} {t : Thread} :
      s.threads = before ++ t :: after → t.isReady s = true →
      Step setup ⟨s, none⟩ .shifted ⟨{ s with threads := before ++ after }, some (t.resume s)⟩
  /-- The thread does a piece of work and goes on. -/
  | work (w : World) {s : State} {t : Thread} {job : Job} {rest : Work} :
      t.work = job :: rest → (job.run setup w s).pause = none →
      Step setup ⟨s, some t⟩ (.worked w s t job)
        ⟨(job.run setup w s).state, some (t.advance (job.run setup w s) rest)⟩
  /-- The thread does a piece of work and waits, as long as it says. -/
  | wait (w : World) {s : State} {t : Thread} {job : Job} {rest : Work} {ms : UInt64} :
      t.work = job :: rest → (job.run setup w s).pause = some ms →
      Step setup ⟨s, some t⟩ (.worked w s t job)
        ⟨(job.run setup w s).state.enqueue
          { t.advance (job.run setup w s) rest with due := s.clock + ms.toNat }, none⟩
  /-- The thread asks something of the world and waits for the answer, however long that takes. -/
  | await (w : World) (due : Nat) {s : State} {t : Thread} {job : Job} {rest : Work} :
      t.work = job :: rest → job.asks = true →
      Step setup ⟨s, some t⟩ (.worked w s t job)
        ⟨(job.run setup w s).state.enqueue
          { t.advance (job.run setup w s) rest with due }, none⟩
  /-- A thread with nothing left to do ends. -/
  | leave {s : State} {t : Thread} : t.work = [] → Step setup ⟨s, some t⟩ .shifted ⟨s, none⟩

/-- What may happen from one moment to another, in order. -/
inductive Course (setup : Setup) (m : Moment) : List Happening → Moment → Prop
  | refl : Course setup m [] m
  | snoc {m₁ m₂ : Moment} {hs : List Happening} {h : Happening} :
      Course setup m hs m₁ → m₁.Step setup h m₂ → Course setup m (hs ++ [h]) m₂

variable {setup : Setup} {m m₁ m₂ : Moment} {hs hs₁ hs₂ : List Happening}

theorem Course.append (c₁ : Course setup m hs₁ m₁) (c₂ : Course setup m₁ hs₂ m₂) :
    Course setup m (hs₁ ++ hs₂) m₂ := by
  induction c₂ with
  | refl => simpa using c₁
  | snoc _ step ih =>
    rw [← List.append_assoc]
    exact ih.snoc step

theorem Course.single {h : Happening} (step : m.Step setup h m₁) : Course setup m [h] m₁ :=
  Course.refl.snoc step

/-- What every step keeps holds at the end of a course if it holds at its beginning. -/
theorem Course.keeps {P : Moment → Prop} (step : ∀ m h m', P m → m.Step setup h m' → P m')
    (c : Course setup m hs m₁) (h : P m) : P m₁ := by
  induction c with
  | refl => exact h
  | snoc _ st ih => exact step _ _ _ ih st

/-- A course may be cut at every happening. -/
theorem Course.cut (c : Course setup m hs m₁) {before after : List Happening} {h : Happening}
    (hh : hs = before ++ h :: after) :
    ∃ m' m'', Course setup m before m' ∧ m'.Step setup h m'' ∧ Course setup m'' after m₁ := by
  induction c generalizing after with
  | refl => simp at hh
  | @snoc m' m'' hs' h' c' step ih =>
    rcases after.eq_nil_or_concat with rfl | ⟨init, last, rfl⟩
    · obtain ⟨rfl, hl⟩ := List.append_inj' hh rfl
      cases hl
      exact ⟨m', m'', c', step, .refl⟩
    · rw [List.concat_eq_append, ← List.cons_append, ← List.append_assoc] at hh
      obtain ⟨hi, hl⟩ := List.append_inj' hh rfl
      cases hl
      obtain ⟨m₃, m₄, c₃, st, c₄⟩ := ih hi
      rw [List.concat_eq_append]
      exact ⟨m₃, m₄, c₃, st, c₄.snoc step⟩

/-! ### Courses by choice -/

/-- What is left open at a moment. -/
inductive Choice where
  | ask (i : Intervention)
  | pass (ms : Nat)
  /-- The thread in this place in line has its turn. -/
  | turn (place : Nat)
  /-- The thread goes on as it does when the world answers at once. -/
  | go
  /-- The thread goes on and waits for the answer of the world. -/
  | await (due : Nat)

/-- The next moment, if there can be one by the choice. -/
def Moment.next (setup : Setup) (w : World) (m : Moment) (c : Choice) :
    Option (Happening × Moment) :=
  let s := m.state
  match m.active, c with
  | none, .ask i => some (.asked i, ⟨(i.take setup s).2, none⟩)
  | none, .pass ms => some (.shifted, ⟨{ s with clock := s.clock + ms }, none⟩)
  | none, .turn place =>
    match s.threads.drop place with
    | t :: after =>
      if t.isReady s then
        some (.shifted, ⟨{ s with threads := s.threads.take place ++ after }, some (t.resume s)⟩)
      else none
    | [] => none
  | some t, .go =>
    match t.work with
    | [] => some (.shifted, ⟨s, none⟩)
    | job :: rest =>
      let o := job.run setup w s
      match o.pause with
      | none => some (.worked w s t job, ⟨o.state, some (t.advance o rest)⟩)
      | some ms =>
        some (.worked w s t job,
          ⟨o.state.enqueue { t.advance o rest with due := s.clock + ms.toNat }, none⟩)
  | some t, .await due =>
    match t.work with
    | job :: rest =>
      let o := job.run setup w s
      if job.asks then
        some (.worked w s t job, ⟨o.state.enqueue { t.advance o rest with due }, none⟩)
      else none
    | [] => none
  | _, _ => none

/-- What happens when the choices are made one after the other, and the moment to which they lead. -/
def Moment.follow (setup : Setup) (w : World) : Moment → List Choice → Option (List Happening × Moment)
  | m, [] => some ([], m)
  | m, c :: cs =>
    match m.next setup w c with
    | none => none
    | some (h, m') => (follow setup w m' cs).map fun (hs, m) => (h :: hs, m)

theorem Moment.step_next {w : World} {c : Choice} {h : Happening}
    (hn : m.next setup w c = some (h, m₁)) : m.Step setup h m₁ := by
  obtain ⟨s, active⟩ := m
  cases active with
  | none =>
    cases c with
    | ask i =>
      cases hn
      exact .ask s i
    | pass ms =>
      cases hn
      exact .pass s ms
    | turn place =>
      simp only [next] at hn
      split at hn
      · rename_i t after hd
        split at hn <;> cases hn
        rename_i ready
        refine .turn ?_ ready
        rw [← hd, List.take_append_drop]
      · cases hn
    | go | await due => cases hn
  | some t =>
    cases c with
    | go =>
      simp only [next] at hn
      split at hn
      · rename_i hw
        cases hn
        exact .leave hw
      · rename_i job rest hw
        split at hn <;> cases hn
        · rename_i hp
          exact .work w hw hp
        · rename_i hp
          exact .wait w hw hp
    | await due =>
      simp only [next] at hn
      split at hn
      · rename_i job rest hw
        split at hn <;> cases hn
        rename_i ha
        exact .await w due hw ha
      · cases hn
    | ask i | pass ms | turn place => cases hn

theorem Course.cons {h : Happening} (step : m.Step setup h m₁) (c : Course setup m₁ hs m₂) :
    Course setup m (h :: hs) m₂ := (Course.single step).append c

/-- What happens by choice is a course. -/
theorem Moment.course_follow {w : World} {cs : List Choice}
    (h : m.follow setup w cs = some (hs, m₁)) : Course setup m hs m₁ := by
  induction cs generalizing m hs with
  | nil =>
    cases h
    exact .refl
  | cons c cs ih =>
    simp only [follow] at h
    split at h
    · cases h
    · rename_i e m' hn
      obtain ⟨⟨hs', m''⟩, hf, he⟩ := Option.map_eq_some_iff.mp h
      cases he
      exact .cons (step_next hn) (ih hf)

/-- Whether the happening takes place in the world `w`, if it is a piece of work. -/
def Happening.IsIn (w : World) (e : Happening) : Prop :=
  ∀ w' s t job, e = .worked w' s t job → w' = w

theorem Moment.isIn_next {w : World} {c : Choice} {h : Happening}
    (hn : m.next setup w c = some (h, m₁)) : h.IsIn w := by
  rintro w' s t job rfl
  obtain ⟨s', active⟩ := m
  cases active with
  | none =>
    cases c with
    | turn place =>
      simp only [next] at hn
      split at hn
      · split at hn <;> cases hn
      · cases hn
    | _ => cases hn
  | some u =>
    cases c with
    | go =>
      simp only [next] at hn
      split at hn
      · cases hn
      · split at hn <;> cases hn <;> rfl
    | await due =>
      simp only [next] at hn
      split at hn
      · split at hn <;> cases hn
        rfl
      · cases hn
    | _ => cases hn

theorem Moment.isIn_follow {w : World} {cs : List Choice}
    (h : m.follow setup w cs = some (hs, m₁)) : ∀ e ∈ hs, e.IsIn w := by
  induction cs generalizing m hs with
  | nil =>
    cases h
    simp
  | cons c cs ih =>
    simp only [follow] at h
    split at h
    · cases h
    · rename_i e m' hn
      obtain ⟨⟨hs', m''⟩, hf, he⟩ := Option.map_eq_some_iff.mp h
      cases he
      exact List.forall_mem_cons.mpr ⟨isIn_next hn, ih hf⟩

/-- A course in a world can be found by making choices and looking at where they lead. -/
theorem Moment.exists_course (w : World) (cs : List Choice) (P : List Happening → Moment → Bool)
    (h : (m.follow setup w cs).any (fun c => P c.1 c.2) = true) :
    ∃ hs m', Course setup m hs m' ∧ (∀ e ∈ hs, e.IsIn w) ∧ P hs m' = true := by
  cases hf : m.follow setup w cs with
  | none =>
    rw [hf] at h
    cases h
  | some c =>
    rw [hf] at h
    exact ⟨c.1, c.2, course_follow hf, isIn_follow hf, h⟩

/-- What the happening shows of the script. -/
def Happening.mark? : Happening → Option Mark
  | .worked w _ _ job => job.mark w
  | .asked _ | .shifted => none

/-! ### The schedule is a course -/

/-- What the engine does with a thread is a course. -/
theorem State.course_goOn (setup : Setup) (w : World) (t : Thread) (s : State) :
    ∃ hs, Course setup ⟨s, some t⟩ hs ⟨goOn setup w t s, none⟩ := by
  fun_induction goOn setup w t s with
  | case1 t s hw => exact ⟨_, .single (.leave hw)⟩
  | case2 t s job work hw hp ih =>
    obtain ⟨hs, c⟩ := ih
    exact ⟨_, (Course.single (.work w hw hp)).append c⟩
  | case3 t s job work hw ms hp => exact ⟨_, .single (.wait w hw hp)⟩

theorem State.takeReady_eq {s : State} {t : Thread} {threads : List Thread}
    (h : s.takeReady = some (t, threads)) :
    ∃ before after, s.threads = before ++ t :: after ∧ threads = before ++ after ∧
      t.isReady s = true := by
  unfold takeReady at h
  rw [List.span_eq_takeWhile_dropWhile] at h
  have cut := s.threads.takeWhile_append_dropWhile (p := fun t => !t.isReady s)
  have ready := s.threads.head?_dropWhile_not (fun t => !t.isReady s)
  cases hd : s.threads.dropWhile fun t => !t.isReady s with
  | nil =>
    rw [hd] at h
    cases h
  | cons t' after =>
    rw [hd] at h cut ready
    cases h
    exact ⟨_, after, cut.symm, rfl, by simpa using ready⟩

theorem State.not_isReady_of_takeReady {s : State} (h : s.takeReady = none) :
    ∀ t ∈ s.threads, t.isReady s = false := by
  unfold takeReady at h
  rw [List.span_eq_takeWhile_dropWhile] at h
  cases hd : s.threads.dropWhile fun t => !t.isReady s with
  | nil => simpa using List.dropWhile_eq_nil_iff.mp hd
  | cons t after =>
    rw [hd] at h
    cases h

theorem State.le_due_of_nextDue {s : State} {limit : Nat} (h : s.nextDue limit = none) :
    ∀ t ∈ s.threads, limit ≤ t.due := by
  simpa [nextDue, List.min?_eq_none_iff] using h

/-- What the engine does while threads take turns is a course. It ends as soon as it may, or where all
threads wait for the limit or for longer, or else after as many turns as are allowed. -/
theorem State.course_takeTurns (setup : Setup) (w : World) (finished : State → Bool)
    (limit fuel : Nat) (s : State) :
    ∃ hs s', takeTurns setup w finished limit fuel s = s' ∧ Course setup ⟨s, none⟩ hs ⟨s', none⟩ ∧
      (finished s' = true ∨ (∀ t ∈ s'.threads, t.isReady s' = false ∧ limit ≤ t.due) ∨
        fuel ≤ hs.length) := by
  fun_induction takeTurns setup w finished limit fuel s with
  | case1 s => exact ⟨_, _, rfl, .refl, .inr (.inr (Nat.zero_le _))⟩
  | case2 fuel s hf => exact ⟨_, _, rfl, .refl, .inl hf⟩
  | case3 fuel s hf t threads hr ih =>
    obtain ⟨before, after, hs, rfl, ready⟩ := takeReady_eq hr
    obtain ⟨hs₁, c₁⟩ := course_goOn setup w (t.resume s) { s with threads := before ++ after }
    obtain ⟨hs₂, s', last, c₂, ends⟩ := ih
    refine ⟨_, s', last, ((Course.single (.turn hs ready)).append c₁).append c₂, ?_⟩
    refine ends.imp_right (Or.imp_right fun long => ?_)
    simp only [List.length_append, List.length_singleton]
    omega
  | case4 fuel s hf hr due hd ih =>
    obtain ⟨hs, s', last, c, ends⟩ := ih
    have pass := @Moment.Step.pass setup s (max s.clock due - s.clock)
    have hc : s.clock + (max s.clock due - s.clock) = max s.clock due := by omega
    rw [hc] at pass
    refine ⟨_, s', last, (Course.single pass).append c, ?_⟩
    refine ends.imp_right (Or.imp_right fun long => ?_)
    simp only [List.length_append, List.length_singleton]
    omega
  | case5 fuel s hf hr hd =>
    exact ⟨_, _, rfl, .refl, .inr (.inl fun t ht =>
      ⟨not_isReady_of_takeReady hr t ht, le_due_of_nextDue hd t ht⟩)⟩

end DeskScript

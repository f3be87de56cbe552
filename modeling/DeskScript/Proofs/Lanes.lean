import DeskScript.Proofs.Machine

/-! The work of the lanes of a run: what a thread may have before it while its run goes on. -/

namespace DeskScript

namespace Job

/-- Whether the work is that of a lane in the middle of its steps. -/
def IsOf (lane : Lane) : Job → Prop
  | .level l _ | .levelOpen l _ _ | .enter l _ | .body l _ | .decide l _ _ _ => l = lane
  | .enlist r _ | .enlistOpen r _ => r = lane.run
  | .aim _ _ _ _ | .act _ _ _ _ | .report _ _ _ _ | .rest _ | .halt => True
  | .survey | .probe _ | .takeIn _ | .tell (.observerTriggered _) => lane.foreground = false
  | _ => False

/-- Whether the work may stand behind the work at hand: it does nothing under a cancelled token. -/
def trails : Job → Bool
  | .level _ _ | .rest _ => true
  | _ => false

def isEnter : Job → Bool
  | .enter _ _ => true
  | _ => false

def isHalt : Job → Bool
  | .halt => true
  | _ => false

/-- Whether the work only passes time. -/
def isPause : Job → Bool
  | .rest _ | .giveWay _ => true
  | _ => false

theorem trails_or_not_isEnter {job : Job} (h : job.trails = true) : job.isEnter = false := by
  cases job <;> first | rfl | cases h

theorem eq_halt {job : Job} (h : job.isHalt = true) : job = .halt := by
  cases job <;> first | rfl | cases h

end Job

/-- Whether all that comes after the work at hand trails. Rests may come before that work. -/
def Work.isPaced : Work → Bool
  | [] => true
  | .rest _ :: work => isPaced work
  | _ :: work => work.all Job.trails

namespace Work

theorem isPaced_of_trails {work : Work} (h : work.all Job.trails = true) : work.isPaced = true := by
  induction work with
  | nil => rfl
  | cons job work ih =>
    rw [List.all_cons, Bool.and_eq_true] at h
    cases job with
    | rest ms => exact ih h.2
    | level lane steps => exact h.2
    | _ => cases h.1

theorem isPaced_cons {job : Job} {work : Work} (h : work.all Job.trails = true) :
    isPaced (job :: work) = true := by
  cases job with
  | rest ms => exact isPaced_of_trails h
  | _ => exact h

end Work

/-- Work of a lane in the middle of its steps. A step is entered at once or not at all. -/
structure Lane.Walk (lane : Lane) (work : Work) : Prop where
  own : ∀ job ∈ work, job.IsOf lane
  paced : work.isPaced = true
  sudden : ∀ job ∈ work.tail, job.isEnter = false

namespace Lane.Walk

variable {lane : Lane} {job : Job} {work : Work}

theorem nil (lane : Lane) : lane.Walk [] := ⟨by simp, rfl, by simp⟩

theorem cons (hj : job.IsOf lane) (own : ∀ job ∈ work, job.IsOf lane)
    (trails : work.all Job.trails = true) : lane.Walk (job :: work) where
  own := by simpa using ⟨hj, own⟩
  paced := Work.isPaced_cons trails
  sudden job' hj' := Job.trails_or_not_isEnter (List.all_eq_true.mp trails job' hj')

theorem of_trails (own : ∀ job ∈ work, job.IsOf lane) (trails : work.all Job.trails = true) :
    lane.Walk work where
  own := own
  paced := Work.isPaced_of_trails trails
  sudden job hj :=
    Job.trails_or_not_isEnter (List.all_eq_true.mp trails job (List.mem_of_mem_tail hj))

theorem rest_cons (ms : UInt64) (h : lane.Walk work) (hs : ∀ job ∈ work, job.isEnter = false) :
    lane.Walk (.rest ms :: work) where
  own := by simpa [Job.IsOf] using h.own
  paced := h.paced
  sudden := hs

/-- Behind work that is not a rest everything trails. -/
theorem trails (h : lane.Walk (job :: work)) (hj : job.isPause = false) :
    work.all Job.trails = true := by
  have paced := h.paced
  cases job with
  | rest ms => cases hj
  | _ => exact paced

theorem head (h : lane.Walk (job :: work)) : job.IsOf lane := h.own job (by simp)

theorem behind (h : lane.Walk (job :: work)) : ∀ job ∈ work, job.IsOf lane :=
  fun j hj => h.own j (by simp [hj])

/-- Work of a lane leaves work of the lane, unless it stops the run. -/
theorem run (h : lane.Walk (job :: work)) (hh : job.isHalt = false) (setup : Setup) (w : World)
    {s : State} (hr : lane.foreground = false → s.run = some lane.run) :
    lane.Walk ((job.run setup w s).next ++ work) := by
  by_cases hp : job.isPause = true
  · cases job with
    | rest ms =>
      refine ⟨h.behind, h.paced, ?_⟩
      intro job hj
      exact h.sudden job (List.mem_of_mem_tail hj)
    | giveWay ms => exact absurd h.head id
    | _ => cases hp
  have trails := h.trails (by simpa using hp)
  have own := h.behind
  have hj := h.head
  -- One piece of work that does not trail may come, and then what does.
  have one {job' : Job} (h' : job'.IsOf lane) : lane.Walk ([job'] ++ work) := cons h' own trails
  have two {job₁ job₂ : Job} (h₁ : job₁.IsOf lane) (h₂ : job₂.IsOf lane)
      (ht : job₂.trails = true) : lane.Walk ([job₁, job₂] ++ work) :=
    cons h₁ (by simpa using ⟨h₂, own⟩) (by simp [ht, trails])
  have none : lane.Walk ([] ++ work) := of_trails own trails
  cases job with
  | level l steps =>
    cases steps with
    | nil => exact none
    | cons step steps =>
      simp only [Job.run, Job.guarded]
      split
      · exact none
      · exact one hj
  | levelOpen l step steps =>
    simp only [Job.run, Job.unlessPaused]
    split
    · exact none
    · exact two hj hj rfl
  | enter l step =>
    exact rest_cons _ (two hj trivial rfl) (by
      intro job hm
      rcases List.mem_cons.mp hm with rfl | hm
      · rfl
      · apply Job.trails_or_not_isEnter
        rcases List.mem_cons.mp hm with rfl | hm
        · rfl
        · exact List.all_eq_true.mp trails job hm)
  | body l step => cases step <;> first | exact one hj | exact one trivial | exact one (congrArg _ hj)
  | decide l q thens elses => cases q <;> exact one hj
  | aim step action since q => cases q <;> exact one trivial
  | act step action since place =>
    simp only [Job.run, Job.perform]
    split
    · refine rest_cons _ (one trivial) ?_
      intro job hm
      rcases List.mem_cons.mp hm with rfl | hm
      · rfl
      · exact Job.trails_or_not_isEnter (List.all_eq_true.mp trails job hm)
    · exact one trivial
  | report step action since ok =>
    simp only [Job.run, Job.afterAction]
    split
    · exact one trivial
    · exact none
  | enlist r o =>
    simp only [Job.run, Job.guarded]
    split
    · exact none
    · exact one hj
  | probe q =>
    cases q with
    | ask e next => exact one hj
    | done fired => cases fired <;> first | exact none | exact one hj
  | takeIn o =>
    simp only [Job.run, hr hj]
    split
    · rename_i heq
      cases heq
      refine two hj ?_ rfl
      rcases lane with ⟨r, fg⟩
      cases hj
      rfl
    · exact none
  | survey => exact one hj
  | enlistOpen r o | tell e => exact none
  | rest ms => exact absurd rfl hp
  | halt => cases hh
  | _ => exact absurd hj id

end Lane.Walk

/-- A step is entered only where the engine has just been seen not to be paused. -/
theorem Job.enter_of_run {setup : Setup} {w : World} {s : State} {job : Job}
    (h : (job.run setup w s).next.any isEnter = true) :
    s.phase ≠ .paused ∧ (job.run setup w s).pause = none ∧ job.asks = false := by
  cases job with
  | levelOpen lane step steps =>
    simp only [run, unlessPaused] at h ⊢
    split at h
    · cases h
    · rename_i hp
      exact ⟨hp, by rw [if_neg hp], rfl⟩
  | level lane steps =>
    cases steps <;> simp only [run, guarded] at h <;> (try split at h) <;> cases h
  | body lane step => cases step <;> cases h
  | decide lane q thens elses | aim step action since q => cases q <;> cases h
  | probe q =>
    cases q with
    | ask e next => cases h
    | done fired => cases fired <;> cases h
  | iterate | iterateOpen | endIteration | act | report | enlist | halt | watch | takeIn | relax =>
    simp only [run, guarded, perform, afterAction] at h
    split at h <;> cases h
  | _ => cases h

/-! ### Threads that serve a run -/

namespace Lane

/-- The work with which a lane under the token `k` begins. -/
def begin (lane : Lane) (k : Token) : Job :=
  if lane.foreground then .iterate lane.run else .watch k

/-- The work that comes after the steps of the lane. -/
def finish (lane : Lane) (k : Token) : Job :=
  if lane.foreground then .endIteration lane.run else .relax k

/-- The work that a lane may have before it. -/
inductive Serves (lane : Lane) (k : Token) : Work → Prop
  | waiting {work : Work} : (∀ job ∈ work, job.isPause = true) → Serves lane k (work ++ [lane.begin k])
  | opening : lane.foreground = true → Serves lane k [.iterateOpen lane.run]
  | counting : lane.foreground = true → Serves lane k [.count lane.run]
  | walking {work : Work} : lane.Walk work → Serves lane k (work ++ [lane.finish k])

namespace Serves

variable {lane : Lane} {k : Token} {job : Job} {work : Work}

/-- The work at hand and what comes behind it. -/
theorem cases_cons (h : lane.Serves k (job :: work)) :
    (job.isPause = true ∧ lane.Serves k work) ∨
    (job = lane.begin k ∧ work = []) ∨
    (lane.foreground = true ∧ (job = .iterateOpen lane.run ∨ job = .count lane.run) ∧ work = []) ∨
    (∃ ws, work = ws ++ [lane.finish k] ∧ lane.Walk (job :: ws)) ∨
    (job = lane.finish k ∧ work = []) := by
  generalize hl : job :: work = l at h
  cases h with
  | @waiting ws hp =>
    cases ws with
    | nil =>
      cases hl
      exact .inr (.inl ⟨rfl, rfl⟩)
    | cons j ws =>
      cases hl
      exact .inl ⟨hp _ (by simp), .waiting fun j hj => hp j (by simp [hj])⟩
  | opening hf =>
    cases hl
    exact .inr (.inr (.inl ⟨hf, .inl rfl, rfl⟩))
  | counting hf =>
    cases hl
    exact .inr (.inr (.inl ⟨hf, .inr rfl, rfl⟩))
  | @walking ws hw =>
    cases ws with
    | nil =>
      cases hl
      exact .inr (.inr (.inr (.inr ⟨rfl, rfl⟩)))
    | cons j ws =>
      cases hl
      exact .inr (.inr (.inr (.inl ⟨ws, rfl, hw⟩)))

/-- Work in the middle of steps stands before other such work and the end of the steps. -/
theorem walk {l : Lane} (h : lane.Serves k (job :: work)) (hj : job.IsOf l)
    (hp : job.isPause = false) : ∃ ws, work = ws ++ [lane.finish k] ∧ lane.Walk (job :: ws) := by
  rcases h.cases_cons with ⟨hp', -⟩ | ⟨rfl, -⟩ | ⟨-, rfl | rfl, -⟩ | walk | ⟨rfl, -⟩
  · rw [hp] at hp'
    cases hp'
  · unfold Lane.begin at hj
    split at hj <;> exact absurd hj id
  · exact absurd hj id
  · exact absurd hj id
  · exact walk
  · unfold Lane.finish at hj
    split at hj <;> exact absurd hj id

theorem ne_nil (h : lane.Serves k work) : work ≠ [] := by
  cases h <;> simp

/-- No step is entered behind other work. -/
theorem sudden (h : lane.Serves k (job :: work)) : ∀ j ∈ work, j.isEnter = false := by
  have finish : (lane.finish k).isEnter = false := by
    unfold Lane.finish
    split <;> rfl
  generalize hl : job :: work = l at h
  cases h with
  | @waiting ws hp =>
    have all : ∀ j ∈ ws ++ [lane.begin k], j.isEnter = false := by
      intro j hj
      rcases List.mem_append.mp hj with hj | hj
      · have := hp j hj
        cases j <;> first | rfl | cases this
      · rw [List.mem_singleton.mp hj]
        unfold Lane.begin
        split <;> rfl
    intro j hj
    exact all j (hl ▸ List.mem_cons_of_mem _ hj)
  | opening | counting =>
    cases hl
    simp
  | @walking ws hw =>
    cases ws with
    | nil =>
      cases hl
      simp
    | cons j ws =>
      cases hl
      intro j hj
      rcases List.mem_append.mp hj with hj | hj
      · exact hw.sudden j hj
      · rw [List.mem_singleton.mp hj]
        exact finish

/-- The work at hand tells something, registers an observer or stops the run. -/
theorem decisive (h : lane.Serves k (job :: work)) (hd : job.isDecisive = true) :
    job = .halt ∨ ∃ o, job = .enlistOpen lane.run o := by
  rcases h.cases_cons with ⟨hp, -⟩ | ⟨rfl, -⟩ | ⟨-, rfl | rfl, -⟩ | ⟨ws, -, hw⟩ | ⟨rfl, -⟩
  · cases job <;> cases hp <;> cases hd
  · unfold Lane.begin at hd
    split at hd <;> cases hd
  · cases hd
  · cases hd
  · have own := hw.head
    cases job with
    | halt => exact .inl rfl
    | enlistOpen r o => exact .inr ⟨o, congrArg (Job.enlistOpen · o) own⟩
    | clear | settle => exact absurd own id
    | _ => cases hd
  · unfold Lane.finish at hd
    split at hd <;> cases hd

/-- Work of a lane under tokens that are not cancelled leaves work of the lane, unless it stops the
run. -/
theorem run (h : lane.Serves k (job :: work)) (hh : job.isHalt = false) (setup : Setup) (w : World)
    {s : State} (hr : s.run = some lane.run) (live : s.isCancelled lane.run.token = false)
    (hk : s.isCancelled k = false) : lane.Serves k ((job.run setup w s).next ++ work) := by
  have wait {ms : UInt64} : lane.Serves k [.giveWay ms, lane.begin k] :=
    @waiting lane k [.giveWay ms] (by simp [Job.isPause])
  rcases h.cases_cons with ⟨hp, hw⟩ | ⟨rfl, rfl⟩ | ⟨hf, rfl | rfl, rfl⟩ | ⟨ws, rfl, hw⟩ | ⟨rfl, rfl⟩
  · cases job with
    | rest ms | giveWay ms => exact hw
    | _ => cases hp
  · by_cases hf : lane.foreground = true
    · have hb : lane.begin k = .iterate lane.run := if_pos hf
      rw [hb]
      simp only [Job.run, Job.guarded, live, Bool.false_eq_true, if_false]
      exact .opening hf
    · have hb : lane.begin k = .watch k := if_neg hf
      have he : lane.finish k = .relax k := if_neg hf
      have walk : lane.Walk [.survey] := .cons (by simpa [Job.IsOf] using hf) (by simp) rfl
      rw [hb]
      simp only [Job.run, Job.guarded, hk, Bool.false_eq_true, if_false]
      exact he ▸ .walking walk
  · have hb : lane.begin k = .iterate lane.run := if_pos hf
    have he : lane.finish k = .endIteration lane.run := if_pos hf
    simp only [Job.run]
    split
    · exact hb ▸ wait
    · have walk : lane.Walk [.level ⟨lane.run, true⟩ lane.run.script.steps] :=
        .cons (congrArg (Lane.mk lane.run) hf.symm) (by simp) rfl
      exact he ▸ .walking walk
  · have hb : lane.begin k = .iterate lane.run := if_pos hf
    have wait : lane.Serves k [.giveWay 0, .rest setup.pace.iterationDelay, lane.begin k] :=
      @waiting lane k [.giveWay 0, .rest _] (by simp [Job.isPause])
    rw [hb] at wait
    exact wait
  · rw [← List.append_assoc]
    exact .walking (hw.run hh setup w fun _ => hr)
  · by_cases hf : lane.foreground = true
    · have he : lane.finish k = .endIteration lane.run := if_pos hf
      rw [he]
      simp only [Job.run, Job.guarded, live, Bool.false_eq_true, if_false]
      exact .counting hf
    · have hb : lane.begin k = .watch k := if_neg hf
      have he : lane.finish k = .relax k := if_neg hf
      rw [he]
      simp only [Job.run, Job.guarded, hk, Bool.false_eq_true, if_false]
      exact hb ▸ wait

theorem enter {l : Lane} {step : Step} (h : lane.Serves k (.enter l step :: work)) : l = lane := by
  obtain ⟨ws, -, walk⟩ := h.walk (l := l) rfl rfl
  exact walk.head

/-- Behind work that stops the run everything trails. -/
theorem halt (h : lane.Serves k (.halt :: work)) :
    ∃ ws, work = ws ++ [lane.finish k] ∧ (∀ job ∈ ws, job.IsOf lane) ∧ ws.all Job.trails = true := by
  obtain ⟨ws, rfl, walk⟩ := h.walk (l := lane) trivial rfl
  exact ⟨ws, rfl, walk.behind, walk.trails rfl⟩

end Serves

end Lane

end DeskScript

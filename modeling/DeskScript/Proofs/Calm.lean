import DeskScript.Proofs.Loop
import Mathlib.Data.List.Basic

/-! Courses in which nobody interferes, and what can be told of the loop of a run from the outside: what
it shows, and how many iterations are counted. -/

namespace DeskScript

variable {setup : Setup} {m m' : Moment} {r : Run} {work : Work} {e : Happening} {hs : List Happening}

/-! ### Pauses -/

def Happening.isPause : Happening → Bool
  | .asked .pause => true
  | _ => false

theorem Job.paused_of_run {w : World} {s : State} {job : Job}
    (h : (job.run setup w s).state.phase = .paused) : s.phase = .paused := by
  cases job with
  | halt =>
    simp only [run, State.halt] at h
    split at h <;> cases h
  | settle r =>
    simp only [run, State.settle] at h
    split at h
    · split at h
      · cases h
      · exact h
    · exact h
  | tell e => exact h
  | _ => rwa [Job.phase_run setup w s rfl] at h

/-- Only who asks for a pause pauses a run. -/
theorem Moment.Step.paused (st : m.Step setup e m') (h : m'.state.phase = .paused) :
    m.state.phase = .paused ∨ e.isPause = true := by
  cases st with
  | ask s i =>
    cases i with
    | start script =>
      refine .inl ?_
      simp only [Intervention.take, State.start, State.openRun] at h
      split at h
      · by_cases hp : s.phase = .idle
        · rw [if_pos hp] at h
          cases h
        · rwa [if_neg hp] at h
      · exact h
    | pause => exact .inr rfl
    | resume =>
      refine .inl ?_
      simp only [Intervention.take, State.resume, State.change_phase] at h
      split at h
      · cases h
      · exact h
    | stop =>
      simp only [Intervention.take, State.stop_phase] at h
      split at h <;> cases h
  | pass | turn | leave => exact .inl h
  | work w | wait w | await w => exact .inl (Job.paused_of_run h)

theorem Course.unpaused (c : Course setup m hs m') (h : m.state.phase ≠ .paused)
    (free : ∀ e ∈ hs, e.isPause = false) : m'.state.phase ≠ .paused := by
  induction c with
  | refl => exact h
  | @snoc m₁ m₂ hs e c st ih =>
    intro hp
    rcases st.paused hp with hp | he
    · exact ih (fun e he => free e (List.mem_append_left _ he)) hp
    · rw [free e (by simp)] at he
      cases he

/-! ### Calm -/

/-- Whether the happening takes place in the world `w`, and neither pauses nor stops the run from
outside or from an observer. -/
structure Happening.IsCalm (w : World) (e : Happening) : Prop where
  steady : e.IsIn w
  free : e.isPause = false
  unstopped : e.isStop = false

/-- A piece of work of the loop in a course was done when the run went on. -/
theorem Course.of_mem_pieces {p : Piece} (c : Course setup m hs m') (h : p ∈ pieces r hs) :
    p.state.isCancelled r.token = false ∧ ∃ t before, t.isLoopOf r = true ∧
      .worked p.world p.state t p.job ∈ hs ∧ Course setup m before ⟨p.state, some t⟩ ∧
      before <+: hs ∧ ∃ rest, t.work = p.job :: rest := by
  obtain ⟨e, he, hp⟩ := List.mem_filterMap.mp h
  cases e with
  | worked w s t job =>
    simp only [Happening.piece?] at hp
    split at hp <;> cases hp
    rename_i hl
    rw [Bool.and_eq_true, Bool.not_eq_true'] at hl
    obtain ⟨before, after, rfl⟩ := List.append_of_mem he
    obtain ⟨m₁, m₂, c₁, st, -⟩ := c.cut rfl
    obtain ⟨rfl, hw⟩ := st.worked
    exact ⟨hl.2, t, before, hl.1, he, c₁, List.prefix_append _ _, hw⟩
  | asked | shifted => cases hp

/-- In calm no piece of work of the loop is barred. -/
theorem Course.free_of_calm {w : World} (c : Course setup m hs m') (h : m.state.phase ≠ .paused)
    (calm : ∀ e ∈ hs, e.IsCalm w) : ∀ p ∈ pieces r hs,
      p.world = w ∧ p.state.isCancelled r.token = false ∧ p.state.phase ≠ .paused := by
  intro p hp
  obtain ⟨live, t, before, -, he, c', hb, -⟩ := c.of_mem_pieces hp
  refine ⟨(calm _ he).steady _ _ _ _ rfl, live, ?_⟩
  exact c'.unpaused h fun e he => (calm e (hb.subset he)).free

/-! ### What the loop shows -/

/-- What the loop of the run shows. -/
def Happening.loopMark? (r : Run) : Happening → Option Mark
  | .worked w _ t job => if t.isLoopOf r then job.mark w else none
  | .asked _ | .shifted => none

/-- The loop shows nothing but with its pieces of work. -/
theorem Course.loopMarks_eq (c : Course setup m hs m') (sound : m.Sound) :
    hs.filterMap (·.loopMark? r) = (pieces r hs).filterMap Piece.mark? := by
  rw [pieces, List.filterMap_filterMap]
  apply List.filterMap_congr
  intro e he
  cases e with
  | worked w s t job =>
    obtain ⟨before, c', rest, hw⟩ := c.worked he
    have sound' : Moment.Sound ⟨s, some t⟩ := c'.sound sound
    by_cases hl : t.isLoopOf r = true
    · simp only [Happening.loopMark?, Happening.piece?, hl, if_true, Bool.true_and]
      cases hc : s.isCancelled r.token with
      | false => rfl
      | true =>
        -- The token of the loop is cancelled, so that it shows nothing.
        cases hm : job.mark w with
        | none => rfl
        | some mark =>
          obtain ⟨-, k, -, -, hk, live, -⟩ := sound'.marked hw (by rw [hm]; rfl)
          obtain rfl : k = r.token :=
            Option.some.inj (hk.symm.trans (Thread.isLoopOf_iff.mp hl).2)
          exact absurd (hc.symm.trans live) (by simp)
    · simp [Happening.loopMark?, Happening.piece?, hl]
  | asked | shifted => rfl

/-! ### What is counted -/

def Job.isCount : Job → Bool
  | .count _ => true
  | _ => false

/-- Only what counts an iteration changes the number of them. -/
theorem Job.iterations_run (setup : Setup) (w : World) (s : State) (job : Job) :
    (job.run setup w s).state.iterations = s.iterations + if job.isCount then 1 else 0 := by
  cases job with
  | level lane steps =>
    cases steps with
    | nil => rfl
    | cons step steps =>
      simp only [run, guarded]
      split <;> rfl
  | decide lane q thens elses | aim step action since q | probe q => cases q <;> rfl
  | act step action since place =>
    simp only [run, perform]
    cases action.deed place <;> rfl
  | enter lane step =>
    simp only [run, enterStep]
    split <;> rfl
  | enlistOpen r o =>
    simp only [run, State.enlist, State.startPolling]
    split
    · rfl
    · split <;> rfl
  | settle r =>
    simp only [run, State.settle]
    split
    · split <;> rfl
    · rfl
  | iterate | iterateOpen | endIteration | levelOpen | enlist | halt | clear | watch | takeIn
  | relax =>
    simp only [run, guarded, unlessPaused, State.halt, State.clear]
    split <;> rfl
  | _ => rfl

theorem Intervention.iterations_take {s : State} (h : s.Orderly) (hr : s.run = some r)
    (i : Intervention) : (i.take setup s).2.iterations = s.iterations := by
  have change (before after : Phase) (e : Event) :
      (s.change before after e).2.iterations = s.iterations := by
    unfold State.change State.transition
    by_cases hp : s.phase = before
    · rw [if_pos hp]
      rfl
    · rw [if_neg hp]
  cases i with
  | start script => simp only [take, State.start_of_run h hr]
  | pause | resume => exact change _ _ _
  | stop =>
    have clear (s : State) : s.clear.iterations = s.iterations := by
      unfold State.clear
      split <;> rfl
    have halt : s.halt.2.iterations = s.iterations := by
      unfold State.halt
      split <;> rfl
    simp only [take, State.stop]
    split
    · exact (clear _).trans halt
    · exact (clear _).trans halt

/-- An iteration is counted only by the loop of the current run, which goes on. -/
theorem Moment.Sound.counts {s : State} {t : Thread} {r' : Run} {rest : Work}
    (sound : Sound ⟨s, some t⟩) (hr : s.run = some r) (hw : t.work = .count r' :: rest) :
    t.isLoopOf r = true ∧ s.isCancelled r.token = false := by
  rcases sound.active t rfl with hn | ⟨⟨lane, k, serves, grants, live, -⟩, -⟩ | ⟨r'', past⟩
  · rw [hw] at hn
    cases hn
  · obtain rfl : lane.run = r := Option.some.inj (grants.run.symm.trans hr)
    obtain ⟨ws, -, hl⟩ := serves.work_cons hw
    have hf : lane.foreground = true := by
      rcases hl.cases_cons with ⟨hp, -⟩ | ⟨hb, -⟩ | ⟨hf, -⟩ | ⟨ws, rfl, walk⟩ | ⟨hb, -⟩
      · cases hp
      · unfold Lane.begin at hb
        split at hb <;> cases hb
      · exact hf
      · exact absurd walk.head id
      · unfold Lane.finish at hb
        split at hb <;> cases hb
    have own := grants.own
    have role := serves.role
    rw [hf] at own role
    exact ⟨Thread.isLoopOf_iff.mpr ⟨role, serves.token.trans (congrArg some own)⟩, live⟩
  · rcases past.cases_cons hw with ⟨hs, -⟩ | ⟨ws, -, hq, -⟩
    · cases hs
    · exact absurd hq id

/-- As long as a run is the current one, its iterations are those that its loop counted. -/
theorem Course.iterations_eq (c : Course setup m hs m') (sound : m.Sound) (hr : m.state.run = some r)
    (hr' : m'.state.run = some r) :
    m'.state.iterations = m.state.iterations + (pieces r hs).countP (·.job.isCount) := by
  induction c with
  | refl => simp [pieces]
  | @snoc m₁ m₂ hs e c st ih =>
    have current : m₁.state.run = some r := c.later.stays sound.orderly st.later hr hr'
    have sound₁ : m₁.Sound := c.sound sound
    rw [pieces_snoc, List.countP_append, ← Nat.add_assoc, ← ih current]
    cases e with
    | worked w s t job =>
      obtain ⟨rest, hw, rfl, ⟨threads, hs'⟩, -⟩ := st.after
      rw [hs']
      refine (job.iterations_run setup w s).trans ?_
      cases hc : job.isCount with
      | false =>
        have none : (Happening.piece? r (.worked w s t job)).toList.countP (·.job.isCount) = 0 := by
          simp only [Happening.piece?]
          split <;> simp [hc]
        rw [none]
        rfl
      | true =>
        cases job with
        | count r' =>
          obtain ⟨loop, live⟩ := sound₁.counts current hw
          have live : s.isCancelled r.token = false := live
          simp [Happening.piece?, loop, live, Job.isCount]
        | _ => cases hc
    | asked i =>
      cases st with
      | ask s i => exact i.iterations_take sound₁.orderly current
    | shifted =>
      cases st <;> rfl

end DeskScript

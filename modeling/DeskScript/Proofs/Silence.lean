import DeskScript.Proofs.Moments

/-! Who enters steps and who asks the world: only the lanes of a run that goes on. Once a run has been
stopped its lanes show nothing any more. -/

namespace DeskScript

/-! ### What time brings -/

/-- Tokens are given out and cancelled for good, and a new run has a new token. -/
structure State.Later (s s' : State) : Prop where
  issued : s.issued ≤ s'.issued
  cancelled : ∀ k, s.isCancelled k = true → s'.isCancelled k = true
  run : ∀ r, s'.run = some r → s.run = some r ∨ s.issued ≤ r.token

namespace State.Later

variable {s s' s'' : State}

theorem of_eq (issued : s'.issued = s.issued)
    (cancelled : ∀ k, s.isCancelled k = true → s'.isCancelled k = true) (run : s'.run = s.run) :
    s.Later s' :=
  ⟨Nat.le_of_eq issued.symm, cancelled, fun _ hr => .inl (run.symm.trans hr)⟩

/-- Nothing else of the state counts. -/
theorem same (issued : s'.issued = s.issued) (cancelled : s'.cancelled = s.cancelled)
    (run : s'.run = s.run) : s.Later s' :=
  of_eq issued (fun k hk => (State.isCancelled_congr cancelled k).trans hk) run

theorem refl (s : State) : s.Later s := same rfl rfl rfl

theorem trans (h : s.Later s') (h' : s'.Later s'') : s.Later s'' := by
  refine ⟨Nat.le_trans h.issued h'.issued, fun k hk => h'.cancelled k (h.cancelled k hk), ?_⟩
  intro r hr
  rcases h'.run r hr with hr | hr
  · exact h.run r hr
  · exact .inr (Nat.le_trans h.issued hr)

theorem live (h : s.Later s') {k : Token} (goes : s'.isCancelled k = false) :
    s.isCancelled k = false := by
  cases hc : s.isCancelled k with
  | false => rfl
  | true => cases (h.cancelled k hc).symm.trans goes

/-- A run that is the current one before and after was so all the time. -/
theorem stays {r : Run} (orderly : s.Orderly) (h : s.Later s') (h' : s'.Later s'')
    (hr : s.run = some r) (hr' : s''.run = some r) : s'.run = some r := by
  refine (h'.run r hr').resolve_right fun newer => ?_
  have older : r.token < s.issued := orderly.run_lt r hr
  exact Nat.lt_irrefl _ (Nat.lt_of_lt_of_le older (Nat.le_trans h.issued newer))

end State.Later

namespace State

theorem later_halt (s : State) : s.Later s.halt.2 := by
  unfold halt
  split
  · refine .of_eq rfl ?_ rfl
    intro k hk
    exact (isCancelled_cancel s _ k).trans (by rw [hk, Bool.or_true])
  · exact .same rfl rfl rfl

/-- A stop cancels the current run. -/
theorem isCancelled_halt {s : State} {r : Run} (hr : s.run = some r) :
    s.halt.2.isCancelled r.token = true := by
  simp [halt, hr, isCancelled, cancel]

theorem later_clear (s : State) : s.Later s.clear :=
  .of_eq s.clear_issued s.hushes_clear.cancelled s.clear_run

theorem later_stop (s : State) : s.Later s.stop := by
  unfold stop
  dsimp only
  split
  · exact (s.later_halt.trans (later_clear _)).trans (.same rfl rfl rfl)
  · exact s.later_halt.trans (later_clear _)

theorem later_settle (s : State) (r : Run) : s.Later (s.settle r) := by
  unfold settle
  split
  · split
    · exact ⟨Nat.le_refl _, fun _ hk => hk, by simp⟩
    · exact .refl s
  · exact .refl s

theorem later_enlist (s : State) (setup : Setup) (o : Observer) (priority : Int32) :
    s.Later (s.enlist setup o priority) := by
  unfold enlist
  dsimp only
  split
  · exact .same rfl rfl rfl
  · unfold startPolling
    split
    · exact ⟨Nat.le_succ _, fun _ hk => hk, fun _ hr => .inl hr⟩
    · exact .same rfl rfl rfl

theorem later_change (s : State) (before after : Phase) (e : Event) :
    s.Later (s.change before after e).2 := by
  unfold change transition
  by_cases hp : s.phase = before
  · rw [if_pos hp]
    exact .same rfl rfl rfl
  · rw [if_neg hp]
    exact .refl s

theorem later_start (s : State) (setup : Setup) (script : Script) :
    s.Later (s.start setup script).2 := by
  unfold start openRun
  split
  · by_cases hp : s.phase = .idle
    · rw [if_pos hp]
      refine ⟨Nat.le_succ _, fun _ hk => hk, ?_⟩
      intro r hr
      cases hr
      exact .inr (Nat.le_refl _)
    · rw [if_neg hp]
      exact .refl s
  · exact .refl s

end State

theorem Job.later_run (setup : Setup) (w : World) (s : State) (job : Job) :
    s.Later (job.run setup w s).state := by
  by_cases hd : job.isDecisive = true
  · cases job with
    | halt => exact s.later_halt
    | clear => exact s.later_clear
    | settle r => exact s.later_settle r
    | enlistOpen r o => exact s.later_enlist setup o _
    | _ => cases hd
  · obtain ⟨step, n, h⟩ := job.kept_run setup w s (by simpa using hd)
    rw [h]
    exact .same rfl rfl rfl

theorem Intervention.later_take (setup : Setup) (s : State) (i : Intervention) :
    s.Later (i.take setup s).2 := by
  cases i with
  | start script => exact s.later_start setup script
  | pause => exact s.later_change _ _ _
  | resume => exact s.later_change _ _ _
  | stop => exact s.later_stop

variable {setup : Setup} {m m₁ m₂ : Moment} {hs hs₁ hs₂ : List Happening}

theorem Moment.Step.later {e : Happening} (h : m.Step setup e m₁) : m.state.Later m₁.state := by
  cases h with
  | ask s i => exact i.later_take setup s
  | pass | turn | leave => exact .same rfl rfl rfl
  | work w => exact Job.later_run setup w _ _
  | wait w => exact (Job.later_run setup w _ _).trans (.same rfl rfl rfl)
  | await w => exact (Job.later_run setup w _ _).trans (.same rfl rfl rfl)

theorem Course.later (c : Course setup m hs m₁) : m.state.Later m₁.state := by
  induction c with
  | refl => exact .refl _
  | snoc _ st ih => exact ih.trans st.later

/-! ### Who shows marks -/

theorem Job.mark_of_isQuiet {w : World} {r : Run} {token : Option Token} {job : Job}
    (h : job.IsQuiet r token) : job.mark w = none := by
  cases job with
  | tell e => cases e <;> first | rfl | cases h
  | rest | clear | level | endIteration | relax => rfl
  | _ => exact absurd h id

/-- Work that shows something is done for a run that goes on, by a thread of that run. A step is
entered for the current run and only while it is running. -/
theorem Moment.Sound.marked {s : State} {t : Thread} {job : Job} {rest : Work} {w : World}
    (h : Sound ⟨s, some t⟩) (hw : t.work = job :: rest) (hm : (job.mark w).isSome = true) :
    ∃ r k, s.run = some r ∧ s.isCancelled r.token = false ∧ t.token = some k ∧
      s.isCancelled k = false ∧ r.token ≤ k ∧
      ∀ lane step, job = .enter lane step → lane.run = r ∧ s.phase = .running := by
  rcases h.active t rfl with hn | ⟨alive, entering⟩ | ⟨r, past⟩
  · rw [hw] at hn
    cases hn
  · obtain ⟨lane, k, serves, grants, live, hk⟩ := alive
    refine ⟨lane.run, k, grants.run, live, serves.token, hk, ?_, ?_⟩
    · have own := grants.own
      split at own
      · exact Nat.le_of_eq own.symm
      · obtain ⟨-, r, hr, hlt, -⟩ := h.watched k own
        obtain rfl : lane.run = r := Option.some.inj (grants.run.symm.trans hr)
        exact Nat.le_of_lt hlt
    · rintro l step rfl
      obtain ⟨ws, -, hl⟩ := serves.work_cons hw
      refine ⟨congrArg Lane.run hl.enter, entering ?_⟩
      simp [Thread.isEntering, hw, Job.isEnter]
  · rcases past.cases_cons hw with ⟨rfl, -⟩ | ⟨ws, -, hq, -⟩
    · cases hm
    · rw [Job.mark_of_isQuiet hq] at hm
      cases hm

/-- Every thread with something to do has a token that was given out. -/
theorem Moment.Sound.token_lt (h : m.Sound) {t : Thread} (ht : t ∈ m.threads) (hw : t.work ≠ [])
    {k : Token} (hk : t.token = some k) : k < m.state.issued := by
  rcases List.mem_append.mp ht with ht | ht
  · rcases h.active t (by simpa using ht) with hn | ⟨⟨lane, k', serves, grants, -⟩, -⟩ | ⟨r, past⟩
    · exact absurd hn hw
    · obtain rfl : k' = k := Option.some.inj (serves.token.symm.trans hk)
      exact grants.lt h.orderly
    · exact (past.token k hk).elim (h.orderly.cancelled_lt k) (h.orderly.polling_lt k)
  · cases hc : m.state.isCancelled k with
    | true => exact h.orderly.cancelled_lt k hc
    | false =>
      obtain ⟨lane, -, grants, -⟩ := (h.fits t ht).serves k hk hc
      exact grants.lt h.orderly

/-- What a step works is at hand in a sound moment. -/
theorem Moment.Step.worked {w : World} {s : State} {t : Thread} {job : Job}
    (h : m.Step setup (.worked w s t job) m₁) : m = ⟨s, some t⟩ ∧ ∃ rest, t.work = job :: rest := by
  cases h with
  | work _ hw _ | wait _ hw _ | await _ _ hw _ => exact ⟨rfl, _, hw⟩

/-- A piece of work of a course was at hand at a moment between. -/
theorem Course.worked (c : Course setup m hs m₁) {w : World} {s : State} {t : Thread} {job : Job}
    (hm : .worked w s t job ∈ hs) :
    ∃ before, Course setup m before ⟨s, some t⟩ ∧ ∃ rest, t.work = job :: rest := by
  obtain ⟨before, after, rfl⟩ := List.append_of_mem hm
  obtain ⟨m', m'', c', st, -⟩ := c.cut rfl
  obtain ⟨rfl, hw⟩ := st.worked
  exact ⟨before, c', hw⟩

/-- In every course, whatever is asked and whatever the screen shows, a step is entered only while
the engine is running and for the current run, which has not been stopped. After a run has been
stopped nothing is shown any more by the threads that were there then: whatever is shown later is
shown for a later run and by a thread that has come since. -/
theorem Course.silenced (c₁ : Course setup .fresh hs₁ m₁) (c₂ : Course setup m₁ hs₂ m₂) :
    (∀ w s t lane step, .worked w s t (.enter lane step) ∈ hs₂ →
      s.phase = .running ∧ s.run = some lane.run ∧ s.isCancelled lane.run.token = false) ∧
    ∀ r, m₁.state.run = some r → m₁.state.isCancelled r.token = true →
      (∀ t ∈ m₁.threads, t.work ≠ [] → ∀ k, t.token = some k → k < m₁.state.issued) ∧
      ∀ w s t job, .worked w s t job ∈ hs₂ → (job.mark w).isSome = true →
        ∃ r' k, s.run = some r' ∧ s.isCancelled r'.token = false ∧ t.token = some k ∧
          m₁.state.issued ≤ r'.token ∧ r'.token ≤ k := by
  have sound : m₁.Sound := c₁.sound Moment.sound_fresh
  refine ⟨?_, fun r hr hc => ⟨?_, ?_⟩⟩
  · intro w s t lane step hm
    obtain ⟨before, c, rest, hw⟩ := c₂.worked hm
    obtain ⟨r, k, hr, live, -, -, -, entered⟩ := (c.sound sound).marked (w := w) hw rfl
    obtain ⟨rfl, running⟩ := entered lane step rfl
    exact ⟨running, hr, live⟩
  · exact fun t ht hw k hk => sound.token_lt ht hw hk
  · intro w s t job hm hj
    obtain ⟨before, c, rest, hw⟩ := c₂.worked hm
    obtain ⟨r', k, hr', live, hk, -, hle, -⟩ := (c.sound sound).marked hw hj
    refine ⟨r', k, hr', live, hk, ?_, hle⟩
    rcases c.later.run r' hr' with same | later
    · obtain rfl : r = r' := Option.some.inj (hr.symm.trans same)
      exact absurd ((c.later.cancelled _ hc).symm.trans live) (by simp)
    · exact later

/-- A run that stops itself, and one after it that enters a step. -/
theorem silenced_restart :
    ∃ hs₁ m₁ hs₂ m₂ r, Course ⟨{}, 500, true⟩ .fresh hs₁ m₁ ∧ Course ⟨{}, 500, true⟩ m₁ hs₂ m₂ ∧
      m₁.state.run = some r ∧ m₁.state.isCancelled r.token = true ∧
      ∃ w s t job, .worked w s t job ∈ hs₂ ∧ (job.mark w).isSome = true ∧
        ∃ r' k, s.run = some r' ∧ s.isCancelled r'.token = false ∧ t.token = some k ∧
          m₁.state.issued ≤ r'.token ∧ r'.token ≤ k := by
  let script : Script := { (default : Script) with
    name := "stopper", steps := [.action ⟨"end", none, none, none⟩ (.flow .stop)] }
  let w : World := ⟨fun _ => .ok none, fun _ => .ok (), fun _ _ => .ok (), fun _ => .ok ()⟩
  let stopping : List Choice := [.ask (.start script), .turn 0] ++ List.replicate 11 .go
  let restarting : List Choice :=
    List.replicate 8 .go ++ [.ask (.start script), .turn 0] ++ List.replicate 5 .go
  obtain ⟨hs₁, m₁, c₁, -, h₁⟩ := @Moment.exists_course ⟨{}, 500, true⟩ .fresh w stopping
    (fun _ m => (m.state.run.any fun r => m.state.isCancelled r.token) &&
      (m.follow ⟨{}, 500, true⟩ w restarting).any fun c => c.1.any (·.mark?.isSome))
    (by decide +kernel)
  rw [Bool.and_eq_true] at h₁
  obtain ⟨r, hr, hc⟩ := (Option.any_eq_true _ _).mp h₁.1
  obtain ⟨hs₂, m₂, c₂, -, h₂⟩ := Moment.exists_course w restarting
    (fun hs _ => hs.any (·.mark?.isSome)) h₁.2
  obtain ⟨h, hm, marked⟩ := List.any_eq_true.mp h₂
  cases h with
  | worked w s t job =>
    exact ⟨hs₁, m₁, hs₂, m₂, r, c₁, c₂, hr, hc, w, s, t, job, hm, marked,
      ((c₁.silenced c₂).2 r hr hc).2 w s t job hm marked⟩
  | asked | shifted => cases marked

end DeskScript

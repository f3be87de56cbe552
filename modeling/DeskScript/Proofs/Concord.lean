import DeskScript.Proofs.Strokes

/-! What holds in every scene of a weave: the current run has one loop, and there is no other. -/

namespace DeskScript

variable {setup : Setup} {w : World} {s : State} {t : Thread} {job : Job} {r : Run} {c c' : Scene}
  {k : Stroke} {ks : List Stroke}

namespace Scene

/-- What holds in every scene. -/
structure Sound (c : Scene) : Prop where
  orderly : c.state.Orderly
  meet : ∀ stage ∈ c.stages, stage.IsMeet
  /-- There is one loop, that of the current run. -/
  loops : c.loops.Perm c.state.run.toList
  line : ∀ t ∈ c.state.threads, t.Suits c.state
  active : ∀ t ∈ c.active, t.Acts c.state

theorem sound_fresh : fresh.Sound where
  orderly := State.orderly_fresh
  meet := by simp [fresh, stages]
  loops := by simp [fresh, loops, threads, stages]
  line := by simp [fresh]
  active := by simp [fresh]

end Scene

namespace Scene.Sound

theorem run_of_loop (h : c.Sound) (ht : t ∈ c.threads) (hl : t.loop? = some r) :
    c.state.run = some r := by
  have loop : r ∈ c.loops := List.mem_append_left _ (List.mem_filterMap.mpr ⟨t, ht, hl⟩)
  simpa using h.loops.mem_iff.mp loop

theorem run_of_launch (h : c.Sound) (hm : .launch r ∈ c.stages) : c.state.run = some r := by
  have loop : r ∈ c.loops := List.mem_append_right _ (List.mem_filterMap.mpr ⟨_, hm, rfl⟩)
  simpa using h.loops.mem_iff.mp loop

/-- A thread that winds up a run winds up the current one, and is the only loop. -/
theorem alone_of_loop (h : c.Sound) {others : List Thread} (hp : c.threads.Perm (t :: others))
    (hl : t.loop? = some r) : others.filterMap Thread.loop? = [] ∧
      c.stages.filterMap Stage.launched? = [] := by
  have hr : c.state.run = some r := h.run_of_loop (hp.mem_iff.mpr (by simp)) hl
  have loops := h.loops
  have split : c.loops.Perm (r :: (others.filterMap Thread.loop? ++
      c.stages.filterMap Stage.launched?)) := by
    refine ((hp.filterMap Thread.loop?).append_right _).trans ?_
    rw [List.filterMap_cons, hl]
    exact List.Perm.refl _
  rw [hr] at loops
  have none := (split.symm.trans loops).length_eq
  simpa using none

/-- A run is wound up by its loop, after it was stopped. -/
theorem of_settle (h : c.Sound) (st : c.Step setup (.worked w s t (.settle r)) c') :
    t.Winds s r ∧ t.work = [.settle r] := by
  obtain ⟨rest, rfl, ht, hw, -⟩ := st.after_work
  rcases h.active t ht with suits | ⟨r', winds⟩
  · exact absurd rfl (suits.ne_settle hw r)
  · rcases winds.cases_cons hw with ⟨hj, -⟩ | ⟨hj, rfl⟩
    · cases hj
    · cases hj
      exact ⟨winds, hw⟩

/-- What is known of a run stays known. -/
theorem knows (h : c.Sound) (st : c.Step setup k c') (hk : c.state.Knows r) : c'.state.Knows r := by
  refine hk.mono st.later fun hr => ?_
  cases k with
  | arrived q =>
    obtain ⟨hs, -⟩ := st.after_arrive
    exact .inl (hs ▸ hr)
  | served s stage =>
    obtain ⟨rfl, -, hs, -⟩ := st.split_serve
    have busy : c.state.phase ≠ .idle := by simp [h.orderly.idle_iff, hr]
    rw [hs, Stage.run_run, Stage.opened?_of_busy busy]
    exact .inl hr
  | worked w s t job =>
    obtain ⟨-, rfl, -, -, -, ⟨threads, hs⟩, -⟩ := st.after_work
    by_cases hj : ∃ r', job = .settle r'
    · obtain ⟨r', rfl⟩ := hj
      obtain ⟨winds, -⟩ := h.of_settle st
      rw [hs]
      simp only [Job.run, State.settle, hr]
      split
      · rename_i same
        exact .inr (same ▸ winds.cancelled)
      · exact .inl hr
    · have other : ∀ r', job ≠ .settle r' := fun r' hr' => hj ⟨r', hr'⟩
      rw [hs]
      exact .inl ((Job.run_run other).trans hr)
  | shifted =>
    obtain ⟨⟨clock, threads, hs⟩, -⟩ := st.after_shift
    rw [hs]
    exact .inl hr

theorem arrive {q : Demand} (h : c.Sound) (st : c.Step setup (.arrived q) c') : c'.Sound := by
  cases st with
  | arrive =>
    have stages : Scene.stages { c with asked := c.asked ++ [q.stages setup] } =
        c.stages ++ q.stages setup := by
      simp [Scene.stages]
    have quiet : (q.stages setup).filterMap Stage.launched? = [] :=
      List.filterMap_eq_nil_iff.mpr fun stage hs => (Demand.of_mem_stages hs).2.2
    refine ⟨h.orderly, ?_, ?_, h.line, h.active⟩
    · rw [stages, List.forall_mem_append]
      exact ⟨h.meet, fun stage hs => (Demand.of_mem_stages hs).1⟩
    · rw [Scene.loops, stages, List.filterMap_append, quiet, List.append_nil]
      exact h.loops

theorem serve {stage : Stage} (h : c.Sound) (st : c.Step setup (.served s stage) c') : c'.Sound := by
  have known := fun r => h.knows (r := r) st
  have later := st.later
  obtain ⟨rfl, ha, hs, others, before, after⟩ := st.split_serve
  have meet : stage.IsMeet := h.meet stage (before.mem_iff.mpr (by simp))
  have hn := stage.threads_run c.state
  constructor
  · rw [hs]
    exact h.orderly.stage meet
  · intro x hx
    rcases List.mem_append.mp (after.mem_iff.mp hx) with hx | hx
    · rcases Stage.mem_next hx with ⟨e, rfl⟩ | ⟨-, rfl⟩ | ⟨script, -, -, rfl⟩ <;> trivial
    · exact h.meet x (before.mem_iff.mpr (List.mem_cons_of_mem _ hx))
  · -- The loops that are neither launched nor opened by the stage stay.
    let stay := c.threads.filterMap Thread.loop? ++ others.filterMap Stage.launched?
    have was : c.loops.Perm (stage.launched?.toList ++ stay) := by
      have split := (before.filterMap Stage.launched?).append_left (c.threads.filterMap Thread.loop?)
      have first : (stage :: others).filterMap Stage.launched? =
          stage.launched?.toList ++ others.filterMap Stage.launched? := by
        rw [List.filterMap_cons]
        cases stage.launched? <;> rfl
      rw [first] at split
      exact split.trans (List.perm_append_comm_assoc _ _ _)
    have is : c'.loops.Perm ((stage.opened? c.state).toList ++ (stage.launched?.toList ++ stay)) := by
      have threads : c'.threads.Perm (stage.newcomers c.state ++ c.threads) := by
        rw [Scene.threads, ha, hs]
        exact (hn.append_left c.active).trans (List.perm_append_comm_assoc _ _ _)
      have split := (threads.filterMap Thread.loop?).append (after.filterMap Stage.launched?)
      rw [List.filterMap_append, List.filterMap_append, Stage.loop?_newcomers, Stage.launched?_run]
        at split
      refine split.trans ?_
      rw [List.append_assoc]
      refine ((List.perm_append_comm_assoc _ _ _).append_left _).trans ?_
      exact List.perm_append_comm_assoc _ _ _
    refine is.trans ((was.symm.trans h.loops).append_left _ |>.trans ?_)
    rw [hs, Stage.run_run]
    cases ho : stage.opened? c.state with
    | none => exact List.Perm.refl _
    | some r =>
      obtain ⟨-, -, idle⟩ := Stage.opened?_eq_some ho
      rw [h.orderly.idle_iff.mp idle]
      exact List.Perm.refl _
  · intro t ht
    rw [hs] at ht
    exact (List.mem_append.mp (hn.mem_iff.mp ht)).elim (fun ht => Stage.suits_newcomers ht _)
      fun ht => (h.line t ht).mono known
  · intro t ht
    rw [ha] at ht
    exact (h.active t ht).mono later known

theorem work (h : c.Sound) (st : c.Step setup (.worked w s t job) c') : c'.Sound := by
  have known := fun r => h.knows (r := r) st
  have later := st.later
  obtain ⟨rest, due, others, new, rfl, ht, hw, ha, ⟨line, hs⟩, before, after, watchers, active, line'⟩ :=
    st.split_work
  have stages : c'.stages = c.stages := by rw [Scene.stages, ha, Scene.stages]
  -- What becomes of the thread.
  have becomes : (t.after (job.run setup w c.state) rest due).Suits c'.state ∨
      ∃ r, (t.after (job.run setup w c.state) rest due).Winds c'.state r ∧
        (job.run setup w c.state).pause = none ∧ job.asks = false := by
    rcases h.active t ht with (⟨r, loops⟩ | watches) | ⟨r, winds⟩
    · rcases loops.after hw later setup w due with loops' | ⟨winds, -, pause, asks⟩
      · exact .inl (.inl ⟨r, loops'⟩)
      · exact .inr ⟨r, winds, pause, asks⟩
    · exact .inl (.inr (watches.after hw known))
    · refine .inr ⟨r, winds.after hw later setup w due, ?_⟩
      rcases winds.cases_cons hw with ⟨rfl, -⟩ | ⟨rfl, -⟩ <;> exact ⟨rfl, rfl⟩
  constructor
  · rw [hs]
    exact (h.orderly.work setup w job).congr rfl rfl rfl rfl rfl
  · rw [stages]
    exact h.meet
  · let stay := others.filterMap Thread.loop? ++ c.stages.filterMap Stage.launched?
    have was : c.loops.Perm (t.loop?.toList ++ stay) := by
      refine ((before.filterMap Thread.loop?).append_right _).trans (.of_eq ?_)
      rw [List.filterMap_cons]
      cases t.loop? <;> rfl
    have is : c'.loops.Perm
        ((t.after (job.run setup w c.state) rest due).loop?.toList ++ stay) := by
      have none : new.filterMap Thread.loop? = [] := by
        refine List.filterMap_eq_nil_iff.mpr fun u hu => ?_
        obtain ⟨k, due, rfl⟩ := watchers u hu
        exact Thread.loop?_of_role (by simp [Thread.watcher])
      rw [Scene.loops, stages]
      refine ((after.filterMap Thread.loop?).append_right _).trans (.of_eq ?_)
      rw [List.filterMap_cons, List.filterMap_append, none, List.append_nil]
      cases (t.after (job.run setup w c.state) rest due).loop? <;> rfl
    rw [hs]
    rcases Thread.loop?_after (h.active t ht) hw setup w due with ⟨same, other⟩ | ⟨r, rfl, rfl, hl⟩
    · rw [same] at is
      rw [show _ = c.state.run from Job.run_run other]
      exact is.trans (was.symm.trans h.loops)
    · obtain ⟨alone, unlaunched⟩ := h.alone_of_loop before hl
      have hr : c.state.run = some r := h.run_of_loop (before.mem_iff.mpr (by simp)) hl
      have done : (t.after ((Job.settle r).run setup w c.state) [] due).loop? = none :=
        Thread.loop?_of_work rfl
      rw [done] at is
      simpa [stay, alone, unlaunched, Job.run, State.settle, hr] using is
  · intro u hu
    rcases line' u hu with hu | hu | ⟨rfl, waits⟩
    · exact (h.line u hu).mono known
    · obtain ⟨k, due, rfl⟩ := watchers u hu
      exact .inr (Thread.watches_watcher _ k due)
    · refine becomes.resolve_right ?_
      rintro ⟨r, -, pause, asks⟩
      exact waits ⟨pause, asks⟩
  · intro u hu
    rcases active u hu with rfl | hu
    · refine becomes.imp_right ?_
      rintro ⟨r, winds, -⟩
      exact ⟨r, winds⟩
    · exact (h.active u hu).mono later known

theorem shift (h : c.Sound) (st : c.Step setup .shifted c') : c'.Sound := by
  have known := fun r => h.knows (r := r) st
  have later := st.later
  cases st with
  | @part before after ha =>
    have stages : Scene.stages { c with asked := before ++ after } = c.stages := by
      simp [Scene.stages, ha]
    refine ⟨h.orderly, ?_, ?_, h.line, h.active⟩
    · rw [stages]
      exact h.meet
    · rw [Scene.loops, stages]
      exact h.loops
  | pass ms =>
    refine ⟨h.orderly.congr rfl rfl rfl rfl rfl, h.meet, h.loops, fun t ht => ?_, fun t ht => ?_⟩
    · exact (h.line t ht).mono known
    · exact (h.active t ht).mono later known
  | @turn t before after ht ready =>
    have mem : t ∈ c.state.threads := by simp [ht]
    have resumed := (h.line t mem).resume
    have same : (t.resume c.state).loop? = t.loop? := by
      rcases resumed with ⟨rt, -⟩ | ⟨-, watches⟩ | ⟨r, loops, winds, hw⟩
      · rw [rt]
      · have role : t.role = (t.resume c.state).role := by
          unfold Thread.resume
          split
          · split <;> rfl
          · rfl
        rw [Thread.loop?_of_role watches.role, Thread.loop?_of_role (role ▸ watches.role)]
      · rw [loops.loop?, winds.loop? (by simp [hw, State.closing])]
    refine ⟨h.orderly.congr rfl rfl rfl rfl rfl, h.meet, ?_, fun u hu => ?_, fun u hu => ?_⟩
    · refine List.Perm.trans (.append_right _ ?_) h.loops
      simp only [Scene.threads, ht, List.cons_append, List.filterMap_cons, List.filterMap_append, same]
      cases t.loop? with
      | none => exact List.Perm.refl _
      | some r =>
        rw [← List.append_assoc, ← List.append_assoc]
        exact List.perm_middle.symm
    · exact (h.line u (mem_of_cut ht hu)).mono known
    · rcases List.mem_cons.mp hu with rfl | hu
      · rcases resumed with ⟨rt, -⟩ | ⟨-, watches⟩ | ⟨r, -, winds, -⟩
        · rw [rt]
          exact .inl ((h.line t mem).mono known)
        · exact .inl (.inr (watches.mono known))
        · exact .inr ⟨r, winds.mono later⟩
      · exact (h.active u hu).mono later known
  | @leave t before after ha hw =>
    refine ⟨h.orderly, h.meet, ?_, h.line, fun u hu => h.active u (mem_of_cut ha hu)⟩
    have none : t.loop? = none := Thread.loop?_of_work hw
    have loops := h.loops
    rw [Scene.loops, Scene.threads, ha] at loops
    simpa [Scene.loops, Scene.threads, Scene.stages, none] using loops

theorem step (h : c.Sound) (st : c.Step setup k c') : c'.Sound := by
  cases k with
  | arrived q => exact h.arrive st
  | served s stage => exact h.serve st
  | worked w s t job => exact h.work st
  | shifted => exact h.shift st

end Scene.Sound

theorem Weave.sound (v : Weave setup c ks c') (h : c.Sound) : c'.Sound := by
  induction v with
  | refl => exact h
  | snoc _ st ih => exact ih.step st

/-! ### Where loops come from -/

theorem Thread.Loops.work_ne (h : t.Loops r) (r' : Run) : t.work ≠ [.settle r'] := by
  intro hw
  obtain ⟨path, outer, hp, -⟩ := h.work
  have length := congrArg List.length (hp.symm.trans hw)
  simp only [State.closing, List.length_append, List.length_cons, List.length_nil] at length
  omega

/-- Only a new run is to be launched. -/
theorem Scene.Step.launched (st : c.Step setup k c') (hm : .launch r ∈ c'.stages) :
    .launch r ∈ c.stages ∨ r.token = c.state.issued := by
  cases k with
  | arrived q =>
    obtain ⟨-, -, more⟩ := st.after_arrive
    refine .inl ((more _ hm).resolve_left fun hq => ?_)
    exact absurd (Demand.of_mem_stages hq).2.2 (by simp [Stage.launched?])
  | served s stage =>
    obtain ⟨rfl, -, -, others, before, after⟩ := st.split_serve
    rcases List.mem_append.mp (after.mem_iff.mp hm) with hm | hm
    · rcases Stage.mem_next hm with ⟨e, he⟩ | ⟨-, hc⟩ | ⟨script, -, -, hl⟩
      · cases he
      · cases hc
      · cases hl
        exact .inr rfl
    · exact .inl (before.mem_iff.mpr (List.mem_cons_of_mem _ hm))
  | worked w s t job =>
    obtain ⟨-, -, -, -, ha, -⟩ := st.after_work
    rw [Scene.stages, ha] at hm
    exact .inl hm
  | shifted =>
    obtain ⟨-, fewer, -⟩ := st.after_shift
    exact .inl (fewer hm)

/-- A loop has been one before or was to be launched. As long as it winds up its run no other thread
comes from it. -/
theorem Scene.Sound.loop_of_step (h : c.Sound) (st : c.Step setup k c') {u : Thread}
    (hu : u ∈ c'.threads) (hl : u.loop? = some r) :
    (∃ t ∈ c.threads, t.loop? = some r ∧ (t.work = [.settle r] → u = t)) ∨ .launch r ∈ c.stages := by
  have stays (hu : u ∈ c.threads) :
      (∃ t ∈ c.threads, t.loop? = some r ∧ (t.work = [.settle r] → u = t)) ∨ .launch r ∈ c.stages :=
    .inl ⟨u, hu, hl, fun _ => rfl⟩
  cases k with
  | arrived q =>
    obtain ⟨hs, ha, -⟩ := st.after_arrive
    rw [Scene.threads, hs, ha] at hu
    exact stays hu
  | served s stage =>
    obtain ⟨rfl, ha, hs, others, before, -⟩ := st.split_serve
    rw [Scene.threads, ha, hs] at hu
    rcases List.mem_append.mp hu with hu | hu
    · exact stays (List.mem_append_left _ hu)
    · rcases List.mem_append.mp ((stage.threads_run c.state).mem_iff.mp hu) with hu | hu
      · have launched : stage.launched? = some r := by
          rw [← Option.mem_toList, ← Stage.loop?_newcomers c.state]
          exact List.mem_filterMap.mpr ⟨u, hu, hl⟩
        rw [Stage.launched?_eq_some.mp launched] at before
        exact .inr (before.mem_iff.mpr (by simp))
      · exact stays (List.mem_append_right _ hu)
  | worked w s t job =>
    obtain ⟨rest, due, others, new, rfl, ht, hw, -, -, before, after, watchers, -⟩ := st.split_work
    rcases List.mem_cons.mp (after.mem_iff.mp hu) with rfl | hu
    · rcases Thread.loop?_after (h.active t ht) hw setup w due with
        ⟨same, other⟩ | ⟨r', rfl, rfl, -⟩
      · refine .inl ⟨t, List.mem_append_left _ ht, same.symm.trans hl, fun hs => ?_⟩
        exact absurd (List.cons.inj (hw.symm.trans hs)).1 (other r)
      · rw [Thread.loop?_of_work rfl] at hl
        cases hl
    · rcases List.mem_append.mp hu with hu | hu
      · exact stays (before.mem_iff.mpr (List.mem_cons_of_mem _ hu))
      · obtain ⟨k, due, rfl⟩ := watchers u hu
        rw [Thread.loop?_of_role (by simp [Thread.watcher])] at hl
        cases hl
  | shifted =>
    obtain ⟨-, -, others⟩ := st.after_shift
    rcases others u hu with hu | ⟨t, ht, rfl⟩
    · exact stays hu
    · rcases (h.line t ht).resume with ⟨rt, -⟩ | ⟨-, watches⟩ | ⟨r', loops, winds, hw⟩
      · rw [rt] at hl ⊢
        exact .inl ⟨t, List.mem_append_right _ ht, hl, fun _ => rfl⟩
      · rw [Thread.loop?_of_role watches.role] at hl
        cases hl
      · rw [winds.loop? (by simp [hw, State.closing])] at hl
        cases hl
        exact .inl ⟨t, List.mem_append_right _ ht, loops.loop?, fun hs => absurd hs (loops.work_ne r)⟩

/-- A thread in line is not just about to forget a run. -/
theorem Thread.Suits.work_ne (h : t.Suits s) (hl : t.loop? = some r) (r' : Run) :
    t.work ≠ [.settle r'] := by
  rcases h with ⟨r₁, loops⟩ | watches
  · exact loops.work_ne r'
  · rw [Thread.loop?_of_role watches.role] at hl
    cases hl

/-- A loop that is just about to forget its run has been so before, or has just cleared the registry. -/
theorem Scene.Sound.winding_of_step (h : c.Sound) (st : c.Step setup k c') {u : Thread}
    (hu : u ∈ c'.threads) (hl : u.loop? = some r) (hw : u.work = [.settle r]) :
    u ∈ c.threads ∨
      ∃ w t, k = .worked w c.state t .clear ∧ t.Winds c.state r ∧ t.work = State.closing r := by
  cases k with
  | arrived q =>
    obtain ⟨hs, ha, -⟩ := st.after_arrive
    rw [Scene.threads, hs, ha] at hu
    exact .inl hu
  | served s stage =>
    obtain ⟨rfl, ha, hs, -⟩ := st.split_serve
    rw [Scene.threads, ha, hs] at hu
    refine .inl (List.mem_append.mpr ((List.mem_append.mp hu).imp_right fun hu => ?_))
    refine (List.mem_append.mp ((stage.threads_run c.state).mem_iff.mp hu)).resolve_left fun hu => ?_
    exact (Stage.suits_newcomers hu c.state).work_ne hl r hw
  | worked w s t job =>
    obtain ⟨rest, due, others, new, rfl, ht, hw', -, -, before, after, watchers, -⟩ := st.split_work
    rcases List.mem_cons.mp (after.mem_iff.mp hu) with rfl | hu
    · refine .inr ?_
      rcases h.active t ht with (⟨r₁, loops⟩ | watches) | ⟨r₁, winds⟩
      · rcases loops.after hw' st.later setup w due with
          loops' | ⟨-, closing, -⟩
        · exact absurd hw (loops'.work_ne r)
        · rw [closing] at hw
          cases hw
      · have role : (t.after (job.run setup w c.state) rest due).role ≠ .foreground := watches.role
        rw [Thread.loop?_of_role role] at hl
        cases hl
      · rcases winds.cases_cons hw' with ⟨rfl, rfl⟩ | ⟨rfl, rfl⟩
        · obtain rfl : r₁ = r := by simpa [Thread.after, Thread.advance, Job.run] using hw
          exact ⟨w, t, rfl, winds, hw'⟩
        · simp [Thread.after, Thread.advance, Job.run] at hw
    · rcases List.mem_append.mp hu with hu | hu
      · exact .inl (before.mem_iff.mpr (List.mem_cons_of_mem _ hu))
      · obtain ⟨k, due, rfl⟩ := watchers u hu
        rw [Thread.loop?_of_role (by simp [Thread.watcher])] at hl
        cases hl
  | shifted =>
    obtain ⟨-, -, others⟩ := st.after_shift
    rcases others u hu with hu | ⟨t, ht, rfl⟩
    · exact .inl hu
    · rcases (h.line t ht).resume with ⟨rt, -⟩ | ⟨-, watches⟩ | ⟨r', -, -, closing⟩
      · rw [rt]
        exact .inl (List.mem_append_right _ ht)
      · rw [Thread.loop?_of_role watches.role] at hl
        cases hl
      · rw [closing] at hw
        cases hw

end DeskScript

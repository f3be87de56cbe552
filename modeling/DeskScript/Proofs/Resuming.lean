import DeskScript.Proofs.Pausing

/-! Which step the loop of a run enters after a pause: the first of the script, if the loop left the
iteration while the run was paused, or else one that was still to come in it. -/

namespace DeskScript

variable {setup : Setup} {m m' : Moment} {r : Run} {hs : List Happening} {e : Happening}
  {work work' rest : Work} {ps : List Piece} {p : Piece}

/-! ### The loop of a run that goes on -/

/-- A run is there only since it was started. -/
theorem Moment.Step.begins (st : m.Step setup e m') (orderly : m.state.Orderly)
    (hr : m'.state.run = some r) (other : m.state.run ≠ some r) : m'.Begins r := by
  cases st with
  | ask s i =>
    cases i with
    | start script =>
      cases hs : (s.start setup script).1 with
      | true =>
        obtain ⟨pauses, hp, loops⟩ := (begins_start orderly hs).1
        obtain rfl := Option.some.inj (loops.run.symm.trans hr)
        exact ⟨pauses, hp, loops⟩
      | false =>
        have same : (s.start setup script).2.run = s.run := by
          unfold State.start State.openRun at hs ⊢
          by_cases hp : s.phase = .idle
          · rw [if_pos hp] at hs ⊢
            split
            · rename_i ready
              rw [if_pos ready] at hs
              cases hs
            · rfl
          · rw [if_neg hp]
            split <;> rfl
        exact absurd (same.symm.trans hr) other
    | pause | resume => exact absurd ((State.change_run _ _ _ _).symm.trans hr) other
    | stop => exact absurd (s.stop_run.symm.trans hr) other
  | pass | turn | leave => exact absurd hr other
  | work w | wait w | await w => exact absurd (Job.run_eq_some hr) other

/-- A run that goes on has its loop. -/
theorem Course.exists_loops (c : Course setup .fresh hs m) (hr : m.state.run = some r)
    (live : m.state.isCancelled r.token = false) : ∃ work, m.Loops r work := by
  induction c with
  | refl => cases hr
  | @snoc m₁ m₂ hs e c st ih =>
    have sound : m₁.Sound := c.sound Moment.sound_fresh
    by_cases same : m₁.state.run = some r
    · have live₁ : m₁.state.isCancelled r.token = false := st.later.live live
      obtain ⟨work, loops⟩ := ih same live₁
      cases loops.step sound st with
      | aside _ loops => exact ⟨_, loops⟩
      | own p rest _ _ _ loops => exact ⟨_, loops⟩
      | stopped _ _ hc | halted _ _ _ _ _ hc => exact absurd (hc.symm.trans live) (by simp)
    · obtain ⟨pauses, -, loops⟩ := st.begins sound.orderly hr same
      exact ⟨_, loops⟩

/-- The loop of a run does its pieces of work while the run is the current one. -/
theorem Course.run_of_mem_pieces (c : Course setup m hs m') (sound : m.Sound)
    (hr : m.state.run = some r) (h : p ∈ pieces r hs) : p.state.run = some r := by
  obtain ⟨live, t, before, loop, -, c', -, rest, hw⟩ := c.of_mem_pieces h
  obtain ⟨role, token⟩ := Thread.isLoopOf_iff.mp loop
  have sound' : Moment.Sound ⟨p.state, some t⟩ := c'.sound sound
  -- The thread serves the current run, and that has the token of the loop.
  obtain ⟨r', hr', same⟩ : ∃ r', p.state.run = some r' ∧ r'.token = r.token := by
    rcases sound'.active t rfl with hn | ⟨⟨lane, k, serves, grants, -⟩, -⟩ | ⟨r', past⟩
    · rw [hw] at hn
      cases hn
    · refine ⟨lane.run, grants.run, ?_⟩
      cases serves.closes grants with
      | loop _ ht _ => exact Option.some.inj (ht.symm.trans token)
      | watcher hf _ => cases role.symm.trans hf
    · refine ⟨r', past.run, ?_⟩
      cases past.closes (by simp [token]) with
      | loop _ ht _ => exact Option.some.inj (ht.symm.trans token)
      | watcher hf _ => cases role.symm.trans hf
  rcases c'.later.run r' hr' with hr'' | fresh
  · rw [hr', ← hr'', hr]
  · have older := sound.orderly.run_lt r hr
    rw [same] at fresh
    exact absurd (Nat.lt_of_lt_of_le older fresh) (Nat.lt_irrefl _)

/-- The work of the loop of a run while it goes on. -/
def Run.Keeps (r : Run) (work : Work) : Prop :=
  ∃ ws, work = ws ++ State.closing r ∧ Lane.Serves ⟨r, true⟩ r.token ws

theorem Moment.Loops.keeps (h : m.Loops r work) (sound : m.Sound) : r.Keeps work := by
  obtain ⟨t, ht, loop, rfl⟩ := h.loop
  obtain ⟨role, token⟩ := Thread.isLoopOf_iff.mp loop
  obtain ⟨lane, serves, grants⟩ : ∃ lane, t.Serves lane r.token ∧ m.state.Grants lane r.token := by
    rcases List.mem_append.mp ht with ht | ht
    · have active : m.active = some t := by simpa using ht
      rcases sound.active t active with hn | ⟨⟨lane, k, serves, grants, -⟩, -⟩ | ⟨r', past⟩
      · exact absurd hn h.ne_nil
      · obtain rfl : k = r.token := Option.some.inj (serves.token.symm.trans token)
        exact ⟨lane, serves, grants⟩
      · obtain rfl : r = r' := Option.some.inj (h.run.symm.trans past.run)
        exact absurd (past.cancelled.symm.trans h.live) (by simp)
    · obtain ⟨lane, serves, grants, -⟩ := (sound.fits t ht).serves _ token h.live
      exact ⟨lane, serves, grants⟩
  obtain ⟨run, foreground⟩ := lane
  obtain rfl : run = r := Option.some.inj (grants.run.symm.trans h.run)
  have hf : foreground = true := by
    have own := serves.role
    rw [role] at own
    by_contra hf
    simp [hf] at own
  subst hf
  obtain ⟨ws, hw, lane⟩ := serves.work
  exact ⟨ws, by rw [hw, serves.closing]; rfl, lane⟩

namespace Run.Keeps

/-- The work at hand belongs to the lane, and so does what comes behind it before the run is closed. -/
theorem cases_cons {job : Job} (h : r.Keeps (job :: rest)) :
    ∃ ws, rest = ws ++ State.closing r ∧ Lane.Serves ⟨r, true⟩ r.token (job :: ws) := by
  obtain ⟨ws, hw, serves⟩ := h
  cases ws with
  | nil => exact absurd rfl serves.ne_nil
  | cons j ws =>
    obtain ⟨rfl, rfl⟩ := List.cons.inj hw
    exact ⟨ws, rfl, serves⟩

theorem next (h : r.Keeps (p.job :: rest)) (hr : p.state.run = some r)
    (live : p.state.isCancelled r.token = false) (hh : p.job.isHalt = false) :
    r.Keeps (p.next setup ++ rest) := by
  obtain ⟨ws, rfl, serves⟩ := h.cases_cons
  exact ⟨_, (List.append_assoc _ _ _).symm, serves.run hh setup p.world hr live live⟩

end Run.Keeps

/-! ### What is still to come -/

namespace Job

/-- Whether the work stands outside the steps of an iteration. -/
def isBetween : Job → Bool
  | .iterate _ | .iterateOpen _ | .endIteration _ | .count _ => true
  | _ => false

/-- Whether the work begins an iteration. -/
def isOpening : Job → Bool
  | .iterateOpen _ => true
  | _ => false

/-- Work of the loop in the middle of its steps enters a step or leaves it to be entered, but adds
none. -/
theorem entered_pending_run {setup : Setup} {w : World} {s : State} {lane : Lane} {job : Job}
    (own : job.IsOf lane) (hf : lane.foreground = true) :
    ((job.mark w).toList.filterMap Mark.entered? ++
      Work.pending (job.run setup w s).next).Sublist job.pending := by
  have silent (h : (job.mark w).toList.filterMap Mark.entered? = []) :
      ((job.mark w).toList.filterMap Mark.entered? ++
        Work.pending (job.run setup w s).next).Sublist job.pending := by
    rw [h, List.nil_append]
    exact pending_run own hf
  cases job with
  | enter l step => simp [mark, Mark.entered?, run, Work.pending, pending]
  | decide l q thens elses | aim step action since q | probe q => cases q <;> exact silent rfl
  | act step action since place =>
    refine silent ?_
    simp only [mark]
    split <;> rfl
  | tell e => cases e <;> exact silent rfl
  | _ => exact silent rfl

end Job

namespace Run.Keeps

/-- Until the next iteration the loop enters a step that is still to come or none. -/
theorem pending_next (h : r.Keeps (p.job :: rest)) (closed : p.job.isOpening = false) :
    (p.mark?.toList.filterMap Mark.entered? ++ Work.pending (p.next setup ++ rest)).Sublist
      (Work.pending (p.job :: rest)) := by
  obtain ⟨ws, -, serves⟩ := h.cases_cons
  rw [Work.pending_append, Work.pending_cons, ← List.append_assoc]
  refine List.Sublist.append_right ?_ _
  obtain ⟨w, s, job⟩ := p
  rcases serves.cases_cons with ⟨pause, -⟩ | ⟨rfl, -⟩ | ⟨-, rfl | rfl, -⟩ | ⟨ws, -, walk⟩ | ⟨rfl, -⟩
  · cases job with
    | rest ms | giveWay ms => exact List.nil_sublist _
    | _ => cases pause
  · simp only [Lane.begin, if_true, Piece.mark?, Job.mark, Piece.next, Job.run, Job.guarded]
    split <;> exact List.nil_sublist _
  · cases closed
  · exact List.nil_sublist _
  · exact Job.entered_pending_run walk.head rfl
  · simp only [Lane.finish, if_true, Piece.mark?, Job.mark, Piece.next, Job.run, Job.guarded]
    split <;> exact List.nil_sublist _

end Run.Keeps

/-! ### Between two iterations -/

/-- The loop waits until it may begin an iteration. -/
inductive Run.Waits (r : Run) : Work → Prop
  | resting {pauses : Work} : (∀ job ∈ pauses, job.isPause = true) →
      Waits r (pauses ++ .iterate r :: State.closing r)
  | opening : Waits r (.iterateOpen r :: State.closing r)
  | counting : Waits r (.count r :: State.closing r)

/-- No step but the first of the script can be the next that the loop enters. -/
inductive Run.Restarts (r : Run) : Work → Prop
  | waits {work : Work} : r.Waits work → Restarts r work
  | level : Restarts r (.level ⟨r, true⟩ r.script.steps :: .endIteration r :: State.closing r)
  | levelOpen {x : Step} {xs : List Step} : r.script.steps = x :: xs →
      Restarts r (.levelOpen ⟨r, true⟩ x xs :: .endIteration r :: State.closing r)
  | enter {x : Step} {xs : List Step} : r.script.steps = x :: xs →
      Restarts r (.enter ⟨r, true⟩ x :: .level ⟨r, true⟩ xs :: .endIteration r :: State.closing r)
  | ending : Restarts r (.endIteration r :: State.closing r)

namespace Run.Waits

theorem cases_cons {job : Job} (h : r.Waits (job :: rest)) :
    (job.isPause = true ∧ r.Waits rest) ∨
      rest = State.closing r ∧ (job = .iterate r ∨ job = .iterateOpen r ∨ job = .count r) := by
  generalize hl : job :: rest = l at h
  cases h with
  | @resting pauses hp =>
    cases pauses with
    | nil =>
      cases hl
      exact .inr ⟨rfl, .inl rfl⟩
    | cons j pauses =>
      cases hl
      exact .inl ⟨hp _ (by simp), .resting fun j hj => hp j (by simp [hj])⟩
  | opening =>
    cases hl
    exact .inr ⟨rfl, .inr (.inl rfl)⟩
  | counting =>
    cases hl
    exact .inr ⟨rfl, .inr (.inr rfl)⟩

/-- A loop that waits to begin an iteration goes on to do so, or begins one. -/
theorem next (h : r.Waits (p.job :: rest)) (live : p.state.isCancelled r.token = false) :
    p.mark? = none ∧ (r.Waits (p.next setup ++ rest) ∨ p.state.phase ≠ .paused ∧
      p.next setup ++ rest =
        .level ⟨r, true⟩ r.script.steps :: .endIteration r :: State.closing r) := by
  obtain ⟨w, s, job⟩ := p
  rcases h.cases_cons with ⟨pause, waits⟩ | ⟨rfl, rfl | rfl | rfl⟩
  · cases job with
    | rest ms | giveWay ms => exact ⟨rfl, .inl waits⟩
    | _ => cases pause
  · have live : s.isCancelled r.token = false := live
    simp only [Piece.next, Job.run, Job.guarded, live, Bool.false_eq_true, if_false]
    exact ⟨rfl, .inl .opening⟩
  · simp only [Piece.next, Job.run]
    split
    · exact ⟨rfl, .inl (@resting r [.giveWay _] (by simp [Job.isPause]))⟩
    · rename_i hp
      exact ⟨rfl, .inr ⟨hp, rfl⟩⟩
  · exact ⟨rfl, .inl (@resting r [.giveWay 0, .rest _] (by simp [Job.isPause]))⟩

end Run.Waits

namespace Run.Restarts

/-- The next step that the loop enters is the first of the script, and until it enters that nothing
changes about this. -/
theorem next (h : r.Restarts (p.job :: rest)) (live : p.state.isCancelled r.token = false) :
    (p.mark?.toList.filterMap Mark.entered? = [] ∧ r.Restarts (p.next setup ++ rest)) ∨
      ∃ x, p.mark?.toList.filterMap Mark.entered? = [x] ∧ r.script.steps.head? = some x := by
  obtain ⟨w, s, job⟩ := p
  have live : s.isCancelled r.token = false := live
  generalize hl : job :: rest = l at h
  cases h with
  | waits waits =>
    subst hl
    obtain ⟨silent, waits | ⟨-, level⟩⟩ := @Waits.next setup r rest ⟨w, s, job⟩ waits live
    · exact .inl ⟨by rw [silent]; rfl, .waits waits⟩
    · exact .inl ⟨by rw [silent]; rfl, level ▸ .level⟩
  | level =>
    cases hl
    refine .inl ⟨rfl, ?_⟩
    cases hs : r.script.steps with
    | nil => exact .ending
    | cons x xs =>
      simp only [Piece.next, Job.run, Job.guarded, live, Bool.false_eq_true, if_false]
      exact .levelOpen hs
  | levelOpen hs =>
    cases hl
    refine .inl ⟨rfl, ?_⟩
    simp only [Piece.next, Job.run, Job.unlessPaused]
    split
    · exact .ending
    · exact .enter hs
  | enter hs =>
    cases hl
    exact .inr ⟨_, rfl, by rw [hs]; rfl⟩
  | ending =>
    cases hl
    simp only [Piece.next, Job.run, Job.guarded, live, Bool.false_eq_true, if_false]
    exact .inl ⟨rfl, .waits .counting⟩

theorem of_goes (h : r.Restarts work) (goes : work.Goes setup ps work')
    (live : ∀ p ∈ ps, p.state.isCancelled r.token = false) :
    (Piece.entered ps = [] ∧ r.Restarts work') ∨
      ∃ x xs, Piece.entered ps = x :: xs ∧ r.script.steps.head? = some x := by
  induction goes with
  | refl => exact .inl ⟨rfl, h⟩
  | @snoc ps p rest goes hh ih =>
    rw [Piece.entered_snoc]
    rcases ih fun q hq => live q (List.mem_append_left _ hq) with ⟨none, restarts⟩ | ⟨x, xs, hx, head⟩
    · rw [none, List.nil_append]
      rcases restarts.next (live p (by simp)) with ⟨silent, restarts⟩ | ⟨x, hx, head⟩
      · exact .inl ⟨silent, restarts⟩
      · exact .inr ⟨x, [], hx, head⟩
    · exact .inr ⟨x, xs ++ _, by rw [hx]; rfl, head⟩

end Run.Restarts

/-! ### The steps that are entered -/

/-- Pieces of work may be cut in two. -/
theorem Work.Goes.cut {before after : List Piece} (goes : work.Goes setup ps work')
    (hp : ps = before ++ after) : ∃ mid, work.Goes setup before mid ∧ mid.Goes setup after work' := by
  induction goes generalizing after with
  | refl =>
    obtain ⟨rfl, rfl⟩ := List.append_eq_nil_iff.mp hp.symm
    exact ⟨work, .refl, .refl⟩
  | @snoc ps p rest goes hh ih =>
    rcases after.eq_nil_or_concat with rfl | ⟨init, last, rfl⟩
    · rw [List.append_nil] at hp
      exact ⟨_, hp ▸ goes.snoc hh, .refl⟩
    · rw [List.concat_eq_append, ← List.append_assoc] at hp
      obtain ⟨hi, hl⟩ := List.append_inj' hp rfl
      cases hl
      obtain ⟨mid, first, second⟩ := ih hi
      rw [List.concat_eq_append]
      exact ⟨mid, first, second.snoc hh⟩

theorem Work.Goes.eq_of_nil (goes : work.Goes setup ps work') (hp : ps = []) : work' = work := by
  cases goes with
  | refl => rfl
  | snoc => simp at hp

/-- The first piece of work is what was to be done first. -/
theorem Work.Goes.of_cons (goes : work.Goes setup (p :: ps) work') :
    ∃ rest, work = p.job :: rest ∧ (p.next setup ++ rest).Goes setup ps work' := by
  obtain ⟨mid, first, second⟩ := goes.cut (show p :: ps = [p] ++ ps from rfl)
  generalize hl : [p] = l at first
  cases first with
  | refl => cases hl
  | @snoc before q rest none hh =>
    obtain ⟨rfl, hq⟩ := List.append_inj' ((List.nil_append [p]).trans hl) rfl
    cases hq
    exact ⟨rest, (none.eq_of_nil rfl).symm, second⟩

namespace Run.Keeps

theorem of_goes (h : r.Keeps work) (goes : work.Goes setup ps work')
    (own : ∀ p ∈ ps, p.state.run = some r ∧ p.state.isCancelled r.token = false) :
    r.Keeps work' := by
  induction goes with
  | refl => exact h
  | @snoc ps p rest goes hh ih =>
    obtain ⟨hr, live⟩ := own p (by simp)
    exact (ih fun q hq => own q (List.mem_append_left _ hq)).next hr live hh

/-- Until the next iteration begins the loop enters some of the steps that are still to come. -/
theorem entered_sublist (h : r.Keeps work) (goes : work.Goes setup ps work')
    (own : ∀ p ∈ ps, p.state.run = some r ∧ p.state.isCancelled r.token = false)
    (closed : ∀ p ∈ ps, p.job.isOpening = false) :
    (Piece.entered ps ++ work'.pending).Sublist work.pending := by
  induction goes with
  | refl => exact List.Sublist.refl _
  | @snoc ps p rest goes hh ih =>
    have own' : ∀ q ∈ ps, _ := fun q hq => own q (List.mem_append_left _ hq)
    have before := ih own' fun q hq => closed q (List.mem_append_left _ hq)
    have keeps : r.Keeps (p.job :: rest) := h.of_goes goes own'
    rw [Piece.entered_snoc, List.append_assoc]
    exact (List.Sublist.append_left (keeps.pending_next (closed p (by simp))) _).trans before

/-- Outside the steps of an iteration no step but the first of the script can be the next. -/
theorem restarts {job : Job} (h : r.Keeps (job :: rest)) (hj : job.isBetween = true) :
    r.Restarts (job :: rest) := by
  obtain ⟨ws, rfl, serves⟩ := h.cases_cons
  rcases serves.cases_cons with ⟨pause, -⟩ | ⟨rfl, rfl⟩ | ⟨-, rfl | rfl, rfl⟩ | ⟨ws, -, walk⟩ |
    ⟨rfl, rfl⟩
  · cases job with
    | rest ms | giveWay ms => cases hj
    | _ => cases pause
  · exact .waits (@Waits.resting r [] (by simp))
  · exact .waits .opening
  · exact .waits .counting
  · have own := walk.head
    cases job with
    | iterate | iterateOpen | endIteration | count => exact absurd own id
    | _ => cases hj
  · exact .ending

/-- The steps that are entered are some of those that are still to come, and from the beginning of the
next iteration on others, of which the first of the script is the first. -/
theorem splits (h : r.Keeps work) (goes : work.Goes setup ps work')
    (own : ∀ p ∈ ps, p.state.run = some r ∧ p.state.isCancelled r.token = false) :
    ∃ before after, Piece.entered ps = before ++ after ∧ before.Sublist work.pending ∧
      (after ≠ [] → ∃ p ∈ ps, p.job.isOpening = true) ∧
      ∀ x ∈ after.head?, r.script.steps.head? = some x := by
  cases hf : ps.find? (·.job.isOpening) with
  | none =>
    have closed : ∀ p ∈ ps, p.job.isOpening = false := by simpa using hf
    have sublist := h.entered_sublist goes own closed
    exact ⟨Piece.entered ps, [], (List.append_nil _).symm,
      (List.sublist_append_left _ _).trans sublist, by simp, by simp⟩
  | some p =>
    -- The pieces are cut where the first iteration begins.
    obtain ⟨opening, before, after, rfl, closed⟩ := List.find?_eq_some_iff_append.mp hf
    obtain ⟨mid, first, second⟩ := goes.cut rfl
    obtain ⟨own₁, own₂⟩ := List.forall_mem_append.mp own
    have sublist := h.entered_sublist first own₁ fun q hq => by simpa using closed q hq
    obtain ⟨rest, rfl, -⟩ := second.of_cons
    have keeps : r.Keeps (p.job :: rest) := h.of_goes first own₁
    have between : p.job.isBetween = true := by
      cases hj : p.job with
      | iterateOpen => rfl
      | _ => simp [hj, Job.isOpening] at opening
    refine ⟨Piece.entered before, Piece.entered (p :: after), ?_,
      (List.sublist_append_left _ _).trans sublist, fun _ => ⟨p, by simp, opening⟩, ?_⟩
    · simp [Piece.entered, Piece.marks]
    · rcases (keeps.restarts between).of_goes second fun q hq => (own₂ q hq).2 with
        ⟨none, -⟩ | ⟨x, xs, hx, head⟩
      · simp [none]
      · simp [hx, head]

end Run.Keeps

/-! ### Pauses that the loop has come upon -/

theorem Run.Waits.of_goes (h : r.Waits work) (goes : work.Goes setup ps work')
    (paused : ∀ p ∈ ps, p.state.isCancelled r.token = false ∧ p.state.phase = .paused) :
    r.Waits work' := by
  induction goes with
  | refl => exact h
  | @snoc ps p rest goes hh ih =>
    obtain ⟨live, hp⟩ := paused p (by simp)
    have waits := ih fun q hq => paused q (List.mem_append_left _ hq)
    exact (waits.next live).2.resolve_right fun h => h.1 hp

/-- A loop that leaves the iteration while the run is paused waits. -/
theorem Run.Keeps.waits (h : r.Keeps (p.job :: rest)) (hp : p.job.isBetween = true)
    (live : p.state.isCancelled r.token = false) (paused : p.state.phase = .paused) :
    r.Waits (p.next setup ++ rest) := by
  have restarts := h.restarts hp
  obtain ⟨w, s, job⟩ := p
  generalize hl : job :: rest = l at restarts
  cases restarts with
  | waits waits =>
    subst hl
    exact (@Waits.next setup r rest ⟨w, s, job⟩ waits live).2.resolve_right fun h => h.1 paused
  | level | levelOpen | enter =>
    cases hl
    cases hp
  | ending =>
    cases hl
    have live : s.isCancelled r.token = false := live
    simp only [Piece.next, Job.run, Job.guarded, live, Bool.false_eq_true, if_false]
    exact .counting

theorem Job.stays_paused {w : World} {s : State} {job : Job} (paused : s.phase = .paused)
    (hr : s.run = some r) (hr' : (job.run setup w s).state.run = some r)
    (live : (job.run setup w s).state.isCancelled r.token = false) :
    (job.run setup w s).state.phase = .paused := by
  by_cases spares : job.sparesRuns = true
  · rwa [Job.phase_run setup w s spares]
  · cases job with
    | halt => exact absurd ((State.isCancelled_halt hr).symm.trans live) (by simp)
    | settle r' =>
      simp only [run, State.settle, hr] at hr' ⊢
      split
      · rename_i same
        rw [if_pos same] at hr'
        cases hr'
      · exact paused
    | tell e => exact paused
    | _ => exact absurd rfl spares

/-- A run that is paused stays so until it is resumed or stopped. -/
theorem Moment.Step.stays_paused (st : m.Step setup e m') (orderly : m.state.Orderly)
    (paused : m.state.phase = .paused) (hr : m.state.run = some r) (kept : e ≠ .asked .resume)
    (hr' : m'.state.run = some r) (live : m'.state.isCancelled r.token = false) :
    m'.state.phase = .paused := by
  cases st with
  | ask s i =>
    cases i with
    | start script =>
      simp only [Intervention.take, State.start_of_run orderly hr]
      exact paused
    | pause =>
      have paused : s.phase = .paused := paused
      simp [Intervention.take, State.pause, State.change_phase, paused]
    | resume => exact absurd rfl kept
    | stop => exact absurd ((State.isCancelled_stop hr).symm.trans live) (by simp)
  | pass | turn | leave => exact paused
  | work w | wait w | await w => exact Job.stays_paused paused hr hr' live

theorem Course.stays_paused (c : Course setup m hs m') (sound : m.Sound)
    (paused : m.state.phase = .paused) (hr : m.state.run = some r) (kept : .asked .resume ∉ hs)
    (hr' : m'.state.run = some r) (live : m'.state.isCancelled r.token = false) :
    m'.state.phase = .paused := by
  induction c with
  | refl => exact paused
  | @snoc m₁ m₂ hs e c st ih =>
    rw [List.mem_append, not_or] at kept
    have current : m₁.state.run = some r := c.later.stays sound.orderly st.later hr hr'
    have live₁ : m₁.state.isCancelled r.token = false := st.later.live live
    refine st.stays_paused (c.sound sound).orderly (ih kept.1 current live₁) current ?_ hr' live
    rintro rfl
    exact kept.2 (by simp)

/-- What the loop of a run does in a course: the steps that it enters, and the work that it is left with
if the run is not stopped. -/
theorem Course.exists_goes (c : Course setup m hs m') (sound : m.Sound) (loops : m.Loops r work) :
    ∃ ps work', work.Goes setup ps work' ∧ hs.filterMap (·.loopStep? r) = Piece.entered ps ∧
      (∀ p ∈ ps, p ∈ pieces r hs ∧ p.state.run = some r ∧ p.state.isCancelled r.token = false) ∧
      (m'.state.isCancelled r.token = false → pieces r hs = ps ∧ m'.Loops r work') := by
  obtain ⟨ps, work', goes, ends⟩ := c.loop sound loops
  have shown : hs.filterMap (·.loopStep? r) = Piece.entered (pieces r hs) := by
    rw [Piece.entered, Piece.marks, ← c.loopMarks_eq sound, List.filterMap_filterMap]
    rfl
  have own : ∀ p ∈ pieces r hs, p ∈ pieces r hs ∧ p.state.run = some r ∧
      p.state.isCancelled r.token = false :=
    fun p hp => ⟨hp, c.run_of_mem_pieces sound loops.run hp, (c.of_mem_pieces hp).1⟩
  rw [shown]
  refine ⟨ps, work', goes, ?_⟩
  rcases ends with ⟨same, loops'⟩ | ⟨hc, ⟨same, -⟩ | ⟨p, rest, -, hj, same⟩⟩
  · exact ⟨by rw [same], same ▸ own, fun _ => ⟨same, loops'⟩⟩
  · exact ⟨by rw [same], same ▸ own, fun live => absurd (hc.symm.trans live) (by simp)⟩
  · refine ⟨?_, fun q hq => own q (same ▸ List.mem_append_left _ hq),
      fun live => absurd (hc.symm.trans live) (by simp)⟩
    rw [same, Piece.entered_snoc, Piece.mark?, hj]
    exact List.append_nil _

/-- Once the loop has left an iteration of a run that is paused it waits, since all that it does it does
while the run is paused. -/
theorem Course.waits (c : Course setup m hs m') (sound : m.Sound) (loops : m.Loops r work)
    (paused : m.state.phase = .paused) (kept : .asked .resume ∉ hs)
    (goes : work.Goes setup (pieces r hs) work') (hp : p ∈ pieces r hs)
    (between : p.job.isBetween = true) : r.Waits work' := by
  have within : ∀ q ∈ pieces r hs, q.state.run = some r ∧ q.state.isCancelled r.token = false ∧
      q.state.phase = .paused := by
    intro q hq
    have hr := c.run_of_mem_pieces sound loops.run hq
    obtain ⟨live, t, past, -, -, c', sub, -⟩ := c.of_mem_pieces hq
    have kept' : .asked .resume ∉ past := fun h => kept (sub.subset h)
    exact ⟨hr, live, c'.stays_paused sound paused loops.run kept' hr live⟩
  obtain ⟨before, after, hps⟩ := List.append_of_mem hp
  rw [hps] at goes within
  obtain ⟨mid, first, second⟩ := goes.cut rfl
  obtain ⟨rest, rfl, third⟩ := second.of_cons
  obtain ⟨within₁, within₂⟩ := List.forall_mem_append.mp within
  obtain ⟨⟨-, live, hq⟩, within₃⟩ := List.forall_mem_cons.mp within₂
  have keeps : r.Keeps (p.job :: rest) :=
    (loops.keeps sound).of_goes first fun q hq => ⟨(within₁ q hq).1, (within₁ q hq).2.1⟩
  exact (keeps.waits between live hq).of_goes third fun q hq => (within₃ q hq).2

/-- A run that can be resumed goes on, and so does its loop. -/
theorem Moment.Sound.resumes {s : State} (sound : Sound ⟨s, none⟩) (granted : s.resume.1 = true) :
    ∃ r, s.run = some r ∧ s.isCancelled r.token = false ∧
      ∀ work, Loops ⟨s, none⟩ r work → Loops ⟨s.resume.2, none⟩ r work := by
  have phase : s.phase = .paused := by simpa [State.resume, State.change_answer] using granted
  obtain ⟨r, hr, live⟩ := sound.orderly.going_iff.mp (.inr phase)
  refine ⟨r, hr, live, fun work loops => ?_⟩
  have resume : Step ⟨{}, 0, true⟩ ⟨s, none⟩ (.asked .resume) ⟨s.resume.2, none⟩ := .ask s .resume
  cases loops.step sound resume with
  | aside _ loops => exact loops
  | own p rest hp | halted p rest hp => cases hp
  | stopped _ hs => cases hs

/-- After a pause the loop enters some of the steps that were still to come in the iteration, and from
the beginning of the next iteration on others, of which the first of the script is the first. If the
loop came to the end of the iteration while the run was paused, or there were no steps to come, the
first step that it enters is the first of the script. -/
theorem Course.resuming {m₀ m : Moment} {s : State} {hs₀ hs₁ hs₂ : List Happening}
    (c₀ : Course setup .fresh hs₀ m₀) (paused : m₀.state.phase = .paused)
    (c₁ : Course setup m₀ hs₁ ⟨s, none⟩) (kept : .asked .resume ∉ hs₁)
    (same : s.run = m₀.state.run) (granted : s.resume.1 = true)
    (c₂ : Course setup ⟨s.resume.2, none⟩ hs₂ m) :
    ∃ r work, s.run = some r ∧ Moment.Loops ⟨s.resume.2, none⟩ r work ∧
      (∃ before after, hs₂.filterMap (·.loopStep? r) = before ++ after ∧
        before.Sublist work.pending ∧
        (after ≠ [] → ∃ p ∈ pieces r hs₂, p.job.isOpening = true) ∧
        ∀ x ∈ after.head?, r.script.steps.head? = some x) ∧
      ((∃ p ∈ pieces r hs₁, p.job.isBetween = true) ∨ work.pending = [] →
        ∀ x ∈ (hs₂.filterMap (·.loopStep? r)).head?, r.script.steps.head? = some x) := by
  have sound₀ : m₀.Sound := c₀.sound Moment.sound_fresh
  have sound₁ : Moment.Sound ⟨s, none⟩ := c₁.sound sound₀
  have sound₂ : Moment.Sound ⟨s.resume.2, none⟩ := sound₁.step (@Moment.Step.ask setup s .resume)
  obtain ⟨r, hr, live, resumed⟩ := sound₁.resumes granted
  have hr₀ : m₀.state.run = some r := same.symm.trans hr
  have live₀ : m₀.state.isCancelled r.token = false := c₁.later.live live
  obtain ⟨work₀, loops₀⟩ := c₀.exists_loops hr₀ live₀
  obtain ⟨ps₁, work, goes₁, -, -, ends₁⟩ := c₁.exists_goes sound₀ loops₀
  obtain ⟨rfl, loops₁⟩ := ends₁ live
  have loops₂ : Moment.Loops ⟨s.resume.2, none⟩ r work := resumed work loops₁
  obtain ⟨ps₂, work', goes₂, entered, own, -⟩ := c₂.exists_goes sound₂ loops₂
  obtain ⟨before, after, split, sublist, opened, first⟩ :=
    (loops₂.keeps sound₂).splits goes₂ fun p hp => (own p hp).2
  refine ⟨r, work, hr, loops₂, ?_⟩
  rw [entered]
  refine ⟨⟨before, after, split, sublist, fun ha => ?_, first⟩, ?_⟩
  · obtain ⟨p, hp, ho⟩ := opened ha
    exact ⟨p, (own p hp).1, ho⟩
  · rintro (⟨p, hp, between⟩ | none)
    · have waits := c₁.waits sound₀ loops₀ paused kept goes₁ hp between
      rcases (Run.Restarts.waits waits).of_goes goes₂ fun q hq => (own q hq).2.2 with
        ⟨none, -⟩ | ⟨x, xs, hx, head⟩
      · simp [none]
      · simp [hx, head]
    · rw [none, List.sublist_nil] at sublist
      rw [split, sublist]
      exact first

/-- The iteration ends while the run is paused, and then the group is entered again. -/
theorem resuming_lingering :
    ∃ m₀ s m hs₀ hs₁ hs₂ r, Course ⟨{}, 500, true⟩ .fresh hs₀ m₀ ∧ m₀.state.phase = .paused ∧
      Course ⟨{}, 500, true⟩ m₀ hs₁ ⟨s, none⟩ ∧ .asked .resume ∉ hs₁ ∧ s.run = m₀.state.run ∧
      s.resume.1 = true ∧ Course ⟨{}, 500, true⟩ ⟨s.resume.2, none⟩ hs₂ m ∧ s.run = some r ∧
      (∃ p ∈ Course.pieces r hs₁, p.job.isBetween = true) ∧
      ∃ x ∈ (hs₂.filterMap (·.loopStep? r)).head?, x.id = "group" ∧
        r.script.steps.head? = some x := by
  let w : World := ⟨fun _ => .ok none, fun _ => .ok (), fun _ _ => .ok (), fun _ => .ok ()⟩
  let pausing : List Choice :=
    [.ask (.start .lingering), .turn 0] ++ List.replicate 16 .go ++ [.ask .pause]
  let waiting : List Choice :=
    [.pass 10, .turn 0] ++ List.replicate 3 .go ++ [.pass 100, .turn 0] ++ List.replicate 5 .go
  let going : List Choice := .turn 0 :: List.replicate 6 .go
  let restarted (s : State) (hs₁ hs₂ : List Happening) : Bool :=
    s.run.any fun r => (Course.pieces r hs₁).any (·.job.isBetween) &&
      (hs₂.filterMap (·.loopStep? r)).head?.any (·.id == "group")
  let waited (m₀ : Moment) (hs₁ : List Happening) (m₁ : Moment) : Bool :=
    hs₁.all (!·.isAsked) && m₁.active.isNone &&
      m₁.state.run.all (fun r => r.token < m₀.state.issued) && m₁.state.resume.1 &&
      (Moment.follow ⟨{}, 500, true⟩ w ⟨m₁.state.resume.2, none⟩ going).any fun c =>
        restarted m₁.state hs₁ c.1
  obtain ⟨hs₀, m₀, c₀, -, h₀⟩ := @Moment.exists_course ⟨{}, 500, true⟩ .fresh w pausing
    (fun _ m₀ => m₀.state.phase == .paused &&
      (m₀.follow ⟨{}, 500, true⟩ w waiting).any fun c => waited m₀ c.1 c.2)
    (by decide +kernel)
  simp only [Bool.and_eq_true, beq_iff_eq] at h₀
  obtain ⟨paused, h₀⟩ := h₀
  obtain ⟨hs₁, ⟨s, active⟩, c₁, -, h₁⟩ := Moment.exists_course w waiting (waited m₀) h₀
  simp only [waited, Bool.and_eq_true, List.all_eq_true, Option.isNone_iff_eq_none,
    Option.all_eq_true, decide_eq_true_eq] at h₁
  obtain ⟨⟨⟨⟨unasked, rfl⟩, older⟩, granted⟩, h₁⟩ := h₁
  obtain ⟨hs₂, m, c₂, -, h₂⟩ := Moment.exists_course w going (fun hs₂ _ => restarted s hs₁ hs₂) h₁
  obtain ⟨r, hr, h₂⟩ := (Option.any_eq_true _ _).mp h₂
  rw [Bool.and_eq_true, List.any_eq_true, Option.any_eq_true] at h₂
  obtain ⟨between, x, hx, hid⟩ := h₂
  have same : s.run = m₀.state.run := by
    rcases c₁.later.run r hr with h | h
    · exact hr.trans h.symm
    · exact absurd (older r hr) (Nat.not_lt.mpr h)
  have kept : .asked .resume ∉ hs₁ := fun h => by cases unasked _ h
  obtain ⟨r', work, hr', -, -, restarts⟩ := c₀.resuming paused c₁ kept same granted c₂
  obtain rfl : r = r' := Option.some.inj (hr.symm.trans hr')
  exact ⟨m₀, s, m, hs₀, hs₁, hs₂, r, c₀, paused, c₁, kept, same, granted, c₂, hr, between, x, hx,
    by simpa using hid, restarts (.inl between) x hx⟩

/-- Where the run is resumed before the loop comes to the end of a step, the next step that it enters
is the one after it, and not the first of the script. -/
theorem resuming_unnoticed :
    ∃ s m hs₀ hs₁ r, Course ⟨{}, 500, true⟩ .fresh hs₀ ⟨s, none⟩ ∧ s.resume.1 = true ∧
      Course ⟨{}, 500, true⟩ ⟨s.resume.2, none⟩ hs₁ m ∧ s.run = some r ∧
      (∀ i, .asked i ∉ hs₁) ∧ m.state.phase = .running ∧ m.state.isCancelled r.token = false ∧
      ∃ x ∈ (hs₁.filterMap (·.loopStep? r)).head?, x.id = "second" ∧
        r.script.steps.head? ≠ some x := by
  let w : World := ⟨fun _ => .ok none, fun _ => .ok (), fun _ _ => .ok (), fun _ => .ok ()⟩
  let pausing : List Choice :=
    [.ask (.start .lingering), .turn 0] ++ List.replicate 16 .go ++ [.ask .pause, .pass 5]
  let going : List Choice := [.pass 5, .turn 0] ++ List.replicate 3 .go
  let went (s : State) (hs₁ : List Happening) (m : Moment) : Bool :=
    hs₁.all (!·.isAsked) && m.state.phase == .running &&
      s.run.any fun r => !m.state.isCancelled r.token &&
        (r.script.steps.map Step.id == ["group", "last"]) &&
        (hs₁.filterMap (·.loopStep? r)).head?.any (·.id == "second")
  obtain ⟨hs₀, ⟨s, active⟩, c₀, -, h₀⟩ := @Moment.exists_course ⟨{}, 500, true⟩ .fresh w pausing
    (fun _ m₀ => m₀.active.isNone && m₀.state.resume.1 &&
      (Moment.follow ⟨{}, 500, true⟩ w ⟨m₀.state.resume.2, none⟩ going).any fun c =>
        went m₀.state c.1 c.2)
    (by decide +kernel)
  simp only [Bool.and_eq_true, Option.isNone_iff_eq_none] at h₀
  obtain ⟨⟨rfl, granted⟩, h₀⟩ := h₀
  obtain ⟨hs₁, m, c₁, -, h₁⟩ := Moment.exists_course w going (went s) h₀
  simp only [went, Bool.and_eq_true, List.all_eq_true, beq_iff_eq] at h₁
  obtain ⟨⟨unasked, running⟩, h₁⟩ := h₁
  obtain ⟨r, hr, h₁⟩ := (Option.any_eq_true _ _).mp h₁
  simp only [Bool.and_eq_true, Bool.not_eq_true', beq_iff_eq, Option.any_eq_true] at h₁
  obtain ⟨⟨live, steps⟩, x, hx, hid⟩ := h₁
  have kept : ∀ i, .asked i ∉ hs₁ := fun i h => by cases unasked _ h
  refine ⟨s, m, hs₀, hs₁, r, c₀, granted, c₁, hr, kept, running, live, x, hx, hid, fun head => ?_⟩
  have first : (r.script.steps.map Step.id).head? = some x.id := by rw [List.head?_map, head]; rfl
  rw [steps, hid] at first
  revert first
  decide

end DeskScript

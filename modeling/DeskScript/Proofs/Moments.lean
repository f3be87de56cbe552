import DeskScript.Proofs.Threads

/-! What holds at every moment of a course. -/

namespace DeskScript

/-- What holds at every moment. -/
structure Moment.Sound (m : Moment) : Prop where
  orderly : m.state.Orderly
  fits : ∀ t ∈ m.state.threads, t.Fits m.state
  single : m.threads.countP (·.role = .foreground) ≤ 1
  /-- Observers are polled for a run that goes on, but for the moment in which it is stopped. -/
  watched : ∀ p, m.state.polling = some p → m.state.isCancelled p = false ∧
    ∃ r, m.state.run = some r ∧ r.token < p ∧
      (m.state.isCancelled r.token = true → ∃ t ws, m.active = some t ∧ t.work = .clear :: ws)
  active : ∀ t, m.active = some t → t.work = [] ∨
    (t.Alive m.state ∧ (t.isEntering = true → m.state.phase = .running)) ∨ ∃ r, t.Over m.state r

namespace Moment

variable {setup : Setup} {w : World} {s : State} {t : Thread} {job : Job} {rest : Work}

theorem sound_fresh : Sound fresh where
  orderly := State.orderly_fresh
  fits := by simp [fresh]
  single := by simp [fresh, threads]
  watched := by simp [fresh]
  active := by simp [fresh]

theorem Sound.live (h : Sound ⟨s, some t⟩) : ∀ p, s.polling = some p → s.isCancelled p = false :=
  fun p hp => (h.watched p hp).1

/-- No thread but the active one is the loop of a run, if that one is. -/
theorem Sound.alone (h : Sound ⟨s, some t⟩) (hf : t.role = .foreground) :
    ∀ t' ∈ s.threads, t'.role ≠ .foreground := by
  have single := h.single
  simp only [threads, Option.toList_some, List.singleton_append, List.countP_cons, hf,
    decide_true, if_true] at single
  have none : s.threads.countP (·.role = .foreground) = 0 := by omega
  simpa using List.countP_eq_zero.mp none

/-- After a step of the active thread there is still one loop at most. -/
theorem Sound.single_advance (h : Sound ⟨s, some t⟩) {s' : State} {o : Outcome}
    (hs : s'.threads = s.threads ∨
      ∃ k due, s'.threads = s.threads ++ [Thread.watcher k due]) :
    (threads ⟨s', some (t.advance o rest)⟩).countP (·.role = .foreground) ≤ 1 := by
  have single := h.single
  have role : (t.advance o rest).role = t.role := rfl
  simp only [threads, Option.toList_some, List.singleton_append, List.countP_cons] at single ⊢
  rcases hs with hs | ⟨k, due, hs⟩
  · rw [hs, role]
    exact single
  · have watcher : (Thread.watcher k due).role = .watcher := rfl
    rw [hs, role, List.countP_append, List.countP_singleton, watcher]
    simpa using single

/-- A lane that goes on, goes on soundly. -/
theorem Sound.work_alive (h : Sound ⟨s, some t⟩) (hw : t.work = job :: rest) (alive : t.Alive s)
    (hh : job.isHalt = false) :
    Sound ⟨(job.run setup w s).state, some (t.advance (job.run setup w s) rest)⟩ := by
  have spares : s.Spares (job.run setup w s).state := alive.spares hw hh h.live
  have alive' := alive.advance hw hh spares
  have orderly : (job.run setup w s).state.Orderly := h.orderly.work setup w job
  obtain ⟨lane, k, -, grants, live, -⟩ := alive'
  constructor
  · exact orderly
  · intro t' ht'
    rcases spares.polling with ⟨-, hs⟩ | ⟨-, hp, -, due, hs⟩
    · exact (h.fits t' (hs ▸ ht')).spares spares
    · rcases List.mem_append.mp (hs ▸ ht') with ht' | ht'
      · exact (h.fits t' ht').spares spares
      · rw [List.mem_singleton.mp ht']
        exact Thread.fits_watcher grants.run hp
  · refine h.single_advance ?_
    rcases spares.polling with ⟨-, hs⟩ | ⟨-, -, -, due, hs⟩
    · exact .inl hs
    · exact .inr ⟨_, due, hs⟩
  · intro p hp
    have gone (hc : (job.run setup w s).state.isCancelled lane.run.token = true) :
        ∃ t' ws, some (t.advance (job.run setup w s) rest) = some t' ∧ t'.work = .clear :: ws := by
      rw [live] at hc
      cases hc
    rcases spares.polling with ⟨hq, -⟩ | ⟨hn, hq, -⟩
    · obtain ⟨hc, r, hr, hlt, -⟩ := h.watched p (hq.symm.trans hp)
      obtain rfl : lane.run = r :=
        Option.some.inj (grants.run.symm.trans (spares.run.trans hr))
      exact ⟨(State.isCancelled_congr spares.cancelled p).trans hc, _, grants.run, hlt, gone⟩
    · obtain rfl : s.issued = p := Option.some.inj (hq.symm.trans hp)
      have fresh : (job.run setup w s).state.isCancelled s.issued = false := by
        rw [State.isCancelled_congr spares.cancelled]
        exact h.orderly.fresh
      have older : lane.run.token < s.issued :=
        h.orderly.run_lt _ (spares.run.symm.trans grants.run)
      exact ⟨fresh, _, grants.run, older, gone⟩
  · intro t' ht'
    cases ht'
    refine .inr (.inl ⟨alive.advance hw hh spares, ?_⟩)
    intro he
    have open' := (alive.entering hw he).1
    rw [spares.phase]
    refine (h.orderly.going_iff.mpr ⟨lane.run, spares.run.symm.trans grants.run, ?_⟩).resolve_right
      open'
    rwa [State.isCancelled_congr spares.cancelled] at live

/-- A lane stops its run soundly. -/
theorem Sound.work_halt (h : Sound ⟨s, some t⟩) (hw : t.work = .halt :: rest) (alive : t.Alive s) :
    Sound ⟨(Job.halt.run setup w s).state, some (t.advance (Job.halt.run setup w s) rest)⟩ := by
  obtain ⟨r, hr⟩ : ∃ r, s.run = some r := by
    obtain ⟨lane, k, -, grants, -⟩ := alive
    exact ⟨_, grants.run⟩
  have hs : (Job.halt.run setup w s).state = { s.cancel r.token with phase := .stopped } := by
    simp only [Job.run, State.halt, hr]
  have cancelled (k : Token) : (Job.halt.run setup w s).state.isCancelled k =
      (decide (k = r.token) || s.isCancelled k) := by
    rw [hs]
    exact State.isCancelled_cancel s r.token k
  have run : (Job.halt.run setup w s).state.run = s.run := by rw [hs]; rfl
  have polling : (Job.halt.run setup w s).state.polling = s.polling := by rw [hs]; rfl
  have threads : (Job.halt.run setup w s).state.threads = s.threads := by rw [hs]; rfl
  constructor
  · exact h.orderly.work setup w .halt
  · intro t' ht'
    refine (h.fits t' (threads ▸ ht')).mono run ?_ ?_
    · intro k hk
      rw [cancelled, hk, Bool.or_true]
    · exact fun k hk => .inl (polling.trans hk)
  · exact h.single_advance (.inl threads)
  · intro p hp
    obtain ⟨hc, r', hr', hlt, -⟩ := h.watched p (polling.symm.trans hp)
    have other : p ≠ r.token := h.orderly.polling_ne p r (polling.symm.trans hp) hr
    refine ⟨?_, r', run.trans hr', hlt, fun _ => ⟨_, _, rfl, rfl⟩⟩
    rw [cancelled, hc, decide_eq_false other]
    rfl
  · intro t' ht'
    cases ht'
    exact .inr (.inr ⟨r, alive.halt hr hw⟩)

/-- While the run is over, polling is too, or is just about to be. -/
theorem Sound.unpolled (h : Sound ⟨s, some t⟩) {r : Run} (past : t.Over s r)
    (hw : t.work = job :: rest) : s.polling = none ∨ job = .clear := by
  cases hp : s.polling with
  | none => exact .inl rfl
  | some p =>
    obtain ⟨-, r', hr', -, clears⟩ := h.watched p hp
    obtain rfl : r = r' := Option.some.inj (past.run.symm.trans hr')
    obtain ⟨t', ws, ht', hws⟩ := clears past.cancelled
    cases ht'
    rw [hw] at hws
    cases hws
    exact .inr rfl

/-- What is left once the run is over is done soundly. -/
theorem Sound.work_over (h : Sound ⟨s, some t⟩) {r : Run} (past : t.Over s r)
    (hw : t.work = job :: rest) (hj : ∀ r', job ≠ .settle r') :
    Sound ⟨(job.run setup w s).state, some (t.advance (job.run setup w s) rest)⟩ := by
  obtain ⟨hushes, past'⟩ : s.Hushes (job.run setup w s).state ∧ _ :=
    past.advance hw hj (h.unpolled past hw)
  constructor
  · exact h.orderly.work setup w job
  · intro t' ht'
    exact (h.fits t' (hushes.threads ▸ ht')).hushes hushes
  · exact h.single_advance (.inl hushes.threads)
  · intro p hp
    rw [hushes.unpolled] at hp
    cases hp
  · intro t' ht'
    cases ht'
    exact .inr (.inr ⟨r, past'⟩)

/-- The loop of a run settles it soundly. -/
theorem Sound.work_settle (h : Sound ⟨s, some t⟩) {r : Run} (past : t.Over s r)
    (hw : t.work = [.settle r]) (hf : t.role = .foreground) :
    Sound ⟨((Job.settle r).run setup w s).state, some (t.advance ((Job.settle r).run setup w s) [])⟩ := by
  have unpolled : s.polling = none := (h.unpolled past hw).resolve_right (by simp)
  have hs : ((Job.settle r).run setup w s).state = { s with run := none, phase := .idle } := by
    simp [Job.run, State.settle, past.run]
  constructor
  · exact h.orderly.work setup w _
  · intro t' ht'
    have ht' : t' ∈ s.threads := by rwa [hs] at ht'
    have fits := h.fits t' ht'
    have other := h.alone hf t' ht'
    refine ⟨fits.token, ?_, ?_⟩
    · obtain ⟨r', closes, -⟩ := fits.closes
      exact ⟨r', closes, fun hf => absurd hf other⟩
    · intro k hk live
      have live : s.isCancelled k = false := by rwa [hs] at live
      obtain ⟨lane, serves, grants, -⟩ := fits.serves k hk live
      have own := grants.own
      have role := serves.role
      cases hl : lane.foreground
      · rw [hl, unpolled] at own
        cases own
      · rw [hl] at role
        exact absurd role other
  · refine h.single_advance (.inl ?_)
    rw [hs]
  · intro p hp
    rw [hs] at hp
    cases unpolled.symm.trans hp
  · intro t' ht'
    cases ht'
    exact .inl rfl

theorem Sound.work (h : Sound ⟨s, some t⟩) (hw : t.work = job :: rest) :
    Sound ⟨(job.run setup w s).state, some (t.advance (job.run setup w s) rest)⟩ := by
  rcases h.active t rfl with hn | ⟨alive, -⟩ | ⟨r, past⟩
  · rw [hw] at hn
    cases hn
  · by_cases hh : job.isHalt = true
    · obtain rfl : job = .halt := Job.eq_halt hh
      exact h.work_halt hw alive
    · exact h.work_alive hw alive (by simpa using hh)
  · rcases past.cases_cons hw with ⟨rfl, rfl, hf⟩ | ⟨ws, -, hq, -⟩
    · exact h.work_settle past hw hf
    · refine h.work_over past hw ?_
      rintro r' rfl
      exact hq

/-! ### Threads in line -/

theorem mem_enqueue {t' : Thread} : t' ∈ (s.enqueue t).threads ↔ t' = t ∨ t' ∈ s.threads := by
  unfold State.enqueue
  dsimp only
  split <;> simp [or_comm]

theorem countP_enqueue (p : Thread → Bool) :
    (s.enqueue t).threads.countP p = (t :: s.threads).countP p := by
  unfold State.enqueue
  dsimp only
  split
  · rfl
  · simp [List.countP_append, List.countP_cons]

theorem Sound.enqueue (h : Sound ⟨s, some t⟩) {t' : Thread} (role : t'.role = t.role)
    (fits : t'.Fits s)
    (live : ∀ p r, s.polling = some p → s.run = some r → s.isCancelled r.token = false) :
    Sound ⟨s.enqueue t', none⟩ where
  orderly := h.orderly.congr rfl rfl rfl rfl rfl
  fits u hu := by
    have fits' : u.Fits s := (mem_enqueue.mp hu).elim (fun he => he ▸ fits) (h.fits u)
    exact fits'.congr rfl rfl rfl
  single := by
    have single := h.single
    simp only [threads, Option.toList_some, Option.toList_none, List.nil_append] at single ⊢
    rw [countP_enqueue, List.countP_cons, role]
    rwa [List.singleton_append, List.countP_cons] at single
  watched p hp := by
    obtain ⟨hc, r, hr, hlt, -⟩ := h.watched p hp
    refine ⟨hc, r, hr, hlt, fun hd => ?_⟩
    have hl : (s.enqueue t').isCancelled r.token = false := live p r hp hr
    rw [hl] at hd
    cases hd
  active u hu := by cases hu

/-- A thread gets in line soundly when it waits or asks something of the world. -/
theorem Sound.wait (h : Sound ⟨s, some t⟩) (hw : t.work = job :: rest) (due : Nat)
    (hj : (job.run setup w s).pause ≠ none ∨ job.asks = true) :
    Sound ⟨(job.run setup w s).state.enqueue
      { t.advance (job.run setup w s) rest with due }, none⟩ := by
  have sound : Sound ⟨(job.run setup w s).state, some (t.advance (job.run setup w s) rest)⟩ :=
    h.work hw
  rcases h.active t rfl with hn | ⟨alive, -⟩ | ⟨r, past⟩
  · rw [hw] at hn
    cases hn
  · have hh : job.isHalt = false := by
      cases job <;> first | rfl | simp [Job.run, Job.asks] at hj
    have alive' := alive.advance hw hh (@Thread.Alive.spares _ _ setup w _ _ alive hw hh h.live)
    refine sound.enqueue rfl (alive'.fits ?_ due) ?_
    · rw [← Bool.not_eq_true]
      intro he
      obtain ⟨-, hp, ha⟩ := alive.entering hw he
      rcases hj with hj | hj
      · exact hj hp
      · rw [ha] at hj
        cases hj
    · intro p r _ hr
      obtain ⟨lane, k, -, grants, live, -⟩ := alive'
      obtain rfl : lane.run = r := Option.some.inj (grants.run.symm.trans hr)
      exact live
  · have hc : job ≠ .clear := by
      rintro rfl
      simp [Job.run, Job.asks] at hj
    have hs : ∀ r', job ≠ .settle r' := by
      rintro r' rfl
      simp [Job.run, Job.asks] at hj
    have unpolled : s.polling = none := (h.unpolled past hw).resolve_right hc
    obtain ⟨hushes, past'⟩ : s.Hushes (job.run setup w s).state ∧ _ :=
      past.advance hw hs (.inl unpolled)
    refine sound.enqueue rfl (past'.fits ?_ hushes.unpolled due) ?_
    · rcases past.cases_cons hw with ⟨rfl, -⟩ | ⟨ws, -, -, -, free⟩
      · exact absurd rfl (hs r)
      · exact fun ht => hc (free ht).1
    · intro p r' hp
      rw [hushes.unpolled] at hp
      cases hp

theorem Sound.turn (h : Sound ⟨s, none⟩) {before after : List Thread}
    (hs : s.threads = before ++ t :: after) :
    Sound ⟨{ s with threads := before ++ after }, some (t.resume s)⟩ := by
  have live : ∀ p r, s.polling = some p → s.run = some r → s.isCancelled r.token = false := by
    intro p r hp hr
    obtain ⟨-, r', hr', -, clears⟩ := h.watched p hp
    obtain rfl : r = r' := Option.some.inj (hr.symm.trans hr')
    rw [← Bool.not_eq_true]
    intro hc
    obtain ⟨u, ws, hu, -⟩ := clears hc
    cases hu
  have role : (t.resume s).role = t.role := by
    unfold Thread.resume
    split <;> (try split) <;> rfl
  constructor
  · exact h.orderly.congr rfl rfl rfl rfl rfl
  · intro u hu
    have hm : u ∈ s.threads := by
      rw [hs]
      exact (List.mem_append.mp hu).elim (List.mem_append_left _) fun hu => by simp [hu]
    exact (h.fits u hm).congr rfl rfl rfl
  · have single := h.single
    simp only [threads, Option.toList_none, List.nil_append, Option.toList_some, hs,
      List.countP_append, List.countP_cons, List.countP_nil, role] at single ⊢
    omega
  · intro p hp
    obtain ⟨hc, r, hr, hlt, -⟩ := h.watched p hp
    refine ⟨hc, r, hr, hlt, fun hd => ?_⟩
    exact absurd ((live p r hp hr).symm.trans hd) (by simp)
  · intro u hu
    cases hu
    have fits : t.Fits { s with threads := before ++ after } :=
      (h.fits t (by simp [hs])).congr rfl rfl rfl
    have same : t.resume { s with threads := before ++ after } = t.resume s := rfl
    have resumed := fits.resume live
    rw [same] at resumed
    rcases resumed with hn | ⟨alive, he⟩ | ⟨r, past⟩
    · exact .inl hn
    · refine .inr (.inl ⟨alive, fun hq => ?_⟩)
      rw [he] at hq
      cases hq
    · exact .inr (.inr ⟨r, past⟩)

/-! ### What is asked from outside -/

/-- Where there is no run every thread in line is to be dropped, and none is a loop. -/
theorem Sound.dropped (h : Sound ⟨s, none⟩) (hr : s.run = none) (ht : t ∈ s.threads) :
    t.role ≠ .foreground ∧ ∀ k, t.token = some k → s.isCancelled k = true := by
  have fits : t.Fits s := h.fits t ht
  constructor
  · intro hf
    obtain ⟨r, -, current⟩ := fits.closes
    cases hr.symm.trans (current hf)
  · intro k hk
    rw [← Bool.not_eq_false]
    intro live
    obtain ⟨lane, -, grants, -⟩ := fits.serves k hk live
    cases hr.symm.trans grants.run

theorem Sound.start (h : Sound ⟨s, none⟩) (script : Script) :
    Sound ⟨(s.start setup script).2, none⟩ := by
  unfold State.start
  split
  · cases ho : s.openRun script.withDefaults with
    | none => exact h
    | some opened =>
      obtain ⟨r, s'⟩ := opened
      have orderly : s'.Orderly := h.orderly.openRun ho
      unfold State.openRun at ho
      split at ho <;> cases ho
      rename_i hp
      have hr : s.run = none := h.orderly.idle_iff.mp hp
      refine ⟨orderly.congr rfl rfl rfl rfl rfl, ?_, ?_, ?_, by simp⟩
      · intro t ht
        rcases List.mem_append.mp ht with ht | ht
        · obtain ⟨role, dropped⟩ := h.dropped hr ht
          have fits : t.Fits s := h.fits t ht
          refine ⟨fits.token, ?_, ?_⟩
          · obtain ⟨r, closes, -⟩ := fits.closes
            exact ⟨r, closes, fun hf => absurd hf role⟩
          · intro k hk live
            exact absurd ((dropped k hk).symm.trans live) (by simp)
        · rw [List.mem_singleton.mp ht]
          exact Thread.fits_loop rfl
      · have none : s.threads.countP (·.role = .foreground) = 0 := by
          rw [List.countP_eq_zero]
          intro t ht
          simpa using (h.dropped hr ht).1
        simp [threads, State.launch, State.spawn, State.tell, State.note, none]
      · intro p hp
        obtain ⟨-, r, hr', -⟩ := h.watched p hp
        cases hr.symm.trans hr'
  · exact h

/-- A change of the phase alone is sound if it keeps order. -/
theorem Sound.change (h : Sound ⟨s, none⟩) {before after : Phase} {e : Event}
    (hb : before = .running ∨ before = .paused) (ha : after = .running ∨ after = .paused) :
    Sound ⟨(s.change before after e).2, none⟩ := by
  unfold State.change
  cases ht : s.transition before after with
  | none => exact h
  | some s' =>
    have orderly : s'.Orderly := h.orderly.transition ht hb ha
    unfold State.transition at ht
    split at ht <;> cases ht
    refine ⟨orderly.kept (State.kept_note _ _), ?_, h.single, h.watched, by simp⟩
    intro t ht
    exact (h.fits t ht).congr rfl rfl rfl

theorem Sound.stop (h : Sound ⟨s, none⟩) : Sound ⟨s.stop, none⟩ := by
  have hushes := s.hushes_stop
  constructor
  · exact h.orderly.stop
  · intro t ht
    exact (h.fits t (hushes.threads ▸ ht)).hushes hushes
  · have single := h.single
    simpa only [threads, hushes.threads] using single
  · intro p hp
    rw [hushes.unpolled] at hp
    cases hp
  · intro t ht
    cases ht

theorem Sound.ask (h : Sound ⟨s, none⟩) (i : Intervention) : Sound ⟨(i.take setup s).2, none⟩ := by
  cases i with
  | start script => exact h.start script
  | pause => exact h.change (.inl rfl) (.inr rfl)
  | resume => exact h.change (.inr rfl) (.inl rfl)
  | stop => exact h.stop

theorem Sound.step {m m' : Moment} {e : Happening} (h : m.Sound) (st : m.Step setup e m') :
    m'.Sound := by
  cases st with
  | ask s i => exact h.ask i
  | pass s ms =>
    refine ⟨h.orderly.congr rfl rfl rfl rfl rfl, ?_, h.single, h.watched, by simp⟩
    intro t ht
    exact (h.fits t ht).congr rfl rfl rfl
  | turn hs ready => exact h.turn hs
  | work w hw hp => exact h.work hw
  | wait w hw hp => exact h.wait hw _ (.inl (by simp [hp]))
  | await w due hw ha => exact h.wait hw due (.inr ha)
  | @leave s t hw =>
    refine ⟨h.orderly, h.fits, ?_, ?_, by simp⟩
    · have single := h.single
      simp only [threads, Option.toList_some, Option.toList_none, List.singleton_append,
        List.nil_append, List.countP_cons] at single ⊢
      omega
    · intro p hp
      obtain ⟨hc, r, hr, hlt, clears⟩ := h.watched p hp
      refine ⟨hc, r, hr, hlt, fun hd => ?_⟩
      obtain ⟨u, ws, hu, hws⟩ := clears hd
      cases hu
      rw [hw] at hws
      cases hws

end Moment

/-- Whatever happens, every moment is sound. -/
theorem Course.sound {setup : Setup} {m m' : Moment} {hs : List Happening}
    (c : Course setup m hs m') (h : m.Sound) : m'.Sound :=
  c.keeps (fun _ _ _ h st => h.step st) h

end DeskScript

import DeskScript.Proofs.Concord
import DeskScript.Proofs.Firing

/-! What a run leaves behind. When its loop winds it up, the loop clears the registry first. -/

namespace DeskScript

variable {setup : Setup} {w : World} {s s' : State} {t : Thread} {job : Job} {rest : Work} {r : Run}
  {c c' : Scene} {k : Stroke} {ks : List Stroke}

/-! ### Registrations -/

/-- An observer registered for a run by a thread, and the state in which it was. -/
structure Registration where
  state : State
  thread : Thread
  run : Run
  observer : Observer

namespace Registration

/-- Whether the run had been stopped by then, and another thread than its loop was still about to
register the observer. -/
def IsStray (g : Registration) : Prop :=
  g.thread.role ≠ .foreground ∧ g.state.isCancelled g.run.token = true

/-- The token of the polling that begins with the registration. -/
def polling? (setup : Setup) (g : Registration) : Option Token :=
  if setup.hasRuntime = true ∧ g.state.isPolling = false then some g.state.issued else none

end Registration

def Stroke.registration? : Stroke → Option Registration
  | .worked _ s t (.enlistOpen r o) => some ⟨s, t, r, o⟩
  | _ => none

def registrations (ks : List Stroke) : List Registration := ks.filterMap Stroke.registration?

/-- The run that is wound up. -/
def Stroke.settled? : Stroke → Option Run
  | .worked _ _ _ (.settle r) => some r
  | _ => none

theorem Stroke.exists_of_settled? {r : Run} (h : k.settled? = some r) :
    ∃ w s t, k = .worked w s t (.settle r) := by
  unfold settled? at h
  split at h
  · cases h
    exact ⟨_, _, _, rfl⟩
  · cases h

/-- The last registration under the name. -/
def lastRegistration (id : String) (ks : List Stroke) : Option Registration :=
  ((registrations ks).filter (·.observer.id == id)).getLast?

theorem registrations_snoc (ks : List Stroke) (k : Stroke) :
    registrations (ks ++ [k]) = registrations ks ++ k.registration?.toList := by
  rw [registrations, List.filterMap_append, registrations]
  cases h : k.registration? <;> simp [h]

theorem lastRegistration_snoc {g : Registration} (ks : List Stroke) (h : k.registration? = some g) :
    lastRegistration g.observer.id (ks ++ [k]) = some g := by
  simp [lastRegistration, registrations_snoc, h]

theorem lastRegistration_snoc_of_ne {id : String}
    (h : ∀ g, k.registration? = some g → g.observer.id ≠ id) :
    lastRegistration id (ks ++ [k]) = lastRegistration id ks := by
  rw [lastRegistration, registrations_snoc, List.filter_append, lastRegistration]
  cases hk : k.registration? with
  | none => simp
  | some g => simp [h g hk]

theorem Stroke.change?_eq_register {o : Observer} {priority : Int32} :
    k.change? = some (.register o priority) ↔
      ∃ g, k.registration? = some g ∧ g.observer = o ∧ g.run.priority o.id = priority := by
  cases k with
  | worked w s t job =>
    cases job with
    | enlistOpen r o' =>
      simp only [change?, Job.change?, registration?, Option.some.injEq, exists_eq_left',
        Registry.Change.register.injEq]
      exact and_congr_right fun same => by rw [same]
    | _ => simp [change?, Job.change?, registration?]
  | served s stage => cases stage <;> simp [change?, Stage.change?, registration?]
  | _ => simp [change?, registration?]

/-- An observer that is registered after a change was registered by it, or was there before and is not
one that the change replaced. -/
theorem Registry.mem_apply {registry : Registry} {change : Registry.Change} {e : Entry}
    (he : e ∈ (change.apply registry).entries) :
    (∃ priority, change = .register e.observer priority) ∨
      ∃ e' ∈ registry.entries, e'.observer = e.observer ∧
        ∀ o priority, change = .register o priority → o.id ≠ e.id := by
  cases change with
  | register o priority =>
    rcases mem_register.mp he with ⟨he, other⟩ | rfl
    · refine .inr ⟨e, he, rfl, ?_⟩
      rintro o' priority' ⟨⟩
      exact other.symm
    · exact .inl ⟨priority, rfl⟩
  | unregister id => exact .inr ⟨e, (mem_unregister.mp he).1, rfl, by simp⟩
  | setActive id active =>
    rcases mem_setActive.mp he with ⟨he, -⟩ | ⟨e', he', -, rfl⟩
    · exact .inr ⟨e, he, rfl, by simp⟩
    · exact .inr ⟨e', he', rfl, by simp⟩
  | clear => cases he

/-- An observer that is registered after a stroke was registered by it, or was there before and is not
one that the stroke replaced. -/
theorem Scene.Step.entry (st : c.Step setup k c') {e : Entry} (he : e ∈ c'.state.registry.entries) :
    (∃ g, k.registration? = some g ∧ g.observer = e.observer) ∨
      ∃ e' ∈ c.state.registry.entries, e'.observer = e.observer ∧
        ∀ g, k.registration? = some g → g.observer.id ≠ e.id := by
  rw [st.registry] at he
  cases hk : k.change? with
  | none =>
    rw [hk] at he
    refine .inr ⟨e, he, rfl, fun g hg => ?_⟩
    have change := Stroke.change?_eq_register.mpr ⟨g, hg, rfl, rfl⟩
    rw [hk] at change
    cases change
  | some change =>
    rw [hk] at he
    rcases Registry.mem_apply he with ⟨priority, rfl⟩ | ⟨e', he', same, other⟩
    · obtain ⟨g, hg, ho, -⟩ := Stroke.change?_eq_register.mp hk
      exact .inl ⟨g, hg, ho⟩
    · refine .inr ⟨e', he', same, fun g hg => ?_⟩
      have registers := Stroke.change?_eq_register.mpr ⟨g, hg, rfl, rfl⟩
      exact other _ _ (Option.some.inj (hk.symm.trans registers))

/-! ### What is left of a run -/

/-- Nothing is left of the run, which has been stopped, but strays. -/
structure Scene.IsRidOf (c : Scene) (setup : Setup) (ks : List Stroke) (r : Run) : Prop where
  cancelled : c.state.isCancelled r.token = true
  entries : ∀ e ∈ c.state.registry.entries, ∀ g, lastRegistration e.id ks = some g →
    g.run.token = r.token → g.IsStray
  polling : ∀ g ∈ registrations ks, g.run.token = r.token → ∀ p, g.polling? setup = some p →
    c.state.isCancelled p = true ∨ g.IsStray
  loops : ∀ t ∈ c.threads, ∀ r', t.loop? = some r' → r'.token = r.token → t.work = [.settle r']
  launched : ∀ r', .launch r' ∈ c.stages → r'.token ≠ r.token

/-- Whether a tick took stock of the registry while the observer was in it, and if it was there for a run
that had been wound up by then, it was a stray. -/
def WasFound (ks : List Stroke) (o : Observer) : Prop :=
  ∃ ks₁ w s t ks₂ g, ks = ks₁ ++ .worked w s t .survey :: ks₂ ∧ lastRegistration o.id ks₁ = some g ∧
    g.observer = o ∧ ∀ w s t r, .worked w s t (.settle r) ∈ ks₁ → g.run.token = r.token → g.IsStray

theorem WasFound.snoc {o : Observer} (h : WasFound ks o) (k : Stroke) : WasFound (ks ++ [k]) o := by
  obtain ⟨ks₁, w, s, t, ks₂, g, rfl, found⟩ := h
  exact ⟨ks₁, w, s, t, ks₂ ++ [k], g, by simp, found⟩

/-- What is kept of the registrations. -/
structure Scene.Records (c : Scene) (setup : Setup) (ks : List Stroke) : Prop where
  sound : c.Sound
  entries : ∀ e ∈ c.state.registry.entries, ∃ g, lastRegistration e.id ks = some g ∧
    g.observer = e.observer
  polling : ∀ g ∈ registrations ks, ∀ p, g.polling? setup = some p →
    c.state.isCancelled p = true ∨ c.state.polling = some p
  /-- The loop of a run forgets it once the registry is clear. -/
  winding : ∀ t ∈ c.threads, ∀ r, t.loop? = some r → t.work = [.settle r] → c.IsRidOf setup ks r
  settled : ∀ w s t r, .worked w s t (.settle r) ∈ ks → c.IsRidOf setup ks r
  firing : ∀ o, c.MayFire o → WasFound ks o
  fired : ∀ w s t o, .worked w s t (.takeIn o) ∈ ks → WasFound ks o

/-- Polling goes on until it is cancelled. -/
theorem Scene.Step.polling {p : Token} (st : c.Step setup k c') (hp : c.state.polling = some p) :
    c'.state.isCancelled p = true ∨ c'.state.polling = some p := by
  have clear : c.state.clear.isCancelled p = true := by simp [State.isCancelled_clear, hp]
  have halt : c.state.halt.2.polling = some p := by
    unfold State.halt
    split <;> exact hp
  cases k with
  | arrived q =>
    obtain ⟨hs, -⟩ := st.after_arrive
    rw [hs]
    exact .inr hp
  | served s stage =>
    obtain ⟨rfl, -, hs, -⟩ := st.split_serve
    rw [hs]
    cases stage with
    | openRun script =>
      refine .inr ?_
      by_cases idle : c.state.phase = .idle
      · rw [Stage.run_openRun_of_idle idle]
        exact hp
      · rw [Stage.run_openRun_of_busy idle]
        exact hp
    | shift before after e =>
      refine .inr ?_
      by_cases hb : c.state.phase = before
      · rw [Stage.run_shift_of_eq hb]
        exact hp
      · rw [Stage.run_shift_of_ne hb]
        exact hp
    | halt => exact .inr halt
    | clear => exact .inl clear
    | launch | tell | unregister | setActive | visit => exact .inr hp
  | worked w s t job =>
    obtain ⟨-, rfl, -, -, -, ⟨threads, hs⟩, -⟩ := st.after_work
    rw [hs]
    by_cases hd : job.isDecisive = true
    · cases job with
      | halt => exact .inr halt
      | clear => exact .inl clear
      | settle r =>
        refine .inr ?_
        simp only [Job.run, State.settle]
        split
        · split <;> exact hp
        · exact hp
      | enlistOpen r o =>
        -- New polling begins only where the old was cancelled.
        simp only [Job.run, State.enlist]
        split
        · exact .inr hp
        · rename_i dead
          have hc : c.state.isCancelled p = true := by
            simpa [State.isPolling, hp, State.isCancelled] using dead
          refine .inl ?_
          unfold State.startPolling
          split <;> exact hc
      | _ => cases hd
    · obtain ⟨step, n, kept⟩ := job.kept_run setup w c.state (by simpa using hd)
      rw [kept]
      exact .inr hp
  | shifted =>
    obtain ⟨⟨clock, threads, hs⟩, -⟩ := st.after_shift
    rw [hs]
    exact .inr hp

/-- Where there is no polling a registration begins it. -/
theorem Scene.Step.starts_polling {g : Registration} {p : Token} (st : c.Step setup k c')
    (hg : k.registration? = some g) (hp : g.polling? setup = some p) :
    c'.state.polling = some p := by
  cases k with
  | worked w s t job =>
    cases job with
    | enlistOpen r o =>
      cases hg
      obtain ⟨-, rfl, -, -, -, ⟨threads, hs⟩, -⟩ := st.after_work
      rw [hs]
      simp only [Registration.polling?] at hp
      split at hp
      · rename_i starts
        cases hp
        have idle : ({ c.state with registry :=
            c.state.registry.register o (r.priority o.id) } : State).isPolling = false := starts.2
        simp [Job.run, State.enlist, idle, State.startPolling, starts.1]
      · cases hp
    | _ => cases hg
  | _ => cases hg

namespace Scene.IsRidOf

/-- Only strays are registered for the run. -/
theorem isStray (h : c.IsRidOf setup ks r) (sound : c.Sound) (st : c.Step setup k c')
    {g : Registration} (hg : k.registration? = some g) (same : g.run.token = r.token) : g.IsStray := by
  cases k with
  | worked w s t job =>
    cases job with
    | enlistOpen r' o =>
      cases hg
      obtain ⟨rest, rfl, ht, hw, -⟩ := st.after_work
      refine ⟨fun role => ?_, (congrArg c.state.isCancelled same).trans h.cancelled⟩
      rcases sound.active t ht with (⟨r₁, loops⟩ | watches) | ⟨r₁, winds⟩
      · have own : r' = r₁ := by
          rcases loops.cases_cons hw with ⟨path, outer, -, steps, -⟩ | ⟨outer, -, outside⟩
          · exact steps.head
          · rcases outside.cases_cons with ⟨pause, -⟩ | ⟨-, hj⟩
            · cases pause
            · simp at hj
        subst own
        exact loops.work_ne _ (h.loops t (List.mem_append_left _ ht) r' loops.loop? same)
      · exact watches.role role
      · rcases winds.cases_cons hw with ⟨hj, -⟩ | ⟨hj, -⟩ <;> cases hj
    | _ => cases hg
  | _ => cases hg

theorem step (h : c.IsRidOf setup ks r) (sound : c.Sound) (st : c.Step setup k c') :
    c'.IsRidOf setup (ks ++ [k]) r := by
  have stray {g : Registration} := h.isStray sound st (g := g)
  constructor
  · exact st.later.cancelled _ h.cancelled
  · intro e he g hg same
    rcases st.entry he with ⟨g', hk, ho⟩ | ⟨e', he', ho, other⟩
    · have last := lastRegistration_snoc ks hk
      rw [ho] at last
      obtain rfl : g' = g := Option.some.inj (last.symm.trans hg)
      exact stray hk same
    · rw [lastRegistration_snoc_of_ne other, show e.id = e'.id from congrArg Observer.id ho.symm] at hg
      exact h.entries e' he' g hg same
  · intro g hg same p hp
    rw [registrations_snoc, List.mem_append, Option.mem_toList] at hg
    rcases hg with hg | hg
    · exact (h.polling g hg same p hp).imp_left (st.later.cancelled p)
    · exact .inr (stray hg same)
  · intro u hu r' hl same
    rcases sound.loop_of_step st hu hl with ⟨t, ht, hl, becomes⟩ | hm
    · have hw := h.loops t ht r' hl same
      rw [becomes hw]
      exact hw
    · exact absurd same (h.launched r' hm)
  · intro r' hm same
    rcases st.launched hm with hm | new
    · exact h.launched r' hm same
    · have older := sound.orderly.cancelled_lt _ h.cancelled
      rw [← same, new] at older
      exact Nat.lt_irrefl _ older

end Scene.IsRidOf

namespace Scene.Records

theorem fresh (setup : Setup) : Scene.fresh.Records setup [] where
  sound := Scene.sound_fresh
  entries := by simp [Scene.fresh]
  polling := by simp [registrations]
  winding := by simp [Scene.fresh, Scene.threads]
  settled := by simp
  firing := by simp [Scene.fresh, Scene.MayFire, Scene.threads]
  fired := by simp

/-- What is found in the registry is of no run that has been wound up, but for strays. -/
theorem wasFound (h : c.Records setup ks) {e : Entry} (he : e ∈ c.state.registry.entries) (w : World)
    (s : State) (t : Thread) : WasFound (ks ++ [.worked w s t .survey]) e.observer := by
  obtain ⟨g, last, same⟩ := h.entries e he
  refine ⟨ks, w, s, t, [], g, rfl, last, same, ?_⟩
  intro w s t r hk
  exact (h.settled w s t r hk).entries e he g last

/-- A loop that has cleared the registry is rid of its run. -/
theorem cleared (h : c.Records setup ks) (winds : t.Winds c.state r) (hw : t.work = State.closing r)
    (st : c.Step setup (.worked w c.state t .clear) c') :
    c'.IsRidOf setup (ks ++ [.worked w c.state t .clear]) r := by
  obtain ⟨rest, due, others, new, -, ht, hw', ha, ⟨threads, hs⟩, before, after, watchers, -⟩ :=
    st.split_work
  obtain ⟨-, rfl⟩ := List.cons.inj (hw.symm.trans hw')
  obtain ⟨alone, unlaunched⟩ := h.sound.alone_of_loop before (winds.loop? (by simp [hw']))
  constructor
  · exact st.later.cancelled _ winds.cancelled
  · intro e he
    rw [hs] at he
    have none : c.state.clear.registry.entries = [] := by rw [State.clear_registry]; rfl
    rw [show (Job.clear.run setup w c.state).state = c.state.clear from rfl, none] at he
    cases he
  · intro g hg same p hp
    rw [registrations_snoc, List.mem_append, Option.mem_toList] at hg
    rcases hg with hg | hg
    · refine .inl ?_
      rcases h.polling g hg p hp with hc | hq
      · exact st.later.cancelled p hc
      · rw [hs]
        exact (c.state.hushes_clear).polling p hq
    · cases hg
  · intro u hu r' hl same
    rcases List.mem_cons.mp (after.mem_iff.mp hu) with rfl | hu
    · have winds' := winds.after hw' st.later setup w due
      rw [winds'.loop? (by simp [Thread.after, Thread.advance])] at hl
      cases hl
      rfl
    · rcases List.mem_append.mp hu with hu | hu
      · have loop : r' ∈ others.filterMap Thread.loop? := List.mem_filterMap.mpr ⟨u, hu, hl⟩
        rw [alone] at loop
        cases loop
      · obtain ⟨k, due, rfl⟩ := watchers u hu
        rw [Thread.loop?_of_role (by simp [Thread.watcher])] at hl
        cases hl
  · intro r' hm
    rw [Scene.stages, ha] at hm
    have launched : r' ∈ c.stages.filterMap Stage.launched? :=
      List.mem_filterMap.mpr ⟨_, hm, rfl⟩
    rw [unlaunched] at launched
    cases launched

theorem step (h : c.Records setup ks) (st : c.Step setup k c') :
    c'.Records setup (ks ++ [k]) := by
  have rid {r : Run} (hr : c.IsRidOf setup ks r) : c'.IsRidOf setup (ks ++ [k]) r :=
    hr.step h.sound st
  constructor
  · exact h.sound.step st
  · intro e he
    rcases st.entry he with ⟨g, hk, ho⟩ | ⟨e', he', ho, other⟩
    · refine ⟨g, ?_, ho⟩
      have last := lastRegistration_snoc ks hk
      rwa [ho] at last
    · obtain ⟨g, last, hg⟩ := h.entries e' he'
      refine ⟨g, ?_, hg.trans ho⟩
      rwa [lastRegistration_snoc_of_ne other, show e.id = e'.id from congrArg Observer.id ho.symm]
  · intro g hg p hp
    rw [registrations_snoc, List.mem_append, Option.mem_toList] at hg
    rcases hg with hg | hg
    · rcases h.polling g hg p hp with hc | hq
      · exact .inl (st.later.cancelled p hc)
      · exact st.polling hq
    · exact .inr (st.starts_polling hg hp)
  · intro u hu r hl hw
    rcases h.sound.winding_of_step st hu hl hw with hu | ⟨w, t, rfl, winds, hw⟩
    · exact rid (h.winding u hu r hl hw)
    · exact h.cleared winds hw st
  · intro w s t r hk
    rcases List.mem_append.mp hk with hk | hk
    · exact rid (h.settled w s t r hk)
    · obtain rfl := List.mem_singleton.mp hk
      obtain ⟨winds, hw⟩ := h.sound.of_settle st
      obtain ⟨-, rfl, ht, -⟩ := st.after_work
      exact rid (h.winding t (List.mem_append_left _ ht) r (winds.loop? (by simp [hw])) hw)
  · intro o fires
    rcases st.mayFire fires with before | ⟨w, t, rfl, e, he, rfl⟩
    · exact (h.firing o before).snoc k
    · exact h.wasFound he w c.state t
  · intro w s t o hk
    rcases List.mem_append.mp hk with hk | hk
    · exact (h.fired w s t o hk).snoc k
    · obtain rfl := List.mem_singleton.mp hk
      obtain ⟨rest, -, ht, hw, -⟩ := st.after_work
      refine (h.firing o ⟨t, List.mem_append_left _ ht, .takeIn o, ?_, rfl⟩).snoc _
      rw [hw]
      exact List.mem_cons_self

end Scene.Records

theorem Weave.records (v : Weave setup .fresh ks c) : c.Records setup ks := by
  induction v with
  | refl => exact .fresh setup
  | snoc _ st ih => exact ih.step st

/-! ### Where threads give way only when they wait -/

theorem registrations_filter_isWork (ks : List Stroke) :
    registrations (ks.filter Stroke.isWork) = registrations ks := by
  rw [registrations, List.filterMap_filter, registrations]
  refine List.filterMap_congr fun k _ => ?_
  cases k <;> rfl

/-- In a course an observer is registered only for a run that has not been stopped. -/
theorem Course.not_isStray {m m' : Moment} {hs : List Happening} (v : Course setup m hs m')
    (sound : m.Sound) {g : Registration} (hg : g ∈ registrations (hs.filterMap Happening.stroke?)) :
    ¬ g.IsStray := by
  obtain ⟨k, hk, hg⟩ := List.mem_filterMap.mp hg
  obtain ⟨h, hm, hk⟩ := List.mem_filterMap.mp hk
  cases h with
  | worked w s t job =>
    cases hk
    cases job with
    | enlistOpen r o =>
      cases hg
      rintro ⟨-, hc⟩
      obtain ⟨before, c, rest, hw⟩ := v.worked hm
      rcases (c.sound sound).active t rfl with hn | ⟨⟨lane, k, serves, -, live, -⟩, -⟩ | ⟨r', past⟩
      · rw [hw] at hn
        cases hn
      · obtain ⟨ws, -, own⟩ := serves.work_cons hw
        rcases own.decisive rfl with hj | ⟨o', hj⟩
        · cases hj
        · cases hj
          exact absurd (hc.symm.trans live) (by simp)
      · rcases past.cases_cons hw with ⟨hj, -⟩ | ⟨ws, -, quiet, -⟩
        · cases hj
        · exact quiet
    | _ => cases hg
  | asked | shifted => cases hk

/-- Once a run has been wound up in a course, nothing is left of it. -/
theorem Course.leaves_nothing {m : Moment} {hs : List Happening} (v : Course setup .fresh hs m)
    {w : World} {s : State} {t : Thread} (settled : .worked w s t (.settle r) ∈ hs) :
    (∀ e ∈ m.state.registry.entries, ∃ g ∈ registrations (hs.filterMap Happening.stroke?),
      g.observer = e.observer ∧ g.run.token ≠ r.token) ∧
    ∀ g ∈ registrations (hs.filterMap Happening.stroke?), g.run.token = r.token →
      ∀ p, g.polling? setup = some p → m.state.isCancelled p = true := by
  obtain ⟨ks, weave, same⟩ := v.weave
  have records : m.scene.Records setup ks := weave.records
  have strokes : registrations ks = registrations (hs.filterMap Happening.stroke?) := by
    rw [← registrations_filter_isWork, same]
  have settles : Stroke.worked w s t (.settle r) ∈ ks := by
    have mem : Stroke.worked w s t (.settle r) ∈ hs.filterMap Happening.stroke? :=
      List.mem_filterMap.mpr ⟨_, settled, rfl⟩
    rw [← same] at mem
    exact List.mem_of_mem_filter mem
  have rid := records.settled w s t r settles
  refine ⟨fun e he => ?_, fun g hg own p hp => ?_⟩
  · obtain ⟨g, last, ho⟩ := records.entries e he
    have hg : g ∈ registrations (hs.filterMap Happening.stroke?) := by
      rw [← strokes]
      exact List.mem_of_mem_filter (List.mem_of_getLast? last)
    refine ⟨g, hg, ho, fun own => ?_⟩
    exact v.not_isStray Moment.sound_fresh hg (rid.entries e he g last own)
  · rw [← strokes] at hg
    refine (rid.polling g hg own p hp).resolve_right ?_
    exact v.not_isStray Moment.sound_fresh (strokes ▸ hg)

/-! ### Where any thread may go first -/

/-- Once a run has been wound up, an observer of it is registered only if it is a stray: another thread
than the loop of the run was about to register it when the run was stopped. No polling that it began
goes on but for a stray. And an observer fires only if a tick found it before its run was wound up, or if
it is a stray. -/
theorem Weave.leftovers (v : Weave setup .fresh ks c) {w : World} {s : State} {t : Thread}
    (settled : .worked w s t (.settle r) ∈ ks) :
    (∀ e ∈ c.state.registry.entries, ∃ g, lastRegistration e.id ks = some g ∧
      g.observer = e.observer ∧ (g.run.token = r.token → g.IsStray)) ∧
    (∀ g ∈ registrations ks, g.run.token = r.token → ∀ p, g.polling? setup = some p →
      c.state.isCancelled p = true ∨ g.IsStray) ∧
    ∀ w s t o, .worked w s t (.takeIn o) ∈ ks → WasFound ks o := by
  have records := v.records
  have rid := records.settled w s t r settled
  refine ⟨fun e he => ?_, rid.polling, records.fired⟩
  obtain ⟨g, last, same⟩ := records.entries e he
  exact ⟨g, last, same, rid.entries e he g last⟩

/-- A script with an observer that registers another one. -/
def Script.layered : Script := { (default : Script) with
  name := "layered"
  steps := [
    .observer ⟨"outer", none, none, none⟩ (.present (.position ⟨0, 0⟩)) [
      .observer ⟨"inner", none, none, none⟩ (.present (.position ⟨0, 0⟩)) []],
    .action ⟨"wait", none, none, none⟩ (.system (.wait 1000))] }

/-- The run is stopped while its loop waits, and another one is started, which registers the observer
again. -/
theorem leftovers_restart :
    ∃ ks c w s t r, Weave ⟨{}, 500, true⟩ .fresh ks c ∧ .worked w s t (.settle r) ∈ ks ∧
      (∃ e ∈ c.state.registry.entries, ∃ g, lastRegistration e.id ks = some g ∧
        g.run.token ≠ r.token) ∧
      ∃ g ∈ registrations ks, g.run.token = r.token ∧
        ∃ p, g.polling? ⟨{}, 500, true⟩ = some p ∧ c.state.isCancelled p = true := by
  let w : World := ⟨fun _ => .ok (some ⟨0, 0⟩), fun _ => .ok (), fun _ _ => .ok (), fun _ => .ok ()⟩
  obtain ⟨ks, c, v, -, found⟩ := @Scene.exists_weave ⟨{}, 500, true⟩ .fresh w
    ([.ask (.start .layered), .serve 0, .serve 0, .serve 0, .turn 0] ++ List.replicate 18 (.go 0) ++
      [.ask .stop, .serve 1, .serve 1, .serve 1, .turn 1, .go 0, .go 0] ++
      [.ask (.start .layered), .serve 2, .serve 2, .serve 2, .turn 1] ++ List.replicate 9 (.go 0))
    (fun ks c =>
      (ks.any fun k => k.settled?.any fun r => (registrations ks).any fun g =>
        g.run.token == r.token && (g.polling? ⟨{}, 500, true⟩).isSome) &&
      (registrations ks).all (·.thread.role == .foreground) && !c.state.registry.entries.isEmpty)
    (by decide +kernel)
  simp only [Bool.and_eq_true, List.any_eq_true, List.all_eq_true, Option.any_eq_true, beq_iff_eq,
    Bool.not_eq_true', List.isEmpty_eq_false_iff_exists_mem, Option.isSome_iff_exists] at found
  obtain ⟨⟨⟨k, hk, r, settles, g₂, hg₂, same, p, hp⟩, own⟩, e, he⟩ := found
  obtain ⟨w, s, t, rfl⟩ := Stroke.exists_of_settled? settles
  obtain ⟨entries, polling, -⟩ := v.leftovers hk
  have loop {g : Registration} (hg : g ∈ registrations ks) : ¬ g.IsStray :=
    fun stray => stray.1 (own g hg)
  obtain ⟨g₁, last, -, stray⟩ := entries e he
  have hg₁ : g₁ ∈ registrations ks := List.mem_of_mem_filter (List.mem_of_getLast? last)
  exact ⟨ks, c, w, s, t, r, v, hk, ⟨e, he, g₁, last, fun own => loop hg₁ (stray own)⟩, g₂, hg₂, same,
    p, hp, (polling g₂ hg₂ same p hp).resolve_right (loop hg₂)⟩

/-- The run is stopped, and its loop winds it up, while the outer observer is just about to register the
inner one. That is registered afterwards, and its polling goes on. -/
theorem leftovers_stray :
    ∃ ks c w s t r, Weave ⟨{}, 500, true⟩ .fresh ks c ∧ .worked w s t (.settle r) ∈ ks ∧
      c.state.run = none ∧ ∃ e ∈ c.state.registry.entries, ∃ g, lastRegistration e.id ks = some g ∧
        g.run.token = r.token ∧
        ∃ p, g.polling? ⟨{}, 500, true⟩ = some p ∧ c.state.isCancelled p = false := by
  let w : World := ⟨fun _ => .ok (some ⟨0, 0⟩), fun _ => .ok (), fun _ _ => .ok (), fun _ => .ok ()⟩
  obtain ⟨ks, c, v, -, found⟩ := @Scene.exists_weave ⟨{}, 500, true⟩ .fresh w
    ([.ask (.start .layered), .serve 0, .serve 0, .serve 0, .turn 0] ++ List.replicate 18 (.go 0) ++
      .turn 0 :: List.replicate 12 (.go 0) ++
      [.ask .stop, .serve 1, .turn 0, .go 0, .go 0, .serve 1, .go 1])
    (fun ks c => c.state.run.isNone && ks.any fun k => k.settled?.any fun r =>
      c.state.registry.entries.any fun e =>
        (lastRegistration e.id ks).any fun g => g.run.token == r.token &&
          (g.polling? ⟨{}, 500, true⟩).any fun p => !c.state.isCancelled p)
    (by decide +kernel)
  simp only [Bool.and_eq_true, Option.isNone_iff_eq_none, List.any_eq_true, Option.any_eq_true,
    beq_iff_eq, Bool.not_eq_true'] at found
  obtain ⟨idle, k, hk, r, settles, e, he, g, last, same, p, hp, goes⟩ := found
  obtain ⟨w, s, t, rfl⟩ := Stroke.exists_of_settled? settles
  exact ⟨ks, c, w, s, t, r, v, hk, idle, e, he, g, last, same, p, hp, goes⟩

end DeskScript

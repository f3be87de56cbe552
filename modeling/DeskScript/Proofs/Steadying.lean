import DeskScript.Proofs.Enlisting
import DeskScript.Proofs.Strokes

/-! The registry while the loop of a run goes round: from the end of the first whole iteration on, the
end of every other finds it as that did, and in between the observers keep their order. -/

namespace DeskScript

open Registry (Change)

variable {setup : Setup} {m m' : Moment} {r : Run} {hs : List Happening} {e : Happening} {work : Work}

/-! ### Who changes the registry -/

namespace Happening

/-- The change that the happening makes to the registry. -/
def change? : Happening → Option Change
  | .asked .stop => some .clear
  | .asked _ | .shifted => none
  | .worked _ _ _ job => job.change?

/-- Whether the happening changes the registry and is no work of the loop of the run. -/
def meddles (r : Run) (e : Happening) : Bool :=
  e.change?.isSome &&
    match e with
    | .worked _ _ t _ => !t.isLoopOf r
    | .asked _ | .shifted => true

/-- The screen is as given, and nobody but the loop of the run changes the registry. -/
structure IsQuiet (screen : Element → Sighting) (r : Run) (e : Happening) : Prop where
  screen : ∀ w s t job, e = .worked w s t job → w.find = screen
  alone : e.meddles r = false

end Happening

namespace State

variable {s : State}

theorem change_registry (before after : Phase) (e : Event) :
    (s.change before after e).2.registry = s.registry := by
  unfold change transition
  by_cases hp : s.phase = before
  · rw [if_pos hp]
    rfl
  · rw [if_neg hp]

theorem start_registry (setup : Setup) (script : Script) (s : State) :
    (s.start setup script).2.registry = s.registry := by
  unfold start openRun
  split
  · by_cases hp : s.phase = .idle
    · rw [if_pos hp]
      rfl
    · rw [if_neg hp]
  · rfl

theorem stop_registry (s : State) : s.stop.registry = s.registry.clear := by
  have cleared : s.halt.2.clear.registry = s.registry.clear := by
    rw [clear_registry, halt_registry]
  unfold stop
  dsimp only
  split <;> exact cleared

end State

theorem Intervention.registry_take (s : State) (i : Intervention) : (i.take setup s).2.registry =
    (Happening.change? (.asked i)).elim s.registry (Change.apply s.registry) := by
  cases i with
  | start script => exact s.start_registry setup script
  | pause | resume => exact State.change_registry _ _ _
  | stop => exact s.stop_registry

/-- A happening changes the registry as it says. -/
theorem Moment.Step.registry (st : m.Step setup e m') :
    m'.state.registry = e.change?.elim m.state.registry (Change.apply m.state.registry) := by
  cases e with
  | worked w s t job =>
    obtain ⟨rest, -, rfl, ⟨threads, hs⟩, -⟩ := st.after
    rw [hs]
    exact job.registry_run setup w s
  | asked i =>
    cases st with
    | ask s i => exact i.registry_take s
  | shifted => cases st <;> rfl

/-! ### What the loop does to it -/

/-- Work that changes the registry of a run that goes on registers what it shows. -/
theorem Run.Keeps.change? {p : Piece} {rest : Work} (h : r.Keeps (p.job :: rest)) : p.job.change? =
    (p.mark?.bind Mark.enlisting?).map fun x => .register x.observer x.priority := by
  obtain ⟨ws, -, serves⟩ := h.cases_cons
  obtain ⟨w, s, job⟩ := p
  cases job with
  | clear =>
    rcases serves.decisive rfl with halt | ⟨o, enlist⟩
    · cases halt
    · cases enlist
  | decide lane q thens elses | aim step action since q | probe q => cases q <;> rfl
  | act step action since place =>
    simp only [Piece.mark?, Job.mark]
    split <;> rfl
  | tell e => cases e <;> rfl
  | _ => rfl

theorem Happening.eq_worked {p : Piece} (h : e.piece? r = some p) :
    ∃ t, e = .worked p.world p.state t p.job := by
  cases e with
  | worked w s t job =>
    simp only [piece?] at h
    split at h <;> cases h
    exact ⟨t, rfl⟩
  | asked | shifted => cases h

theorem Happening.change?_eq_none (alone : e.meddles r = false) (other : e.piece? r = none)
    (live : ∀ w s t job, e = .worked w s t job → s.isCancelled r.token = false) :
    e.change? = none := by
  cases e with
  | worked w s t job =>
    have live : s.isCancelled r.token = false := live w s t job rfl
    have foreign : t.isLoopOf r = false := by simpa [piece?, live] using other
    simpa [meddles, foreign] using alone
  | asked i => simpa [meddles] using alone
  | shifted => rfl

/-- While the run goes on and nobody else changes the registry, the loop registers what it shows. -/
theorem Moment.Loops.registry (loops : m.Loops r work) (sound : m.Sound) (st : m.Step setup e m')
    (live : m'.state.isCancelled r.token = false) (alone : e.meddles r = false) :
    m'.state.registry = m.state.registry.enlistAll (Piece.enlistings (e.piece? r).toList) := by
  rw [st.registry]
  cases loops.step sound st with
  | aside he _ =>
    have none : e.change? = none := by
      refine Happening.change?_eq_none alone he ?_
      rintro w s t job rfl
      obtain ⟨rfl, -⟩ := st.worked
      exact loops.live
    rw [he, none]
    rfl
  | own p rest he hw _ _ =>
    obtain ⟨t, rfl⟩ := Happening.eq_worked he
    have keeps : r.Keeps (p.job :: rest) := hw ▸ loops.keeps sound
    rw [he, Happening.change?, keeps.change?, Option.toList_some, Piece.enlistings_singleton]
    cases p.mark? with
    | none => rfl
    | some mark => cases mark <;> rfl
  | stopped _ _ hc | halted _ _ _ _ _ hc => exact absurd (hc.symm.trans live) (by simp)

/-- As long as a run goes on and nobody else changes the registry, it holds what the loop registered,
one after the other. -/
theorem Course.registry_eq (c : Course setup m hs m') (sound : m.Sound) (loops : m.Loops r work)
    (live : m'.state.isCancelled r.token = false) (alone : ∀ e ∈ hs, e.meddles r = false) :
    m'.state.registry = m.state.registry.enlistAll (Piece.enlistings (pieces r hs)) := by
  induction c with
  | refl => rfl
  | @snoc m₁ m₂ hs e c st ih =>
    have live₁ : m₁.state.isCancelled r.token = false := st.later.live live
    obtain ⟨before, last⟩ := List.forall_mem_append.mp alone
    obtain ⟨ps, work', -, -, -, ends⟩ := c.exists_goes sound loops
    obtain ⟨-, loops₁⟩ := ends live₁
    rw [loops₁.registry (c.sound sound) st live (last e (by simp)), ih live₁ before, pieces_snoc,
      Piece.enlistings_append, Registry.enlistAll_append]

/-! ### Whole iterations -/

/-- There is one loop, and it has one kind of work before it. -/
theorem Moment.Loops.unique {work' : Work} (h : m.Loops r work) (h' : m.Loops r work')
    (sound : m.Sound) : work = work' := by
  obtain ⟨t, ht, loop, rfl⟩ := h.loop
  obtain ⟨t', ht', loop', rfl⟩ := h'.loop
  have single := sound.single
  have mem : t ∈ m.threads.filter (·.role = .foreground) :=
    List.mem_filter.mpr ⟨ht, by simpa using (Thread.isLoopOf_iff.mp loop).1⟩
  have mem' : t' ∈ m.threads.filter (·.role = .foreground) :=
    List.mem_filter.mpr ⟨ht', by simpa using (Thread.isLoopOf_iff.mp loop').1⟩
  rw [List.countP_eq_length_filter] at single
  obtain ⟨u, only⟩ := List.length_eq_one_iff.mp
    (Nat.le_antisymm single (List.length_pos_of_mem mem))
  rw [only] at mem mem'
  rw [List.mem_singleton.mp mem, List.mem_singleton.mp mem']

/-- From one moment to the other the loop of the run goes through a whole iteration: it counts one, and
no pause cuts it short. -/
structure Run.Completes (setup : Setup) (r : Run) (m : Moment) (hs : List Happening) (m' : Moment) :
    Prop where
  course : Course setup m hs m'
  begins : m.Begins r
  ends : m'.Begins r
  one : m'.state.iterations = m.state.iterations + 1
  uncut : ∀ p ∈ Course.pieces r hs, p.isBarred = false

/-- A world with the screen, in which all that is asked succeeds. -/
def World.showing (screen : Element → Sighting) : World :=
  ⟨screen, fun _ => .ok (), fun _ _ => .ok (), fun _ => .ok ()⟩

variable {screen : Element → Sighting}

/-- The observers that a whole iteration registers when the screen is as given. -/
def Run.enlistings (screen : Element → Sighting) (r : Run) : List Enlisting :=
  (r.reading (.showing screen)).enlistings

theorem Course.isSteady {p : Piece} (c : Course setup m hs m') (sound : m.Sound)
    (hr : m.state.run = some r) (quiet : ∀ e ∈ hs, e.IsQuiet screen r) (hp : p ∈ pieces r hs) :
    p.IsSteady (.showing screen) r := by
  obtain ⟨live, t, before, -, he, -⟩ := c.of_mem_pieces hp
  exact ⟨c.run_of_mem_pieces sound hr hp, live, (quiet _ he).screen _ _ _ _ rfl⟩

/-- At the end of a whole iteration the registry holds the observers of the plain reading. -/
theorem Run.Completes.registry_eq (h : r.Completes setup m hs m') (sound : m.Sound)
    (quiet : ∀ e ∈ hs, e.IsQuiet screen r) :
    (r.reading (.showing screen)).stops = false ∧
      m'.state.registry = m.state.registry.enlistAll (r.enlistings screen) := by
  obtain ⟨pauses, hp, loops⟩ := h.begins
  obtain ⟨pauses', hp', loops'⟩ := h.ends
  obtain ⟨ps, work', goes, -, -, ends⟩ := h.course.exists_goes sound loops
  obtain ⟨rfl, last⟩ := ends loops'.live
  have final : Work.coming (.showing screen) work' = r.reading (.showing screen) := by
    rw [last.unique loops' (h.course.sound sound)]
    exact Work.coming_begins hp'
  have one := h.course.iterations_eq sound loops.run loops'.run
  rw [h.one] at one
  obtain ⟨unstopped, shown⟩ := (loops.keeps sound).enlistings_of_whole goes
    (fun p hp => h.course.isSteady sound loops.run quiet hp) h.uncut (Work.coming_begins hp) final
    (Nat.add_left_cancel one).symm
  refine ⟨unstopped, ?_⟩
  rw [h.course.registry_eq sound loops loops'.live fun e he => (quiet e he).alone, shown]
  rfl

/-- While the loop of the run goes round on one screen and nobody else changes the registry, it holds the
last observer of every name at the end of a whole iteration. From then on observers keep their names,
their priorities and their places, so that a tick looks at them in one order, and at the end of every
other whole iteration the registry is the same as at the end of that one. -/
theorem Run.Completes.steadies {m₀ m₁ m₂ : Moment} {hs₀ hs₁ hs₂ : List Happening}
    (first : r.Completes setup m₀ hs₁ m₁) (c₀ : Course setup .fresh hs₀ m₀)
    (quiet₁ : ∀ e ∈ hs₁, e.IsQuiet screen r) (c₂ : Course setup m₁ hs₂ m₂)
    (quiet₂ : ∀ e ∈ hs₂, e.IsQuiet screen r) :
    (∀ id x, Enlisting.last? id (r.enlistings screen) = some x →
      ∃ sequence, ⟨x.observer, true, x.priority, sequence⟩ ∈ m₁.state.registry.entries) ∧
    (m₂.state.isCancelled r.token = false →
      m₂.state.registry.lastSequence = m₁.state.registry.lastSequence ∧
      m₂.state.registry.entries.map Entry.rank = m₁.state.registry.entries.map Entry.rank ∧
      m₂.state.registry.candidates.map Entry.rank = m₁.state.registry.candidates.map Entry.rank) ∧
    ∀ hs₃ m₃, r.Completes setup m₂ hs₃ m₃ → (∀ e ∈ hs₃, e.IsQuiet screen r) →
      m₃.state.registry = m₁.state.registry := by
  have sound₀ : m₀.Sound := c₀.sound Moment.sound_fresh
  have sound₁ : m₁.Sound := first.course.sound sound₀
  have sound₂ : m₂.Sound := c₂.sound sound₁
  obtain ⟨unstopped, settled⟩ := first.registry_eq sound₀ quiet₁
  obtain ⟨pauses, hp, loops₁⟩ := first.ends
  -- What the loop registers in the meantime is known from the whole iteration.
  have between (live : m₂.state.isCancelled r.token = false) : ∃ again : List Enlisting,
      m₂.state.registry = m₁.state.registry.enlistAll again ∧ ∀ x ∈ again, x ∈ r.enlistings screen := by
    obtain ⟨ps, work, goes, -, -, ends⟩ := c₂.exists_goes sound₁ loops₁
    obtain ⟨rfl, -⟩ := ends live
    obtain ⟨known, -⟩ := (loops₁.keeps sound₁).within_of_goes goes
      (fun p hp => c₂.isSteady sound₁ loops₁.run quiet₂ hp) unstopped
      (Run.Keeps.within_of_begins unstopped (Work.coming_begins hp))
    exact ⟨_, c₂.registry_eq sound₁ loops₁ live fun e he => (quiet₂ e he).alone, known⟩
  have priority {x y : Enlisting} (hx : x ∈ r.enlistings screen) (hy : y ∈ r.enlistings screen)
      (same : y.id = x.id) : y.priority = x.priority := by
    rw [Forest.priority_of_mem _ hx, Forest.priority_of_mem _ hy, same]
  refine ⟨fun id x last => ?_, fun live => ?_, fun hs₃ m₃ second quiet₃ => ?_⟩
  · rw [settled]
    exact ⟨_, Registry.mem_enlistAll last⟩
  · obtain ⟨again, registered, known⟩ := between live
    obtain ⟨last, ranks⟩ := Registry.rank_again (r := m₀.state.registry)
      (fun x hx => ⟨x, known x hx, rfl⟩) fun x hx y hy => priority (known x hx) hy
    rw [← settled, ← registered] at last ranks
    exact ⟨last, ranks, Registry.candidates_of_rank ranks⟩
  · obtain ⟨pauses₂, -, loops₂⟩ := second.begins
    obtain ⟨again, registered, known⟩ := between loops₂.live
    obtain ⟨-, renewed⟩ := second.registry_eq sound₂ quiet₃
    calc m₃.state.registry
        = ((m₀.state.registry.enlistAll (r.enlistings screen)).enlistAll again).enlistAll
            (r.enlistings screen) := by rw [renewed, registered, settled]
      _ = m₀.state.registry.enlistAll (r.enlistings screen) :=
        Registry.enlistAll_again fun x hx => ⟨x, known x hx, rfl⟩
      _ = m₁.state.registry := settled.symm

/-! ### A name that is registered twice -/

/-- Whether the loop of the run is just before an iteration. -/
def Moment.atStart (r : Run) (m : Moment) : Bool :=
  m.threads.all fun t => !t.isLoopOf r ||
    match t.work with
    | .iterate _ :: _ => true
    | _ => false

theorem Moment.Loops.begins (h : m.Loops r work) (sound : m.Sound) (start : m.atStart r = true) :
    m.Begins r := by
  obtain ⟨t, ht, loop, hw⟩ := h.loop
  have start := List.all_eq_true.mp start t ht
  rw [loop, hw] at start
  obtain ⟨job, rest, rfl⟩ := List.exists_cons_of_ne_nil h.ne_nil
  obtain ⟨ws, rfl, serves⟩ := (h.keeps sound).cases_cons
  cases job with
  | iterate r' =>
    rcases serves.cases_cons with ⟨pause, -⟩ | ⟨begin, rfl⟩ | ⟨-, own | own, -⟩ | ⟨ws, -, walk⟩ |
      ⟨finish, -⟩
    · cases pause
    · cases begin
      exact ⟨[], by simp, h⟩
    · cases own
    · cases own
    · exact absurd walk.head id
    · cases finish
  | _ => cases start

/-- Whether the loop of the run came round once, while nobody else changed the registry. -/
def Course.isRound (r : Run) (m : Moment) (hs : List Happening) (m' : Moment) : Bool :=
  hs.all (!·.meddles r) && (pieces r hs).all (!·.isBarred) && !m'.state.isCancelled r.token &&
    m'.atStart r && m'.state.iterations == m.state.iterations + 1

theorem Run.Completes.of_isRound {w : World} (c : Course setup m hs m') (sound : m.Sound)
    (begins : m.Begins r) (steady : ∀ e ∈ hs, e.IsIn w) (round : Course.isRound r m hs m' = true) :
    r.Completes setup m hs m' ∧ ∀ e ∈ hs, e.IsQuiet w.find r := by
  simp only [Course.isRound, Bool.and_eq_true, List.all_eq_true, Bool.not_eq_true',
    beq_iff_eq] at round
  obtain ⟨⟨⟨⟨alone, uncut⟩, live⟩, start⟩, one⟩ := round
  obtain ⟨pauses, hp, loops⟩ := begins
  obtain ⟨ps, work', -, -, -, ends⟩ := c.exists_goes sound loops
  obtain ⟨-, last⟩ := ends live
  refine ⟨⟨c, ⟨pauses, hp, loops⟩, last.begins (c.sound sound) start, one, uncut⟩, fun e he => ?_⟩
  refine ⟨fun w' s t job h => ?_, alone e he⟩
  rw [steady e he w' s t job h]

/-- A script with two observers of one name and another one between them. -/
def Script.twins : Script :=
  let eye (id : String) (place : Coordinate) : Step :=
    .observer ⟨id, none, none, none⟩ (.present (.position place)) []
  { (default : Script) with
    name := "twins"
    steps := [eye "twin" ⟨1, 1⟩,
      .group ⟨"group", none, none, none⟩ "" [eye "single" ⟨2, 2⟩, eye "twin" ⟨3, 3⟩]] }

/-- In every iteration the one of the name takes the place of the other, and at the end of all of them
the registry is the same. -/
theorem steadies_twins :
    ∃ screen r m₀ m₁ m₂ m₃ hs₀ hs₁ hs₂ hs₃, Course ⟨{}, 500, true⟩ .fresh hs₀ m₀ ∧
      r.Completes ⟨{}, 500, true⟩ m₀ hs₁ m₁ ∧ (∀ e ∈ hs₁, e.IsQuiet screen r) ∧
      Course ⟨{}, 500, true⟩ m₁ hs₂ m₂ ∧ (∀ e ∈ hs₂, e.IsQuiet screen r) ∧
      r.Completes ⟨{}, 500, true⟩ m₂ hs₃ m₃ ∧ (∀ e ∈ hs₃, e.IsQuiet screen r) ∧
      (Piece.enlistings (Course.pieces r hs₃)).map Enlisting.id = ["twin", "single", "twin"] ∧
      m₂.state.registry.candidates.map Entry.rank = m₁.state.registry.candidates.map Entry.rank ∧
      m₃.state.registry = m₁.state.registry := by
  let w : World := .showing fun _ => .ok none
  let r : Run := ⟨0, Script.twins.withDefaults⟩
  let m₀ : Moment := ⟨(({} : State).start ⟨{}, 500, true⟩ .twins).2, none⟩
  let round : List Choice := List.replicate 37 .go ++ [.turn 1, .go]
  let third (m₂ : Moment) (hs₃ : List Happening) (m₃ : Moment) : Bool :=
    Course.isRound r m₂ hs₃ m₃ &&
      (Piece.enlistings (Course.pieces r hs₃)).map Enlisting.id == ["twin", "single", "twin"]
  let second (m₁ : Moment) (hs₂ : List Happening) (m₂ : Moment) : Bool :=
    Course.isRound r m₁ hs₂ m₂ && (m₂.follow ⟨{}, 500, true⟩ w round).any fun c => third m₂ c.1 c.2
  have c₀ : Course ⟨{}, 500, true⟩ .fresh _ m₀ := .single (.ask {} (.start .twins))
  have sound₀ : m₀.Sound := c₀.sound Moment.sound_fresh
  have begins : m₀.Begins r := (Moment.begins_start State.orderly_fresh rfl).1
  obtain ⟨hs₁, m₁, c₁, steady₁, found₁⟩ := @Moment.exists_course ⟨{}, 500, true⟩ m₀ w
    (.turn 0 :: round)
    (fun hs₁ m₁ => Course.isRound r m₀ hs₁ m₁ &&
      (m₁.follow ⟨{}, 500, true⟩ w round).any fun c => second m₁ c.1 c.2)
    (by decide +kernel)
  obtain ⟨round₁, found₁⟩ := Bool.and_eq_true_iff.mp found₁
  obtain ⟨hs₂, m₂, c₂, steady₂, found₂⟩ := Moment.exists_course w _ (second m₁) found₁
  obtain ⟨round₂, found₂⟩ := Bool.and_eq_true_iff.mp found₂
  obtain ⟨hs₃, m₃, c₃, steady₃, found₃⟩ := Moment.exists_course w _ (third m₂) found₂
  obtain ⟨round₃, names⟩ := Bool.and_eq_true_iff.mp found₃
  obtain ⟨whole₁, quiet₁⟩ := Run.Completes.of_isRound c₁ sound₀ begins steady₁ round₁
  have sound₁ : m₁.Sound := c₁.sound sound₀
  obtain ⟨whole₂, quiet₂⟩ := Run.Completes.of_isRound c₂ sound₁ whole₁.ends steady₂ round₂
  obtain ⟨whole₃, quiet₃⟩ :=
    Run.Completes.of_isRound c₃ (c₂.sound sound₁) whole₂.ends steady₃ round₃
  obtain ⟨pauses, -, loops⟩ := whole₂.ends
  obtain ⟨-, between, rounds⟩ := whole₁.steadies c₀ quiet₁ c₂ quiet₂
  obtain ⟨-, -, candidates⟩ := between loops.live
  exact ⟨w.find, r, m₀, m₁, m₂, m₃, _, hs₁, hs₂, hs₃, c₀, whole₁, quiet₁, c₂, quiet₂, whole₃, quiet₃,
    beq_iff_eq.mp names, candidates, rounds hs₃ m₃ whole₃ quiet₃⟩

end DeskScript

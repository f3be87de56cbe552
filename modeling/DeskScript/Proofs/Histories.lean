import DeskScript.Proofs.Enrolment

/-! What a history of changes says of an observer, told by the changes in it: which registration was
the last, whether it has been switched off since, and which one its name came in with. -/

namespace DeskScript

namespace Registry

variable {past : List Change} {r : Registry} {id : String} {c : Change} {o : Observer}
  {priority : Int32} {active : Bool} {n : Nat}

/-! ### Reading a history -/

namespace Change

/-- The change registers an observer called `id`. -/
def Registers (id : String) (c : Change) : Prop := ∃ o priority, c = .register o priority ∧ o.id = id

/-- The change leaves no observer called `id`. -/
def Removes (id : String) (c : Change) : Prop := c = .unregister id ∨ c = .clear

/-- Whether the change switches the observer called `id` on or off. -/
def switch? (id : String) : Change → Option Bool
  | .setActive name active => if name = id then some active else none
  | _ => none

end Change

/-- The observer was the last to be registered under its name, which has not been removed since, and it
is active as it was switched last, if it has been switched at all. -/
def Tells (past : List Change) (o : Observer) (priority : Int32) (active : Bool) : Prop :=
  ∃ newer c older, past = newer ++ c :: older ∧ c = .register o priority ∧
    (∀ x ∈ newer, ¬ x.Registers o.id ∧ ¬ x.Removes o.id) ∧
    active = (newer.findSome? (Change.switch? o.id)).getD true

/-- Somebody was registered under the name `id`, which has not been removed since. -/
def IsIn (id : String) (past : List Change) : Prop :=
  ∃ newer c older, past = newer ++ c :: older ∧ c.Registers id ∧ ∀ x ∈ newer, ¬ x.Removes id

/-- The name `id` came in with the registration that had `n` changes before it: it was not in at that
time, and it has not been removed since. -/
def CameIn (id : String) (past : List Change) (n : Nat) : Prop :=
  ∃ newer c older, past = newer ++ c :: older ∧ c.Registers id ∧ (∀ x ∈ newer, ¬ x.Removes id) ∧
    ¬ IsIn id older ∧ n = older.length

/-- Somebody was registered since the registry was cleared last. -/
def IsInUse (past : List Change) : Prop :=
  ∃ newer c older, past = newer ++ c :: older ∧ (∃ o priority, c = .register o priority) ∧
    ∀ x ∈ newer, x ≠ .clear

/-! ### One change more -/

/-- A history is cut at its last change or further back. -/
theorem exists_cut_cons {P : List Change → Change → List Change → Prop} :
    (∃ newer x older, c :: past = newer ++ x :: older ∧ P newer x older) ↔
      P [] c past ∨ ∃ newer x older, past = newer ++ x :: older ∧ P (c :: newer) x older := by
  constructor
  · rintro ⟨newer, x, older, cut, h⟩
    cases newer with
    | nil =>
      obtain ⟨rfl, rfl⟩ := List.cons.inj cut
      exact .inl h
    | cons y newer =>
      obtain ⟨rfl, rfl⟩ := List.cons.inj cut
      exact .inr ⟨newer, x, older, rfl, h⟩
  · rintro (h | ⟨newer, x, older, rfl, h⟩)
    · exact ⟨[], c, past, rfl, h⟩
    · exact ⟨c :: newer, x, older, rfl, h⟩

/-- The same where what is newer than the cut has one property throughout. -/
theorem exists_cut_since {P : Change → List Change → Prop} {Q : Change → Prop} :
    (∃ newer x older, c :: past = newer ++ x :: older ∧ P x older ∧ ∀ y ∈ newer, Q y) ↔
      P c past ∨ Q c ∧ ∃ newer x older, past = newer ++ x :: older ∧ P x older ∧ ∀ y ∈ newer, Q y := by
  rw [exists_cut_cons]
  refine or_congr (by simp) ?_
  constructor
  · rintro ⟨newer, x, older, cut, holds, stays⟩
    rw [List.forall_mem_cons] at stays
    exact ⟨stays.1, newer, x, older, cut, holds, stays.2⟩
  · rintro ⟨first, newer, x, older, cut, holds, stays⟩
    exact ⟨newer, x, older, cut, holds, List.forall_mem_cons.mpr ⟨first, stays⟩⟩

theorem not_isIn_nil : ¬ IsIn id [] := by
  rintro ⟨newer, c, older, cut, -⟩
  simp at cut

theorem not_cameIn_nil : ¬ CameIn id [] n := by
  rintro ⟨newer, c, older, cut, -⟩
  simp at cut

theorem not_tells_nil : ¬ Tells [] o priority active := by
  rintro ⟨newer, c, older, cut, -⟩
  simp at cut

theorem not_isInUse_nil : ¬ IsInUse [] := by
  rintro ⟨newer, c, older, cut, -⟩
  simp at cut

theorem isInUse_cons : IsInUse (c :: past) ↔
    (∃ o priority, c = .register o priority) ∨ c ≠ .clear ∧ IsInUse past :=
  @exists_cut_since past c (fun x _ => ∃ o priority, x = .register o priority) (· ≠ .clear)

theorem isIn_cons : IsIn id (c :: past) ↔ c.Registers id ∨ ¬ c.Removes id ∧ IsIn id past :=
  @exists_cut_since past c (fun x _ => x.Registers id) (¬ ·.Removes id)

theorem cameIn_cons : CameIn id (c :: past) n ↔
    (c.Registers id ∧ ¬ IsIn id past ∧ n = past.length) ∨ ¬ c.Removes id ∧ CameIn id past n := by
  have since (past : List Change) : CameIn id past n ↔ ∃ newer x older, past = newer ++ x :: older ∧
      (x.Registers id ∧ ¬ IsIn id older ∧ n = older.length) ∧ ∀ y ∈ newer, ¬ y.Removes id := by
    simp only [CameIn, and_assoc, and_comm, and_left_comm]
  rw [since, since]
  exact exists_cut_since

theorem tells_cons : Tells (c :: past) o priority active ↔
    (c = .register o priority ∧ active = true) ∨
      (¬ c.Registers o.id ∧ ¬ c.Removes o.id) ∧
        ∃ before, Tells past o priority before ∧ active = (c.switch? o.id).getD before := by
  rw [Tells, exists_cut_cons]
  refine or_congr (by simp) ?_
  constructor
  · rintro ⟨newer, x, older, cut, registers, stays, rfl⟩
    rw [List.forall_mem_cons] at stays
    refine ⟨stays.1, _, ⟨newer, x, older, cut, registers, stays.2, rfl⟩, ?_⟩
    rw [List.findSome?_cons]
    cases c.switch? o.id <;> rfl
  · rintro ⟨first, _, ⟨newer, x, older, cut, registers, stays, rfl⟩, rfl⟩
    refine ⟨newer, x, older, cut, registers, List.forall_mem_cons.mpr ⟨first, stays⟩, ?_⟩
    rw [List.findSome?_cons]
    cases c.switch? o.id <;> rfl

/-! ### What stands -/

theorem isSome_standing : (standing id past).isSome ↔ IsIn id past := by
  induction past with
  | nil => simp [standing, not_isIn_nil]
  | cons c past ih =>
    rw [isIn_cons, ← ih]
    cases c with
    | register o p => by_cases same : o.id = id <;> simp [standing, Change.Registers, Change.Removes, same]
    | unregister name =>
      by_cases same : name = id <;> simp [standing, Change.Registers, Change.Removes, same]
    | setActive name a =>
      by_cases same : name = id <;> simp [standing, Change.Registers, Change.Removes, same]
    | clear => simp [standing, Change.Registers, Change.Removes]

/-- A name that stands came in with the registration that is noted with it. -/
theorem standing_since : (standing id past).map Standing.since = some n ↔ CameIn id past n := by
  induction past generalizing n with
  | nil => simp [standing, not_cameIn_nil]
  | cons c past ih =>
    rw [cameIn_cons, ← ih, ← isSome_standing]
    cases c with
    | register o p =>
      by_cases same : o.id = id
      · cases hs : standing id past <;>
          simp [standing, Change.Registers, Change.Removes, same, hs, eq_comm]
      · simp [standing, Change.Registers, Change.Removes, same]
    | unregister name =>
      by_cases same : name = id <;> simp [standing, Change.Registers, Change.Removes, same]
    | setActive name a =>
      by_cases same : name = id <;>
        simp [standing, Change.Registers, Change.Removes, same, Function.comp_def]
    | clear => simp [standing, Change.Registers, Change.Removes]

/-- What stands under a name is what the history tells. -/
theorem standing_tells :
    (∃ since, standing o.id past = some ⟨o, active, priority, since⟩) ↔
      Tells past o priority active := by
  induction past generalizing active with
  | nil => simp [standing, not_tells_nil]
  | cons c past ih =>
    simp only [tells_cons, ← ih]
    cases c with
    | register o' p =>
      by_cases same : o'.id = o.id
      · simp [standing, Change.Registers, Change.Removes, same, eq_comm, and_left_comm, and_comm]
      · have other : o' ≠ o := fun h => same (h ▸ rfl)
        simp [standing, Change.Registers, Change.Removes, Change.switch?, same, other]
    | unregister name =>
      by_cases same : name = o.id <;>
        simp [standing, Change.Registers, Change.Removes, Change.switch?, same]
    | setActive name a =>
      by_cases same : name = o.id
      · have switched : (∃ since, standing o.id (.setActive name a :: past) =
            some ⟨o, active, priority, since⟩) ↔
              ∃ before since, standing o.id past = some ⟨o, before, priority, since⟩ ∧ active = a := by
          simp only [standing, same, if_true, Option.map_eq_some_iff]
          constructor
          · rintro ⟨_, ⟨_, before, _, since⟩, hs, ⟨⟩⟩
            exact ⟨before, since, hs, rfl⟩
          · rintro ⟨before, since, hs, rfl⟩
            exact ⟨since, _, hs, rfl⟩
        rw [switched]
        simp [Change.Registers, Change.Removes, Change.switch?, same]
      · simp [standing, Change.Registers, Change.Removes, Change.switch?, same]
    | clear => simp [standing, Change.Registers, Change.Removes]

/-! ### What the registry holds -/

namespace Records

/-- The registry holds what the history tells. -/
theorem mem_iff (h : Records past r) : (∃ sequence, ⟨o, active, priority, sequence⟩ ∈ r.entries) ↔
    Tells past o priority active := by
  rw [← standing_tells]
  constructor
  · rintro ⟨sequence, he⟩
    obtain ⟨st, hs, observer, switched, prior⟩ := h.fits _ he
    obtain ⟨o', active', priority', since⟩ := st
    obtain rfl : o' = o := observer
    obtain rfl : active' = active := switched
    obtain rfl : priority' = priority := prior
    exact ⟨since, hs⟩
  · rintro ⟨since, hs⟩
    obtain ⟨e, he, same⟩ := h.held _ _ hs
    obtain ⟨st, hs', observer, switched, prior⟩ := h.fits e he
    rw [same, hs] at hs'
    cases hs'
    obtain ⟨o', active', priority', sequence⟩ := e
    obtain rfl : o = o' := observer
    obtain rfl : active = active' := switched
    obtain rfl : priority = priority' := prior
    exact ⟨sequence, he⟩

/-- Every name that is there came in at some time. -/
theorem cameIn (h : Records past r) {e : Entry} (he : e ∈ r.entries) : ∃ n, CameIn e.id past n := by
  obtain ⟨st, hs, -⟩ := h.fits e he
  exact ⟨st.since, standing_since.mp (by rw [hs]; rfl)⟩

/-- The entries are in the order in which their names came in. -/
theorem sequence_lt_iff (h : Records past r) {e f : Entry} (he : e ∈ r.entries)
    (hf : f ∈ r.entries) {n m : Nat} (hn : CameIn e.id past n) (hm : CameIn f.id past m) :
    e.sequence < f.sequence ↔ n < m := by
  obtain ⟨st, hs, rfl⟩ := Option.map_eq_some_iff.mp (standing_since.mpr hn)
  obtain ⟨su, hu, rfl⟩ := Option.map_eq_some_iff.mp (standing_since.mpr hm)
  by_cases same : e.id = f.id
  · obtain rfl : e = f := List.inj_on_of_nodup_map h.names he hf same
    obtain rfl : st = su := Option.some.inj (hs.symm.trans hu)
    simp
  · exact (h.order e he f hf same st su hs hu).1

end Records

end Registry

end DeskScript

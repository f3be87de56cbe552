import DeskScript.Watch.Registry
import Mathlib.Data.List.Nodup

/-! The registry after any history of changes: it holds what the history says of each name, and its
sequence numbers follow the order in which the names came in. -/

namespace DeskScript

namespace Registry

/-- What is asked of the registry. -/
inductive Change where
  | register (observer : Observer) (priority : Int32)
  | unregister (id : String)
  | setActive (id : String) (active : Bool)
  | clear

def Change.apply (r : Registry) : Change → Registry
  | register o priority => r.register o priority
  | unregister id => r.unregister id
  | setActive id active => r.setActive id active
  | clear => r.clear

/-- The registry after the changes of the past, the last of them first. -/
def after : (past : List Change) → Registry
  | [] => {}
  | c :: past => c.apply (after past)

/-- An observer that is registered: how it was registered last, whether it is active, and how many
changes there were before its name came in. -/
structure Standing where
  observer : Observer
  active : Bool
  priority : Int32
  since : Nat

/-- What the past says of the name `id`. To be registered again under a name changes nothing in when
that name came in. -/
def standing (id : String) : (past : List Change) → Option Standing
  | [] => none
  | .register o priority :: past =>
    if o.id = id then
      some ⟨o, true, priority, ((standing id past).map Standing.since).getD past.length⟩
    else standing id past
  | .unregister name :: past => if name = id then none else standing id past
  | .setActive name active :: past =>
    if name = id then (standing id past).map ({ · with active }) else standing id past
  | .clear :: _ => none

end Registry

def Entry.id (e : Entry) : String := e.observer.id

namespace Registry

variable {r : Registry} {past : List Change}

/-! ### Single changes -/

theorem find?_eq_none {id : String} : r.find? id = none ↔ ∀ e ∈ r.entries, e.id ≠ id := by
  simp [find?, Entry.id]

theorem mem_of_find? {id : String} {e : Entry} (h : r.find? id = some e) :
    e ∈ r.entries ∧ e.id = id :=
  ⟨List.mem_of_find?_eq_some h, by simpa [Entry.id] using List.find?_some h⟩

/-- The sequence number that an observer called `id` has or gets. -/
def sequenceOf (r : Registry) (id : String) : Nat :=
  ((r.find? id).map Entry.sequence).getD (r.lastSequence + 1)

theorem mem_register {o : Observer} {priority : Int32} {e : Entry} :
    e ∈ (r.register o priority).entries ↔
      e ∈ r.entries ∧ e.id ≠ o.id ∨ e = ⟨o, true, priority, r.sequenceOf o.id⟩ := by
  unfold register sequenceOf
  cases hf : r.find? o.id with
  | none =>
    have fresh := find?_eq_none.mp hf
    simp only [List.mem_append, List.mem_singleton, Option.map_none, Option.getD_none]
    exact or_congr_left ⟨fun he => ⟨he, fresh e he⟩, fun he => he.1⟩
  | some old =>
    obtain ⟨hm, hid⟩ := mem_of_find? hf
    simp only [List.mem_map, Option.map_some, Option.getD_some]
    constructor
    · rintro ⟨e', he', rfl⟩
      by_cases same : e'.observer.id = o.id
      · exact .inr (by simp [same])
      · exact .inl (by simpa [same, Entry.id] using he')
    · rintro (⟨he, other⟩ | rfl)
      · exact ⟨e, he, if_neg (by simpa [Entry.id] using other)⟩
      · exact ⟨old, hm, if_pos (by simpa [Entry.id] using hid)⟩

theorem mem_unregister {id : String} {e : Entry} :
    e ∈ (r.unregister id).entries ↔ e ∈ r.entries ∧ e.id ≠ id := by
  simp [unregister, Entry.id]

theorem mem_setActive {id : String} {active : Bool} {e : Entry} :
    e ∈ (r.setActive id active).entries ↔
      e ∈ r.entries ∧ e.id ≠ id ∨ ∃ e' ∈ r.entries, e'.id = id ∧ e = { e' with active } := by
  simp only [setActive, List.mem_map, beq_iff_eq]
  constructor
  · rintro ⟨e', he', rfl⟩
    by_cases same : e'.observer.id = id
    · exact .inr ⟨e', he', same, by simp [same]⟩
    · exact .inl (by simpa [same, Entry.id] using he')
  · rintro (⟨he, other⟩ | ⟨e', he', same, rfl⟩)
    · exact ⟨e, he, if_neg other⟩
    · exact ⟨e', he', if_pos same⟩

theorem names_register (o : Observer) (priority : Int32) :
    (r.register o priority).entries.map Entry.id =
      if (r.find? o.id).isSome then r.entries.map Entry.id else r.entries.map Entry.id ++ [o.id] := by
  unfold register
  cases hf : r.find? o.id with
  | none => simp [Entry.id]
  | some old =>
    simp only [Option.isSome_some, if_true, List.map_map]
    apply List.map_congr_left
    intro e _
    by_cases same : e.observer.id = o.id <;> simp [Entry.id, same]

theorem names_setActive (id : String) (active : Bool) :
    (r.setActive id active).entries.map Entry.id = r.entries.map Entry.id := by
  simp only [setActive, List.map_map]
  apply List.map_congr_left
  intro e _
  by_cases same : e.observer.id = id <;> simp [Entry.id, same]

/-! ### Histories -/

/-- What an entry has in common with what the past says of its name. -/
structure Standing.Fits (st : Standing) (e : Entry) : Prop where
  observer : st.observer = e.observer
  active : st.active = e.active
  priority : st.priority = e.priority

/-- The registry holds what the past says. -/
structure Records (past : List Change) (r : Registry) : Prop where
  names : (r.entries.map Entry.id).Nodup
  given : ∀ e ∈ r.entries, e.sequence ≤ r.lastSequence
  fits : ∀ e ∈ r.entries, ∃ st, standing e.id past = some st ∧ st.Fits e
  held : ∀ id st, standing id past = some st → ∃ e ∈ r.entries, e.id = id
  since : ∀ id st, standing id past = some st → st.since < past.length
  /-- Of two names the one that came in first has the smaller sequence number. -/
  order : ∀ e ∈ r.entries, ∀ f ∈ r.entries, e.id ≠ f.id → ∀ st su, standing e.id past = some st →
    standing f.id past = some su →
      (e.sequence < f.sequence ↔ st.since < su.since) ∧ st.since ≠ su.since

theorem records_fresh : Records [] {} := by
  constructor <;> simp [standing]

theorem records_clear (past : List Change) (r : Registry) : Records (.clear :: past) r.clear := by
  constructor <;> simp [standing, clear]

theorem Records.unregister (h : Records past r) (id : String) :
    Records (.unregister id :: past) (r.unregister id) := by
  have other {name : String} {st : Standing} (hs : standing name (.unregister id :: past) = some st) :
      name ≠ id ∧ standing name past = some st := by
    by_cases same : id = name <;> simp_all [standing, eq_comm]
  constructor
  · exact h.names.sublist (List.filter_sublist.map _)
  · exact fun e he => h.given e (mem_unregister.mp he).1
  · intro e he
    obtain ⟨he, hid⟩ := mem_unregister.mp he
    obtain ⟨st, hs, fits⟩ := h.fits e he
    exact ⟨st, by simpa [standing, hid.symm] using hs, fits⟩
  · intro name st hs
    obtain ⟨hn, hs⟩ := other hs
    obtain ⟨e, he, rfl⟩ := h.held name st hs
    exact ⟨e, mem_unregister.mpr ⟨he, hn⟩, rfl⟩
  · intro name st hs
    exact Nat.lt_succ_of_lt (h.since name st (other hs).2)
  · intro e he f hf hn st su hs hu
    exact h.order e (mem_unregister.mp he).1 f (mem_unregister.mp hf).1 hn st su (other hs).2
      (other hu).2

theorem Records.setActive (h : Records past r) (id : String) (active : Bool) :
    Records (.setActive id active :: past) (r.setActive id active) := by
  -- Neither a name nor when it came in is touched.
  have before {name : String} {st : Standing}
      (hs : standing name (.setActive id active :: past) = some st) :
      ∃ st', standing name past = some st' ∧ st'.since = st.since := by
    by_cases same : id = name
    · simp only [standing, same, if_true] at hs
      obtain ⟨st', hs', rfl⟩ := Option.map_eq_some_iff.mp hs
      exact ⟨st', hs', rfl⟩
    · exact ⟨st, by simpa [standing, same] using hs, rfl⟩
  have entry {e : Entry} (he : e ∈ (r.setActive id active).entries) :
      ∃ e' ∈ r.entries, e'.id = e.id ∧ e'.sequence = e.sequence := by
    rcases mem_setActive.mp he with ⟨he, -⟩ | ⟨e', he', -, rfl⟩
    · exact ⟨e, he, rfl, rfl⟩
    · exact ⟨e', he', rfl, rfl⟩
  constructor
  · rw [names_setActive]
    exact h.names
  · intro e he
    obtain ⟨e', he', -, hq⟩ := entry he
    exact hq ▸ h.given e' he'
  · intro e he
    rcases mem_setActive.mp he with ⟨he, hid⟩ | ⟨e', he', hid, rfl⟩
    · obtain ⟨st, hs, fits⟩ := h.fits e he
      exact ⟨st, by simpa [standing, hid.symm] using hs, fits⟩
    · obtain ⟨st, hs, fits⟩ := h.fits e' he'
      have hid' : id = e'.observer.id := hid.symm
      refine ⟨{ st with active }, ?_, fits.observer, rfl, fits.priority⟩
      have hs : standing e'.observer.id past = some st := hs
      simp [standing, Entry.id, hid', hs]
  · intro name st hs
    obtain ⟨st', hs', -⟩ := before hs
    have mem : name ∈ (r.setActive id active).entries.map Entry.id := by
      obtain ⟨e, he, rfl⟩ := h.held name st' hs'
      rw [names_setActive]
      exact List.mem_map_of_mem he
    obtain ⟨e, he, hn⟩ := List.mem_map.mp mem
    exact ⟨e, he, hn⟩
  · intro name st hs
    obtain ⟨st', hs', hq⟩ := before hs
    exact hq ▸ Nat.lt_succ_of_lt (h.since name st' hs')
  · intro e he f hf hn st su hs hu
    obtain ⟨e', he', hie, hqe⟩ := entry he
    obtain ⟨f', hf', hif, hqf⟩ := entry hf
    obtain ⟨st', hs', hqs⟩ := before hs
    obtain ⟨su', hu', hqu⟩ := before hu
    rw [← hqe, ← hqf, ← hqs, ← hqu]
    exact h.order e' he' f' hf' (by rwa [hie, hif]) st' su' (hie ▸ hs') (hif ▸ hu')

/-- A name that is there keeps its sequence number, and a new one gets a number that is greater than
all others; it is the same with when the names came in. -/
theorem Records.order_register (h : Records past r) {o : Observer} {priority : Int32} {e : Entry}
    (he : e ∈ r.entries) (hn : e.id ≠ o.id) {st su : Standing} (hs : standing e.id past = some st)
    (hu : standing o.id (.register o priority :: past) = some su) :
    (e.sequence < r.sequenceOf o.id ↔ st.since < su.since) ∧
      (r.sequenceOf o.id < e.sequence ↔ su.since < st.since) ∧ st.since ≠ su.since := by
  obtain rfl : _ = su := by simpa [standing] using hu
  dsimp only
  cases hf : r.find? o.id with
  | none =>
    have unknown : standing o.id past = none := by
      cases hp : standing o.id past with
      | none => rfl
      | some st' =>
        obtain ⟨e', he', hid⟩ := h.held _ _ hp
        exact absurd hid (find?_eq_none.mp hf e' he')
    have lt := h.since _ _ hs
    have le := h.given e he
    simp only [sequenceOf, hf, unknown, Option.map_none, Option.getD_none]
    omega
  | some old =>
    obtain ⟨hm, hid⟩ := mem_of_find? hf
    obtain ⟨so, ho, -⟩ := h.fits old hm
    have hn : e.id ≠ old.id := by rwa [hid]
    obtain ⟨less, apart⟩ := h.order e he old hm hn st so hs ho
    obtain ⟨more, -⟩ := h.order old hm e he hn.symm so st ho hs
    rw [hid] at ho
    simp only [sequenceOf, hf, ho, Option.map_some, Option.getD_some]
    exact ⟨less, more, apart⟩

theorem Records.register (h : Records past r) (o : Observer) (priority : Int32) :
    Records (.register o priority :: past) (r.register o priority) := by
  have other {name : String} (hn : name ≠ o.id) :
      standing name (.register o priority :: past) = standing name past := by
    simp [standing, hn.symm]
  have last : r.lastSequence ≤ (r.register o priority).lastSequence ∧
      r.sequenceOf o.id ≤ (r.register o priority).lastSequence := by
    unfold Registry.register sequenceOf
    cases hf : r.find? o.id with
    | none => simp
    | some old => exact ⟨Nat.le_refl _, h.given old (mem_of_find? hf).1⟩
  constructor
  · rw [names_register]
    split
    · exact h.names
    · rename_i hf
      rw [Bool.not_eq_true, Option.isSome_eq_false_iff, Option.isNone_iff_eq_none, find?_eq_none] at hf
      refine List.nodup_append.mpr ⟨h.names, by simp, ?_⟩
      intro a ha b hb
      obtain ⟨e, he, rfl⟩ := List.mem_map.mp ha
      rw [List.mem_singleton.mp hb]
      exact hf e he
  · intro e he
    rcases mem_register.mp he with ⟨he, -⟩ | rfl
    · exact Nat.le_trans (h.given e he) last.1
    · exact last.2
  · intro e he
    rcases mem_register.mp he with ⟨he, hn⟩ | rfl
    · rw [other hn]
      exact h.fits e he
    · exact ⟨_, if_pos rfl, rfl, rfl, rfl⟩
  · intro name st hs
    by_cases hn : name = o.id
    · exact ⟨_, mem_register.mpr (.inr rfl), hn.symm⟩
    · obtain ⟨e, he, rfl⟩ := h.held name st (other hn ▸ hs)
      exact ⟨e, mem_register.mpr (.inl ⟨he, hn⟩), rfl⟩
  · intro name st hs
    by_cases hn : name = o.id
    · obtain rfl : _ = st := by simpa [standing, hn] using hs
      cases hp : standing o.id past with
      | none => simp
      | some st' => simpa [hp] using Nat.lt_succ_of_lt (h.since _ _ hp)
    · exact Nat.lt_succ_of_lt (h.since name st (other hn ▸ hs))
  · intro e he f hf hn st su hs hu
    rcases mem_register.mp he with ⟨he, hne⟩ | rfl <;> rcases mem_register.mp hf with ⟨hf, hnf⟩ | rfl
    · exact h.order e he f hf hn st su (other hne ▸ hs) (other hnf ▸ hu)
    · obtain ⟨less, -, apart⟩ := h.order_register he hne (other hne ▸ hs) hu
      exact ⟨less, apart⟩
    · obtain ⟨-, more, apart⟩ := h.order_register hf hnf (other hnf ▸ hu) hs
      exact ⟨more, apart.symm⟩
    · exact absurd rfl hn

/-- Whatever was asked of the registry, it holds what the past says. -/
theorem records_after (past : List Change) : Records past (after past) := by
  induction past with
  | nil => exact records_fresh
  | cons c past ih =>
    cases c with
    | register o priority => exact ih.register o priority
    | unregister id => exact ih.unregister id
    | setActive id active => exact ih.setActive id active
    | clear => exact records_clear past _

end Registry

end DeskScript

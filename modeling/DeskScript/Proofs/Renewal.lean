import DeskScript.Proofs.Enrolment
import Mathlib.Data.List.Induction

/-! Observers that are registered again. A name that is there keeps its place and its sequence number,
and once all observers are registered again in the same order the registry is as it was. -/

namespace DeskScript

/-- An observer with the priority that it is registered with. -/
structure Enlisting where
  observer : Observer
  priority : Int32

def Enlisting.id (x : Enlisting) : String := x.observer.id

/-- All of an entry that tells when it is looked at, so all but what it looks for and its steps. -/
structure Rank where
  id : String
  active : Bool
  priority : Int32
  sequence : Nat

def Entry.rank (e : Entry) : Rank := ⟨e.id, e.active, e.priority, e.sequence⟩

variable {r : Registry} {o : Observer} {priority : Int32} {id : String} {e : Entry} {x : Enlisting}
  {xs again : List Enlisting}

/-! ### The last of a name -/

/-- The last of the observers with the name. -/
def Enlisting.last? (id : String) (xs : List Enlisting) : Option Enlisting :=
  xs.reverse.find? fun x => x.id == id

namespace Enlisting

theorem last?_append : last? id (xs ++ again) = (last? id again).or (last? id xs) := by
  simp [last?]

theorem last?_snoc : last? id (xs ++ [x]) = if x.id = id then some x else last? id xs := by
  by_cases same : x.id = id <;> simp [last?, same]

theorem of_last?_eq_some (h : last? id xs = some x) : x ∈ xs ∧ x.id = id := by
  have mem := List.mem_of_find?_eq_some h
  have same := List.find?_some h
  exact ⟨List.mem_reverse.mp mem, by simpa using same⟩

theorem last?_eq_none : last? id xs = none ↔ ∀ x ∈ xs, x.id ≠ id := by
  simp [last?]

end Enlisting

namespace Registry

/-! ### What is found in the registry -/

theorem isSome_find?_of_mem (h : e ∈ r.entries) : (r.find? e.id).isSome = true := by
  rw [Option.isSome_iff_ne_none]
  intro none
  exact find?_eq_none.mp none e h rfl

theorem find?_register (o : Observer) (priority : Int32) (id : String) :
    (r.register o priority).find? id =
      if o.id = id then some ⟨o, true, priority, r.sequenceOf o.id⟩ else r.find? id := by
  unfold register sequenceOf
  cases hf : r.find? o.id with
  | none =>
    by_cases same : o.id = id
    · subst same
      have fresh : r.entries.find? (fun e => e.observer.id == o.id) = none := hf
      simp [find?, List.find?_append, fresh]
    · simp [find?, List.find?_append, same]
  | some old =>
    have names : ((fun e : Entry => e.observer.id == id) ∘ fun e =>
        if e.observer.id == o.id then ⟨o, true, priority, old.sequence⟩ else e) =
        fun e => e.observer.id == id := by
      funext e
      by_cases same : e.observer.id = o.id <;> simp [same]
    change List.find? _ (List.map _ _) = _
    rw [List.find?_map, names]
    by_cases same : o.id = id
    · subst same
      have hf : r.entries.find? (fun e => e.observer.id == o.id) = some old := hf
      obtain ⟨-, hid⟩ := mem_of_find? hf
      have hid : old.observer.id = o.id := hid
      simp [hf, hid]
    · rw [if_neg same]
      cases he : r.find? id with
      | none =>
        have he : r.entries.find? (fun e => e.observer.id == id) = none := he
        rw [he]
        rfl
      | some e =>
        have hid : e.observer.id = id := (mem_of_find? he).2
        have he : r.entries.find? (fun e => e.observer.id == id) = some e := he
        simp [he, hid, Ne.symm same]

theorem sequenceOf_register_self : (r.register o priority).sequenceOf o.id = r.sequenceOf o.id := by
  rw [sequenceOf, find?_register, if_pos rfl]
  rfl

theorem sequenceOf_register (h : (r.find? id).isSome = true) :
    (r.register o priority).sequenceOf id = r.sequenceOf id := by
  by_cases same : o.id = id
  · rw [← same]
    exact sequenceOf_register_self
  · obtain ⟨e, he⟩ := Option.isSome_iff_exists.mp h
    rw [sequenceOf, sequenceOf, find?_register, if_neg same, he]
    rfl

/-! ### Observers in a row -/

/-- With the observers, one after the other. -/
def enlistAll (r : Registry) (xs : List Enlisting) : Registry :=
  xs.foldl (fun r x => r.register x.observer x.priority) r

theorem enlistAll_append : r.enlistAll (xs ++ again) = (r.enlistAll xs).enlistAll again :=
  List.foldl_append

theorem enlistAll_snoc :
    r.enlistAll (xs ++ [x]) = (r.enlistAll xs).register x.observer x.priority :=
  enlistAll_append

theorem isSome_find?_enlistAll (h : x ∈ xs) : ((r.enlistAll xs).find? x.id).isSome = true := by
  induction xs using List.reverseRecOn with
  | nil => cases h
  | append_singleton xs y ih =>
    rw [enlistAll_snoc, find?_register]
    split
    · rfl
    · rename_i other
      rcases List.mem_append.mp h with h | h
      · exact ih h
      · obtain rfl : x = y := List.mem_singleton.mp h
        exact absurd rfl other

/-- What becomes of an entry of the registry when the observers are registered. -/
def renew (r : Registry) (xs : List Enlisting) (e : Entry) : Entry :=
  match Enlisting.last? e.id xs with
  | some x => ⟨x.observer, true, x.priority, r.sequenceOf e.id⟩
  | none => e

theorem renew_of_some (h : Enlisting.last? e.id xs = some x) :
    r.renew xs e = ⟨x.observer, true, x.priority, r.sequenceOf e.id⟩ := by
  rw [renew, h]

theorem renew_of_none (h : Enlisting.last? e.id xs = none) : r.renew xs e = e := by
  rw [renew, h]

theorem id_renew (r : Registry) (xs : List Enlisting) (e : Entry) : (r.renew xs e).id = e.id := by
  cases h : Enlisting.last? e.id xs with
  | none => rw [renew_of_none h]
  | some x =>
    rw [renew_of_some h]
    exact (Enlisting.of_last?_eq_some h).2

theorem sequence_renew (h : r.find? id = some e) (xs : List Enlisting) :
    (r.renew xs e).sequence = r.sequenceOf id := by
  have own : r.sequenceOf id = e.sequence := by
    rw [sequenceOf, h]
    rfl
  cases hl : Enlisting.last? e.id xs with
  | none => rw [renew_of_none hl, own]
  | some x => rw [renew_of_some hl, (mem_of_find? h).2]

/-- Observers whose names are there already take the places of those with their names. -/
theorem enlistAll_of_present (h : ∀ x ∈ xs, (r.find? x.id).isSome = true) :
    r.enlistAll xs = { r with entries := r.entries.map (r.renew xs) } := by
  induction xs using List.reverseRecOn with
  | nil =>
    have same : r.entries.map (r.renew []) = r.entries := List.map_id _
    rw [same]
    rfl
  | append_singleton xs x ih =>
    have before := ih fun y hy => h y (List.mem_append_left _ hy)
    obtain ⟨old, hold⟩ := Option.isSome_iff_exists.mp (h x (by simp))
    have found : (r.enlistAll xs).find? x.id = some (r.renew xs old) := by
      have names : (fun e : Entry => e.observer.id == x.id) ∘ r.renew xs =
          fun e => e.observer.id == x.id := by
        funext e
        exact congrArg (· == x.id) (id_renew r xs e)
      have hold : r.entries.find? (fun e => e.observer.id == x.id) = some old := hold
      rw [before, find?, List.find?_map, names, hold]
      rfl
    have found : (r.enlistAll xs).find? x.observer.id = some (r.renew xs old) := found
    rw [enlistAll_snoc, register, found, before]
    simp only [List.map_map, mk.injEq, and_true]
    apply List.map_congr_left
    intro e _
    have hid : (r.renew xs e).observer.id = e.id := id_renew r xs e
    simp only [Function.comp_apply, hid, sequence_renew hold, beq_iff_eq]
    by_cases same : x.id = e.id
    · have last : Enlisting.last? e.id (xs ++ [x]) = some x := by
        rw [Enlisting.last?_snoc, if_pos same]
      have same' : e.id = x.observer.id := same.symm
      rw [renew_of_some last, if_pos same', same]
    · have last : Enlisting.last? e.id (xs ++ [x]) = Enlisting.last? e.id xs := by
        rw [Enlisting.last?_snoc, if_neg same]
      have other : e.id ≠ x.observer.id := Ne.symm same
      rw [if_neg other, renew, renew, last]

/-! ### Registering them again -/

/-- After the observers were registered every entry is as the last with its name left it. -/
theorem renew_enlistAll (h : e ∈ (r.enlistAll xs).entries) : (r.enlistAll xs).renew xs e = e := by
  induction xs using List.reverseRecOn with
  | nil => rfl
  | append_singleton xs x ih =>
    rw [enlistAll_snoc] at h ⊢
    rcases mem_register.mp h with ⟨he, other⟩ | rfl
    · have other : x.id ≠ e.id := Ne.symm other
      have last : Enlisting.last? e.id (xs ++ [x]) = Enlisting.last? e.id xs := by
        rw [Enlisting.last?_snoc, if_neg other]
      have kept := ih he
      rw [renew] at kept ⊢
      rw [last, sequenceOf_register (isSome_find?_of_mem he)]
      exact kept
    · let own : Entry := ⟨x.observer, true, x.priority, (r.enlistAll xs).sequenceOf x.observer.id⟩
      have last : Enlisting.last? own.id (xs ++ [x]) = some x := by
        rw [Enlisting.last?_snoc]
        exact if_pos rfl
      rw [renew_of_some last, Entry.id, sequenceOf_register_self]

/-- Of the observers with one name the registry holds the last. -/
theorem mem_enlistAll (h : Enlisting.last? id xs = some x) :
    ⟨x.observer, true, x.priority, (r.enlistAll xs).sequenceOf id⟩ ∈ (r.enlistAll xs).entries := by
  obtain ⟨hx, rfl⟩ := Enlisting.of_last?_eq_some h
  obtain ⟨e, found⟩ := Option.isSome_iff_exists.mp (isSome_find?_enlistAll hx)
  obtain ⟨he, same⟩ := mem_of_find? found
  have last : Enlisting.last? e.id xs = some x := by rw [same, h]
  have kept : e = ⟨x.observer, true, x.priority, (r.enlistAll xs).sequenceOf e.id⟩ :=
    (renew_enlistAll he).symm.trans (renew_of_some last)
  rw [same] at kept
  exact kept ▸ he

theorem present_of_again (h : ∀ x ∈ again, ∃ y ∈ xs, y.id = x.id) :
    ∀ x ∈ again, ((r.enlistAll xs).find? x.id).isSome = true := by
  intro x hx
  obtain ⟨y, hy, same⟩ := h x hx
  rw [← same]
  exact isSome_find?_enlistAll hy

/-- Whatever of their names is registered in between, once the observers are registered again the
registry is as it was. -/
theorem enlistAll_again (h : ∀ x ∈ again, ∃ y ∈ xs, y.id = x.id) :
    ((r.enlistAll xs).enlistAll again).enlistAll xs = r.enlistAll xs := by
  have present : ∀ x ∈ again ++ xs, ((r.enlistAll xs).find? x.id).isSome = true :=
    List.forall_mem_append.mpr ⟨present_of_again h, fun x hx => isSome_find?_enlistAll hx⟩
  have kept : ∀ e ∈ (r.enlistAll xs).entries, (r.enlistAll xs).renew (again ++ xs) e = e := by
    intro e he
    cases hl : Enlisting.last? e.id xs with
    | some x =>
      have last : Enlisting.last? e.id (again ++ xs) = some x := by
        rw [Enlisting.last?_append, hl]
        rfl
      calc (r.enlistAll xs).renew (again ++ xs) e
          = (r.enlistAll xs).renew xs e := by rw [renew_of_some last, renew_of_some hl]
        _ = e := renew_enlistAll he
    | none =>
      have unnamed : Enlisting.last? e.id again = none := by
        rw [Enlisting.last?_eq_none] at hl ⊢
        intro x hx same
        obtain ⟨y, hy, hid⟩ := h x hx
        exact hl y hy (hid.trans same)
      apply renew_of_none
      rw [Enlisting.last?_append, hl, unnamed]
      rfl
  rw [← enlistAll_append, enlistAll_of_present present]
  have same : (r.enlistAll xs).entries.map ((r.enlistAll xs).renew (again ++ xs)) =
      (r.enlistAll xs).entries := (List.map_congr_left kept).trans (List.map_id _)
  rw [same]

/-! ### The order of looking -/

/-- Meanwhile no entry changes its rank, if every name has one priority. -/
theorem rank_again (h : ∀ x ∈ again, ∃ y ∈ xs, y.id = x.id)
    (hp : ∀ x ∈ again, ∀ y ∈ xs, y.id = x.id → y.priority = x.priority) :
    ((r.enlistAll xs).enlistAll again).lastSequence = (r.enlistAll xs).lastSequence ∧
      ((r.enlistAll xs).enlistAll again).entries.map Entry.rank =
        (r.enlistAll xs).entries.map Entry.rank := by
  rw [enlistAll_of_present (present_of_again h)]
  refine ⟨rfl, ?_⟩
  rw [List.map_map]
  apply List.map_congr_left
  intro e he
  change ((r.enlistAll xs).renew again e).rank = e.rank
  cases hl : Enlisting.last? e.id again with
  | none => rw [renew_of_none hl]
  | some x =>
    obtain ⟨hx, hid⟩ := Enlisting.of_last?_eq_some hl
    obtain ⟨y, hy, same⟩ := h x hx
    -- The name is among those that were registered, so that its entry is as the last of them left it.
    cases hk : Enlisting.last? e.id xs with
    | none => exact absurd (same.trans hid) (Enlisting.last?_eq_none.mp hk y hy)
    | some z =>
      obtain ⟨hz, hzid⟩ := Enlisting.of_last?_eq_some hk
      have before : e = ⟨z.observer, true, z.priority, (r.enlistAll xs).sequenceOf e.id⟩ :=
        (renew_enlistAll he).symm.trans (renew_of_some hk)
      have ids : x.id = z.id := hid.trans hzid.symm
      have priorities : x.priority = z.priority := (hp x hx z hz ids.symm).symm
      rw [renew_of_some hl]
      conv_rhs => rw [before]
      exact congrArg₂ (Rank.mk · true · _) ids priorities

/-- Which observers are looked at, and in which order, is a matter of their ranks. -/
theorem candidates_of_rank {r r' : Registry} (h : r'.entries.map Entry.rank = r.entries.map Entry.rank) :
    r'.candidates.map Entry.rank = r.candidates.map Entry.rank := by
  let first (a b : Rank) : Bool :=
    b.priority < a.priority || a.priority == b.priority && a.sequence ≤ b.sequence
  have ranked (r : Registry) : r.candidates.map Entry.rank =
      ((r.entries.map Entry.rank).filter Rank.active).mergeSort first := by
    rw [List.filter_map]
    exact List.map_mergeSort fun a _ b _ => rfl
  rw [ranked, ranked, h]

end Registry

end DeskScript

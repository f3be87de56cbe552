import DeskScript.Journal
import Mathlib.Data.List.DropRight

/-! What a journal keeps: the last of the events since it was cleared, as many as there is room for. -/

namespace DeskScript.Journal

/-- What is done to a journal. -/
inductive Change where
  | record (e : Event)
  | clear
deriving DecidableEq, Repr

def Change.event? : Change → Option Event
  | .record e => some e
  | .clear => none

def apply (j : Journal) : Change → Journal
  | .record e => j.record e
  | .clear => j.clear

def applyAll (j : Journal) (changes : List Change) : Journal := changes.foldl apply j

/-- The events recorded after the last clearing, oldest first. -/
def sinceClear (changes : List Change) : List Event :=
  (changes.rtakeWhile fun c => c.event?.isSome).filterMap Change.event?

@[simp] theorem applyAll_append (j : Journal) (changes more : List Change) :
    j.applyAll (changes ++ more) = (j.applyAll changes).applyAll more := List.foldl_append

theorem applyAll_map_record (j : Journal) (es : List Event) :
    j.applyAll (es.map .record) = j.recordAll es := List.foldl_map

@[simp] theorem sinceClear_record (changes : List Change) (e : Event) :
    sinceClear (changes ++ [.record e]) = sinceClear changes ++ [e] := by
  rw [sinceClear, List.rtakeWhile_concat_pos _ _ _ rfl, List.filterMap_append]
  rfl

@[simp] theorem sinceClear_clear (changes : List Change) : sinceClear (changes ++ [.clear]) = [] := by
  rw [sinceClear, List.rtakeWhile_concat_neg _ _ _ (by simp [Change.event?])]
  rfl

theorem sinceClear_append (changes : List Change) (es : List Event) :
    sinceClear (changes ++ es.map .record) = sinceClear changes ++ es := by
  induction es using List.reverseRecOn with
  | nil => simp
  | append_singleton es e ih =>
    rw [List.map_append, ← List.append_assoc, List.map_singleton, sinceClear_record, ih,
      List.append_assoc]

theorem sinceClear_map_record (es : List Event) : sinceClear (es.map .record) = es :=
  sinceClear_append [] es

/-- The journal has room for so many events and holds the last of these. -/
structure Holds (j : Journal) (room : Nat) (es : List Event) : Prop where
  capacity : j.capacity = room
  events : j.events = es.rtake room

variable {j : Journal} {room : Nat} {es : List Event}

theorem holds_empty (capacity : Nat) : (empty capacity).Holds (max capacity 1) [] where
  capacity := rfl
  events := (List.rtake_nil _).symm

theorem Holds.length (h : j.Holds room es) : j.events.length = min es.length room := by
  rw [h.events, List.rtake, List.length_drop]
  omega

/-- An event that is recorded takes the place of the oldest one if there are as many as there is room
for, and only then. -/
theorem Holds.record (h : j.Holds room es) (some : 0 < room) (e : Event) :
    (j.record e).Holds room (es ++ [e]) where
  capacity := h.capacity
  events := by
    obtain ⟨n, rfl⟩ : ∃ n, room = n + 1 := ⟨room - 1, by omega⟩
    change (if j.capacity ≤ j.events.length then j.events.drop 1 else j.events) ++ [e] = _
    rw [List.rtake_concat_succ, h.capacity, h.length, h.events, List.rtake, List.rtake]
    congr 1
    split
    case isTrue full =>
      rw [List.drop_drop]
      congr 1
      omega
    case isFalse free =>
      congr 1
      omega

theorem Holds.clear (h : j.Holds room es) : j.clear.Holds room [] where
  capacity := h.capacity
  events := (List.rtake_nil _).symm

theorem holds_applyAll (capacity : Nat) (changes : List Change) :
    ((empty capacity).applyAll changes).Holds (max capacity 1) (sinceClear changes) := by
  induction changes using List.reverseRecOn with
  | nil => exact holds_empty capacity
  | append_singleton changes c ih =>
    rw [applyAll_append]
    cases c with
    | record e =>
      rw [sinceClear_record]
      exact ih.record (by omega) e
    | clear =>
      rw [sinceClear_clear]
      exact ih.clear

/-- However a journal is recorded to and cleared, it shows the last of the events since it was cleared, in
their order: all of them, or as many as there is room for. There is room for one at least. -/
theorem shows_last (capacity : Nat) (changes : List Change) :
    ((empty capacity).applyAll changes).events = (sinceClear changes).rtake (max capacity 1) ∧
    ((empty capacity).applyAll changes).events <:+ sinceClear changes ∧
    ((empty capacity).applyAll changes).events.length =
      min (sinceClear changes).length (max capacity 1) ∧
    ((empty capacity).applyAll changes).events.length ≤ max capacity 1 ∧
    ∀ es : List Event, ((empty capacity).applyAll (changes ++ .clear :: es.map .record)).events =
      es.rtake (max capacity 1) := by
  have holds := holds_applyAll capacity changes
  refine ⟨holds.events, ?_, holds.length, ?_, fun es => ?_⟩
  · rw [holds.events]
    exact List.drop_suffix _ _
  · rw [holds.length]
    exact Nat.min_le_right _ _
  · rw [(holds_applyAll capacity _).events, ← List.singleton_append, ← List.append_assoc,
      sinceClear_append, sinceClear_clear, List.nil_append]

end DeskScript.Journal

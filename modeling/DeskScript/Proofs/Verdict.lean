import DeskScript.Screen.Inquiry
import Mathlib.Tactic.Common

/-! What is found out about a condition, and what is looked for on the way. Looking ends with the first
failure, and in a list of conditions with the first that decides. A truth that has been found does not
depend on what was not looked for. -/

namespace DeskScript.Condition

/-! ### Truth -/

mutual

/-- Whether the condition is true where exactly the elements are on the screen that `seen` says. -/
def holds (seen : Element → Bool) : Condition → Bool
  | .present e => seen e
  | .absent e => !seen e
  | .all cs => holdsAll seen cs
  | .any cs => holdsAny seen cs
  | .not c => !holds seen c

def holdsAll (seen : Element → Bool) : List Condition → Bool
  | [] => true
  | c :: cs => holds seen c && holdsAll seen cs

def holdsAny (seen : Element → Bool) : List Condition → Bool
  | [] => false
  | c :: cs => holds seen c || holdsAny seen cs

end

/-! ### Lists of conditions -/

/-- A list of conditions of which the first decides whose truth is not `neutral`. -/
def joint (neutral : Bool) (cs : List Condition) : Condition := bif neutral then .all cs else .any cs

theorem inquiry_joint_nil (neutral : Bool) : (joint neutral []).inquiry = .done (.ok neutral) := by
  cases neutral <;> rfl

theorem inquiry_joint_cons (neutral : Bool) (c : Condition) (cs : List Condition) :
    (joint neutral (c :: cs)).inquiry = c.inquiry.bind fun truth =>
      if truth = .ok neutral then (joint neutral cs).inquiry else .done truth := by
  cases neutral
  all_goals
    change c.inquiry.bind _ = _
    congr 1
    funext truth
    rcases truth with f | _ | _ <;> rfl

theorem holds_joint_cons (seen : Element → Bool) (neutral : Bool) (c : Condition)
    (cs : List Condition) : (joint neutral (c :: cs)).holds seen =
      if c.holds seen = neutral then (joint neutral cs).holds seen else !neutral := by
  cases neutral
  · change (c.holds seen || holdsAny seen cs) = if _ then holdsAny seen cs else true
    cases c.holds seen <;> rfl
  · change (c.holds seen && holdsAll seen cs) = if _ then holdsAll seen cs else false
    cases c.holds seen <;> rfl

section

variable (find : Element → Sighting) {neutral : Bool} {c : Condition} (cs : List Condition)

theorem run_joint_of_neutral (h : (c.inquiry.run find).1 = .ok neutral) :
    (joint neutral (c :: cs)).inquiry.run find =
      (((joint neutral cs).inquiry.run find).1,
        (c.inquiry.run find).2 ++ ((joint neutral cs).inquiry.run find).2) := by
  rw [inquiry_joint_cons, Inquiry.run_bind, if_pos h]

theorem run_joint_of_decisive (h : (c.inquiry.run find).1 ≠ .ok neutral) :
    (joint neutral (c :: cs)).inquiry.run find = c.inquiry.run find := by
  rw [inquiry_joint_cons, Inquiry.run_bind, if_neg h, Inquiry.run, List.append_nil]

theorem run_not (c : Condition) : (Condition.not c).inquiry.run find =
    ((c.inquiry.run find).1.map (!·), (c.inquiry.run find).2) := by
  rw [inquiry, Inquiry.map, Inquiry.run_bind, Inquiry.run, List.append_nil]

end

/-! ### What is looked for -/

mutual

/-- What is left of a condition without the operands that stand behind one that decides. -/
def pruned (find : Element → Sighting) : Condition → Condition
  | .present e => .present e
  | .absent e => .absent e
  | .all cs => .all (prunedList find true cs)
  | .any cs => .any (prunedList find false cs)
  | .not c => .not (pruned find c)

/-- The conditions up to the first whose truth is not `neutral`. -/
def prunedList (find : Element → Sighting) (neutral : Bool) : List Condition → List Condition
  | [] => []
  | c :: cs =>
    pruned find c ::
      if (c.inquiry.run find).1 = .ok neutral then prunedList find neutral cs else []

end

mutual

/-- Every element that is left is looked for, in order. -/
theorem looks_eq (find : Element → Sighting) (c : Condition) :
    (c.inquiry.run find).2 = (c.pruned find).elements.map fun e => (e, find e) := by
  cases c with
  | present e | absent e => rfl
  | all cs => exact looks_joint_eq find true cs
  | any cs => exact looks_joint_eq find false cs
  | not c =>
    rw [run_not]
    exact looks_eq find c

theorem looks_joint_eq (find : Element → Sighting) (neutral : Bool) (cs : List Condition) :
    ((joint neutral cs).inquiry.run find).2 =
      (elementsOfList (prunedList find neutral cs)).map fun e => (e, find e) := by
  cases cs with
  | nil =>
    rw [inquiry_joint_nil]
    rfl
  | cons c cs =>
    rw [prunedList, elementsOfList, List.map_append, ← looks_eq find c]
    by_cases h : (c.inquiry.run find).1 = .ok neutral
    · rw [run_joint_of_neutral find cs h, if_pos h, looks_joint_eq find neutral cs]
    · rw [run_joint_of_decisive find cs h, if_neg h, elementsOfList, List.map_nil, List.append_nil]

end

mutual

/-- Nothing is left that was not there. -/
theorem elements_pruned_sublist (find : Element → Sighting) (c : Condition) :
    (c.pruned find).elements.Sublist c.elements := by
  cases c with
  | present e | absent e => exact List.Sublist.refl _
  | all cs | any cs => exact elements_prunedList_sublist find _ cs
  | not c => exact elements_pruned_sublist find c

theorem elements_prunedList_sublist (find : Element → Sighting) (neutral : Bool)
    (cs : List Condition) :
    (elementsOfList (prunedList find neutral cs)).Sublist (elementsOfList cs) := by
  cases cs with
  | nil => exact List.Sublist.refl _
  | cons c cs =>
    rw [prunedList, elementsOfList, elementsOfList]
    refine (elements_pruned_sublist find c).append ?_
    split
    · exact elements_prunedList_sublist find neutral cs
    · exact List.nil_sublist _

end

/-! ### What is found out -/

mutual

/-- A truth that is found is the truth, whatever became of the elements that could not be found out. -/
theorem holds_of_inquiry {find : Element → Sighting} {seen : Element → Bool}
    (known : ∀ e place, find e = .ok place → seen e = place.isSome) (c : Condition) {b : Bool}
    (h : (c.inquiry.run find).1 = .ok b) : c.holds seen = b := by
  cases c with
  | present e | absent e =>
    change (find e).map _ = .ok b at h
    cases look : find e with
    | error f =>
      rw [look] at h
      cases h
    | ok place =>
      rw [look] at h
      cases h
      simp [holds, known e place look]
  | all cs => exact holds_joint_of_inquiry known true cs h
  | any cs => exact holds_joint_of_inquiry known false cs h
  | not c =>
    rw [run_not] at h
    cases found : (c.inquiry.run find).1 with
    | error f =>
      rw [found] at h
      cases h
    | ok b' =>
      rw [found] at h
      cases h
      rw [holds, holds_of_inquiry known c found]

theorem holds_joint_of_inquiry {find : Element → Sighting} {seen : Element → Bool}
    (known : ∀ e place, find e = .ok place → seen e = place.isSome) (neutral : Bool)
    (cs : List Condition) {b : Bool} (h : ((joint neutral cs).inquiry.run find).1 = .ok b) :
    (joint neutral cs).holds seen = b := by
  cases cs with
  | nil =>
    rw [inquiry_joint_nil] at h
    cases h
    cases neutral <;> rfl
  | cons c cs =>
    by_cases own : (c.inquiry.run find).1 = .ok neutral
    · rw [run_joint_of_neutral find cs own] at h
      rw [holds_joint_cons, if_pos (holds_of_inquiry known c own)]
      exact holds_joint_of_inquiry known neutral cs h
    · rw [run_joint_of_decisive find cs own] at h
      have decisive : b ≠ neutral := fun same => own (same ▸ h)
      rw [holds_joint_cons, holds_of_inquiry known c h, if_neg decisive]
      exact (Bool.eq_not_of_ne decisive).symm

end

/-- No look has failed, but for the last, whose failure is what was found out. -/
def Conclusive (log : List (Element × Sighting)) : Except Failure Bool → Prop
  | .ok _ => ∀ look ∈ log, ∃ place, look.2 = .ok place
  | .error f => ∃ before e, log = before ++ [(e, .error f)] ∧ ∀ look ∈ before, ∃ place, look.2 = .ok place

theorem Conclusive.append {log log' : List (Element × Sighting)} {b : Bool}
    {found : Except Failure Bool} (h : Conclusive log (.ok b)) (h' : Conclusive log' found) :
    Conclusive (log ++ log') found := by
  cases found with
  | ok b' => exact List.forall_mem_append.mpr ⟨h, h'⟩
  | error f =>
    obtain ⟨before, e, rfl, fine⟩ := h'
    exact ⟨log ++ before, e, (List.append_assoc _ _ _).symm, List.forall_mem_append.mpr ⟨h, fine⟩⟩

theorem Conclusive.look (e : Element) (s : Sighting) (f : Option Coordinate → Bool) :
    Conclusive [(e, s)] (s.map f) := by
  cases s with
  | ok place => exact List.forall_mem_singleton.mpr ⟨place, rfl⟩
  | error f => exact ⟨[], e, rfl, List.forall_mem_nil _⟩

theorem Conclusive.map {log : List (Element × Sighting)} {found : Except Failure Bool}
    (h : Conclusive log found) (f : Bool → Bool) : Conclusive log (found.map f) := by
  cases found <;> exact h

mutual

theorem conclusive (find : Element → Sighting) (c : Condition) :
    Conclusive (c.inquiry.run find).2 (c.inquiry.run find).1 := by
  cases c with
  | present e | absent e => exact .look e (find e) _
  | all cs => exact conclusive_joint find true cs
  | any cs => exact conclusive_joint find false cs
  | not c =>
    rw [run_not]
    exact (conclusive find c).map _

theorem conclusive_joint (find : Element → Sighting) (neutral : Bool) (cs : List Condition) :
    Conclusive ((joint neutral cs).inquiry.run find).2 ((joint neutral cs).inquiry.run find).1 := by
  cases cs with
  | nil =>
    rw [inquiry_joint_nil]
    exact List.forall_mem_nil _
  | cons c cs =>
    have first := conclusive find c
    by_cases own : (c.inquiry.run find).1 = .ok neutral
    · rw [run_joint_of_neutral find cs own]
      rw [own] at first
      exact first.append (conclusive_joint find neutral cs)
    · rw [run_joint_of_decisive find cs own]
      exact first

end

theorem Conclusive.error_iff {log : List (Element × Sighting)} {found : Except Failure Bool}
    (h : Conclusive log found) (f : Failure) :
    found = .error f ↔ ∃ e, log.getLast? = some (e, .error f) := by
  constructor
  · rintro rfl
    obtain ⟨before, e, rfl, -⟩ := h
    exact ⟨e, List.getLast?_concat⟩
  · rintro ⟨e, last⟩
    cases found with
    | ok b =>
      obtain ⟨place, fine⟩ := h _ (List.mem_of_getLast? last)
      cases fine
    | error f' =>
      obtain ⟨before, e', rfl, -⟩ := h
      rw [List.getLast?_concat] at last
      cases last
      rfl

/-- Nothing is looked for after a failure. -/
theorem Conclusive.eq_nil_of_error {log before after : List (Element × Sighting)}
    {found : Except Failure Bool} (h : Conclusive log found) {e : Element} {f : Failure}
    (cut : log = before ++ (e, .error f) :: after) : after = [] := by
  have mem : (e, .error f) ∈ log := by simp [cut]
  cases found with
  | ok b =>
    obtain ⟨place, fine⟩ := h _ mem
    cases fine
  | error f' =>
    obtain ⟨start, e', whole, fine⟩ := h
    by_contra more
    -- A failure with something behind it is not the last look, so that it was none.
    obtain ⟨init, last, rfl⟩ := List.eq_nil_or_concat after |>.resolve_left more
    have parts : start ++ [(e', .error f')] = (before ++ (e, .error f) :: init) ++ [last] := by
      rw [← whole, cut]
      simp
    obtain ⟨same, -⟩ := List.append_inj' parts rfl
    obtain ⟨place, none⟩ := fine (e, .error f) (by simp [same])
    cases none

/-- If the condition is found true or false, then that it is, on whatever screen the elements that are
known are where they are. It is not found out just if the last look failed, and nothing is looked for
after a failure. What is looked for are elements of the condition in their order: those that are left
when in every list the operands behind the first that decides are struck out. -/
theorem settles (c : Condition) (find : Element → Sighting) :
    (∀ b, (c.inquiry.run find).1 = .ok b → ∀ seen : Element → Bool,
      (∀ e place, find e = .ok place → seen e = place.isSome) → c.holds seen = b) ∧
    (∀ f, (c.inquiry.run find).1 = .error f ↔
      ∃ e, (c.inquiry.run find).2.getLast? = some (e, .error f)) ∧
    (∀ before e f after,
      (c.inquiry.run find).2 = before ++ (e, .error f) :: after → after = []) ∧
    ((c.inquiry.run find).2.map Prod.fst).Sublist c.elements ∧
    (c.inquiry.run find).2 = (c.pruned find).elements.map fun e => (e, find e) := by
  have looks := c.looks_eq find
  have conclusive := c.conclusive find
  refine ⟨?_, conclusive.error_iff, ?_, ?_, looks⟩
  · intro b h seen known
    exact c.holds_of_inquiry known h
  · intro before e f after cut
    exact conclusive.eq_nil_of_error cut
  · have names : (c.inquiry.run find).2.map Prod.fst = (c.pruned find).elements := by
      rw [looks, List.map_map]
      exact List.map_id _
    rw [names]
    exact c.elements_pruned_sublist find

end DeskScript.Condition

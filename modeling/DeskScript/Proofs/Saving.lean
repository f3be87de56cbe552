import DeskScript.Proofs.RoundTrip

/-! A script that is saved as text is loaded as the same script, as far as its thresholds are read
back. -/

namespace DeskScript

open Json

/-! ### Numbers -/

theorem readsBack_int32 (n : Int32) : (Json.Number.int n.toInt).ReadsBack := by
  have least : Int32.minValue.toInt ≤ n.toInt := Int32.minValue_le_toInt n
  have greatest : n.toInt ≤ Int32.maxValue.toInt := Int32.toInt_le n
  refine Json.Number.readsBack_int ?_ ?_
  · exact Int.le_trans (by decide) least
  · exact Int.lt_of_le_of_lt greatest (by decide)

theorem readsBack_word (n : UInt64) : (Json.Number.int n.toNat).ReadsBack :=
  Json.Number.readsBack_natural n.toNat_lt

theorem Element.readsBack (e : Element) (h : ∀ t ∈ e.thresholds, (Json.Number.real t).ReadsBack) :
    ∀ n ∈ e.toJson.numbers, n.ReadsBack := by
  cases e with
  | position p =>
    intro n hn
    have coordinate : n = .int p.x.toInt ∨ n = .int p.y.toInt := by
      simpa [toJson, Coordinate.members, Json.int, numbers, numbersOfMembers] using hn
    rcases coordinate with rfl | rfl
    · exact readsBack_int32 p.x
    · exact readsBack_int32 p.y
  | picture p =>
    obtain ⟨data, threshold⟩ := p
    cases threshold with
    | none => simp [toJson, Json.optional, numbers, numbersOfMembers]
    | some t =>
      have own : (Json.Number.real t).ReadsBack := h t (List.mem_singleton.mpr rfl)
      simpa [toJson, Json.optional, Json.real, numbers, numbersOfMembers] using own

mutual

theorem Condition.readsBack (c : Condition) (h : ∀ t ∈ c.thresholds, (Json.Number.real t).ReadsBack) :
    ∀ n ∈ c.toJson.numbers, n.ReadsBack := by
  cases c with
  | present e | absent e =>
    have own := e.readsBack h
    simpa [toJson, numbers, numbersOfMembers] using own
  | all cs | any cs =>
    have own := Condition.readsBackOfList cs h
    simpa [toJson, numbers, numbersOfMembers] using own
  | not c =>
    have own := Condition.readsBack c h
    simpa [toJson, numbers, numbersOfMembers] using own

theorem Condition.readsBackOfList (cs : List Condition)
    (h : ∀ t ∈ Condition.thresholdsOfList cs, (Json.Number.real t).ReadsBack) :
    ∀ n ∈ numbersOfItems (Condition.listJson cs), n.ReadsBack := by
  cases cs with
  | nil => simp [listJson, numbersOfItems]
  | cons c cs =>
    rw [thresholdsOfList, List.forall_mem_append] at h
    rw [listJson, numbersOfItems, List.forall_mem_append]
    exact ⟨Condition.readsBack c h.1, Condition.readsBackOfList cs h.2⟩

end

theorem MouseAction.readsBack (a : MouseAction)
    (h : ∀ t ∈ a.thresholds, (Json.Number.real t).ReadsBack) :
    ∀ n ∈ numbersOfMembers a.typeAndMembers.2, n.ReadsBack := by
  cases a with
  | leftClick e | rightClick e | doubleClick e | moveTo e =>
    have own := e.readsBack h
    simpa [typeAndMembers, numbersOfMembers] using own
  | drag e₁ e₂ =>
    rw [thresholds, List.forall_mem_append] at h
    have own := List.forall_mem_append.mpr ⟨e₁.readsBack h.1, e₂.readsBack h.2⟩
    simpa [typeAndMembers, numbersOfMembers] using own
  | scroll n d =>
    have own := readsBack_int32 n
    simpa [typeAndMembers, Json.int, numbers, numbersOfMembers] using own

/-- Of all actions only one of the mouse can set a threshold. -/
theorem Action.readsBack (h : Header) (a : Action)
    (kept : ∀ t ∈ (Step.action h a).thresholds, (Json.Number.real t).ReadsBack) :
    ∀ n ∈ a.toJson.numbers, n.ReadsBack := by
  cases a with
  | mouse a =>
    have own := a.readsBack kept
    simpa [toJson, numbers, numbersOfMembers] using own
  | keyboard a =>
    cases a <;> simp [toJson, KeyboardAction.typeAndMembers, strings, numbers, numbersOfMembers,
      numbersOfItems_strings]
  | system a =>
    cases a with
    | wait n =>
      have own := readsBack_word n
      simpa [toJson, SystemAction.typeAndMembers, millisecondsJson, Json.int, numbers,
        numbersOfMembers] using own
    | launch path args =>
      simp [toJson, SystemAction.typeAndMembers, strings, numbers, numbersOfMembers,
        numbersOfItems_strings]
    | close process => simp [toJson, SystemAction.typeAndMembers, numbers, numbersOfMembers]
  | flow a => cases a <;> simp [toJson, FlowAction.typeAndMembers, numbers, numbersOfMembers]

theorem readsBack_optional_word (name : String) (x : Option UInt64) :
    ∀ n ∈ numbersOfMembers (Json.optional name x millisecondsJson), n.ReadsBack := by
  cases x with
  | none => simp [Json.optional, numbersOfMembers]
  | some n =>
    have own := readsBack_word n
    simpa [Json.optional, millisecondsJson, Json.int, numbers, numbersOfMembers] using own

theorem Header.readsBack (h : Header) : ∀ n ∈ numbersOfMembers h.members, n.ReadsBack := by
  unfold members
  rw [numbersOfMembers_append, numbersOfMembers_append, numbersOfMembers_append, List.forall_mem_append,
    List.forall_mem_append, List.forall_mem_append]
  refine ⟨⟨⟨?_, ?_⟩, readsBack_optional_word _ _⟩, readsBack_optional_word _ _⟩
  · simp [numbersOfMembers, numbers]
  · cases h.label <;> simp [Json.optional, numbersOfMembers, numbers]

theorem Header.readsBack_object (h : Header) (kind : String) {own : List (String × Json)}
    (kept : ∀ n ∈ numbersOfMembers own, n.ReadsBack) :
    ∀ n ∈ (Json.object (("type", .string kind) :: h.members ++ own)).numbers, n.ReadsBack := by
  rw [numbers, List.cons_append, numbersOfMembers, numbersOfMembers_append, numbers, List.nil_append,
    List.forall_mem_append]
  exact ⟨h.readsBack, kept⟩

mutual

/-- The numbers of a step are read back if the thresholds are that the step and those inside it set. -/
theorem Step.readsBack (s : Step)
    (kept : ∀ u ∈ s :: s.within, ∀ t ∈ u.thresholds, (Json.Number.real t).ReadsBack) :
    ∀ n ∈ s.toJson.numbers, n.ReadsBack := by
  obtain ⟨own, inside⟩ := List.forall_mem_cons.mp kept
  cases s with
  | action h a =>
    refine h.readsBack_object _ ?_
    simpa [numbersOfMembers] using Action.readsBack h a own
  | conditional h c thens elses =>
    rw [within, List.forall_mem_append] at inside
    have condition := Condition.readsBack c own
    have children := List.forall_mem_append.mpr
      ⟨Step.readsBackOfList thens inside.1, Step.readsBackOfList elses inside.2⟩
    refine h.readsBack_object _ ?_
    rw [numbersOfMembers, List.forall_mem_append]
    exact ⟨condition, by simpa [numbers, numbersOfMembers] using children⟩
  | observer h c steps =>
    have condition := Condition.readsBack c own
    have children := Step.readsBackOfList steps inside
    refine h.readsBack_object _ ?_
    rw [numbersOfMembers, List.forall_mem_append]
    exact ⟨condition, by simpa [numbers, numbersOfMembers] using children⟩
  | group h name steps =>
    have children := Step.readsBackOfList steps inside
    refine h.readsBack_object _ ?_
    simpa [numbers, numbersOfMembers] using children

theorem Step.readsBackOfList (steps : List Step)
    (kept : ∀ u ∈ Forest.everyStep steps, ∀ t ∈ u.thresholds, (Json.Number.real t).ReadsBack) :
    ∀ n ∈ numbersOfItems (Step.listJson steps), n.ReadsBack := by
  cases steps with
  | nil => simp [listJson, numbersOfItems]
  | cons s steps =>
    rw [Forest.everyStep, ← List.cons_append, List.forall_mem_append] at kept
    rw [listJson, numbersOfItems, List.forall_mem_append]
    exact ⟨Step.readsBack s kept.1, Step.readsBackOfList steps kept.2⟩

end

theorem Settings.readsBack (s : Settings) (kept : (Json.Number.real s.threshold).ReadsBack) :
    ∀ n ∈ s.toJson.numbers, n.ReadsBack := by
  unfold toJson
  rw [numbers, numbersOfMembers_append, numbersOfMembers_append, List.forall_mem_append,
    List.forall_mem_append]
  refine ⟨⟨?_, readsBack_optional_word _ _⟩, ?_⟩
  · have before := readsBack_word s.delayBefore
    have after := readsBack_word s.delayAfter
    intro n hn
    have delay : n = .int s.delayBefore.toNat ∨ n = .int s.delayAfter.toNat := by
      simpa [millisecondsJson, Json.int, numbers, numbersOfMembers] using hn
    rcases delay with rfl | rfl
    · exact before
    · exact after
  · simpa [Json.real, numbers, numbersOfMembers] using kept

theorem Script.readsBack (s : Script) (kept : ∀ t ∈ s.thresholds, (Json.Number.real t).ReadsBack) :
    ∀ n ∈ s.toJson.numbers, n.ReadsBack := by
  obtain ⟨default, own⟩ := List.forall_mem_cons.mp kept
  have steps : ∀ n ∈ numbersOfItems (Step.listJson s.steps), n.ReadsBack := by
    apply Step.readsBackOfList s.steps
    intro u hu t ht
    exact own t (List.mem_flatMap.mpr ⟨u, hu, ht⟩)
  have settings := s.settings.readsBack default
  have both := List.forall_mem_append.mpr ⟨steps, settings⟩
  simpa [toJson, numbers, numbersOfMembers] using both

/-! ### Scripts -/

/-- A script with finite thresholds is loaded from its text as it is, if the text nests no deeper than it
may and each threshold is written so that it is read back. -/
theorem Script.loads_saved (s : Script) (nests : s.toJson.nesting ≤ 127)
    (finite : ∀ t ∈ s.thresholds, t.isFinite = true)
    (kept : ∀ t ∈ s.thresholds, t.isFinite = true → (Json.Number.real t).ReadsBack) :
    Script.ofText s.toJson.text = .ok s := by
  have numbers := s.readsBack fun t ht => kept t ht (finite t ht)
  have document := Document.ofText_text s.toJson numbers
  have value : Script.read nestingLimit s.toJson.toReading = .ok s := Script.read_toJson s nests
  unfold ofText load
  rw [document]
  simp only [Route.document, Document.decode, value, bind, Except.bind]
  rfl

/-- A script with all kinds of steps inside each other, and with values at the ends of their ranges. -/
def laidOut : Script where
  name := "Ω \"quoted\"\n"
  description := ""
  settings := ⟨0, 18446744073709551615, some 0, 0.7⟩
  steps :=
    [.group ⟨"g", some "", some 0, none⟩ "Outer"
      [.conditional ⟨"c", none, none, some 18446744073709551615⟩
        (.all [.present (.picture ⟨"aGk=", some 0.85⟩), .not (.any [])])
        [.observer ⟨"o", some "ö", none, none⟩ (.absent (.position ⟨-2147483648, 2147483647⟩))
          [.action ⟨"a", none, none, none⟩
            (.mouse (.drag (.position ⟨0, -1⟩) (.picture ⟨"", some 1.0⟩)))]]
        [],
      .action ⟨"k", none, none, none⟩ (.keyboard (.pressCombination ["ctrl", "\x00"])),
      .action ⟨"s", none, none, none⟩ (.system (.launch "run" [])),
      .action ⟨"f", none, none, none⟩ (.flow (.jumpTo "g"))]]

theorem Script.loads_saved_laidOut :
    laidOut.toJson.nesting = 11 ∧ laidOut.thresholds = [0.7, 0.85, 1.0] ∧
      Script.ofText laidOut.toJson.text = .ok laidOut := by
  have nests : laidOut.toJson.nesting = 11 := by decide +kernel
  have thresholds : laidOut.thresholds = [0.7, 0.85, 1.0] := by decide +kernel
  refine ⟨nests, thresholds, Script.loads_saved laidOut (by omega) (by decide +kernel) ?_⟩
  rw [thresholds]
  intro t ht _
  simp only [List.mem_cons, List.not_mem_nil, or_false] at ht
  rcases ht with rfl | rfl | rfl
  · exact @Number.readsBack_of_scan (.real 0.7) '0' ['.', '7'] (by decide +kernel) (.inr rfl) rfl
  · exact @Number.readsBack_of_scan (.real 0.85) '0' ['.', '8', '5'] (by decide +kernel) (.inr rfl) rfl
  · exact @Number.readsBack_of_scan (.real 1.0) '1' ['.', '0'] (by decide +kernel) (.inr rfl) rfl

end DeskScript

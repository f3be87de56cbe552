import DeskScript.Proofs.Census
import DeskScript.Proofs.Editing
import DeskScript.Proofs.Ranking

/-! A script made ready for a run has its steps in the same places. Where no error was found on the
script, each of them is fit to be run. -/

namespace DeskScript

/-! ### What a step takes from the settings -/

mutual

theorem Condition.elements_map (f : Element → Element) (c : Condition) :
    (c.map f).elements = c.elements.map f := by
  cases c with
  | present e | absent e => simp [Condition.map, Condition.elements]
  | all cs | any cs => exact Condition.elementsOfList_mapList f cs
  | not c => exact Condition.elements_map f c

theorem Condition.elementsOfList_mapList (f : Element → Element) (cs : List Condition) :
    Condition.elementsOfList (Condition.mapList f cs) = (Condition.elementsOfList cs).map f := by
  cases cs with
  | nil => rfl
  | cons c cs =>
    rw [Condition.mapList, Condition.elementsOfList, Condition.elementsOfList, List.map_append,
      Condition.elements_map f c, Condition.elementsOfList_mapList f cs]

end

namespace Step

variable (settings : Settings) (s : Step)

/-- The step as it is run: with the values of `settings` in it and in the steps inside it. -/
def prepared : Step := s.image (.withDefaults settings)

theorem keepsLists_withDefaults : KeepsLists (.withDefaults settings) := by
  intro s
  cases s <;> rfl

theorem id_withChildLists (lists : List (List Step)) : (s.withChildLists lists).id = s.id := by
  cases s <;> rfl

theorem elements_withChildLists (lists : List (List Step)) :
    (s.withChildLists lists).elements = s.elements := by
  cases s <;> rfl

theorem combination?_withChildLists (lists : List (List Step)) :
    (s.withChildLists lists).combination? = s.combination? := by
  cases s <;> rfl

theorem id_prepared : (s.prepared settings).id = s.id := by
  rw [prepared, image, id_withChildLists]
  cases s <;> rfl

theorem elements_prepared :
    (s.prepared settings).elements = s.elements.map (.withThreshold settings.threshold) := by
  rw [prepared, image, elements_withChildLists]
  cases s with
  | action h a => exact Action.targets_map _ a
  | conditional h c thens elses | observer h c steps => exact Condition.elements_map _ c
  | group h name steps => rfl

theorem combination?_prepared : (s.prepared settings).combination? = s.combination? := by
  rw [prepared, image, combination?_withChildLists]
  cases s with
  | action h a =>
    cases a with
    | mouse m => cases m <;> rfl
    | keyboard k => cases k <;> rfl
    | system | flow => rfl
  | _ => rfl

end Step

namespace Script

variable (s : Script)

theorem walk_withDefaults : Forest.walk s.withDefaults.steps =
    (Forest.walk s.steps).map fun v => { v with step := v.step.prepared s.settings } :=
  Forest.walk_map (Step.keepsLists_withDefaults s.settings) s.steps

theorem everyStep_withDefaults : Forest.everyStep s.withDefaults.steps =
    (Forest.everyStep s.steps).map (Step.prepared s.settings) :=
  Forest.everyStep_map (Step.keepsLists_withDefaults s.settings) s.steps

theorem ids_withDefaults : s.withDefaults.ids = s.ids := by
  rw [ids, everyStep_withDefaults, List.map_map, ids]
  exact List.map_congr_left fun step _ => step.id_prepared s.settings

end Script

/-! ### Steps that are fit to be run -/

/-- A picture says how sure a find has to be, as a number from 0 to 1. -/
def Element.IsFit (e : Element) : Prop :=
  ∀ p, e = .picture p → ∃ t, p.threshold = some t ∧ 0 ≤ t ∧ t ≤ 1

/-- Nothing that the step itself asks for is left open or out of range. -/
structure Step.IsFit (s : Step) : Prop where
  elements : ∀ e ∈ s.elements, e.IsFit
  combination : ∀ keys, s.combination? = some keys → keys ≠ []

theorem Element.isFit_withThreshold {e : Element} {t : Float} (given : 0 ≤ t ∧ t ≤ 1)
    (own : ∀ u ∈ e.thresholds, 0 ≤ u ∧ u ≤ 1) : (e.withThreshold t).IsFit := by
  cases e with
  | position p => exact fun _ h => nomatch h
  | picture p =>
    rintro _ ⟨⟩
    refine ⟨p.threshold.getD t, rfl, ?_⟩
    cases hp : p.threshold with
    | none => exact given
    | some u => exact own u (by simp [thresholds, hp])

/-- On a script without errors nothing is left open once it was made ready. -/
theorem Script.Lawful.isFit {s : Script} (h : s.Lawful) {step : Step}
    (hs : step ∈ Forest.everyStep s.withDefaults.steps) : step.IsFit := by
  rw [s.everyStep_withDefaults] at hs
  obtain ⟨origin, ho, rfl⟩ := List.mem_map.mp hs
  constructor
  · rw [Step.elements_prepared]
    intro e' he'
    obtain ⟨e, he, rfl⟩ := List.mem_map.mp he'
    refine Element.isFit_withThreshold h.threshold fun u hu => h.ownThreshold u ?_
    refine List.mem_flatMap.mpr ⟨origin, ho, ?_⟩
    rw [Step.thresholds_eq]
    exact List.mem_flatMap.mpr ⟨e, he, hu⟩
  · intro keys hk
    rw [Step.combination?_prepared] at hk
    exact h.combination keys (List.mem_filterMap.mpr ⟨origin, ho, hk⟩)

theorem Script.lawful_of_findings {s : Script} (h : ∀ f ∈ s.findings, f.severity ≠ .error) :
    s.Lawful := by
  by_contra hn
  obtain ⟨f, hf, severe⟩ := s.census.2.2.mpr hn
  exact h f hf severe

/-! ### The places of observers -/

/-- The block of the observer stands in the forest at this depth, in this place among its siblings. -/
def Observer.Stands (o : Observer) (steps : List Step) (depth position : Nat) : Prop :=
  ∃ siblings h, Forest.Level steps depth siblings ∧
    siblings[position]? = some (.observer h o.condition o.steps) ∧ h.id = o.id

/-- The block of the observer is one of the steps. -/
def Observer.IsAmong (o : Observer) (steps : List Step) : Prop :=
  ∃ h, .observer h o.condition o.steps ∈ steps ∧ h.id = o.id

namespace Observer

variable {o : Observer} {depth position : Nat}

theorem Stands.observes {steps : List Step} (h : o.Stands steps depth position) :
    Forest.Observes steps o.id depth position := by
  obtain ⟨siblings, h, level, at_, hid⟩ := h
  exact ⟨siblings, h, _, _, level, at_, hid⟩

/-- Every block stands somewhere. -/
theorem IsAmong.stands {steps : List Step} (h : o.IsAmong (Forest.everyStep steps)) :
    ∃ depth position, o.Stands steps depth position := by
  obtain ⟨h, hm, hid⟩ := h
  rw [← Forest.map_step_walk] at hm
  obtain ⟨v, hv, hs⟩ := List.mem_map.mp hm
  obtain ⟨siblings, level, at_⟩ := Forest.level_of_mem_walk hv
  exact ⟨v.depth, v.position, siblings, h, level, hs ▸ at_, hid⟩

/-- A block of the script as it is run stands where it does in the script itself. -/
theorem Stands.origin {s : Script} (h : o.Stands s.withDefaults.steps depth position) :
    Forest.Observes s.steps o.id depth position := by
  obtain ⟨siblings, h, level, at_, hid⟩ := h
  have visited := level.mem_walk at_
  rw [s.walk_withDefaults] at visited
  obtain ⟨v, hv, same⟩ := List.mem_map.mp visited
  obtain ⟨row, level', at'⟩ := Forest.level_of_mem_walk hv
  obtain ⟨step, depth', position'⟩ := v
  obtain ⟨hs, rfl, rfl⟩ := Visit.mk.inj same
  cases step with
  | observer h' c' acts' =>
    refine ⟨row, h', c', acts', level', at', ?_⟩
    have id := congrArg Step.id hs
    rw [Step.id_prepared] at id
    exact id.trans hid
  | _ => cases hs

end Observer

namespace Priority

theorem firsts_eq_self {seen : List String} {l : List (String × Int32)}
    (distinct : (l.map Prod.fst).Nodup) (unseen : ∀ x ∈ l, x.1 ∉ seen) : firsts seen l = l := by
  induction l generalizing seen with
  | nil => rfl
  | cons x l ih =>
    obtain ⟨id, p⟩ := x
    obtain ⟨first, others⟩ := List.forall_mem_cons.mp unseen
    rw [List.map_cons, List.nodup_cons] at distinct
    have fresh : ∀ x ∈ l, x.1 ∉ id :: seen := by
      intro x hx
      rw [List.mem_cons, not_or]
      have mem : x.1 ∈ l.map Prod.fst := List.mem_map_of_mem hx
      exact ⟨fun same => distinct.1 (same ▸ mem), others x hx⟩
    rw [firsts, ih distinct.2 fresh, if_neg (by simpa using first)]

theorem names_ofVisits (visits : List Visit) :
    ((ofVisits visits).map Prod.fst).Sublist (visits.map fun v => v.step.id) := by
  induction visits with
  | nil => exact List.nil_sublist _
  | cons v visits ih =>
    obtain ⟨step, depth, position⟩ := v
    cases step with
    | observer h c acts => exact ih.cons_cons _
    | _ => exact ih.cons _

/-- Where no two steps have one name, no observer is left out of the table. -/
theorem table_eq_ofVisits {steps : List Step}
    (distinct : ((Forest.everyStep steps).map Step.id).Nodup) :
    table steps = ofVisits (Forest.walk steps) := by
  rw [← Forest.map_step_walk, List.map_map] at distinct
  exact firsts_eq_self (distinct.sublist (names_ofVisits _)) (by simp)

end Priority

/-- In a run of a script without repeated names every observer has the priority of its own place. -/
theorem Script.priority_of_stands {s : Script} (distinct : s.ids.Nodup) {r : Run}
    (hr : r.script = s.withDefaults) {o : Observer} {depth position : Nat}
    (stands : o.Stands s.withDefaults.steps depth position) :
    (Priority.table r.script.steps).lookup o.id = some (r.priority o.id) ∧
      r.priority o.id = Priority.ofPlace depth position := by
  rw [← s.ids_withDefaults] at distinct
  have found := Priority.lookup_table distinct stands.observes
  rw [Run.priority, hr, found]
  exact ⟨rfl, rfl⟩

end DeskScript

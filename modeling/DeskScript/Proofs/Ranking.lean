import DeskScript.Engine.State
import DeskScript.Proofs.Ticks
import DeskScript.Proofs.Walk

/-! Which of two observers of a script comes first, by where they stand in it. -/

namespace DeskScript

/-- Whether an observer called `id` stands in the forest at this depth, in this place among its
siblings. -/
def Forest.Observes (steps : List Step) (id : String) (depth position : Nat) : Prop :=
  ∃ siblings h c acts, Forest.Level steps depth siblings ∧
    siblings[position]? = some (.observer h c acts) ∧ h.id = id

namespace Priority

/-! ### The priority of a place -/

/-- The priority of a place as an integer: the depth counts a thousand, as far as there is room for
it, and the position counts one. -/
def rank (depth position : Nat) : Int :=
  min (1000 * (if depth < 1 <<< 31 then depth else 2147483 : Nat)) (1 <<< 31 - 1) -
    (if position < 1 <<< 31 then position else 999 : Nat)

theorem toInt_ofPlace (depth position : Nat) : (ofPlace depth position).toInt = rank depth position := by
  have least : Int32.minValue.toInt = -2147483648 := by decide
  have greatest : Int32.maxValue.toInt = 2147483647 := by decide
  unfold ofPlace rank clamp
  rw [least, greatest]
  dsimp only
  rw [Int32.toInt_ofInt_of_le]
  · split_ifs <;> omega
  · split_ifs <;> omega
  · split_ifs <;> omega

theorem ofPlace_lt_iff {depth depth' i j : Nat} :
    ofPlace depth i < ofPlace depth' j ↔ rank depth i < rank depth' j := by
  rw [Int32.lt_iff_toInt_lt, toInt_ofPlace, toInt_ofPlace]

/-- A deeper place comes first as long as its position does not outweigh the depth. -/
theorem ofPlace_lt_of_deeper {depth depth' i j : Nat} (deeper : depth < depth')
    (room : depth' ≤ 2147483) (hi : i < 1 <<< 31) (hj : j < 1 <<< 31) :
    ofPlace depth i < ofPlace depth' j ↔ j < i + 1000 * (depth' - depth) := by
  rw [ofPlace_lt_iff]
  unfold rank
  rw [if_pos hi, if_pos hj, if_pos (by omega), if_pos (by omega)]
  omega

theorem ofPlace_lt_of_elder {depth i j : Nat} (elder : i < j) (hj : j < 1 <<< 31) :
    ofPlace depth j < ofPlace depth i := by
  have hi : i < 1 <<< 31 := Nat.lt_trans elder hj
  rw [ofPlace_lt_iff]
  unfold rank
  rw [if_pos hi, if_pos hj]
  omega

/-! ### The table -/

/-- A name is found in the table with its only entry. -/
theorem lookup_firsts {id : String} {p : Int32} {l : List (String × Int32)} {seen : List String}
    (unseen : id ∉ seen) (mem : (id, p) ∈ l) (only : ∀ q, (id, q) ∈ l → q = p) :
    (firsts seen l).lookup id = some p := by
  induction l generalizing seen with
  | nil => cases mem
  | cons entry l ih =>
    obtain ⟨name, q⟩ := entry
    have later (other : name ≠ id) : (id, p) ∈ l := by
      rcases List.mem_cons.mp mem with same | mem
      · exact absurd (congrArg Prod.fst same).symm other
      · exact mem
    have only' : ∀ q, (id, q) ∈ l → q = p := fun q hq => only q (List.mem_cons_of_mem _ hq)
    unfold firsts
    split
    · rename_i known
      have other : name ≠ id := by
        rintro rfl
        exact unseen (List.contains_iff_mem.mp known)
      exact ih unseen (later other) only'
    · by_cases same : name = id
      · subst same
        rw [only q List.mem_cons_self]
        simp
      · have apart : (id == name) = false := by simpa using Ne.symm same
        rw [List.lookup_cons, apart]
        refine ih ?_ (later same) only'
        rw [List.mem_cons]
        rintro (rfl | known)
        · exact same rfl
        · exact unseen known

/-- Where no two steps have one name, the table has the priority of the place of every observer. -/
theorem lookup_table {steps : List Step} {id : String} {depth position : Nat}
    (distinct : ((Forest.everyStep steps).map Step.id).Nodup)
    (h : Forest.Observes steps id depth position) :
    (table steps).lookup id = some (ofPlace depth position) := by
  obtain ⟨siblings, h, c, acts, level, at_, rfl⟩ := h
  have visited := level.mem_walk at_
  have names : ((Forest.walk steps).map fun v => v.step.id).Nodup := by
    rwa [← Forest.map_step_walk, List.map_map] at distinct
  refine lookup_firsts List.not_mem_nil ?_ ?_
  · exact List.mem_filterMap.mpr ⟨_, visited, rfl⟩
  · intro q hq
    obtain ⟨v, hv, hp⟩ := List.mem_filterMap.mp hq
    split at hp
    · rename_i h' c' acts' hs
      obtain ⟨hid, rfl⟩ := Prod.mk.inj (Option.some.inj hp)
      have same : v = ⟨.observer h c acts, depth, position⟩ := by
        refine List.inj_on_of_nodup_map names hv visited ?_
        rw [hs]
        exact hid
      rw [same]
    · cases hp

end Priority

/-! ### Ticks -/

namespace Registry

/-- An observer fires only after every active observer with a higher priority was looked at and its
condition did not hold. -/
theorem looked_of_fired {v : Outcomes} {es : List Entry} {e f : Entry}
    (sorted : es.Pairwise fun a b => comesFirst a b = true) (names : (es.map Entry.id).Nodup)
    (he : e ∈ es) (hf : f ∈ es) (higher : e.priority < f.priority)
    (fired : v.fired (es.map Entry.observer) = some e.observer) :
    f.observer ∈ v.looked (es.map Entry.observer) ∧ v.holds f.observer = false := by
  have holds : v.holds e.observer = true := List.find?_some fired
  induction es with
  | nil => cases he
  | cons x es ih =>
    rw [List.pairwise_cons] at sorted
    rw [List.map_cons] at fired ⊢
    cases hx : v.holds x.observer with
    | true =>
      rw [Outcomes.fired_of_holds hx] at fired
      have same : x.id = e.id := congrArg Observer.id (Option.some.inj fired)
      obtain rfl : x = e := List.inj_on_of_nodup_map names List.mem_cons_self he same
      rcases List.mem_cons.mp hf with rfl | hf
      · exact absurd higher Int32.lt_irrefl
      · have first := comesFirst_iff.mp (sorted.1 f hf)
        rw [Int32.lt_iff_toInt_lt] at higher
        omega
    | false =>
      rw [Outcomes.fired_of_not_holds hx] at fired
      rw [Outcomes.looked_of_not_holds hx]
      have he : e ∈ es := by
        rcases List.mem_cons.mp he with rfl | he
        · rw [hx] at holds
          cases holds
        · exact he
      rcases List.mem_cons.mp hf with rfl | hf
      · exact ⟨List.mem_cons_self, hx⟩
      · rw [List.map_cons, List.nodup_cons] at names
        obtain ⟨looked, fails⟩ := ih sorted.2 names.2 he hf fired
        exact ⟨List.mem_cons_of_mem _ looked, fails⟩

end Registry

/-! ### Runs -/

/-- Whether the observer is active in the registry with the priority that the run gives it. -/
structure Run.Watches (run : Run) (r : Registry) (e : Entry) : Prop where
  mem : e ∈ r.entries
  active : e.active = true
  priority : e.priority = run.priority e.id

/-- Of two observers of a script without repeated names the elder sibling has the higher priority, and
the deeper one has it exactly where its position is less than that of the other and a thousand for each
level between them. When both are watched the other fires only after the condition of the one with the
higher priority was looked at and did not hold. -/
theorem Run.ranks {run : Run} {a b : String} {depth depth' i j : Nat}
    (distinct : ((Forest.everyStep run.script.steps).map Step.id).Nodup)
    (ha : Forest.Observes run.script.steps a depth i)
    (hb : Forest.Observes run.script.steps b depth' j) :
    (Priority.table run.script.steps).lookup a = some (run.priority a) ∧
      (Priority.table run.script.steps).lookup b = some (run.priority b) ∧
      (depth < depth' → depth' ≤ 2147483 → i < 1 <<< 31 → j < 1 <<< 31 →
        (run.priority a < run.priority b ↔ j < i + 1000 * (depth' - depth))) ∧
      (depth = depth' → i < j → j < 1 <<< 31 → run.priority b < run.priority a) ∧
      ∀ (r : Registry) (e f : Entry), (r.entries.map Entry.id).Nodup →
        run.Watches r e → run.Watches r f → e.id = a → f.id = b → run.priority a < run.priority b →
        ∀ log, (Registry.scan r.candidates).Yields log (some e.observer) →
          ∃ v : Outcomes, v.Arise (r.candidates.map Entry.observer) ∧
            log = v.log (r.candidates.map Entry.observer) ∧
            f.observer ∈ v.looked (r.candidates.map Entry.observer) ∧
            v.holds f.observer = false := by
  have fa := Priority.lookup_table distinct ha
  have fb := Priority.lookup_table distinct hb
  have pa : run.priority a = Priority.ofPlace depth i := by rw [Run.priority, fa, Option.getD_some]
  have pb : run.priority b = Priority.ofPlace depth' j := by rw [Run.priority, fb, Option.getD_some]
  refine ⟨by rw [fa, pa], by rw [fb, pb], ?_, ?_, ?_⟩
  · rw [pa, pb]
    exact Priority.ofPlace_lt_of_deeper
  · rintro rfl elder hj
    rw [pa, pb]
    exact Priority.ofPlace_lt_of_elder elder hj
  · rintro r e f names he hf rfl rfl higher log yields
    rw [← he.priority, ← hf.priority] at higher
    have names' := Registry.names_candidates names
    obtain ⟨v, arise, hl, fired⟩ := Registry.yields_scan names' yields
    obtain ⟨looked, fails⟩ := Registry.looked_of_fired r.pairwise_candidates names'
      (Registry.mem_candidates.mpr ⟨he.mem, he.active⟩)
      (Registry.mem_candidates.mpr ⟨hf.mem, hf.active⟩) higher fired.symm
    exact ⟨v, arise, hl, looked, fails⟩

def Step.watcher (id : String) : Step := .observer ⟨id, none, none, none⟩ (.all []) []

/-- The one inside the group comes before the one in front of it. -/
theorem Run.ranks_nested :
    let group : Step := .group ⟨"group", none, none, none⟩ "" [.watcher "nested"]
    let run : Run := ⟨0, { (default : Script) with steps := [.watcher "top", group] }⟩
    run.priority "top" < run.priority "nested" := by
  intro group run
  have distinct : ((Forest.everyStep run.script.steps).map Step.id).Nodup := by decide
  have top : Forest.Observes run.script.steps "top" 0 0 := ⟨_, _, _, _, .top, rfl, rfl⟩
  have nested : Forest.Observes run.script.steps "nested" 1 0 :=
    ⟨_, _, _, _, .inside .top (List.mem_cons_of_mem _ List.mem_cons_self) List.mem_cons_self, rfl, rfl⟩
  have ranks := Run.ranks distinct top nested
  exact (ranks.2.2.1 (by decide) (by decide) (by decide) (by decide)).mpr (by decide)

theorem Forest.everyStep_of_flat {steps : List Step} (flat : ∀ s ∈ steps, s.within = []) :
    everyStep steps = steps := by
  induction steps with
  | nil => rfl
  | cons s steps ih =>
    obtain ⟨first, others⟩ := List.forall_mem_cons.mp flat
    rw [everyStep, first, ih others, List.nil_append]

def Step.emptyGroup (id : String) : Step := .group ⟨id, none, none, none⟩ "" []

/-- Groups that differ by the lengths of their names. -/
def Forest.crowd : List Step :=
  (List.range 1001).map fun n => Step.emptyGroup (String.ofList (List.replicate n 'x'))

theorem Forest.nodup_crowd : (crowd.map Step.id).Nodup := by
  unfold crowd
  rw [List.map_map]
  refine List.Nodup.map ?_ List.nodup_range
  intro n m h
  have chars : List.replicate n 'x' = List.replicate m 'x' := String.ofList_injective h
  simpa using congrArg List.length chars

theorem Forest.eq_of_mem_crowd {id : String} (h : id ∈ crowd.map Step.id) :
    ∀ c ∈ id.toList, c = 'x' := by
  unfold crowd at h
  rw [List.map_map] at h
  obtain ⟨n, -, rfl⟩ := List.mem_map.mp h
  intro c hc
  change c ∈ (String.ofList (List.replicate n 'x')).toList at hc
  rw [String.toList_ofList] at hc
  exact List.eq_of_mem_replicate hc

/-- A group with an observer behind a crowd. -/
def Step.crowdedGroup : Step :=
  .group ⟨"group", none, none, none⟩ "" (Forest.crowd ++ [.watcher "deep"])

/-- The names of the crowd differ from all others, which have other letters. -/
theorem Forest.nodup_crowded :
    ((everyStep [.watcher "shallow", .crowdedGroup]).map Step.id).Nodup := by
  have flat : everyStep (crowd ++ [.watcher "deep"]) = crowd ++ [.watcher "deep"] := by
    apply everyStep_of_flat
    intro s hs
    rcases List.mem_append.mp hs with hs | hs
    · obtain ⟨n, -, rfl⟩ := List.mem_map.mp hs
      rfl
    · rw [List.mem_singleton.mp hs]
      rfl
  have ids : (everyStep [.watcher "shallow", .crowdedGroup]).map Step.id =
      "shallow" :: "group" :: (crowd.map Step.id ++ ["deep"]) := by
    simp only [everyStep, Step.crowdedGroup, Step.within, flat, List.append_nil, List.map_cons,
      List.map_append]
    rfl
  have out (id : String) (h : id.toList.any (· ≠ 'x') = true) : id ∉ crowd.map Step.id := by
    obtain ⟨c, hc, other⟩ := List.any_eq_true.mp h
    exact fun mem => of_decide_eq_true other (eq_of_mem_crowd mem c hc)
  rw [ids, List.nodup_cons, List.nodup_cons, List.nodup_append]
  refine ⟨?_, ?_, nodup_crowd, by simp, ?_⟩
  · simpa using out "shallow" (by decide)
  · simpa using out "group" (by decide)
  · intro id hid other hother same
    rw [List.mem_singleton.mp hother] at same
    exact out "deep" (by decide) (same ▸ hid)

theorem Forest.observes_crowded :
    Observes [.watcher "shallow", .crowdedGroup] "deep" 1 1001 := by
  have place : (crowd ++ [Step.watcher "deep"])[1001]? = some (.watcher "deep") := by
    have length : crowd.length = 1001 := by simp [crowd]
    rw [List.getElem?_append_right (by omega), length]
    rfl
  have inside : Step.crowdedGroup ∈ [Step.watcher "shallow", .crowdedGroup] :=
    List.mem_cons_of_mem _ List.mem_cons_self
  exact ⟨_, _, _, _, .inside .top inside List.mem_cons_self, place, rfl⟩

/-- An observer behind a crowd is deeper than one in front of it all, but comes after it: the shallow one
fires although both conditions hold. -/
theorem Run.ranks_crowded :
    let group : Step := .group ⟨"group", none, none, none⟩ "" (Forest.crowd ++ [.watcher "deep"])
    let run : Run := ⟨0, { (default : Script) with steps := [.watcher "shallow", group] }⟩
    let r := (Registry.register {} ⟨"deep", .all [], []⟩ (run.priority "deep")).register
      ⟨"shallow", .all [], []⟩ (run.priority "shallow")
    ((Forest.everyStep run.script.steps).map Step.id).Nodup ∧
      Forest.Observes run.script.steps "shallow" 0 0 ∧ Forest.Observes run.script.steps "deep" 1 1001 ∧
      run.priority "deep" < run.priority "shallow" ∧
      ∀ find, ((Registry.scan r.candidates).run find).1.map Observer.id = some "shallow" := by
  intro group run r
  have distinct : ((Forest.everyStep run.script.steps).map Step.id).Nodup := Forest.nodup_crowded
  have top : Forest.Observes run.script.steps "shallow" 0 0 := ⟨_, _, _, _, .top, rfl, rfl⟩
  have nested : Forest.Observes run.script.steps "deep" 1 1001 := Forest.observes_crowded
  have ps : run.priority "shallow" = 0 := by
    rw [Run.priority, Priority.lookup_table distinct top]
    decide
  have pd : run.priority "deep" = -1 := by
    rw [Run.priority, Priority.lookup_table distinct nested]
    decide
  refine ⟨distinct, top, nested, by rw [ps, pd]; decide, ?_⟩
  intro find
  have order : r.candidates =
      [⟨⟨"shallow", .all [], []⟩, true, 0, 2⟩, ⟨⟨"deep", .all [], []⟩, true, -1, 1⟩] := by
    simp only [r, ps, pd]
    simp [Registry.register, Registry.find?, Registry.candidates, List.mergeSort, Registry.comesFirst]
  rw [order]
  rfl

end DeskScript

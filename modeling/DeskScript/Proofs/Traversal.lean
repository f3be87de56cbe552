import DeskScript.Proofs.Editing

/-! Each step of a forest stands at the end of one path. The walk goes through the paths in their
lexicographic order, in which a step comes before those inside it and before its younger siblings; and
editing comes to the steps in the order of the walk. -/

namespace DeskScript.Forest

/-! ### Paths -/

/-- A way down into a forest: which list inside the step passed last, and which place in it, again and
again. -/
abbrev Path := List (Nat × Nat)

/-- The lexicographic order. -/
def Path.Before : Path → Path → Prop := List.Lex (Prod.Lex (· < ·) (· < ·))

/-- The visit to the step at the end of a path through `lists`, which have `depth` steps around them. -/
def visitAt? (lists : List (List Step)) (depth : Nat) : Path → Option Visit
  | [] => none
  | (l, i) :: path =>
    (lists[l]?.bind (·[i]?)).bind fun s =>
      if path.isEmpty then some ⟨s, depth, i⟩ else visitAt? s.childLists (depth + 1) path

end Forest

mutual

/-- The paths to the steps inside a step. -/
def Step.pathsInside : Step → List Forest.Path
  | .action _ _ => []
  | .conditional _ _ thens elses => Forest.paths 0 0 thens ++ Forest.paths 1 0 elses
  | .observer _ _ steps | .group _ _ steps => Forest.paths 0 0 steps

/-- The paths through list number `list` to steps in a row, of which the first has the place `position`
there, and to those inside them. -/
def Forest.paths (list position : Nat) : List Step → List Forest.Path
  | [] => []
  | s :: steps =>
    [(list, position)] ::
      (s.pathsInside.map ((list, position) :: ·) ++ Forest.paths list (position + 1) steps)

end

namespace Forest

section

variable {lists : List (List Step)} {depth : Nat} {l i : Nat} {s : Step}

theorem visitAt?_singleton (h : lists[l]?.bind (·[i]?) = some s) :
    visitAt? lists depth [(l, i)] = some ⟨s, depth, i⟩ := by
  rw [visitAt?, h]
  rfl

theorem visitAt?_cons (h : lists[l]?.bind (·[i]?) = some s) {path : Path} (more : path ≠ []) :
    visitAt? lists depth ((l, i) :: path) = visitAt? s.childLists (depth + 1) path := by
  rw [visitAt?, h, Option.bind_some, if_neg (by simpa using more)]

/-- The step behind `before` in a list. -/
theorem bind_getElem?_of_row {before row : List Step} (h : lists[l]? = some (before ++ s :: row)) :
    lists[l]?.bind (·[before.length]?) = some s := by
  rw [h]
  simp

end

theorem exists_of_mem_paths {l k : Nat} {row : List Step} {path : Path} (h : path ∈ paths l k row) :
    ∃ i rest, path = (l, i) :: rest ∧ k ≤ i := by
  induction row generalizing k with
  | nil => cases h
  | cons s row ih =>
    rw [paths, List.mem_cons, List.mem_append, List.mem_map] at h
    rcases h with rfl | ⟨rest, -, rfl⟩ | h
    · exact ⟨k, [], rfl, Nat.le_refl k⟩
    · exact ⟨k, rest, rfl, Nat.le_refl k⟩
    · obtain ⟨i, rest, rfl, later⟩ := ih h
      exact ⟨i, rest, rfl, Nat.le_of_succ_le later⟩

theorem nil_notMem_pathsInside (s : Step) : [] ∉ s.pathsInside := by
  have row (l k : Nat) (row : List Step) : [] ∉ paths l k row := fun h => by
    obtain ⟨i, rest, none, -⟩ := exists_of_mem_paths h
    cases none
  cases s with
  | action h a => exact List.not_mem_nil
  | conditional h c thens elses =>
    rw [Step.pathsInside, List.mem_append, not_or]
    exact ⟨row 0 0 thens, row 1 0 elses⟩
  | observer h c steps | group h name steps => exact row 0 0 steps

/-! ### The order of the paths -/

mutual

theorem pairwise_pathsInside (s : Step) : s.pathsInside.Pairwise Path.Before := by
  cases s with
  | action h a => exact .nil
  | conditional h c thens elses =>
    rw [Step.pathsInside, List.pairwise_append]
    refine ⟨pairwise_paths 0 0 thens, pairwise_paths 1 0 elses, fun p hp q hq => ?_⟩
    obtain ⟨i, rest, rfl, -⟩ := exists_of_mem_paths hp
    obtain ⟨j, rest', rfl, -⟩ := exists_of_mem_paths hq
    exact .rel (.left _ _ Nat.one_pos)
  | observer h c steps | group h name steps => exact pairwise_paths 0 0 steps

theorem pairwise_paths (l k : Nat) (row : List Step) : (paths l k row).Pairwise Path.Before := by
  cases row with
  | nil => exact .nil
  | cons s row =>
    have later {q : Path} (hq : q ∈ paths l (k + 1) row) (p : Path) : Path.Before ((l, k) :: p) q := by
      obtain ⟨i, rest, rfl, behind⟩ := exists_of_mem_paths hq
      exact .rel (.right _ behind)
    rw [paths, List.pairwise_cons, List.pairwise_append, List.pairwise_map]
    refine ⟨fun q hq => ?_, ?_, pairwise_paths l (k + 1) row, fun p hp q hq => ?_⟩
    · rcases List.mem_append.mp hq with hq | hq
      · obtain ⟨p, hp, rfl⟩ := List.mem_map.mp hq
        obtain ⟨place, rest, rfl⟩ := List.exists_cons_of_ne_nil
          (ne_of_mem_of_not_mem hp (nil_notMem_pathsInside s))
        exact .cons .nil
      · exact later hq []
    · exact (pairwise_pathsInside s).imp fun h => .cons h
    · obtain ⟨p, -, rfl⟩ := List.mem_map.mp hp
      exact later hq p

end

/-! ### What stands at the ends -/

/-- A path through a single list that leads to a step begins in that list. -/
theorem exists_path_iff {steps : List Step} {depth : Nat} {path : Path} :
    (∃ i rest, path = (0, i) :: rest ∧ 0 ≤ i ∧ (visitAt? [steps] depth path).isSome = true) ↔
      (visitAt? [steps] depth path).isSome = true := by
  constructor
  · rintro ⟨-, -, -, -, found⟩
    exact found
  · intro found
    match path, found with
    | (0, i) :: rest, found => exact ⟨i, rest, rfl, Nat.zero_le i, found⟩

mutual

theorem mem_pathsInside_iff (s : Step) (depth : Nat) {path : Path} :
    path ∈ s.pathsInside ↔ (visitAt? s.childLists depth path).isSome = true := by
  cases s with
  | action h a => cases path <;> simp [Step.pathsInside, Step.childLists, visitAt?]
  | conditional h c thens elses =>
    have first := @mem_paths_iff [thens, elses] 0 [] thens rfl depth path
    have second := @mem_paths_iff [thens, elses] 1 [] elses rfl depth path
    rw [Step.pathsInside, List.mem_append, Step.childLists]
    refine (or_congr first second).trans ⟨?_, ?_⟩
    · rintro (⟨-, -, -, -, found⟩ | ⟨-, -, -, -, found⟩) <;> exact found
    · intro found
      match path, found with
      | (0, i) :: rest, found => exact .inl ⟨i, rest, rfl, Nat.zero_le i, found⟩
      | (1, i) :: rest, found => exact .inr ⟨i, rest, rfl, Nat.zero_le i, found⟩
  | observer h c steps | group h name steps =>
    exact (@mem_paths_iff [steps] 0 [] steps rfl depth path).trans exists_path_iff

theorem mem_paths_iff {lists : List (List Step)} {l : Nat} (before row : List Step)
    (place : lists[l]? = some (before ++ row)) (depth : Nat) {path : Path} :
    path ∈ paths l before.length row ↔ ∃ i rest, path = (l, i) :: rest ∧ before.length ≤ i ∧
      (visitAt? lists depth path).isSome = true := by
  cases row with
  | nil =>
    constructor
    · intro h
      cases h
    rintro ⟨i, rest, rfl, beyond, found⟩
    have none : before[i]? = none := List.getElem?_eq_none beyond
    simp [visitAt?, place, none] at found
  | cons s row =>
    have own := bind_getElem?_of_row place
    have others := @mem_paths_iff lists l (before ++ [s]) row (by simpa using place) depth path
    rw [List.length_append, List.length_singleton] at others
    rw [paths, List.mem_cons, List.mem_append, List.mem_map, others]
    constructor
    · rintro (rfl | ⟨rest, inside, rfl⟩ | ⟨i, rest, rfl, behind, found⟩)
      · exact ⟨_, [], rfl, Nat.le_refl _, by rw [visitAt?_singleton own]; rfl⟩
      · refine ⟨_, rest, rfl, Nat.le_refl _, ?_⟩
        rw [visitAt?_cons own (ne_of_mem_of_not_mem inside (nil_notMem_pathsInside s))]
        exact (mem_pathsInside_iff s (depth + 1)).mp inside
      · exact ⟨i, rest, rfl, Nat.le_of_succ_le behind, found⟩
    · rintro ⟨i, rest, rfl, least, found⟩
      rcases Nat.eq_or_lt_of_le least with rfl | behind
      · cases rest with
        | nil => exact .inl rfl
        | cons next rest =>
          rw [visitAt?_cons own (List.cons_ne_nil _ _)] at found
          exact .inr (.inl ⟨_, (mem_pathsInside_iff s (depth + 1)).mpr found, rfl⟩)
      · exact .inr (.inr ⟨i, rest, rfl, behind, found⟩)

end

mutual

theorem map_visitAt?_pathsInside (s : Step) (depth : Nat) :
    s.pathsInside.map (visitAt? s.childLists (depth + 1)) = (s.visitsInside depth).map some := by
  cases s with
  | action h a => rfl
  | conditional h c thens elses =>
    have first := @map_visitAt?_paths [thens, elses] 0 [] thens rfl (depth + 1)
    have second := @map_visitAt?_paths [thens, elses] 1 [] elses rfl (depth + 1)
    rw [Step.pathsInside, Step.visitsInside, List.map_append, List.map_append]
    exact congrArg₂ (· ++ ·) first second
  | observer h c steps | group h name steps =>
    exact @map_visitAt?_paths [steps] 0 [] steps rfl (depth + 1)

theorem map_visitAt?_paths {lists : List (List Step)} {l : Nat} (before row : List Step)
    (place : lists[l]? = some (before ++ row)) (depth : Nat) :
    (paths l before.length row).map (visitAt? lists depth) =
      (visits depth before.length row).map some := by
  cases row with
  | nil => rfl
  | cons s row =>
    have own := bind_getElem?_of_row place
    have inside : (s.pathsInside.map ((l, before.length) :: ·)).map (visitAt? lists depth) =
        (s.visitsInside depth).map some := by
      rw [← map_visitAt?_pathsInside s depth, List.map_map]
      refine List.map_congr_left fun path hp => ?_
      exact visitAt?_cons own (ne_of_mem_of_not_mem hp (nil_notMem_pathsInside s))
    have others := @map_visitAt?_paths lists l (before ++ [s]) row
      (by simpa using place) depth
    rw [List.length_append, List.length_singleton] at others
    rw [paths, visits, List.map_cons, List.map_cons, List.map_append, List.map_append,
      visitAt?_singleton own, inside, others]

end

mutual

theorem length_visitsInside (s : Step) (depth : Nat) :
    (s.visitsInside depth).length + 1 = s.count := by
  cases s with
  | action h a => rfl
  | conditional h c thens elses =>
    rw [Step.visitsInside, List.length_append, length_visits, length_visits, Step.count]
    omega
  | observer h c steps | group h name steps =>
    rw [Step.visitsInside, length_visits, Step.count, Nat.add_comm]

theorem length_visits (depth position : Nat) (row : List Step) :
    (visits depth position row).length = count row := by
  cases row with
  | nil => rfl
  | cons s row =>
    rw [visits, List.length_cons, List.length_append, length_visits, count, ← length_visitsInside s depth]
    omega

end

/-! ### Editing -/

section Edited

variable {σ : Type} {f : σ → Step → Step × σ}

mutual

theorem state_editInside (s : Step) (state : σ) (depth : Nat) : (s.editInside f state).2 =
    (s.visitsInside depth).foldl (fun state v => (f state v.step).2) state := by
  cases s with
  | action h a => rfl
  | conditional h c thens elses =>
    rw [Step.visitsInside, List.foldl_append, ← state_edited thens, ← state_edited elses]
    rfl
  | observer h c steps | group h name steps => exact state_edited steps state _ _

/-- The steps are edited in the order in which they are visited. -/
theorem state_edited (row : List Step) (state : σ) (depth position : Nat) :
    (edited f state row).2 =
      (visits depth position row).foldl (fun state v => (f state v.step).2) state := by
  cases row with
  | nil => rfl
  | cons s row =>
    rw [visits, List.foldl_cons, List.foldl_append, ← state_editInside s, ← state_edited row]
    rfl

end

/-- Where a visit goes. -/
def place (v : Visit) : Nat × Nat := (v.depth, v.position)

mutual

theorem places_editInside (keeps : ∀ state s, (f state s).1.childLists = s.childLists) (s t : Step)
    (state : σ) (depth : Nat) (lists : t.childLists = (s.editInside f state).1) :
    (t.visitsInside depth).map place = (s.visitsInside depth).map place := by
  rw [Step.visitsInside_eq, lists, Step.visitsInside_eq]
  cases s with
  | action h a => rfl
  | conditional h c thens elses =>
    simp only [Step.editInside, Step.childLists, List.flatMap_cons, List.flatMap_nil, List.append_nil,
      List.map_append, places_edited keeps thens, places_edited keeps elses]
  | observer h c steps | group h name steps =>
    simp only [Step.editInside, Step.childLists, List.flatMap_cons, List.flatMap_nil, List.append_nil,
      places_edited keeps steps]

/-- Every step is still where it was. -/
theorem places_edited (keeps : ∀ state s, (f state s).1.childLists = s.childLists) (row : List Step)
    (state : σ) (depth position : Nat) :
    (visits depth position (edited f state row).1).map place =
      (visits depth position row).map place := by
  cases row with
  | nil => rfl
  | cons s row =>
    have lists : ((f state s).1.withChildLists (s.editInside f (f state s).2).1).childLists =
        (s.editInside f (f state s).2).1 := by
      apply Step.childLists_withChildLists
      rw [keeps]
      cases s <;> rfl
    rw [edited, visits, visits, List.map_cons, List.map_cons, List.map_append, List.map_append,
      places_editInside keeps s _ _ depth lists, places_edited keeps row]
    rfl

end

end Edited

/-- The walk makes the visits of the recursion over the trees, as many as there are steps: it comes to
the ends of all paths that lead to a step, in the order of the paths. An edit that leaves the lists inside
each step alone is the recursion over the trees as well, hands the steps to `f` in the order of the walk
and leaves every step in its place. -/
theorem traverses {σ : Type} {f : σ → Step → Step × σ}
    (keeps : ∀ state s, (f state s).1.childLists = s.childLists) (steps : List Step) (state : σ) :
    walk steps = visits 0 0 steps ∧ (walk steps).length = count steps ∧
    (∃ paths : List Path, paths.Pairwise Path.Before ∧
      (∀ path, path ∈ paths ↔ (visitAt? [steps] 0 path).isSome = true) ∧
      paths.map (visitAt? [steps] 0) = (walk steps).map some) ∧
    edit f state steps = edited f state steps ∧
    (edit f state steps).2 = (walk steps).foldl (fun state v => (f state v.step).2) state ∧
    (walk (edit f state steps).1).map place = (walk steps).map place := by
  have top : [steps][0]? = some ([] ++ steps) := rfl
  have visited := walk_eq_visits steps
  have recursion := edit_eq_edited f state steps
  refine ⟨visited, ?_, ⟨paths 0 0 steps, pairwise_paths 0 0 steps, fun path => ?_, ?_⟩, recursion, ?_, ?_⟩
  · rw [visited, length_visits]
  · exact (mem_paths_iff [] steps top 0).trans exists_path_iff
  · rw [visited]
    exact map_visitAt?_paths [] steps top 0
  · rw [recursion, visited, state_edited steps state 0 0]
  · rw [walk_eq_visits, visited, recursion, places_edited keeps]

/-- The step under a number of its own, and the number after it. -/
def numbered (n : Nat) (s : Step) : Step × Nat :=
  (s.withHeader { s.header with id := toString n }, n + 1)

/-- A group and a conditional with steps in both branches. -/
def branching : List Step :=
  [.group default "" [.action default (.flow .stop)],
    .conditional default (.all []) [.group default "" []] [.action default (.flow .stop)]]

theorem traverses_numbered :
    (∀ n s, (numbered n s).1.childLists = s.childLists) ∧
    (edit numbered 0 branching).2 = 5 ∧
    (walk branching).length = 5 ∧
    (walk (edit numbered 0 branching).1).map place = [(0, 0), (1, 0), (0, 1), (1, 0), (1, 0)] ∧
    ((edit numbered 0 branching).1.map fun s => s.childLists.map (List.map Step.id)) =
      [[["1"]], [["3"], ["4"]]] := by
  have keeps (n : Nat) (s : Step) : (numbered n s).1.childLists = s.childLists := by cases s <;> rfl
  obtain ⟨visited, length, -, recursion, state, places⟩ := traverses keeps branching 0
  rw [visited] at state places
  refine ⟨keeps, state, length, places, ?_⟩
  rw [recursion]
  decide +kernel

end DeskScript.Forest

import DeskScript.Proofs.Verdict

/-! Conditions that look for the same and find the same. Negations can be brought down to the elements, and
conditions in a list inside a list of the same kind can stand in that list itself, without any change to
what is looked for, in which order and with which result. -/

namespace DeskScript

namespace Inquiry

/-- The result if the elements are looked for by `find`, whose answers may change from one look to the
next; with what was looked for, in order, and the state that `find` is left in. -/
def runWith {σ : Type} (find : σ → Element → Sighting × σ) (state : σ) :
    Inquiry α → α × List (Element × Sighting) × σ
  | .done a => (a, [], state)
  | .ask e next =>
    let (s, state) := find state e
    let (a, log, state) := (next s).runWith find state
    (a, (e, s) :: log, state)

theorem map_map (q : Inquiry α) (f : α → β) (g : β → γ) :
    (q.map f).map g = q.map fun a => g (f a) :=
  bind_bind q _ _

theorem map_id (q : Inquiry α) : (q.map fun a => a) = q := by
  induction q with
  | done a => rfl
  | ask e next ih => exact congrArg (Inquiry.ask e) (funext ih)

end Inquiry

namespace Condition

/-! ### Negations -/

mutual

/-- A condition with no negation in it that is true when the given one is, or for `false` when that is
not. -/
def normalAs (truth : Bool) : Condition → Condition
  | .present e => bif truth then .present e else .absent e
  | .absent e => bif truth then .absent e else .present e
  | .all cs => joint truth (normalListAs truth cs)
  | .any cs => joint (!truth) (normalListAs truth cs)
  | .not c => normalAs (!truth) c

def normalListAs (truth : Bool) : List Condition → List Condition
  | [] => []
  | c :: cs => normalAs truth c :: normalListAs truth cs

end

/-- The negation normal form: negations are pushed through lists and other negations, and the negation of
an element's presence is its absence and conversely. -/
def normal (c : Condition) : Condition := c.normalAs true

/-- There is no negation in the condition. -/
inductive IsNormal : Condition → Prop
  | present (e : Element) : IsNormal (.present e)
  | absent (e : Element) : IsNormal (.absent e)
  | all {cs : List Condition} : (∀ c ∈ cs, IsNormal c) → IsNormal (.all cs)
  | any {cs : List Condition} : (∀ c ∈ cs, IsNormal c) → IsNormal (.any cs)

theorem IsNormal.joint {cs : List Condition} (h : ∀ c ∈ cs, c.IsNormal) (neutral : Bool) :
    (joint neutral cs).IsNormal := by
  cases neutral
  · exact .any h
  · exact .all h

mutual

theorem isNormal_normalAs (truth : Bool) (c : Condition) : (c.normalAs truth).IsNormal := by
  cases c with
  | present e =>
    cases truth
    · exact .absent e
    · exact .present e
  | absent e =>
    cases truth
    · exact .present e
    · exact .absent e
  | all cs | any cs => exact .joint (isNormal_normalListAs truth cs) _
  | not c => exact isNormal_normalAs (!truth) c

theorem isNormal_normalListAs (truth : Bool) (cs : List Condition) :
    ∀ c ∈ normalListAs truth cs, c.IsNormal := by
  cases cs with
  | nil => exact List.forall_mem_nil _
  | cons c cs =>
    exact List.forall_mem_cons.mpr ⟨isNormal_normalAs truth c, isNormal_normalListAs truth cs⟩

end

/-- What was found out, the other way round for `false`. -/
def turned (truth : Bool) (found : Except Failure Bool) : Except Failure Bool := found.map (· == truth)

theorem turned_true (found : Except Failure Bool) : turned true found = found := by
  rcases found with f | _ | _ <;> rfl

theorem turned_eq_ok_iff {truth neutral : Bool} {found : Except Failure Bool} :
    turned truth found = .ok (neutral == truth) ↔ found = .ok neutral := by
  rcases found with f | b
  · simp [turned, Except.map]
  · simp only [turned, Except.map, Except.ok.injEq]
    cases b <;> cases neutral <;> cases truth <;> decide

mutual

theorem inquiry_normalAs (truth : Bool) (c : Condition) :
    (c.normalAs truth).inquiry = c.inquiry.map (turned truth) := by
  cases c with
  | present e | absent e =>
    cases truth
    all_goals
      refine congrArg (Inquiry.ask e) (funext fun s => ?_)
      rcases s with f | _ | _ <;> rfl
  | all cs =>
    have own := inquiry_joint_normalListAs truth true cs
    rwa [Bool.true_beq] at own
  | any cs =>
    have own := inquiry_joint_normalListAs truth false cs
    rwa [Bool.false_beq] at own
  | not c =>
    rw [normalAs, inquiry, Inquiry.map_map, inquiry_normalAs (!truth) c]
    congr 1
    funext found
    rcases found with f | _ | _ <;> cases truth <;> rfl

/-- Turning every operand round turns the list round, and with it the truth that decides. -/
theorem inquiry_joint_normalListAs (truth neutral : Bool) (cs : List Condition) :
    (joint (neutral == truth) (normalListAs truth cs)).inquiry =
      (joint neutral cs).inquiry.map (turned truth) := by
  cases cs with
  | nil =>
    rw [normalListAs, inquiry_joint_nil, inquiry_joint_nil]
    rfl
  | cons c cs =>
    rw [normalListAs, inquiry_joint_cons, inquiry_joint_cons, inquiry_normalAs truth c, Inquiry.map,
      Inquiry.map, Inquiry.bind_bind, Inquiry.bind_bind]
    congr 1
    funext found
    rw [Inquiry.bind]
    by_cases own : found = .ok neutral
    · rw [if_pos (turned_eq_ok_iff.mpr own), if_pos own, inquiry_joint_normalListAs truth neutral cs]
      rfl
    · rw [if_neg fun h => own (turned_eq_ok_iff.mp h), if_neg own]
      rfl

end

/-! ### Lists inside lists -/

/-- The operands that a condition stands for in a list of the kind of `neutral`. -/
def operands : (neutral : Bool) → Condition → List Condition
  | true, .all cs => cs
  | false, .any cs => cs
  | _, c => [c]

mutual

/-- The condition with the operands of a list that stands directly in a list of its kind in the place of
that list, at every depth. -/
def flat : Condition → Condition
  | .present e => .present e
  | .absent e => .absent e
  | .all cs => .all (flatList true cs)
  | .any cs => .any (flatList false cs)
  | .not c => .not (flat c)

def flatList (neutral : Bool) : List Condition → List Condition
  | [] => []
  | c :: cs => operands neutral (flat c) ++ flatList neutral cs

end

/-- No list stands directly in a list of its kind. -/
inductive IsFlat : Condition → Prop
  | present (e : Element) : IsFlat (.present e)
  | absent (e : Element) : IsFlat (.absent e)
  | all {cs : List Condition} : (∀ c ∈ cs, IsFlat c) → (∀ c ∈ cs, ∀ ds, c ≠ .all ds) → IsFlat (.all cs)
  | any {cs : List Condition} : (∀ c ∈ cs, IsFlat c) → (∀ c ∈ cs, ∀ ds, c ≠ .any ds) → IsFlat (.any cs)
  | not {c : Condition} : IsFlat c → IsFlat (.not c)

theorem operands_joint (neutral : Bool) (cs : List Condition) :
    operands neutral (joint neutral cs) = cs := by
  cases neutral <;> rfl

/-- A condition is a list of the kind or stands for itself. -/
theorem operands_cases (neutral : Bool) (c : Condition) :
    (∃ cs, c = joint neutral cs) ∨ (operands neutral c = [c] ∧ ∀ cs, c ≠ joint neutral cs) := by
  cases neutral
  · cases c with
    | any cs => exact .inl ⟨cs, rfl⟩
    | _ => exact .inr ⟨rfl, fun _ => Condition.noConfusion⟩
  · cases c with
    | all cs => exact .inl ⟨cs, rfl⟩
    | _ => exact .inr ⟨rfl, fun _ => Condition.noConfusion⟩

theorem IsFlat.operands {c : Condition} (h : c.IsFlat) (neutral : Bool) :
    ∀ d ∈ operands neutral c, d.IsFlat ∧ ∀ ds, d ≠ joint neutral ds := by
  rcases operands_cases neutral c with ⟨cs, rfl⟩ | ⟨own, apart⟩
  · rw [operands_joint]
    cases neutral
    · cases h with
      | any inside apart => exact fun d hd => ⟨inside d hd, apart d hd⟩
    · cases h with
      | all inside apart => exact fun d hd => ⟨inside d hd, apart d hd⟩
  · rw [own]
    exact List.forall_mem_singleton.mpr ⟨h, apart⟩

mutual

theorem isFlat_flat (c : Condition) : c.flat.IsFlat := by
  cases c with
  | present e => exact .present e
  | absent e => exact .absent e
  | all cs =>
    have inside := isFlat_flatList true cs
    exact .all (fun c hc => (inside c hc).1) fun c hc => (inside c hc).2
  | any cs =>
    have inside := isFlat_flatList false cs
    exact .any (fun c hc => (inside c hc).1) fun c hc => (inside c hc).2
  | not c => exact .not (isFlat_flat c)

theorem isFlat_flatList (neutral : Bool) (cs : List Condition) :
    ∀ c ∈ flatList neutral cs, c.IsFlat ∧ ∀ ds, c ≠ joint neutral ds := by
  cases cs with
  | nil => exact List.forall_mem_nil _
  | cons c cs =>
    exact List.forall_mem_append.mpr ⟨(isFlat_flat c).operands neutral, isFlat_flatList neutral cs⟩

end

theorem inquiry_joint_append (neutral : Bool) (cs ds : List Condition) :
    (joint neutral (cs ++ ds)).inquiry = (joint neutral cs).inquiry.bind fun truth =>
      if truth = .ok neutral then (joint neutral ds).inquiry else .done truth := by
  induction cs with
  | nil => rw [List.nil_append, inquiry_joint_nil, Inquiry.bind, if_pos rfl]
  | cons c cs ih =>
    rw [List.cons_append, inquiry_joint_cons, inquiry_joint_cons, Inquiry.bind_bind]
    congr 1
    funext truth
    by_cases own : truth = .ok neutral
    · rw [if_pos own, if_pos own, ih]
    · rw [if_neg own, if_neg own, Inquiry.bind, if_neg own]

/-- A list at the head of a list of its kind asks what its operands ask in its place. -/
theorem inquiry_joint_operands (neutral : Bool) (c : Condition) (cs : List Condition) :
    (joint neutral (operands neutral c ++ cs)).inquiry = (joint neutral (c :: cs)).inquiry := by
  rcases operands_cases neutral c with ⟨ds, rfl⟩ | ⟨own, -⟩
  · rw [operands_joint, inquiry_joint_append, inquiry_joint_cons]
  · rw [own, List.singleton_append]

mutual

theorem inquiry_flat (c : Condition) : c.flat.inquiry = c.inquiry := by
  cases c with
  | present e | absent e => rfl
  | all cs => exact inquiry_joint_flatList true cs
  | any cs => exact inquiry_joint_flatList false cs
  | not c => rw [flat, inquiry, inquiry, inquiry_flat c]

theorem inquiry_joint_flatList (neutral : Bool) (cs : List Condition) :
    (joint neutral (flatList neutral cs)).inquiry = (joint neutral cs).inquiry := by
  cases cs with
  | nil => rfl
  | cons c cs =>
    rw [flatList, inquiry_joint_operands, inquiry_joint_cons, inquiry_joint_cons, inquiry_flat c,
      inquiry_joint_flatList neutral cs]

end

/-! ### The same questions -/

/-- The negation normal form of a condition, and the condition without lists in lists of their kind, look
for the same elements in the same order as the condition itself and come to the same result, whatever is
answered and however the answers change. -/
theorem asks_alike (c : Condition) {σ : Type} (find : σ → Element → Sighting × σ) (state : σ) :
    c.normal.IsNormal ∧ c.normal.inquiry.runWith find state = c.inquiry.runWith find state ∧
      c.flat.IsFlat ∧ c.flat.inquiry.runWith find state = c.inquiry.runWith find state := by
  have normal : c.normal.inquiry = c.inquiry := by
    have turned : turned true = fun found => found := funext turned_true
    rw [Condition.normal, inquiry_normalAs, turned, Inquiry.map_id]
  refine ⟨c.isNormal_normalAs true, ?_, c.isFlat_flat, ?_⟩
  · rw [normal]
  · rw [c.inquiry_flat]

end Condition

end DeskScript

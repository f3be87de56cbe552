import DeskScript.Proofs.Inverting
import DeskScript.Proofs.Magnitudes

/-! The numbers of a text are finite wherever they stand in it. -/

namespace DeskScript.Json

/-- Every number in the reading is finite. -/
inductive Reading.Finite : Reading → Prop
  | intro {r : Reading} (own : ∀ n skipped, r = .number (.ok n) skipped → n.IsFinite)
      (parts : ∀ part ∈ r.parts, Reading.Finite part) : Reading.Finite r

/-- The token is no number that is not finite. -/
def Token.Finite (t : Token) : Prop := ∀ n skipped, t = .number (.ok n) skipped → n.IsFinite

/-! ### Tokens -/

/-- A token of another kind is no number. -/
theorem Token.Finite.other {t : Token} (h : ∀ exact skipped, t ≠ .number exact skipped) : t.Finite :=
  fun _ _ hn => absurd hn (h _ _)

theorem scanNumber_finite (c : Char) (gs : List Glyph) : (scanNumber c gs).1.Finite := by
  intro n skipped h
  unfold scanNumber at h
  split at h
  · injection h with value
    exact Numeral.isFinite_value value
  · cases h

theorem scanLiteral_finite (v : Literal) (word : List Char) (gs : List Glyph) :
    (scanLiteral v word gs).1.Finite := by
  unfold scanLiteral
  split <;> exact .other fun _ _ => Token.noConfusion

theorem scanToken_finite (g : Glyph) (gs : List Glyph) : (scanToken g gs).1.Finite := by
  unfold scanToken
  split
  · exact .other fun _ _ => Token.noConfusion
  split
  case h_8 | h_9 | h_10 => exact scanLiteral_finite _ _ _
  case h_11 =>
    split
    · exact scanNumber_finite _ _
    · exact .other fun _ _ => Token.noConfusion
  all_goals exact .other fun _ _ => Token.noConfusion

theorem tokens_finite (gs : List Glyph) : ∀ t ∈ tokens gs, t.Finite := by
  fun_induction tokens gs with
  | case1 gs none => simp
  | case2 gs g rest some t rest' scan ih =>
    refine List.forall_mem_cons.mpr ⟨?_, ih⟩
    have own := scanToken_finite g rest
    rwa [scan] at own
  | case3 gs g rest some t scan =>
    have own := scanToken_finite g rest
    rw [scan] at own
    simpa using own

/-! ### Readings -/

/-- The readings that an array or object under reading holds so far. -/
def Frame.readings : Frame → List Reading
  | .array before => before
  | .object before _ => before.map Prod.snd

/-- The readings that what is awaited will be put to. -/
def Awaited.readings : Awaited → List Reading
  | .value | .valueOrClose | .keyOrClose => []
  | .key before | .colon before _ => before.map Prod.snd
  | .separator r | .nothing r => [r]

/-- Every number that has been read is finite. -/
def Reader.Finite : Reader → Prop
  | .going around awaited =>
    (∀ f ∈ around, ∀ r ∈ f.readings, r.Finite) ∧ ∀ r ∈ awaited.readings, r.Finite
  | .over d => d.root.Finite

namespace Reading.Finite

variable {r : Reading} {before : List Reading} {members : List (Quoted × Reading)}

/-- A reading that is neither a number nor made of others. -/
theorem plain (number : ∀ exact skipped, r ≠ .number exact skipped) (parts : r.parts = []) : r.Finite :=
  .intro (fun _ _ h => absurd h (number _ _)) (by simp [parts])

theorem number {exact : Except Fault Number} {skipped : Option Fault}
    (h : (Token.number exact skipped).Finite) : (Reading.number exact skipped).Finite := by
  refine .intro (fun n skipped' hn => h n skipped' ?_) (List.forall_mem_nil _)
  cases hn
  rfl

theorem broken (f : Fault) : (Reading.broken f).Finite := plain (fun _ _ => Reading.noConfusion) rfl

theorem array (h : ∀ r ∈ before, r.Finite) (ending : Option Fault) :
    (Reading.array before.reverse ending).Finite :=
  .intro (fun _ _ => Reading.noConfusion) fun _ hp => h _ (List.mem_reverse.mp hp)

theorem object {key : Quoted} (h : ∀ r' ∈ r :: members.map Prod.snd, r'.Finite) (ending : Option Fault) :
    (Reading.object ((key, r) :: members).reverse ending).Finite := by
  refine .intro (fun _ _ => Reading.noConfusion) fun part hp => h part ?_
  rw [parts, List.map_reverse] at hp
  exact List.mem_reverse.mp hp

theorem asFloat (h : r.Finite) {x : Float} (read : r.asFloat = .ok x) : x.isFinite = true := by
  obtain ⟨own, -⟩ := h
  unfold Reading.asFloat at read
  split at read
  · cases read
    exact own _ _ rfl
  · cases read
    exact own _ _ rfl
  · exact absurd read (refuse_ne_ok _ _ _)

end Reading.Finite

namespace Reader

variable {around : List Frame} {r : Reading} {t : Token}

theorem unwind_finite (held : ∀ f ∈ around, ∀ r ∈ f.readings, r.Finite) (h : r.Finite) :
    (unwind around r).Finite := by
  induction around generalizing r with
  | nil => exact h
  | cons frame around ih =>
    obtain ⟨own, others⟩ := List.forall_mem_cons.mp held
    have together := List.forall_mem_cons.mpr ⟨h, own⟩
    cases frame with
    | array before => exact ih others (.array together _)
    | object before key => exact ih others (.object together _)

theorem stop_finite (held : ∀ f ∈ around, ∀ r ∈ f.readings, r.Finite) (h : r.Finite) :
    (stop around r).Finite :=
  unwind_finite held h

theorem deliver_finite (held : ∀ f ∈ around, ∀ r ∈ f.readings, r.Finite) (h : r.Finite) :
    (deliver around r).Finite := by
  have own := List.forall_mem_singleton.mpr h
  cases around with
  | nil => exact ⟨held, own⟩
  | cons frame around => exact ⟨held, own⟩

theorem stepValue_finite (held : ∀ f ∈ around, ∀ r ∈ f.readings, r.Finite) (h : t.Finite) :
    (stepValue around t).Finite := by
  unfold stepValue
  split
  · refine ⟨List.forall_mem_cons.mpr ⟨?_, held⟩, ?_⟩ <;> exact List.forall_mem_nil _
  · exact ⟨held, List.forall_mem_nil _⟩
  · exact deliver_finite held (.plain (fun _ _ => Reading.noConfusion) rfl)
  · exact deliver_finite held (.plain (fun _ _ => Reading.noConfusion) rfl)
  · exact stop_finite held (.broken _)
  · exact deliver_finite held (.number h)
  · exact stop_finite held (.number h)
  · exact deliver_finite held (.plain (fun _ _ => Reading.noConfusion) rfl)
  · exact stop_finite held (.plain (fun _ _ => Reading.noConfusion) rfl)
  · exact stop_finite held (.broken _)

theorem misplaced_finite (h : t.Finite) : (misplaced t).Finite := by
  unfold misplaced
  split
  case h_6 => exact .number h
  all_goals exact .plain (fun _ _ => Reading.noConfusion) rfl

theorem stepKey_finite {before : List (Quoted × Reading)}
    (held : ∀ f ∈ around, ∀ r ∈ f.readings, r.Finite) (own : ∀ r ∈ before.map Prod.snd, r.Finite)
    (h : t.Finite) : (stepKey around before t).Finite := by
  unfold stepKey
  split
  · exact ⟨held, own⟩
  · exact stop_finite held (.object (List.forall_mem_cons.mpr ⟨.broken _, own⟩) _)
  · exact stop_finite held (.object (List.forall_mem_cons.mpr ⟨misplaced_finite h, own⟩) _)

theorem cut_finite (held : ∀ f ∈ around, ∀ r ∈ f.readings, r.Finite) (h : r.Finite) (f : Fault) :
    (cut around r f).Finite := by
  unfold cut
  split
  · exact stop_finite held h
  · obtain ⟨own, others⟩ := List.forall_mem_cons.mp held
    exact stop_finite others (.array (List.forall_mem_cons.mpr ⟨h, own⟩) _)
  · obtain ⟨own, others⟩ := List.forall_mem_cons.mp held
    exact stop_finite others (.object (List.forall_mem_cons.mpr ⟨h, own⟩) _)

theorem stepSeparator_finite (held : ∀ f ∈ around, ∀ r ∈ f.readings, r.Finite) (h : r.Finite)
    (t : Token) : (stepSeparator around r t).Finite := by
  unfold stepSeparator
  split
  case h_5 => exact cut_finite held h _
  all_goals
    obtain ⟨own, others⟩ := List.forall_mem_cons.mp held
    have together := List.forall_mem_cons.mpr ⟨h, own⟩
  case h_1 => exact ⟨List.forall_mem_cons.mpr ⟨together, others⟩, List.forall_mem_nil _⟩
  case h_2 => exact deliver_finite others (.array together _)
  case h_3 => exact ⟨others, together⟩
  case h_4 => exact deliver_finite others (.object together _)

/-- No token brings in a number that is not finite. -/
theorem step_finite {s : Reader} (hs : s.Finite) (h : t.Finite) : (s.step t).Finite := by
  unfold step
  split
  · exact hs
  · exact stepValue_finite hs.1 h
  · exact deliver_finite (List.forall_mem_cons.mp hs.1).2 (.plain (fun _ _ => Reading.noConfusion) rfl)
  · exact stepValue_finite hs.1 h
  · exact deliver_finite hs.1 (.plain (fun _ _ => Reading.noConfusion) rfl)
  · exact stepKey_finite hs.1 (List.forall_mem_nil _) h
  · exact stepKey_finite hs.1 hs.2 h
  · exact ⟨List.forall_mem_cons.mpr ⟨hs.2, hs.1⟩, List.forall_mem_nil _⟩
  · exact stop_finite hs.1 (.object (List.forall_mem_cons.mpr ⟨.broken _, hs.2⟩) _)
  · exact stepSeparator_finite hs.1 (hs.2 _ (List.mem_singleton_self _)) _
  · exact hs.2 _ (List.mem_singleton_self _)

theorem foldl_step_finite {ts : List Token} (h : ∀ t ∈ ts, t.Finite) {s : Reader} (hs : s.Finite) :
    (ts.foldl step s).Finite := by
  induction ts generalizing s with
  | nil => exact hs
  | cons t ts ih =>
    obtain ⟨own, others⟩ := List.forall_mem_cons.mp h
    exact ih others (step_finite hs own)

theorem finish_finite {s : Reader} (hs : s.Finite) : s.finish.root.Finite := by
  unfold finish
  split
  · exact hs
  · exact unwind_finite hs.1 (.broken _)
  · exact unwind_finite hs.1 (.broken _)
  · exact unwind_finite hs.1 (.plain (fun _ _ => Reading.noConfusion) rfl)
  · exact unwind_finite hs.1 (.object (List.forall_mem_cons.mpr ⟨.broken _, hs.2⟩) _)
  · exact unwind_finite hs.1 (.object (List.forall_mem_cons.mpr ⟨.broken _, hs.2⟩) _)
  · rename_i around r
    have own := hs.2 r (List.mem_singleton_self r)
    have last := cut_finite hs.1 own .truncated
    split
    · rename_i cut_
      rwa [cut_] at last
    · exact own
  · exact hs.2 _ (List.mem_singleton_self _)

end Reader

theorem Document.ofText_finite (text : String) : (Document.ofText text).root.Finite := by
  refine Reader.finish_finite (Reader.foldl_step_finite (tokens_finite _) ⟨?_, ?_⟩)
  all_goals exact List.forall_mem_nil _

end DeskScript.Json

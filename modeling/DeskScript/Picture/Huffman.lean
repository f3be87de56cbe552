import DeskScript.Picture.Bits

/-! Prefix codes given by the lengths of their words. Of two words the shorter one comes first, and
of two words of one length that of the smaller symbol. -/

namespace DeskScript.Inflate

/-- The words of a prefix code as paths to their symbols. -/
inductive CodeTree where
  | empty
  | leaf (symbol : Nat)
  | node (zero one : CodeTree)
deriving Inhabited

namespace CodeTree

def insert (symbol : Nat) : (path : List Bool) → CodeTree → CodeTree
  | [], _ => .leaf symbol
  | false :: path, .node zero one => .node (insert symbol path zero) one
  | true :: path, .node zero one => .node zero (insert symbol path one)
  | false :: path, _ => .node (insert symbol path .empty) .empty
  | true :: path, _ => .node .empty (insert symbol path .empty)

/-- Follows the bits down to a symbol; with the bits after its word. -/
def descend : CodeTree → Bits → Except Stop (Nat × Bits)
  | .leaf symbol, bits => .ok (symbol, bits)
  | .empty, _ => .error .corrupt
  | .node zero one, bits =>
    match bits.next? with
    | none => .error .ended
    | some (false, bits) => zero.descend bits
    | some (true, bits) => one.descend bits

/-- The symbol whose word comes next; with the bits after the word. No word is empty. -/
def find (t : CodeTree) (bits : Bits) : Except Stop (Nat × Bits) :=
  match t with
  | .node zero one => descend (.node zero one) bits
  | _ => .error .corrupt

theorem size_descend {t : CodeTree} {bits rest : Bits} {symbol : Nat}
    (h : t.descend bits = .ok (symbol, rest)) : rest.size ≤ bits.size := by
  induction t generalizing bits with
  | empty => simp [descend] at h
  | leaf _ =>
    simp only [descend, Except.ok.injEq, Prod.mk.injEq] at h
    exact Nat.le_of_eq (by rw [h.2])
  | node zero one ihZero ihOne =>
    rw [descend] at h
    split at h
    · simp at h
    · next hb => have := Bits.size_next? hb; have := ihZero h; omega
    · next hb => have := Bits.size_next? hb; have := ihOne h; omega

theorem size_find {t : CodeTree} {bits rest : Bits} {symbol : Nat}
    (h : t.find bits = .ok (symbol, rest)) : rest.size < bits.size := by
  unfold find at h
  split at h
  · rw [descend] at h
    split at h
    · simp at h
    · next hb => have := Bits.size_next? hb; have := size_descend h; omega
    · next hb => have := Bits.size_next? hb; have := size_descend h; omega
  · simp at h

end CodeTree

def longest : Nat := 15

/-- The share of a word of length `len` in all words of the longest length. -/
def share (len : Nat) : Nat := if len = 0 then 0 else 1 <<< (longest - len)

/-- The last `len` bits of `code`, the highest first. -/
def path (len code : Nat) : List Bool := (List.range len).map fun i => code.testBit (len - 1 - i)

/-- Inserts symbols with their lengths, in the order of their words. `used` is the share of the words
before. -/
def insertAll : (used : Nat) → List (Nat × Nat) → CodeTree → CodeTree
  | _, [], t => t
  | used, (symbol, len) :: rest, t =>
    insertAll (used + share len) rest
      (t.insert symbol (path len (used >>> (longest - len))))

/-- The code in which symbols have words of these lengths, where zero stands for no word. -/
def codeOf (lengths : List Nat) : CodeTree :=
  let used := (lengths.zipIdx.map fun (len, symbol) => (symbol, len)).filter fun w => w.2 ≠ 0
  insertAll 0 (used.mergeSort fun a b => a.2 ≤ b.2) .empty

/-- Whether words of these lengths use up all bits. -/
def isComplete (lengths : List Nat) : Bool := lengths.foldl (fun n len => n + share len) 0 == 1 <<< longest

/-- The code for symbols of a text; no word may be missing. -/
def textCode (lengths : List Nat) : Except Stop CodeTree :=
  if isComplete lengths then .ok (codeOf lengths) else .error .corrupt

/-- The code for distances. There may also be no word at all, or one of a single bit. -/
def distanceCode (lengths : List Nat) : Except Stop CodeTree :=
  let used := lengths.filter (· ≠ 0)
  if isComplete lengths || used == [] || used == [1] then .ok (codeOf lengths)
  else .error .corrupt

end DeskScript.Inflate

import DeskScript.Picture.Checksum
import DeskScript.Picture.Huffman

/-! Compressed bytes: blocks of bytes as they are or in prefix codes, in which stretches of bytes may
stand for what came before. Data that break off stand for the bytes up to there. -/

namespace DeskScript.Inflate

/-! ### Items -/

/-- The least length and the number of further bits for each of the symbols from 257 on. -/
def lengthCodes : List (Nat × Nat) :=
  [(3, 0), (4, 0), (5, 0), (6, 0), (7, 0), (8, 0), (9, 0), (10, 0), (11, 1), (13, 1), (15, 1),
    (17, 1), (19, 2), (23, 2), (27, 2), (31, 2), (35, 3), (43, 3), (51, 3), (59, 3), (67, 4),
    (83, 4), (99, 4), (115, 4), (131, 5), (163, 5), (195, 5), (227, 5), (258, 0)]

/-- The least distance and the number of further bits for each distance symbol. -/
def distanceCodes : List (Nat × Nat) :=
  [(1, 0), (2, 0), (3, 0), (4, 0), (5, 1), (7, 1), (9, 2), (13, 2), (17, 3), (25, 3), (33, 4),
    (49, 4), (65, 5), (97, 5), (129, 6), (193, 6), (257, 7), (385, 7), (513, 8), (769, 8),
    (1025, 9), (1537, 9), (2049, 10), (3073, 10), (4097, 11), (6145, 11), (8193, 12), (12289, 12),
    (16385, 13), (24577, 13)]

/-- The value of a symbol with further bits. -/
def extended (codes : List (Nat × Nat)) (symbol : Nat) (bits : Bits) : Except Stop (Nat × Bits) :=
  match codes[symbol]? with
  | none => .error .corrupt
  | some (least, extra) =>
    match bits.take extra with
    | .error e => .error e
    | .ok (n, bits) => .ok (least + n, bits)

/-- The next distance. One that makes no sense is known as such where ten bits are left at least. -/
def distance (distances : CodeTree) (bits : Bits) : Except Stop (Nat × Bits) :=
  match distances.find bits with
  | .error .ended => .error .ended
  | .error .corrupt => unknown
  | .ok (symbol, rest) => if symbol < distanceCodes.length then extended distanceCodes symbol rest
    else unknown
where
  /-- A symbol that stands for no distance. -/
  unknown : Except Stop (Nat × Bits) := .error (if bits.has 10 then .corrupt else .ended)

/-- What comes next in a block: a byte, a stretch of earlier bytes, or the end. -/
inductive Item where
  | byte (b : UInt8)
  | stretch (length distance : Nat)
  | ending

def itemOf (distances : CodeTree) (symbol : Nat) (bits : Bits) : Except Stop (Item × Bits) :=
  if symbol < 256 then .ok (.byte (.ofNat symbol), bits)
  else if symbol = 256 then .ok (.ending, bits)
  else
    match extended lengthCodes (symbol - 257) bits with
    | .error e => .error e
    | .ok (length, bits) =>
      match distance distances bits with
      | .error e => .error e
      | .ok (distance, bits) => .ok (.stretch length distance, bits)

def item (text distances : CodeTree) (bits : Bits) : Except Stop (Item × Bits) :=
  match text.find bits with
  | .error e => .error e
  | .ok (symbol, bits) => itemOf distances symbol bits

theorem size_extended {codes : List (Nat × Nat)} {symbol n : Nat} {bits rest : Bits}
    (h : extended codes symbol bits = .ok (n, rest)) : rest.size ≤ bits.size := by
  unfold extended at h
  split at h
  · simp at h
  split at h
  · simp at h
  · next ht =>
    simp only [Except.ok.injEq, Prod.mk.injEq] at h
    have := Bits.size_take ht
    rw [← h.2]
    omega

theorem size_distance {distances : CodeTree} {n : Nat} {bits rest : Bits}
    (h : distance distances bits = .ok (n, rest)) : rest.size ≤ bits.size := by
  unfold distance at h
  split at h
  · simp at h
  · simp [distance.unknown] at h
  · next hf =>
    split at h
    · have := CodeTree.size_find hf
      have := size_extended h
      omega
    · simp [distance.unknown] at h

theorem size_itemOf {distances : CodeTree} {symbol : Nat} {bits rest : Bits} {i : Item}
    (h : itemOf distances symbol bits = .ok (i, rest)) : rest.size ≤ bits.size := by
  unfold itemOf at h
  split at h
  · simp only [Except.ok.injEq, Prod.mk.injEq] at h
    exact Nat.le_of_eq (by rw [h.2])
  split at h
  · simp only [Except.ok.injEq, Prod.mk.injEq] at h
    exact Nat.le_of_eq (by rw [h.2])
  split at h
  · simp at h
  next he =>
    split at h
    · simp at h
    · next hd =>
      simp only [Except.ok.injEq, Prod.mk.injEq] at h
      have := size_extended he
      have := size_distance hd
      rw [← h.2]
      omega

theorem size_item {text distances : CodeTree} {bits rest : Bits} {i : Item}
    (h : item text distances bits = .ok (i, rest)) : rest.size < bits.size := by
  unfold item at h
  split at h
  · simp at h
  · next hf =>
    have := CodeTree.size_find hf
    have := size_itemOf h
    omega

/-! ### Unpacking -/

/-- What has been unpacked, and the bits to go on with, if any. -/
structure Unpacked where
  bytes : Array UInt8
  rest : Option Bits

/-- What is left of an attempt to go on after `out`: nothing if the bits make no sense. -/
def Unpacked.ofStop (out : Array UInt8) : Stop → Option Unpacked
  | .corrupt => none
  | .ended => some ⟨out, none⟩

/-- Adds `n` bytes, each equal to the one `distance` before it. -/
def copy (distance : Nat) : (n : Nat) → (out : Array UInt8) → Array UInt8
  | 0, out => out
  | n + 1, out => copy distance n (out.push (out.getD (out.size - distance) 0))

/-- The bytes of a block in prefix codes, after `out`. From `limit` bytes on no more are looked
for. -/
def coded (limit : Nat) (text distances : CodeTree) (bits : Bits) (out : Array UInt8) :
    Option Unpacked :=
  if limit ≤ out.size then some ⟨out, none⟩
  else match _h : item text distances bits with
    | .error e => Unpacked.ofStop out e
    | .ok (.byte b, rest) => coded limit text distances rest (out.push b)
    | .ok (.ending, rest) => some ⟨out, some rest⟩
    | .ok (.stretch length distance, rest) =>
      if out.size < distance then none
      else coded limit text distances rest (copy distance length out)
termination_by bits.size
decreasing_by all_goals exact size_item _h

/-! ### Blocks -/

def usualLengths : List Nat :=
  .replicate 144 8 ++ .replicate 112 9 ++ .replicate 24 7 ++ .replicate 8 8

def usualText : CodeTree := codeOf usualLengths

def usualDistances : CodeTree := codeOf (.replicate 32 5)

/-- The order in which the lengths of the words for code lengths are given. -/
def lengthOrder : List Nat := [16, 17, 18, 0, 8, 7, 9, 6, 10, 5, 11, 4, 12, 3, 13, 2, 14, 1, 15]

def triples : (count : Nat) → Bits → Except Stop (List Nat × Bits)
  | 0, bits => .ok ([], bits)
  | count + 1, bits => do
    let (n, bits) ← bits.take 3
    let (ns, bits) ← triples count bits
    return (n :: ns, bits)

/-- What a symbol for code lengths stands for: a length, given the one before it, and how often. -/
def repeated (previous : Option Nat) (symbol : Nat) (bits : Bits) :
    Except Stop (Nat × Nat × Bits) :=
  match symbol, previous with
  | 16, none => .error .corrupt
  | 16, some length => (bits.take 2).map fun (n, bits) => (length, 3 + n, bits)
  | 17, _ => (bits.take 3).map fun (n, bits) => (0, 3 + n, bits)
  | 18, _ => (bits.take 7).map fun (n, bits) => (0, 11 + n, bits)
  | length, _ => .ok (length, 1, bits)

/-- The `count` code lengths that are given in the code `tree`; `found` has the last one first. At
most `fuel` symbols are read, each only where seven bits are left. -/
def lengths (tree : CodeTree) (count : Nat) : (fuel : Nat) → Bits → (found : List Nat) →
    Except Stop (List Nat × Bits)
  | 0, _, _ => .error .corrupt
  | fuel + 1, bits, found =>
    if count < found.length then .error .corrupt
    else if found.length = count then .ok (found.reverse, bits)
    else if !bits.has 7 then .error .ended
    else do
      let (symbol, bits) ← tree.find bits
      let (length, n, bits) ← repeated found.head? symbol bits
      lengths tree count fuel bits (List.replicate n length ++ found)

def ownCodes (bits : Bits) : Except Stop (CodeTree × CodeTree × Bits) := do
  let (texts, bits) ← bits.take 5
  let (distances, bits) ← bits.take 5
  let (given, bits) ← bits.take 4
  if 29 < texts ∨ 29 < distances then .error .corrupt
  let (triples, bits) ← triples (given + 4) bits
  let tree ← textCode <| (List.range 19).map fun symbol =>
    ((lengthOrder.zip triples).lookup symbol).getD 0
  let count := texts + 257 + distances + 1
  let (all, bits) ← lengths tree count (count + 1) bits []
  let forText := all.take (texts + 257)
  if forText.getD 256 0 = 0 then .error .corrupt
  return (← textCode forText, ← distanceCode (all.drop (texts + 257)), bits)

/-- A block of bytes as they are, after `out`: their number, its complement, and the bytes. -/
def stored (bits : Bits) (out : Array UInt8) : Option Unpacked :=
  match bits.align.take 32 with
  | .error e => Unpacked.ofStop out e
  | .ok (head, bits) =>
    let n := head % 65536
    if n + head / 65536 ≠ 65535 then none
    else
      let bytes := bits.rest.take n
      some ⟨out ++ bytes, if bytes.length < n then none else some (.ofBytes (bits.rest.drop n))⟩

def block (limit kind : Nat) (bits : Bits) (out : Array UInt8) : Option Unpacked :=
  match kind with
  | 0 => stored bits out
  | 1 => coded limit usualText usualDistances bits out
  | 2 =>
    match ownCodes bits with
    | .error e => Unpacked.ofStop out e
    | .ok (text, distances, bits) => coded limit text distances bits out
  | _ => none

/-- The kind of a block and whether it is the last one. There are ten bits at least in a block. -/
def blockHead (bits : Bits) : Except Stop (Bool × Nat × Bits) := do
  if !bits.has 10 then .error .ended
  let (last, bits) ← bits.take 1
  let (kind, bits) ← bits.take 2
  return (last = 1, kind, bits)

/-- The bytes of all blocks, after `out`. There are at most `fuel` blocks. -/
def blocks (limit : Nat) : (fuel : Nat) → Bits → (out : Array UInt8) → Option (Array UInt8)
  | 0, _, out => some out
  | fuel + 1, bits, out =>
    if limit ≤ out.size then some out
    else match blockHead bits with
      | .error e => (Unpacked.ofStop out e).map Unpacked.bytes
      | .ok (last, kind, bits) =>
        match block limit kind bits out with
        | none => none
        | some ⟨out, none⟩ => some out
        | some ⟨out, some bits⟩ => if last then some out else blocks limit fuel bits out

/-- The bytes that compressed `data` stand for, as far as the data go; nothing if they make no
sense before `limit` bytes have been found. Two bytes come before the blocks. The checksum after
them does not count. -/
def inflate (limit : Nat) (data : List UInt8) : Option (Array UInt8) :=
  match data with
  | method :: flags :: rest =>
    let (method, flags) := (method.toNat, flags.toNat)
    if method % 16 ≠ 8 ∨ 7 < method / 16 ∨ flags.testBit 5 ∨ (method * 256 + flags) % 31 ≠ 0 then none
    else blocks limit (8 * rest.length) (.ofBytes rest) #[]
  | _ => some #[]

/-! ### Storing -/

/-- The largest number of bytes in a block that has them as they are. -/
def largestBlock : Nat := 65535

def storedBlock (last : Bool) (bytes : List UInt8) : List UInt8 :=
  let n := bytes.length
  [if last then 1 else 0, .ofNat (n % 256), .ofNat (n / 256), .ofNat (255 - n % 256),
    .ofNat (255 - n / 256)] ++ bytes

def storedBlocks (bytes : List UInt8) : List UInt8 :=
  if bytes.length ≤ largestBlock then storedBlock true bytes
  else storedBlock false (bytes.take largestBlock) ++ storedBlocks (bytes.drop largestBlock)
termination_by bytes.length
decreasing_by
  have : 0 < largestBlock := by decide
  rw [List.length_drop]
  omega

/-- Data that stand for `bytes`. Nothing is made any shorter. -/
def store (bytes : List UInt8) : List UInt8 :=
  [0x78, 0x01] ++ storedBlocks bytes ++ Checksum.bigEndian (Checksum.adler bytes)

end DeskScript.Inflate

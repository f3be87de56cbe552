/-! Bits of a row of bytes, read one after the other. In each byte the lowest bit comes first. -/

namespace DeskScript

/-- Bits that are yet to be read: those left of the byte that has been begun, and the bytes after
it. -/
structure Bits where
  begun : List Bool
  rest : List UInt8

/-- Why no more is read: the bits make no sense, or they have come to their end. -/
inductive Stop where
  | corrupt
  | ended
deriving DecidableEq, Repr

namespace Bits

def ofBytes (bytes : List UInt8) : Bits := ⟨[], bytes⟩

def ofByte (b : UInt8) : List Bool := (List.range 8).map fun i => b.toNat.testBit i

def size (bits : Bits) : Nat := bits.begun.length + 8 * bits.rest.length

def next? : Bits → Option (Bool × Bits)
  | ⟨b :: begun, rest⟩ => some (b, ⟨begun, rest⟩)
  | ⟨[], byte :: rest⟩ =>
    match ofByte byte with
    | b :: begun => some (b, ⟨begun, rest⟩)
    | [] => none
  | ⟨[], []⟩ => none

/-- The number in the next `n` bits, the lowest bit first, and the bits after it. -/
def take (n : Nat) (bits : Bits) : Except Stop (Nat × Bits) :=
  match n with
  | 0 => .ok (0, bits)
  | n + 1 =>
    match bits.next? with
    | none => .error .ended
    | some (b, bits) =>
      match bits.take n with
      | .ok (m, bits) => .ok (b.toNat + 2 * m, bits)
      | .error e => .error e

def has (bits : Bits) (n : Nat) : Bool := (bits.take n).isOk

def align (bits : Bits) : Bits := { bits with begun := [] }

@[simp] theorem length_ofByte (b : UInt8) : (ofByte b).length = 8 := by simp [ofByte]

theorem size_next? {bits rest : Bits} {b : Bool} (h : bits.next? = some (b, rest)) :
    rest.size + 1 = bits.size := by
  unfold next? at h
  split at h
  · simp only [Option.some.injEq, Prod.mk.injEq] at h
    obtain ⟨rfl, rfl⟩ := h
    simp only [size, List.length_cons]
    omega
  · next byte rest' =>
    split at h
    · next b' begun heq =>
      simp only [Option.some.injEq, Prod.mk.injEq] at h
      obtain ⟨rfl, rfl⟩ := h
      have := congrArg List.length heq
      simp only [length_ofByte, List.length_cons] at this
      simp only [size, List.length_cons, List.length_nil]
      omega
    · simp at h
  · simp at h

theorem size_take {n m : Nat} {bits rest : Bits} (h : bits.take n = .ok (m, rest)) :
    rest.size + n = bits.size := by
  induction n generalizing bits m with
  | zero =>
    simp only [take, Except.ok.injEq, Prod.mk.injEq] at h
    rw [← h.2]
    rfl
  | succ n ih =>
    rw [take] at h
    split at h
    · simp at h
    · next b bits' hb =>
      split at h
      · next m' rest' ht =>
        simp only [Except.ok.injEq, Prod.mk.injEq] at h
        obtain ⟨rfl, rfl⟩ := h
        have := size_next? hb
        have := ih ht
        omega
      · simp at h

end Bits

end DeskScript

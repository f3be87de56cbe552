/-! Bytes as text in the standard alphabet of base 64, with padding. Each list of bytes has exactly
one such text. -/

namespace DeskScript.Base64

/-- What keeps a text from being bytes in base 64. Offsets count bytes of the text. -/
inductive Fault where
  | symbol (byte : UInt8) (offset : Nat)
  | length (n : Nat)
  | lastSymbol (byte : UInt8) (offset : Nat)
  | padding
deriving DecidableEq, Repr

def Fault.message : Fault → String
  | .symbol byte offset => s!"Invalid symbol {byte.toNat}, offset {offset}."
  | .length n => s!"Invalid input length: {n}"
  | .lastSymbol byte offset => s!"Invalid last symbol {byte.toNat}, offset {offset}."
  | .padding => "Invalid padding"

def alphabet : String := "ABCDEFGHIJKLMNOPQRSTUVWXYZabcdefghijklmnopqrstuvwxyz0123456789+/"

def symbols : Array UInt8 := (alphabet.toList.map fun c => .ofNat c.toNat).toArray

def pad : UInt8 := 61

def symbol (n : Nat) : UInt8 := symbols.getD n 0

def values : Array (Option Nat) :=
  ((List.range 256).map fun n => symbols.findIdx? (·.toNat == n)).toArray

def value? (b : UInt8) : Option Nat := values.getD b.toNat none

def isSymbol (b : UInt8) : Bool := (value? b).isSome

/-- Writes `bytes` after `text`: three bytes become four symbols, and padding fills up the last
four. -/
def encodeOnto (text : Array UInt8) : List UInt8 → Array UInt8
  | [] => text
  | [a] => text ++ [symbol (a.toNat / 4), symbol (a.toNat % 4 * 16), pad, pad]
  | [a, b] =>
    text ++ [symbol (a.toNat / 4), symbol (a.toNat % 4 * 16 + b.toNat / 16),
      symbol (b.toNat % 16 * 4), pad]
  | a :: b :: c :: rest =>
    encodeOnto (text ++ [symbol (a.toNat / 4), symbol (a.toNat % 4 * 16 + b.toNat / 16),
      symbol (b.toNat % 16 * 4 + c.toNat / 64), symbol (c.toNat % 64)]) rest

def encode (bytes : List UInt8) : List UInt8 := (encodeOnto #[] bytes).toList

/-- Adds the bytes that values below 64 make up to `bytes`. Bits that fill no byte are dropped. -/
def octetsOnto (bytes : Array UInt8) : List Nat → Array UInt8
  | a :: b :: c :: d :: rest =>
    octetsOnto (bytes ++ [UInt8.ofNat (a * 4 + b / 16), UInt8.ofNat (b % 16 * 16 + c / 4),
      UInt8.ofNat (c % 4 * 64 + d)]) rest
  | [a, b, c] => bytes ++ [UInt8.ofNat (a * 4 + b / 16), UInt8.ofNat (b % 16 * 16 + c / 4)]
  | [a, b] => bytes.push (UInt8.ofNat (a * 4 + b / 16))
  | _ => bytes

def octets (values : List Nat) : List UInt8 := (octetsOnto #[] values).toList

def spareBits (values : List Nat) : Nat :=
  match values.length % 4 with
  | 2 => values.getLastD 0 % 16
  | 3 => values.getLastD 0 % 4
  | _ => 0

/-- Where the last group of a text of `n` bytes begins: a group has four bytes, the last one to
four. -/
def lastGroup (n : Nat) : Nat := n - if n % 4 = 0 then min n 4 else n % 4

/-- The first byte that is no symbol, with its offset; the text begins at `offset`. -/
def firstStray (offset : Nat) : List UInt8 → Option (UInt8 × Nat)
  | [] => none
  | b :: bs => if isSymbol b then firstStray (offset + 1) bs else some (b, offset)

/-- What is wrong with the symbols and the padding of the last group, of which `done` bytes have
been seen, the first of the padding among them at `padding`. -/
def groupFault (offset done : Nat) (padding : Option Nat) : List UInt8 → Option Fault
  | [] => none
  | b :: bs =>
    if b = pad then
      if done < 2 then some (.symbol b (offset + done))
      else groupFault offset (done + 1) (padding <|> some (offset + done)) bs
    else match padding with
      | some first => some (.symbol pad first)
      | none =>
        if isSymbol b then groupFault offset (done + 1) none bs
        else some (.symbol b (offset + done))

def fault? (text : List UInt8) : Option Fault :=
  let n := text.length
  let offset := lastGroup n
  let group := text.drop offset
  let symbols := (group.takeWhile isSymbol).length
  let strayEnd := match text.getLast? with
    | some b => if n % 4 = 1 ∧ ¬isSymbol b ∧ b ≠ pad then some (Fault.symbol b (n - 1)) else none
    | none => none
  let stray := (firstStray 0 (text.take offset)).map fun (b, i) => Fault.symbol b i
  let short := if 0 < n ∧ symbols < 2 then some (Fault.length (offset + symbols)) else none
  let unpadded := if group.length % 4 ≠ 0 then some Fault.padding else none
  let spare :=
    if spareBits ((text.take (offset + symbols)).filterMap value?) = 0 then none
    else some (Fault.lastSymbol (group.getD (symbols - 1) 0) (offset + symbols - 1))
  strayEnd <|> stray <|> groupFault offset 0 none group <|> short <|> unpadded <|> spare

def decode (text : List UInt8) : Except Fault (List UInt8) :=
  match fault? text with
  | some f => .error f
  | none => .ok (octets (text.filterMap value?))

end DeskScript.Base64

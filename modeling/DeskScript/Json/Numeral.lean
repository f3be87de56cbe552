import DeskScript.Json.Token

/-! The numbers of a JSON text: their spelling and their value. -/

namespace DeskScript.Json

def digit? : Glyph → Option Nat
  | some c => if c.isDigit then some (c.toNat - '0'.toNat) else none
  | none => none

def spanDigits : List Glyph → List Nat × List Glyph
  | [] => ([], [])
  | g :: gs =>
    match digit? g with
    | some d => (spanDigits gs).map (d :: ·) id
    | none => ([], g :: gs)

/-- The parts of a number: its sign, the digits before and behind the point, and the exponent's
sign and digits. -/
structure Numeral where
  negative : Bool
  whole : List Nat
  fraction : Option (List Nat)
  exponent : Option (Bool × List Nat)

/-- The fault of a number that lacks a digit before `gs`. -/
def missingDigit (gs : List Glyph) : Fault :=
  if gs.isEmpty then .truncated else .malformed

def someDigits (gs : List Glyph) : Except Fault (List Nat × List Glyph) :=
  match spanDigits gs with
  | ([], rest) => .error (missingDigit rest)
  | (ds, rest) => .ok (ds, rest)

/-- The digits of a whole number: a zero stands alone. -/
def wholeDigits (gs : List Glyph) : Except Fault (List Nat × List Glyph) :=
  match someDigits gs with
  | .ok (0 :: _ :: _, _) => .error .malformed
  | r => r

def scanFraction : List Glyph → Except Fault (Option (List Nat) × List Glyph)
  | some '.' :: gs => do
    let (ds, rest) ← someDigits gs
    return (some ds, rest)
  | gs => .ok (none, gs)

/-- The sign and the digits of an exponent; a missing sign is a plus. -/
def scanExponentDigits (negative : Bool) (gs : List Glyph) :
    Except Fault (Option (Bool × List Nat) × List Glyph) := do
  let (ds, rest) ← someDigits gs
  return (some (negative, ds), rest)

def scanExponent : List Glyph → Except Fault (Option (Bool × List Nat) × List Glyph)
  | some c :: gs =>
    if c = 'e' ∨ c = 'E' then
      match gs with
      | some '+' :: gs => scanExponentDigits false gs
      | some '-' :: gs => scanExponentDigits true gs
      | _ => scanExponentDigits false gs
    else .ok (none, some c :: gs)
  | gs => .ok (none, gs)

def scanNumeral (negative : Bool) (gs : List Glyph) : Except Fault (Numeral × List Glyph) := do
  let (whole, gs) ← wholeDigits gs
  let (fraction, gs) ← scanFraction gs
  let (exponent, gs) ← scanExponent gs
  return (⟨negative, whole, fraction, exponent⟩, gs)

/-! ### Values -/

/-- Takes digits into `n` as long as it stays below `2^64`; with the number of digits taken and of
those left over. -/
def takeDigits (n : Nat) (taken : Nat) : List Nat → Nat × Nat × Nat
  | [] => (n, taken, 0)
  | d :: ds =>
    if 10 * n + d < 1 <<< 64 then takeDigits (10 * n + d) (taken + 1) ds
    else (n, taken, (d :: ds).length)

def powerOfTen (k : Nat) : Float := Float.ofScientific 1 false k

/-- `x · 10^exponent` in one operation where the power is a number, or after divisions by `10^308`;
none if it is too large. -/
def scaleFloat : (fuel : Nat) → (x : Float) → (exponent : Int) → Option Float
  | 0, x, _ => some x
  | fuel + 1, x, exponent =>
    if exponent.natAbs ≤ 308 then
      if 0 ≤ exponent then
        let y := x * powerOfTen exponent.natAbs
        if y.isInf then none else some y
      else some (x / powerOfTen exponent.natAbs)
    else if x == 0 then some x
    else if 0 ≤ exponent then none
    else scaleFloat fuel (x / powerOfTen 308) (exponent + 308)

/-- The value of a number with a point, an exponent or too many digits. Digits that do not fit into
64 bits count as zeros before the point and not at all behind it. -/
def Numeral.real (n : Numeral) : Except Fault Number :=
  let (whole, _, left) := takeDigits 0 0 n.whole
  let (significand, behind, _) := takeDigits whole 0 (n.fraction.getD [])
  let signed (x : Float) : Number := .real (if n.negative then -x else x)
  let power : Int := match n.exponent with
    | none => 0
    | some (negative, ds) =>
      let e : Nat := ds.foldl (fun e d => 10 * e + d) 0
      if negative then -(e : Int) else e
  if 1 <<< 31 ≤ power.natAbs then
    if significand ≠ 0 ∧ 0 < power then .error .malformed else .ok (signed 0)
  else
    match scaleFloat 4 (Float.ofNat significand) (left - behind + power) with
    | some x => .ok (signed x)
    | none => .error .malformed

/-- The value of a number: an integer if it is written as one and fits, where minus zero does not. -/
def Numeral.value (n : Numeral) : Except Fault Number :=
  let (whole, _, left) := takeDigits 0 0 n.whole
  if n.fraction.isNone ∧ n.exponent.isNone ∧ left = 0 then
    if !n.negative then .ok (.int whole)
    else if 0 < whole ∧ whole ≤ 1 <<< 63 then .ok (.int (-whole))
    else .ok (.real (-Float.ofNat whole))
  else n.real

/-- The number that begins with `g`, a digit or a minus sign, and what follows it. -/
def scanNumber (g : Char) (gs : List Glyph) : Token × Option (List Glyph) :=
  match if g = '-' then scanNumeral true gs else scanNumeral false (some g :: gs) with
  | .ok (n, rest) => (.number n.value none, some rest)
  | .error f => (.number (.error f) (some .malformed), none)

theorem length_spanDigits (gs : List Glyph) : (spanDigits gs).2.length ≤ gs.length := by
  induction gs with
  | nil => simp [spanDigits]
  | cons g gs ih =>
    simp only [spanDigits]
    split
    · simp only [Prod.map_snd, id_eq, List.length_cons]; omega
    · simp

theorem length_someDigits {gs rest : List Glyph} {ds : List Nat}
    (h : someDigits gs = .ok (ds, rest)) : rest.length + ds.length ≤ gs.length ∧ 0 < ds.length := by
  induction gs generalizing ds with
  | nil => simp [someDigits, spanDigits] at h
  | cons g gs ih =>
    simp only [someDigits, spanDigits] at h ih
    cases hg : digit? g with
    | none => simp [hg] at h
    | some d =>
      simp only [hg, Prod.map] at h
      cases hs : spanDigits gs with
      | mk es rest' =>
        simp only [hs, id_eq, Except.ok.injEq, Prod.mk.injEq] at h
        obtain ⟨rfl, rfl⟩ := h
        cases es with
        | nil =>
          have := length_spanDigits gs
          rw [hs] at this
          simp only [List.length_cons, List.length_nil] at this ⊢
          omega
        | cons e es =>
          have := (@ih (e :: es) (by rw [hs])).1
          simp only [List.length_cons] at this ⊢
          omega

theorem length_wholeDigits {gs rest : List Glyph} {ds : List Nat}
    (h : wholeDigits gs = .ok (ds, rest)) : rest.length < gs.length := by
  unfold wholeDigits at h
  split at h
  · simp at h
  · have := length_someDigits h
    omega

theorem length_scanFraction {gs rest : List Glyph} {o : Option (List Nat)}
    (h : scanFraction gs = .ok (o, rest)) : rest.length ≤ gs.length := by
  unfold scanFraction at h
  split at h
  · next gs' =>
    cases hd : someDigits gs' with
    | error => simp [hd, bind, Except.bind] at h
    | ok r =>
      simp only [hd, bind, Except.bind, pure, Except.pure, Except.ok.injEq, Prod.mk.injEq] at h
      obtain ⟨_, rfl⟩ := h
      have := @length_someDigits _ r.2 r.1 hd
      simp only [List.length_cons]
      omega
  · simp_all

theorem length_scanExponentDigits {negative : Bool} {gs rest : List Glyph}
    {o : Option (Bool × List Nat)} (h : scanExponentDigits negative gs = .ok (o, rest)) :
    rest.length ≤ gs.length := by
  unfold scanExponentDigits at h
  cases hd : someDigits gs with
  | error => simp [hd, bind, Except.bind] at h
  | ok r =>
    simp only [hd, bind, Except.bind, pure, Except.pure, Except.ok.injEq, Prod.mk.injEq] at h
    obtain ⟨_, rfl⟩ := h
    have := @length_someDigits _ r.2 r.1 hd
    omega

theorem length_scanExponent {gs rest : List Glyph} {o : Option (Bool × List Nat)}
    (h : scanExponent gs = .ok (o, rest)) : rest.length ≤ gs.length := by
  unfold scanExponent at h
  split at h
  · split at h
    · split at h <;>
      · have := length_scanExponentDigits h
        simp only [List.length_cons]
        omega
    · simp_all
  · simp_all

theorem length_scanNumeral {negative : Bool} {gs rest : List Glyph} {n : Numeral}
    (h : scanNumeral negative gs = .ok (n, rest)) : rest.length < gs.length := by
  unfold scanNumeral at h
  cases hw : wholeDigits gs with
  | error => simp [hw, bind, Except.bind] at h
  | ok w =>
    simp only [hw, bind, Except.bind] at h
    cases hf : scanFraction w.2 with
    | error => simp [hf] at h
    | ok f =>
      simp only [hf] at h
      cases he : scanExponent f.2 with
      | error => simp [he] at h
      | ok e =>
        simp only [he, pure, Except.pure, Except.ok.injEq, Prod.mk.injEq] at h
        obtain ⟨_, rfl⟩ := h
        have h₁ := @length_wholeDigits _ w.2 w.1 hw
        have h₂ := @length_scanFraction _ f.2 f.1 hf
        have h₃ := @length_scanExponent _ e.2 e.1 he
        omega

theorem length_scanNumber {g : Char} {gs rest : List Glyph}
    (h : (scanNumber g gs).2 = some rest) : rest.length ≤ gs.length := by
  unfold scanNumber at h
  split at h
  · next n rest' heq =>
    simp only [Option.some.injEq] at h
    subst h
    split at heq
    · have := length_scanNumeral heq
      omega
    · have := length_scanNumeral heq
      simp only [List.length_cons] at this
      omega
  · simp at h

end DeskScript.Json

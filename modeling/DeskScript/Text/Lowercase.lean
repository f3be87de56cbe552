import DeskScript.Text.Casing

/-! Small letters of a text, in full: by character and, for the capital sigma, by context. -/

namespace DeskScript.Text

def smallLetter (c : Char) : Char :=
  match caseRuns.find? fun r =>
      r.first ≤ c.toNat && c.toNat ≤ r.last && (c.toNat - r.first) % r.stride == 0 with
  | some r => Char.ofNat (r.small + (c.toNat - r.first))
  | none => c

/-- Whether the first character that is not ignored for casing is a cased one. -/
def meetsCased (cs : List Char) : Bool :=
  match cs.dropWhile (inRanges caseIgnorableRanges) with
  | [] => false
  | c :: _ => inRanges casedRanges c

/-- The small letters of the text `rest`, which stands after `before` (last character first). A
capital sigma at the end of a word becomes the final form, a dotted capital I two characters. -/
def lowercaseFrom (before : List Char) : List Char → List Char
  | [] => []
  | c :: rest =>
    let small :=
      if c == 'Σ' then if meetsCased before && !meetsCased rest then ['ς'] else ['σ']
      else if c == 'İ' then ['i', '\u0307']
      else [smallLetter c]
    small ++ lowercaseFrom (c :: before) rest

def lowercaseChars (cs : List Char) : List Char := lowercaseFrom [] cs

def lowercase (s : String) : String := String.ofList (lowercaseChars s.toList)

/-- The small letter of `c` when `c` is a letter of ASCII, else `c`. -/
def asciiSmallLetter (c : Char) : Char :=
  if 'A' ≤ c ∧ c ≤ 'Z' then Char.ofNat (c.toNat + 32) else c

@[simp] theorem toList_lowercase (s : String) : (lowercase s).toList = lowercaseChars s.toList := by
  simp [lowercase]

end DeskScript.Text

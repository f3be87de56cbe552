import DeskScript.Proofs.Filing
import DeskScript.Proofs.Padding
import DeskScript.Screen.Lookup

/-! Pictures in patterns: the text that is written of a picture is read as that picture, and no other
texts are read as bytes than those that are written of some. -/

namespace DeskScript

/-! ### White space at the ends -/

namespace Text

/-- Only the white space at the ends is lost. -/
theorem trim_append {before text after : String} (blank : allBlank before = true)
    (blank' : allBlank after = true) (solid : ∀ c ∈ text.toList, isBlank c = false) :
    trim (before ++ text ++ after) = text := by
  have ends : Solid text.toList :=
    ⟨fun c first => solid c (List.mem_of_mem_head? first),
      fun c last => solid c (List.mem_of_getLast? last)⟩
  rw [← String.toList_inj, toList_trim, trimBlank_eq_iff]
  exact ⟨ends, before.toList, after.toList, List.all_eq_true.mp blank, List.all_eq_true.mp blank',
    by simp⟩

end Text

/-! ### Texts as bytes -/

/-- The text in bytes. -/
def Text.bytes (s : String) : List UInt8 := s.toList.flatMap String.utf8EncodeChar

theorem utf8_injective {cs ds : List Char}
    (same : cs.flatMap String.utf8EncodeChar = ds.flatMap String.utf8EncodeChar) : cs = ds := by
  have encoded : cs.utf8Encode = ds.utf8Encode := by
    rw [List.utf8Encode, List.utf8Encode, same]
  have decoded := List.utf8Decode?_utf8Encode (l := cs)
  rw [encoded, List.utf8Decode?_utf8Encode] at decoded
  simpa using decoded.symm

namespace Base64

/-- The text of the bytes. -/
def text (bytes : List UInt8) : String :=
  String.ofList ((encode bytes).map fun b => Char.ofNat b.toNat)

theorem symbol_mem {n : Nat} (h : n < 64) : symbol n ∈ symbols.toList := by
  have inside : n < symbols.size := size_symbols ▸ h
  simp [symbol, Array.getD, inside]

/-- A text is of symbols and padding. -/
theorem IsText.mem {bytes text : List UInt8} (own : IsText bytes text) {b : UInt8} (h : b ∈ text) :
    b ∈ symbols.toList ++ [pad] := by
  obtain ⟨digits, groups, pads, -, -, -, below, -⟩ := own
  rw [List.mem_append, List.mem_singleton]
  rcases List.mem_append.mp h with inside | last
  · obtain ⟨d, hd, rfl⟩ := List.mem_map.mp inside
    exact .inl (symbol_mem (below d hd))
  · exact .inr (List.eq_of_mem_replicate last)

/-- The character of each of them takes one byte and is not white space. -/
theorem plain_of_mem_encode {bytes : List UInt8} {b : UInt8} (h : b ∈ encode bytes) :
    String.utf8EncodeChar (Char.ofNat b.toNat) = [b] ∧ Text.isBlank (Char.ofNat b.toNat) = false := by
  have all : ∀ b ∈ symbols.toList ++ [pad], String.utf8EncodeChar (Char.ofNat b.toNat) = [b] ∧
      Text.isBlank (Char.ofNat b.toNat) = false := by
    rw [toList_symbols]
    decide +kernel
  exact all b ((isText_encode bytes).mem h)

theorem bytes_text (bytes : List UInt8) : Text.bytes (text bytes) = encode bytes := by
  rw [Text.bytes, text, String.toList_ofList, List.flatMap_map]
  calc
    (encode bytes).flatMap (fun b => String.utf8EncodeChar (Char.ofNat b.toNat))
      = (encode bytes).flatMap fun b => [b] :=
        List.flatMap_congr fun b hb => (plain_of_mem_encode hb).1
    _ = encode bytes := List.flatMap_singleton' _

theorem solid_text (bytes : List UInt8) : ∀ c ∈ (text bytes).toList, Text.isBlank c = false := by
  rw [text, String.toList_ofList, List.forall_mem_map]
  exact fun b hb => (plain_of_mem_encode hb).2

/-- A text is read as bytes if it is the one that is written of these bytes. -/
theorem decode_bytes {s : String} {bytes : List UInt8} :
    decode (Text.bytes s) = .ok bytes ↔ text bytes = s := by
  rw [decode_eq_ok, ← bytes_text]
  constructor
  · intro same
    exact String.toList_inj.mp (utf8_injective same.symm)
  · rintro rfl
    rfl

end Base64

/-! ### Patterns -/

namespace Pattern

variable {codec : Picture.Codec}

theorem dataOf_eq (codec : Picture.Codec) (p : Picture) : dataOf codec p =
    match codec.write p with
    | .ok file => .ok (Base64.text file)
    | .error words => .error (.invalidPattern s!"png encode: {words}") := by
  unfold dataOf
  cases codec.write p <;> rfl

/-- What a pattern holds is up to what the codec makes of the bytes that are read from its text. -/
theorem picture_of_ok (codec : Picture.Codec) (pattern : Pattern) {bytes : List UInt8}
    (read : Base64.decode (Text.bytes (Text.trim pattern.data)) = .ok bytes) : pattern.picture codec =
      match codec.read bytes with
      | .ok picture => .ok picture
      | .error words => .error (.invalidPattern s!"image: {words}") := by
  unfold Text.bytes at read
  simp only [picture, read, Except.mapError, bind, Except.bind]
  cases codec.read bytes <;> rfl

theorem picture_of_error {pattern : Pattern} {f : Base64.Fault}
    (failed : Base64.decode (Text.bytes (Text.trim pattern.data)) = .error f) :
    pattern.picture codec = .error (.invalidPattern s!"base64: {f.message}") := by
  unfold Text.bytes at failed
  simp only [picture, failed, Except.mapError, bind, Except.bind]

/-- The text of a file from which a picture is read is read as that picture, with any white space at its
ends. -/
theorem picture_of_file {file : List UInt8} {p : Picture} (read : codec.read file = .ok p)
    {before after : String} (threshold : Option Float) (blank : Text.allBlank before = true)
    (blank' : Text.allBlank after = true) :
    picture codec ⟨before ++ Base64.text file ++ after, threshold⟩ = .ok p := by
  have trimmed := Text.trim_append blank blank' (Base64.solid_text file)
  rw [picture_of_ok codec ⟨before ++ Base64.text file ++ after, threshold⟩
    (Base64.decode_bytes.mpr trimmed.symm), read]

/-- However pictures are kept in files: if what is written of a picture is read as that picture, then so
is the text that is written of it, with any white space at its ends; and so is the text of any other file
from which a picture is read. Without white space at its ends, a text is read as some bytes if it is their
text by the rule, and then it is what is written of these bytes. What keeps a text from being in base 64,
and what keeps a picture from being read or written, is reported. -/
theorem survives (codec : Picture.Codec) :
    (codec.Faithful → ∀ p data, 1 ≤ p.width → p.width < UInt32.size → 1 ≤ p.height →
      p.height < UInt32.size → dataOf codec p = .ok data →
        ∀ before after threshold, Text.allBlank before = true → Text.allBlank after = true →
          picture codec ⟨before ++ data ++ after, threshold⟩ = .ok p) ∧
    (∀ p, dataOf codec p =
      match codec.write p with
      | .ok file => .ok (Base64.text file)
      | .error words => .error (.invalidPattern s!"png encode: {words}")) ∧
    (∀ file p, codec.read file = .ok p → ∀ before after threshold, Text.allBlank before = true →
      Text.allBlank after = true →
        picture codec ⟨before ++ Base64.text file ++ after, threshold⟩ = .ok p) ∧
    ∀ pattern : Pattern,
      (∀ bytes, Base64.decode (Text.bytes (Text.trim pattern.data)) = .ok bytes ↔
        Base64.IsText bytes (Text.bytes (Text.trim pattern.data))) ∧
      (∀ bytes, Base64.decode (Text.bytes (Text.trim pattern.data)) = .ok bytes →
        Base64.text bytes = Text.trim pattern.data ∧ pattern.picture codec =
          match codec.read bytes with
          | .ok picture => .ok picture
          | .error words => .error (.invalidPattern s!"image: {words}")) ∧
      ∀ f, Base64.decode (Text.bytes (Text.trim pattern.data)) = .error f →
        pattern.picture codec = .error (.invalidPattern s!"base64: {f.message}") := by
  refine ⟨fun faithful p data width width' height height' written before after threshold => ?_,
    dataOf_eq codec, fun file p read before after threshold => picture_of_file read threshold,
    fun pattern => ⟨fun bytes => ?_, fun bytes read => ?_, fun f => picture_of_error⟩⟩
  · rw [dataOf_eq] at written
    cases kept : codec.write p with
    | error words => simp [kept] at written
    | ok file =>
      obtain rfl : Base64.text file = data := by simpa [kept] using written
      have read : codec.read file = .ok p := faithful p file width width' height height' kept
      exact picture_of_file read threshold
  · rw [Base64.decode_eq_ok, Base64.eq_encode_iff]
  · exact ⟨Base64.decode_bytes.mp read, picture_of_ok codec pattern read⟩

/-- A white picture of one pixel. -/
def spot : Picture := ⟨1, 1, [⟨255, 255, 255, 255⟩], rfl⟩

/-- In a file of chunks it survives. -/
theorem survives_spot : Png.codec.Faithful ∧ ∃ data, dataOf Png.codec spot = .ok data ∧
    picture Png.codec ⟨"\n" ++ data ++ " \t", none⟩ = .ok spot := by
  obtain ⟨round, written, -⟩ := survives Png.codec
  obtain ⟨file, kept, -⟩ := Png.read_write (p := spot) (by decide) (by decide) (by decide) (by decide)
  have data : dataOf Png.codec spot = .ok (Base64.text file) := by rw [written, kept]
  exact ⟨Png.faithful_codec, _, data, round Png.faithful_codec spot _ (by decide) (by decide)
    (by decide) (by decide) data "\n" " \t" none (by decide) (by decide)⟩

end Pattern

end DeskScript

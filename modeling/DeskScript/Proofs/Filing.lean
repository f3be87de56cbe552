import DeskScript.Picture.Png
import Mathlib.Algebra.Group.Nat.Defs
import Mathlib.Tactic.Common

/-! A picture that is written to a file is read from it again. -/

namespace DeskScript

/-! ### Bits of bytes -/

namespace Bits

/-- The number in some bits, the lowest one first. -/
def value : List Bool → Nat
  | [] => 0
  | b :: bs => b.toNat + 2 * value bs

theorem value_ofByte (b : UInt8) : value (ofByte b) = b.toNat := by
  have all : ∀ n < 256, value ((List.range 8).map fun i => n.testBit i) = n := by decide +kernel
  exact all b.toNat b.toNat_lt

/-- The bits of the byte that has been begun are read before the next byte. -/
theorem take_append (front bits : List Bool) (rest : List UInt8) :
    take front.length ⟨front ++ bits, rest⟩ = .ok (value front, ⟨bits, rest⟩) := by
  induction front with
  | nil => rfl
  | cons b front ih =>
    rw [List.length_cons, take]
    simp only [List.cons_append, next?, ih]
    rfl

/-- A byte is begun when its first bit is read. -/
theorem take_ofBytes (n : Nat) (b : UInt8) (rest : List UInt8) :
    (ofBytes (b :: rest)).take (n + 1) = take (n + 1) ⟨ofByte b, rest⟩ := rfl

theorem take_add {m n a : Nat} {bits bits' : Bits} (first : bits.take m = .ok (a, bits')) :
    bits.take (m + n) = (bits'.take n).map fun (b, bits) => (a + 2 ^ m * b, bits) := by
  induction m generalizing bits a with
  | zero =>
    cases first
    rw [Nat.zero_add]
    cases bits'.take n <;> simp [Except.map]
  | succ m ih =>
    rw [take] at first
    rw [Nat.add_right_comm, take]
    cases hb : bits.next? with
    | none => simp [hb] at first
    | some next =>
      obtain ⟨b, next⟩ := next
      cases ht : next.take m with
      | error e => simp [hb, ht] at first
      | ok p =>
        obtain ⟨a', last⟩ := p
        simp only [hb, ht] at first
        cases first
        simp only [ih ht]
        cases bits'.take n with
        | error e => rfl
        | ok p =>
          have shift : b.toNat + 2 * (a' + 2 ^ m * p.1) = b.toNat + 2 * a' + 2 ^ (m + 1) * p.1 := by
            rw [Nat.mul_add, ← Nat.mul_assoc, ← Nat.pow_succ', Nat.add_assoc]
          simp [Except.map, shift]

/-- A whole byte is read, and what comes after it. -/
theorem take_byte (n : Nat) (b : UInt8) (rest : List UInt8) : (ofBytes (b :: rest)).take (8 + n) =
    ((ofBytes rest).take n).map fun (m, bits) => (b.toNat + 256 * m, bits) := by
  have first : (ofBytes (b :: rest)).take 8 = .ok (b.toNat, ofBytes rest) := by
    have all := take_append (ofByte b) [] rest
    rw [List.append_nil, length_ofByte, value_ofByte] at all
    rw [take_ofBytes]
    exact all
  exact take_add first

end Bits

namespace Inflate

theorem blockHead_stored (last : Bool) (b : UInt8) (rest : List UInt8) :
    blockHead (.ofBytes ((if last then 1 else 0) :: b :: rest)) =
      .ok (last, 0, ⟨List.replicate 5 false, b :: rest⟩) := by
  cases last <;> rfl

/-- The bytes of a block that has them as they are. -/
theorem stored_block {bytes : List UInt8} (small : bytes.length ≤ largestBlock)
    (tail : List UInt8) (out : Array UInt8) : stored ⟨List.replicate 5 false,
      .ofNat (bytes.length % 256) :: .ofNat (bytes.length / 256) :: .ofNat (255 - bytes.length % 256) ::
        .ofNat (255 - bytes.length / 256) :: (bytes ++ tail)⟩ out =
      some ⟨out ++ bytes, some (.ofBytes tail)⟩ := by
  replace small : bytes.length ≤ 65535 := small
  have low : (UInt8.ofNat (bytes.length % 256)).toNat = bytes.length % 256 :=
    UInt8.toNat_ofNat_of_lt (show _ < 256 by omega)
  have high : (UInt8.ofNat (bytes.length / 256)).toNat = bytes.length / 256 :=
    UInt8.toNat_ofNat_of_lt (show _ < 256 by omega)
  have low' : (UInt8.ofNat (255 - bytes.length % 256)).toNat = 255 - bytes.length % 256 :=
    UInt8.toNat_ofNat_of_lt (show _ < 256 by omega)
  have high' : (UInt8.ofNat (255 - bytes.length / 256)).toNat = 255 - bytes.length / 256 :=
    UInt8.toNat_ofNat_of_lt (show _ < 256 by omega)
  have head (b₀ b₁ b₂ b₃ : UInt8) (rest : List UInt8) :
      (Bits.ofBytes (b₀ :: b₁ :: b₂ :: b₃ :: rest)).take 32 = .ok (b₀.toNat + 256 * (b₁.toNat +
        256 * (b₂.toNat + 256 * b₃.toNat)), .ofBytes rest) := by
    change (Bits.ofBytes (b₀ :: b₁ :: b₂ :: b₃ :: rest)).take (8 + (8 + (8 + (8 + 0)))) = _
    rw [Bits.take_byte, Bits.take_byte, Bits.take_byte, Bits.take_byte]
    rfl
  have length : (bytes.length % 256 + 256 * (bytes.length / 256 + 256 * (255 - bytes.length % 256 +
      256 * (255 - bytes.length / 256)))) % 65536 = bytes.length := by omega
  have complement : bytes.length + (bytes.length % 256 + 256 * (bytes.length / 256 + 256 *
      (255 - bytes.length % 256 + 256 * (255 - bytes.length / 256)))) / 65536 = 65535 := by omega
  have whole : (Bits.ofBytes (.ofNat (bytes.length % 256) :: .ofNat (bytes.length / 256) ::
      .ofNat (255 - bytes.length % 256) :: .ofNat (255 - bytes.length / 256) :: (bytes ++ tail))).take 32 =
        _ := head ..
  rw [low, high, low', high', Bits.ofBytes] at whole
  simp only [stored, Bits.align, whole, length, complement]
  simp [Bits.ofBytes]

/-- One block is unpacked, and what is done then depends on whether it is the last one. -/
theorem blocks_storedBlock {limit fuel : Nat} {last : Bool} {bytes : List UInt8} {out : Array UInt8}
    (small : bytes.length ≤ largestBlock) (room : out.size < limit) (tail : List UInt8) :
    blocks limit (fuel + 1) (.ofBytes (storedBlock last bytes ++ tail)) out =
      if last then some (out ++ bytes) else blocks limit fuel (.ofBytes tail) (out ++ bytes) := by
  rw [blocks, if_neg (by omega)]
  have head := blockHead_stored last (.ofNat (bytes.length % 256))
    (.ofNat (bytes.length / 256) :: .ofNat (255 - bytes.length % 256) ::
      .ofNat (255 - bytes.length / 256) :: (bytes ++ tail))
  simp only [storedBlock, List.cons_append, List.nil_append, head, block, stored_block small]

/-- Bytes that are kept as they are are unpacked as they were. -/
theorem blocks_storedBlocks {limit : Nat} (bytes tail : List UInt8) {fuel : Nat} {out : Array UInt8}
    (enough : bytes.length < fuel) (room : out.size + bytes.length ≤ limit) :
    blocks limit fuel (.ofBytes (storedBlocks bytes ++ tail)) out = some (out ++ bytes) := by
  have block : largestBlock = 65535 := rfl
  fun_induction storedBlocks bytes generalizing fuel out with
  | case1 bytes small =>
    obtain ⟨fuel, rfl⟩ : ∃ n, fuel = n + 1 := ⟨fuel - 1, by omega⟩
    by_cases full : limit ≤ out.size
    · have none : bytes = [] := List.eq_nil_of_length_eq_zero (by omega)
      rw [blocks, if_pos full, none]
      simp
    · exact blocks_storedBlock small (by omega) tail
  | case2 bytes large ih =>
    obtain ⟨fuel, rfl⟩ : ∃ n, fuel = n + 1 := ⟨fuel - 1, by omega⟩
    have front : (bytes.take largestBlock).length = largestBlock := by
      rw [List.length_take]
      omega
    have back : (bytes.drop largestBlock).length = bytes.length - largestBlock := List.length_drop
    have size : (out ++ bytes.take largestBlock).size = out.size + largestBlock := by
      rw [← Array.length_toList, Array.toList_appendList, List.length_append, front,
        Array.length_toList]
    rw [List.append_assoc, blocks_storedBlock (by omega) (by omega), if_neg Bool.false_ne_true,
      ih (by omega) (by omega)]
    simp [← Array.toList_inj]

theorem length_lt_storedBlocks (bytes : List UInt8) : bytes.length < (storedBlocks bytes).length := by
  fun_induction storedBlocks bytes with
  | case1 bytes =>
    simp only [storedBlock, List.length_append, List.length_cons, List.length_nil]
    omega
  | case2 bytes _ ih =>
    rw [List.length_drop] at ih
    simp only [storedBlock, List.length_append, List.length_cons, List.length_nil, List.length_take]
    omega

/-- What is packed without making it any shorter is unpacked again. -/
theorem inflate_store {limit : Nat} {bytes : List UInt8} (room : bytes.length ≤ limit) :
    inflate limit (store bytes) = some bytes.toArray := by
  have longer := length_lt_storedBlocks bytes
  have unpacked : blocks limit (8 * (storedBlocks bytes ++ Checksum.bigEndian
      (Checksum.adler bytes)).length) (.ofBytes (storedBlocks bytes ++ Checksum.bigEndian
        (Checksum.adler bytes))) #[] = some ((#[] : Array UInt8) ++ bytes) := by
    apply blocks_storedBlocks
    · rw [List.length_append]
      omega
    · simpa using room
  simp only [store, List.cons_append, List.nil_append, inflate]
  rw [if_neg (by decide), unpacked]
  simp

end Inflate

namespace Checksum

@[simp] theorem length_bigEndian (w : UInt32) : (bigEndian w).length = 4 := rfl

theorem ofBigEndian_bigEndian (w : UInt32) : ofBigEndian (bigEndian w) = w.toNat := by
  have small := w.toNat_lt
  simp [ofBigEndian, bigEndian, UInt32.toNat_shiftRight, Nat.shiftRight_eq_div_pow]
  omega

end Checksum

namespace Png

open Checksum

/-! ### Chunks -/

theorem take?_append {n : Nat} {front : List UInt8} (h : front.length = n) (rest : List UInt8) :
    take? n (front ++ rest) = some (front, rest) := by
  subst h
  simp [take?]

variable {c : Chunk}

/-- The head of a chunk is read as it was written. -/
theorem chunkHead?_bytes (four : c.kind.length = 4) (small : c.content.length < 2 ^ 32)
    (rest : List UInt8) : chunkHead? (c.bytes ++ rest) = some (c.content.length, c.kind,
      c.content ++ (bigEndian (crc (c.kind ++ c.content)) ++ rest)) := by
  have length := take?_append (length_bigEndian (.ofNat c.content.length))
    (c.kind ++ (c.content ++ (bigEndian (crc (c.kind ++ c.content)) ++ rest)))
  have kind := take?_append four (c.content ++ (bigEndian (crc (c.kind ++ c.content)) ++ rest))
  simp only [chunkHead?, Chunk.bytes, List.append_assoc, length, kind, bind, Option.bind,
    ofBigEndian_bigEndian, UInt32.toNat_ofNat_of_lt' small]
  rfl

/-- A chunk is read as it was written. -/
theorem chunk?_bytes (four : c.kind.length = 4) (small : c.content.length < 2 ^ 32)
    (rest : List UInt8) : chunk? (c.bytes ++ rest) = some (c, true, rest) := by
  have content := take?_append (Eq.refl c.content.length) (bigEndian (crc (c.kind ++ c.content)) ++ rest)
  have sum := take?_append (length_bigEndian (crc (c.kind ++ c.content))) rest
  simp only [chunk?, chunkHead?_bytes four small, content, sum, bind, Option.bind,
    ofBigEndian_bigEndian, beq_self_eq_true]
  rfl

/-! ### Rows in chunks -/

theorem length_kind_data : (kind "IDAT").length = 4 := by decide

/-- The chunks of rows begin with one. -/
theorem exists_rowChunks (data : List UInt8) : ∃ content rest, content.length < 2 ^ 32 ∧
    rowChunks data = Chunk.bytes ⟨kind "IDAT", content⟩ ++ rest := by
  have largest : largestContent = 2147483647 := rfl
  rw [rowChunks]
  split
  · exact ⟨data, [], by omega, (List.append_nil _).symm⟩
  · refine ⟨data.take largestContent, _, ?_, rfl⟩
    rw [List.length_take]
    omega

theorem data?_chunk {content : List UInt8} (small : content.length < 2 ^ 32) (fuel last : Nat)
    (rest : List UInt8) :
    data? (kind "IDAT") (fuel + 1) last (Chunk.bytes ⟨kind "IDAT", content⟩ ++ rest) =
      (data? (kind "IDAT") fuel last rest).map (content ++ ·) := by
  have head := chunkHead?_bytes (c := ⟨kind "IDAT", content⟩) length_kind_data small rest
  have chunk := chunk?_bytes (c := ⟨kind "IDAT", content⟩) length_kind_data small rest
  rw [data?]
  simp only [head, chunk, bind, Option.bind, ne_eq, not_true_eq_false, if_false, if_true]
  cases data? (kind "IDAT") fuel last rest <;> rfl

theorem data?_end (fuel last : Nat) :
    data? (kind "IDAT") (fuel + 1) last (Chunk.bytes ⟨kind "IEND", []⟩) = some [] := by
  have head := chunkHead?_bytes (c := ⟨kind "IEND", []⟩) (by decide) (by decide) []
  rw [List.append_nil] at head
  have other : kind "IEND" ≠ kind "IDAT" := by decide
  rw [data?]
  simp only [head, bind, Option.bind, ne_eq, other, not_false_eq_true, if_true]
  rfl

/-- What the chunks of rows hold together is what they were made from. -/
theorem data?_rowChunks (data : List UInt8) {fuel : Nat} (enough : data.length + 1 < fuel)
    (last : Nat) : data? (kind "IDAT") fuel last (rowChunks data ++ Chunk.bytes ⟨kind "IEND", []⟩) =
      some data := by
  have largest : largestContent = 2147483647 := rfl
  fun_induction rowChunks data generalizing fuel with
  | case1 data small =>
    obtain ⟨fuel, rfl⟩ : ∃ n, fuel = n + 2 := ⟨fuel - 2, by omega⟩
    rw [data?_chunk (by omega), data?_end, Option.map_some, List.append_nil]
  | case2 data large ih =>
    obtain ⟨fuel, rfl⟩ : ∃ n, fuel = n + 1 := ⟨fuel - 1, by omega⟩
    have front : (data.take largestContent).length = largestContent := by
      rw [List.length_take]
      omega
    have back : (data.drop largestContent).length = data.length - largestContent := List.length_drop
    rw [List.append_assoc, data?_chunk (by omega), ih (by omega), Option.map_some,
      List.take_append_drop]

/-! ### Pixels -/

/-- A row that says of each byte what it is is read as it is. -/
theorem unfilter_zero (step : Nat) (above : Array UInt8) (given : List UInt8) :
    unfilter 0 step above given = given.toArray := by
  have plain (left above corner : UInt8) : expected 0 left above corner = 0 := rfl
  simp [unfilter, plain]

/-- Rows that say of each byte what it is are read as they are. -/
theorem rowsOnto?_plain (step : Nat) {width : Nat} {rows : List (List UInt8)}
    (each : ∀ row ∈ rows, row.length = width) (done above : Array UInt8) :
    rowsOnto? step width rows.length done above (rows.flatMap (0 :: ·)) =
      some (done ++ rows.flatten.toArray) := by
  induction rows generalizing done above with
  | nil => simp [rowsOnto?]
  | cons row rows ih =>
    obtain ⟨own, others⟩ := List.forall_mem_cons.mp each
    subst own
    rw [List.length_cons, List.flatMap_cons, List.cons_append, rowsOnto?]
    have known : ¬ (row.length < row.length ∨ (4 : UInt8) < 0) := by simp
    simp only [List.take_left, List.drop_left, unfilter_zero, if_neg known, ih others]
    simp

theorem pixelsOnto_bytes (done : Array Pixel) (ps : List Pixel) :
    Channels.pixelsOnto done .rgba (ps.flatMap Pixel.bytes) = done ++ ps.toArray := by
  induction ps generalizing done with
  | nil => simp [Channels.pixelsOnto]
  | cons p ps ih =>
    rw [List.flatMap_cons]
    change Channels.pixelsOnto (done.push p) .rgba (ps.flatMap Pixel.bytes) = _
    rw [ih]
    simp

/-- Pixels are read from their bytes. -/
theorem pixels_bytes (ps : List Pixel) : Channels.rgba.pixels (ps.flatMap Pixel.bytes) = ps := by
  rw [Channels.pixels, pixelsOnto_bytes]
  simp

theorem length_bytes (ps : List Pixel) : (ps.flatMap Pixel.bytes).length = ps.length * 4 := by
  induction ps with
  | nil => rfl
  | cons p ps ih =>
    rw [List.flatMap_cons, List.length_append, ih, List.length_cons, Nat.succ_mul, Nat.add_comm]
    rfl

/-- The rows of a picture as bytes. -/
def rowBytes (p : Picture) : List (List UInt8) := p.rows.map fun row => row.flatMap Pixel.bytes

theorem length_rowBytes (p : Picture) : (rowBytes p).length = p.height := by
  rw [rowBytes, List.length_map, Picture.length_rows]

theorem length_of_mem_rowBytes (p : Picture) : ∀ row ∈ rowBytes p, row.length = p.width * 4 := by
  rw [rowBytes, List.forall_mem_map]
  intro row there
  rw [length_bytes, Picture.length_of_mem_rows there]

theorem flatten_rowBytes (p : Picture) : (rowBytes p).flatten = p.pixels.flatMap Pixel.bytes := by
  rw [← p.flatten_rows, rowBytes, List.flatMap_def, List.map_flatten, List.flatten_flatten, List.map_map]
  rfl

theorem plainRows_eq (p : Picture) : plainRows p = (rowBytes p).flatMap (0 :: ·) := by
  rw [plainRows, rowBytes, List.flatMap_map]

theorem length_flatMap_cons {width : Nat} {rows : List (List UInt8)}
    (each : ∀ row ∈ rows, row.length = width) :
    (rows.flatMap (0 :: ·)).length = (width + 1) * rows.length := by
  induction rows with
  | nil => simp
  | cons row rows ih =>
    obtain ⟨own, others⟩ := List.forall_mem_cons.mp each
    rw [List.flatMap_cons, List.length_append, ih others, List.length_cons, List.length_cons, own,
      Nat.mul_succ, Nat.add_comm]

theorem length_plainRows (p : Picture) : (plainRows p).length = (p.width * 4 + 1) * p.height := by
  rw [plainRows_eq, length_flatMap_cons (length_of_mem_rowBytes p), length_rowBytes]

/-- The rows of a picture are read as they were written. -/
theorem rowsOnto?_plainRows (p : Picture) : rowsOnto? 4 (p.width * 4) p.height #[] #[] (plainRows p) =
    some (p.pixels.flatMap Pixel.bytes).toArray := by
  have read := rowsOnto?_plain 4 (length_of_mem_rowBytes p) #[] #[]
  rw [length_rowBytes, ← plainRows_eq, flatten_rowBytes] at read
  simpa using read

/-! ### Files -/

theorem head?_headContent {p : Picture} (width : 1 ≤ p.width) (width' : p.width < 2 ^ 32)
    (height : 1 ≤ p.height) (height' : p.height < 2 ^ 32) :
    head? (headContent p) = some ⟨p.width, p.height, .rgba⟩ := by
  have first := take?_append (length_bigEndian (.ofNat p.width))
    (bigEndian (.ofNat p.height) ++ [8, 6, 0, 0, 0])
  have second := take?_append (length_bigEndian (.ofNat p.height)) [8, 6, 0, 0, 0]
  have sides : ¬ (p.width = 0 ∨ p.height = 0) := by omega
  simp only [head?, headContent, List.append_assoc, first, second, bind, Option.bind,
    ofBigEndian_bigEndian, UInt32.toNat_ofNat_of_lt' width', UInt32.toNat_ofNat_of_lt' height', if_neg sides]
  rfl

theorem length_le_rowChunks (data : List UInt8) : data.length ≤ (rowChunks data).length := by
  fun_induction rowChunks data with
  | case1 data =>
    simp only [Chunk.bytes, List.length_append]
    omega
  | case2 data _ ih =>
    rw [List.length_drop] at ih
    simp only [Chunk.bytes, List.length_append, List.length_take]
    omega

theorem le_unpackingLimit (needed : Nat) : needed ≤ unpackingLimit needed := by
  unfold unpackingLimit
  omega

theorem chunkHead?_rowChunks (data rest : List UInt8) : ∃ n content,
    chunkHead? (rowChunks data ++ rest) = some (n, kind "IDAT", content) := by
  obtain ⟨content, more, small, same⟩ := exists_rowChunks data
  have first := chunkHead?_bytes (c := ⟨kind "IDAT", content⟩) length_kind_data small (more ++ rest)
  rw [same, List.append_assoc]
  exact ⟨_, _, first⟩

theorem toRows?_rowChunks (head : Head) (fuel : Nat) (data rest : List UInt8) :
    toRows? head (fuel + 1) {} (rowChunks data ++ rest) = some ({}, rowChunks data ++ rest) := by
  obtain ⟨n, content, first⟩ := chunkHead?_rowChunks data rest
  rw [toRows?]
  simp only [first, bind, Option.bind, true_or, if_true]
  rfl

/-- A picture is read from the file that is written of it. -/
theorem decode?_encode? {p : Picture} (width : 1 ≤ p.width) (width' : p.width < 2 ^ 32)
    (height : 1 ≤ p.height) (height' : p.height < 2 ^ 32) :
    ∃ file, encode? p = some file ∧ decode? file = some p := by
  have sides : ¬ (p.width = 0 ∨ p.height = 0) := by omega
  let data := Inflate.store (plainRows p)
  let rows := rowChunks data ++ Chunk.bytes ⟨kind "IEND", []⟩
  let file := signature ++ (Chunk.bytes ⟨kind "IHDR", headContent p⟩ ++ rows)
  have written : encode? p = some file := by
    rw [encode?, if_neg sides]
    simp only [file, rows, data, List.append_assoc]
  refine ⟨file, written, ?_⟩
  have start := take?_append (show signature.length = 8 from rfl)
    (Chunk.bytes ⟨kind "IHDR", headContent p⟩ ++ rows)
  have first := chunk?_bytes (c := ⟨kind "IHDR", headContent p⟩) rfl
    (by simp [headContent]) rows
  have head := head?_headContent width width' height height'
  have longer : data.length + 1 < file.length := by
    have whole := length_le_rowChunks data
    have eight : signature.length = 8 := rfl
    simp only [file, rows, List.length_append]
    omega
  obtain ⟨fuel, length⟩ : ∃ n, file.length = n + 1 := ⟨file.length - 1, by omega⟩
  have way := toRows?_rowChunks ⟨p.width, p.height, .rgba⟩ fuel data (Chunk.bytes ⟨kind "IEND", []⟩)
  obtain ⟨n, more, next⟩ := chunkHead?_rowChunks data (Chunk.bytes ⟨kind "IEND", []⟩)
  have content := data?_rowChunks data longer 0
  have raw : Inflate.inflate (unpackingLimit ((p.width * 4 + 1) * p.height)) data =
      some (plainRows p).toArray :=
    Inflate.inflate_store (length_plainRows p ▸ le_unpackingLimit _)
  rw [length] at content
  rw [decode?]
  have values := rowsOnto?_plainRows p
  rw [length]
  simp only [file, start, bind, Option.bind, first, head, way, next, content, rows, raw, values, ne_eq,
    not_true_eq_false, Bool.not_true, Bool.false_eq_true, or_self, if_false, Option.getD_none,
    Channels.count, List.size_toArray, length_plainRows, Nat.lt_irrefl, hide, pixels_bytes]
  exact dif_pos p.length_pixels

theorem read_write {p : Picture} (width : 1 ≤ p.width) (width' : p.width < UInt32.size)
    (height : 1 ≤ p.height) (height' : p.height < UInt32.size) :
    ∃ file, codec.write p = .ok file ∧ codec.read file = .ok p := by
  obtain ⟨file, written, read⟩ := decode?_encode? width width' height height'
  exact ⟨file, by simp [codec, written], by simp [codec, read]⟩

theorem faithful_codec : codec.Faithful := by
  intro p file width width' height height' written
  obtain ⟨file', written', read⟩ := read_write width width' height height'
  obtain rfl : file = file' := Except.ok.inj (written.symm.trans written')
  exact read

end Png

end DeskScript

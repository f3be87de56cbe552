import DeskScript.Proofs.Lines
import Mathlib.Logic.Relation

/-! How the commands on lines come to the one who obeys them: a reader hands them over one by one, through
a queue with little room, as long as someone is there to receive them. -/

namespace DeskScript

/-- What a reader of lines is at. -/
inductive Reader where
  | reading (bytes : List UInt8)
  | handing (c : Command) (bytes : List UInt8)
  | ended
deriving DecidableEq, Repr

namespace Reader

/-- What the reader is at after the first line of the bytes. -/
def next : List UInt8 → Reader
  | [] => .ended
  | b :: bytes =>
    match Text.ofUtf8? (Command.splitLine (b :: bytes)).1 with
    | none => .ended
    | some text =>
      match Command.ofText? text with
      | some c => .handing c (Command.splitLine (b :: bytes)).2
      | none => .reading (Command.splitLine (b :: bytes)).2

/-- The commands that it has yet to hand over. -/
def toCome : Reader → List Command
  | .reading bytes => Command.ofBytes bytes
  | .handing c bytes => c :: Command.ofBytes bytes
  | .ended => []

/-- How much it has yet to do. -/
def effort : Reader → Nat
  | .reading bytes => 3 * bytes.length + 1
  | .handing _ bytes => 3 * bytes.length + 3
  | .ended => 0

theorem toCome_next (bytes : List UInt8) : (next bytes).toCome = Command.ofBytes bytes := by
  cases bytes with
  | nil => rw [Command.ofBytes_nil]; rfl
  | cons b bytes =>
    rw [next, Command.ofBytes]
    cases Text.ofUtf8? (Command.splitLine (b :: bytes)).1 with
    | none => rfl
    | some text =>
      dsimp only
      cases Command.ofText? text <;> rfl

theorem effort_next (bytes : List UInt8) : (next bytes).effort < (Reader.reading bytes).effort := by
  cases bytes with
  | nil => decide
  | cons b bytes =>
    have shorter : (Command.splitLine (b :: bytes)).2.length < (b :: bytes).length :=
      Command.length_splitLine
    rw [next, effort]
    cases Text.ofUtf8? (Command.splitLine (b :: bytes)).1 with
    | none => exact Nat.succ_pos _
    | some text =>
      dsimp only
      cases Command.ofText? text <;> simp only [effort] <;> omega

end Reader

/-- Where the commands are: with the reader, in the queue, or received; and whether the receiver is there. -/
structure Delivery where
  reader : Reader
  queue : List Command
  received : List Command
  isOpen : Bool
deriving DecidableEq, Repr

namespace Delivery

/-- All is yet to be read. -/
def start (bytes : List UInt8) : Delivery := ⟨.reading bytes, [], [], true⟩

/-- Nothing is left to be received, and nothing will come. -/
def IsOver (d : Delivery) : Prop := d.reader = .ended ∧ d.queue = []

/-- One step of the reader or the receiver, with room for so many commands in the queue. The reader waits
for room. When the receiver goes, what is in the queue is lost, and the reader ends as soon as it finds
out by handing over a command. -/
inductive Step (room : Nat) : Delivery → Delivery → Prop
  | read {bytes queue received isOpen} :
      Step room ⟨.reading bytes, queue, received, isOpen⟩ ⟨.next bytes, queue, received, isOpen⟩
  | hand {c bytes queue received} (free : queue.length < room) :
      Step room ⟨.handing c bytes, queue, received, true⟩
        ⟨.reading bytes, queue ++ [c], received, true⟩
  | refuse {c bytes queue received} :
      Step room ⟨.handing c bytes, queue, received, false⟩ ⟨.ended, queue, received, false⟩
  | receive {reader c queue received} :
      Step room ⟨reader, c :: queue, received, true⟩ ⟨reader, queue, received ++ [c], true⟩
  | close {reader queue received} :
      Step room ⟨reader, queue, received, true⟩ ⟨reader, [], received, false⟩

abbrev Run (room : Nat) : Delivery → Delivery → Prop := Relation.ReflTransGen (Step room)

/-- What is received is the beginning of all commands. While the receiver is there, the others are in the
queue and with the reader, in their order. -/
structure Sound (all : List Command) (d : Delivery) : Prop where
  front : d.received <+: all
  account : d.isOpen = true → d.received ++ d.queue ++ d.reader.toCome = all

variable {room n : Nat} {bytes : List UInt8} {all : List Command} {d d' : Delivery}

theorem sound_start (bytes : List UInt8) : (start bytes).Sound (Command.ofBytes bytes) where
  front := List.nil_prefix
  account _ := rfl

theorem Step.sound (st : Step room d d') (h : d.Sound all) : d'.Sound all := by
  obtain ⟨front, account⟩ := h
  cases st with
  | @read bytes queue received isOpen =>
    refine ⟨front, fun there => ?_⟩
    rw [Reader.toCome_next]
    exact account there
  | @hand c bytes queue received free =>
    refine ⟨front, fun _ => ?_⟩
    simpa [Reader.toCome] using account rfl
  | refuse => exact ⟨front, nofun⟩
  | @receive reader c queue received =>
    have whole : received ++ [c] ++ queue ++ reader.toCome = all := by simpa using account rfl
    exact ⟨⟨queue ++ reader.toCome, by rw [← whole, ← List.append_assoc]⟩, fun _ => whole⟩
  | close => exact ⟨front, nofun⟩

theorem Run.sound (run : Run room d d') (h : d.Sound all) : d'.Sound all := by
  induction run with
  | refl => exact h
  | tail _ st ih => exact st.sound ih

/-- How much reader and receiver have yet to do. -/
def effort (d : Delivery) : Nat := d.reader.effort + d.queue.length + d.isOpen.toNat

theorem Step.effort_lt (st : Step room d d') : d'.effort < d.effort := by
  cases st with
  | @read bytes queue received isOpen =>
    have less := Reader.effort_next bytes
    simp only [effort]
    omega
  | hand | refuse | receive | close =>
    simp only [effort, Reader.effort, List.length_append, List.length_cons, List.length_nil,
      Bool.toNat_true, Bool.toNat_false]
    omega

/-- A receiver who stays is only kept waiting by work that is done. -/
theorem exists_step (there : d.isOpen = true) (some : 0 < room) (more : ¬ d.IsOver) :
    ∃ d', Step room d d' ∧ d'.isOpen = true ∧ d'.received.length ≤ d.received.length + 1 := by
  obtain ⟨reader, queue, received, isOpen⟩ := d
  obtain rfl : isOpen = true := there
  cases queue with
  | cons c queue => exact ⟨_, .receive, rfl, by simp⟩
  | nil =>
    cases reader with
    | reading bytes => exact ⟨_, .read, rfl, by simp⟩
    | handing c bytes => exact ⟨_, .hand some, rfl, by simp⟩
    | ended => exact absurd ⟨rfl, rfl⟩ more

/-- The receiver can wait for so many commands, unless there are fewer. -/
theorem exists_run (there : d.isOpen = true) (some : 0 < room) (few : d.received.length ≤ n) :
    ∃ d', Run room d d' ∧ d'.isOpen = true ∧ d'.received.length ≤ n ∧
      (d'.received.length = n ∨ d'.IsOver) := by
  induction left : d.effort using Nat.strongRecOn generalizing d with
  | ind m ih =>
    by_cases enough : d.received.length = n ∨ d.IsOver
    · exact ⟨d, .refl, there, few, enough⟩
    · rw [not_or] at enough
      obtain ⟨d₁, st, there₁, next⟩ := exists_step there some enough.2
      obtain ⟨d', run, there', few', enough'⟩ :=
        ih d₁.effort (left ▸ st.effort_lt) there₁ (by omega) rfl
      exact ⟨d', .head st run, there', few', enough'⟩

theorem Sound.received_eq (h : d.Sound all) : d.received = all.take d.received.length :=
  List.prefix_iff_eq_take.mp h.front

theorem Sound.received_of_isOver (h : d.Sound all) (there : d.isOpen = true) (finished : d.IsOver) :
    d.received = all := by
  have account := h.account there
  rwa [finished.1, finished.2, Reader.toCome, List.append_nil, List.append_nil] at account

/-- The receiver can wait for the first commands, as many as there are. -/
theorem Sound.exists_take (h : d.Sound all) (there : d.isOpen = true) (some : 0 < room)
    (few : d.received.length ≤ n) (enough : n ≤ all.length) :
    ∃ d', Run room d d' ∧ d'.received = all.take n := by
  obtain ⟨d', run, there', few', so | finished⟩ := exists_run there some few
  · exact ⟨d', run, so ▸ (run.sound h).received_eq⟩
  · have whole := (run.sound h).received_of_isOver there' finished
    have last : n = all.length := by
      rw [whole] at few'
      omega
    exact ⟨d', run, by rw [whole, last, List.take_length]⟩

/-- If the receiver stays, all commands come, and then it is over. -/
theorem Sound.exists_over (h : d.Sound all) (there : d.isOpen = true) (some : 0 < room) :
    ∃ d', Run room d d' ∧ d'.IsOver ∧ d'.received = all := by
  have few : d.received.length ≤ all.length + 1 := h.front.length_le.trans (Nat.le_succ _)
  obtain ⟨d', run, there', -, many | finished⟩ := exists_run there some few
  · have front := (run.sound h).front.length_le
    omega
  · exact ⟨d', run, finished, (run.sound h).received_of_isOver there' finished⟩

end Delivery

namespace Command

open Delivery

/-- The commands of bytes that are cut at a line feed are those of the two parts, or of the first only if
a line of it is no text. The commands are those on the lines up to the first that is no text; a text
without a command, such as white space, makes no difference, nor does a carriage return at the end of a
line or a line feed at the end of all. They are received in their order, as many as one waits for, and if
one waits until it is over all of them. -/
theorem delivers :
    (∀ a b : List UInt8,
      ((∀ line ∈ lines a, IsText line) → ofBytes (a ++ 0x0A :: b) = ofBytes a ++ ofBytes b) ∧
      ((¬ ∀ line ∈ lines a, IsText line) → ofBytes (a ++ 0x0A :: b) = ofBytes a) ∧
      ofBytes (a ++ 0x0D :: 0x0A :: b) = ofBytes (a ++ 0x0A :: b) ∧
      ofBytes (a ++ [0x0A]) = ofBytes a) ∧
    (∀ bytes, ofBytes bytes = ((lines bytes).takeWhile fun line => IsText line).filterMap ofLine?) ∧
    (∀ line b, 0x0A ∉ line → IsText line → ofLine? line = none →
      ofBytes (line ++ 0x0A :: b) = ofBytes b) ∧
    (∀ text, Text.allBlank text = true → ofText? text = none) ∧
    ∀ room bytes, 0 < room →
      (∀ d, Run room (start bytes) d →
        d.received = (ofBytes bytes).take d.received.length ∧
        (d.isOpen = true → d.IsOver → d.received = ofBytes bytes) ∧
        (d.isOpen = true → ∃ d', Run room d d' ∧ d'.IsOver ∧ d'.received = ofBytes bytes)) ∧
      ∀ n ≤ (ofBytes bytes).length, ∃ d, Run room (start bytes) d ∧
        d.received = (ofBytes bytes).take n := by
  refine ⟨fun a b => ⟨fun valid => ofBytes_append_of_isText valid b,
    fun other => ofBytes_append_of_not_isText other b, ofBytes_append_return a b, ?_⟩, ofBytes_eq,
    fun line b whole valid none => ofBytes_skip whole valid none b,
    fun text => ofText?_of_allBlank, fun room bytes some => ⟨fun d run => ?_, fun n enough => ?_⟩⟩
  · by_cases valid : ∀ line ∈ lines a, IsText line
    · rw [ofBytes_append_of_isText valid, ofBytes_nil, List.append_nil]
    · exact ofBytes_append_of_not_isText valid []
  · have sound := run.sound (sound_start bytes)
    exact ⟨sound.received_eq, sound.received_of_isOver, fun there => sound.exists_over there some⟩
  · exact (sound_start bytes).exists_take rfl some (Nat.zero_le n) enough

/-- A command to pause ends in a carriage return; a byte that is no text ends the reading; white space is
passed over; and of two commands the first is received. -/
theorem delivers_pause :
    (∀ line ∈ lines [0x70, 0x0D], IsText line) ∧
    ofBytes ([0x70, 0x0D] ++ 0x0A :: [0x71]) = [.pause] ++ [.stop] ∧
    (¬ ∀ line ∈ lines [0x70, 0x0A, 0xFF], IsText line) ∧
    ofBytes ([0x70, 0x0A, 0xFF] ++ 0x0A :: [0x71]) = [.pause] ∧
    ofBytes ([0x20] ++ 0x0A :: [0x71]) = [.stop] ∧
    ∃ d, Run 1 (start [0x70, 0x0A, 0x71]) d ∧ d.received = [.pause] := by
  obtain ⟨cut, -, skip, -, handed⟩ := delivers
  have pause : ofBytes [0x70, 0x0D] = [.pause] := by decide +kernel
  have stop : ofBytes [0x71] = [.stop] := by decide +kernel
  have broken : ofBytes [0x70, 0x0A, 0xFF] = [.pause] := by decide +kernel
  have both : ofBytes [0x70, 0x0A, 0x71] = [.pause, .stop] := by decide +kernel
  have valid : ∀ line ∈ lines [0x70, 0x0D], IsText line := by decide +kernel
  have other : ¬ ∀ line ∈ lines [0x70, 0x0A, 0xFF], IsText line := by decide +kernel
  obtain ⟨d, run, received⟩ :=
    (handed 1 [0x70, 0x0A, 0x71] (by decide)).2 1 (by rw [both]; decide)
  refine ⟨valid, ?_, other, ?_, ?_, d, run, ?_⟩
  · rw [(cut _ _).1 valid, pause, stop]
  · rw [(cut _ _).2.1 other, broken]
  · rw [List.singleton_append, ← stop]
    exact skip [0x20] [0x71] (by decide) (by decide +kernel) (by decide +kernel)
  · rw [received, both]
    rfl

end Command

end DeskScript

import Mathlib.Data.List.Basic

namespace Framing

/-! Self-delimiting frames on a byte stream. -/

/-- `cut` splits the first whole frame off a stream. -/
structure Code (Message Byte : Type) where
  frame : Message → List Byte
  cut : List Byte → Option (Message × List Byte)
  frame_ne_nil : ∀ message, frame message ≠ []
  cut_frame : ∀ message rest, cut (frame message ++ rest) = some (message, rest)
  cut_part : ∀ message part, part <+: frame message → part ≠ frame message →
    cut part = none

namespace Code

variable {Message Byte : Type} (code : Code Message Byte)

def frames (messages : List Message) : List Byte :=
  messages.flatMap code.frame

/-- The beginning of a frame that is not there to its end. -/
def Part (part : List Byte) : Prop :=
  part = [] ∨ ∃ message, part <+: code.frame message ∧ part ≠ code.frame message

def decodeFuel : Nat → List Byte → List Message × List Byte
  | 0, stream => ([], stream)
  | fuel + 1, stream =>
      match code.cut stream with
      | none => ([], stream)
      | some (message, rest) =>
          let (messages, part) := decodeFuel fuel rest
          (message :: messages, part)

/-- The whole frames a stream starts with and what is left after them. -/
def decode (stream : List Byte) : List Message × List Byte :=
  code.decodeFuel stream.length stream

@[simp] theorem frames_nil : code.frames [] = [] := rfl

@[simp] theorem frames_cons (message : Message) (messages : List Message) :
    code.frames (message :: messages) =
      code.frame message ++ code.frames messages := rfl

@[simp] theorem frames_append (first second : List Message) :
    code.frames (first ++ second) = code.frames first ++ code.frames second :=
  List.flatMap_append

theorem cut_nil : code.cut [] = none := by
  cases found : code.cut [] with
  | none => rfl
  | some first =>
      have absent := code.cut_part first.1 [] List.nil_prefix
        (code.frame_ne_nil first.1).symm
      rw [found] at absent
      contradiction

theorem Part.cut {part : List Byte} (short : code.Part part) :
    code.cut part = none := by
  rcases short with rfl | ⟨message, starts, differs⟩
  · exact code.cut_nil
  · exact code.cut_part message part starts differs

theorem length_frame_pos (message : Message) :
    0 < (code.frame message).length :=
  List.length_pos_iff.2 (code.frame_ne_nil message)

theorem length_le_length_frames (messages : List Message) :
    messages.length ≤ (code.frames messages).length := by
  induction messages with
  | nil => simp
  | cons message messages ih =>
      have positive := code.length_frame_pos message
      rw [frames_cons, List.length_append, List.length_cons]
      omega

theorem decodeFuel_frames (messages : List Message) {part : List Byte}
    (short : code.Part part) (fuel : Nat) (enough : messages.length ≤ fuel) :
    code.decodeFuel fuel (code.frames messages ++ part) = (messages, part) := by
  induction messages generalizing fuel with
  | nil =>
      cases fuel with
      | zero => rfl
      | succ fuel => simp [decodeFuel, Part.cut code short]
  | cons message messages ih =>
      cases fuel with
      | zero => simp at enough
      | succ fuel =>
          have rest := ih fuel (by simpa using enough)
          rw [frames_cons, List.append_assoc, decodeFuel, code.cut_frame]
          simp only [rest]

/-- Decoding undoes a concatenation of frames with a part of one at the end. -/
theorem decode_frames (messages : List Message) {part : List Byte}
    (short : code.Part part) :
    code.decode (code.frames messages ++ part) = (messages, part) := by
  apply code.decodeFuel_frames messages short
  have bound := code.length_le_length_frames messages
  rw [List.length_append]
  omega

end Code

end Framing

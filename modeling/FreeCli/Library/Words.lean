import Mathlib.Algebra.Ring.Int.Defs
import Mathlib.Algebra.Ring.Nat
import Mathlib.Data.List.Basic
import Mathlib.Data.List.TakeWhile

namespace Words

/-! Byte strings, little-endian words and bounds-checked reads. -/

abbrev Bytes := List UInt8

def ascii (text : String) : Bytes :=
  text.toList.flatMap String.utf8EncodeChar

theorem ascii_injective {first second : String} (same : ascii first = ascii second) :
    first = second := by
  have bytes : first.toList.utf8Encode = second.toList.utf8Encode := by
    simp only [List.utf8Encode]
    exact congrArg List.toByteArray same
  have chars := congrArg ByteArray.utf8Decode? bytes
  rw [List.utf8Decode?_utf8Encode, List.utf8Decode?_utf8Encode] at chars
  have lists : first.toList = second.toList :=
    congrArg Array.toList (Option.some.inj chars)
  exact String.toList_injective lists

def leBytes : Nat → Nat → Bytes
  | 0, _ => []
  | width + 1, value => UInt8.ofNat (value % 256) :: leBytes width (value / 256)

def leValue : Bytes → Nat
  | [] => 0
  | byte :: rest => byte.toNat + 256 * leValue rest

@[simp] theorem length_leBytes (width value : Nat) :
    (leBytes width value).length = width := by
  induction width generalizing value with
  | zero => rfl
  | succ width ih => simp only [leBytes, List.length_cons, ih]

theorem leValue_leBytes (width value : Nat) :
    leValue (leBytes width value) = value % 256 ^ width := by
  induction width generalizing value with
  | zero => simp only [leBytes, leValue, Nat.pow_zero, Nat.mod_one]
  | succ width ih =>
      have low : (UInt8.ofNat (value % 256)).toNat = value % 256 :=
        UInt8.toNat_ofNat_of_lt' (Nat.mod_lt _ (by decide))
      rw [leBytes, leValue, ih, low, Nat.pow_succ', Nat.mod_mul]

def le32 (word : UInt32) : Bytes := leBytes 4 word.toNat

def le64 (word : UInt64) : Bytes := leBytes 8 word.toNat

@[simp] theorem length_le32 (word : UInt32) : (le32 word).length = 4 :=
  length_leBytes 4 _

@[simp] theorem length_le64 (word : UInt64) : (le64 word).length = 8 :=
  length_leBytes 8 _

theorem leValue_le32 (word : UInt32) : leValue (le32 word) = word.toNat := by
  rw [le32, leValue_leBytes]
  exact Nat.mod_eq_of_lt word.toNat_lt

theorem leValue_le64 (word : UInt64) : leValue (le64 word) = word.toNat := by
  rw [le64, leValue_leBytes]
  exact Nat.mod_eq_of_lt word.toNat_lt

/-! Reads give `none` outside the buffer. -/

def readBytes (buffer : Bytes) (offset count : Nat) : Option Bytes :=
  if offset + count ≤ buffer.length then
    some ((buffer.drop offset).take count)
  else
    none

def readU8 (buffer : Bytes) (offset : Nat) : Option UInt8 := buffer[offset]?

def readU32 (buffer : Bytes) (offset : Nat) : Option UInt32 :=
  (readBytes buffer offset 4).map fun bytes => UInt32.ofNat (leValue bytes)

def readU64 (buffer : Bytes) (offset : Nat) : Option UInt64 :=
  (readBytes buffer offset 8).map fun bytes => UInt64.ofNat (leValue bytes)

/-- `offset` is a position of `buffer` with exactly `rest` left to read. -/
def At (buffer : Bytes) (offset : Nat) (rest : Bytes) : Prop :=
  ∃ consumed, consumed ++ rest = buffer ∧ consumed.length = offset

theorem At.start (h : buffer = rest) : At buffer 0 rest := ⟨[], h.symm, rfl⟩

theorem At.length_eq (h : At buffer offset rest) :
    offset + rest.length = buffer.length := by
  obtain ⟨consumed, rfl, rfl⟩ := h
  simp

theorem At.skip (h : At buffer offset (item ++ rest)) :
    At buffer (offset + item.length) rest := by
  obtain ⟨consumed, rfl, rfl⟩ := h
  exact ⟨consumed ++ item, by simp, by simp⟩

theorem At.readBytes (h : At buffer offset (item ++ rest)) :
    readBytes buffer offset item.length = some item := by
  have bound := h.length_eq
  obtain ⟨consumed, rfl, rfl⟩ := h
  simp [Words.readBytes]

theorem At.readU8 (h : At buffer offset (byte :: rest)) :
    readU8 buffer offset = some byte := by
  obtain ⟨consumed, rfl, rfl⟩ := h
  simp [Words.readU8]

theorem At.readU32 (h : At buffer offset (le32 word ++ rest)) :
    readU32 buffer offset = some word := by
  have read : Words.readBytes buffer offset 4 = some (le32 word) := by
    simpa using h.readBytes
  rw [Words.readU32, read, Option.map_some, leValue_le32, UInt32.ofNat_toNat]

theorem At.readU64 (h : At buffer offset (le64 word ++ rest)) :
    readU64 buffer offset = some word := by
  have read : Words.readBytes buffer offset 8 = some (le64 word) := by
    simpa using h.readBytes
  rw [Words.readU64, read, Option.map_some, leValue_le64, UInt64.ofNat_toNat]

theorem At.skip8 (h : At buffer offset (byte :: rest)) :
    At buffer (offset + 1) rest := by
  have skipped : At buffer (offset + [byte].length) rest := At.skip h
  exact skipped

theorem At.skip32 (h : At buffer offset (le32 word ++ rest)) :
    At buffer (offset + 4) rest := by
  simpa using h.skip

theorem At.skip64 (h : At buffer offset (le64 word ++ rest)) :
    At buffer (offset + 8) rest := by
  simpa using h.skip

/-! NUL-terminated strings. -/

/-- The characters of a C string, without the terminator. -/
structure CString where
  bytes : Bytes
  nulFree : 0 ∉ bytes
  deriving DecidableEq, Repr

def terminated (block : Bytes) : Bytes :=
  block.takeWhile fun byte => byte != 0

theorem CString.ne_zero (text : CString) : ∀ byte ∈ text.bytes, (byte != 0) = true := by
  intro byte member
  have : byte ≠ 0 := fun zero => text.nulFree (zero ▸ member)
  simpa using this

@[simp] theorem terminated_append_nul (text : CString) (rest : Bytes) :
    terminated (text.bytes ++ 0 :: rest) = text.bytes := by
  rw [terminated, List.takeWhile_append_of_pos text.ne_zero]
  simp

@[simp] theorem terminated_bytes (text : CString) : terminated text.bytes = text.bytes :=
  List.takeWhile_eq_self_iff.2 text.ne_zero

theorem terminated_of_nulFree (nulFree : 0 ∉ block) : terminated block = block :=
  terminated_bytes ⟨block, nulFree⟩

theorem nulFree_terminated (block : Bytes) : 0 ∉ terminated block := by
  intro member
  have kept := List.mem_takeWhile_imp member
  simp at kept

def CString.of (block : Bytes) : CString := ⟨terminated block, nulFree_terminated block⟩

@[simp] theorem CString.of_bytes (text : CString) : CString.of text.bytes = text := by
  cases text with
  | mk bytes nulFree => simp only [CString.of, terminated_of_nulFree nulFree]

end Words

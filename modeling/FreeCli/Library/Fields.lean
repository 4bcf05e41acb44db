import FreeCli.Library.Words

namespace Fields

open Words

/-! Strings behind their length, taken off the front of a byte string, and the same
read through a cursor. -/

/-- A 32-bit length and as many bytes, and what is behind them. -/
def field (bytes : Bytes) : Option (Bytes × Bytes) :=
  let len := leValue (bytes.take 4)
  let body := bytes.drop 4
  if 4 ≤ bytes.length ∧ len ≤ body.length then some (body.take len, body.drop len) else none

/-- `n` fields, each behind a byte of its own. -/
def flagged : (n : Nat) → Bytes → Option (List (UInt8 × Bytes) × Bytes)
  | 0, bytes => some ([], bytes)
  | _ + 1, [] => none
  | n + 1, flag :: bytes => do
      let first ← field bytes
      let rest ← flagged n first.2
      some ((flag, first.1) :: rest.1, rest.2)

def fieldBytes (text : Bytes) : Bytes := le32 (UInt32.ofNat text.length) ++ text

def flaggedBytes (item : UInt8 × Bytes) : Bytes := item.1 :: fieldBytes item.2

theorem leBytes_leValue (bytes : Bytes) : leBytes bytes.length (leValue bytes) = bytes := by
  induction bytes with
  | nil => rfl
  | cons byte rest ih =>
      have low : (byte.toNat + 256 * leValue rest) % 256 = byte.toNat := by
        have bound : byte.toNat < 256 := byte.toNat_lt
        omega
      have high : (byte.toNat + 256 * leValue rest) / 256 = leValue rest := by
        have bound : byte.toNat < 256 := byte.toNat_lt
        omega
      rw [List.length_cons, leBytes, leValue, low, high, ih, UInt8.ofNat_toNat]

theorem leValue_lt (bytes : Bytes) : leValue bytes < 256 ^ bytes.length := by
  have bound := Nat.mod_lt (leValue bytes) (Nat.pow_pos (n := bytes.length) (a := 256) (by decide))
  rwa [← leValue_leBytes, leBytes_leValue] at bound

theorem le32_leValue {bytes : Bytes} (four : bytes.length = 4) :
    le32 (UInt32.ofNat (leValue bytes)) = bytes := by
  have bound := leValue_lt bytes
  rw [four] at bound
  rw [le32, UInt32.toNat_ofNat_of_lt' bound, ← four, leBytes_leValue]

theorem exists_le32 {bytes : Bytes} (long : 4 ≤ bytes.length) :
    ∃ word body, bytes = le32 word ++ body := by
  refine ⟨UInt32.ofNat (leValue (bytes.take 4)), bytes.drop 4, ?_⟩
  rw [le32_leValue (List.length_take_of_le long), List.take_append_drop]

theorem field_le32 (word : UInt32) (body : Bytes) :
    field (le32 word ++ body) =
      if word.toNat ≤ body.length then some (body.take word.toNat, body.drop word.toNat)
      else none := by
  have front : (le32 word ++ body).take 4 = le32 word := List.take_left' (length_le32 word)
  have behind : (le32 word ++ body).drop 4 = body := List.drop_left' (length_le32 word)
  have long : 4 ≤ (le32 word ++ body).length := by
    rw [List.length_append, length_le32]
    exact Nat.le_add_right 4 _
  simp only [field, front, behind, leValue_le32, long, true_and]

theorem field_short {bytes : Bytes} (short : bytes.length < 4) : field bytes = none :=
  if_neg fun both => absurd both.1 (Nat.not_le.2 short)

theorem field_nil : field [] = none := field_short (by decide)

theorem field_parts {bytes text rest : Bytes} (found : field bytes = some (text, rest)) :
    ∃ word, bytes = le32 word ++ (text ++ rest) ∧ word.toNat = text.length := by
  rcases Nat.lt_or_ge bytes.length 4 with short | long
  · rw [field_short short] at found
    cases found
  · obtain ⟨word, body, rfl⟩ := exists_le32 long
    rw [field_le32] at found
    split at found
    next fits =>
      cases found
      exact ⟨word, by rw [List.take_append_drop], (List.length_take_of_le fits).symm⟩
    next => cases found

theorem eq_of_field {bytes text rest : Bytes} (found : field bytes = some (text, rest)) :
    bytes = fieldBytes text ++ rest := by
  obtain ⟨word, rfl, size⟩ := field_parts found
  rw [fieldBytes, ← size, UInt32.ofNat_toNat, List.append_assoc]

theorem field_fieldBytes {text : Bytes} (short : text.length < 2 ^ 32) (rest : Bytes) :
    field (fieldBytes text ++ rest) = some (text, rest) := by
  have length : (UInt32.ofNat text.length).toNat = text.length :=
    UInt32.toNat_ofNat_of_lt' short
  rw [fieldBytes, List.append_assoc, field_le32, length, if_pos (by simp), List.take_left,
    List.drop_left]

theorem eq_of_flagged {n : Nat} {bytes rest : Bytes} {items : List (UInt8 × Bytes)}
    (found : flagged n bytes = some (items, rest)) :
    items.length = n ∧ bytes = items.flatMap flaggedBytes ++ rest := by
  induction n generalizing bytes items with
  | zero =>
      cases found
      exact ⟨rfl, rfl⟩
  | succ n ih =>
      cases bytes with
      | nil => cases found
      | cons flag bytes =>
          obtain ⟨first, here, found⟩ := Option.bind_eq_some_iff.1 found
          obtain ⟨later, there, found⟩ := Option.bind_eq_some_iff.1 found
          cases found
          obtain ⟨length, same⟩ := ih there
          refine ⟨by rw [List.length_cons, length], ?_⟩
          rw [List.flatMap_cons, flaggedBytes, eq_of_field here, same]
          simp only [List.cons_append, List.append_assoc]

/-! A field at a cursor. -/

variable {buffer bytes text rest : Bytes} {p : Nat}

theorem At.field_some (here : At buffer p bytes) (found : field bytes = some (text, rest)) :
    p + 4 + text.length ≤ buffer.length ∧
      (∃ len, readU32 buffer p = some len ∧ len.toNat = text.length) ∧
      readBytes buffer (p + 4) text.length = some text ∧
      At buffer (p + 4 + text.length) rest := by
  obtain ⟨word, rfl, size⟩ := field_parts found
  have text := here.skip32
  have bound := text.length_eq
  rw [List.length_append] at bound
  exact ⟨by omega, ⟨word, here.readU32, size⟩, text.readBytes, text.skip⟩

theorem At.field_none (here : At buffer p bytes) (missing : field bytes = none) :
    buffer.length < p + 4 ∨ p + 4 ≤ buffer.length ∧
      (∃ len, readU32 buffer p = some len ∧ buffer.length < p + 4 + len.toNat) ∧
      At buffer (p + 4) (bytes.drop 4) := by
  have bound := here.length_eq
  rcases Nat.lt_or_ge bytes.length 4 with short | long
  · exact .inl (by omega)
  · obtain ⟨word, body, rfl⟩ := exists_le32 long
    rw [field_le32] at missing
    split at missing
    next => cases missing
    next overruns =>
      have behind := here.skip32
      have left := behind.length_eq
      refine .inr ⟨by omega, ⟨word, here.readU32, by omega⟩, ?_⟩
      rwa [List.drop_left' (length_le32 word)]

end Fields

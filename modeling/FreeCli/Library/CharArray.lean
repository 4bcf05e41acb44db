import FreeCli.Library.Words

/-! Strings in arrays of a fixed size. Every access is checked, and one outside the
array gives `none`. -/

open Words

structure CharArray (size : Nat) where
  bytes : Bytes
  length_eq : bytes.length = size
  deriving DecidableEq

namespace CharArray

variable {size other : Nat}

def zeroed (size : Nat) : CharArray size := ⟨List.replicate size 0, List.length_replicate⟩

/-- `array[i] = c` -/
def put (array : CharArray size) (i : Int) (c : UInt8) : Option (CharArray size) :=
  if 0 ≤ i ∧ i < size then
    some ⟨array.bytes.set i.toNat c, by rw [List.length_set, array.length_eq]⟩
  else none

/-- `memmove(&array[dst], &array[src], n)`; a negative `n` is a huge one. -/
def memmove (array : CharArray size) (dst src n : Int) : Option (CharArray size) :=
  if inside : 0 ≤ dst ∧ 0 ≤ src ∧ 0 ≤ n ∧ dst + n ≤ size ∧ src + n ≤ size then
    some ⟨array.bytes.take dst.toNat ++ (array.bytes.drop src.toNat).take n.toNat ++
        array.bytes.drop (dst.toNat + n.toNat), by
      have length_eq := array.length_eq
      rw [List.length_append, List.length_append, List.length_take, List.length_take,
        List.length_drop, List.length_drop]
      omega⟩
  else none

def strlen (array : CharArray size) : Option Int :=
  if 0 ∈ array.bytes then some (terminated array.bytes).length else none

/-- `strcpy(array, text)` -/
def strcpy (array : CharArray size) (text : CharArray other) : Option (CharArray size) :=
  if fits : 0 ∈ text.bytes ∧ (terminated text.bytes).length < size then
    some ⟨terminated text.bytes ++ 0 :: array.bytes.drop ((terminated text.bytes).length + 1), by
      have length_eq := array.length_eq
      rw [List.length_append, List.length_cons, List.length_drop]
      omega⟩
  else none

/-- The array holds the string `text`, and something behind its terminator. -/
structure Holds (array : CharArray size) (text : Bytes) : Prop where
  nulFree : (0 : UInt8) ∉ text
  content : ∃ rest, array.bytes = text ++ 0 :: rest

variable {array : CharArray size} {text : Bytes}

theorem exists_put (array : CharArray size) {i : Nat} (c : UInt8) (inside : i < size) :
    ∃ written, array.put i c = some written ∧ written.bytes = array.bytes.set i c :=
  ⟨_, if_pos ⟨Int.natCast_nonneg i, by omega⟩, rfl⟩

theorem exists_memmove (array : CharArray size) (dst src n : Nat) (above : dst + n ≤ size)
    (below : src + n ≤ size) :
    ∃ moved, array.memmove dst src n = some moved ∧ moved.bytes =
      array.bytes.take dst ++ (array.bytes.drop src).take n ++ array.bytes.drop (dst + n) :=
  ⟨_, dif_pos (by omega), rfl⟩

theorem zeroed_holds (size : Nat) : (zeroed (size + 1)).Holds [] where
  nulFree := List.not_mem_nil
  content := ⟨List.replicate size 0, List.replicate_succ⟩

namespace Holds

theorem terminated_eq (holds : array.Holds text) : terminated array.bytes = text := by
  obtain ⟨rest, same⟩ := holds.content
  rw [same]
  exact terminated_append_nul ⟨text, holds.nulFree⟩ rest

theorem zero_mem (holds : array.Holds text) : (0 : UInt8) ∈ array.bytes := by
  obtain ⟨rest, same⟩ := holds.content
  rw [same]
  exact List.mem_append_right _ List.mem_cons_self

theorem length_lt (holds : array.Holds text) : text.length < size := by
  obtain ⟨rest, same⟩ := holds.content
  have length_eq := array.length_eq
  rw [same, List.length_append, List.length_cons] at length_eq
  omega

theorem strlen_eq (holds : array.Holds text) : array.strlen = some (text.length : Int) := by
  rw [strlen, if_pos holds.zero_mem, holds.terminated_eq]

theorem take_length (holds : array.Holds text) : array.bytes.take text.length = text := by
  obtain ⟨rest, same⟩ := holds.content
  rw [same, List.take_left]

theorem terminator (holds : array.Holds text) :
    array.bytes[text.length]? = some 0 ∧ ∀ i < text.length, array.bytes[i]? ≠ some 0 := by
  obtain ⟨rest, same⟩ := holds.content
  rw [same]
  refine ⟨by rw [List.getElem?_append_right (Nat.le_refl _), Nat.sub_self]; rfl, ?_⟩
  intro i inside zero
  rw [List.getElem?_append_left inside] at zero
  exact holds.nulFree (List.mem_of_getElem? zero)

theorem put_zero (holds : array.Holds text) :
    ∃ cleared, array.put 0 0 = some cleared ∧ cleared.Holds [] := by
  have size_pos : 0 < size := Nat.lt_of_le_of_lt (Nat.zero_le _) holds.length_lt
  obtain ⟨cleared, written, same⟩ := array.exists_put 0 size_pos
  refine ⟨cleared, written, List.not_mem_nil, array.bytes.drop 1, ?_⟩
  obtain ⟨rest, content⟩ := holds.content
  rw [same, content]
  cases text <;> rfl

theorem copied {source : CharArray other} (holds : source.Holds text)
    (array : CharArray size) (fits : text.length < size) :
    ∃ copy, array.strcpy source = some copy ∧ copy.Holds text := by
  obtain ⟨nulFree, content⟩ := holds
  have found := Holds.terminated_eq ⟨nulFree, content⟩
  have closed := Holds.zero_mem ⟨nulFree, content⟩
  subst found
  exact ⟨_, dif_pos ⟨closed, fits⟩, nulFree, _, rfl⟩

theorem removed {front back : Bytes} {c : UInt8} (holds : array.Holds (front ++ c :: back)) :
    ∃ shorter, array.memmove front.length (front.length + 1) (back.length + 1) = some shorter ∧
      shorter.Holds (front ++ back) := by
  have bound := holds.length_lt
  rw [List.length_append, List.length_cons] at bound
  obtain ⟨shorter, moved, same⟩ := array.exists_memmove front.length
    (front.length + 1) (back.length + 1) (by omega) (by omega)
  refine ⟨shorter, moved, ?_, ?_⟩
  · have nulFree := holds.nulFree
    rw [List.mem_append, List.mem_cons, not_or, not_or] at nulFree
    rw [List.mem_append, not_or]
    exact ⟨nulFree.1, nulFree.2.2⟩
  · obtain ⟨rest, content⟩ := holds.content
    refine ⟨0 :: rest, ?_⟩
    rw [same, content]
    simp [List.take_length_add_append, List.drop_length_add_append]

theorem inserted {front back : Bytes} {c : UInt8} (holds : array.Holds (front ++ back))
    (room : (front ++ back).length + 1 < size) (nonzero : c ≠ 0) :
    ∃ moved longer,
      array.memmove (front.length + 1) front.length (back.length + 1) = some moved ∧
      moved.put front.length c = some longer ∧ longer.Holds (front ++ c :: back) := by
  rw [List.length_append] at room
  obtain ⟨moved, copied, same⟩ := array.exists_memmove (front.length + 1)
    front.length (back.length + 1) (by omega) (by omega)
  obtain ⟨longer, written, new⟩ := moved.exists_put (i := front.length) c (by omega)
  refine ⟨moved, longer, copied, written, ?_, ?_⟩
  · have nulFree := holds.nulFree
    rw [List.mem_append, not_or] at nulFree
    rw [List.mem_append, List.mem_cons, not_or, not_or]
    exact ⟨nulFree.1, Ne.symm nonzero, nulFree.2⟩
  · obtain ⟨rest, content⟩ := holds.content
    have behind : front.length + 1 + (back.length + 1) = front.length + (back.length + 2) := by
      omega
    rw [List.append_assoc] at content
    refine ⟨rest.drop 1, ?_⟩
    rw [new, same, content, behind, List.take_length_add_append,
      List.drop_left, List.take_length_add_append, List.drop_length_add_append,
      List.drop_length_add_append]
    cases back <;> simp

end Holds

end CharArray

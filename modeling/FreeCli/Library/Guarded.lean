import FreeCli.Library.Words

namespace Guarded

open Words

/-! Computations that give `none` where they would touch memory they must not. -/

/-- `run` stays inside its memory, and what it returns satisfies `post`. -/
def Ensures (run : Option α) (post : α → Prop) : Prop :=
  ∃ result, run = some result ∧ post result

theorem Ensures.pure {post : α → Prop} (holds : post result) :
    Ensures (some result) post :=
  ⟨result, rfl, holds⟩

theorem Ensures.bind {mid : α → Prop} {post : β → Prop} {next : α → Option β}
    (first : Ensures run mid)
    (rest : ∀ result, mid result → Ensures (next result) post) :
    Ensures (run >>= next) post := by
  obtain ⟨result, rfl, holds⟩ := first
  exact rest result holds

theorem Ensures.mono {weak strong : α → Prop} (run : Ensures result strong)
    (implied : ∀ a, strong a → weak a) : Ensures result weak := by
  obtain ⟨a, ran, holds⟩ := run
  exact ⟨a, ran, implied a holds⟩

theorem Ensures.ite {condition : Prop} [Decidable condition]
    {yes no : Option α} {post : α → Prop}
    (positive : condition → Ensures yes post)
    (negative : ¬condition → Ensures no post) :
    Ensures (if condition then yes else no) post := by
  split
  next holds => exact positive holds
  next fails => exact negative fails

/-- Whatever `run` returns satisfies `post`. -/
def Yields (run : Option α) (post : α → Prop) : Prop :=
  ∀ result, run = some result → post result

theorem Yields.pure {post : α → Prop} (holds : post result) : Yields (some result) post :=
  fun _ same => Option.some.inj same ▸ holds

theorem Yields.bind {post : β → Prop} {next : α → Option β}
    (rest : ∀ result, run = some result → Yields (next result) post) :
    Yields (run >>= next) post := by
  intro last ran
  obtain ⟨result, first, ran⟩ := Option.bind_eq_some_iff.1 ran
  exact rest result first last ran

theorem Yields.ite {condition : Prop} [Decidable condition]
    {yes no : Option α} {post : α → Prop}
    (positive : condition → Yields yes post)
    (negative : ¬condition → Yields no post) :
    Yields (if condition then yes else no) post := by
  split
  next holds => exact positive holds
  next fails => exact negative fails

theorem ensures_readBytes (inside : offset + count ≤ buffer.length) :
    Ensures (readBytes buffer offset count) fun bytes => bytes.length = count := by
  rw [readBytes, if_pos inside]
  apply Ensures.pure
  rw [List.length_take, List.length_drop]
  omega

theorem ensures_readU8 (inside : offset + 1 ≤ buffer.length) :
    Ensures (readU8 buffer offset) fun _ => True :=
  ⟨buffer[offset], List.getElem?_eq_getElem inside, trivial⟩

theorem ensures_readU32 (inside : offset + 4 ≤ buffer.length) :
    Ensures (readU32 buffer offset) fun _ => True := by
  obtain ⟨bytes, read, _⟩ := ensures_readBytes inside
  exact ⟨_, by rw [readU32, read, Option.map_some], trivial⟩

theorem ensures_readU64 (inside : offset + 8 ≤ buffer.length) :
    Ensures (readU64 buffer offset) fun _ => True := by
  obtain ⟨bytes, read, _⟩ := ensures_readBytes inside
  exact ⟨_, by rw [readU64, read, Option.map_some], trivial⟩

/-- What a C string function sees of a block that must hold the terminator. -/
def cString (block : Bytes) : Option Bytes :=
  if 0 ∈ block then some (terminated block) else none

theorem ensures_cString (closed : 0 ∈ block) :
    Ensures (cString block) fun text => text = terminated block := by
  rw [cString, if_pos closed]
  exact .pure rfl

end Guarded

import FreeCli.Core.Wrapping

namespace FreeCli

open Words WordWrap

/-! Valid UTF-8 texts. -/

abbrev Letter := { c : Char // c ≠ '\x00' }

def utf8 (text : List Letter) : Bytes :=
  text.flatMap fun (c : Letter) => String.utf8EncodeChar c.val

def letters (text : String) : List Letter :=
  text.toList.filterMap fun c => if legal : c ≠ '\x00' then some ⟨c, legal⟩ else none

namespace Letter

/-- ASCII is one byte, and all others start with a lead byte that gives their
length. -/
theorem encode_cases (c : Char) :
    (c.val.toNat ≤ 0x7F ∧ String.utf8EncodeChar c = [UInt8.ofNat c.val.toNat]) ∨
      (0x7F < c.val.toNat ∧ ∃ lead tail, String.utf8EncodeChar c = lead :: tail ∧
        0xC0 ≤ lead.toNat ∧ tail.length + 1 = utf8Clen lead) := by
  have clen : ∀ value size : Nat, value < 256 →
      (0xC0 ≤ value ∧ value < 0xE0 ∧ size = 2 ∨ 0xE0 ≤ value ∧ value < 0xF0 ∧ size = 3 ∨
        0xF0 ≤ value ∧ size = 4) →
      0xC0 ≤ (UInt8.ofNat value).toNat ∧ size = utf8Clen (UInt8.ofNat value) := by
    intro value size small range
    have same : (UInt8.ofNat value).toNat = value := UInt8.toNat_ofNat_of_lt' small
    unfold utf8Clen
    simp only [UInt8.lt_iff_toNat_lt, ← UInt8.toNat_inj, same, UInt8.reduceToNat]
    refine ⟨by omega, ?_⟩
    split_ifs <;> omega
  have bound : c.val.toNat < 0x110000 := by
    rcases c.valid with low | ⟨_, high⟩ <;> omega
  simp only [String.utf8EncodeChar]
  split_ifs with one two three
  · exact .inl ⟨one, rfl⟩
  · obtain ⟨lead, size⟩ := clen (c.val.toNat / 64 % 0x20 + 0xc0) 2 (by omega) (by omega)
    exact .inr ⟨by omega, _, _, rfl, lead, size⟩
  · obtain ⟨lead, size⟩ := clen (c.val.toNat / 4096 % 0x10 + 0xe0) 3 (by omega) (by omega)
    exact .inr ⟨by omega, _, _, rfl, lead, size⟩
  · obtain ⟨lead, size⟩ := clen (c.val.toNat / 262144 % 0x08 + 0xf0) 4 (by omega) (by omega)
    exact .inr ⟨by omega, _, _, rfl, lead, size⟩

theorem exists_glyph (c : Letter) :
    ∃ glyph : Glyph, glyph.bytes = String.utf8EncodeChar c := by
  rcases encode_cases c with ⟨small, bytes⟩ | ⟨-, lead, tail, bytes, high, size⟩
  · have same : (UInt8.ofNat c.val.val.toNat).toNat = c.val.val.toNat :=
      UInt8.toNat_ofNat_of_lt' (Nat.lt_of_le_of_lt small (by decide))
    have nonzero : UInt8.ofNat c.val.val.toNat ≠ 0 := by
      intro zero
      apply c.property
      rw [← UInt8.toNat_inj, same] at zero
      exact Char.ext (UInt32.toNat_inj.1 zero)
    refine ⟨⟨UInt8.ofNat c.val.val.toNat, [], nonzero, ?_⟩, bytes.symm⟩
    rw [utf8Clen, if_neg nonzero, if_pos]
    · rfl
    · rw [UInt8.lt_iff_toNat_lt, same]
      exact Nat.lt_succ_of_le small
  · refine ⟨⟨lead, tail, ?_, size⟩, bytes.symm⟩
    rintro rfl
    exact absurd high (by decide)

def glyph (c : Letter) : Glyph where
  lead := (String.utf8EncodeChar c).head String.utf8EncodeChar_ne_nil
  tail := (String.utf8EncodeChar c).tail
  lead_ne := by
    obtain ⟨glyph, same⟩ := exists_glyph c
    simp only [← same]
    exact glyph.lead_ne
  size := by
    obtain ⟨glyph, same⟩ := exists_glyph c
    simp only [← same]
    exact glyph.size

theorem bytes_glyph (c : Letter) : c.glyph.bytes = String.utf8EncodeChar c :=
  List.cons_head_tail String.utf8EncodeChar_ne_nil

theorem lead_eq_iff (c : Letter) (other : Char) (ascii : other.val.toNat ≤ 0x7F) :
    c.glyph.lead = UInt8.ofNat other.val.toNat ↔ c.val = other := by
  have lead : ∃ tail, String.utf8EncodeChar c = c.glyph.lead :: tail :=
    ⟨c.glyph.tail, c.bytes_glyph.symm⟩
  obtain ⟨tail, lead⟩ := lead
  have value : (UInt8.ofNat other.val.toNat).toNat = other.val.toNat :=
    UInt8.toNat_ofNat_of_lt' (Nat.lt_of_le_of_lt ascii (by decide))
  rcases encode_cases c with ⟨small, bytes⟩ | ⟨large, first, rest, bytes, high, -⟩
  · have same : (UInt8.ofNat c.val.val.toNat).toNat = c.val.val.toNat :=
      UInt8.toNat_ofNat_of_lt' (Nat.lt_of_le_of_lt small (by decide))
    rw [lead] at bytes
    rw [(List.cons.inj bytes).1, ← UInt8.toNat_inj, same, value]
    constructor
    · exact fun equal => Char.ext (UInt32.toNat_inj.1 equal)
    · exact fun equal => by rw [equal]
  · rw [lead] at bytes
    rw [(List.cons.inj bytes).1]
    constructor
    · intro equal
      rw [equal, value] at high
      omega
    · intro equal
      rw [equal] at large
      omega

/-- Columns by `utf8_cwidth`; rows break at spaces and tabs, and must break at
newlines. -/
def font : Font Letter where
  width c := (utf8Cwidth (String.utf8EncodeChar c)).getD 1
  blank c := c.val == ' ' || c.val == '\t'
  newline c := c.val == '\n'
  width_pos := by
    intro c
    have width := c.glyph.utf8Cwidth_bytes []
    rw [List.append_nil, bytes_glyph] at width
    rw [width]
    rcases c.glyph.width_cases with width | width <;> rw [width] <;> decide
  width_blank := by
    intro c blank
    rw [Bool.or_eq_true, beq_iff_eq, beq_iff_eq] at blank
    rcases blank with same | same <;> rw [same] <;> rfl
  apart := by
    intro c broken
    rw [beq_iff_eq] at broken
    rw [broken]
    rfl

def script : Script Letter where
  font := font
  glyph := glyph
  width_eq := by
    intro c
    rw [Glyph.width, bytes_glyph]
    rfl
  blank_eq := by
    intro c
    have space := lead_eq_iff c ' ' (by decide)
    have tab := lead_eq_iff c '\t' (by decide)
    rw [Bool.eq_iff_iff]
    simp only [font, Glyph.blank, blankByte, Bool.or_eq_true, beq_iff_eq]
    rw [← space, ← tab]
    rfl
  newline_eq := by
    intro c
    have line := lead_eq_iff c '\n' (by decide)
    rw [Bool.eq_iff_iff]
    simp only [font, Glyph.newline, beq_iff_eq]
    rw [← line]
    rfl

theorem bytes_script (text : List Letter) : script.bytes text = utf8 text := by
  induction text with
  | nil => rfl
  | cons c text ih =>
      rw [Script.bytes_cons, ih, utf8, utf8, List.flatMap_cons]
      exact congrArg (· ++ _) c.bytes_glyph

theorem size_script (text : List Letter) : script.size text = (utf8 text).length := by
  rw [Script.size, bytes_script]

theorem width_cases (c : Letter) : font.width c = 1 ∨ font.width c = 2 := by
  have same := script.width_eq c
  rcases (script.glyph c).width_cases with width | width
  · exact .inl (same.trans width)
  · exact .inr (same.trans width)

end Letter

end FreeCli

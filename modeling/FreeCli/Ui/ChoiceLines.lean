import FreeCli.Ui.ChoiceNumerals
import FreeCli.Ui.ChoiceLists
import Mathlib.Data.List.DropRight

namespace FreeCli

open Words

/-! The numerals of a pass, line by line. -/

def filled (item : Bytes) : Bool := item.any fun c => c != 0x20 && c != 0x0D

/-- Whether the option after `found` ones is in the line, and anything in it. -/
def opened (found : Nat) (line : Bytes) : Option Bool :=
  (matchLine false (found + 1) (line ++ [0])).join.map fun start => filled (line.drop start)

/-- The numerals at the heads of the lines up to the one behind the eighth option.
In an item `item` tells whether there is anything in it. -/
def headNumerals : (lines : List Bytes) → (found : Nat) → (item : Option Bool) → List Bytes
  | [], _, _ => []
  | line :: lines, found, none =>
      if maxChoices ≤ found then []
      else lineNumeral line :: headNumerals lines found (opened found line)
  | line :: lines, found, some content =>
      nextNumeral line ::
        if endsItem false (found + 1) (line ++ [0]) = some true then
          let found := if content then found + 1 else found
          if maxChoices ≤ found then []
          else lineNumeral line :: headNumerals lines found (opened found line)
        else headNumerals lines found (some true)

def linesTail : List Bytes → Bytes
  | [] => [0]
  | line :: lines => 0x0A :: (line ++ linesTail lines)

structure PlainLine (line : Bytes) : Prop where
  nulFree : (0 : UInt8) ∉ line
  noNewline : (0x0A : UInt8) ∉ line

theorem plainLine_nil : PlainLine [] := ⟨List.not_mem_nil, List.not_mem_nil⟩

theorem plainLine_cons {c : UInt8} {line : Bytes} :
    PlainLine (c :: line) ↔ c ≠ 0 ∧ c ≠ 0x0A ∧ PlainLine line := by
  constructor
  · intro plain
    obtain ⟨nonzero, nulFree⟩ := not_or.1 (mt List.mem_cons.2 plain.nulFree)
    obtain ⟨other, noNewline⟩ := not_or.1 (mt List.mem_cons.2 plain.noNewline)
    exact ⟨Ne.symm nonzero, Ne.symm other, nulFree, noNewline⟩
  · rintro ⟨nonzero, other, plain⟩
    exact ⟨mt List.mem_cons.1 (not_or.2 ⟨Ne.symm nonzero, plain.nulFree⟩),
      mt List.mem_cons.1 (not_or.2 ⟨Ne.symm other, plain.noNewline⟩)⟩

theorem splitOn_lines {text : Bytes} (nulFree : (0 : UInt8) ∉ text) :
    ∃ line lines, text.splitOn 0x0A = line :: lines ∧ text ++ [0] = line ++ linesTail lines ∧
      ∀ plain ∈ line :: lines, PlainLine plain := by
  induction text with
  | nil => exact ⟨[], [], rfl, rfl, fun plain member => List.mem_singleton.1 member ▸ plainLine_nil⟩
  | cons c text ih =>
      obtain ⟨line, lines, split, whole, plain⟩ :=
        ih fun member => nulFree (List.mem_cons_of_mem _ member)
      rw [List.splitOn_cons_eq_if_modifyHead, split]
      split
      next newline =>
        refine ⟨[], line :: lines, rfl, ?_, ?_⟩
        · rw [eq_of_beq newline, List.cons_append, whole]
          rfl
        · exact List.forall_mem_cons.2 ⟨plainLine_nil, plain⟩
      next other =>
        refine ⟨c :: line, lines, rfl, congrArg (c :: ·) whole, ?_⟩
        obtain ⟨first, rest⟩ := List.forall_mem_cons.1 plain
        refine List.forall_mem_cons.2 ⟨plainLine_cons.2 ⟨?_, ?_, first⟩, rest⟩
        · exact fun zero => nulFree (zero ▸ List.mem_cons_self)
        · exact fun newline => other (beq_iff_eq.2 newline)

/-! A line is read alike whatever is behind it. -/

def Stop (c : UInt8) : Prop := c = 0 ∨ c = 0x0A

theorem exists_linesTail (lines : List Bytes) : ∃ c rest, linesTail lines = c :: rest ∧ Stop c := by
  cases lines with
  | nil => exact ⟨0, [], rfl, .inl rfl⟩
  | cons line lines => exact ⟨0x0A, _, rfl, .inr rfl⟩

section Stop

variable {c : UInt8} {line : Bytes}

theorem Stop.other (stop : Stop c) :
    (c == 0x0D) = false ∧ blankByte c = false ∧ (c == 0x20) = false ∧ digitByte c = false ∧
      markByte c = false := by
  rcases stop with rfl | rfl <;> decide

theorem dropWhile_stop {f : UInt8 → Bool} (other : f c = false) (line rest : Bytes) :
    (line ++ c :: rest).dropWhile f = line.dropWhile f ++ c :: rest := by
  induction line with
  | nil => rw [List.nil_append, List.dropWhile_cons_of_neg (by simp [other])]; rfl
  | cons b line ih =>
      rw [List.cons_append]
      cases kind : f b with
      | true => rw [List.dropWhile_cons_of_pos kind, List.dropWhile_cons_of_pos kind, ih]
      | false =>
          have stays : ¬ f b = true := by simp [kind]
          rw [List.dropWhile_cons_of_neg stays, List.dropWhile_cons_of_neg stays]
          rfl

theorem takeWhile_stop {f : UInt8 → Bool} (other : f c = false) (line rest : Bytes) :
    (line ++ c :: rest).takeWhile f = line.takeWhile f := by
  induction line with
  | nil => rw [List.nil_append, List.takeWhile_cons_of_neg (by simp [other])]; rfl
  | cons b line ih =>
      rw [List.cons_append]
      cases kind : f b with
      | true => rw [List.takeWhile_cons_of_pos kind, List.takeWhile_cons_of_pos kind, ih]
      | false =>
          have stays : ¬ f b = true := by simp [kind]
          rw [List.takeWhile_cons_of_neg stays, List.takeWhile_cons_of_neg stays]

theorem lineNumeral_stop (stop : Stop c) (line rest : Bytes) :
    lineNumeral (line ++ c :: rest) = lineNumeral line := by
  obtain ⟨return_, blank, -, digit, -⟩ := stop.other
  rw [lineNumeral, dropWhile_stop (f := (· == 0x0D)) return_, dropWhile_stop blank, numeral,
    takeWhile_stop digit]
  rfl

theorem nextNumeral_stop (stop : Stop c) (line rest : Bytes) :
    nextNumeral (line ++ c :: rest) = nextNumeral line := by
  obtain ⟨-, blank, -, digit, -⟩ := stop.other
  rw [nextNumeral, dropWhile_stop blank, numeral, takeWhile_stop digit]
  rfl

theorem skipWhile_line {f : UInt8 → Bool} (other : f c = false) (line rest : Bytes) :
    skipWhile f (line ++ c :: rest) = some (line.takeWhile f).length := by
  induction line with
  | nil => rw [List.nil_append, skipWhile, other]; rfl
  | cons b line ih =>
      rw [List.cons_append, skipWhile]
      cases kind : f b with
      | true =>
          rw [if_pos rfl, ih, List.takeWhile_cons_of_pos kind]
          rfl
      | false =>
          rw [List.takeWhile_cons_of_neg (by simp [kind])]
          rfl

theorem drop_line {k : Nat} (inside : k ≤ line.length) (rest : Bytes) :
    (line ++ c :: rest).drop k = line.drop k ++ c :: rest :=
  List.drop_append_of_le_length inside

theorem length_takeWhile_le (f : UInt8 → Bool) (line : Bytes) :
    (line.takeWhile f).length ≤ line.length :=
  (List.takeWhile_prefix f).length_le

theorem readNumber_line (stop : Stop c) (line rest : Bytes) (num : UInt32) :
    readNumber (line ++ c :: rest) num = readNumber (line ++ [0]) num := by
  obtain ⟨-, -, -, digit, -⟩ := stop.other
  induction line generalizing num with
  | nil =>
      have other : ¬ digitByte c = true := by simp [digit]
      rw [List.nil_append, readNumber, if_neg other]
      rfl
  | cons b line ih => rw [List.cons_append, List.cons_append, readNumber, readNumber, ih]

theorem getElem?_line {k : Nat} (inside : k < line.length) (rest : Bytes) :
    (line ++ c :: rest)[k]? = (line ++ [0])[k]? := by
  rw [List.getElem?_append_left inside, List.getElem?_append_left inside]

theorem getElem?_lineEnd (rest : Bytes) : (line ++ c :: rest)[line.length]? = some c := by
  rw [List.getElem?_append_right (Nat.le_refl _), Nat.sub_self]
  rfl

theorem test_line {f : UInt8 → Bool} (other : f c = false) (zero : f 0 = false) {k : Nat}
    (within : k ≤ line.length) (rest : Bytes) {α : Type} {yes yes' : Option α} {no : α}
    (same : k < line.length → yes = yes') :
    ((line ++ c :: rest)[k]?.bind fun b => if f b then yes else some no) =
      (line ++ [0])[k]?.bind fun b => if f b then yes' else some no := by
  rcases Nat.lt_or_eq_of_le within with inside | rfl
  · rw [getElem?_line inside, same inside]
  · rw [getElem?_lineEnd, List.getElem?_concat_length, Option.bind_some, Option.bind_some,
      other, zero]
    rfl

theorem PlainLine.readNumber (plain : PlainLine line) :
    FreeCli.readNumber (line ++ [0]) 0 =
      some (UInt32.ofNat (denotes (numeral line)), (numeral line).length) := by
  have read := readNumber_eq (Memory.of_nulFree plain.nulFree) 0
  rwa [numeral, takeWhile_stop (f := digitByte) rfl] at read

theorem numberBullet_line (plain : PlainLine line) (stop : Stop c) (expected : Nat)
    (rest : Bytes) :
    numberBullet expected (line ++ c :: rest) = numberBullet expected (line ++ [0]) := by
  obtain ⟨-, blank, space, -, mark⟩ := stop.other
  rw [numberBullet, numberBullet, readNumber_line stop, plain.readNumber]
  simp only [Option.bind_eq_bind, Option.bind_some]
  split
  next =>
    refine test_line mark rfl (length_takeWhile_le _ _) rest fun inside => ?_
    refine test_line blank rfl inside rest fun inside => ?_
    have within : (numeral line).length + 2 ≤ line.length := inside
    rw [drop_line within, drop_line within, skipWhile_line (f := (· == 0x20)) space,
      skipWhile_line (f := (· == 0x20)) rfl]
  next => rfl

theorem PlainLine.drop (plain : PlainLine line) (k : Nat) : PlainLine (line.drop k) where
  nulFree member := plain.nulFree (List.mem_of_mem_drop member)
  noNewline member := plain.noNewline (List.mem_of_mem_drop member)

theorem matchLine_line (plain : PlainLine line) (stop : Stop c) (expected : Nat) (rest : Bytes) :
    matchLine false expected (line ++ c :: rest) = matchLine false expected (line ++ [0]) := by
  obtain ⟨return_, blank, -, -, -⟩ := stop.other
  have first := length_takeWhile_le (· == 0x0D) line
  have second := length_takeWhile_le blankByte (line.drop (line.takeWhile (· == 0x0D)).length)
  rw [List.length_drop] at second
  have within : (line.takeWhile (· == 0x0D)).length +
      ((line.drop (line.takeWhile (· == 0x0D)).length).takeWhile blankByte).length ≤
        line.length := by omega
  rw [matchLine, matchLine, skipWhile_line (f := (· == 0x0D)) return_,
    skipWhile_line (f := (· == 0x0D)) rfl]
  simp only [Option.bind_eq_bind, Option.bind_some, Bool.false_eq_true, if_false]
  rw [drop_line first, drop_line first, skipWhile_line blank, skipWhile_line rfl]
  simp only [Option.bind_some]
  rw [drop_line within, drop_line within, numberBullet_line (plain.drop _) stop]

theorem endsItem_line (plain : PlainLine line) (stop : Stop c) (expected : Nat) (rest : Bytes) :
    endsItem false expected (line ++ c :: rest) = endsItem false expected (line ++ [0]) := by
  obtain ⟨-, blank, -, -, mark⟩ := stop.other
  have within := length_takeWhile_le blankByte line
  rw [endsItem, endsItem, skipWhile_line blank, skipWhile_line (f := blankByte) rfl]
  simp only [Option.bind_eq_bind, Option.bind_some, Bool.false_eq_true, if_false]
  rw [drop_line within, drop_line within]
  have plain' := plain.drop (line.takeWhile blankByte).length
  cases behind : line.drop (line.takeWhile blankByte).length with
  | nil => rcases stop with rfl | rfl <;> rfl
  | cons b more =>
      rw [behind] at plain'
      have next : numberNext expected (b :: more ++ c :: rest) =
          numberNext expected (b :: more ++ [0]) := by
        rw [numberNext, numberNext, readNumber_line stop, plain'.readNumber]
        simp only [Option.bind_eq_bind, Option.bind_some]
        split
        next =>
          rcases Nat.lt_or_eq_of_le (length_takeWhile_le digitByte (b :: more)) with
            inside | ended
          · rw [numeral, getElem?_line inside]
          · rw [numeral, ended, getElem?_lineEnd, List.getElem?_concat_length,
              Option.bind_some, Option.bind_some, mark]
            rfl
        next => rfl
      rw [next]
      rfl

end Stop

/-! An item ends in one of the lines, and trailing blanks are left over. -/

theorem exists_kept (item : Bytes) :
    ∃ kept blanks, item = kept ++ blanks ∧ (∀ c ∈ blanks, c = 0x20 ∨ c = 0x0D) ∧
      (∀ c ∈ kept.getLast?, ¬ (c = 0x20 ∨ c = 0x0D)) ∧ (filled item = true ↔ kept ≠ []) := by
  let blank : UInt8 → Bool := fun c => c == 0x20 || c == 0x0D
  have blank_iff : ∀ c, blank c = true ↔ c = 0x20 ∨ c = 0x0D := fun c => by simp [blank]
  refine ⟨item.rdropWhile blank, item.rtakeWhile blank,
    List.rdropWhile_append_rtakeWhile.symm, fun c member => ?_, fun c last => ?_, ?_⟩
  · exact (blank_iff c).1 (List.mem_rtakeWhile_imp member)
  · have some_ : item.rdropWhile blank ≠ [] := by
      intro empty
      rw [empty] at last
      cases last
    have solid := List.rdropWhile_last_not blank item some_
    rw [List.getLast?_eq_some_getLast some_] at last
    rw [← blank_iff]
    exact Option.some.inj last ▸ solid
  · rw [ne_eq, List.rdropWhile_eq_nil_iff, filled, List.any_eq_true]
    simp [blank]

theorem trimItem_blanks {body blanks : Bytes} (after : Bytes)
    (blank : ∀ c ∈ blanks, c = 0x0A ∨ c = 0x20 ∨ c = 0x0D)
    (solid : ∀ c ∈ body.getLast?, ¬ (c = 0x0A ∨ c = 0x20 ∨ c = 0x0D)) :
    trimItem (body ++ (blanks ++ after)) (body.length + blanks.length) = some body.length := by
  induction blanks using List.reverseRecOn generalizing after with
  | nil =>
      rcases List.eq_nil_or_concat' body with rfl | ⟨body, last, rfl⟩
      · rfl
      · rw [List.getLast?_concat] at solid
        have here : (body ++ [last] ++ ([] ++ after))[body.length]? = some last := by simp
        rw [List.length_nil, Nat.add_zero, List.length_append, List.length_singleton, trimItem]
        simp only [here, if_neg (solid last rfl)]
  | append_singleton blanks c ih =>
      have whole : body ++ (blanks ++ [c] ++ after) = body ++ (blanks ++ (c :: after)) := by simp
      have here : (body ++ (blanks ++ (c :: after)))[body.length + blanks.length]? = some c := by
        rw [← List.append_assoc, List.getElem?_append_right (by rw [List.length_append])]
        simp
      have last : c = 0x0A ∨ c = 0x20 ∨ c = 0x0D :=
        blank c (List.mem_append_right _ (List.mem_singleton_self c))
      rw [whole, List.length_append, List.length_singleton, ← Nat.add_assoc, trimItem]
      simp only [here, if_pos last]
      exact ih (c :: after) fun b member => blank b (List.mem_append_left _ member)

theorem trim_line {front rest : Bytes} (plain : PlainLine rest)
    (content : front = [] ∨ filled rest = true) (after : Bytes) :
    ∃ len blanks, trimItem (front ++ (rest ++ after)) (front.length + rest.length) = some len ∧
      (front ++ (rest ++ after)).drop len = blanks ++ after ∧
      (∀ c ∈ blanks, c = 0x20 ∨ c = 0x0D) ∧ (filled rest = true ↔ 0 < len) := by
  obtain ⟨kept, blanks, rfl, blank, solid, filled_iff⟩ := exists_kept rest
  have whole : front ++ (kept ++ blanks ++ after) = (front ++ kept) ++ (blanks ++ after) := by
    simp only [List.append_assoc]
  have noNewline : ∀ c ∈ kept, c ≠ 0x0A := fun c member newline =>
    plain.noNewline (List.mem_append_left _ (newline ▸ member))
  refine ⟨(front ++ kept).length, blanks, ?_, ?_, blank, ?_⟩
  · rw [whole, List.length_append, ← Nat.add_assoc, ← List.length_append]
    refine trimItem_blanks after (fun c member => .inr (blank c member)) fun c last => ?_
    rcases List.eq_nil_or_concat' kept with rfl | ⟨kept, end_, rfl⟩
    · have empty : front = [] := content.resolve_right fun some_ => filled_iff.1 some_ rfl
      rw [empty] at last
      cases last
    · rw [← List.append_assoc, List.getLast?_concat] at last
      obtain rfl := Option.some.inj last
      rw [List.getLast?_concat] at solid
      exact not_or.2 ⟨noNewline end_ (List.mem_append_right _ (List.mem_singleton_self _)),
        solid end_ rfl⟩
  · rw [whole, List.drop_left]
  · rw [filled_iff, List.length_append]
    constructor
    · intro some_
      have := List.length_pos_of_ne_nil some_
      omega
    · rintro positive rfl
      have empty : front = [] := content.resolve_right fun some_ => filled_iff.1 some_ rfl
      rw [empty] at positive
      exact Nat.lt_irrefl 0 positive

theorem filled_of_goesOn {expected : Nat} {line : Bytes}
    (goes : endsItem false expected (line ++ [0]) = some false) : filled line = true := by
  rw [endsItem] at goes
  obtain ⟨spaces, skipped, goes⟩ := Option.bind_eq_some_iff.1 goes
  obtain ⟨front, c, rest, same, rfl, -, solid⟩ := skipWhile_iff.1 skipped
  rw [same, List.drop_left] at goes
  simp only [List.getElem?_cons_zero, Option.bind_eq_bind, Option.bind_some] at goes
  split at goes
  next => cases goes
  next other =>
    rw [not_or, not_or] at other
    have member : c ∈ line ++ [0] := by
      rw [same]
      exact List.mem_append_right _ List.mem_cons_self
    have inside : c ∈ line := (List.mem_append.1 member).resolve_right fun zero =>
      other.2.2 (List.mem_singleton.1 zero)
    have noSpace : c ≠ 0x20 := by
      rintro rfl
      cases solid
    exact List.any_eq_true.2 ⟨c, inside, by simp [noSpace, other.2.1]⟩

theorem aheadNumerals_line {rest : Bytes} (plain : PlainLine rest) (expected : Nat)
    (after : Bytes) : aheadNumerals expected (rest ++ after) = aheadNumerals expected after := by
  induction rest with
  | nil => rfl
  | cons c rest ih =>
      obtain ⟨nonzero, other, later⟩ := plainLine_cons.1 plain
      rw [List.cons_append, aheadNumerals, if_neg nonzero, if_neg other]
      exact ih later

theorem itemLength_goesOn {rest next : Bytes} (plain : PlainLine rest) {expected : Nat}
    (goes : endsItem false expected next = some false) :
    itemLength false expected (rest ++ 0x0A :: next) =
      (itemLength false expected next).map (rest.length + 1 + ·) := by
  induction rest with
  | nil =>
      rw [List.nil_append, itemLength, if_neg (by decide), if_pos rfl, goes]
      simp only [Option.bind_eq_bind, Option.bind_some, Bool.false_eq_true, if_false,
        List.length_nil, Nat.zero_add, Nat.add_comm 1]
  | cons c rest ih =>
      obtain ⟨nonzero, other, later⟩ := plainLine_cons.1 plain
      rw [List.cons_append, itemLength, if_neg nonzero, if_neg other, ih later,
        Option.map_map, List.length_cons]
      congr 1
      funext k
      simp only [Function.comp_apply]
      omega

theorem headNumerals_ended {found : Nat} {line : Bytes}
    (ended : endsItem false (found + 1) (line ++ [0]) = some true) (lines : List Bytes)
    (content : Bool) :
    headNumerals (line :: lines) found (some content) = nextNumeral line ::
      headNumerals (line :: lines) (if content then found + 1 else found) none := by
  simp only [headNumerals, ended, if_true]

theorem headNumerals_goesOn {found : Nat} {line : Bytes}
    (goes : endsItem false (found + 1) (line ++ [0]) = some false) (lines : List Bytes)
    (content : Bool) :
    headNumerals (line :: lines) found (some content) =
      nextNumeral line :: headNumerals lines found (some true) := by
  simp only [headNumerals, goes, Option.some.injEq, Bool.false_eq_true, if_false]

/-- How the item `front ++ rest` ends, with `rest` in the line that is read: `len` bytes
of it are kept, and the scan goes on with blanks and the lines `left`. -/
structure ItemEnds (found : Nat) (front rest : Bytes) (lines : List Bytes) (stop len : Nat)
    (blanks : Bytes) (left : List Bytes) (taken : Bool) : Prop where
  length : itemLength false (found + 1) (rest ++ linesTail lines) = some stop
  trim : trimItem (front ++ (rest ++ linesTail lines)) (front.length + stop) = some len
  behind : (front ++ (rest ++ linesTail lines)).drop len = blanks ++ linesTail left
  blank : ∀ c ∈ blanks, c = 0x20 ∨ c = 0x0D
  plain : ∀ line ∈ left, PlainLine line
  fewer : left.length ≤ lines.length
  keeps : taken = true ↔ 0 < len
  numerals : headNumerals lines found (some (filled rest)) =
    aheadNumerals (found + 1) (rest ++ linesTail lines) ++
      headNumerals left (if taken then found + 1 else found) none

theorem exists_itemEnds {found : Nat} (few : found < maxChoices) {lines : List Bytes}
    {front rest : Bytes} (plain : ∀ line ∈ rest :: lines, PlainLine line)
    (content : front = [] ∨ filled rest = true) :
    ∃ stop len blanks left taken, ItemEnds found front rest lines stop len blanks left taken := by
  induction lines generalizing front rest with
  | nil =>
      have line := plain rest List.mem_cons_self
      obtain ⟨len, blanks, trim, behind, blank, taken⟩ := trim_line line content [0]
      exact ⟨rest.length, len, blanks, [], filled rest,
        { length := itemLength_item line.nulFree line.noNewline (.inl ⟨[], rfl⟩)
          trim, behind, blank
          keeps := taken
          plain := fun _ member => absurd member List.not_mem_nil
          fewer := Nat.le_refl 0
          numerals := by rw [aheadNumerals_line line]; rfl }⟩
  | cons next lines ih =>
      obtain ⟨line, others⟩ := List.forall_mem_cons.1 plain
      have second := others next List.mem_cons_self
      obtain ⟨ended, known⟩ : ∃ ended, endsItem false (found + 1) (next ++ [0]) = some ended :=
        endsItem_inside (Memory.of_nulFree second.nulFree) false few
      have read : endsItem false (found + 1) (next ++ linesTail lines) = some ended := by
        obtain ⟨c, more, same, stop⟩ := exists_linesTail lines
        rw [same, endsItem_line second stop, known]
      have numeral : nextNumeral (next ++ linesTail lines) = nextNumeral next := by
        obtain ⟨c, more, same, stop⟩ := exists_linesTail lines
        rw [same, nextNumeral_stop stop]
      cases ended with
      | true =>
          obtain ⟨len, blanks, trim, behind, blank, taken⟩ :=
            trim_line line content (linesTail (next :: lines))
          refine ⟨rest.length, len, blanks, next :: lines, filled rest,
            { length := itemLength_item line.nulFree line.noNewline (.inr ⟨_, rfl, read⟩)
              trim, behind, blank
              keeps := taken
              plain := others
              fewer := Nat.le_refl _
              numerals := ?_ }⟩
          rw [aheadNumerals_line line, linesTail, aheadNumerals, if_neg (by decide),
            if_pos rfl, read, numeral, headNumerals_ended known]
          rfl
      | false =>
          have content' : front ++ (rest ++ [0x0A]) = [] ∨ filled next = true :=
            .inr (filled_of_goesOn known)
          obtain ⟨stop, len, blanks, left, taken, ends⟩ := ih others content'
          have whole : front ++ (rest ++ linesTail (next :: lines)) =
              front ++ (rest ++ [0x0A]) ++ (next ++ linesTail lines) := by
            simp [linesTail]
          refine ⟨rest.length + 1 + stop, len, blanks, left, taken,
            { length := ?_
              trim := ?_
              behind := whole ▸ ends.behind
              blank := ends.blank
              plain := ends.plain
              fewer := ends.fewer.trans (Nat.le_succ _)
              keeps := ends.keeps
              numerals := ?_ }⟩
          · rw [linesTail, itemLength_goesOn line read, ends.length]
            rfl
          · have trim := ends.trim
            rwa [← whole, List.length_append, List.length_append, List.length_singleton,
              Nat.add_assoc] at trim
          · have later := ends.numerals
            rw [filled_of_goesOn known] at later
            rw [aheadNumerals_line line, linesTail, aheadNumerals, if_neg (by decide),
              if_pos rfl, read, numeral, headNumerals_goesOn known, later]
            rfl

/-- A scan from here on reads these numerals, empty ones apart. -/
def ReadsNumerals (scan : Bytes) (found : Nat) (numerals : List Bytes) : Prop :=
  ∀ rounds, scan.length ≤ rounds + 1 →
    (numeralsRead rounds scan (found + 1) found).filter (fun digits => !digits.isEmpty) =
      numerals.filter fun digits => !digits.isEmpty

namespace ReadsNumerals

variable {scan : Bytes} {found : Nat} {numerals : List Bytes}

theorem done (rest : Bytes) (found : Nat) : ReadsNumerals (0 :: rest) found [] := by
  intro rounds _
  cases rounds with
  | zero => rfl
  | succ rounds => rw [numeralsRead, if_pos (.inl rfl)]

theorem full (scan : Bytes) (full : maxChoices ≤ found) : ReadsNumerals scan found [] := by
  intro rounds _
  cases rounds with
  | zero => rfl
  | succ rounds =>
      cases scan with
      | nil => rfl
      | cons c rest => rw [numeralsRead, if_pos (.inr full)]

theorem step (memory : Memory scan) (more : scan.head? ≠ some 0) (few : found < maxChoices)
    {taken : Option Choice} {moved : Nat}
    (line : scanLine false (found + 1) scan = some (taken, moved))
    (later : ReadsNumerals (scan.drop moved) (if taken.isSome then found + 1 else found)
      numerals) :
    ReadsNumerals scan found (roundNumerals (found + 1) scan ++ numerals) := by
  intro rounds enough
  obtain ⟨taken', moved', same, positive, inside, -⟩ :=
    scanLine_inside memory false (found + 1) few more
  rw [line] at same
  cases same
  have some_ : scan ≠ [] := List.ne_nil_of_length_pos memory.length_pos
  obtain ⟨c, rest, fewer, rfl, rfl, left, goes⟩ :=
    Scans.round some_ more few positive inside enough
  rw [numeralsRead, if_neg goes, line, List.filter_append, List.filter_append]
  congr 1
  cases taken with
  | none => exact later fewer left
  | some choice => exact later fewer left

theorem skip (reads : ReadsNumerals scan found ([] :: numerals)) :
    ReadsNumerals scan found numerals := reads

end ReadsNumerals

theorem skipLine_lines {line : Bytes} (plain : PlainLine line) :
    skipLine (line ++ [0]) = some line.length ∧
      ∀ rest, skipLine (line ++ 0x0A :: rest) = some (line.length + 1) := by
  induction line with
  | nil => exact ⟨rfl, fun rest => rfl⟩
  | cons c line ih =>
      obtain ⟨nonzero, other, later⟩ := plainLine_cons.1 plain
      obtain ⟨last, next⟩ := ih later
      constructor
      · rw [List.cons_append, skipLine, if_neg nonzero, if_neg other, last]
        rfl
      · intro rest
        rw [List.cons_append, skipLine, if_neg nonzero, if_neg other, next]
        rfl

theorem Memory.append {front p : Bytes} (nulFree : (0 : UInt8) ∉ front) (memory : Memory p) :
    Memory (front ++ p) := by
  induction front with
  | nil => exact memory
  | cons c front ih =>
      exact .cons (fun zero => nulFree (zero ▸ List.mem_cons_self))
        (ih fun member => nulFree (List.mem_cons_of_mem _ member))

theorem memory_lines {line : Bytes} {lines : List Bytes}
    (plain : ∀ text ∈ line :: lines, PlainLine text) : Memory (line ++ linesTail lines) := by
  induction lines generalizing line with
  | nil => exact .of_nulFree (plain line List.mem_cons_self).nulFree
  | cons next lines ih =>
      obtain ⟨first, others⟩ := List.forall_mem_cons.1 plain
      exact .append first.nulFree (.cons (by decide) (ih others))

theorem ReadsNumerals.line {found : Nat} (few : found < maxChoices) {line : Bytes}
    {lines : List Bytes} (plain : ∀ text ∈ line :: lines, PlainLine text)
    (unmatched : matchLine false (found + 1) (line ++ [0]) = some none)
    (later : ∀ next others, lines = next :: others →
      ReadsNumerals (next ++ linesTail others) found (headNumerals lines found none)) :
    ReadsNumerals (line ++ linesTail lines) found
      (lineNumeral line :: headNumerals lines found none) := by
  have memory := memory_lines plain
  have first := plain line List.mem_cons_self
  obtain ⟨last, skips⟩ := skipLine_lines first
  obtain ⟨c, rest, tail, stop⟩ := exists_linesTail lines
  have nowhere : matchLine false (found + 1) (line ++ linesTail lines) = some none := by
    rw [tail, matchLine_line first stop, unmatched]
  have numerals : roundNumerals (found + 1) (line ++ linesTail lines) = [lineNumeral line] := by
    rw [roundNumerals, nowhere, tail, lineNumeral_stop stop]
    rfl
  have moves : ∀ moved, skipLine (line ++ linesTail lines) = some moved →
      scanLine false (found + 1) (line ++ linesTail lines) = some (none, moved) := by
    intro moved skipped
    simp only [scanLine, nowhere, skipped, Option.bind_eq_bind, Option.bind_some]
  cases lines with
  | nil =>
      cases line with
      | nil => exact .done [] found
      | cons b line =>
          have more : (b :: line ++ linesTail []).head? ≠ some 0 := fun zero =>
            first.nulFree (Option.some.inj zero ▸ List.mem_cons_self)
          have behind : (b :: line ++ linesTail []).drop (b :: line).length = [0] :=
            List.drop_left
          have reads := ReadsNumerals.step memory more few (moves _ last)
            (behind ▸ ReadsNumerals.done [] found)
          rwa [numerals] at reads
  | cons next others =>
      have more : (line ++ linesTail (next :: others)).head? ≠ some 0 := by
        cases line with
        | nil => exact fun zero => absurd (Option.some.inj zero) (by decide)
        | cons b line =>
            exact fun zero => first.nulFree (Option.some.inj zero ▸ List.mem_cons_self)
      have behind : (line ++ linesTail (next :: others)).drop (line.length + 1) =
          next ++ linesTail others := by
        rw [← List.drop_drop, List.drop_left]
        rfl
      have reads := ReadsNumerals.step memory more few (moves _ (skips _))
        (behind ▸ later next others rfl)
      rwa [numerals] at reads

theorem mem_of_mem_lineNumeral {line : Bytes} {c : UInt8} (member : c ∈ lineNumeral line) :
    c ∈ line :=
  ((List.takeWhile_sublist _).trans
    ((List.dropWhile_sublist _).trans (List.dropWhile_sublist _))).subset member

theorem ReadsNumerals.blanks {found : Nat} {blanks : Bytes} {left : List Bytes}
    (blank : ∀ c ∈ blanks, c = 0x20 ∨ c = 0x0D) (plain : ∀ line ∈ left, PlainLine line)
    (later : ∀ next others, left = next :: others →
      ReadsNumerals (next ++ linesTail others) found (headNumerals left found none)) :
    ReadsNumerals (blanks ++ linesTail left) found (headNumerals left found none) := by
  rcases Nat.lt_or_ge found maxChoices with few | full
  · have line : PlainLine blanks :=
      { nulFree := fun member => (blank 0 member).elim (by decide) (by decide)
        noNewline := fun member => (blank 0x0A member).elim (by decide) (by decide) }
    have skipped : ∀ c ∈ blanks, (c == 0x0D || blankByte c) = true := by
      intro c member
      rcases blank c member with rfl | rfl <;> decide
    have unmatched : matchLine false (found + 1) (blanks ++ [0]) = some none := by
      obtain ⟨item, matched, -⟩ := matchLine_inside (Memory.of_nulFree line.nulFree) false
        (Nat.le_succ_of_le (show found + 1 ≤ 8 from few))
      cases item with
      | none => exact matched
      | some start =>
          obtain ⟨c, here, digit⟩ :=
            (bullet_of_matchLine (Nat.le_succ_of_le (show found + 1 ≤ 8 from few)) matched).head
          rw [List.dropWhile_append_of_pos skipped] at here
          obtain rfl := Option.some.inj here
          cases digit
    have nothing : lineNumeral blanks = [] := by
      refine List.eq_nil_iff_forall_not_mem.2 fun c member => ?_
      have digit : digitByte c = true := List.mem_takeWhile_imp member
      rcases blank c (mem_of_mem_lineNumeral member) with rfl | rfl <;> cases digit
    have reads := ReadsNumerals.line few (List.forall_mem_cons.2 ⟨line, plain⟩) unmatched later
    rw [nothing] at reads
    exact reads.skip
  · have none : headNumerals left found none = [] := by
      cases left with
      | nil => rfl
      | cons line left => rw [headNumerals, if_pos full]
    rw [none]
    exact .full _ full

/-- A line with an option is read up to the end of its item, which may be some lines on. -/
theorem ReadsNumerals.item {found start : Nat} (few : found < maxChoices) {line : Bytes}
    {lines : List Bytes} (plain : ∀ text ∈ line :: lines, PlainLine text)
    (matched : matchLine false (found + 1) (line ++ [0]) = some (some start))
    (positive : 0 < start) (within : start ≤ line.length)
    (shorter : ∀ {next : Bytes} {others : List Bytes}, others.length < lines.length →
      (∀ text ∈ next :: others, PlainLine text) → ∀ found,
        ReadsNumerals (next ++ linesTail others) found (headNumerals (next :: others) found none)) :
    ReadsNumerals (line ++ linesTail lines) found
      (lineNumeral line :: headNumerals lines found (some (filled (line.drop start)))) := by
  obtain ⟨first, others⟩ := List.forall_mem_cons.1 plain
  obtain ⟨c, rest, tail, stop⟩ := exists_linesTail lines
  have begins : matchLine false (found + 1) (line ++ linesTail lines) = some (some start) := by
    rw [tail, matchLine_line first stop, matched]
  have behind : (line ++ linesTail lines).drop start = line.drop start ++ linesTail lines :=
    List.drop_append_of_le_length within
  obtain ⟨stops, len, blanks, left, taken, ends⟩ := exists_itemEnds few
    (List.forall_mem_cons.2 ⟨first.drop start, others⟩) (.inl rfl)
  have trim := ends.trim
  have goesOn := ends.behind
  rw [List.nil_append, List.length_nil, Nat.zero_add] at trim
  rw [List.nil_append, ← behind, List.drop_drop] at goesOn
  have round : scanLine false (found + 1) (line ++ linesTail lines) =
      some (if 0 < len then
          some ⟨start, ((line ++ linesTail lines).drop start).take len⟩ else none,
        start + len) := by
    simp only [scanLine, begins, behind, ends.length, trim, Option.bind_eq_bind, Option.bind_some]
  have keeps : (if 0 < len then
      some (⟨start, ((line ++ linesTail lines).drop start).take len⟩ : Choice)
        else none).isSome = taken := by
    cases taken with
    | true => rw [if_pos (ends.keeps.1 rfl)]; rfl
    | false => rw [if_neg fun kept => Bool.noConfusion (ends.keeps.2 kept)]; rfl
  have more : (line ++ linesTail lines).head? ≠ some 0 := by
    cases line with
    | nil => exact absurd within (Nat.not_le_of_lt positive)
    | cons b line =>
        exact fun zero => first.nulFree (Option.some.inj zero ▸ List.mem_cons_self)
  have later : ReadsNumerals ((line ++ linesTail lines).drop (start + len))
      (if taken then found + 1 else found)
      (headNumerals left (if taken then found + 1 else found) none) := by
    rw [goesOn]
    refine .blanks ends.blank ends.plain fun next more same => ?_
    subst same
    exact shorter ends.fewer ends.plain _
  have reads : ReadsNumerals (line ++ linesTail lines) found
      (roundNumerals (found + 1) (line ++ linesTail lines) ++
        headNumerals left (if taken then found + 1 else found) none) :=
    .step (memory_lines plain) more few round (by rw [keeps]; exact later)
  have numerals : roundNumerals (found + 1) (line ++ linesTail lines) =
      lineNumeral line :: aheadNumerals (found + 1) (line.drop start ++ linesTail lines) := by
    rw [roundNumerals, begins]
    simp only [Option.join_some, Option.elim_some, behind]
    rw [tail, lineNumeral_stop stop]
  rwa [numerals, List.cons_append, ← ends.numerals] at reads

theorem ReadsNumerals.lines {line : Bytes} {lines : List Bytes}
    (plain : ∀ text ∈ line :: lines, PlainLine text) (found : Nat) :
    ReadsNumerals (line ++ linesTail lines) found (headNumerals (line :: lines) found none) := by
  induction size : lines.length using Nat.strong_induction_on generalizing line lines found with
  | _ size ih =>
      rcases Nat.lt_or_ge found maxChoices with few | full
      · obtain ⟨first, others⟩ := List.forall_mem_cons.1 plain
        obtain ⟨item, matched, starts⟩ := matchLine_inside (Memory.of_nulFree first.nulFree)
          false (Nat.le_succ_of_le (show found + 1 ≤ 8 from few))
        rw [headNumerals, if_neg (Nat.not_le_of_lt few), opened, matched]
        cases item with
        | none =>
            refine .line few plain matched fun next more same => ?_
            subst same
            exact ih more.length (size ▸ Nat.lt_succ_self _) others found rfl
        | some start =>
            obtain ⟨positive, b, here, -⟩ := starts start rfl
            have inside := inside_of_getElem? here
            rw [List.length_append, List.length_singleton] at inside
            exact .item few plain matched positive (Nat.le_of_lt_succ inside)
              fun fewer plain found => ih _ (size ▸ fewer) plain found rfl
      · rw [headNumerals, if_pos full]
        exact .full _ full

/-- The numerals of the numeric pass are those at the heads of the lines. -/
theorem forall_numeralsRead_iff {text : Bytes} (nulFree : (0 : UInt8) ∉ text) {rounds : Nat}
    (enough : text.length ≤ rounds) {property : Bytes → Prop} (empty : property []) :
    (∀ digits ∈ numeralsRead rounds (text ++ [0]) 1 0, property digits) ↔
      ∀ digits ∈ headNumerals (text.splitOn 0x0A) 0 none, property digits := by
  obtain ⟨line, lines, split, whole, plain⟩ := splitOn_lines nulFree
  have size : (line ++ linesTail lines).length ≤ rounds + 1 := by
    rw [← whole, List.length_append]
    exact Nat.succ_le_succ enough
  have same := ReadsNumerals.lines plain 0 rounds size
  have filtered : ∀ numerals : List Bytes, (∀ digits ∈ numerals, property digits) ↔
      ∀ digits ∈ numerals.filter (fun digits => !digits.isEmpty), property digits := by
    intro numerals
    refine ⟨fun all digits member => all digits (List.mem_filter.1 member).1,
      fun all digits member => ?_⟩
    cases digits with
    | nil => exact empty
    | cons c digits => exact all _ (List.mem_filter.2 ⟨member, rfl⟩)
  rw [filtered, whole, split, same, ← filtered]

/-- The number in front of each option of the numeric pass, and the arithmetic. -/
structure NumbersRight (rounds : Nat) (text : Bytes) : Prop where
  inRange : ∀ digits ∈ numeralsRead rounds (text ++ [0]) 1 0, FitsInt 0 digits
  numbered : ∃ choices, scanChoices false rounds (text ++ [0]) 0 1 0 = .ended choices ∧
    ∀ k choice, choices[k]? = some choice →
      denotes (numeralBefore text choice.start) = k + 1

/-- The numbers are right exactly if none at the head of a line, up to the line behind the
eighth option, is too large for `int`. -/
theorem numbersRight_iff (text : CString) {rounds : Nat}
    (enough : text.bytes.length ≤ rounds) :
    NumbersRight rounds text.bytes ↔
      ∀ digits ∈ headNumerals (text.bytes.splitOn 0x0A) 0 none, denotes digits ≤ intMax := by
  have memory := Memory.of_nulFree text.nulFree
  have small : denotes [] ≤ intMax := Nat.zero_le _
  rw [← forall_numeralsRead_iff text.nulFree enough small]
  constructor
  · intro right digits member
    exact (fitsInt_numeral_iff digits).1 (right.inRange digits member)
  · intro fits
    obtain ⟨choices, scan, -, pieces, -⟩ := exists_scans memory false 0 1 0 memory.length_pos
      (Nat.le_refl 1) (Nat.zero_le _)
    have size : (text.bytes ++ [0]).length ≤ rounds + 1 := by
      rw [List.length_append]
      exact Nat.succ_le_succ enough
    have ended := scan rounds size
    refine ⟨fun digits member => (fitsInt_numeral_iff digits).2 (fits digits member),
      choices, ended, fun k choice here => ?_⟩
    have number := numbered_of_fits memory memory.length_pos (.start _) ended fits k choice here
    have inside := (pieces choice (List.mem_of_getElem? here)).2.inside
    rw [List.length_append, List.length_singleton] at inside
    rwa [numeralBefore, List.take_append_of_le_length (by omega), Nat.zero_add] at number

def twoNumbered : CString := CString.of (ascii "1. a\n2. b")

theorem numbersRight_twoNumbered : NumbersRight 9 twoNumbered.bytes :=
  (numbersRight_iff twoNumbered (by decide)).2 (by decide)

/-- `4294967297` is `2 ^ 32 + 1`. -/
def wrapsToOne : CString := CString.of (ascii "4294967297. a\n2. b")

theorem wrapsToOne_taken :
    scanChoices false 18 (wrapsToOne.bytes ++ [0]) 0 1 0 =
        .ended [⟨12, ascii "a"⟩, ⟨17, ascii "b"⟩] ∧
      denotes (numeralBefore wrapsToOne.bytes 12) = 4294967297 ∧
      ¬ NumbersRight 18 wrapsToOne.bytes := by
  have scan : scanChoices false 18 (wrapsToOne.bytes ++ [0]) 0 1 0 =
      .ended [⟨12, ascii "a"⟩, ⟨17, ascii "b"⟩] := by decide
  have number : denotes (numeralBefore wrapsToOne.bytes 12) = 4294967297 := by decide
  refine ⟨scan, number, fun right => ?_⟩
  obtain ⟨choices, ended, numbered⟩ := right.numbered
  rw [scan] at ended
  cases ended
  have first := numbered 0 ⟨12, ascii "a"⟩ rfl
  rw [number] at first
  exact absurd first (by decide)

end FreeCli

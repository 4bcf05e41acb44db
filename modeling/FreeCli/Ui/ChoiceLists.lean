import FreeCli.Library.Json
import FreeCli.Ui.ChoiceBullets

namespace FreeCli

open Words

/-! Numbered and lettered lists are read as they are written. -/

structure Item where
  bytes : Bytes
  ne_nil : bytes ≠ []
  nulFree : (0 : UInt8) ∉ bytes
  noNewline : (0x0A : UInt8) ∉ bytes
  noReturn : (0x0D : UInt8) ∉ bytes
  front : bytes.head? ≠ some 0x20
  back : bytes.getLast? ≠ some 0x20

/-- A line of a list: how far it is indented, the case of its letter if it has one,
a bracket or a point, and the item. -/
structure ListLine where
  indent : Nat
  lower : Bool
  bracket : Bool
  item : Item

def ListLine.mark (line : ListLine) : UInt8 := if line.bracket then 0x29 else 0x2E

def ListLine.render (line : ListLine) (label : Bytes) : Bytes :=
  List.replicate line.indent 0x20 ++ (label ++ line.mark :: 0x20 :: line.item.bytes)

def numberLabel (k : Nat) (_ : ListLine) : Bytes := JsonText.digits (k + 1)

def letterLabel (k : Nat) (line : ListLine) : Bytes :=
  [UInt8.ofNat ((if line.lower then 0x61 else 0x41) + k)]

def labels (lettered : Bool) : Nat → ListLine → Bytes :=
  if lettered then letterLabel else numberLabel

/-- The lines from the `k`-th on, and what follows them. -/
def renderList (label : Nat → ListLine → Bytes) (closing : Bytes) :
    Nat → List ListLine → Bytes
  | _, [] => closing
  | k, [line] => line.render (label k line) ++ closing
  | k, line :: next :: more =>
      line.render (label k line) ++ 0x0A :: renderList label closing (k + 1) (next :: more)

def Expected (useLetters : Bool) (expected : Nat) (label : Bytes) : Prop :=
  ∃ c, label = [c] ∧
    if useLetters then c = 0x41 + UInt8.ofNat expected ∨ c = 0x41 + UInt8.ofNat expected + 32
    else c = 0x30 + UInt8.ofNat expected

theorem expected_solid {useLetters : Bool} {expected : Nat} {c : UInt8} (small : expected ≤ 9)
    (same : if useLetters then
        c = 0x41 + UInt8.ofNat expected ∨ c = 0x41 + UInt8.ofNat expected + 32
      else c = 0x30 + UInt8.ofNat expected) :
    c ≠ 0 ∧ c ≠ 0x0A ∧ c ≠ 0x0D ∧ blankByte c = false := by
  have table : ∀ n : Nat, n ≤ 9 → ∀ c : UInt8,
      c = 0x41 + UInt8.ofNat n ∨ c = 0x41 + UInt8.ofNat n + 32 ∨ c = 0x30 + UInt8.ofNat n →
      c ≠ 0 ∧ c ≠ 0x0A ∧ c ≠ 0x0D ∧ blankByte c = false := by
    intro n bound
    simp only [forall_eq_or_imp, forall_eq]
    revert n
    decide
  apply table expected small c
  cases useLetters with
  | true => exact same.elim .inl fun lower => .inr (.inl lower)
  | false => exact .inr (.inr same)

theorem readNumber_digit {expected : Nat} (small : expected ≤ 9) {mark : UInt8}
    (marked : markByte mark = true) (rest : Bytes) :
    readNumber ((0x30 + UInt8.ofNat expected) :: mark :: rest) 0 =
      some (UInt32.ofNat expected, 1) := by
  have digit : ∀ n : Nat, n ≤ 9 → digitByte (0x30 + UInt8.ofNat n) = true ∧
      0 * 10 + ((0x30 + UInt8.ofNat n) - 0x30 : UInt8).toUInt32 = UInt32.ofNat n := by
    decide
  have other : digitByte mark = false := by
    rw [markByte, Bool.or_eq_true, beq_iff_eq, beq_iff_eq] at marked
    rcases marked with rfl | rfl <;> rfl
  obtain ⟨isDigit, value⟩ := digit expected small
  rw [readNumber, if_pos isDigit, readNumber, if_neg (by simp [other]), value]
  rfl

theorem ListLine.mark_isMark (line : ListLine) : markByte line.mark = true := by
  rw [ListLine.mark]
  split <;> rfl

theorem Item.spaces (item : Item) (after : Bytes) :
    skipWhile (· == 0x20) (item.bytes ++ after) = some 0 := by
  obtain ⟨c, rest, same⟩ := List.exists_cons_of_ne_nil item.ne_nil
  have front := item.front
  rw [same] at front ⊢
  have solid : (c == 0x20) = false := by simpa using front
  rw [List.cons_append, skipWhile]
  simp [solid]

theorem bullet_found {useLetters : Bool} {expected : Nat} {label : Bytes}
    (small : expected ≤ 9) (expects : Expected useLetters expected label) (line : ListLine)
    (after : Bytes) :
    (if useLetters then
        letterBullet expected (label ++ line.mark :: 0x20 :: line.item.bytes ++ after)
      else numberBullet expected (label ++ line.mark :: 0x20 :: line.item.bytes ++ after)) =
      some (some (label.length + 2)) := by
  obtain ⟨c, rfl, same⟩ := expects
  have spaces := line.item.spaces after
  have marked := line.mark_isMark
  cases useLetters with
  | true =>
      have wanted : c = 0x41 + UInt8.ofNat expected ∨ c = 0x41 + UInt8.ofNat expected + 32 :=
        same
      simp [letterBullet, wanted, marked, spaces, blankByte]
  | false =>
      obtain rfl : c = 0x30 + UInt8.ofNat expected := same
      have read := readNumber_digit small marked (0x20 :: (line.item.bytes ++ after))
      simp only [Bool.false_eq_true, if_false, List.cons_append, List.nil_append, numberBullet,
        read, Option.bind_eq_bind, Option.bind_some]
      simp [marked, spaces, blankByte]

theorem indent_blank {n : Nat} : ∀ b ∈ List.replicate n (0x20 : UInt8), blankByte b = true := by
  intro b member
  rw [List.eq_of_mem_replicate member]
  rfl

theorem indent_skipped {c : UInt8} (indent : Nat) (rest : Bytes) (solid : blankByte c = false)
    (noReturn : c ≠ 0x0D) :
    skipWhile (· == 0x0D) (List.replicate indent 0x20 ++ c :: rest) = some 0 ∧
      skipWhile blankByte (List.replicate indent 0x20 ++ c :: rest) = some indent := by
  constructor
  · cases indent with
    | zero => simp [skipWhile, noReturn]
    | succ indent => simp [List.replicate_succ, skipWhile]
  · have skipped := skipWhile_stop rest (indent_blank (n := indent)) solid
    rwa [List.length_replicate] at skipped

theorem listLine_append (line : ListLine) (label after : Bytes) :
    line.render label ++ after =
      List.replicate line.indent 0x20 ++
        (label ++ line.mark :: 0x20 :: line.item.bytes ++ after) := by
  rw [ListLine.render, List.append_assoc]

theorem notMem_render {line : ListLine} {label : Bytes} {c : UInt8} (solid : c ≠ 0x20)
    (outside : c ∉ label) (noMark : markByte c = false) (item : c ∉ line.item.bytes) :
    c ∉ line.render label := by
  have mark : c ≠ line.mark := by
    rintro rfl
    rw [line.mark_isMark] at noMark
    cases noMark
  rw [ListLine.render, List.mem_append, not_or, List.mem_append, not_or, List.mem_cons, not_or,
    List.mem_cons, not_or]
  exact ⟨fun member => solid (List.eq_of_mem_replicate member), outside, mark, solid, item⟩

theorem matchLine_found {useLetters : Bool} {expected : Nat} {label : Bytes}
    (small : expected ≤ 9) (expects : Expected useLetters expected label) (line : ListLine)
    (after : Bytes) :
    matchLine useLetters expected (line.render label ++ after) =
      some (some (line.indent + (label.length + 2))) := by
  have bullet := bullet_found small expects line after
  obtain ⟨c, rfl, same⟩ := expects
  obtain ⟨-, -, noReturn, solid⟩ := expected_solid small same
  have skipped := indent_skipped line.indent
    (line.mark :: 0x20 :: line.item.bytes ++ after) solid noReturn
  have behind : (line.render [c] ++ after).drop line.indent =
      [c] ++ line.mark :: 0x20 :: line.item.bytes ++ after := by
    rw [listLine_append, List.drop_left' List.length_replicate]
  rw [matchLine]
  simp only [Option.bind_eq_bind]
  rw [show skipWhile (· == 0x0D) (line.render [c] ++ after) = some 0 from
    (congrArg _ (listLine_append line [c] after)).trans skipped.1]
  simp only [Option.bind_some, List.drop_zero, Nat.zero_add]
  rw [show skipWhile blankByte (line.render [c] ++ after) = some line.indent from
    (congrArg _ (listLine_append line [c] after)).trans skipped.2]
  simp only [Option.bind_some, behind]
  cases useLetters with
  | true =>
      rw [if_pos rfl] at bullet ⊢
      rw [bullet]
      rfl
  | false =>
      rw [if_neg (by decide)] at bullet ⊢
      rw [bullet]
      rfl

theorem endsItem_next {useLetters : Bool} {expected : Nat} {label : Bytes}
    (small : expected + 1 ≤ 9) (expects : Expected useLetters (expected + 1) label)
    (line : ListLine) (after : Bytes) :
    endsItem useLetters expected (line.render label ++ after) = some true := by
  obtain ⟨c, rfl, same⟩ := expects
  obtain ⟨nonzero, noNewline, noReturn, solid⟩ := expected_solid small same
  have skipped := (indent_skipped line.indent
    (line.mark :: 0x20 :: line.item.bytes ++ after) solid noReturn).2
  have marked := line.mark_isMark
  have behind : (line.render [c] ++ after).drop line.indent =
      c :: line.mark :: 0x20 :: (line.item.bytes ++ after) := by
    rw [listLine_append, List.drop_left' List.length_replicate]
    rfl
  rw [endsItem]
  rw [show skipWhile blankByte (line.render [c] ++ after) = some line.indent from
    (congrArg _ (listLine_append line [c] after)).trans skipped]
  simp only [Option.bind_eq_bind, Option.bind_some, behind, List.getElem?_cons_zero, nonzero,
    noNewline, noReturn, or_self, if_false]
  cases useLetters with
  | true =>
      have wanted : c = 0x41 + UInt8.ofNat (expected + 1) ∨
          c = 0x41 + UInt8.ofNat (expected + 1) + 32 := same
      simp only [if_true, letterNext, List.getElem?_cons_zero, Option.bind_eq_bind,
        Option.bind_some, if_pos wanted]
      simp [marked]
  | false =>
      obtain rfl : c = 0x30 + UInt8.ofNat (expected + 1) := same
      have read := readNumber_digit small marked (0x20 :: (line.item.bytes ++ after))
      simp only [Bool.false_eq_true, if_false, numberNext, read, Option.bind_eq_bind,
        Option.bind_some]
      simp [marked]

/-- What ends an item: the terminator, or a newline before something that does. -/
def Ends (useLetters : Bool) (expected : Nat) (after : Bytes) : Prop :=
  (∃ rest, after = 0 :: rest) ∨
    ∃ rest, after = 0x0A :: rest ∧ endsItem useLetters expected rest = some true

theorem itemLength_item {useLetters : Bool} {expected : Nat} {body after : Bytes}
    (nulFree : (0 : UInt8) ∉ body) (noNewline : (0x0A : UInt8) ∉ body)
    (ends : Ends useLetters expected after) :
    itemLength useLetters expected (body ++ after) = some body.length := by
  induction body with
  | nil =>
      rcases ends with ⟨rest, rfl⟩ | ⟨rest, rfl, ended⟩
      · rfl
      · simp [itemLength, ended]
  | cons c body ih =>
      have nonzero : c ≠ 0 := fun zero => nulFree (zero ▸ List.mem_cons_self)
      have plain : c ≠ 0x0A := fun newline => noNewline (newline ▸ List.mem_cons_self)
      rw [List.cons_append, itemLength, if_neg nonzero, if_neg plain,
        ih (fun member => nulFree (List.mem_cons_of_mem _ member))
          (fun member => noNewline (List.mem_cons_of_mem _ member))]
      rfl

theorem Item.trim (item : Item) (after : Bytes) :
    trimItem (item.bytes ++ after) item.bytes.length = some item.bytes.length := by
  rcases List.eq_nil_or_concat' item.bytes with empty | ⟨body, last, same⟩
  · exact absurd empty item.ne_nil
  · have newline := item.noNewline
    have return_ := item.noReturn
    have back := item.back
    rw [same] at newline return_ back ⊢
    have solid : ¬ (last = 0x0A ∨ last = 0x20 ∨ last = 0x0D) := by
      rintro (rfl | rfl | rfl)
      · exact newline (by simp)
      · exact back (by simp)
      · exact return_ (by simp)
    have here : (body ++ [last] ++ after)[body.length]? = some last := by simp
    rw [List.length_append, List.length_singleton, trimItem]
    simp only [here, if_neg solid]

theorem scanLine_found {useLetters : Bool} {expected : Nat} {label after : Bytes}
    (small : expected ≤ 9) (expects : Expected useLetters expected label) (line : ListLine)
    (ends : Ends useLetters expected after) :
    ∃ start, scanLine useLetters expected (line.render label ++ after) =
      some (some ⟨start, line.item.bytes⟩, (line.render label).length) := by
  have size : (line.render label).length =
      line.indent + (label.length + 2) + line.item.bytes.length := by
    simp only [ListLine.render, List.length_append, List.length_replicate, List.length_cons]
    omega
  have behind : (line.render label ++ after).drop (line.indent + (label.length + 2)) =
      line.item.bytes ++ after := by
    have front : line.render label ++ after =
        List.replicate line.indent 0x20 ++ (label ++ [line.mark, 0x20]) ++
          (line.item.bytes ++ after) := by
      simp [ListLine.render]
    rw [front]
    exact List.drop_left' (by simp)
  have positive := List.length_pos_iff.2 line.item.ne_nil
  refine ⟨line.indent + (label.length + 2), ?_⟩
  simp only [scanLine, matchLine_found small expects line after, Option.bind_eq_bind,
    Option.bind_some, behind, itemLength_item line.item.nulFree line.item.noNewline ends,
    line.item.trim after, positive, if_true, List.take_left, size]

theorem listLine_ne_nil (line : ListLine) (label : Bytes) : line.render label ≠ [] := by
  simp [ListLine.render]

theorem listLine_head {useLetters : Bool} {expected : Nat} {label : Bytes}
    (small : expected ≤ 9) (expects : Expected useLetters expected label) (line : ListLine)
    (after : Bytes) : (line.render label ++ after).head? ≠ some 0 := by
  obtain ⟨c, rfl, same⟩ := expects
  have nonzero := (expected_solid small same).1
  rw [listLine_append]
  cases line.indent with
  | zero => simpa using nonzero
  | succ indent => simp [List.replicate_succ]

theorem scanLine_newline {useLetters : Bool} {expected : Nat} (small : expected ≤ 9)
    {rest : Bytes} (memory : Memory (0x0A :: rest)) :
    scanLine useLetters expected (0x0A :: rest) = some (none, 1) := by
  obtain ⟨item, matched, -⟩ := matchLine_inside memory useLetters small
  cases item with
  | some start =>
      exact absurd (bullet_of_matchLine small matched)
        (not_bullet_blank useLetters (fun _ member => absurd member List.not_mem_nil)
          (.inr rfl))
  | none => simp [scanLine, matched, skipLine]

/-- What stands behind the item of the line before the `k`-th. -/
def renderAfter (label : Nat → ListLine → Bytes) (closing : Bytes) (k : Nat)
    (more : List ListLine) : Bytes :=
  if more = [] then closing else 0x0A :: renderList label closing k more

theorem renderList_cons (label : Nat → ListLine → Bytes) (closing : Bytes) (k : Nat)
    (line : ListLine) (more : List ListLine) :
    renderList label closing k (line :: more) =
      line.render (label k line) ++ renderAfter label closing (k + 1) more := by
  cases more <;> rfl

section

variable {useLetters : Bool} {label : Nat → ListLine → Bytes} {closing : Bytes} {base k : Nat}

theorem ends_after (start : base ≤ 1)
    (expects : ∀ k line, k ≤ 8 → Expected useLetters (base + k) (label k line))
    (closes : Closing closing) (few : k < 8) (more : List ListLine) :
    Ends useLetters (base + k) (renderAfter label closing (k + 1) more ++ [0]) := by
  rw [renderAfter]
  cases more with
  | nil =>
      rw [if_pos rfl]
      rcases closes.ends useLetters (base + k) with rfl | ⟨rest, rfl, ended⟩
      · exact .inl ⟨[], rfl⟩
      · exact .inr ⟨rest ++ [0], rfl, ended⟩
  | cons next more =>
      have bound : base + k + 1 ≤ 9 := by omega
      rw [if_neg (List.cons_ne_nil _ _), renderList_cons, List.cons_append, List.append_assoc]
      exact .inr ⟨_, rfl, endsItem_next bound (expects (k + 1) next few) next _⟩

theorem scans_after (start : base ≤ 1) (closes : Closing closing) (room : k ≤ 8)
    {more : List ListLine} (nulFree : (0 : UInt8) ∉ renderAfter label closing k more)
    (rest : (0 : UInt8) ∉ renderList label closing k more → ∀ n, ∃ choices,
      Scans useLetters (renderList label closing k more ++ [0]) n (base + k) k choices ∧
        choices.map Choice.text = (more.map fun line => line.item.bytes).take (8 - k))
    (n : Nat) :
    ∃ choices,
      Scans useLetters (renderAfter label closing k more ++ [0]) n (base + k) k choices ∧
      choices.map Choice.text = (more.map fun line => line.item.bytes).take (8 - k) := by
  have bound : base + k ≤ 9 := by omega
  rw [renderAfter] at nulFree ⊢
  by_cases nothing : more = []
  · subst nothing
    exact ⟨[], scans_quiet closes.nulFree (closes.quiet useLetters) n bound k, by simp⟩
  · rw [if_neg nothing] at nulFree ⊢
    rcases Nat.lt_or_ge k 8 with few | full
    · have behind := Memory.of_nulFree nulFree
      rw [List.mem_cons, not_or] at nulFree
      obtain ⟨choices, scan, texts⟩ := rest nulFree.2 (n + 1)
      refine ⟨choices, .skip (List.cons_ne_nil _ _) (by simp) few (scanLine_newline bound behind)
        Nat.one_pos ?_ scan, texts⟩
      exact Nat.succ_lt_succ (Memory.of_nulFree nulFree.2).length_pos
    · obtain rfl : k = 8 := by omega
      exact ⟨[], .full _ (List.cons_ne_nil _ _) _ _ (Nat.le_refl _), by simp⟩

end

theorem scans_list {useLetters : Bool} (label : Nat → ListLine → Bytes) {closing : Bytes}
    {base : Nat} (start : base ≤ 1)
    (expects : ∀ k line, k ≤ 8 → Expected useLetters (base + k) (label k line))
    (closes : Closing closing) (lines : List ListLine) (k n : Nat) (room : k ≤ 8)
    (nulFree : (0 : UInt8) ∉ renderList label closing k lines) :
    ∃ choices, Scans useLetters (renderList label closing k lines ++ [0]) n (base + k) k
        choices ∧
      choices.map Choice.text = (lines.map fun line => line.item.bytes).take (8 - k) := by
  induction lines generalizing k n with
  | nil =>
      exact ⟨[], scans_quiet closes.nulFree (closes.quiet useLetters) n (by omega) k, by simp⟩
  | cons line more ih =>
      rcases Nat.lt_or_ge k 8 with few | full
      · have small : base + k ≤ 9 := by omega
        have here := expects k line room
        rw [renderList_cons] at nulFree ⊢
        rw [List.mem_append, not_or] at nulFree
        obtain ⟨choices, scan, texts⟩ := scans_after start closes few nulFree.2
          (fun nulFree n => ih (k + 1) n few nulFree) (n + (line.render (label k line)).length)
        obtain ⟨offset, found⟩ := scanLine_found small here line
          (ends_after start expects closes few more)
        have filled := listLine_ne_nil line (label k line)
        rw [List.append_assoc]
        refine ⟨⟨n + offset, line.item.bytes⟩ :: choices,
          .take (List.append_ne_nil_of_left_ne_nil filled _) (listLine_head small here line _)
            few found (List.length_pos_iff.2 filled) ?_ ?_, ?_⟩
        · simp
        · rwa [List.drop_left]
        · rw [List.map_cons, texts, List.map_cons,
            show 8 - k = 8 - (k + 1) + 1 by omega, List.take_succ_cons]
      · obtain rfl : k = 8 := by omega
        have memory := Memory.of_nulFree nulFree
        exact ⟨[], .full _ (List.ne_nil_of_length_pos memory.length_pos) _ _ (Nat.le_refl _),
          by simp⟩

theorem number_expected (k : Nat) (line : ListLine) (small : k ≤ 8) :
    Expected false (1 + k) (numberLabel k line) := by
  refine ⟨UInt8.ofNat (48 + (k + 1)), ?_, ?_⟩
  · rw [numberLabel, JsonText.digits, if_pos (by omega), JsonText.digit]
  · rw [if_neg (by decide), Nat.add_comm k 1, UInt8.ofNat_add]
    rfl

theorem letter_expected (k : Nat) (line : ListLine) :
    Expected true (0 + k) (letterLabel k line) := by
  rw [Nat.zero_add]
  refine ⟨_, rfl, ?_⟩
  rw [if_pos rfl, UInt8.ofNat_add]
  cases line.lower with
  | false => exact .inl rfl
  | true =>
      refine .inr ?_
      rw [if_pos rfl, UInt8.add_assoc, UInt8.add_comm (UInt8.ofNat k), ← UInt8.add_assoc]
      rfl

theorem letterLabel_letter {k : Nat} (small : k < 26) (line : ListLine) :
    ∃ c, letterLabel k line = [c] ∧ c ≠ 0 ∧ c ≠ 0x0A ∧ c ≠ 0x0D ∧ blankByte c = false ∧
      digitByte c = false := by
  have table : ∀ k : Nat, k < 26 → ∀ lower : Bool,
      let c := UInt8.ofNat ((if lower then 0x61 else 0x41) + k)
      c ≠ 0 ∧ c ≠ 0x0A ∧ c ≠ 0x0D ∧ blankByte c = false ∧ digitByte c = false := by
    decide
  exact ⟨_, rfl, table k small line.lower⟩

theorem Closing.quiet_after {closing line : Bytes} (closes : Closing closing)
    (useLetters : Bool) (plain : 0x0A ∉ line)
    (first : ¬ Bullet useLetters (line ++ closing)) :
    Quiet (Bullet useLetters) (line ++ closing) := by
  rcases closes.ends useLetters 0 with rfl | ⟨rest, rfl, -⟩
  · rw [List.append_nil] at first ⊢
    exact .single plain first
  · refine .cons plain first fun before behind same start => ?_
    refine closes.quiet useLetters (0x0A :: before) behind (congrArg _ same) (.inr ?_)
    rcases start with rfl | newline
    · rfl
    · rw [List.getLast?_cons, newline]
      rfl

theorem quiet_letters {closing : Bytes} (closes : Closing closing) (lines : List ListLine)
    (k : Nat) (room : k + lines.length ≤ 26) :
    Quiet (Bullet false) (renderList letterLabel closing k lines) := by
  induction lines generalizing k with
  | nil => exact closes.quiet false
  | cons line more ih =>
      rw [List.length_cons] at room
      obtain ⟨letter, label, -, newline, return_, solid, other⟩ :=
        letterLabel_letter (show k < 26 by omega) line
      rw [renderList_cons, label]
      have plain : 0x0A ∉ line.render [letter] :=
        notMem_render (by decide) (fun member => newline (List.mem_singleton.1 member).symm)
          (by decide) line.item.noNewline
      have first : ∀ after : Bytes, ¬ Bullet false (line.render [letter] ++ after) := by
        intro after bullet
        obtain ⟨c, here, digit⟩ := bullet.head
        have blanks : ∀ b ∈ List.replicate line.indent (0x20 : UInt8),
            (b == 0x0D || blankByte b) = true := fun b member => by
          rw [indent_blank b member, Bool.or_true]
        rw [listLine_append, List.dropWhile_append_of_pos blanks, List.singleton_append,
          List.cons_append, List.dropWhile_cons_of_neg (by simp [return_, solid])] at here
        obtain rfl := Option.some.inj here
        rw [if_neg (by decide), other] at digit
        cases digit
      rw [renderAfter]
      split
      · exact closes.quiet_after false plain (first closing)
      · exact .cons plain (first _) (ih (k + 1) (by omega))

theorem nulFree_renderList {label : Nat → ListLine → Bytes} {closing : Bytes}
    (closes : Closing closing) (lines : List ListLine) (k : Nat)
    (labels : ∀ j line, j < k + lines.length → (0 : UInt8) ∉ label j line) :
    (0 : UInt8) ∉ renderList label closing k lines := by
  induction lines generalizing k with
  | nil => exact closes.nulFree
  | cons line more ih =>
      rw [List.length_cons] at labels
      have rest := ih (k + 1) fun j other inside => labels j other (by omega)
      have here : (0 : UInt8) ∉ line.render (label k line) :=
        notMem_render (by decide) (labels k line (by omega)) (by decide) line.item.nulFree
      rw [renderList_cons, List.mem_append, not_or, renderAfter]
      refine ⟨here, ?_⟩
      split
      · exact closes.nulFree
      · rw [List.mem_cons, not_or]
        exact ⟨by decide, rest⟩

theorem nulFree_labels {lettered : Bool} {closing : Bytes} (closes : Closing closing)
    {lines : List ListLine} (letters : lettered = true → lines.length ≤ 26) :
    (0 : UInt8) ∉ renderList (labels lettered) closing 0 lines := by
  refine nulFree_renderList closes lines 0 fun j line inside => ?_
  cases lettered with
  | false => exact fun member => absurd (JsonText.isDigit_of_mem_digits _ 0 member) (by decide)
  | true =>
      have room := letters rfl
      obtain ⟨letter, label, nonzero, -⟩ := letterLabel_letter (show j < 26 by omega) line
      rw [labels, if_pos rfl, label]
      exact fun member => nonzero (List.mem_singleton.1 member).symm

/-- Of a numbered or lettered list the first eight items are detected, as they are
written. -/
theorem detectChoices_renderList (lettered : Bool) (lines : List ListLine) (closing : Bytes)
    (two : 2 ≤ lines.length) (letters : lettered = true → lines.length ≤ 26)
    (closes : Closing closing) :
    ∃ choices, (∀ rounds, (renderList (labels lettered) closing 0 lines).length ≤ rounds →
        detectChoices rounds (renderList (labels lettered) closing 0 lines ++ [0]) =
          .ended choices) ∧
      choices.length = min lines.length 8 ∧
      choices.map Choice.text = (lines.take 8).map fun line => line.item.bytes := by
  have nulFree := nulFree_labels closes letters
  have memory := Memory.of_nulFree nulFree
  have size : (renderList (labels lettered) closing 0 lines ++ [0]).length =
      (renderList (labels lettered) closing 0 lines).length + 1 := by simp
  have count : ∀ choices : List Choice,
      choices.map Choice.text = (lines.map fun line => line.item.bytes).take 8 →
      choices.length = min lines.length 8 := by
    intro choices texts
    have length := congrArg List.length texts
    rw [List.length_map, List.length_take, List.length_map] at length
    rw [length, Nat.min_comm]
  cases lettered with
  | false =>
      obtain ⟨choices, first, texts⟩ := scans_list (labels false) (Nat.le_refl 1)
        (fun k line small => number_expected k line small) closes lines 0 0 (Nat.zero_le 8)
        nulFree
      obtain ⟨others, second, -⟩ := exists_scans memory true 0 0 0 memory.length_pos
        (Nat.zero_le 1) (Nat.zero_le _)
      have some_ : 2 ≤ choices.length := by
        rw [count choices texts]
        omega
      refine ⟨choices, fun rounds enough => ?_, count choices texts, ?_⟩
      · rw [first.detect second (size ▸ Nat.succ_le_succ enough), if_pos some_]
      · rw [texts, List.map_take]
  | true =>
      have first : Scans false (renderList (labels true) closing 0 lines ++ [0]) 0 1 0 [] :=
        scans_quiet nulFree (quiet_letters closes lines 0 (by simpa using letters rfl)) 0
          (by decide) 0
      obtain ⟨choices, second, texts⟩ := scans_list (labels true) (Nat.zero_le 1)
        (fun k line _ => letter_expected k line) closes lines 0 0 (Nat.zero_le 8) nulFree
      have some_ : 2 ≤ choices.length := by
        rw [count choices texts]
        omega
      refine ⟨choices, fun rounds enough => ?_, count choices texts, ?_⟩
      · rw [first.detect second (size ▸ Nat.succ_le_succ enough), if_neg (by decide),
          if_pos some_]
      · rw [texts, List.map_take]

def fooBar : List ListLine :=
  [⟨2, true, true, ⟨ascii "foo", by decide, by decide, by decide, by decide, by decide,
      by decide⟩⟩,
    ⟨0, false, false, ⟨ascii "1. bar", by decide, by decide, by decide, by decide, by decide,
      by decide⟩⟩]

theorem pickOne_closing : Closing (ascii "\n\n(pick one)") := by
  have none_ : ∀ c ∈ ([] : Bytes), blankByte c = true := fun _ member =>
    absurd member List.not_mem_nil
  refine .paragraph none_ (by decide) fun useLetters => .single (by decide) fun bullet => ?_
  obtain ⟨c, here, kind⟩ := bullet.head
  obtain rfl : 0x28 = c := Option.some.inj here
  cases useLetters <;> exact absurd kind (by decide)

theorem detectChoices_renderList_fooBar :
    renderList (labels true) (ascii "\n\n(pick one)") 0 fooBar =
        ascii "  a) foo\nB. 1. bar\n\n(pick one)" ∧
      ∃ choices, (∀ rounds, (renderList (labels true) (ascii "\n\n(pick one)") 0
            fooBar).length ≤ rounds →
          detectChoices rounds (renderList (labels true) (ascii "\n\n(pick one)") 0 fooBar ++
            [0]) = .ended choices) ∧
        choices.length = min fooBar.length 8 ∧
        choices.map Choice.text = (fooBar.take 8).map fun line => line.item.bytes :=
  ⟨rfl, detectChoices_renderList true fooBar _ (by decide) (by decide) pickOne_closing⟩

end FreeCli

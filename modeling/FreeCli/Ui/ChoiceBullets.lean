import FreeCli.Ui.ChoiceScan

namespace FreeCli

open Words

/-! Lines that look like items, and texts without them. -/

theorem skipWhile_iff {f : UInt8 → Bool} {p : Bytes} {k : Nat} :
    skipWhile f p = some k ↔ ∃ front c rest, p = front ++ c :: rest ∧ front.length = k ∧
      (∀ b ∈ front, f b = true) ∧ f c = false := by
  induction p generalizing k with
  | nil => simp [skipWhile]
  | cons first p ih =>
      rw [skipWhile]
      cases kind : f first with
      | false =>
          constructor
          · intro same
            obtain rfl := Option.some.inj same
            exact ⟨[], first, p, rfl, rfl, by simp, kind⟩
          · rintro ⟨front, c, rest, same, rfl, all, -⟩
            cases front with
            | nil => rfl
            | cons b front =>
                obtain ⟨rfl, -⟩ := List.cons.inj same
                rw [all _ List.mem_cons_self] at kind
                cases kind
      | true =>
          rw [if_pos rfl, Option.map_eq_some_iff]
          constructor
          · rintro ⟨k, skipped, rfl⟩
            obtain ⟨front, c, rest, rfl, rfl, all, stop⟩ := ih.1 skipped
            exact ⟨first :: front, c, rest, rfl, rfl, by simpa [kind] using all, stop⟩
          · rintro ⟨front, c, rest, same, rfl, all, stop⟩
            cases front with
            | nil =>
                obtain ⟨rfl, -⟩ := List.cons.inj same
                rw [kind] at stop
                cases stop
            | cons b front =>
                obtain ⟨rfl, rfl⟩ := List.cons.inj same
                exact ⟨front.length, ih.2 ⟨front, c, rest, rfl, rfl,
                  fun b member => all b (List.mem_cons_of_mem _ member), stop⟩, rfl⟩

theorem skipWhile_stop {f : UInt8 → Bool} {front : Bytes} {c : UInt8} (rest : Bytes)
    (all : ∀ b ∈ front, f b = true) (stop : f c = false) :
    skipWhile f (front ++ c :: rest) = some front.length :=
  skipWhile_iff.2 ⟨front, c, rest, rfl, rfl, all, stop⟩

theorem digits_of_readNumber {p : Bytes} {num value : UInt32} {k : Nat}
    (read : readNumber p num = some (value, k)) :
    ∃ digits rest, p = digits ++ rest ∧ digits.length = k ∧
      ∀ b ∈ digits, digitByte b = true := by
  induction p generalizing num value k with
  | nil => cases read
  | cons first p ih =>
      rw [readNumber] at read
      split at read
      next digit =>
        obtain ⟨⟨value', k'⟩, read', same⟩ := Option.map_eq_some_iff.1 read
        cases same
        obtain ⟨digits, rest, rfl, rfl, all⟩ := ih read'
        refine ⟨first :: digits, rest, rfl, rfl, ?_⟩
        intro b member
        rcases List.mem_cons.1 member with rfl | member
        · exact digit
        · exact all b member
      next =>
        cases read
        exact ⟨[], first :: p, rfl, rfl, by simp⟩

def BulletLabel (useLetters : Bool) (label : Bytes) : Prop :=
  if useLetters then
    ∃ letter, label = [letter] ∧
      ((0x41 ≤ letter ∧ letter ≤ 0x5A) ∨ (0x61 ≤ letter ∧ letter ≤ 0x7A))
  else label ≠ [] ∧ ∀ c ∈ label, digitByte c = true

/-- A line that starts with a letter or number, a point or bracket and a blank. -/
def Bullet (useLetters : Bool) (line : Bytes) : Prop :=
  ∃ returns spaces label mark blank more,
    line = returns ++ (spaces ++ (label ++ mark :: blank :: more)) ∧
    (∀ c ∈ returns, c = 0x0D) ∧ (∀ c ∈ spaces, blankByte c = true) ∧
    markByte mark = true ∧ blankByte blank = true ∧ BulletLabel useLetters label

theorem Bullet.of_terminated {useLetters : Bool} {q : Bytes}
    (bullet : Bullet useLetters (q ++ [0])) : Bullet useLetters q := by
  obtain ⟨returns, spaces, label, mark, blank, more, same, rest⟩ := bullet
  have regroup : returns ++ (spaces ++ (label ++ mark :: blank :: more)) =
      returns ++ (spaces ++ (label ++ [mark, blank])) ++ more := by simp
  rw [regroup] at same
  rcases List.eq_nil_or_concat' more with rfl | ⟨more, last, rfl⟩
  · have ends : q ++ [0] = returns ++ (spaces ++ (label ++ [mark])) ++ [blank] := by
      rw [same]
      simp
    have zero := List.singleton_inj.1 (List.append_inj_right' ends rfl)
    exact absurd rest.2.2.2.1 (by rw [← zero]; decide)
  · rw [← List.append_assoc] at same
    refine ⟨returns, spaces, label, mark, blank, more, ?_, rest⟩
    rw [List.append_inj_left' same rfl]
    simp

theorem numberBullet_reads {expected start : Nat} {t : Bytes}
    (found : numberBullet expected t = some (some start)) :
    ∃ q mark blank spaces, readNumber t 0 = some (UInt32.ofNat expected, q) ∧ 0 < q ∧
      t[q]? = some mark ∧ markByte mark = true ∧ t[q + 1]? = some blank ∧
      blankByte blank = true ∧ skipWhile (· == 0x20) (t.drop (q + 2)) = some spaces ∧
      start = q + 2 + spaces := by
  rw [numberBullet] at found
  obtain ⟨⟨num, q⟩, read, found⟩ := Option.bind_eq_some_iff.1 found
  simp only at found
  split at found
  next number =>
    obtain ⟨mark, here, found⟩ := Option.bind_eq_some_iff.1 found
    split at found
    next marked =>
      obtain ⟨blank, there, found⟩ := Option.bind_eq_some_iff.1 found
      split at found
      next spaced =>
        obtain ⟨spaces, skipped, last⟩ := Option.bind_eq_some_iff.1 found
        exact ⟨q, mark, blank, spaces, number.1 ▸ read, number.2, here, marked, there, spaced,
          skipped, (Option.some.inj (Option.some.inj last)).symm⟩
      next => cases found
    next => cases found
  next => cases found

theorem numberBullet_shape {expected start : Nat} {t : Bytes}
    (found : numberBullet expected t = some (some start)) :
    ∃ digits mark blank more, t = digits ++ mark :: blank :: more ∧
      markByte mark = true ∧ blankByte blank = true ∧ digits ≠ [] ∧
      ∀ c ∈ digits, digitByte c = true := by
  obtain ⟨q, mark, blank, spaces, read, positive, here, marked, there, spaced, -, -⟩ :=
    numberBullet_reads found
  obtain ⟨digits, rest, rfl, rfl, all⟩ := digits_of_readNumber read
  rw [List.getElem?_append_right (Nat.le_refl _), Nat.sub_self] at here
  rw [List.getElem?_append_right (by omega), Nat.add_sub_cancel_left] at there
  rcases rest with _ | ⟨first, _ | ⟨second, more⟩⟩
  · cases here
  · cases there
  · obtain rfl := Option.some.inj here
    obtain rfl := Option.some.inj there
    exact ⟨digits, first, second, more, rfl, marked, spaced,
      List.ne_nil_of_length_pos positive, all⟩

theorem letterBullet_shape {expected start : Nat} {t : Bytes}
    (found : letterBullet expected t = some (some start)) :
    ∃ letter mark blank more, t = letter :: mark :: blank :: more ∧
      markByte mark = true ∧ blankByte blank = true ∧
      (letter = 0x41 + UInt8.ofNat expected ∨ letter = 0x41 + UInt8.ofNat expected + 32) := by
  rw [letterBullet] at found
  obtain ⟨letter, first, found⟩ := Option.bind_eq_some_iff.1 found
  split at found
  next wanted =>
    obtain ⟨mark, here, found⟩ := Option.bind_eq_some_iff.1 found
    split at found
    next marked =>
      obtain ⟨blank, there, found⟩ := Option.bind_eq_some_iff.1 found
      split at found
      next spaced =>
        rcases t with _ | ⟨one, _ | ⟨two, _ | ⟨three, more⟩⟩⟩
        · cases first
        · cases here
        · cases there
        · obtain rfl := Option.some.inj first
          obtain rfl := Option.some.inj here
          obtain rfl := Option.some.inj there
          exact ⟨one, two, three, more, rfl, marked, spaced, wanted⟩
      next => cases found
    next => cases found
  next => cases found

theorem wanted_letter : ∀ expected : Nat, expected ≤ 9 →
    (0x41 ≤ (0x41 + UInt8.ofNat expected : UInt8) ∧
      (0x41 + UInt8.ofNat expected : UInt8) ≤ 0x5A) ∧
    0x61 ≤ (0x41 + UInt8.ofNat expected + 32 : UInt8) ∧
      (0x41 + UInt8.ofNat expected + 32 : UInt8) ≤ 0x7A := by
  decide

theorem matchLine_reads {useLetters : Bool} {expected start : Nat} {p : Bytes}
    (found : matchLine useLetters expected p = some (some start)) :
    ∃ returns spaces c rest item, p = returns ++ (spaces ++ c :: rest) ∧
      (∀ b ∈ returns, b = 0x0D) ∧ (∀ b ∈ spaces, blankByte b = true) ∧
      blankByte c = false ∧
      (p.dropWhile (· == 0x0D)).dropWhile blankByte = c :: rest ∧
      (if useLetters then letterBullet expected (c :: rest)
        else numberBullet expected (c :: rest)) = some (some item) ∧
      start = returns.length + spaces.length + item := by
  rw [matchLine] at found
  obtain ⟨_, skipped, found⟩ := Option.bind_eq_some_iff.1 found
  obtain ⟨_, spaced, found⟩ := Option.bind_eq_some_iff.1 found
  obtain ⟨returns, next, more, rfl, rfl, return_, other⟩ := skipWhile_iff.1 skipped
  rw [List.drop_left] at spaced
  obtain ⟨spaces, c, rest, same, rfl, blank, solid⟩ := skipWhile_iff.1 spaced
  have behind : (returns ++ next :: more).drop (returns.length + spaces.length) = c :: rest := by
    rw [← List.drop_drop, List.drop_left, same, List.drop_left]
  have front : ((returns ++ next :: more).dropWhile (· == 0x0D)).dropWhile blankByte =
      c :: rest := by
    rw [List.dropWhile_append_of_pos return_, List.dropWhile_cons_of_neg (by simp [other]), same,
      List.dropWhile_append_of_pos blank, List.dropWhile_cons_of_neg (by simp [solid])]
  simp only [behind] at found
  have bullet : ∃ item, (if useLetters then letterBullet expected (c :: rest)
      else numberBullet expected (c :: rest)) = some (some item) ∧
        start = returns.length + spaces.length + item := by
    split_ifs at found ⊢
    all_goals
      obtain ⟨item, bullet, last⟩ := Option.bind_eq_some_iff.1 found
      cases item with
      | none => cases last
      | some item => exact ⟨item, bullet, (Option.some.inj (Option.some.inj last)).symm⟩
  obtain ⟨item, bullet, start⟩ := bullet
  exact ⟨returns, spaces, c, rest, item, by rw [same], by simpa using return_, blank, solid,
    front, bullet, start⟩

theorem bullet_of_matchLine {useLetters : Bool} {expected start : Nat} {p : Bytes}
    (small : expected ≤ 9) (found : matchLine useLetters expected p = some (some start)) :
    Bullet useLetters p := by
  obtain ⟨front, blanks, c, rest, item, rfl, returns, blank, -, -, bullet, -⟩ :=
    matchLine_reads found
  cases useLetters with
  | true =>
      obtain ⟨letter, mark, space, after, whole, marked, spaces, wanted⟩ :=
        letterBullet_shape bullet
      rw [whole]
      refine ⟨front, blanks, [letter], mark, space, after, rfl, returns, blank, marked,
        spaces, letter, rfl, ?_⟩
      rcases wanted with rfl | rfl
      · exact .inl (wanted_letter expected small).1
      · exact .inr (wanted_letter expected small).2
  | false =>
      obtain ⟨digits, mark, space, after, whole, marked, spaces, some_, digit⟩ :=
        numberBullet_shape bullet
      rw [whole]
      exact ⟨front, blanks, digits, mark, space, after, rfl, returns, blank, marked,
        spaces, some_, digit⟩

def Quiet (line : Bytes → Prop) (text : Bytes) : Prop :=
  ∀ before rest, text = before ++ rest →
    (before = [] ∨ before.getLast? = some 0x0A) → ¬ line rest

theorem Quiet.cons {property : Bytes → Prop} {line text : Bytes} (plain : 0x0A ∉ line)
    (first : ¬ property (line ++ 0x0A :: text)) (quiet : Quiet property text) :
    Quiet property (line ++ 0x0A :: text) := by
  intro before rest same start
  by_cases empty : before = []
  · subst empty
    rw [List.nil_append] at same
    exact same ▸ first
  · have newline := start.resolve_left empty
    have ending : ∀ {front : Bytes}, front ≠ [] → front.getLast? = some 0x0A → 0x0A ∈ front :=
      fun _ here => List.mem_of_getLast? here
    rcases List.append_eq_append_iff.1 same with ⟨extra, rfl, tail⟩ | ⟨extra, rfl, -⟩
    · cases extra with
      | nil =>
          rw [List.append_nil] at newline empty
          exact absurd (ending empty newline) plain
      | cons c extra =>
          obtain ⟨rfl, rfl⟩ := List.cons.inj tail
          refine quiet extra rest rfl ?_
          cases extra with
          | nil => exact .inl rfl
          | cons c extra =>
              refine .inr ?_
              rw [List.getLast?_append_of_ne_nil _ (List.cons_ne_nil _ _)] at newline
              rwa [List.getLast?_cons_cons] at newline
    · exact absurd (List.mem_append_left _ (ending empty newline)) plain

theorem Quiet.single {property : Bytes → Prop} {line : Bytes} (plain : 0x0A ∉ line)
    (first : ¬ property line) : Quiet property line := by
  rintro before rest rfl (rfl | newline)
  · exact first
  · exact absurd (List.mem_append_left _ (List.mem_of_getLast? newline)) plain

theorem Bullet.head {useLetters : Bool} {line : Bytes} (bullet : Bullet useLetters line) :
    ∃ c ∈ (line.dropWhile fun b => b == 0x0D || blankByte b).head?,
      if useLetters then (0x41 ≤ c ∧ c ≤ 0x5A) ∨ (0x61 ≤ c ∧ c ≤ 0x7A)
      else digitByte c = true := by
  obtain ⟨returns, spaces, label, mark, blank, more, rfl, return_, spaced, -, -, kind⟩ := bullet
  have skipped : ∀ b ∈ returns ++ spaces, (b == 0x0D || blankByte b) = true := by
    intro b member
    rcases List.mem_append.1 member with member | member
    · simp [return_ b member]
    · simp [spaced b member]
  rw [← List.append_assoc, List.dropWhile_append_of_pos skipped]
  have solid : ∀ c : UInt8, 0x30 ≤ c → (c == 0x0D || blankByte c) = false := by
    intro c large
    rw [UInt8.le_iff_toNat_le] at large
    have large : 48 ≤ c.toNat := large
    simp only [blankByte, Bool.or_eq_false_iff, beq_eq_false_iff_ne]
    refine ⟨?_, ?_, ?_⟩ <;> (rintro rfl; exact absurd large (by decide))
  cases useLetters with
  | true =>
      obtain ⟨letter, rfl, range⟩ := kind
      have large : 0x30 ≤ letter := by
        rcases range with ⟨low, -⟩ | ⟨low, -⟩
        · exact UInt8.le_trans (by decide) low
        · exact UInt8.le_trans (by decide) low
      refine ⟨letter, ?_, range⟩
      rw [List.singleton_append, List.dropWhile_cons_of_neg (by simp [solid letter large])]
      rfl
  | false =>
      obtain ⟨some_, digits⟩ := kind
      obtain ⟨c, label, rfl⟩ := List.exists_cons_of_ne_nil some_
      have digit := digits c List.mem_cons_self
      have large : 0x30 ≤ c := by
        rw [digitByte, Bool.and_eq_true, decide_eq_true_eq] at digit
        exact digit.1
      refine ⟨c, ?_, digit⟩
      rw [List.cons_append, List.dropWhile_cons_of_neg (by simp [solid c large])]
      rfl

theorem not_bullet_nil (useLetters : Bool) : ¬ Bullet useLetters [] := by
  intro bullet
  obtain ⟨c, here, -⟩ := bullet.head
  cases here

theorem skipLine_end {text : Bytes} {moved : Nat} (nulFree : (0 : UInt8) ∉ text)
    (skipped : skipLine (text ++ [0]) = some moved) :
    text.drop moved = [] ∨ (text.take moved).getLast? = some 0x0A := by
  induction text generalizing moved with
  | nil =>
      cases skipped
      exact .inl rfl
  | cons c text ih =>
      have nonzero : c ≠ 0 := fun zero => nulFree (zero ▸ List.mem_cons_self)
      rw [List.cons_append, skipLine, if_neg nonzero] at skipped
      split at skipped
      next newline =>
        cases skipped
        exact .inr (congrArg some newline)
      next =>
        obtain ⟨moved, earlier, rfl⟩ := Option.map_eq_some_iff.1 skipped
        rcases ih (fun member => nulFree (List.mem_cons_of_mem _ member)) earlier with
          ended | newline
        · exact .inl ended
        · refine .inr ?_
          rw [List.take_succ_cons, List.getLast?_cons, newline]
          rfl

theorem scans_quiet {useLetters : Bool} {text : Bytes} (nulFree : (0 : UInt8) ∉ text)
    (quiet : Quiet (Bullet useLetters) text) (n : Nat) {expected : Nat} (small : expected ≤ 9)
    (found : Nat) : Scans useLetters (text ++ [0]) n expected found [] := by
  induction size : text.length using Nat.strong_induction_on generalizing text n with
  | _ size ih =>
      have memory := Memory.of_nulFree nulFree
      rcases Nat.lt_or_ge found maxChoices with few | full
      · cases text with
        | nil => exact .done _ _ _ _ _
        | cons c text =>
            have some_ : c :: text ++ [0] ≠ [] := List.cons_ne_nil _ _
            have more : (c :: text ++ [0]).head? ≠ some 0 := fun zero =>
              nulFree (Option.some.inj zero ▸ List.mem_cons_self)
            obtain ⟨item, matched, -⟩ := matchLine_inside memory useLetters small
            obtain ⟨moved, skipped, inside, progress⟩ := skipLine_inside memory
            cases item with
            | some start =>
                exact absurd (bullet_of_matchLine small matched).of_terminated
                  (quiet [] _ rfl (.inl rfl))
            | none =>
                have line : scanLine useLetters expected (c :: text ++ [0]) =
                    some (none, moved) := by
                  simp only [scanLine, matched, skipped, Option.bind_eq_bind, Option.bind_some]
                have bound : moved ≤ (c :: text).length := by
                  rw [List.length_append, List.length_singleton] at inside
                  omega
                have positive := progress more
                refine .skip some_ more few line positive inside ?_
                rw [List.drop_append_of_le_length bound]
                refine ih _ ?_ (fun member => nulFree (List.mem_of_mem_drop member)) ?_ _ rfl
                · rw [List.length_drop, ← size]
                  omega
                · rintro before rest same (rfl | newline)
                  · rcases skipLine_end nulFree skipped with ended | newline
                    · rw [ended] at same
                      obtain rfl : rest = [] := by simpa using same.symm
                      exact not_bullet_nil useLetters
                    · refine quiet ((c :: text).take moved) rest ?_ (.inr newline)
                      rw [List.nil_append] at same
                      rw [← same, List.take_append_drop]
                  · refine quiet ((c :: text).take moved ++ before) rest ?_ (.inr ?_)
                    · rw [List.append_assoc, ← same, List.take_append_drop]
                    · rw [List.getLast?_append, newline]
                      rfl
      · exact .full _ (List.ne_nil_of_length_pos memory.length_pos) _ _ full

/-- What may follow a list: nothing, an empty line, or an empty line and a paragraph
without bullets. -/
inductive Closing : Bytes → Prop
  | nothing : Closing []
  | blank {blank : Bytes} (blanks : ∀ c ∈ blank, blankByte c = true) :
      Closing (0x0A :: blank)
  | paragraph {blank text : Bytes} (blanks : ∀ c ∈ blank, blankByte c = true)
      (nulFree : (0 : UInt8) ∉ text) (quiet : ∀ useLetters, Quiet (Bullet useLetters) text) :
      Closing (0x0A :: (blank ++ 0x0A :: text))

theorem not_bullet_blank (useLetters : Bool) {blank rest : Bytes}
    (blanks : ∀ c ∈ blank, blankByte c = true) (ended : rest = [] ∨ rest.head? = some 0x0A) :
    ¬ Bullet useLetters (blank ++ rest) := by
  intro bullet
  obtain ⟨c, here, kind⟩ := bullet.head
  have skipped : ∀ b ∈ blank, (b == 0x0D || blankByte b) = true := by
    intro b member
    simp [blanks b member]
  rw [List.dropWhile_append_of_pos skipped] at here
  rcases ended with rfl | newline
  · cases here
  · obtain ⟨first, rest, rfl⟩ := List.exists_cons_of_ne_nil
      (show rest ≠ [] by rintro rfl; cases newline)
    obtain rfl := Option.some.inj newline
    rw [List.dropWhile_cons_of_neg (by decide)] at here
    obtain rfl := Option.some.inj here
    cases useLetters <;> exact absurd kind (by decide)

theorem newline_notMem_blank {blank : Bytes} (blanks : ∀ c ∈ blank, blankByte c = true) :
    (0x0A : UInt8) ∉ blank := fun member => absurd (blanks _ member) (by decide)

theorem zero_notMem_blank {blank : Bytes} (blanks : ∀ c ∈ blank, blankByte c = true) :
    (0 : UInt8) ∉ blank := fun member => absurd (blanks _ member) (by decide)

namespace Closing

variable {closing : Bytes}

theorem nulFree (closes : Closing closing) : (0 : UInt8) ∉ closing := by
  cases closes with
  | nothing => exact List.not_mem_nil
  | blank blanks =>
      rw [List.mem_cons, not_or]
      exact ⟨by decide, zero_notMem_blank blanks⟩
  | paragraph blanks nulFree quiet =>
      rw [List.mem_cons, not_or, List.mem_append, not_or, List.mem_cons, not_or]
      exact ⟨by decide, zero_notMem_blank blanks, by decide, nulFree⟩

theorem quiet (closes : Closing closing) (useLetters : Bool) :
    Quiet (Bullet useLetters) closing := by
  have first : ∀ rest : Bytes, ¬ Bullet useLetters ([] ++ 0x0A :: rest) := fun rest =>
    not_bullet_blank useLetters (fun _ member => absurd member List.not_mem_nil) (.inr rfl)
  cases closes with
  | nothing => exact .single List.not_mem_nil (not_bullet_nil useLetters)
  | @blank blank blanks =>
      refine Quiet.cons List.not_mem_nil (first _)
        (.single (newline_notMem_blank blanks) ?_)
      have empty := @not_bullet_blank useLetters blank [] blanks (.inl rfl)
      rwa [List.append_nil] at empty
  | paragraph blanks nulFree quiet =>
      exact Quiet.cons List.not_mem_nil (first _) (Quiet.cons (newline_notMem_blank blanks)
        (not_bullet_blank useLetters blanks (.inr rfl)) (quiet useLetters))

theorem ends (closes : Closing closing) (useLetters : Bool) (expected : Nat) :
    closing = [] ∨ ∃ rest, closing = 0x0A :: rest ∧
      endsItem useLetters expected (rest ++ [0]) = some true := by
  cases closes with
  | nothing => exact .inl rfl
  | @blank blank blanks =>
      refine .inr ⟨blank, rfl, ?_⟩
      have spaces := skipWhile_stop (f := blankByte) [] blanks (c := 0) rfl
      simp only [endsItem, spaces, List.drop_left, Option.bind_eq_bind, Option.bind_some,
        List.getElem?_cons_zero]
      rfl
  | @paragraph blank text blanks nulFree quiet =>
      refine .inr ⟨_, rfl, ?_⟩
      have spaces := skipWhile_stop (f := blankByte) (text ++ [0]) blanks (c := 0x0A) rfl
      rw [List.append_assoc, List.cons_append]
      simp only [endsItem, spaces, List.drop_left, Option.bind_eq_bind, Option.bind_some,
        List.getElem?_cons_zero]
      rfl

end Closing

end FreeCli

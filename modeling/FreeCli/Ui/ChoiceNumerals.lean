import FreeCli.Ui.ChoiceBullets

namespace FreeCli

open Words

/-! The numerals `detect_choices` reads, and the numbers they denote. -/

def intMax : Nat := 2147483647

/-- `num` with the digits behind it. -/
def numeralFrom (num : Nat) (digits : Bytes) : Nat :=
  digits.foldl (fun num c => num * 10 + (c.toNat - 0x30)) num

def denotes (digits : Bytes) : Nat := numeralFrom 0 digits

/-- `num = num * 10 + (*q - '0')` stays in the range of `int` at every digit. -/
def FitsInt : Nat → Bytes → Prop
  | _, [] => True
  | num, c :: digits =>
      num * 10 ≤ intMax ∧ num * 10 + (c.toNat - 0x30) ≤ intMax ∧
        FitsInt (num * 10 + (c.toNat - 0x30)) digits

def numeral (q : Bytes) : Bytes := q.takeWhile digitByte

def lineNumeral (scan : Bytes) : Bytes :=
  numeral ((scan.dropWhile (· == 0x0D)).dropWhile blankByte)

/-- The numeral read behind a newline in an item, none where the line is empty. -/
def nextNumeral (next : Bytes) : Bytes := numeral (next.dropWhile blankByte)

/-- The numerals read behind the newlines of an item, up to the one that ends it. -/
def aheadNumerals (expected : Nat) : Bytes → List Bytes
  | [] => []
  | c :: rest =>
      if c = 0 then []
      else if c = 0x0A then
        nextNumeral rest ::
          if endsItem false expected rest = some true then [] else aheadNumerals expected rest
      else aheadNumerals expected rest

/-- The numerals read in one round of the scan. -/
def roundNumerals (expected : Nat) (scan : Bytes) : List Bytes :=
  lineNumeral scan :: (matchLine false expected scan).join.elim [] fun start =>
    aheadNumerals expected (scan.drop start)

/-- The numerals read in the rounds of `scanChoices`. -/
def numeralsRead : (rounds : Nat) → (scan : Bytes) → (expected found : Nat) → List Bytes
  | 0, _, _, _ => []
  | _ + 1, [], _, _ => []
  | rounds + 1, c :: rest, expected, found =>
      if c = 0 ∨ maxChoices ≤ found then []
      else
        roundNumerals expected (c :: rest) ++
          match scanLine false expected (c :: rest) with
          | none => []
          | some (none, moved) =>
              numeralsRead rounds ((c :: rest).drop moved) expected found
          | some (some _, moved) =>
              numeralsRead rounds ((c :: rest).drop moved) (expected + 1) (found + 1)

/-- The numeral in front of an item: blanks, a point or bracket and the digits, backwards. -/
def numeralBefore (text : Bytes) (start : Nat) : Bytes :=
  (numeral (((text.take start).reverse.dropWhile blankByte).drop 1)).reverse

theorem le_numeralFrom (num : Nat) (digits : Bytes) : num ≤ numeralFrom num digits := by
  induction digits generalizing num with
  | nil => exact Nat.le_refl num
  | cons c digits ih =>
      have step : num ≤ num * 10 + (c.toNat - 0x30) := by omega
      exact step.trans (ih _)

theorem fitsInt_iff {num : Nat} (small : num ≤ intMax) (digits : Bytes) :
    FitsInt num digits ↔ numeralFrom num digits ≤ intMax := by
  induction digits generalizing num with
  | nil => exact iff_of_true trivial small
  | cons c digits ih =>
      rw [FitsInt]
      constructor
      · rintro ⟨-, here, later⟩
        exact (ih here).1 later
      · intro fits
        have here := (le_numeralFrom (num * 10 + (c.toNat - 0x30)) digits).trans fits
        exact ⟨(Nat.le_add_right _ _).trans here, here, (ih here).2 fits⟩

theorem fitsInt_numeral_iff (digits : Bytes) : FitsInt 0 digits ↔ denotes digits ≤ intMax :=
  fitsInt_iff (Nat.zero_le _) digits

theorem digit_value {c : UInt8} (digit : digitByte c = true) :
    (c - 0x30).toUInt32 = UInt32.ofNat (c.toNat - 0x30) := by
  rw [digitByte, Bool.and_eq_true, decide_eq_true_eq] at digit
  apply UInt32.toNat.inj
  rw [UInt8.toNat_toUInt32, UInt8.toNat_sub_of_le _ _ digit.1, UInt32.toNat_ofNat_of_lt']
  · rfl
  · have := c.toNat_lt
    exact Nat.lt_of_le_of_lt (Nat.sub_le _ _) (this.trans (by decide))

/-- The number is read modulo `2 ^ 32`. -/
theorem readNumber_eq {p : Bytes} (memory : Memory p) (num : Nat) :
    readNumber p (UInt32.ofNat num) =
      some (UInt32.ofNat (numeralFrom num (numeral p)), (numeral p).length) := by
  induction memory generalizing num with
  | last => rfl
  | @cons c rest nonzero memory ih =>
      rw [readNumber, numeral]
      split
      next digit =>
        have step : UInt32.ofNat num * 10 + (c - 0x30).toUInt32 =
            UInt32.ofNat (num * 10 + (c.toNat - 0x30)) := by
          rw [digit_value digit, UInt32.ofNat_add, UInt32.ofNat_mul]
          rfl
        rw [step, ih, List.takeWhile_cons_of_pos digit]
        rfl
      next other =>
        rw [List.takeWhile_cons_of_neg other]
        rfl

theorem digitByte_of_blank {c : UInt8} (blank : blankByte c = true) : digitByte c = false := by
  rw [blankByte, Bool.or_eq_true, beq_iff_eq, beq_iff_eq] at blank
  rcases blank with rfl | rfl <;> rfl

theorem drop_of_getElem? {p : Bytes} {k : Nat} {c : UInt8} (here : p[k]? = some c) :
    p.drop k = c :: p.drop (k + 1) := by
  obtain ⟨inside, rfl⟩ := List.getElem?_eq_some_iff.1 here
  exact List.drop_eq_getElem_cons inside

theorem numberBullet_numeral {expected start : Nat} {t : Bytes} (memory : Memory t)
    (found : numberBullet expected t = some (some start)) :
    ∃ mark blank spaces rest, t = numeral t ++ mark :: blank :: (spaces ++ rest) ∧
      markByte mark = true ∧ blankByte blank = true ∧ (∀ c ∈ spaces, blankByte c = true) ∧
      numeral t ≠ [] ∧ start = (numeral t).length + 2 + spaces.length ∧
      UInt32.ofNat (denotes (numeral t)) = UInt32.ofNat expected := by
  obtain ⟨q, mark, blank, count, read, positive, here, marked, there, spaced, skipped, rfl⟩ :=
    numberBullet_reads found
  rw [show (0 : UInt32) = UInt32.ofNat 0 from rfl, readNumber_eq memory 0] at read
  obtain ⟨number, rfl⟩ := Prod.ext_iff.1 (Option.some.inj read)
  obtain ⟨spaces, c, rest, same, rfl, all, -⟩ := skipWhile_iff.1 skipped
  have whole : numeral t ++ t.drop (numeral t).length = t :=
    List.prefix_iff_eq_append.1 (List.takeWhile_prefix digitByte)
  rw [drop_of_getElem? here, drop_of_getElem? there, same] at whole
  refine ⟨mark, blank, spaces, c :: rest, whole.symm, marked, spaced, fun c member => ?_,
    List.ne_nil_of_length_pos positive, rfl, number⟩
  have space := all c member
  rw [beq_iff_eq] at space
  rw [space]
  rfl

theorem matchLine_numeral {expected start : Nat} {p : Bytes} (memory : Memory p)
    (found : matchLine false expected p = some (some start)) :
    ∃ lead mark blank spaces rest,
      p = lead ++ (lineNumeral p ++ mark :: blank :: (spaces ++ rest)) ∧
      (∀ c ∈ lead, digitByte c = false) ∧ markByte mark = true ∧ blankByte blank = true ∧
      (∀ c ∈ spaces, blankByte c = true) ∧ lineNumeral p ≠ [] ∧
      start = lead.length + ((lineNumeral p).length + 2 + spaces.length) ∧
      UInt32.ofNat (denotes (lineNumeral p)) = UInt32.ofNat expected := by
  obtain ⟨returns, lead, c, rest, item, whole, return_, blank_, -, front, bullet, rfl⟩ :=
    matchLine_reads found
  rw [if_neg (by decide)] at bullet
  have read : lineNumeral p = numeral (c :: rest) := by rw [lineNumeral, front]
  rw [whole, ← List.append_assoc] at memory
  have here : Memory (c :: rest) := by
    have inside := memory.drop (k := (returns ++ lead).length) (by simp)
    rwa [List.drop_left] at inside
  obtain ⟨mark, blank, spaces, behind, parts, marked, spaced, all, some_, start, number⟩ :=
    numberBullet_numeral here bullet
  rw [← read] at parts some_ start number
  refine ⟨returns ++ lead, mark, blank, spaces, behind, ?_, ?_, marked, spaced, all, some_,
    ?_, number⟩
  · rw [← parts, List.append_assoc]
    exact whole
  · intro b member
    rcases List.mem_append.1 member with member | member
    · rw [return_ b member]
      rfl
    · exact digitByte_of_blank (blank_ b member)
  · rw [start, List.length_append]

theorem numeralBefore_eq {before digits spaces rest : Bytes} {mark blank : UInt8}
    (marked : markByte mark = true) (spaced : blankByte blank = true)
    (spaces_ : ∀ c ∈ spaces, blankByte c = true) (all : ∀ c ∈ digits, digitByte c = true)
    (apart : ∀ c ∈ before.getLast?, digitByte c = false) :
    numeralBefore (before ++ (digits ++ mark :: blank :: (spaces ++ rest)))
      (before.length + (digits.length + 2 + spaces.length)) = digits := by
  have front : (before ++ (digits ++ mark :: blank :: (spaces ++ rest))).take
      (before.length + (digits.length + 2 + spaces.length)) =
        before ++ (digits ++ (mark :: blank :: spaces)) := by
    have whole : before ++ (digits ++ mark :: blank :: (spaces ++ rest)) =
        before ++ (digits ++ (mark :: blank :: spaces)) ++ rest := by simp
    rw [whole]
    exact List.take_left' (by simp only [List.length_append, List.length_cons]; omega)
  have backwards : (before ++ (digits ++ (mark :: blank :: spaces))).reverse =
      (spaces.reverse ++ [blank]) ++ mark :: (digits.reverse ++ before.reverse) := by simp
  have blanks : ∀ c ∈ spaces.reverse ++ [blank], blankByte c = true := by
    intro c member
    rcases List.mem_append.1 member with member | member
    · exact spaces_ c (List.mem_reverse.1 member)
    · rwa [List.mem_singleton.1 member]
  have solid : ¬ blankByte mark = true := by
    rw [markByte, Bool.or_eq_true, beq_iff_eq, beq_iff_eq] at marked
    rcases marked with rfl | rfl <;> decide
  have digits_ : ∀ c ∈ digits.reverse, digitByte c = true := fun c member =>
    all c (List.mem_reverse.1 member)
  have stop : before.reverse.takeWhile digitByte = [] := by
    rcases List.eq_nil_or_concat' before with rfl | ⟨before, last, rfl⟩
    · rfl
    · rw [List.getLast?_concat] at apart
      rw [List.reverse_concat, List.takeWhile_cons_of_neg (by simp [apart last rfl])]
  rw [numeralBefore, front, backwards, List.dropWhile_append_of_pos blanks,
    List.dropWhile_cons_of_neg solid, List.drop_one, List.tail_cons, numeral,
    List.takeWhile_append_of_pos digits_, stop, List.append_nil, List.reverse_reverse]

/-- No numeral goes across place `n`. -/
def Uncut (text : Bytes) (n : Nat) : Prop :=
  ∀ c ∈ (text.take n).getLast?, ∀ d ∈ (text.drop n).head?, digitByte c = true →
    digitByte d = false

theorem skipLine_stop {p : Bytes} {moved : Nat} (skipped : skipLine p = some moved) :
    p[moved]? = some 0 ∨ ∃ k, moved = k + 1 ∧ p[k]? = some 0x0A := by
  induction p generalizing moved with
  | nil => cases skipped
  | cons c rest ih =>
      rw [skipLine] at skipped
      split at skipped
      next zero =>
        cases skipped
        exact .inl (congrArg some zero)
      next =>
        split at skipped
        next newline =>
          cases skipped
          exact .inr ⟨0, rfl, congrArg some newline⟩
        next =>
          obtain ⟨moved, earlier, rfl⟩ := Option.map_eq_some_iff.1 skipped
          rcases ih earlier with zero | ⟨k, rfl, newline⟩
          · exact .inl zero
          · exact .inr ⟨k + 1, rfl, newline⟩

theorem itemLength_stop {useLetters : Bool} {expected stop : Nat} {p : Bytes}
    (length : itemLength useLetters expected p = some stop) :
    p[stop]? = some 0 ∨ p[stop]? = some 0x0A := by
  induction p generalizing stop with
  | nil => cases length
  | cons c rest ih =>
      have later : ∀ {stop}, (itemLength useLetters expected rest).map (· + 1) = some stop →
          (c :: rest)[stop]? = some 0 ∨ (c :: rest)[stop]? = some 0x0A := by
        intro stop longer
        obtain ⟨stop, shorter, rfl⟩ := Option.map_eq_some_iff.1 longer
        exact ih shorter
      rw [itemLength] at length
      split at length
      next zero =>
        cases length
        exact .inl (congrArg some zero)
      next =>
        split at length
        next newline =>
          obtain ⟨ended, -, length⟩ := Option.bind_eq_some_iff.1 length
          split at length
          next =>
            cases length
            exact .inr (congrArg some newline)
          next => exact later length
        next => exact later length

theorem trimItem_stop {item : Bytes} {len kept : Nat} (trimmed : trimItem item len = some kept) :
    kept = len ∨ ∃ c, item[kept]? = some c ∧ (c = 0x0A ∨ c = 0x20 ∨ c = 0x0D) := by
  induction len with
  | zero =>
      cases trimmed
      exact .inl rfl
  | succ len ih =>
      rw [trimItem] at trimmed
      split at trimmed
      next => cases trimmed
      next c here =>
        split at trimmed
        next blank =>
          rcases ih trimmed with rfl | earlier
          · exact .inr ⟨c, here, blank⟩
          · exact .inr earlier
        next =>
          cases trimmed
          exact .inl rfl

theorem scanLine_stop {useLetters : Bool} {expected moved : Nat} {p : Bytes}
    {taken : Option Choice} (line : scanLine useLetters expected p = some (taken, moved)) :
    (∃ c, p[moved]? = some c ∧ digitByte c = false) ∨
      ∃ k, moved = k + 1 ∧ p[k]? = some 0x0A := by
  rw [scanLine] at line
  obtain ⟨item, -, line⟩ := Option.bind_eq_some_iff.1 line
  cases item with
  | none =>
      obtain ⟨moved, skipped, same⟩ := Option.bind_eq_some_iff.1 line
      cases same
      exact (skipLine_stop skipped).imp_left fun zero => ⟨0, zero, rfl⟩
  | some start =>
      obtain ⟨stop, length, line⟩ := Option.bind_eq_some_iff.1 line
      obtain ⟨len, trimmed, same⟩ := Option.bind_eq_some_iff.1 line
      cases same
      simp only [← List.getElem?_drop]
      rcases trimItem_stop trimmed with rfl | ⟨c, here, blank⟩
      · rcases itemLength_stop length with zero | newline
        · exact .inl ⟨0, zero, rfl⟩
        · exact .inl ⟨0x0A, newline, rfl⟩
      · refine .inl ⟨c, here, ?_⟩
        rcases blank with rfl | rfl | rfl <;> rfl

theorem scanLine_start {useLetters : Bool} {expected moved : Nat} {p : Bytes}
    {choice : Choice} (line : scanLine useLetters expected p = some (some choice, moved)) :
    matchLine useLetters expected p = some (some choice.start) := by
  rw [scanLine] at line
  obtain ⟨item, matched, line⟩ := Option.bind_eq_some_iff.1 line
  cases item with
  | none =>
      obtain ⟨moved, skipped, same⟩ := Option.bind_eq_some_iff.1 line
      cases same
  | some start =>
      obtain ⟨stop, length, line⟩ := Option.bind_eq_some_iff.1 line
      obtain ⟨len, trimmed, same⟩ := Option.bind_eq_some_iff.1 line
      have first := congrArg Prod.fst (Option.some.inj same)
      simp only at first
      split at first
      next =>
        cases first
        exact matched
      next => cases first

namespace Uncut

variable {text : Bytes} {n : Nat}

theorem start (text : Bytes) : Uncut text 0 := by
  intro c last
  cases last

theorem step {useLetters : Bool} {expected moved : Nat} {taken : Option Choice}
    (line : scanLine useLetters expected (text.drop n) = some (taken, moved)) :
    Uncut text (n + moved) := by
  intro c last d first digit
  rcases scanLine_stop line with ⟨stop, here, other⟩ | ⟨k, rfl, newline⟩
  · rw [List.getElem?_drop] at here
    rw [List.head?_drop, here] at first
    exact Option.some.inj first ▸ other
  · rw [List.getElem?_drop] at newline
    have inside := (List.getElem?_eq_some_iff.1 newline).1
    rw [List.getLast?_eq_getElem?, List.length_take, ← Nat.add_assoc,
      Nat.min_eq_left inside, Nat.succ_sub_one, List.getElem?_take_of_lt (Nat.lt_succ_self _),
      newline] at last
    obtain rfl := Option.some.inj last
    cases digit

/-- The numeral in front of the option is the one that was read. -/
theorem numeralBefore {expected start : Nat} (uncut : Uncut text n)
    (memory : Memory (text.drop n))
    (matched : matchLine false expected (text.drop n) = some (some start)) :
    numeralBefore text (n + start) = lineNumeral (text.drop n) ∧
      UInt32.ofNat (denotes (lineNumeral (text.drop n))) = UInt32.ofNat expected := by
  obtain ⟨lead, mark, blank, spaces, rest, parts, lead_, marked, spaced, spaces_, some_, rfl,
    number⟩ := matchLine_numeral memory matched
  refine ⟨?_, number⟩
  have digits : ∀ c ∈ lineNumeral (text.drop n), digitByte c = true :=
    fun c member => List.mem_takeWhile_imp member
  have bound : (text.take n).length = n := by
    have positive := memory.length_pos
    rw [List.length_drop] at positive
    rw [List.length_take]
    omega
  have whole : text = (text.take n ++ lead) ++ (lineNumeral (text.drop n) ++
      mark :: blank :: (spaces ++ rest)) := by
    rw [List.append_assoc, ← parts, List.take_append_drop]
  have place : n + (lead.length + ((lineNumeral (text.drop n)).length + 2 + spaces.length)) =
      (text.take n ++ lead).length +
        ((lineNumeral (text.drop n)).length + 2 + spaces.length) := by
    rw [List.length_append, bound]
    exact (Nat.add_assoc _ _ _).symm
  have before : ∀ c ∈ (text.take n ++ lead).getLast?, digitByte c = false := by
    intro c last
    rcases List.eq_nil_or_concat' lead with rfl | ⟨lead, end_, rfl⟩
    · rw [List.append_nil] at last
      obtain ⟨d, digits', same⟩ := List.exists_cons_of_ne_nil some_
      have digit : digitByte d = true := digits d (same ▸ List.mem_cons_self)
      have first : d ∈ (text.drop n).head? := by
        rw [parts, same]
        rfl
      cases kind : digitByte c with
      | false => rfl
      | true =>
          have other := uncut c last d first kind
          rw [digit] at other
          cases other
    · rw [← List.append_assoc, List.getLast?_concat] at last
      exact lead_ c (Option.some.inj last ▸ List.mem_append_right _ (List.mem_singleton_self _))
  rw [place]
  calc FreeCli.numeralBefore text _
      = FreeCli.numeralBefore ((text.take n ++ lead) ++ (lineNumeral (text.drop n) ++
          mark :: blank :: (spaces ++ rest))) _ := by rw [← whole]
    _ = lineNumeral (text.drop n) := numeralBefore_eq marked spaced spaces_ digits before

end Uncut

/-- Small numbers are not confused with the number expected. -/
theorem denotes_of_wrapped {digits : Bytes} {expected : Nat} (small : expected ≤ intMax)
    (fits : denotes digits ≤ intMax)
    (wrapped : UInt32.ofNat (denotes digits) = UInt32.ofNat expected) :
    denotes digits = expected := by
  have words := congrArg UInt32.toNat wrapped
  have limit : intMax < UInt32.size := by decide
  rwa [UInt32.toNat_ofNat_of_lt' (fits.trans_lt limit),
    UInt32.toNat_ofNat_of_lt' (small.trans_lt limit)] at words

theorem Scanned.ended_of_map {α β : Type} {f : α → β} {scanned : Scanned α} {value : β}
    (same : scanned.map f = .ended value) : ∃ inner, scanned = .ended inner ∧ f inner = value := by
  cases scanned with
  | fault => cases same
  | running => cases same
  | ended inner =>
      cases same
      exact ⟨inner, rfl, rfl⟩

/-- If the numerals read are in range, the options of a pass have the numbers
expected of them. -/
theorem numbered_of_fits {text : Bytes} (memory : Memory text) {rounds n found : Nat}
    {choices : List Choice} (inside : n < text.length) (uncut : Uncut text n)
    (scan : scanChoices false rounds (text.drop n) n (found + 1) found = .ended choices)
    (fits : ∀ digits ∈ numeralsRead rounds (text.drop n) (found + 1) found,
      denotes digits ≤ intMax) :
    ∀ k choice, choices[k]? = some choice →
      denotes (numeralBefore text choice.start) = found + k + 1 := by
  induction rounds generalizing n found choices with
  | zero =>
      obtain ⟨c, rest, same⟩ := List.exists_cons_of_ne_nil
        (List.ne_nil_of_length_pos (memory.drop inside).length_pos)
      rw [same, scanChoices] at scan
      split at scan
      next =>
        cases scan
        rintro k choice here
        cases here
      next => cases scan
  | succ rounds ih =>
      have here := memory.drop inside
      obtain ⟨c, rest, same⟩ := List.exists_cons_of_ne_nil
        (List.ne_nil_of_length_pos here.length_pos)
      rw [same, scanChoices] at scan
      rw [same, numeralsRead] at fits
      split at scan
      next =>
        cases scan
        rintro k choice here
        cases here
      next goes =>
        rw [if_neg goes, ← same] at fits
        rw [← same] at scan
        have few : found < maxChoices := Nat.lt_of_not_le fun full => goes (.inr full)
        have more : (text.drop n).head? ≠ some 0 := by
          rw [same]
          exact fun zero => goes (.inl (Option.some.inj zero))
        obtain ⟨taken, moved, line, -, bound, -⟩ :=
          scanLine_inside here false (found + 1) few more
        rw [List.length_drop] at bound
        have inside' : n + moved < text.length := by omega
        rw [line] at scan fits
        have later := fun digits member => fits digits (List.mem_append_right _ member)
        cases taken with
        | none =>
            simp only [List.drop_drop] at scan later
            exact ih inside' (.step line) scan later
        | some choice =>
            simp only [List.drop_drop] at scan later
            obtain ⟨choices', scan', rfl⟩ := Scanned.ended_of_map scan
            rintro (_ | k) option at_
            · obtain rfl := Option.some.inj at_
              obtain ⟨before, number⟩ := uncut.numeralBefore here (scanLine_start line)
              have read := fits (lineNumeral (text.drop n))
                (List.mem_append_left _ List.mem_cons_self)
              have small : found + 1 ≤ intMax :=
                Nat.succ_le_of_lt (few.trans_le (by decide))
              rw [before]
              exact denotes_of_wrapped small read number
            · have next := ih inside' (.step line) scan' later k option at_
              omega

end FreeCli

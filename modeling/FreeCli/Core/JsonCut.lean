import FreeCli.Core.JsonReread

namespace FreeCli.JsonParse

open Words JsonText JsonPrint

/-! A text that ends too early: up to there, the bytes are those of the whole text, and
behind them is the terminator. -/

variable {front more : Bytes} {offset last : Nat} {byte : UInt8}

theorem bind_eq_ok {run : Except Stop α} {next : α → Except Stop β} {result : β}
    (ran : (run >>= next) = .ok result) : ∃ mid, run = .ok mid ∧ next mid = .ok result := by
  cases run with
  | ok mid => exact ⟨mid, rfl, ran⟩
  | error stop => contradiction

theorem getElem?_front (more : Bytes) (inside : offset < front.length) :
    (front ++ [0])[offset]? = (front ++ more)[offset]? := by
  rw [List.getElem?_append_left inside, List.getElem?_append_left inside]

theorem byteAt_front (more : Bytes) (inside : offset < front.length) :
    byteAt (front ++ [0]) offset = byteAt (front ++ more) offset := by
  rw [byteAt, byteAt, getElem?_front more inside]

theorem lt_front (found : (front ++ [0])[offset]? = some byte) (char : byte ≠ 0) :
    offset < front.length := by
  by_contra outside
  rw [List.getElem?_append_right (Nat.not_lt.1 outside), List.getElem?_singleton] at found
  split at found
  · exact char (Option.some.inj found).symm
  · contradiction

theorem lt_front_byteAt (here : byteAt (front ++ [0]) offset = .ok byte) (char : byte ≠ 0) :
    offset < front.length := by
  rw [byteAt] at here
  split at here
  next found =>
    rw [Except.ok.inj here] at found
    exact lt_front found char
  next => contradiction

theorem skipSpaces_front (more : Bytes) {front back : Bytes}
    (stopped : skipSpaces offset (front ++ back) < offset + front.length) :
    skipSpaces offset (front ++ more) = skipSpaces offset (front ++ back) := by
  induction front generalizing offset with
  | nil =>
      have bounds := (skipSpaces_bounds offset back).1
      rw [List.length_nil, List.nil_append] at stopped
      omega
  | cons byte front ih =>
      rw [List.cons_append, skipSpaces] at stopped ⊢
      rw [List.cons_append, skipSpaces]
      split
      next blank =>
        rw [if_pos blank, List.length_cons] at stopped
        exact ih (by omega)
      next => rfl

theorem bufferSkipWhitespace_min {content : Bytes} (inside : offset < content.length) :
    bufferSkipWhitespace content offset =
      min (skipSpaces offset (content.drop offset)) (content.length - 1) := by
  have bounds := skipSpaces_bounds offset (content.drop offset)
  rw [List.length_drop] at bounds
  rw [bufferSkipWhitespace, if_neg (Nat.not_le.2 inside)]
  simp only
  split <;> omega

theorem length_cut (front : Bytes) : (front ++ [0]).length = front.length + 1 := by
  rw [List.length_append, List.length_singleton]

theorem skip_le_front (inside : offset ≤ front.length) :
    bufferSkipWhitespace (front ++ [0]) offset ≤ front.length := by
  have below : bufferSkipWhitespace (front ++ [0]) offset < (front ++ [0]).length :=
    bufferSkipWhitespace_lt (by
      rw [length_cut]
      omega)
  rw [length_cut] at below
  omega

theorem skip_front (more : Bytes)
    (stopped : bufferSkipWhitespace (front ++ [0]) offset < front.length) :
    bufferSkipWhitespace (front ++ more) offset = bufferSkipWhitespace (front ++ [0]) offset := by
  have inside : offset < front.length :=
    (le_bufferSkipWhitespace (front ++ [0]) offset).trans_lt stopped
  have behind : ∀ more, (front ++ more).drop offset = front.drop offset ++ more := fun more =>
    List.drop_append_of_le_length (Nat.le_of_lt inside)
  rw [bufferSkipWhitespace_min (by rw [length_cut]; omega), behind, length_cut] at stopped
  have same : skipSpaces offset (front.drop offset ++ more) =
      skipSpaces offset (front.drop offset ++ [0]) := skipSpaces_front more (by
    rw [List.length_drop]
    omega)
  have within : offset < (front ++ more).length := by
    rw [List.length_append]
    omega
  rw [bufferSkipWhitespace_min within, bufferSkipWhitespace_min (by rw [length_cut]; omega), behind,
    behind, same, length_cut,
    List.length_append]
  omega

theorem skip_stops (found : front[bufferSkipWhitespace (front ++ [0]) offset]? = some byte)
    (other : numberChar byte = false) :
    ∃ first, front[offset]? = some first ∧ numberChar first = false := by
  have inside : offset < front.length :=
    (le_bufferSkipWhitespace (front ++ [0]) offset).trans_lt (lt_of_getElem? found)
  have here : At (front ++ [0]) offset (front[offset] :: (front.drop (offset + 1) ++ [0])) := by
    have there : At (front ++ [0]) offset ((front ++ [0]).drop offset) := at_drop (by
      rw [length_cut]
      omega)
    rwa [List.drop_append_of_le_length (Nat.le_of_lt inside), List.drop_eq_getElem_cons inside]
      at there
  refine ⟨front[offset], List.getElem?_eq_getElem inside, ?_⟩
  by_cases blank : front[offset] ≤ 32
  · exact numberChar_blank blank
  · rw [bufferSkipWhitespace_visible here (UInt8.not_le.1 blank),
      List.getElem?_eq_getElem inside] at found
    rw [Option.some.inj found]
    exact other

theorem findQuote_close (rest : Bytes) (passed skippedBytes : Nat) :
    findQuote passed skippedBytes (34 :: rest) = some (passed, skippedBytes) := by
  simp [findQuote.eq_def]

theorem findQuote_front (more front : Bytes) {passed skippedBytes : Nat} {found : Nat × Nat}
    (ran : findQuote passed skippedBytes (front ++ [0]) = some found) :
    findQuote passed skippedBytes (front ++ more) = some found ∧
      found.1 < passed + front.length := by
  match front with
  | [] =>
      rw [List.nil_append, findQuote_plain (by decide)] at ran
      contradiction
  | byte :: front =>
      rw [List.cons_append] at ran ⊢
      rw [List.length_cons]
      by_cases close : byte = 34
      · rw [close, findQuote_close] at ran ⊢
        rw [← Option.some.inj ran]
        exact ⟨rfl, by show passed < _; omega⟩
      · by_cases escape : byte = 92
        · match front with
          | [] =>
              rw [escape, List.nil_append, findQuote_pair] at ran
              contradiction
          | letter :: front =>
              rw [escape, List.cons_append, findQuote_pair] at ran ⊢
              obtain ⟨same, inside⟩ := findQuote_front more front ran
              rw [List.length_cons]
              exact ⟨same, by omega⟩
        · rw [findQuote_plain ⟨close, escape⟩] at ran ⊢
          obtain ⟨same, inside⟩ := findQuote_front more front ran
          exact ⟨same, by omega⟩

theorem parseHex4_front (more : Bytes) (inside : offset + 4 ≤ front.length) :
    parseHex4 (front ++ [0]) offset = parseHex4 (front ++ more) offset := by
  simp only [parseHex4, byteAt_front more (show offset < front.length by omega),
    byteAt_front more (show offset + 1 < front.length by omega),
    byteAt_front more (show offset + 2 < front.length by omega),
    byteAt_front more (show offset + 3 < front.length by omega)]

theorem utf16LiteralToUtf8_front (more : Bytes) {inputEnd : Nat}
    (inside : inputEnd ≤ front.length) :
    utf16LiteralToUtf8 (front ++ [0]) offset inputEnd =
      utf16LiteralToUtf8 (front ++ more) offset inputEnd := by
  rw [utf16LiteralToUtf8, utf16LiteralToUtf8]
  by_cases long : inputEnd < offset + 6
  · rw [if_pos long, if_pos long]
  · rw [if_neg long, if_neg long, parseHex4_front more (by omega)]
    refine bind_congr fun firstCode => ?_
    by_cases longer : inputEnd < offset + 6 + 6
    · simp only [if_pos longer]
    · simp only [if_neg longer,
        byteAt_front more (show offset + 6 < front.length by omega),
        byteAt_front more (show offset + 6 + 1 < front.length by omega),
        parseHex4_front more (show offset + 6 + 2 + 4 ≤ front.length by omega)]

theorem unescape_front (more : Bytes) {inputEnd size rounds : Nat} {output : Bytes}
    (inside : inputEnd < front.length) :
    unescape (front ++ [0]) inputEnd size rounds offset output =
      unescape (front ++ more) inputEnd size rounds offset output := by
  induction rounds generalizing offset output with
  | zero => rfl
  | succ rounds ih =>
      rw [unescape, unescape]
      by_cases more_ : offset < inputEnd
      · rw [if_pos more_, if_pos more_]
        simp only [ih, byteAt_front more (show offset < front.length by omega),
          byteAt_front more (show offset + 1 < front.length by omega),
          utf16LiteralToUtf8_front more (Nat.le_of_lt inside)]
      · rw [if_neg more_, if_neg more_]

theorem parseString_front (more : Bytes) {result : Bytes × Nat}
    (ran : parseString (front ++ [0]) offset = .ok result) :
    offset < result.2 ∧ result.2 ≤ front.length ∧
      parseString (front ++ more) offset = .ok result := by
  rw [parseString] at ran
  obtain ⟨byte, here, ran⟩ := bind_eq_ok ran
  split at ran
  next => contradiction
  next quote =>
    have quote : byte = 34 := by
      by_contra other
      exact quote other
    have inside : offset < front.length := lt_front_byteAt here (by rw [quote]; decide)
    have behind : ∀ more, (front ++ more).drop (offset + 1) = front.drop (offset + 1) ++ more :=
      fun more => List.drop_append_of_le_length inside
    rw [behind] at ran
    split at ran
    next => contradiction
    next passed skippedBytes found =>
      obtain ⟨same, within⟩ := findQuote_front more _ found
      rw [List.length_drop, Nat.zero_add] at within
      have within : passed < front.length - (offset + 1) := within
      obtain ⟨output, wrote, ran⟩ := bind_eq_ok ran
      obtain ⟨block, terminated, ran⟩ := bind_eq_ok ran
      rw [unescape_front more (by omega)] at wrote
      rw [← Except.ok.inj ran, parseString, ← byteAt_front more inside, here, ok_bind,
        if_neg (not_not.2 quote), behind, same]
      refine ⟨?_, ?_, ?_⟩
      · show offset < offset + 1 + passed + 1
        omega
      · show offset + 1 + passed + 1 ≤ front.length
        omega
      · simp only [wrote, ok_bind, terminated]

variable {lib : Doubles} {value whole : Nat → Except Stop (JsonItem lib × Nat)}

/-- An item that does not end with the front is the same in the whole text, unless a number
goes on there. -/
def Settles (front : Bytes) (value whole : Nat → Except Stop (JsonItem lib × Nat)) : Prop :=
  ∀ offset ≤ front.length, ∀ result, value offset = .ok result →
    offset < result.2 ∧ result.2 ≤ front.length ∧
      ∀ byte, front[result.2]? = some byte → numberChar byte = false → whole offset = .ok result

/-- With something visible behind it, an item is the same in the whole text. -/
theorem Settles.item (settles : Settles front value whole) (more : Bytes)
    (inside : offset ≤ front.length) {result : JsonItem lib × Nat}
    (ran : value (bufferSkipWhitespace (front ++ [0]) offset) = .ok result)
    (found : front[bufferSkipWhitespace (front ++ [0]) result.2]? = some byte)
    (other : numberChar byte = false) :
    offset < result.2 ∧ result.2 ≤ front.length ∧
      whole (bufferSkipWhitespace (front ++ more) offset) = .ok result ∧
      bufferSkipWhitespace (front ++ more) result.2 =
        bufferSkipWhitespace (front ++ [0]) result.2 := by
  obtain ⟨later, within, same⟩ := settles _ (skip_le_front inside) result ran
  obtain ⟨first, behind, stops⟩ := skip_stops found other
  have start := le_bufferSkipWhitespace (front ++ [0]) offset
  rw [skip_front more (by omega), skip_front more (lt_of_getElem? found)]
  exact ⟨by omega, within, same first behind stops, rfl⟩

theorem found_front (found : (front ++ [0])[offset]? = some byte) (char : byte ≠ 0) :
    front[offset]? = some byte := by
  rwa [List.getElem?_append_left (lt_front found char)] at found

theorem found_whole (more : Bytes) (found : front[offset]? = some byte) :
    (front ++ more)[offset]? = some byte := by
  rwa [List.getElem?_append_left (lt_of_getElem? found)]

theorem parseElements_front (more : Bytes) (settles : Settles front value whole)
    {rounds enough : Nat} (less : rounds ≤ enough) (inside : offset < front.length)
    {result : List (JsonItem lib) × Nat}
    (ran : parseElements (front ++ [0]) value rounds offset = .ok result)
    (close : front[result.2]? = some 93) :
    offset + 1 < result.2 ∧
      parseElements (front ++ more) whole enough offset = .ok result := by
  induction rounds generalizing enough offset result with
  | zero => contradiction
  | succ rounds ih =>
      obtain ⟨fewer, rfl⟩ : ∃ fewer, enough = fewer + 1 :=
        Nat.exists_eq_succ_of_ne_zero (by omega)
      rw [parseElements] at ran
      obtain ⟨⟨item, last⟩, read, ran⟩ := bind_eq_ok ran
      simp only at ran
      split at ran
      next comma =>
        obtain ⟨⟨items, end_⟩, rest, ran⟩ := bind_eq_ok ran
        have comma := found_front comma (by decide)
        obtain ⟨start, -, itself, skipped⟩ := settles.item more inside read comma (by decide)
        rw [← Except.ok.inj ran] at close ⊢
        obtain ⟨later, rest⟩ := ih (show rounds ≤ fewer by omega) (lt_of_getElem? comma) rest close
        have next := le_bufferSkipWhitespace (front ++ [0]) last
        refine ⟨by omega, ?_⟩
        rw [parseElements, itself, ok_bind]
        simp only
        rw [skipped, if_pos (found_whole more comma), rest, ok_bind]
      next other =>
        rw [← Except.ok.inj ran] at close ⊢
        obtain ⟨start, -, itself, skipped⟩ := settles.item more inside read close (by decide)
        have next := le_bufferSkipWhitespace (front ++ [0]) last
        refine ⟨start.trans_le next, ?_⟩
        rw [parseElements, itself, ok_bind]
        simp only
        rw [skipped, if_neg]
        rw [found_whole more close]
        decide

theorem parseArray_front (some_ : 0 < more.length) (settles : Settles front value whole)
    {result : JsonItem lib × Nat} (ran : parseArray (front ++ [0]) value offset = .ok result) :
    offset < result.2 ∧ result.2 ≤ front.length ∧
      parseArray (front ++ more) whole offset = .ok result := by
  rw [parseArray] at ran
  obtain ⟨byte, here, ran⟩ := bind_eq_ok ran
  split at ran
  next => contradiction
  next open_ =>
    have start : offset < front.length := lt_front_byteAt here (by
      rintro rfl
      exact open_ (by decide))
    have later := le_bufferSkipWhitespace (front ++ [0]) (offset + 1)
    have below : bufferSkipWhitespace (front ++ [0]) (offset + 1) ≤ front.length :=
      skip_le_front start
    rw [parseArray, ← byteAt_front more start, here, ok_bind, if_neg open_]
    simp only at ran ⊢
    split at ran
    next close =>
      have close := found_front close (by decide)
      have within := lt_of_getElem? close
      rw [← Except.ok.inj ran, skip_front more within, if_pos (found_whole more close)]
      refine ⟨?_, within, rfl⟩
      show offset < bufferSkipWhitespace (front ++ [0]) (offset + 1) + 1
      omega
    next open' =>
      split at ran
      next => contradiction
      next =>
        obtain ⟨⟨items, last⟩, elements, ran⟩ := bind_eq_ok ran
        simp only at ran
        split at ran
        next close =>
          have close := found_front close (by decide)
          have within := lt_of_getElem? close
          have lengths : (front ++ [0]).length ≤ (front ++ more).length := by
            rw [length_cut, List.length_append]
            omega
          obtain ⟨first, same⟩ := parseElements_front more settles lengths (by omega) elements close
          have first : bufferSkipWhitespace (front ++ [0]) (offset + 1) < last := by
            simp only at first
            omega
          have first_ : bufferSkipWhitespace (front ++ [0]) (offset + 1) < front.length := by
            omega
          rw [getElem?_front more first_] at open'
          rw [skip_front more first_, if_neg open',
            if_neg (by rw [List.length_append]; omega), same, ok_bind]
          simp only
          rw [if_pos (found_whole more close), ← Except.ok.inj ran]
          refine ⟨?_, within, rfl⟩
          show offset < last + 1
          omega
        next => contradiction

theorem parseMember_front (some_ : 0 < more.length) (settles : Settles front value whole)
    {result : (CString × JsonItem lib) × Nat}
    (ran : parseMember (front ++ [0]) value offset = .ok result)
    (found : front[result.2]? = some byte) (other : numberChar byte = false) :
    offset + 1 < result.2 ∧ parseMember (front ++ more) whole offset = .ok result := by
  have lengths : (front ++ [0]).length ≤ (front ++ more).length := by
    rw [length_cut, List.length_append]
    omega
  rw [parseMember] at ran
  split at ran
  next => contradiction
  next long =>
    obtain ⟨⟨name, behind⟩, key, ran⟩ := bind_eq_ok ran
    simp only at ran
    split at ran
    next => contradiction
    next colon =>
      have colon := found_front (not_not.1 colon) (by decide)
      obtain ⟨⟨item, last⟩, read, ran⟩ := bind_eq_ok ran
      rw [← Except.ok.inj ran] at found ⊢
      obtain ⟨later, within, same⟩ := parseString_front more key
      have start := le_bufferSkipWhitespace (front ++ [0]) (offset + 1)
      have middle := le_bufferSkipWhitespace (front ++ [0]) behind
      have end_ := le_bufferSkipWhitespace (front ++ [0]) last
      simp only at later within found
      obtain ⟨after, -, itself, skipped⟩ :=
        settles.item more (lt_of_getElem? colon) read found other
      simp only at after skipped
      refine ⟨by show offset + 1 < bufferSkipWhitespace (front ++ [0]) last; omega, ?_⟩
      rw [parseMember, if_neg (by omega), skip_front more (by omega), same, ok_bind]
      simp only
      rw [skip_front more (lt_of_getElem? colon), if_neg (not_not.2 (found_whole more colon)),
        itself, ok_bind]
      simp only [skipped]

theorem parseMembers_front (some_ : 0 < more.length) (settles : Settles front value whole)
    {rounds enough : Nat} (less : rounds ≤ enough)
    {result : List (CString × JsonItem lib) × Nat}
    (ran : parseMembers (front ++ [0]) value rounds offset = .ok result)
    (close : front[result.2]? = some 125) :
    offset + 1 < result.2 ∧
      parseMembers (front ++ more) whole enough offset = .ok result := by
  induction rounds generalizing enough offset result with
  | zero => contradiction
  | succ rounds ih =>
      obtain ⟨fewer, rfl⟩ : ∃ fewer, enough = fewer + 1 :=
        Nat.exists_eq_succ_of_ne_zero (by omega)
      rw [parseMembers] at ran
      obtain ⟨⟨member, last⟩, read, ran⟩ := bind_eq_ok ran
      simp only at ran
      split at ran
      next comma =>
        obtain ⟨⟨members, end_⟩, rest, ran⟩ := bind_eq_ok ran
        have comma := found_front comma (by decide)
        obtain ⟨start, itself⟩ :=
          parseMember_front some_ settles read comma (by decide)
        rw [← Except.ok.inj ran] at close ⊢
        obtain ⟨later, rest⟩ := ih (show rounds ≤ fewer by omega) rest close
        simp only at start later
        refine ⟨by show offset + 1 < end_; omega, ?_⟩
        rw [parseMembers, itself, ok_bind]
        simp only
        rw [if_pos (found_whole more comma), rest, ok_bind]
      next other =>
        rw [← Except.ok.inj ran] at close ⊢
        obtain ⟨start, itself⟩ :=
          parseMember_front some_ settles read close (by decide)
        refine ⟨start, ?_⟩
        rw [parseMembers, itself, ok_bind]
        simp only
        rw [if_neg]
        rw [found_whole more close]
        decide

theorem parseObject_front (some_ : 0 < more.length) (settles : Settles front value whole)
    {result : JsonItem lib × Nat} (ran : parseObject (front ++ [0]) value offset = .ok result) :
    offset < result.2 ∧ result.2 ≤ front.length ∧
      parseObject (front ++ more) whole offset = .ok result := by
  rw [parseObject] at ran
  split at ran
  next => contradiction
  next open_ =>
    have here := found_front (not_not.1 open_) (by decide)
    have start := lt_of_getElem? here
    have later := le_bufferSkipWhitespace (front ++ [0]) (offset + 1)
    have below : bufferSkipWhitespace (front ++ [0]) (offset + 1) ≤ front.length :=
      skip_le_front start
    rw [parseObject, if_neg (not_not.2 (found_whole more here))]
    simp only at ran ⊢
    split at ran
    next close =>
      have close := found_front close (by decide)
      have within := lt_of_getElem? close
      rw [← Except.ok.inj ran, skip_front more within, if_pos (found_whole more close)]
      refine ⟨?_, within, rfl⟩
      show offset < bufferSkipWhitespace (front ++ [0]) (offset + 1) + 1
      omega
    next open' =>
      split at ran
      next => contradiction
      next =>
        obtain ⟨⟨members, last⟩, read, ran⟩ := bind_eq_ok ran
        simp only at ran
        split at ran
        next close =>
          have close := found_front close (by decide)
          have within := lt_of_getElem? close
          have lengths : (front ++ [0]).length ≤ (front ++ more).length := by
            rw [length_cut, List.length_append]
            omega
          obtain ⟨first, same⟩ :=
            parseMembers_front some_ settles lengths read close
          have first : bufferSkipWhitespace (front ++ [0]) (offset + 1) < last := by
            simp only at first
            omega
          have first_ : bufferSkipWhitespace (front ++ [0]) (offset + 1) < front.length := by
            omega
          rw [getElem?_front more first_] at open'
          rw [skip_front more first_, if_neg open',
            if_neg (by rw [List.length_append]; omega), same, ok_bind]
          simp only
          rw [if_pos (found_whole more close), ← Except.ok.inj ran]
          refine ⟨?_, within, rfl⟩
          show offset < last + 1
          omega
        next => contradiction

theorem parseNumber_front (laws : lib.Lawful) (more : Bytes) (inside : offset ≤ front.length)
    {result : JsonItem lib × Nat} (ran : parseNumber (front ++ [0]) lib offset = .ok result) :
    offset < result.2 ∧ result.2 ≤ front.length ∧
      ∀ byte, front[result.2]? = some byte → numberChar byte = false →
        parseNumber (front ++ more) lib offset = .ok result := by
  have behind : ∀ more, (front ++ more).drop offset = front.drop offset ++ more := fun more =>
    List.drop_append_of_le_length inside
  have taken : (front.drop offset ++ [0]).takeWhile numberChar =
      (front.drop offset).takeWhile numberChar := by
    rw [List.takeWhile_append]
    split
    next whole =>
      have all : (front.drop offset).takeWhile numberChar = front.drop offset :=
        (List.takeWhile_prefix _).eq_of_length whole
      rw [all, show ([0] : Bytes).takeWhile numberChar = [] by decide, List.append_nil]
    next => rfl
  rw [parseNumber, behind, taken] at ran
  split at ran
  next => contradiction
  next number used read =>
    obtain ⟨some_, short⟩ := laws.strtod_inside _ _ _ read
    have starts := List.takeWhile_prefix (l := front.drop offset) numberChar
    have shorter := starts.length_le
    rw [List.length_drop] at shorter
    rw [← Except.ok.inj ran]
    refine ⟨by show offset < offset + used; omega, by show offset + used ≤ front.length; omega, ?_⟩
    intro byte found stops
    have found : (front.drop offset)[used]? = some byte := by
      rw [List.getElem?_drop]
      exact found
    -- the whole numeral is read
    have whole : used = ((front.drop offset).takeWhile numberChar).length := by
      by_contra other
      have less : used < ((front.drop offset).takeWhile numberChar).length := by omega
      have char := List.mem_takeWhile_imp (List.getElem_mem less)
      rw [List.getElem?_eq_getElem (lt_of_getElem? found), ← starts.getElem less] at found
      rw [Option.some.inj found, stops] at char
      contradiction
    have some_ := lt_of_getElem? found
    rw [parseNumber, behind, List.takeWhile_append, if_neg (by omega), read]

theorem find_words_at {content rest : Bytes} {word : Bytes × JsonItem lib} (member : word ∈ words)
    (here : At content offset (word.1 ++ rest)) :
    (words.find? fun word : Bytes × JsonItem lib => startsWith content offset word.1) =
      some word := by
  simp only [words, List.mem_cons, List.not_mem_nil, or_false] at member
  rcases member with rfl | rfl | rfl <;>
    (simp only [words, List.find?_cons, startsWith_at here]; rfl)

theorem nulFree_words {word : Bytes × JsonItem lib} (member : word ∈ words) : 0 ∉ word.1 := by
  simp only [words, List.mem_cons, List.not_mem_nil, or_false] at member
  rcases member with rfl | rfl | rfl
  · exact (by decide : 0 ∉ ascii "null")
  · exact (by decide : 0 ∉ ascii "false")
  · exact (by decide : 0 ∉ ascii "true")

theorem startsWith_front (more : Bytes) (inside : offset ≤ front.length) {word : Bytes}
    (nulFree : 0 ∉ word) (starts : startsWith (front ++ [0]) offset word = true) :
    offset + word.length ≤ front.length ∧ ∃ rest, At (front ++ more) offset (word ++ rest) := by
  have taken := of_decide_eq_true starts
  rw [List.drop_append_of_le_length inside] at taken
  have long : word.length ≤ (front.drop offset).length := by
    by_contra short
    apply nulFree
    rw [← taken, List.take_of_length_le (by
      rw [length_cut]
      omega)]
    exact List.mem_append_right _ (List.mem_singleton.2 rfl)
  rw [List.take_append_of_le_length long] at taken
  rw [List.length_drop] at long
  refine ⟨by omega, (front.drop offset).drop word.length ++ more, ?_⟩
  have there : At (front ++ more) offset ((front ++ more).drop offset) := at_drop (by
    rw [List.length_append]
    omega)
  rw [List.drop_append_of_le_length inside, ← List.take_append_drop word.length (front.drop offset),
    taken, List.append_assoc] at there
  exact there

theorem parseValue_front (laws : lib.Lawful) (some_ : 0 < more.length) (levels : Nat) :
    Settles front (parseValue (front ++ [0]) lib levels)
      (parseValue (front ++ more) lib levels) := by
  induction levels using Nat.strongRecOn with
  | ind levels ih =>
      intro offset inside result ran
      rw [parseValue.eq_def] at ran
      split at ran
      next word item found =>
        have member := List.mem_of_find?_eq_some found
        have starts : startsWith (front ++ [0]) offset word = true := by
          simpa using List.find?_some found
        have some_ := (words_flat member).1
        obtain ⟨within, rest, there⟩ :=
          startsWith_front more inside (nulFree_words member) starts
        have long := List.length_pos_iff.2 some_
        rw [← Except.ok.inj ran]
        refine ⟨Nat.lt_add_of_pos_right long, within, fun _ _ _ => ?_⟩
        exact parseValue_word (find_words_at member there)
      next =>
        split at ran
        next => contradiction
        next byte found =>
          have there : byte ≠ 0 → ∃ rest, At (front ++ more) offset (byte :: rest) := by
            intro char
            have start := lt_front found char
            refine ⟨(front ++ more).drop (offset + 1), ?_⟩
            have there : At (front ++ more) offset ((front ++ more).drop offset) := at_drop (by
              rw [List.length_append]
              omega)
            have seen := found_whole more (found_front found char)
            rw [List.drop_eq_getElem_cons (lt_of_getElem? seen)] at there
            rw [List.getElem?_eq_getElem (lt_of_getElem? seen)] at seen
            rwa [Option.some.inj seen] at there
          split at ran
          next quote =>
            obtain ⟨rest, here⟩ := there (by rw [quote]; decide)
            obtain ⟨⟨output, last⟩, read, ran⟩ := bind_eq_ok ran
            obtain ⟨later, within, same⟩ := parseString_front more read
            rw [← Except.ok.inj ran]
            refine ⟨later, within, fun _ _ _ => ?_⟩
            rw [parseValue.eq_def, find_words_none here (by rw [quote]; decide), getElem?_at here]
            simp only
            rw [if_pos quote, same, ok_bind]
          next unquoted =>
            split at ran
            next numeric =>
              have other : byte ≠ 110 ∧ byte ≠ 102 ∧ byte ≠ 116 ∧ byte ≠ 0 := by
                refine ⟨?_, ?_, ?_, ?_⟩ <;> rintro rfl <;> exact absurd numeric (by decide)
              obtain ⟨rest, here⟩ := there other.2.2.2
              obtain ⟨later, within, same⟩ := parseNumber_front laws more inside ran
              refine ⟨later, within, fun next behind stops => ?_⟩
              rw [parseValue.eq_def, find_words_none here ⟨other.1, other.2.1, other.2.2.1⟩,
                getElem?_at here]
              simp only
              rw [if_neg unquoted, if_pos numeric]
              exact same next behind stops
            next other =>
              split at ran
              next bracket =>
                obtain ⟨rest, here⟩ := there (by rw [bracket]; decide)
                split at ran
                next => contradiction
                next levels =>
                  obtain ⟨later, within, same⟩ :=
                    parseArray_front some_ (ih levels (Nat.lt_succ_self _)) ran
                  refine ⟨later, within, fun _ _ _ => ?_⟩
                  rw [parseValue.eq_def, find_words_none here (by rw [bracket]; decide),
                    getElem?_at here]
                  simp only
                  rw [if_neg unquoted, if_neg other, if_pos bracket]
                  exact same
              next unbracketed =>
                split at ran
                next brace =>
                  obtain ⟨rest, here⟩ := there (by rw [brace]; decide)
                  split at ran
                  next => contradiction
                  next levels =>
                    obtain ⟨later, within, same⟩ :=
                      parseObject_front some_ (ih levels (Nat.lt_succ_self _)) ran
                    refine ⟨later, within, fun _ _ _ => ?_⟩
                    rw [parseValue.eq_def, find_words_none here (by rw [brace]; decide),
                      getElem?_at here]
                    simp only
                    rw [if_neg unquoted, if_neg other, if_neg unbracketed, if_pos brace]
                    exact same
                next => contradiction

/-- An object that is cut short is not parsed. -/
theorem parse_front (laws : lib.Lawful) {fields : List (CString × JsonItem lib)} {format : Bool}
    (shallow : (JsonItem.object fields).depth ≤ nestingLimit) {value : CString} {back : Bytes}
    (split : (JsonItem.object fields).text format 0 = value.bytes ++ back) (short : back ≠ []) :
    parse lib value = .error .failed := by
  have lengths := congrArg List.length split
  have some_ := List.length_pos_iff.2 short
  rw [List.length_append] at lengths
  have whole : At (value.bytes ++ (back ++ [0])) 0
      ((JsonItem.object fields).text format 0 ++ [0]) := .start (by rw [split, List.append_assoc])
  -- the whole text ends with its closing bracket
  have read := parseObject_text laws
    (fun member inside => parseValue_text laws member.2 (nestingLimit - 1)
      ((JsonItem.depth_le_of_mem_members inside).trans (Nat.le_of_succ_le_succ shallow))) whole
  have outcome := parseWithLength_outcome laws (value.bytes ++ [0])
  cases ran : parseWithLength (value.bytes ++ [0]) lib with
  | error stop =>
      rw [ran] at outcome
      exact ran.trans (congrArg Except.error outcome)
  | ok item =>
      rw [parseWithLength, if_neg (by rw [length_cut]; omega)] at ran
      obtain ⟨⟨item, last⟩, ran, -⟩ := bind_eq_ok ran
      obtain ⟨rest, here⟩ : ∃ rest, At (value.bytes ++ [0]) 0 (123 :: rest) := by
        cases front : value.bytes with
        | nil =>
            rw [front] at ran
            contradiction
        | cons byte tail =>
            rw [front] at split
            obtain rfl : 123 = byte := (List.cons.inj split).1
            exact ⟨_, .start rfl⟩
      have bom : skipUtf8Bom (value.bytes ++ [0]) = 0 := by
        rw [skipUtf8Bom, startsWith_at here, if_neg]
        simp
      rw [bom, bufferSkipWhitespace_visible here (by decide), parseValue.eq_def,
        find_words_none here (by decide), getElem?_at here] at ran
      simp only at ran
      rw [if_neg (by decide), if_neg (by decide), if_neg (by decide), if_pos trivial] at ran
      have ran : parseObject (value.bytes ++ [0])
          (parseValue (value.bytes ++ [0]) lib (nestingLimit - 1)) 0 = .ok (item, last) := ran
      have cut : 0 < (back ++ [0]).length := by
        rw [length_cut]
        omega
      obtain ⟨-, within, same⟩ :=
        parseObject_front cut (parseValue_front laws cut (nestingLimit - 1)) ran
      have ends := congrArg (fun result => result.map Prod.snd) (same.symm.trans read)
      have ends : last = 0 + ((JsonItem.object fields).text format 0).length := Except.ok.inj ends
      simp only at within
      omega

end FreeCli.JsonParse

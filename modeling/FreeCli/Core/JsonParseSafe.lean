import FreeCli.Core.JsonParse
import FreeCli.Core.JsonPrintTree

namespace FreeCli.JsonParse

open Words JsonText JsonPrint

/-! Whatever the bytes are, parsing stays inside them and inside the blocks of the
strings, and it ends. -/

def Safe (run : Except Stop α) (post : α → Prop) : Prop :=
  match run with
  | .ok result => post result
  | .error stop => stop = .failed

namespace Safe

variable {run : Except Stop α} {post : α → Prop}

theorem of_ok {result : α} (ran : run = .ok result) (holds : post result) : Safe run post := by
  rw [ran]
  exact holds

theorem bind {mid : α → Prop} {post : β → Prop} {next : α → Except Stop β}
    (first : Safe run mid) (rest : ∀ result, mid result → Safe (next result) post) :
    Safe (run >>= next) post := by
  cases run with
  | ok result => exact rest result first
  | error stop => exact first

theorem mono {strong : α → Prop} (ran : Safe run strong)
    (implied : ∀ result, strong result → post result) : Safe run post := by
  cases run with
  | ok result => exact implied result ran
  | error stop => exact ran

theorem failed {post : α → Prop} : Safe (.error .failed) post := rfl

theorem ite {condition : Prop} [Decidable condition] {yes no : Except Stop α}
    (positive : condition → Safe yes post) (negative : ¬condition → Safe no post) :
    Safe (if condition then yes else no) post := by
  split
  next holds => exact positive holds
  next fails => exact negative fails

end Safe

variable {content : Bytes}

theorem ok_bind (result : α) (next : α → Except Stop β) :
    (Except.ok result >>= next) = next result := rfl

theorem byteAt_of_at {offset : Nat} {byte : UInt8} {rest : Bytes}
    (here : At content offset (byte :: rest)) : byteAt content offset = .ok byte := by
  rw [byteAt, show content[offset]? = some byte from here.readU8]

theorem safe_byteAt {offset : Nat} (inside : offset < content.length) :
    Safe (byteAt content offset) fun byte => content[offset]? = some byte := by
  rw [byteAt, List.getElem?_eq_getElem inside]
  rfl

theorem skipSpaces_bounds (offset : Nat) (rest : Bytes) :
    offset ≤ skipSpaces offset rest ∧ skipSpaces offset rest ≤ offset + rest.length := by
  induction rest generalizing offset with
  | nil => exact ⟨Nat.le_refl _, Nat.le_refl _⟩
  | cons byte rest ih =>
      rw [skipSpaces, List.length_cons]
      split
      · have bounds := ih (offset + 1)
        omega
      · omega

theorem le_bufferSkipWhitespace (content : Bytes) (offset : Nat) :
    offset ≤ bufferSkipWhitespace content offset := by
  have bounds := skipSpaces_bounds offset (content.drop offset)
  rw [bufferSkipWhitespace]
  split
  · exact Nat.le_refl _
  · simp only
    split <;> omega

theorem bufferSkipWhitespace_lt {offset : Nat} (inside : offset < content.length) :
    bufferSkipWhitespace content offset < content.length := by
  have bounds := skipSpaces_bounds offset (content.drop offset)
  rw [List.length_drop] at bounds
  rw [bufferSkipWhitespace, if_neg (Nat.not_le.2 inside)]
  simp only
  split <;> omega

theorem bufferSkipWhitespace_le {offset : Nat} (inside : offset ≤ content.length) :
    bufferSkipWhitespace content offset ≤ content.length := by
  rcases Nat.lt_or_eq_of_le inside with below | same
  · exact Nat.le_of_lt (bufferSkipWhitespace_lt below)
  · rw [bufferSkipWhitespace, if_pos (Nat.le_of_eq same.symm)]
    exact inside

/-- The bytes between two quotes, and how many characters and escapes they are. -/
inductive Quoted : Bytes → Nat → Prop where
  | nil : Quoted [] 0
  | char {byte : UInt8} {body : Bytes} {units : Nat} (plain : byte ≠ 92)
      (rest : Quoted body units) : Quoted (byte :: body) (units + 1)
  | escape (letter : UInt8) {body : Bytes} {units : Nat} (rest : Quoted body units) :
      Quoted (92 :: letter :: body) (units + 1)

theorem findQuote_quoted {rest : Bytes} {passed skippedBytes last skipped : Nat}
    (found : findQuote passed skippedBytes rest = some (last, skipped)) :
    ∃ body units behind, rest = body ++ 34 :: behind ∧ Quoted body units ∧
      last = passed + body.length ∧ skipped + units = skippedBytes + body.length := by
  fun_induction findQuote passed skippedBytes rest with
  | case1 => contradiction
  | case2 passed skippedBytes rest =>
      obtain ⟨rfl, rfl⟩ := Prod.mk.inj (Option.some.inj found)
      exact ⟨[], 0, rest, rfl, .nil, rfl, rfl⟩
  | case3 => contradiction
  | case4 passed skippedBytes letter rest other ih =>
      obtain ⟨body, units, behind, rfl, quoted, moved, counted⟩ := ih found
      refine ⟨92 :: letter :: body, units + 1, behind, rfl, quoted.escape letter, ?_, ?_⟩ <;>
        simp only [List.length_cons] <;> omega
  | case5 passed skippedBytes byte rest other plain ih =>
      obtain ⟨body, units, behind, rfl, quoted, moved, counted⟩ := ih found
      refine ⟨byte :: body, units + 1, behind, rfl, quoted.char plain, ?_, ?_⟩ <;>
        simp only [List.length_cons] <;> omega

/-- The bytes up to the closing quote, where the loop may stand behind the backslash of an
escape, and the bytes of output there is room for. -/
inductive Ahead : Bytes → Nat → Prop where
  | aligned {body : Bytes} {room : Nat} (quoted : Quoted body room) : Ahead body room
  | inside (letter : UInt8) {body : Bytes} {room : Nat} (quoted : Quoted body room) :
      Ahead (letter :: body) (room + 1)

namespace Ahead

variable {byte : UInt8} {body : Bytes} {room : Nat}

theorem plain (ahead : Ahead (byte :: body) room) (other : byte ≠ 92) :
    ∃ left, Ahead body left ∧ left + 1 ≤ room := by
  cases ahead with
  | aligned quoted =>
      cases quoted with
      | char _ rest => exact ⟨_, .aligned rest, Nat.le_refl _⟩
      | escape letter rest => exact absurd rfl other
  | inside _ quoted => exact ⟨_, .aligned quoted, Nat.le_refl _⟩

theorem pair {letter : UInt8} (ahead : Ahead (92 :: letter :: body) room) :
    ∃ left, Ahead body left ∧ left + 1 ≤ room := by
  cases ahead with
  | aligned quoted =>
      cases quoted with
      | char other _ => exact absurd rfl other
      | escape letter rest => exact ⟨_, .aligned rest, Nat.le_refl _⟩
  | inside _ quoted =>
      cases quoted with
      | char _ rest => exact ⟨_, .aligned rest, Nat.le_succ _⟩
      | escape letter rest => exact ⟨_, .inside letter rest, Nat.le_refl _⟩

theorem last (ahead : Ahead [92] room) : 1 ≤ room := by
  cases ahead with
  | aligned quoted =>
      cases quoted with
      | char other _ => exact absurd rfl other
  | inside _ quoted => exact Nat.succ_le_succ (Nat.zero_le _)

theorem tail (ahead : Ahead (byte :: body) room) : ∃ left, Ahead body left ∧ left ≤ room := by
  cases ahead with
  | aligned quoted =>
      cases quoted with
      | char _ rest => exact ⟨_, .aligned rest, Nat.le_succ _⟩
      | escape letter rest => exact ⟨_, .inside letter rest, Nat.le_refl _⟩
  | inside _ quoted => exact ⟨_, .aligned quoted, Nat.le_succ _⟩

end Ahead

theorem hexNibble_lt {byte : UInt8} {nibble : Nat} (digit : hexNibble byte = some nibble) :
    nibble < 16 ∧ byte ≠ 92 := by
  rw [hexNibble] at digit
  constructor
  · split at digit
    next decimal =>
      rw [isDigit, Bool.and_eq_true, decide_eq_true_eq, decide_eq_true_eq] at decimal
      have same := Option.some.inj digit
      omega
    next =>
      split at digit
      · have same := Option.some.inj digit
        omega
      · split at digit
        · have same := Option.some.inj digit
          omega
        · contradiction
  · rintro rfl
    contradiction

theorem parseHex4_at {offset : Nat} {a b c d : UInt8} {rest : Bytes}
    (here : At content offset (a :: b :: c :: d :: rest)) :
    parseHex4 content offset = .ok 0 ∨
      ∃ code < 0x10000, parseHex4 content offset = .ok code ∧
        a ≠ 92 ∧ b ≠ 92 ∧ c ≠ 92 ∧ d ≠ 92 := by
  have read : ∀ {next : UInt8 → Except Stop Nat} {byte : UInt8} {offset : Nat},
      byteAt content offset = .ok byte → (byteAt content offset >>= next) = next byte := by
    intro next byte offset same
    rw [same]
    rfl
  rw [parseHex4, read (byteAt_of_at here)]
  cases first : hexNibble a with
  | none => exact .inl rfl
  | some w =>
      simp only [read (byteAt_of_at here.skip8)]
      cases second : hexNibble b with
      | none => exact .inl rfl
      | some x =>
          simp only [read (byteAt_of_at here.skip8.skip8)]
          cases third : hexNibble c with
          | none => exact .inl rfl
          | some y =>
              simp only [read (byteAt_of_at here.skip8.skip8.skip8)]
              cases fourth : hexNibble d with
              | none => exact .inl rfl
              | some z =>
                  have one := hexNibble_lt first
                  have two := hexNibble_lt second
                  have three := hexNibble_lt third
                  have four := hexNibble_lt fourth
                  exact .inr ⟨_, by omega, rfl, one.2, two.2, three.2, four.2⟩

theorem length_encodeUtf8 (codepoint : Nat) :
    (encodeUtf8 codepoint).length ≤ 4 ∧
      (codepoint < 0x10000 → (encodeUtf8 codepoint).length ≤ 3) := by
  simp only [encodeUtf8]
  split
  · simp
  · split
    · simp
    · split
      · simp
      next large => exact ⟨Nat.le_refl 4, fun small => absurd small large⟩

/-- What the loop has gone through of the bytes up to the closing quote, and what it may
still write. -/
def Goes (body : Bytes) (room : Nat) (taken : Nat) (bytes : Bytes) : Prop :=
  ∃ front rest left, body = front ++ rest ∧ front.length = taken ∧ 0 < taken ∧
    Ahead rest left ∧ bytes.length + left ≤ room

theorem Ahead.four {a b c d : UInt8} {body : Bytes} {room : Nat}
    (ahead : Ahead (a :: b :: c :: d :: body) room) : ∃ left, Ahead body left ∧ left ≤ room := by
  obtain ⟨_, ahead, one⟩ := ahead.tail
  obtain ⟨_, ahead, two⟩ := ahead.tail
  obtain ⟨_, ahead, three⟩ := ahead.tail
  obtain ⟨left, ahead, four⟩ := ahead.tail
  exact ⟨left, ahead, by omega⟩

theorem Ahead.digits {a b c d : UInt8} {body : Bytes} {room : Nat}
    (ahead : Ahead (a :: b :: c :: d :: body) room)
    (plain : a ≠ 92 ∧ b ≠ 92 ∧ c ≠ 92 ∧ d ≠ 92) :
    ∃ left, Ahead body left ∧ left + 4 ≤ room := by
  obtain ⟨_, ahead, one⟩ := ahead.plain plain.1
  obtain ⟨_, ahead, two⟩ := ahead.plain plain.2.1
  obtain ⟨_, ahead, three⟩ := ahead.plain plain.2.2.1
  obtain ⟨left, ahead, four⟩ := ahead.plain plain.2.2.2
  exact ⟨left, ahead, by omega⟩

theorem exists_four {body : Bytes} (long : 4 ≤ body.length) :
    ∃ a b c d rest, body = a :: b :: c :: d :: rest := by
  match body, long with
  | a :: b :: c :: d :: rest, _ => exact ⟨a, b, c, d, rest, rfl⟩

theorem utf16LiteralToUtf8_safe {input inputEnd room : Nat} {body behind : Bytes}
    (here : At content input (92 :: 117 :: body ++ behind))
    (ends : inputEnd = input + 2 + body.length) (ahead : Ahead (92 :: 117 :: body) room) :
    Safe (utf16LiteralToUtf8 content input inputEnd) fun result =>
      Goes (92 :: 117 :: body) room result.1 result.2 := by
  rw [utf16LiteralToUtf8]
  apply Safe.ite (fun _ => Safe.failed) fun long => ?_
  obtain ⟨a, b, c, d, rest, rfl⟩ := exists_four (show 4 ≤ body.length by omega)
  obtain ⟨left, ahead, one⟩ := ahead.pair
  have digits := parseHex4_at (show At content _ (a :: b :: c :: d :: (rest ++ behind)) from
    here.skip8.skip8)
  simp only [List.length_cons] at ends long
  rcases digits with zero | ⟨code, small, read, plain⟩
  · rw [zero]
    obtain ⟨left, ahead, four⟩ := ahead.four
    exact ⟨[92, 117, a, b, c, d], rest, left, rfl, rfl, Nat.zero_lt_succ _, ahead, by
      show 1 + left ≤ room
      omega⟩
  · rw [read]
    obtain ⟨left, ahead, four⟩ := ahead.digits plain
    show Safe (if 0xDC00 ≤ code ∧ code ≤ 0xDFFF then .error .failed else _) _
    apply Safe.ite (fun _ => Safe.failed) fun notLow => ?_
    apply Safe.ite
    · intro high
      apply Safe.ite (fun _ => Safe.failed) fun longer => ?_
      obtain ⟨e, f, g, h, more, rfl⟩ := exists_four (show 4 ≤ rest.length by omega)
      have there : At content (input + 6) (e :: f :: g :: h :: more ++ behind) :=
        here.skip8.skip8.skip8.skip8.skip8.skip8
      rw [byteAt_of_at there, byteAt_of_at there.skip8]
      show Safe (if e ≠ 92 ∨ f ≠ 117 then .error .failed else _) _
      apply Safe.ite (fun _ => Safe.failed) fun pair => ?_
      obtain ⟨rfl, rfl⟩ : e = 92 ∧ f = 117 := by
        constructor
        · by_contra other
          exact pair (.inl other)
        · by_contra other
          exact pair (.inr other)
      simp only [List.length_cons] at ends longer
      obtain ⟨i, j, rest, rfl⟩ : ∃ i j rest, more = i :: j :: rest := by
        match more, (show 2 ≤ more.length by omega) with
        | i :: j :: rest, _ => exact ⟨i, j, rest, rfl⟩
      obtain ⟨left, ahead, five⟩ := ahead.pair
      have digits := parseHex4_at (show At content _ (g :: h :: i :: j :: (rest ++ behind)) from
        there.skip8.skip8)
      rcases digits with zero | ⟨low, small, read, plain⟩
      · rw [zero]
        exact rfl
      · rw [read]
        obtain ⟨left, ahead, nine⟩ := ahead.digits plain
        show Safe (if low < 0xDC00 ∨ 0xDFFF < low then .error .failed else _) _
        apply Safe.ite (fun _ => Safe.failed) fun isLow => ?_
        refine ⟨[92, 117, a, b, c, d, 92, 117, g, h, i, j], rest, left, rfl, rfl,
          Nat.zero_lt_succ _, ahead, ?_⟩
        have bytes := (length_encodeUtf8
          (0x10000 + (code % 0x400 * 0x400 + low % 0x400))).1
        show (encodeUtf8 _).length + left ≤ room
        omega
    · intro notHigh
      refine ⟨[92, 117, a, b, c, d], rest, left, rfl, rfl, Nat.zero_lt_succ _, ahead, ?_⟩
      have bytes := (length_encodeUtf8 code).2 small
      show (encodeUtf8 code).length + left ≤ room
      omega

theorem emit_room {size : Nat} {output bytes : Bytes}
    (room : output.length + bytes.length ≤ size) : emit size output bytes = .ok (output ++ bytes) :=
  if_pos room

theorem unescape_done {inputEnd size rounds input : Nat} {output : Bytes}
    (done : ¬input < inputEnd) :
    unescape content inputEnd size rounds input output = .ok output := by
  cases rounds with
  | zero => rw [unescape, if_neg done]
  | succ rounds => rw [unescape, if_neg done]

/-- The loop never writes more than there is room for behind the output, and leaves one
byte for the terminator. -/
theorem unescape_safe {inputEnd size rounds input room : Nat} {output body behind : Bytes}
    (here : At content input (body ++ 34 :: behind)) (ends : inputEnd = input + body.length)
    (ahead : Ahead body room) (fits : output.length + room + 1 ≤ size)
    (enough : body.length ≤ rounds) :
    Safe (unescape content inputEnd size rounds input output) fun last =>
      last.length + 1 ≤ size := by
  induction rounds generalizing input room output body with
  | zero =>
      rw [unescape, if_neg (by omega)]
      show output.length + 1 ≤ size
      omega
  | succ rounds ih =>
      rw [unescape]
      apply Safe.ite
      · intro more
        cases body with
        | nil =>
            simp only [List.length_nil] at ends
            omega
        | cons byte body =>
            simp only [List.length_cons] at ends enough
            rw [byteAt_of_at here]
            show Safe (if byte ≠ 92 then _ else _) _
            apply Safe.ite
            · intro plain
              obtain ⟨left, ahead, one⟩ := ahead.plain plain
              have wrote : output.length + [byte].length ≤ size := by
                rw [List.length_singleton]
                omega
              rw [emit_room wrote]
              apply ih here.skip8 (by omega) ahead _ (by omega)
              rw [List.length_append, List.length_singleton]
              omega
            · intro escape
              obtain rfl : byte = 92 := by
                by_contra other
                exact escape other
              cases body with
              | nil =>
                  -- the closing quote is taken for the letter
                  have one := ahead.last
                  rw [byteAt_of_at here.skip8]
                  have wrote : output.length + ([34] : Bytes).length ≤ size := by
                    rw [List.length_singleton]
                    omega
                  show Safe (emit size output [34] >>= _) _
                  rw [emit_room wrote]
                  show Safe (unescape content inputEnd size rounds (input + 2) _) _
                  rw [unescape_done (by simp only [List.length_nil] at ends; omega)]
                  show (output ++ [34]).length + 1 ≤ size
                  rw [List.length_append, List.length_singleton]
                  omega
              | cons letter body =>
                  simp only [List.length_cons] at ends enough
                  rw [byteAt_of_at here.skip8, ok_bind]
                  cases letters.find? fun pair => pair.1 = letter with
                  | some pair =>
                      obtain ⟨left, ahead, one⟩ := ahead.pair
                      have wrote : output.length + [pair.2].length ≤ size := by
                        rw [List.length_singleton]
                        omega
                      show Safe (emit size output [pair.2] >>= _) _
                      rw [emit_room wrote]
                      apply ih here.skip8.skip8 (by omega) ahead _ (by omega)
                      rw [List.length_append, List.length_singleton]
                      omega
                  | none =>
                      apply Safe.ite _ fun _ => Safe.failed
                      rintro rfl
                      have safe : Safe (utf16LiteralToUtf8 content input inputEnd) _ :=
                        utf16LiteralToUtf8_safe here (by omega) ahead
                      refine safe.bind fun ⟨taken, bytes⟩ goes => ?_
                      obtain ⟨front, rest, left, same, length, some_, ahead, fewer⟩ := goes
                      have fewer : bytes.length + left ≤ room := fewer
                      have lengths := congrArg List.length same
                      simp only [List.length_cons, List.length_append] at lengths
                      show Safe (emit size output bytes >>= _) _
                      rw [emit_room (by omega)]
                      rw [same, List.append_assoc] at here
                      have there := here.skip
                      rw [length] at there
                      apply ih there (by omega) ahead _ (by omega)
                      rw [List.length_append]
                      omega
      · intro _
        show output.length + 1 ≤ size
        omega

theorem at_drop {offset : Nat} (inside : offset ≤ content.length) :
    At content offset (content.drop offset) :=
  ⟨content.take offset, List.take_append_drop _ _, by
    rw [List.length_take]
    omega⟩

theorem parseString_safe {offset : Nat} (inside : offset < content.length) :
    Safe (parseString content offset) fun result =>
      offset < result.2 ∧ result.2 ≤ content.length := by
  rw [parseString]
  refine (safe_byteAt inside).bind fun byte _ => ?_
  apply Safe.ite (fun _ => Safe.failed) fun _ => ?_
  cases found : findQuote 0 0 (content.drop (offset + 1)) with
  | none => exact rfl
  | some result =>
      obtain ⟨passed, skippedBytes⟩ := result
      obtain ⟨body, units, behind, same, quoted, moved, counted⟩ := findQuote_quoted found
      have here : At content (offset + 1) (content.drop (offset + 1)) := at_drop inside
      have length := here.length_eq
      rw [same] at here length
      rw [List.length_append, List.length_cons] at length
      rw [Nat.zero_add] at moved counted
      have room : offset + 1 + passed - offset - skippedBytes = units + 1 := by omega
      have fits : ([] : Bytes).length + units + 1 ≤
          offset + 1 + passed - offset - skippedBytes + 1 := by
        rw [room, List.length_nil]
        omega
      have safe := unescape_safe here rfl (.aligned quoted) fits (Nat.le_of_eq moved.symm)
      rw [← moved] at safe
      refine safe.bind fun output fits => ?_
      rw [emit_room (by rw [List.length_singleton]; exact fits)]
      show offset < offset + 1 + passed + 1 ∧ offset + 1 + passed + 1 ≤ content.length
      omega

variable {lib : Doubles} {levels : Nat}

/-- Items are read inside the content, end behind their start, and are not nested deeper
than there are levels. -/
def Parser (content : Bytes) (levels : Nat)
    (value : Nat → Except Stop (JsonItem lib × Nat)) : Prop :=
  ∀ offset ≤ content.length, Safe (value offset) fun result =>
    offset < result.2 ∧ result.2 ≤ content.length ∧ result.1.depth ≤ levels

theorem lt_of_getElem? {index : Nat} {byte : UInt8} (found : content[index]? = some byte) :
    index < content.length := by
  by_contra outside
  rw [List.getElem?_eq_none (Nat.not_lt.1 outside)] at found
  contradiction

theorem parseElements_safe {value : Nat → Except Stop (JsonItem lib × Nat)}
    (reads : Parser content levels value) {rounds offset : Nat}
    (inside : offset + 1 ≤ content.length) (enough : content.length ≤ offset + rounds) :
    Safe (parseElements content value rounds offset) fun result =>
      offset < result.2 ∧ result.2 ≤ content.length ∧ JsonItem.depthElements result.1 ≤ levels := by
  induction rounds generalizing offset with
  | zero => omega
  | succ rounds ih =>
      rw [parseElements]
      have start := le_bufferSkipWhitespace content (offset + 1)
      refine (reads _ (bufferSkipWhitespace_le inside)).bind
        fun ⟨item, last⟩ ⟨later, within, deep⟩ => ?_
      have next := le_bufferSkipWhitespace content last
      have bound := bufferSkipWhitespace_le within
      simp only at later within deep
      apply Safe.ite
      · intro comma
        refine (ih (lt_of_getElem? comma) (by omega)).bind
          fun ⟨items, last⟩ ⟨later, within, deeper⟩ => ?_
        simp only at later within deeper
        exact ⟨by show offset < last; omega, within, Nat.max_le.2 ⟨deep, deeper⟩⟩
      · intro _
        refine ⟨?_, bound, Nat.max_le.2 ⟨deep, Nat.zero_le _⟩⟩
        show offset < bufferSkipWhitespace content last
        omega

theorem parseArray_safe {value : Nat → Except Stop (JsonItem lib × Nat)}
    (reads : Parser content levels value) {offset : Nat} (inside : offset < content.length) :
    Safe (parseArray content value offset) fun result =>
      offset < result.2 ∧ result.2 ≤ content.length ∧ result.1.depth ≤ levels + 1 := by
  rw [parseArray]
  refine (safe_byteAt inside).bind fun byte _ => ?_
  apply Safe.ite (fun _ => Safe.failed) fun _ => ?_
  have start := le_bufferSkipWhitespace content (offset + 1)
  apply Safe.ite
  · intro close
    have within := lt_of_getElem? close
    refine ⟨?_, within, Nat.succ_le_succ (Nat.zero_le _)⟩
    show offset < bufferSkipWhitespace content (offset + 1) + 1
    omega
  · intro _
    apply Safe.ite (fun _ => Safe.failed) fun more => ?_
    refine (parseElements_safe reads (by omega) (by omega)).bind
      fun ⟨items, last⟩ ⟨later, within, deep⟩ => ?_
    simp only at later within deep
    apply Safe.ite _ fun _ => Safe.failed
    intro close
    refine ⟨?_, lt_of_getElem? close, Nat.succ_le_succ deep⟩
    show offset < last + 1
    omega

theorem parseMember_safe {value : Nat → Except Stop (JsonItem lib × Nat)}
    (reads : Parser content levels value) (offset : Nat) :
    Safe (parseMember content value offset) fun result =>
      offset + 1 < result.2 ∧ result.2 ≤ content.length ∧ result.1.2.depth ≤ levels := by
  rw [parseMember]
  apply Safe.ite (fun _ => Safe.failed) fun more => ?_
  have start := le_bufferSkipWhitespace content (offset + 1)
  refine (parseString_safe (bufferSkipWhitespace_lt (by omega))).bind
    fun ⟨name, last⟩ ⟨later, within⟩ => ?_
  simp only at later within
  have next := le_bufferSkipWhitespace content last
  apply Safe.ite (fun _ => Safe.failed) fun colon => ?_
  have colon : content[bufferSkipWhitespace content last]? = some 58 := by
    by_contra other
    exact colon other
  have behind := lt_of_getElem? colon
  have value_ := le_bufferSkipWhitespace content
    (bufferSkipWhitespace content last + 1)
  have more : bufferSkipWhitespace content last + 1 ≤ content.length := behind
  refine (reads _ (bufferSkipWhitespace_le more)).bind
    fun ⟨item, final⟩ ⟨later, within, deep⟩ => ?_
  simp only at later within deep
  refine ⟨?_, bufferSkipWhitespace_le within, deep⟩
  have ends := le_bufferSkipWhitespace content final
  show offset + 1 < bufferSkipWhitespace content final
  omega

theorem parseMembers_safe {value : Nat → Except Stop (JsonItem lib × Nat)}
    (reads : Parser content levels value) {rounds offset : Nat}
    (inside : offset < content.length) (enough : content.length ≤ offset + rounds) :
    Safe (parseMembers content value rounds offset) fun result =>
      offset < result.2 ∧ result.2 ≤ content.length ∧ JsonItem.depthMembers result.1 ≤ levels := by
  induction rounds generalizing offset with
  | zero => omega
  | succ rounds ih =>
      rw [parseMembers]
      refine (parseMember_safe reads offset).bind
        fun ⟨⟨key, item⟩, last⟩ ⟨later, within, deep⟩ => ?_
      simp only at later within deep
      apply Safe.ite
      · intro comma
        refine (ih (lt_of_getElem? comma) (by omega)).bind
          fun ⟨members, last⟩ ⟨later, within, deeper⟩ => ?_
        simp only at later within deeper
        exact ⟨by show offset < last; omega, within, Nat.max_le.2 ⟨deep, deeper⟩⟩
      · intro _
        exact ⟨by show offset < last; omega, within, Nat.max_le.2 ⟨deep, Nat.zero_le _⟩⟩

theorem parseObject_safe {value : Nat → Except Stop (JsonItem lib × Nat)}
    (reads : Parser content levels value) (offset : Nat) :
    Safe (parseObject content value offset) fun result =>
      offset < result.2 ∧ result.2 ≤ content.length ∧ result.1.depth ≤ levels + 1 := by
  rw [parseObject]
  apply Safe.ite (fun _ => Safe.failed) fun _ => ?_
  have start := le_bufferSkipWhitespace content (offset + 1)
  apply Safe.ite
  · intro close
    have within := lt_of_getElem? close
    refine ⟨?_, within, Nat.succ_le_succ (Nat.zero_le _)⟩
    show offset < bufferSkipWhitespace content (offset + 1) + 1
    omega
  · intro _
    apply Safe.ite (fun _ => Safe.failed) fun more => ?_
    refine (parseMembers_safe reads (by omega) (by omega)).bind
      fun ⟨members, last⟩ ⟨later, within, deep⟩ => ?_
    simp only at later within deep
    apply Safe.ite _ fun _ => Safe.failed
    intro close
    refine ⟨?_, lt_of_getElem? close, Nat.succ_le_succ deep⟩
    show offset < last + 1
    omega

theorem parseNumber_safe (laws : lib.Lawful) (offset : Nat) :
    Safe (parseNumber content lib offset) fun result =>
      offset < result.2 ∧ result.2 ≤ content.length ∧ result.1.depth = 0 := by
  rw [parseNumber]
  cases read : lib.strtod ((content.drop offset).takeWhile numberChar) with
  | none => exact rfl
  | some result =>
      obtain ⟨number, used⟩ := result
      have bounds := laws.strtod_inside _ _ _ read
      have shorter := (List.takeWhile_sublist numberChar (l := content.drop offset)).length_le
      rw [List.length_drop] at shorter
      exact ⟨by show offset < offset + used; omega,
        by show offset + used ≤ content.length; omega, rfl⟩

theorem startsWith_inside {offset : Nat} {word : Bytes} (some_ : word ≠ [])
    (found : startsWith content offset word = true) :
    offset < offset + word.length ∧ offset + word.length ≤ content.length := by
  have lengths := congrArg List.length (of_decide_eq_true found)
  have some_ := List.length_pos_iff.2 some_
  rw [List.length_take, List.length_drop] at lengths
  omega

theorem words_flat {word : Bytes × JsonItem lib} (member : word ∈ words) :
    word.1 ≠ [] ∧ word.2.depth = 0 := by
  simp only [words, List.mem_cons, List.not_mem_nil, or_false] at member
  rcases member with rfl | rfl | rfl
  · exact ⟨List.cons_ne_nil _ _, rfl⟩
  · exact ⟨List.cons_ne_nil _ _, rfl⟩
  · exact ⟨List.cons_ne_nil _ _, rfl⟩

theorem parseValue_safe (laws : lib.Lawful) (levels : Nat) :
    Parser content levels (parseValue content lib levels) := by
  induction levels using Nat.strongRecOn with
  | ind levels ih =>
      intro offset inside
      rw [parseValue.eq_def]
      cases found : words.find? fun word : Bytes × JsonItem lib =>
          startsWith content offset word.1 with
      | some word =>
          obtain ⟨some_, flat⟩ := words_flat (List.mem_of_find?_eq_some found)
          have starts : startsWith content offset word.1 = true := by
            simpa using List.find?_some found
          have bounds := startsWith_inside some_ starts
          exact ⟨bounds.1, bounds.2, by show word.2.depth ≤ levels; omega⟩
      | none =>
          cases here : content[offset]? with
          | none => exact rfl
          | some byte =>
              have below := lt_of_getElem? here
              simp only
              apply Safe.ite
              · intro _
                refine (parseString_safe below).bind fun ⟨output, last⟩ ⟨later, within⟩ => ?_
                exact ⟨later, within, Nat.zero_le _⟩
              · intro _
                apply Safe.ite
                · intro _
                  exact (parseNumber_safe laws offset).mono fun result ⟨later, within, flat⟩ =>
                    ⟨later, within, by omega⟩
                · intro _
                  apply Safe.ite
                  · intro _
                    cases levels with
                    | zero => exact rfl
                    | succ levels =>
                        exact parseArray_safe (ih levels (Nat.lt_succ_self _)) below
                  · intro _
                    apply Safe.ite _ fun _ => Safe.failed
                    intro _
                    cases levels with
                    | zero => exact rfl
                    | succ levels =>
                        exact parseObject_safe (ih levels (Nat.lt_succ_self _)) offset

theorem parseWithLength_outcome (laws : lib.Lawful) (content : Bytes) :
    match (parseWithLength content lib : Except Stop (JsonItem lib)) with
    | .ok item => item.depth ≤ nestingLimit
    | .error stop => stop = .failed := by
  rw [parseWithLength]
  split_ifs
  · rfl
  · have start : skipUtf8Bom content ≤ content.length := by
      rw [skipUtf8Bom]
      split
      next bom => omega
      next => exact Nat.zero_le _
    have safe := parseValue_safe laws nestingLimit _ (bufferSkipWhitespace_le start)
    cases ran : parseValue content lib nestingLimit
        (bufferSkipWhitespace content (skipUtf8Bom content)) with
    | ok result =>
        rw [ran] at safe
        exact safe.2.2
    | error stop =>
        rw [ran] at safe
        exact safe

/-- Any bytes are parsed or rejected without a read outside of them or a write outside of a
block, and what is accepted is not nested too deep to be printed. -/
theorem parseWithLength_safe (laws : lib.Lawful) (content : Bytes) :
    (∃ item : JsonItem lib, parseWithLength content lib = .ok item ∧ item.depth ≤ nestingLimit) ∨
      parseWithLength content lib = .error .failed := by
  have outcome := parseWithLength_outcome laws content
  cases ran : parseWithLength content lib with
  | ok item =>
      rw [ran] at outcome
      exact .inl ⟨item, rfl, outcome⟩
  | error stop =>
      rw [ran] at outcome
      exact .inr (congrArg Except.error outcome)

/-- The backslash of an escape that is no longer aligned takes the closing quote with it. -/
theorem parseWithLength_safe_misaligned :
    (∃ item : JsonItem Doubles.integers,
        parseWithLength (ascii "\"\\u123\\\\\"") Doubles.integers = .ok item ∧
          item.depth ≤ nestingLimit) ∨
      parseWithLength (ascii "\"\\u123\\\\\"") Doubles.integers = .error .failed :=
  parseWithLength_safe Doubles.integers_lawful (ascii "\"\\u123\\\\\"")

end FreeCli.JsonParse

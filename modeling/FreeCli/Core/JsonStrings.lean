import FreeCli.Core.JsonParseSafe

namespace FreeCli.JsonParse

open Words JsonText JsonPrint

/-! Strings are read as the bytes that are spelled in them. -/

variable {content : Bytes} {offset : Nat} {rest : Bytes}

theorem drop_at (here : At content offset rest) : content.drop offset = rest := by
  obtain ⟨consumed, rfl, rfl⟩ := here
  exact List.drop_left

theorem getElem?_at {byte : UInt8} (here : At content offset (byte :: rest)) :
    content[offset]? = some byte := here.readU8

theorem lt_length_at {byte : UInt8} (here : At content offset (byte :: rest)) :
    offset < content.length := by
  have length := here.length_eq
  rw [List.length_cons] at length
  omega

theorem skipSpaces_blank {spaces : Bytes} (blank : ∀ byte ∈ spaces, byte ≤ 32) {byte : UInt8}
    (visible : 32 < byte) (offset : Nat) :
    skipSpaces offset (spaces ++ byte :: rest) = offset + spaces.length := by
  induction spaces generalizing offset with
  | nil => exact if_neg (Nat.not_le.2 visible)
  | cons space spaces ih =>
      rw [List.cons_append, skipSpaces, if_pos (blank space List.mem_cons_self),
        ih (fun byte inside => blank byte (List.mem_cons_of_mem space inside)),
        List.length_cons]
      omega

theorem bufferSkipWhitespace_blank {spaces : Bytes} {byte : UInt8}
    (here : At content offset (spaces ++ byte :: rest))
    (blank : ∀ byte ∈ spaces, byte ≤ 32) (visible : 32 < byte) :
    bufferSkipWhitespace content offset = offset + spaces.length := by
  have length := here.length_eq
  rw [List.length_append, List.length_cons] at length
  rw [bufferSkipWhitespace, if_neg (by omega), drop_at here]
  simp only [skipSpaces_blank blank visible]
  rw [if_neg (by omega)]

theorem bufferSkipWhitespace_visible {byte : UInt8} (here : At content offset (byte :: rest))
    (visible : 32 < byte) : bufferSkipWhitespace content offset = offset :=
  bufferSkipWhitespace_blank (show At content offset ([] ++ byte :: rest) from here)
    (fun _ inside => absurd inside List.not_mem_nil) visible

structure Digits (a b c d : UInt8) (code : Nat) : Prop where
  nibbles : ∃ w x y z, hexNibble a = some w ∧ hexNibble b = some x ∧ hexNibble c = some y ∧
    hexNibble d = some z ∧ ((w * 16 + x) * 16 + y) * 16 + z = code

/-- What the loop of `parse_string` takes at once, and what it writes for it. -/
inductive Piece : Bytes → Bytes → Prop where
  | plain {byte : UInt8} (unquoted : byte ≠ 34) (unescaped : byte ≠ 92) : Piece [byte] [byte]
  | letter {letter byte : UInt8}
      (found : (letters.find? fun pair => pair.1 = letter) = some (letter, byte)) :
      Piece [92, letter] [byte]
  | unit {a b c d : UInt8} {code : Nat} (digits : Digits a b c d code)
      (single : code < 0xD800 ∨ 0xDFFF < code) :
      Piece [92, 117, a, b, c, d] (encodeUtf8 code)
  | pair {a b c d e f g h : UInt8} {high low : Nat} (first : Digits a b c d (0xD800 + high))
      (second : Digits e f g h (0xDC00 + low)) (small : high < 0x400 ∧ low < 0x400) :
      Piece [92, 117, a, b, c, d, 92, 117, e, f, g, h]
        (encodeUtf8 (0x10000 + (high * 0x400 + low)))

/-- The bytes of a string, and a text between quotes for them. -/
inductive Spelled : Bytes → Bytes → Prop where
  | nil : Spelled [] []
  | cons {text bytes texts output : Bytes} (piece : Piece text bytes)
      (rest : Spelled texts output) : Spelled (text ++ texts) (bytes ++ output)

theorem Spelled.append {first second one two : Bytes} (front : Spelled first one)
    (back : Spelled second two) : Spelled (first ++ second) (one ++ two) := by
  induction front with
  | nil => exact back
  | cons piece rest ih =>
      rw [List.append_assoc, List.append_assoc]
      exact .cons piece ih

theorem Piece.spelled {text bytes : Bytes} (piece : Piece text bytes) : Spelled text bytes := by
  have whole := Spelled.cons piece .nil
  rwa [List.append_nil, List.append_nil] at whole

theorem hexNibble_plain {byte : UInt8} {value : Nat} (digit : hexNibble byte = some value) :
    byte ≠ 34 ∧ byte ≠ 92 := by
  constructor
  · rintro rfl
    rw [show hexNibble 34 = none by decide] at digit
    contradiction
  · rintro rfl
    rw [show hexNibble 92 = none by decide] at digit
    contradiction

theorem findQuote_pair (letter : UInt8) (rest : Bytes) (passed skippedBytes : Nat) :
    findQuote passed skippedBytes (92 :: letter :: rest) =
      findQuote (passed + 2) (skippedBytes + 1) rest := by
  simp [findQuote.eq_def passed]

theorem findQuote_plain {byte : UInt8} (plain : byte ≠ 34 ∧ byte ≠ 92) (rest : Bytes)
    (passed skippedBytes : Nat) :
    findQuote passed skippedBytes (byte :: rest) = findQuote (passed + 1) skippedBytes rest := by
  simp [findQuote.eq_def passed, plain.1, plain.2]

theorem Digits.findQuote {a b c d : UInt8} {code : Nat} (digits : Digits a b c d code)
    (rest : Bytes) (passed skippedBytes : Nat) :
    findQuote passed skippedBytes (92 :: 117 :: a :: b :: c :: d :: rest) =
      JsonParse.findQuote (passed + 6) (skippedBytes + 1) rest := by
  obtain ⟨w, x, y, z, one, two, three, four, -⟩ := digits.nibbles
  rw [findQuote_pair, findQuote_plain (hexNibble_plain one), findQuote_plain (hexNibble_plain two),
    findQuote_plain (hexNibble_plain three), findQuote_plain (hexNibble_plain four)]

theorem Piece.findQuote {text bytes : Bytes} (piece : Piece text bytes) (rest : Bytes)
    (passed skippedBytes : Nat) :
    ∃ skipped, JsonParse.findQuote passed skippedBytes (text ++ rest) =
        JsonParse.findQuote (passed + text.length) (skippedBytes + skipped) rest ∧
      bytes.length + skipped ≤ text.length := by
  cases piece with
  | plain unquoted unescaped =>
      exact ⟨0, findQuote_plain ⟨unquoted, unescaped⟩ rest passed skippedBytes, Nat.le_refl 1⟩
  | @letter letter => exact ⟨1, findQuote_pair letter rest passed skippedBytes, Nat.le_refl 2⟩
  | @unit a b c d code digits single =>
      have four := (length_encodeUtf8 code).1
      refine ⟨1, digits.findQuote rest passed skippedBytes, ?_⟩
      show _ ≤ 6
      omega
  | @pair a b c d e f g h high low first second small =>
      have four := (length_encodeUtf8 (0x10000 + (high * 0x400 + low))).1
      refine ⟨2, ?_, ?_⟩
      · exact (first.findQuote _ passed skippedBytes).trans (second.findQuote rest _ _)
      · show _ ≤ 12
        omega

theorem Spelled.findQuote {text output : Bytes} (spelled : Spelled text output) (rest : Bytes)
    (passed skippedBytes : Nat) :
    ∃ skipped, JsonParse.findQuote passed skippedBytes (text ++ 34 :: rest) =
        some (passed + text.length, skippedBytes + skipped) ∧
      output.length + skipped ≤ text.length := by
  induction spelled generalizing passed skippedBytes with
  | nil => exact ⟨0, by simp [findQuote.eq_def], Nat.le_refl 0⟩
  | @cons text bytes texts output piece _ ih =>
      obtain ⟨one, first, room⟩ := piece.findQuote (texts ++ 34 :: rest) passed skippedBytes
      obtain ⟨more, found, left⟩ := ih (passed + text.length) (skippedBytes + one)
      refine ⟨one + more, ?_, ?_⟩
      · rw [List.append_assoc, first, found, List.length_append, Nat.add_assoc, Nat.add_assoc]
      · rw [List.length_append, List.length_append]
        omega

theorem Digits.parseHex4 {a b c d : UInt8} {code : Nat} (digits : Digits a b c d code)
    (here : At content offset (a :: b :: c :: d :: rest)) :
    parseHex4 content offset = .ok code := by
  obtain ⟨w, x, y, z, one, two, three, four, rfl⟩ := digits.nibbles
  rw [JsonParse.parseHex4, byteAt_of_at here, byteAt_of_at here.skip8,
    byteAt_of_at here.skip8.skip8, byteAt_of_at here.skip8.skip8.skip8]
  simp only [ok_bind, one, two, three, four]

theorem Piece.unescape {text bytes output : Bytes} (piece : Piece text bytes)
    {inputEnd size rounds : Nat} (here : At content offset (text ++ rest))
    (inside : offset + text.length ≤ inputEnd) (fits : output.length + bytes.length ≤ size) :
    unescape content inputEnd size (rounds + 1) offset output =
      JsonParse.unescape content inputEnd size rounds (offset + text.length) (output ++ bytes) := by
  have more : offset < inputEnd := by
    have some_ : 0 < text.length := by cases piece <;> exact Nat.succ_pos _
    omega
  rw [JsonParse.unescape, if_pos more]
  cases piece with
  | plain unquoted unescaped =>
      rw [byteAt_of_at here, ok_bind, if_pos unescaped, emit_room fits, ok_bind]
      rfl
  | @letter letter byte found =>
      rw [byteAt_of_at here, ok_bind, if_neg (by simp), byteAt_of_at (At.skip8 here), ok_bind,
        found]
      simp only [emit_room fits, ok_bind]
      rfl
  | @unit a b c d code digits single =>
      have letter : (letters.find? fun pair => pair.1 = (117 : UInt8)) = none := by decide
      have read : utf16LiteralToUtf8 content offset inputEnd = .ok (6, encodeUtf8 code) := by
        have inside : offset + 6 ≤ inputEnd := inside
        rw [utf16LiteralToUtf8, if_neg (Nat.not_lt.2 inside), digits.parseHex4 here.skip8.skip8,
          ok_bind, if_neg (by omega), if_neg (by omega)]
      rw [byteAt_of_at here, ok_bind, if_neg (by simp), byteAt_of_at (At.skip8 here), ok_bind,
        letter]
      simp only [if_true, read, ok_bind, emit_room fits]
      rfl
  | @pair a b c d e f g h high low first second small =>
      have letter : (letters.find? fun pair => pair.1 = (117 : UInt8)) = none := by decide
      have there : At content (offset + 6) (92 :: 117 :: e :: f :: g :: h :: rest) :=
        here.skip8.skip8.skip8.skip8.skip8.skip8
      have inside : offset + 6 + 6 ≤ inputEnd := inside
      have read : utf16LiteralToUtf8 content offset inputEnd =
          .ok (12, encodeUtf8 (0x10000 + (high * 0x400 + low))) := by
        rw [utf16LiteralToUtf8, if_neg (by omega), first.parseHex4 here.skip8.skip8, ok_bind,
          if_neg (by omega), if_pos (by omega)]
        simp only
        rw [if_neg (by omega), byteAt_of_at there, byteAt_of_at there.skip8, ok_bind, ok_bind,
          if_neg (by simp), second.parseHex4 there.skip8.skip8, ok_bind, if_neg (by omega)]
        rw [show (0xD800 + high) % 0x400 = high by omega,
          show (0xDC00 + low) % 0x400 = low by omega]
      rw [byteAt_of_at here, ok_bind, if_neg (by simp), byteAt_of_at (At.skip8 here), ok_bind,
        letter]
      simp only [if_true, read, ok_bind, emit_room fits]
      rfl

theorem Spelled.unescape {text bytes output behind : Bytes} (spelled : Spelled text bytes)
    {inputEnd size rounds : Nat} (here : At content offset (text ++ 34 :: behind))
    (ends : inputEnd = offset + text.length) (fits : output.length + bytes.length ≤ size)
    (enough : text.length ≤ rounds) :
    unescape content inputEnd size rounds offset output = .ok (output ++ bytes) := by
  induction spelled generalizing offset rounds output with
  | nil =>
      rw [unescape_done (by rw [List.length_nil] at ends; omega), List.append_nil]
  | @cons text bytes texts spelled piece _ ih =>
      rw [List.append_assoc] at here
      rw [List.length_append] at ends fits enough
      have some_ : 0 < text.length := by cases piece <;> exact Nat.succ_pos _
      cases rounds with
      | zero => omega
      | succ rounds =>
          rw [piece.unescape here (by omega) (by omega), ← List.append_assoc]
          exact ih here.skip (by omega) (by rw [List.length_append]; omega) (by omega)

theorem parseString_spelled {text output : Bytes} (spelled : Spelled text output)
    (here : At content offset (34 :: (text ++ 34 :: rest))) :
    parseString content offset = .ok (output, offset + (text.length + 2)) := by
  obtain ⟨skipped, found, room⟩ := spelled.findQuote rest 0 0
  rw [Nat.zero_add, Nat.zero_add] at found
  rw [parseString, byteAt_of_at here, ok_bind, if_neg (by simp), drop_at here.skip8, found]
  simp only
  rw [spelled.unescape here.skip8 rfl (by rw [List.length_nil]; omega) (Nat.le_refl _), ok_bind,
    List.nil_append, emit_room (by rw [List.length_singleton]; omega), ok_bind]
  rw [show offset + 1 + text.length + 1 = offset + (text.length + 2) by omega]

/-! ### Printed strings -/

theorem hexNibble_hexDigit {d : Nat} (small : d < 16) : hexNibble (hexDigit d) = some d := by
  have all : ∀ d < 16, hexNibble (hexDigit d) = some d := by decide
  exact all d small

theorem encodeUtf8_ascii {byte : UInt8} (small : byte.toNat < 0x80) :
    encodeUtf8 byte.toNat = [byte] := by
  rw [encodeUtf8]
  simp only
  rw [if_pos small, UInt8.ofNat_toNat]

theorem piece_escape (byte : UInt8) : Piece (escape byte) [byte] := by
  rw [escape]
  split
  next pair letter found =>
    have all : (escapes.all fun pair =>
        (letters.find? fun other => other.1 = pair.2) = some (pair.2, pair.1)) = true := by decide
    obtain ⟨rfl, -⟩ := escapes_find found
    have back := List.all_eq_true.1 all _ (List.mem_of_find?_eq_some found)
    exact .letter (of_decide_eq_true back)
  next unescaped =>
    rw [find_escape_none_iff] at unescaped
    split
    next control =>
      have digits : Digits 48 48 (hexDigit (byte.toNat / 16)) (hexDigit (byte.toNat % 16))
          byte.toNat :=
        ⟨0, 0, _, _, by decide, by decide, hexNibble_hexDigit (by omega),
          hexNibble_hexDigit (by omega), by omega⟩
      have piece := Piece.unit digits (.inl (by omega))
      rwa [encodeUtf8_ascii (by omega)] at piece
    next => exact .plain unescaped.1 unescaped.2.1

theorem spelled_escapes (chars : Bytes) : Spelled (chars.flatMap escape) chars := by
  induction chars with
  | nil => exact .nil
  | cons byte chars ih => exact .cons (piece_escape byte) ih

theorem parseString_printString (text : CString)
    (here : At content offset (printString text ++ rest)) :
    parseString content offset = .ok (text.bytes, offset + (printString text).length) := by
  rw [printString, List.cons_append, List.append_assoc, List.singleton_append] at here
  rw [parseString_spelled (spelled_escapes text.bytes) here, printString, List.length_cons,
    List.length_append, List.length_singleton]

theorem toNat_lt (char : Char) : char.toNat < 0x110000 := by
  rcases char.valid with low | high
  · exact Nat.lt_trans low (by decide)
  · exact high.2

theorem encodeUtf8_char (char : Char) : encodeUtf8 char.toNat = String.utf8EncodeChar char := by
  have small := toNat_lt char
  rw [encodeUtf8, String.utf8EncodeChar, show char.val.toNat = char.toNat from rfl]
  generalize char.toNat = code at small
  simp only [Nat.pow_zero, Nat.div_one, Nat.pow_one, show 64 ^ 2 = 4096 from rfl,
    show 64 ^ 3 = 262144 from rfl]
  by_cases one : code < 0x80
  · rw [if_pos one, if_pos (show code ≤ 0x7f by omega)]
  · rw [if_neg one, if_neg (show ¬code ≤ 0x7f by omega)]
    by_cases two : code < 0x800
    · rw [if_pos two, if_pos (show code ≤ 0x7ff by omega),
        Nat.mod_eq_of_lt (show code / 64 < 0x20 by omega)]
    · rw [if_neg two, if_neg (show ¬code ≤ 0x7ff by omega)]
      by_cases three : code < 0x10000
      · rw [if_pos three, if_pos (show code ≤ 0xffff by omega),
          Nat.mod_eq_of_lt (show code / 4096 < 0x10 by omega)]
      · rw [if_neg three, if_neg (show ¬code ≤ 0xffff by omega),
          Nat.mod_eq_of_lt (show code / 262144 < 0x08 by omega)]

theorem le_of_mem_encodeUtf8 {code : Nat} (small : code < 0x110000) (large : 0x80 ≤ code)
    {byte : UInt8} (inside : byte ∈ encodeUtf8 code) : 0x80 ≤ byte.toNat := by
  have all : ∀ value : Nat, value < 0x80 → 0x80 ≤ (UInt8.ofNat (value + 0x80)).toNat := by
    intro value small
    rw [UInt8.toNat_ofNat_of_lt' (by simp only [UInt8.size]; omega)]
    omega
  have tail : ∀ value : Nat, 0x80 ≤ (UInt8.ofNat (value % 64 + 0x80)).toNat := fun value =>
    all (value % 64) (by omega)
  simp only [encodeUtf8, Nat.pow_zero, Nat.div_one, Nat.pow_one, show 64 ^ 2 = 4096 from rfl,
    show 64 ^ 3 = 262144 from rfl, if_neg (Nat.not_lt.2 large)] at inside
  split at inside
  next two =>
    simp only [List.mem_cons, List.not_mem_nil, or_false] at inside
    rcases inside with rfl | rfl
    · exact all (code / 64 + 0x40) (by omega)
    · exact tail code
  next =>
    split at inside
    next three =>
      simp only [List.mem_cons, List.not_mem_nil, or_false] at inside
      rcases inside with rfl | rfl | rfl
      · exact all (code / 4096 + 0x60) (by omega)
      · exact tail (code / 64)
      · exact tail code
    next =>
      simp only [List.mem_cons, List.not_mem_nil, or_false] at inside
      rcases inside with rfl | rfl | rfl | rfl
      · exact all (code / 262144 + 0x70) (by omega)
      · exact tail (code / 4096)
      · exact tail (code / 64)
      · exact tail code

/-- The ways to write a character between quotes: as it is, with one of the letters, and with
one or two escapes for its UTF-16. -/
inductive Spelling : Char → Bytes → Prop where
  | plain {char : Char} (unquoted : char.toNat ≠ 34) (unescaped : char.toNat ≠ 92) :
      Spelling char (String.utf8EncodeChar char)
  | letter {char : Char} {letter byte : UInt8} (same : char.toNat = byte.toNat)
      (found : (letters.find? fun pair => pair.1 = letter) = some (letter, byte)) :
      Spelling char [92, letter]
  | unit {char : Char} {a b c d : UInt8} (digits : Digits a b c d char.toNat) :
      Spelling char [92, 117, a, b, c, d]
  | pair {char : Char} {a b c d e f g h : UInt8} {high low : Nat}
      (first : Digits a b c d (0xD800 + high)) (second : Digits e f g h (0xDC00 + low))
      (small : high < 0x400 ∧ low < 0x400)
      (same : char.toNat = 0x10000 + (high * 0x400 + low)) :
      Spelling char [92, 117, a, b, c, d, 92, 117, e, f, g, h]

theorem spelled_plain {bytes : Bytes} (plain : ∀ byte ∈ bytes, byte ≠ 34 ∧ byte ≠ 92) :
    Spelled bytes bytes := by
  induction bytes with
  | nil => exact .nil
  | cons byte bytes ih =>
      have first := plain byte List.mem_cons_self
      exact .cons (.plain first.1 first.2) (ih fun other inside =>
        plain other (List.mem_cons_of_mem byte inside))

theorem Spelling.spelled {char : Char} {text : Bytes} (spelling : Spelling char text) :
    Spelled text (String.utf8EncodeChar char) := by
  cases spelling with
  | plain unquoted unescaped =>
      apply spelled_plain
      intro byte inside
      rw [← encodeUtf8_char] at inside
      by_cases ascii : char.toNat < 0x80
      · simp only [encodeUtf8, if_pos ascii, List.mem_singleton] at inside
        have same : byte.toNat = char.toNat := by
          rw [inside, UInt8.toNat_ofNat_of_lt' (by simp only [UInt8.size]; omega)]
        constructor
        · rintro rfl
          exact unquoted same.symm
        · rintro rfl
          exact unescaped same.symm
      · have large := le_of_mem_encodeUtf8 (toNat_lt char) (Nat.not_lt.1 ascii) inside
        constructor
        · rintro rfl
          exact absurd large (by decide)
        · rintro rfl
          exact absurd large (by decide)
  | @letter letter byte same found =>
      have all : (letters.all fun pair => pair.2.toNat < 0x80) = true := by decide
      have small := List.all_eq_true.1 all _ (List.mem_of_find?_eq_some found)
      rw [← encodeUtf8_char, same, encodeUtf8_ascii (of_decide_eq_true small)]
      exact (Piece.letter found).spelled
  | unit digits =>
      have valid : char.toNat < 0xD800 ∨ 0xDFFF < char.toNat := char.valid.imp id And.left
      rw [← encodeUtf8_char]
      exact (Piece.unit digits valid).spelled
  | pair first second small same =>
      rw [← encodeUtf8_char, same]
      exact (Piece.pair first second small).spelled

/-- However the characters of a string are written, it is read as their UTF-8. -/
theorem parseString_spellings {chars : List Char} {texts : List Bytes}
    (spellings : List.Forall₂ Spelling chars texts)
    (here : At content offset (34 :: (texts.flatten ++ 34 :: rest))) :
    parseString content offset =
      .ok (chars.flatMap String.utf8EncodeChar, offset + (texts.flatten.length + 2)) := by
  have spelled : Spelled texts.flatten (chars.flatMap String.utf8EncodeChar) := by
    clear here
    induction spellings with
    | nil => exact .nil
    | cons spelling _ ih => exact spelling.spelled.append ih
  exact parseString_spelled spelled here

theorem parseString_spellings_pair :
    parseString (34 :: 97 :: (ascii "\\uD83d\\uDe00" ++ [34])) 0 =
      .ok (['a', Char.ofNat 0x1F600].flatMap String.utf8EncodeChar, 15) :=
  have high : Digits 68 56 51 100 (0xD800 + 0x3D) := ⟨13, 8, 3, 13, by decide⟩
  have low : Digits 68 101 48 48 (0xDC00 + 0x200) := ⟨13, 14, 0, 0, by decide⟩
  parseString_spellings
    (.cons (.plain (by decide) (by decide))
      (.cons (.pair high low (by decide) (by decide)) .nil))
    (.start rfl)

end FreeCli.JsonParse

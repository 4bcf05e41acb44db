import FreeCli.Core.JsonStrings

namespace FreeCli

open Words JsonText

/-! What is printed is read back. -/

/-- What comes back of a number. -/
def Doubles.reread (lib : Doubles) (valueint : Int32) (valuedouble : lib.Double) : JsonItem lib :=
  if lib.finite valuedouble then
    match lib.strtod (lib.numberText valueint valuedouble) with
    | some (read, _) => .number (lib.toInt read) read
    | none => .null
  else .null

namespace JsonItem

variable {lib : Doubles}

mutual

/-- The tree with each number as its text has it. -/
def reread : JsonItem lib → JsonItem lib
  | null => null
  | bool value => bool value
  | number valueint valuedouble => lib.reread valueint valuedouble
  | string valuestring => string valuestring
  | array child => array (rereadElements child)
  | object child => object (rereadMembers child)

def rereadElements : List (JsonItem lib) → List (JsonItem lib)
  | [] => []
  | item :: items => item.reread :: rereadElements items

def rereadMembers : List (CString × JsonItem lib) → List (CString × JsonItem lib)
  | [] => []
  | (key, item) :: members => (key, item.reread) :: rereadMembers members

end

theorem depth_le_of_mem {items : List (JsonItem lib)} {item : JsonItem lib}
    (member : item ∈ items) :
    item.depth ≤ depthElements items := by
  induction items with
  | nil => contradiction
  | cons head items ih =>
      rw [depthElements]
      rcases List.mem_cons.1 member with rfl | later
      · exact Nat.le_max_left _ _
      · exact (ih later).trans (Nat.le_max_right _ _)

theorem depth_le_of_mem_members {members : List (CString × JsonItem lib)}
    {member : CString × JsonItem lib} (inside : member ∈ members) :
    member.2.depth ≤ depthMembers members := by
  induction members with
  | nil => contradiction
  | cons head members ih =>
      rw [depthMembers]
      rcases List.mem_cons.1 inside with rfl | later
      · exact Nat.le_max_left _ _
      · exact (ih later).trans (Nat.le_max_right _ _)

theorem text_cons (laws : lib.Lawful) (item : JsonItem lib) (format : Bool) (depth : Nat) :
    ∃ byte rest, item.text format depth = byte :: rest ∧ 32 < byte ∧ byte ≠ 93 ∧ byte ≠ 0xEF := by
  cases item with
  | null => exact ⟨110, _, rfl, by decide⟩
  | bool value =>
      cases value
      · exact ⟨102, _, rfl, by decide⟩
      · exact ⟨116, _, rfl, by decide⟩
  | number valueint valuedouble =>
      rcases laws.numberText_cases valueint valuedouble with ⟨same, -⟩ | ⟨numeral, -⟩
      · exact ⟨110, _, same, by decide⟩
      · obtain ⟨byte, rest, same, kind⟩ := numeral.start
        refine ⟨byte, rest, same, ?_⟩
        rcases kind with rfl | digit
        · decide
        · simp only [isDigit, Bool.and_eq_true, decide_eq_true_eq] at digit
          refine ⟨UInt8.lt_iff_toNat_lt.2 (by show 32 < byte.toNat; omega), ?_, ?_⟩ <;>
            (rintro rfl; exact absurd digit (by decide))
  | string valuestring => exact ⟨34, _, rfl, by decide⟩
  | array child => exact ⟨91, _, rfl, by decide⟩
  | object child => exact ⟨123, _, rfl, by decide⟩

end JsonItem

namespace JsonParse

open JsonPrint JsonItem

variable {content : Bytes} {offset : Nat} {rest : Bytes}

variable {lib : Doubles} {levels depth : Nat} {format : Bool}

def Stops (rest : Bytes) : Prop := ∀ byte ∈ rest.head?, numberChar byte = false

theorem stops_cons {byte : UInt8} (other : numberChar byte = false) (rest : Bytes) :
    Stops (byte :: rest) := by
  intro first same
  obtain rfl := Option.some.inj same
  exact other

theorem numberChar_blank {byte : UInt8} (blank : byte ≤ 32) : numberChar byte = false := by
  have low : byte.toNat ≤ 32 := UInt8.le_iff_toNat_le.1 blank
  rw [Bool.eq_false_iff]
  intro char
  simp only [numberChar, isDigit, Bool.or_eq_true, Bool.and_eq_true, decide_eq_true_eq] at char
  rcases char with ((((digit | rfl) | rfl) | rfl) | rfl) | rfl
  · omega
  all_goals exact absurd low (by decide)

theorem takeWhile_chars {text : Bytes} (chars : ∀ byte ∈ text, numberChar byte = true)
    (stops : Stops rest) :
    (text ++ rest).takeWhile numberChar = text := by
  rw [List.takeWhile_append_of_pos chars]
  cases rest with
  | nil => rw [List.takeWhile_nil, List.append_nil]
  | cons byte rest =>
      rw [List.takeWhile_cons_of_neg (by rw [stops byte rfl]; exact Bool.false_ne_true),
        List.append_nil]

theorem startsWith_at {text : Bytes} (here : At content offset text) (word : Bytes) :
    startsWith content offset word = decide (text.take word.length = word) := by
  rw [startsWith, drop_at here]

theorem find_words_none {byte : UInt8} (here : At content offset (byte :: rest))
    (other : byte ≠ 110 ∧ byte ≠ 102 ∧ byte ≠ 116) :
    (words.find? fun word : Bytes × JsonItem lib => startsWith content offset word.1) = none := by
  rw [List.find?_eq_none]
  intro word member
  have first : ∃ letter tail, word.1 = letter :: tail ∧ byte ≠ letter := by
    simp only [words, List.mem_cons, List.not_mem_nil, or_false] at member
    rcases member with rfl | rfl | rfl
    · exact ⟨110, _, rfl, other.1⟩
    · exact ⟨102, _, rfl, other.2.1⟩
    · exact ⟨116, _, rfl, other.2.2⟩
  obtain ⟨letter, tail, same, differs⟩ := first
  rw [startsWith_at here, same, List.length_cons, List.take_succ_cons]
  simp [differs]

def Rereads (levels : Nat) (item : JsonItem lib) : Prop :=
  ∀ {content : Bytes} {offset depth : Nat} {format : Bool} {rest : Bytes},
    At content offset (item.text format depth ++ rest) → Stops rest →
      parseValue content lib levels offset =
        .ok (item.reread, offset + (item.text format depth).length)

theorem parseNumber_text (laws : lib.Lawful) {valueint : Int32} {valuedouble : lib.Double}
    (numeral : Numeral (lib.numberText valueint valuedouble))
    (finite : lib.finite valuedouble = true)
    (here : At content offset (lib.numberText valueint valuedouble ++ rest)) (stops : Stops rest) :
    parseNumber content lib offset = .ok (lib.reread valueint valuedouble,
      offset + (lib.numberText valueint valuedouble).length) := by
  rw [parseNumber, drop_at here, takeWhile_chars numeral.chars stops, Doubles.reread, if_pos finite]
  rcases laws.numberText_cases valueint valuedouble with ⟨-, infinite⟩ | ⟨-, read, found⟩
  · rw [finite] at infinite
    contradiction
  · simp only [found]

theorem blank_comma {byte : UInt8} (inside : byte ∈ (comma format).drop 1) : byte ≤ 32 := by
  cases format
  · contradiction
  · obtain rfl := List.mem_singleton.1 inside
    decide

theorem blank_lineBreak {byte : UInt8} (inside : byte ∈ lineBreak format) : byte ≤ 32 := by
  cases format
  · contradiction
  · obtain rfl := List.mem_singleton.1 inside
    decide

theorem blank_tabs {byte : UInt8} (inside : byte ∈ tabs format depth) : byte ≤ 32 := by
  cases format
  · contradiction
  · obtain rfl := List.eq_of_mem_replicate inside
    decide

theorem parseElements_text (laws : lib.Lawful) {items : List (JsonItem lib)} (some_ : items ≠ [])
    (reads : ∀ item ∈ items, Rereads levels item) {spaces : Bytes} {rounds : Nat}
    (here : At content (offset + 1)
      (spaces ++ (elementsText format depth items ++ 93 :: rest)))
    (blank : ∀ byte ∈ spaces, byte ≤ 32) (enough : content.length ≤ offset + rounds) :
    parseElements content (parseValue content lib levels) rounds offset =
      .ok (rereadElements items,
        offset + 1 + spaces.length + (elementsText format depth items).length) := by
  induction items generalizing offset spaces rounds with
  | nil => contradiction
  | cons item items ih =>
      cases rounds with
      | zero =>
          have length := here.length_eq
          omega
      | succ rounds =>
          obtain ⟨byte, tail, first, visible, -⟩ := item.text_cons laws format depth
          rw [elementsText, List.append_assoc, List.append_assoc] at here
          have skipped : bufferSkipWhitespace content (offset + 1) =
              offset + 1 + spaces.length := by
            rw [first] at here
            exact bufferSkipWhitespace_blank here blank visible
          have itself : Rereads levels item := reads item List.mem_cons_self
          cases items with
          | nil =>
              simp only [between, elementsText, List.nil_append] at here
              have read := itself here.skip (stops_cons (by decide) rest)
              have behind := here.skip.skip
              rw [parseElements, skipped, read, ok_bind]
              simp only
              rw [bufferSkipWhitespace_visible behind (by decide), getElem?_at behind]
              simp [elementsText, between, rereadElements]
          | cons next items =>
              have cut : comma format = 44 :: (comma format).drop 1 := by cases format <;> rfl
              rw [between, cut, List.cons_append] at here
              have read := itself here.skip (stops_cons (by decide) _)
              have behind := here.skip.skip
              have left : content.length ≤
                  offset + 1 + spaces.length + (item.text format depth).length + rounds := by
                omega
              have more := ih (List.cons_ne_nil _ _)
                (fun other member => reads other (List.mem_cons_of_mem item member))
                behind.skip8 (fun _ inside => blank_comma inside) left
              rw [parseElements, skipped, read, ok_bind]
              simp only
              rw [bufferSkipWhitespace_visible behind (by decide), getElem?_at behind, if_pos rfl,
                more, ok_bind]
              refine congrArg (fun last =>
                Except.ok (rereadElements (item :: next :: items), last)) ?_
              have text : elementsText format depth (item :: next :: items) =
                  item.text format depth ++ comma format ++
                    elementsText format depth (next :: items) := rfl
              have comma_ : (comma format).length = ((comma format).drop 1).length + 1 :=
                congrArg List.length cut
              rw [text, List.length_append, List.length_append]
              omega

theorem colon_cons (format : Bool) :
    ∃ spaces, colon format = 58 :: spaces ∧ ∀ byte ∈ spaces, byte ≤ 32 := by
  cases format
  · exact ⟨[], rfl, fun _ inside => absurd inside List.not_mem_nil⟩
  · refine ⟨[9], rfl, fun byte inside => ?_⟩
    obtain rfl := List.mem_singleton.1 inside
    decide

theorem parseMember_text (laws : lib.Lawful) (key : CString) {item : JsonItem lib}
    (reads : Rereads levels item) {front back : Bytes} {byte : UInt8}
    (here : At content (offset + 1) (front ++ (printString key ++ (colon format ++
      (item.text format depth ++ (back ++ byte :: rest))))))
    (blankFront : ∀ byte ∈ front, byte ≤ 32) (blankBack : ∀ byte ∈ back, byte ≤ 32)
    (visible : 32 < byte) (other : numberChar byte = false) :
    parseMember content (parseValue content lib levels) offset =
      .ok ((key, item.reread), offset + 1 + front.length + (printString key).length +
        (colon format).length + (item.text format depth).length + back.length) := by
  have length := here.length_eq
  simp only [List.length_append, List.length_cons] at length
  obtain ⟨spaces, cut, blank⟩ := colon_cons format
  obtain ⟨first, tail, text, seen, -⟩ := item.text_cons laws format depth
  have skipped : bufferSkipWhitespace content (offset + 1) = offset + 1 + front.length :=
    bufferSkipWhitespace_blank here blankFront (by decide)
  rw [parseMember, if_neg (by omega), skipped, parseString_printString key here.skip, ok_bind]
  simp only
  -- behind the key
  have behind := here.skip.skip
  rw [cut, List.cons_append] at behind
  have value := behind.skip8.skip
  have spaced : bufferSkipWhitespace content
      (offset + 1 + front.length + (printString key).length + 1) =
      offset + 1 + front.length + (printString key).length + 1 + spaces.length := by
    have there := behind.skip8
    rw [text] at there
    exact bufferSkipWhitespace_blank there blank seen
  have stops : Stops (back ++ byte :: rest) := by
    cases back with
    | nil => exact stops_cons other rest
    | cons space back =>
        exact stops_cons (numberChar_blank (blankBack space List.mem_cons_self)) _
  rw [bufferSkipWhitespace_visible behind (by decide), getElem?_at behind, if_neg (by simp),
    spaced, reads value stops, ok_bind]
  simp only
  rw [bufferSkipWhitespace_blank value.skip blankBack visible, CString.of_bytes, cut,
    List.length_cons]
  rw [show ∀ a b c d : Nat, a + 1 + b + c + d = a + (b + 1) + c + d by omega]

theorem membersText_cons (key : CString) (item : JsonItem lib)
    (members : List (CString × JsonItem lib)) :
    membersText format depth ((key, item) :: members) =
      tabs format depth ++ (printString key ++ (colon format ++ (item.text format depth ++
        (between [44] members ++ (lineBreak format ++ membersText format depth members))))) := by
  simp only [membersText, List.append_assoc]

theorem parseMembers_text (laws : lib.Lawful) {members : List (CString × JsonItem lib)}
    (some_ : members ≠ []) (reads : ∀ member ∈ members, Rereads levels member.2)
    {spaces text : Bytes} {last rounds : Nat}
    (cut : membersText format depth members = tabs format depth ++ text)
    (here : At content (offset + 1) (spaces ++ (text ++ (tabs format last ++ 125 :: rest))))
    (blank : ∀ byte ∈ spaces, byte ≤ 32) (enough : content.length ≤ offset + rounds) :
    parseMembers content (parseValue content lib levels) rounds offset =
      .ok (rereadMembers members,
        offset + 1 + spaces.length + text.length + (tabs format last).length) := by
  induction members generalizing offset spaces text rounds with
  | nil => contradiction
  | cons member members ih =>
      obtain ⟨key, item⟩ := member
      cases rounds with
      | zero =>
          have length := here.length_eq
          omega
      | succ rounds =>
          have itself : Rereads levels item := reads (key, item) List.mem_cons_self
          rw [membersText_cons, List.append_cancel_left_eq] at cut
          rw [← cut] at here ⊢
          cases members with
          | nil =>
              simp only [between, membersText, List.append_nil, List.nil_append, List.append_assoc]
                at here ⊢
              rw [← List.append_assoc (lineBreak format)] at here
              have back : ∀ byte ∈ lineBreak format ++ tabs format last, byte ≤ 32 :=
                fun byte inside => (List.mem_append.1 inside).elim blank_lineBreak blank_tabs
              have behind := here.skip.skip.skip.skip.skip
              rw [parseMembers, parseMember_text laws key itself here blank back (by decide)
                (by decide), ok_bind]
              simp only
              rw [getElem?_at behind, if_neg (by simp)]
              refine congrArg (fun last => Except.ok (rereadMembers [(key, item)], last)) ?_
              simp only [List.length_append]
              omega
          | cons next members =>
              obtain ⟨text, line⟩ : ∃ text, membersText format depth (next :: members) =
                  tabs format depth ++ text := ⟨_, membersText_cons next.1 next.2 members⟩
              have blankLine : ∀ byte ∈ lineBreak format ++ tabs format depth, byte ≤ 32 :=
                fun byte inside => (List.mem_append.1 inside).elim blank_lineBreak blank_tabs
              rw [line]
              rw [line] at here
              simp only [between, List.append_assoc, List.cons_append, List.nil_append] at here
              rw [← List.append_assoc (lineBreak format)] at here
              have behind := here.skip.skip.skip.skip
              have read := parseMember_text laws key itself
                (show At content (offset + 1) (spaces ++ (printString key ++
                  (colon format ++ (item.text format depth ++ ([] ++ 44 :: _))))) from here)
                blank (fun _ inside => absurd inside List.not_mem_nil) (by decide) (by decide)
              have more := ih (List.cons_ne_nil _ _)
                (fun other inside => reads other (List.mem_cons_of_mem _ inside)) line behind.skip8
                blankLine (show content.length ≤ _ + rounds by omega)
              rw [List.length_nil, Nat.add_zero] at read
              rw [parseMembers, read, ok_bind]
              simp only
              rw [getElem?_at behind, if_pos rfl, more, ok_bind]
              refine congrArg (fun last =>
                Except.ok (rereadMembers ((key, item) :: next :: members), last)) ?_
              simp only [between, List.length_append, List.length_singleton]
              omega

theorem parseArray_text (laws : lib.Lawful) {items : List (JsonItem lib)}
    (reads : ∀ item ∈ items, Rereads levels item)
    (here : At content offset ((JsonItem.array items).text format depth ++ rest)) :
    parseArray content (parseValue content lib levels) offset =
      .ok (.array (rereadElements items),
        offset + ((JsonItem.array items).text format depth).length) := by
  have first : At content offset
      (91 :: (elementsText format (depth + 1) items ++ 93 :: rest)) := by
    simpa [JsonItem.text] using here
  have behind := first.skip8
  have end_ : offset + ((JsonItem.array items).text format depth).length =
      offset + 1 + (elementsText format (depth + 1) items).length + 1 := by
    simp only [JsonItem.text, List.length_append, List.length_singleton]
    omega
  rw [end_, parseArray, byteAt_of_at first, ok_bind, if_neg (by simp)]
  cases items with
  | nil =>
      have close : At content (offset + 1) (93 :: rest) := behind
      rw [bufferSkipWhitespace_visible close (by decide)]
      simp only
      rw [getElem?_at close, if_pos rfl]
      rfl
  | cons item items =>
      obtain ⟨byte, tail, text, visible, other, -⟩ := item.text_cons laws format (depth + 1)
      have visible_ : bufferSkipWhitespace content (offset + 1) = offset + 1 := by
        have there := behind
        rw [elementsText, text] at there
        exact bufferSkipWhitespace_visible there visible
      have seen : content[offset + 1]? = some byte := by
        have there := behind
        rw [elementsText, text] at there
        exact getElem?_at there
      have inside := behind.length_eq
      rw [List.length_append, List.length_cons] at inside
      have read := parseElements_text laws (List.cons_ne_nil item items) reads
        (show At content (offset + 1) ([] ++ _) from behind)
        (fun _ inside => absurd inside List.not_mem_nil) (Nat.le_add_left _ _)
      have close := behind.skip
      rw [List.length_nil, Nat.add_zero] at read
      rw [visible_]
      simp only
      rw [seen, if_neg (by simpa using other), if_neg (by omega), Nat.add_sub_cancel, read, ok_bind]
      simp only
      rw [getElem?_at close, if_pos rfl]

theorem parseObject_text (laws : lib.Lawful) {members : List (CString × JsonItem lib)}
    (reads : ∀ member ∈ members, Rereads levels member.2)
    (here : At content offset ((JsonItem.object members).text format depth ++ rest)) :
    parseObject content (parseValue content lib levels) offset =
      .ok (.object (rereadMembers members),
        offset + ((JsonItem.object members).text format depth).length) := by
  have first : At content offset (123 :: (lineBreak format ++
      (membersText format (depth + 1) members ++ (tabs format depth ++ 125 :: rest)))) := by
    simpa [JsonItem.text] using here
  have behind := first.skip8
  have end_ : offset + ((JsonItem.object members).text format depth).length =
      offset + 1 + (lineBreak format).length + (membersText format (depth + 1) members).length +
        (tabs format depth).length + 1 := by
    simp only [JsonItem.text, List.length_append, List.length_singleton]
    omega
  rw [end_, parseObject, getElem?_at first, if_neg (by simp)]
  cases members with
  | nil =>
      have close := behind
      rw [membersText, List.nil_append, ← List.append_assoc] at close
      have blank : ∀ byte ∈ lineBreak format ++ tabs format depth, byte ≤ 32 := fun byte inside =>
        (List.mem_append.1 inside).elim blank_lineBreak blank_tabs
      have skipped := bufferSkipWhitespace_blank close blank (by decide)
      rw [skipped]
      simp only
      rw [getElem?_at close.skip, if_pos rfl, List.length_append, membersText, List.length_nil]
      refine congrArg (fun last => Except.ok (object [], last)) ?_
      omega
  | cons member members =>
      obtain ⟨tail, line⟩ : ∃ tail, membersText format (depth + 1) (member :: members) =
          tabs format (depth + 1) ++ 34 :: tail :=
        ⟨_, membersText_cons member.1 member.2 members⟩
      have blank : ∀ byte ∈ lineBreak format ++ tabs format (depth + 1), byte ≤ 32 :=
        fun byte inside => (List.mem_append.1 inside).elim blank_lineBreak blank_tabs
      have body := behind
      rw [line, List.append_assoc, ← List.append_assoc] at body
      have skipped := bufferSkipWhitespace_blank body blank (by decide)
      have key := body.skip
      have inside := lt_length_at key
      -- one step back, in front of the first key
      have back : offset + 1 + (lineBreak format ++ tabs format (depth + 1)).length - 1 + 1 =
          offset + 1 + (lineBreak format ++ tabs format (depth + 1)).length := by omega
      have read := parseMembers_text laws (List.cons_ne_nil member members) reads line
        (show At content (offset + 1 + (lineBreak format ++ tabs format (depth + 1)).length - 1 + 1)
          ([] ++ (34 :: tail ++ (tabs format depth ++ 125 :: rest))) from back ▸ key)
        (fun _ inside => absurd inside List.not_mem_nil) (Nat.le_add_left _ _)
      have close := key.skip.skip
      simp only [back, List.length_nil, Nat.add_zero] at read
      rw [skipped]
      simp only
      rw [getElem?_at key, if_neg (by simp), if_neg (by omega), read, ok_bind]
      simp only
      rw [getElem?_at close, if_pos rfl]
      refine congrArg (fun last => Except.ok (object (rereadMembers (member :: members)), last)) ?_
      rw [line]
      simp only [List.length_append]
      omega

theorem parseValue_word {word : Bytes} {item : JsonItem lib}
    (found : (words.find? fun word : Bytes × JsonItem lib => startsWith content offset word.1) =
      some (word, item)) :
    parseValue content lib levels offset = .ok (item, offset + word.length) := by
  rw [parseValue.eq_def, found]

theorem parseValue_text (laws : lib.Lawful) (item : JsonItem lib) (levels : Nat)
    (shallow : item.depth ≤ levels) : Rereads levels item := by
  induction item using JsonItem.induct generalizing levels with
  | null =>
      intro content offset depth format rest here stops
      refine parseValue_word ?_
      simp only [words, List.find?_cons, startsWith_at here]
      rfl
  | bool value =>
      intro content offset depth format rest here stops
      cases value with
      | false =>
          refine parseValue_word ?_
          simp only [words, List.find?_cons, startsWith_at here]
          rfl
      | true =>
          refine parseValue_word ?_
          simp only [words, List.find?_cons, startsWith_at here]
          rfl
  | number valueint valuedouble =>
      intro content offset depth format rest here stops
      show _ = Except.ok (lib.reread valueint valuedouble,
        offset + (lib.numberText valueint valuedouble).length)
      rcases laws.numberText_cases valueint valuedouble with ⟨same, infinite⟩ | ⟨numeral, -⟩
      · have here : At content offset (ascii "null" ++ rest) := same ▸ here
        rw [same, Doubles.reread, infinite]
        refine parseValue_word ?_
        simp only [words, List.find?_cons, startsWith_at here]
        rfl
      · obtain ⟨byte, tail, text, kind⟩ := numeral.start
        have finite : lib.finite valuedouble = true := by
          by_contra infinite
          rw [Doubles.numberText, if_pos (by simpa using infinite)] at text
          obtain rfl := (List.cons.inj text).1
          exact absurd kind (by decide)
        have first : At content offset (byte :: (tail ++ rest)) := by
          rw [← List.cons_append, ← text]
          exact here
        have other : byte ≠ 110 ∧ byte ≠ 102 ∧ byte ≠ 116 ∧ byte ≠ 34 := by
          refine ⟨?_, ?_, ?_, ?_⟩ <;> rintro rfl <;> exact absurd kind (by decide)
        rw [parseValue.eq_def, find_words_none first ⟨other.1, other.2.1, other.2.2.1⟩,
          getElem?_at first]
        simp only
        rw [if_neg other.2.2.2, if_pos kind]
        exact parseNumber_text laws numeral finite here stops
  | string valuestring =>
      intro content offset depth format rest here stops
      have first : At content offset (34 :: _) := here
      rw [parseValue.eq_def, find_words_none first (by decide), getElem?_at first]
      simp only
      rw [if_pos trivial, parseString_printString valuestring here, ok_bind, CString.of_bytes]
      rfl
  | array child ih =>
      intro content offset depth format rest here stops
      obtain ⟨levels, rfl⟩ : ∃ fewer, levels = fewer + 1 :=
        Nat.exists_eq_succ_of_ne_zero (by
          rintro rfl
          exact absurd shallow (Nat.not_succ_le_zero _))
      have reads : ∀ item ∈ child, Rereads levels item := fun item inside =>
        ih item inside levels ((depth_le_of_mem inside).trans (Nat.le_of_succ_le_succ shallow))
      have first : At content offset (91 :: _) := here
      rw [parseValue.eq_def, find_words_none first (by decide), getElem?_at first]
      simp only
      rw [if_neg (by decide), if_neg (by decide), if_pos trivial]
      exact parseArray_text laws reads here
  | object child ih =>
      intro content offset depth format rest here stops
      obtain ⟨levels, rfl⟩ : ∃ fewer, levels = fewer + 1 :=
        Nat.exists_eq_succ_of_ne_zero (by
          rintro rfl
          exact absurd shallow (Nat.not_succ_le_zero _))
      have reads : ∀ member ∈ child, Rereads levels member.2 := fun member inside =>
        ih member inside levels
          ((depth_le_of_mem_members inside).trans (Nat.le_of_succ_le_succ shallow))
      have first : At content offset (123 :: _) := here
      rw [parseValue.eq_def, find_words_none first (by decide), getElem?_at first]
      simp only
      rw [if_neg (by decide), if_neg (by decide), if_neg (by decide), if_pos trivial]
      exact parseObject_text laws reads here

/-- The text of a tree is read as the tree, whether it is printed on one line or not. -/
theorem parse_text (laws : lib.Lawful) {item : JsonItem lib} (shallow : item.depth ≤ nestingLimit)
    {value : CString} (same : value.bytes = item.text format 0) :
    parse lib value = .ok item.reread := by
  obtain ⟨byte, tail, text, visible, -, other⟩ := item.text_cons laws format 0
  have here : At (value.bytes ++ [0]) 0 (item.text format 0 ++ [0]) := .start (by rw [same])
  have first : At (value.bytes ++ [0]) 0 (byte :: (tail ++ [0])) := by
    rw [← List.cons_append, ← text]
    exact here
  have bom : skipUtf8Bom (value.bytes ++ [0]) = 0 := by
    rw [skipUtf8Bom, startsWith_at first, if_neg]
    simp [other]
  have some_ : (value.bytes ++ [0]).length ≠ 0 := by
    rw [List.length_append, List.length_singleton]
    omega
  rw [parse, parseWithLength, if_neg some_, bom, bufferSkipWhitespace_visible first visible,
    parseValue_text laws item nestingLimit shallow here (stops_cons (by decide) []), ok_bind]

/-- What is printed is read back as the tree, its numbers as they are printed. -/
theorem parse_printed (laws : lib.Lawful) (heap : Allocator) (item : JsonItem lib) (format : Bool)
    (printed : Bytes) (ran : print heap item format = .ok printed) :
    parse lib (CString.of printed) = .ok item.reread := by
  obtain ⟨rfl, shallow⟩ := print_ok laws ran
  have text : (CString.of (item.text format 0 ++ [0])).bytes = item.text format 0 :=
    terminated_append_nul ⟨item.text format 0, item.nulFree_text laws format 0⟩ []
  exact parse_text laws shallow text

theorem parse_printed_array :
    let item : JsonItem Doubles.integers := .array [.string ⟨[10], by decide⟩, .null]
    ∃ printed, print ⟨fun _ => true, fun _ _ => 0⟩ item true = .ok printed ∧
      parse Doubles.integers (CString.of printed) = .ok item.reread := by
  intro item
  have ran : print ⟨fun _ => true, fun _ _ => 0⟩ item true = .ok (item.text true 0 ++ [0]) :=
    print_granted Doubles.integers_lawful (fun _ _ => rfl) (by rw [Fits]; decide) (by decide)
  exact ⟨_, ran, parse_printed Doubles.integers_lawful _ item true _ ran⟩

end JsonParse

end FreeCli

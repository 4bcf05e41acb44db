import FreeCli.Core.JsonReread

namespace FreeCli.JsonParse

open Words JsonText JsonPrint JsonItem

/-! Texts that other programs write: any whitespace between the tokens, any spelling of the
strings, any number that `strtod` reads. -/

variable {lib : Doubles}

def Blank (spaces : Bytes) : Prop := ∀ byte ∈ spaces, byte ≤ 32

instance (spaces : Bytes) : Decidable (Blank spaces) := List.decidableBAll _ _

theorem Blank.append {front back : Bytes} (one : Blank front) (two : Blank back) :
    Blank (front ++ back) := fun byte inside =>
  (List.mem_append.1 inside).elim (one byte) (two byte)

/-- An element of an array or a value of an object, between whitespace. -/
structure Element (lib : Doubles) where
  front : Bytes
  item : JsonItem lib
  text : Bytes
  back : Bytes

/-- `front "spelling" before : value` -/
structure Member (lib : Doubles) where
  front : Bytes
  spelling : Bytes
  name : Bytes
  before : Bytes
  value : Element lib

def Element.written (element : Element lib) : Bytes :=
  element.front ++ (element.text ++ element.back)

def Member.written (member : Member lib) : Bytes :=
  member.front ++ (34 :: (member.spelling ++ 34 :: (member.before ++ 58 :: member.value.written)))

def Member.pair (member : Member lib) : CString × JsonItem lib :=
  (CString.of member.name, member.value.item)

def separated : List Bytes → Bytes
  | [] => []
  | [text] => text
  | text :: texts => text ++ 44 :: separated texts

/-- The text stands for the item. -/
inductive Written : JsonItem lib → Bytes → Prop where
  | null : Written .null (ascii "null")
  | bool (value : Bool) : Written (.bool value) (ascii (if value then "true" else "false"))
  | number {text : Bytes} {read : lib.Double} (chars : ∀ byte ∈ text, numberChar byte = true)
      (start : ∃ byte ∈ text.head?, byte = 45 ∨ isDigit byte = true)
      (whole : lib.strtod text = some (read, text.length)) :
      Written (.number (lib.toInt read) read) text
  | string {text output : Bytes} (spelled : Spelled text output) :
      Written (.string (CString.of output)) (34 :: (text ++ [34]))
  | emptyArray {spaces : Bytes} (blank : Blank spaces) :
      Written (.array []) (91 :: (spaces ++ [93]))
  | array {elements : List (Element lib)} (some_ : elements ≠ [])
      (blank : ∀ element ∈ elements, Blank element.front ∧ Blank element.back)
      (written : ∀ element ∈ elements, Written element.item element.text) :
      Written (.array (elements.map Element.item))
        (91 :: (separated (elements.map Element.written) ++ [93]))
  | emptyObject {spaces : Bytes} (blank : Blank spaces) :
      Written (.object []) (123 :: (spaces ++ [125]))
  | object {members : List (Member lib)} (some_ : members ≠ [])
      (blank : ∀ member ∈ members, Blank member.front ∧ Blank member.before ∧
        Blank member.value.front ∧ Blank member.value.back)
      (spelled : ∀ member ∈ members, Spelled member.spelling member.name)
      (written : ∀ member ∈ members, Written member.value.item member.value.text) :
      Written (.object (members.map Member.pair))
        (123 :: (separated (members.map Member.written) ++ [125]))

theorem Written.cons {item : JsonItem lib} {text : Bytes} (written : Written item text) :
    ∃ byte rest, text = byte :: rest ∧ 32 < byte ∧ byte ≠ 93 ∧ byte ≠ 0xEF := by
  cases written with
  | null => exact ⟨110, _, rfl, by decide⟩
  | bool value => cases value <;> exact ⟨_, _, rfl, by decide⟩
  | number chars start whole =>
      obtain ⟨byte, first, kind⟩ := start
      obtain ⟨rest, same⟩ := List.head?_eq_some_iff.1 first
      refine ⟨byte, rest, same, ?_⟩
      rcases kind with rfl | digit
      · decide
      · simp only [isDigit, Bool.and_eq_true, decide_eq_true_eq] at digit
        refine ⟨UInt8.lt_iff_toNat_lt.2 (by show 32 < byte.toNat; omega), ?_, ?_⟩ <;>
          (rintro rfl; exact absurd digit (by decide))
  | string spelled => exact ⟨34, _, rfl, by decide⟩
  | emptyArray blank | array some_ blank written => exact ⟨91, _, rfl, by decide⟩
  | emptyObject blank | object some_ blank spelled written => exact ⟨123, _, rfl, by decide⟩

variable {content : Bytes} {offset levels : Nat} {rest : Bytes}

def Reads (levels : Nat) (item : JsonItem lib) (text : Bytes) : Prop :=
  ∀ {content : Bytes} {offset : Nat} {rest : Bytes}, At content offset (text ++ rest) →
    Stops rest → parseValue content lib levels offset = .ok (item, offset + text.length)

theorem stops_blank {back : Bytes} {byte : UInt8} (blank : Blank back)
    (other : numberChar byte = false) (rest : Bytes) : Stops (back ++ byte :: rest) := by
  cases back with
  | nil => exact stops_cons other rest
  | cons space back =>
      exact stops_cons (numberChar_blank (blank space List.mem_cons_self)) _

theorem Reads.element {element : Element lib} {byte : UInt8}
    (reads : Reads levels element.item element.text) (written : Written element.item element.text)
    (front : Blank element.front) (back : Blank element.back) (visible : 32 < byte)
    (other : numberChar byte = false)
    (here : At content offset (element.written ++ byte :: rest)) :
    parseValue content lib levels (bufferSkipWhitespace content offset) =
        .ok (element.item, offset + element.front.length + element.text.length) ∧
      bufferSkipWhitespace content (offset + element.front.length + element.text.length) =
        offset + element.written.length := by
  obtain ⟨first, tail, text, seen, -⟩ := written.cons
  simp only [Element.written, List.append_assoc] at here
  have skipped : bufferSkipWhitespace content offset = offset + element.front.length := by
    rw [text] at here
    exact bufferSkipWhitespace_blank here front seen
  have value := here.skip
  refine ⟨by rw [skipped, reads value (stops_blank back other rest)], ?_⟩
  rw [bufferSkipWhitespace_blank value.skip back visible, Element.written, List.length_append,
    List.length_append]
  omega

theorem parseElements_written {elements : List (Element lib)} (some_ : elements ≠ [])
    (blank : ∀ element ∈ elements, Blank element.front ∧ Blank element.back)
    (written : ∀ element ∈ elements, Written element.item element.text)
    (reads : ∀ element ∈ elements, Reads levels element.item element.text) {rounds : Nat}
    (here : At content (offset + 1) (separated (elements.map Element.written) ++ 93 :: rest))
    (enough : content.length ≤ offset + rounds) :
    parseElements content (parseValue content lib levels) rounds offset =
      .ok (elements.map Element.item,
        offset + 1 + (separated (elements.map Element.written)).length) := by
  induction elements generalizing offset rounds with
  | nil => contradiction
  | cons element elements ih =>
      obtain ⟨front, back⟩ := blank element List.mem_cons_self
      have itself : Reads levels element.item element.text := reads element List.mem_cons_self
      have text := written element List.mem_cons_self
      cases rounds with
      | zero =>
          have length := here.length_eq
          rw [List.length_append, List.length_cons] at length
          omega
      | succ rounds =>
          cases elements with
          | nil =>
              have single : separated ([element].map Element.written) = element.written := rfl
              rw [single] at here ⊢
              obtain ⟨read, skipped⟩ := itself.element text front back (by decide) (by decide) here
              rw [parseElements, read, ok_bind]
              simp only
              rw [skipped, getElem?_at here.skip, if_neg (by decide)]
              rfl
          | cons next elements =>
              have cut : separated ((element :: next :: elements).map Element.written) =
                  element.written ++ 44 :: separated ((next :: elements).map Element.written) := rfl
              rw [cut, List.append_assoc, List.cons_append] at here
              obtain ⟨read, skipped⟩ := itself.element text front back (by decide) (by decide) here
              have more := ih (List.cons_ne_nil _ _)
                (fun other member => blank other (List.mem_cons_of_mem element member))
                (fun other member => written other (List.mem_cons_of_mem element member))
                (fun other member => reads other (List.mem_cons_of_mem element member))
                here.skip.skip8
                (show content.length ≤ _ + rounds by omega)
              rw [parseElements, read, ok_bind]
              simp only
              rw [skipped, getElem?_at here.skip, if_pos rfl, more, ok_bind, cut]
              refine congrArg (fun last =>
                Except.ok ((element :: next :: elements).map Element.item, last)) ?_
              rw [List.length_append, List.length_cons]
              omega

theorem parseMember_written {member : Member lib} {byte : UInt8}
    (blank : Blank member.front ∧ Blank member.before ∧ Blank member.value.front ∧
      Blank member.value.back)
    (spelled : Spelled member.spelling member.name)
    (written : Written member.value.item member.value.text)
    (reads : Reads levels member.value.item member.value.text) (visible : 32 < byte)
    (other : numberChar byte = false)
    (here : At content (offset + 1) (member.written ++ byte :: rest)) :
    parseMember content (parseValue content lib levels) offset =
      .ok (member.pair, offset + 1 + member.written.length) := by
  obtain ⟨front, before, valueFront, valueBack⟩ := blank
  have whole := here
  rw [Member.written] at here
  simp only [List.append_assoc, List.cons_append] at here
  have length := here.length_eq
  simp only [List.length_append, List.length_cons] at length
  have skipped : bufferSkipWhitespace content (offset + 1) = offset + 1 + member.front.length :=
    bufferSkipWhitespace_blank here front (by decide)
  have key := here.skip
  rw [parseMember, if_neg (by omega), skipped, parseString_spelled spelled key, ok_bind]
  simp only
  have behind := key.skip8.skip.skip8
  have place : offset + 1 + member.front.length + (member.spelling.length + 2) =
      offset + 1 + member.front.length + 1 + member.spelling.length + 1 := by omega
  have colon := behind.skip
  obtain ⟨read, last⟩ := reads.element written valueFront valueBack visible other colon.skip8
  rw [place, bufferSkipWhitespace_blank behind before (by decide), getElem?_at colon,
    if_neg (by simp), read, ok_bind]
  simp only
  rw [last]
  refine congrArg (fun last => Except.ok (member.pair, last)) ?_
  simp only [Member.written, List.length_append, List.length_cons]
  omega

theorem parseMembers_written {members : List (Member lib)} (some_ : members ≠ [])
    (blank : ∀ member ∈ members, Blank member.front ∧ Blank member.before ∧
      Blank member.value.front ∧ Blank member.value.back)
    (spelled : ∀ member ∈ members, Spelled member.spelling member.name)
    (written : ∀ member ∈ members, Written member.value.item member.value.text)
    (reads : ∀ member ∈ members, Reads levels member.value.item member.value.text) {rounds : Nat}
    (here : At content (offset + 1) (separated (members.map Member.written) ++ 125 :: rest))
    (enough : content.length ≤ offset + rounds) :
    parseMembers content (parseValue content lib levels) rounds offset =
      .ok (members.map Member.pair,
        offset + 1 + (separated (members.map Member.written)).length) := by
  induction members generalizing offset rounds with
  | nil => contradiction
  | cons member members ih =>
      have spaces := blank member List.mem_cons_self
      have key := spelled member List.mem_cons_self
      have text := written member List.mem_cons_self
      have itself : Reads levels member.value.item member.value.text :=
        reads member List.mem_cons_self
      cases rounds with
      | zero =>
          have length := here.length_eq
          rw [List.length_append, List.length_cons] at length
          omega
      | succ rounds =>
          cases members with
          | nil =>
              have single : separated ([member].map Member.written) = member.written := rfl
              rw [single] at here ⊢
              rw [parseMembers,
                parseMember_written spaces key text itself (by decide) (by decide) here, ok_bind]
              simp only
              rw [getElem?_at here.skip, if_neg (by decide)]
              rfl
          | cons next members =>
              have cut : separated ((member :: next :: members).map Member.written) =
                  member.written ++ 44 :: separated ((next :: members).map Member.written) := rfl
              rw [cut, List.append_assoc, List.cons_append] at here
              have more := ih (List.cons_ne_nil _ _)
                (fun other inside => blank other (List.mem_cons_of_mem member inside))
                (fun other inside => spelled other (List.mem_cons_of_mem member inside))
                (fun other inside => written other (List.mem_cons_of_mem member inside))
                (fun other inside => reads other (List.mem_cons_of_mem member inside))
                here.skip.skip8
                (show content.length ≤ _ + rounds by omega)
              rw [parseMembers,
                parseMember_written spaces key text itself (by decide) (by decide) here, ok_bind]
              simp only
              rw [getElem?_at here.skip, if_pos rfl, more, ok_bind, cut]
              refine congrArg (fun last =>
                Except.ok ((member :: next :: members).map Member.pair, last)) ?_
              rw [List.length_append, List.length_cons]
              omega

theorem parseArray_empty {spaces : Bytes} (blank : Blank spaces)
    (here : At content offset (91 :: (spaces ++ 93 :: rest))) :
    parseArray content (parseValue content lib levels) offset =
      .ok (.array [], offset + (spaces.length + 2)) := by
  rw [parseArray, byteAt_of_at here, ok_bind, if_neg (by simp),
    bufferSkipWhitespace_blank here.skip8 blank (by decide)]
  simp only
  rw [getElem?_at here.skip8.skip, if_pos rfl]
  exact congrArg (fun last => Except.ok (array [], last)) (by omega)

/-- `parse_array` goes one step back in front of the first element, whose whitespace it has
skipped. -/
theorem parseArray_written {element : Element lib} {elements : List (Element lib)}
    (blank : ∀ one ∈ element :: elements, Blank one.front ∧ Blank one.back)
    (written : ∀ one ∈ element :: elements, Written one.item one.text)
    (reads : ∀ one ∈ element :: elements, Reads levels one.item one.text)
    (here : At content offset
      (91 :: (separated ((element :: elements).map Element.written) ++ 93 :: rest))) :
    parseArray content (parseValue content lib levels) offset =
      .ok (.array ((element :: elements).map Element.item),
        offset + ((separated ((element :: elements).map Element.written)).length + 2)) := by
  let first : Element lib := { element with front := [] }
  have cut : separated ((element :: elements).map Element.written) =
      element.front ++ separated ((first :: elements).map Element.written) := by
    cases elements with
    | nil => rfl
    | cons next elements =>
        simp only [List.map_cons, separated, Element.written, first, List.append_assoc,
          List.nil_append]
  rw [cut, List.append_assoc] at here
  obtain ⟨byte, tail, text, visible, other, -⟩ := (written element List.mem_cons_self).cons
  obtain ⟨more, start⟩ : ∃ more, separated ((first :: elements).map Element.written) =
      byte :: more := by
    cases elements with
    | nil =>
        exact ⟨_, by
          simp only [List.map_cons, List.map_nil, separated, Element.written, first, text,
            List.nil_append, List.cons_append]
          rfl⟩
    | cons next elements =>
        exact ⟨_, by
          simp only [List.map_cons, separated, Element.written, first, text, List.nil_append,
            List.cons_append]
          rfl⟩
  have behind := here.skip8
  have value := behind.skip
  have seen := value
  rw [start, List.cons_append] at behind seen
  have length := lt_length_at seen
  have back : offset + 1 + element.front.length - 1 + 1 = offset + 1 + element.front.length := by
    omega
  have read := parseElements_written (List.cons_ne_nil first elements)
    (fun one member => (List.mem_cons.1 member).elim
      (fun same => same ▸ ⟨fun _ inside => absurd inside List.not_mem_nil,
        (blank element List.mem_cons_self).2⟩)
      fun later => blank one (List.mem_cons_of_mem element later))
    (fun one member => (List.mem_cons.1 member).elim
      (fun same => same ▸ written element List.mem_cons_self)
      fun later => written one (List.mem_cons_of_mem element later))
    (fun one member => (List.mem_cons.1 member).elim
      (fun same => same ▸ reads element List.mem_cons_self)
      fun later => reads one (List.mem_cons_of_mem element later))
    (show At content (offset + 1 + element.front.length - 1 + 1) _ from back ▸ value)
    (Nat.le_add_left _ _)
  rw [back] at read
  rw [parseArray, byteAt_of_at here, ok_bind, if_neg (by simp),
    bufferSkipWhitespace_blank behind (blank element List.mem_cons_self).1 visible]
  simp only
  rw [getElem?_at seen, if_neg (by simpa using other), if_neg (by omega), read, ok_bind]
  simp only
  rw [getElem?_at value.skip, if_pos rfl, cut, List.length_append]
  exact congrArg (fun last => Except.ok (array (element.item :: elements.map Element.item), last))
    (by omega)

theorem parseObject_empty {spaces : Bytes} (blank : Blank spaces)
    (here : At content offset (123 :: (spaces ++ 125 :: rest))) :
    parseObject content (parseValue content lib levels) offset =
      .ok (.object [], offset + (spaces.length + 2)) := by
  rw [parseObject, getElem?_at here, if_neg (by simp),
    bufferSkipWhitespace_blank here.skip8 blank (by decide)]
  simp only
  rw [getElem?_at here.skip8.skip, if_pos rfl]
  exact congrArg (fun last => Except.ok (object [], last)) (by omega)

theorem parseObject_written {member : Member lib} {members : List (Member lib)}
    (blank : ∀ one ∈ member :: members, Blank one.front ∧ Blank one.before ∧
      Blank one.value.front ∧ Blank one.value.back)
    (spelled : ∀ one ∈ member :: members, Spelled one.spelling one.name)
    (written : ∀ one ∈ member :: members, Written one.value.item one.value.text)
    (reads : ∀ one ∈ member :: members, Reads levels one.value.item one.value.text)
    (here : At content offset
      (123 :: (separated ((member :: members).map Member.written) ++ 125 :: rest))) :
    parseObject content (parseValue content lib levels) offset =
      .ok (.object ((member :: members).map Member.pair),
        offset + ((separated ((member :: members).map Member.written)).length + 2)) := by
  let first : Member lib := { member with front := [] }
  have cut : separated ((member :: members).map Member.written) =
      member.front ++ separated ((first :: members).map Member.written) := by
    cases members with
    | nil => rfl
    | cons next members =>
        simp only [List.map_cons, separated, Member.written, first, List.append_assoc,
          List.nil_append]
  rw [cut, List.append_assoc] at here
  obtain ⟨more, start⟩ : ∃ more, separated ((first :: members).map Member.written) =
      34 :: more := by
    cases members with
    | nil => exact ⟨_, rfl⟩
    | cons next members => exact ⟨_, rfl⟩
  have behind := here.skip8
  have value := behind.skip
  have seen := value
  rw [start, List.cons_append] at behind seen
  have length := lt_length_at seen
  have back : offset + 1 + member.front.length - 1 + 1 = offset + 1 + member.front.length := by
    omega
  have read := parseMembers_written (List.cons_ne_nil first members)
    (fun one inside => (List.mem_cons.1 inside).elim
      (fun same => same ▸ ⟨fun _ inside => absurd inside List.not_mem_nil,
        (blank member List.mem_cons_self).2⟩)
      fun later => blank one (List.mem_cons_of_mem member later))
    (fun one inside => (List.mem_cons.1 inside).elim
      (fun same => same ▸ spelled member List.mem_cons_self)
      fun later => spelled one (List.mem_cons_of_mem member later))
    (fun one inside => (List.mem_cons.1 inside).elim
      (fun same => same ▸ written member List.mem_cons_self)
      fun later => written one (List.mem_cons_of_mem member later))
    (fun one inside => (List.mem_cons.1 inside).elim
      (fun same => same ▸ reads member List.mem_cons_self)
      fun later => reads one (List.mem_cons_of_mem member later))
    (show At content (offset + 1 + member.front.length - 1 + 1) _ from back ▸ value)
    (Nat.le_add_left _ _)
  rw [back] at read
  rw [parseObject, getElem?_at here, if_neg (by simp),
    bufferSkipWhitespace_blank behind (blank member List.mem_cons_self).1 (by decide)]
  simp only
  rw [getElem?_at seen, if_neg (by simp), if_neg (by omega), read, ok_bind]
  simp only
  rw [getElem?_at value.skip, if_pos rfl, cut, List.length_append]
  exact congrArg (fun last => Except.ok (object (member.pair :: members.map Member.pair), last))
    (by omega)

theorem depth_le_array {elements : List (Element lib)} {element : Element lib}
    (member : element ∈ elements) :
    element.item.depth + 1 ≤ (JsonItem.array (elements.map Element.item)).depth :=
  Nat.succ_le_succ (depth_le_of_mem (List.mem_map_of_mem member))

theorem depth_le_object {members : List (Member lib)} {member : Member lib}
    (inside : member ∈ members) :
    member.value.item.depth + 1 ≤ (JsonItem.object (members.map Member.pair)).depth :=
  Nat.succ_le_succ (depth_le_of_mem_members (List.mem_map_of_mem (f := Member.pair) inside))

theorem parseValue_written {item : JsonItem lib} {text : Bytes} (written : Written item text)
    (levels : Nat) (shallow : item.depth ≤ levels) : Reads levels item text := by
  induction written generalizing levels with
  | null =>
      intro content offset rest here stops
      refine parseValue_word ?_
      simp only [words, List.find?_cons, startsWith_at here]
      rfl
  | bool value =>
      intro content offset rest here stops
      cases value with
      | false =>
          refine parseValue_word ?_
          simp only [words, List.find?_cons, startsWith_at here]
          rfl
      | true =>
          refine parseValue_word ?_
          simp only [words, List.find?_cons, startsWith_at here]
          rfl
  | number chars start whole =>
      intro content offset rest here stops
      obtain ⟨byte, first, kind⟩ := start
      obtain ⟨tail, same⟩ := List.head?_eq_some_iff.1 first
      have there := here
      rw [same, List.cons_append] at there
      have other : byte ≠ 110 ∧ byte ≠ 102 ∧ byte ≠ 116 ∧ byte ≠ 34 := by
        refine ⟨?_, ?_, ?_, ?_⟩ <;> rintro rfl <;> exact absurd kind (by decide)
      rw [parseValue.eq_def, find_words_none there ⟨other.1, other.2.1, other.2.2.1⟩,
        getElem?_at there]
      simp only
      rw [if_neg other.2.2.2, if_pos kind, parseNumber, drop_at here]
      have taken : (_ ++ rest).takeWhile numberChar = _ := takeWhile_chars chars stops
      rw [taken, whole]
  | @string text output spelled =>
      intro content offset rest here stops
      have there : At content offset (34 :: (text ++ 34 :: rest)) := by
        simpa only [List.cons_append, List.append_assoc, List.nil_append] using here
      rw [parseValue.eq_def, find_words_none there (by decide), getElem?_at there]
      simp only
      rw [if_pos trivial, parseString_spelled spelled there, ok_bind, List.length_cons,
        List.length_append, List.length_singleton]
  | @emptyArray spaces blank =>
      intro content offset rest here stops
      obtain ⟨levels, rfl⟩ : ∃ fewer, levels = fewer + 1 :=
        Nat.exists_eq_succ_of_ne_zero (Nat.ne_zero_of_lt shallow)
      have there : At content offset (91 :: (spaces ++ 93 :: rest)) := by
        simpa only [List.cons_append, List.append_assoc, List.nil_append] using here
      rw [parseValue.eq_def, find_words_none there (by decide), getElem?_at there]
      simp only
      rw [if_neg (by decide), if_neg (by decide), if_pos trivial, parseArray_empty blank there,
        List.length_cons, List.length_append, List.length_singleton]
  | @array elements some_ blank written ih =>
      intro content offset rest here stops
      obtain ⟨levels, rfl⟩ : ∃ fewer, levels = fewer + 1 :=
        Nat.exists_eq_succ_of_ne_zero (Nat.ne_zero_of_lt shallow)
      have reads : ∀ one ∈ elements, Reads levels one.item one.text := fun one inside =>
        ih one inside levels (Nat.le_of_succ_le_succ ((depth_le_array inside).trans shallow))
      have there : At content offset
          (91 :: (separated (elements.map Element.written) ++ 93 :: rest)) := by
        simpa only [List.cons_append, List.append_assoc, List.nil_append] using here
      rw [parseValue.eq_def, find_words_none there (by decide), getElem?_at there]
      simp only
      rw [if_neg (by decide), if_neg (by decide), if_pos trivial]
      cases elements with
      | nil => contradiction
      | cons element elements =>
          rw [parseArray_written blank written reads there, List.length_cons, List.length_append,
            List.length_singleton]
  | @emptyObject spaces blank =>
      intro content offset rest here stops
      obtain ⟨levels, rfl⟩ : ∃ fewer, levels = fewer + 1 :=
        Nat.exists_eq_succ_of_ne_zero (Nat.ne_zero_of_lt shallow)
      have there : At content offset (123 :: (spaces ++ 125 :: rest)) := by
        simpa only [List.cons_append, List.append_assoc, List.nil_append] using here
      rw [parseValue.eq_def, find_words_none there (by decide), getElem?_at there]
      simp only
      rw [if_neg (by decide), if_neg (by decide), if_neg (by decide), if_pos trivial,
        parseObject_empty blank there, List.length_cons, List.length_append, List.length_singleton]
  | @object members some_ blank spelled written ih =>
      intro content offset rest here stops
      obtain ⟨levels, rfl⟩ : ∃ fewer, levels = fewer + 1 :=
        Nat.exists_eq_succ_of_ne_zero (Nat.ne_zero_of_lt shallow)
      have reads : ∀ one ∈ members, Reads levels one.value.item one.value.text :=
        fun one inside => ih one inside levels
          (Nat.le_of_succ_le_succ ((depth_le_object inside).trans shallow))
      have there : At content offset
          (123 :: (separated (members.map Member.written) ++ 125 :: rest)) := by
        simpa only [List.cons_append, List.append_assoc, List.nil_append] using here
      rw [parseValue.eq_def, find_words_none there (by decide), getElem?_at there]
      simp only
      rw [if_neg (by decide), if_neg (by decide), if_neg (by decide), if_pos trivial]
      cases members with
      | nil => contradiction
      | cons member members =>
          rw [parseObject_written blank spelled written reads there, List.length_cons,
            List.length_append, List.length_singleton]

def byteOrderMark : Bytes := [0xEF, 0xBB, 0xBF]

theorem parseWithLength_written {item : JsonItem lib} {text mark front rest : Bytes}
    (written : Written item text) (shallow : item.depth ≤ nestingLimit)
    (marked : mark = [] ∨ mark = byteOrderMark) (blank : Blank front) (stops : Stops rest) :
    parseWithLength (mark ++ (front ++ (text ++ (rest ++ [0])))) lib = .ok item := by
  obtain ⟨byte, tail, first, visible, -, other⟩ := written.cons
  have stops_ : Stops (rest ++ [0]) := by
    cases rest with
    | nil => exact stops_cons (by decide) []
    | cons next rest => exact stops
  generalize same : mark ++ (front ++ (text ++ (rest ++ [0]))) = content
  have some_ : content.length ≠ 0 := by
    rw [← same]
    simp only [List.length_append, List.length_singleton]
    omega
  have here : At content 0 (mark ++ (front ++ (text ++ (rest ++ [0])))) := .start same.symm
  have bom : skipUtf8Bom content = mark.length := by
    rcases marked with rfl | rfl
    · -- neither whitespace nor a text begins like a mark
      obtain ⟨start, more, begins, unlike⟩ : ∃ start more,
          front ++ (text ++ (rest ++ [0])) = start :: more ∧ start ≠ 0xEF := by
        cases front with
        | nil => exact ⟨byte, _, by rw [first]; rfl, other⟩
        | cons space front =>
            refine ⟨space, _, rfl, ?_⟩
            rintro rfl
            exact absurd (blank _ List.mem_cons_self) (by decide)
      rw [List.nil_append, begins] at here
      rw [skipUtf8Bom, startsWith_at here, if_neg]
      · rfl
      · simp [unlike]
    · have length := here.length_eq
      simp only [first, byteOrderMark, List.length_append, List.length_cons, List.length_nil]
        at length
      rw [skipUtf8Bom, startsWith_at here, if_pos]
      · rfl
      · exact ⟨by omega, rfl⟩
  have behind := here.skip
  rw [Nat.zero_add] at behind
  have skipped : bufferSkipWhitespace content mark.length = mark.length + front.length := by
    rw [first] at behind
    exact bufferSkipWhitespace_blank behind blank visible
  rw [parseWithLength, if_neg some_, bom, skipped,
    parseValue_written written nestingLimit shallow behind.skip stops_, ok_bind]

/-- Whoever writes the text of an item, `cJSON_Parse` reads the item: behind a byte order mark
and whitespace, and whatever follows it. -/
theorem parse_written {item : JsonItem lib} {text mark front rest : Bytes} {value : CString}
    (written : Written item text) (shallow : item.depth ≤ nestingLimit)
    (marked : mark = [] ∨ mark = byteOrderMark) (blank : Blank front) (stops : Stops rest)
    (same : value.bytes = mark ++ (front ++ (text ++ rest))) : parse lib value = .ok item := by
  have content : value.bytes ++ [0] = mark ++ (front ++ (text ++ (rest ++ [0]))) := by
    rw [same]
    simp only [List.append_assoc]
  rw [parse, content, parseWithLength_written written shallow marked blank stops]

/-- An object over two lines, with an escaped key. -/
theorem parse_written_object :
    parse Doubles.integers ⟨ascii "\x7b\n\"\\u0061\" : true \x7d\n", by decide⟩ =
      .ok (.object [(CString.of (ascii "a"), .bool true)]) := by
  have digits : Digits 48 48 54 49 0x61 := ⟨0, 0, 6, 1, by decide⟩
  have key : Spelled [92, 117, 48, 48, 54, 49] (encodeUtf8 0x61) :=
    (Piece.unit digits (by decide)).spelled
  let member : Member Doubles.integers :=
    ⟨[10], [92, 117, 48, 48, 54, 49], encodeUtf8 0x61, [32], ⟨[32], .bool true, ascii "true", [32]⟩⟩
  have written : Written (.object ([member].map Member.pair))
      (123 :: (separated ([member].map Member.written) ++ [125])) :=
    .object (List.cons_ne_nil member []) (fun one inside => by
        obtain rfl := List.mem_singleton.1 inside
        exact (by decide : Blank [10] ∧ Blank [32] ∧ Blank [32] ∧ Blank [32]))
      (fun one inside => by
        obtain rfl := List.mem_singleton.1 inside
        exact key)
      (fun one inside => by
        obtain rfl := List.mem_singleton.1 inside
        exact .bool true)
  have stops : Stops [10] := stops_cons (by decide) []
  exact parse_written written (by decide) (.inl rfl)
    (fun _ inside => absurd inside List.not_mem_nil) stops (by decide)

end FreeCli.JsonParse

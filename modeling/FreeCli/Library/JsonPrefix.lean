import FreeCli.Library.Json

namespace JsonText

open Words

/-! The parser looks no further than it has read, so a text that is cut short is not taken
for another tree. -/

def Closed {α : Type} (one : Bytes → Option (α × Bytes)) : Prop :=
  ∀ text item rest, one text = some (item, rest) →
    ∀ more, one (text ++ more) = some (item, rest ++ more)

def Settled {α : Type} (one : Bytes → Option (α × Bytes)) : Prop :=
  ∀ text item rest, one text = some (item, rest) → rest ≠ [] →
    ∀ more, one (text ++ more) = some (item, rest ++ more)

/-! ### Numerals and strings -/

theorem readDigits_settled (text : Bytes) (value n : Nat) (rest : Bytes)
    (read : readDigits value text = (n, rest)) (left : rest ≠ []) (more : Bytes) :
    readDigits value (text ++ more) = (n, rest ++ more) := by
  induction text generalizing value with
  | nil =>
      obtain ⟨_, rfl⟩ := Prod.mk.inj read
      contradiction
  | cons byte text ih =>
      rw [readDigits] at read
      rw [List.cons_append, readDigits]
      split at read
      next isDigit =>
        rw [if_pos isDigit]
        exact ih _ read
      next other =>
        rw [if_neg other]
        obtain ⟨rfl, rfl⟩ := Prod.mk.inj read
        rfl

theorem parseNumber_settled : Settled parseNumber := by
  intro text value rest read left more
  cases text with
  | nil => contradiction
  | cons byte text =>
      rw [parseNumber] at read
      rw [List.cons_append, parseNumber]
      split at read
      next minus =>
        obtain ⟨rfl, rfl⟩ := Prod.mk.inj (Option.some.inj read)
        rw [if_pos minus, readDigits_settled text 0 _ _ rfl left more]
      next unsigned =>
        rw [if_neg unsigned]
        split at read
        next isDigit =>
          obtain ⟨rfl, rfl⟩ := Prod.mk.inj (Option.some.inj read)
          rw [if_pos isDigit, ← List.cons_append,
            readDigits_settled (byte :: text) 0 _ _ rfl left more]
        next => contradiction

theorem map_append {α β : Type} {run : Bytes → Option (α × Bytes)} {make : α → β}
    {text : Bytes} {result : β} {rest : Bytes}
    (closed : ∀ item rest, run text = some (item, rest) →
      ∀ more, run (text ++ more) = some (item, rest ++ more))
    (read : (run text).map (fun (item, rest) => (make item, rest)) = some (result, rest))
    (more : Bytes) :
    (run (text ++ more)).map (fun (item, rest) => (make item, rest)) =
      some (result, rest ++ more) := by
  obtain ⟨⟨item, left⟩, ran, made⟩ := Option.map_eq_some_iff.1 read
  obtain ⟨rfl, rfl⟩ := Prod.mk.inj made
  rw [closed item left ran more]
  rfl

theorem parseChars_closed : Closed parseChars := by
  intro text
  induction text using parseChars.induct with
  | case1 =>
      intro chars rest read
      rw [parseChars] at read
      contradiction
  | case2 tail =>
      intro chars rest read more
      rw [parseChars_close] at read
      obtain ⟨rfl, rfl⟩ := Prod.mk.inj (Option.some.inj read)
      exact parseChars_close _
  | case3 high low tail _ ih =>
      intro chars rest read more
      rw [parseChars_hex] at read
      exact (parseChars_hex high low (tail ++ more)).trans (map_append ih read more)
  | case4 letter tail _ byte same found _ ih =>
      intro chars rest read more
      have plain : letter ≠ 117 := by
        rintro rfl
        have unknown : (escapes.find? fun pair => pair.2 = 117) = none := by decide
        rw [unknown] at found
        contradiction
      rw [parseChars_letter plain tail found] at read
      exact (parseChars_letter plain (tail ++ more) found).trans (map_append ih read more)
  | case5 letter tail unhex unknown _ =>
      intro chars rest read
      rw [parseChars.eq_def] at read
      simp only [if_true, unknown] at read
      rw [if_neg (by decide)] at read
      contradiction
  | case6 =>
      intro chars rest read
      rw [parseChars.eq_def] at read
      simp at read
  | case7 byte tail unquoted unescaped ih =>
      intro chars rest read more
      rw [parseChars_plain unquoted unescaped] at read
      exact (parseChars_plain unquoted unescaped (tail ++ more)).trans (map_append ih read more)

theorem parseString_closed : Closed parseString := by
  intro text string rest read more
  cases text with
  | nil => contradiction
  | cons byte text =>
      rw [parseString] at read
      rw [List.cons_append, parseString]
      split at read
      next quote =>
        rw [if_pos quote]
        exact map_append (parseChars_closed text) read more
      next => contradiction

section Lists

variable {α : Type} {close : UInt8} {one : Bytes → Option (α × Bytes)}

theorem parseMore_closed (settled : Settled one) (fuel : Nat) (text : Bytes)
    (items : List α) (rest : Bytes) (read : parseMore close one fuel text = some (items, rest))
    (enough : fuel ≤ more) (after : Bytes) :
    parseMore close one more (text ++ after) = some (items, rest ++ after) := by
  induction fuel generalizing more text items with
  | zero => cases text <;> contradiction
  | succ fuel ih =>
      obtain ⟨more, rfl⟩ : ∃ n, more = n + 1 := ⟨more - 1, by omega⟩
      cases text with
      | nil => contradiction
      | cons byte text =>
          rw [parseMore] at read
          rw [List.cons_append, parseMore]
          split at read
          next closes =>
            rw [if_pos closes]
            obtain ⟨rfl, rfl⟩ := Prod.mk.inj (Option.some.inj read)
            rfl
          next open_ =>
            rw [if_neg open_]
            split at read
            next comma =>
              rw [if_pos comma]
              obtain ⟨⟨item, left⟩, first, others⟩ := Option.bind_eq_some_iff.1 read
              obtain ⟨⟨tail, last⟩, remaining, made⟩ := Option.map_eq_some_iff.1 others
              obtain ⟨rfl, rfl⟩ := Prod.mk.inj made
              have filled : left ≠ [] := by
                rintro rfl
                cases fuel <;> contradiction
              rw [settled _ _ _ first filled, Option.bind_some]
              simp only [ih _ _ remaining (Nat.le_of_succ_le_succ enough), Option.map_some]
            next => contradiction

theorem parseList_closed (settled : Settled one) (starts : one [] = none) :
    Closed (parseList close one) := by
  intro text items rest read more
  rw [parseList] at read ⊢
  split at read
  next closes =>
    obtain ⟨rfl, rfl⟩ := Prod.mk.inj (Option.some.inj read)
    cases text with
    | nil => contradiction
    | cons byte text => exact if_pos closes
  next open_ =>
    obtain ⟨⟨item, left⟩, first, others⟩ := Option.bind_eq_some_iff.1 read
    obtain ⟨⟨tail, last⟩, remaining, made⟩ := Option.map_eq_some_iff.1 others
    obtain ⟨rfl, rfl⟩ := Prod.mk.inj made
    have filled : left ≠ [] := by
      rintro rfl
      contradiction
    have unclosed : ¬(text ++ more).head? = some close := by
      cases text with
      | nil =>
          rw [starts] at first
          contradiction
      | cons byte text => exact open_
    rw [if_neg unclosed, settled _ _ _ first filled, Option.bind_some]
    simp only [parseMore_closed settled _ _ _ _ remaining
      (List.length_append ▸ Nat.le_add_right ..), Option.map_some]

end Lists

namespace Json

variable {one : Bytes → Option (Json × Bytes)}

theorem parseField_settled (settled : Settled one) : Settled (parseField one) := by
  intro text field rest read left more
  obtain ⟨⟨key, tail⟩, name, value⟩ := Option.bind_eq_some_iff.1 read
  simp only at value
  split at value
  next colon =>
    obtain ⟨⟨item, last⟩, ran, made⟩ := Option.map_eq_some_iff.1 value
    obtain ⟨rfl, rfl⟩ := Prod.mk.inj made
    cases tail with
    | nil => contradiction
    | cons byte tail =>
        rw [parseField, parseString_closed _ _ _ name, Option.bind_some]
        refine (if_pos colon).trans ?_
        rw [List.tail_cons] at ran
        rw [List.cons_append, List.tail_cons, settled _ _ _ ran left]
        rfl
  next => contradiction

theorem parseObject_closed (settled : Settled one) :
    Closed (parseList 125 (parseField one)) :=
  parseList_closed (parseField_settled settled) rfl

theorem find_literal (member : literal ∈ literals) (rest : Bytes) :
    (literals.find? fun other => other.1.isPrefixOf (literal.1 ++ rest)) = some literal := by
  simp only [literals, List.mem_cons, List.not_mem_nil, or_false] at member
  rcases member with rfl | rfl | rfl
  · rfl
  · rfl
  · rfl

theorem parseNumber_first (read : parseNumber (byte :: text) = some result) :
    byte = 45 ∨ isDigit byte = true := by
  rw [parseNumber] at read
  split at read
  next minus => exact .inl minus
  next =>
    split at read
    next isDigit => exact .inr isDigit
    next => contradiction

theorem parseValue_settled (fuel : Nat) : Settled (parseValue fuel) := by
  induction fuel with
  | zero =>
      intro text value rest read
      cases text <;> contradiction
  | succ fuel ih =>
      intro text value rest read left more
      cases text with
      | nil => contradiction
      | cons byte text =>
          have empty : parseValue fuel [] = none := by cases fuel <;> rfl
          rw [parseValue] at read
          rw [List.cons_append, parseValue]
          split at read
          next array =>
            rw [if_pos array]
            exact map_append (parseList_closed ih empty text) read more
          next notArray =>
            rw [if_neg notArray]
            split at read
            next object =>
              rw [if_pos object]
              exact map_append (parseObject_closed ih text) read more
            next notObject =>
              rw [if_neg notObject]
              split at read
              next quote =>
                rw [if_pos quote]
                exact map_append (parseString_closed (byte :: text)) read more
              next notString =>
                rw [if_neg notString]
                split at read
                next word literal found =>
                  have member := List.mem_of_find?_eq_some found
                  have starts := List.find?_some found
                  simp only at starts
                  obtain ⟨tail, whole⟩ := List.isPrefixOf_iff_prefix.1 starts
                  obtain ⟨rfl, rfl⟩ := Prod.mk.inj (Option.some.inj read)
                  have again := find_literal member (tail ++ more)
                  simp only at again
                  rw [← List.cons_append, ← whole, List.append_assoc, again, List.drop_left]
                  simp only [List.drop_left]
                next =>
                  obtain ⟨⟨number, last⟩, ran, made⟩ := Option.map_eq_some_iff.1 read
                  obtain ⟨rfl, rfl⟩ := Prod.mk.inj made
                  rw [find_literal_number (parseNumber_first ran), ← List.cons_append,
                    parseNumber_settled _ _ _ ran left]
                  rfl

/-- The text of an object is not an object, nor anything else, before it is whole. -/
theorem parse_front {fields : List (CString × Json)} {front back : Bytes}
    (shallow : (obj fields).depth ≤ nestingLimit)
    (split : (obj fields).print = front ++ back) (short : back ≠ []) :
    parse front = none := by
  by_contra read
  obtain ⟨value, read⟩ := Option.ne_none_iff_exists'.1 read
  obtain ⟨⟨value, rest⟩, read, _⟩ := Option.map_eq_some_iff.1 read
  have ends : Ends [] := fun byte first => by contradiction
  have whole := parseValue_print (obj fields) (Nat.lt_succ_of_le shallow) [] ends
  cases front with
  | nil => contradiction
  | cons byte front =>
      rw [print, List.cons_append] at split
      obtain ⟨rfl, inner⟩ := List.cons.inj split
      rw [List.append_nil, print, inner, parseValue, if_neg (by decide), if_pos rfl] at whole
      rw [parseValue, if_neg (by decide), if_pos rfl] at read
      have longer := map_append (parseObject_closed (parseValue_settled nestingLimit) front)
        read back
      rw [whole] at longer
      have left := congrArg Prod.snd (Option.some.inj longer)
      exact short (List.append_eq_nil_iff.1 left.symm).2

end Json

end JsonText

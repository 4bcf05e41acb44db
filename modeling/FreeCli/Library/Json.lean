import FreeCli.Library.Words

namespace JsonText

open Words

/-! JSON trees as C code sees them, their compact text and a parser for it.
Strings are C strings and numbers are integers. -/

inductive Json where
  | null
  | bool (value : Bool)
  | num (value : Int32)
  | str (text : CString)
  | arr (items : List Json)
  | obj (fields : List (CString × Json))

namespace Json

/-- The first field under `key`. -/
def getObjectItem (key : CString) : Json → Option Json
  | obj fields => (fields.find? fun field => field.1 = key).map Prod.snd
  | _ => none

theorem getObjectItem_cons (found key : CString) (value : Json)
    (fields : List (CString × Json)) :
    (obj ((found, value) :: fields)).getObjectItem key =
      if found = key then some value else (obj fields).getObjectItem key := by
  rw [getObjectItem, getObjectItem, List.find?_cons]
  split
  next same =>
    rw [if_pos (by simpa using same)]
    rfl
  next other => rw [if_neg (by simpa using other)]

def children : Json → List Json
  | arr items => items
  | obj fields => fields.map Prod.snd
  | _ => []

def asNumber : Json → Option Int32
  | num value => some value
  | _ => none

def asString : Json → Option CString
  | str text => some text
  | _ => none

mutual

def depth : Json → Nat
  | arr items => depthItems items + 1
  | obj fields => depthFields fields + 1
  | _ => 0

def depthItems : List Json → Nat
  | [] => 0
  | item :: items => max item.depth (depthItems items)

def depthFields : List (CString × Json) → Nat
  | [] => 0
  | (_, value) :: fields => max value.depth (depthFields fields)

end

theorem depth_le_depthItems {items : List Json} (member : item ∈ items) :
    item.depth ≤ depthItems items := by
  induction items with
  | nil => contradiction
  | cons head items ih =>
      rw [depthItems]
      rcases List.mem_cons.1 member with rfl | later
      · exact Nat.le_max_left _ _
      · exact (ih later).trans (Nat.le_max_right _ _)

theorem depth_le_depthFields {fields : List (CString × Json)} (member : field ∈ fields) :
    field.2.depth ≤ depthFields fields := by
  induction fields with
  | nil => contradiction
  | cons head fields ih =>
      rw [depthFields]
      rcases List.mem_cons.1 member with rfl | later
      · exact Nat.le_max_left _ _
      · exact (ih later).trans (Nat.le_max_right _ _)

theorem depth_arr_le {items : List Json} (bound : ∀ item ∈ items, item.depth ≤ n) :
    (arr items).depth ≤ n + 1 := by
  apply Nat.succ_le_succ
  induction items with
  | nil => exact Nat.zero_le n
  | cons item items ih =>
      apply Nat.max_le.2
      constructor
      · exact bound item List.mem_cons_self
      · exact ih fun other member => bound other (List.mem_cons_of_mem item member)

theorem depth_obj_le {fields : List (CString × Json)}
    (bound : ∀ field ∈ fields, field.2.depth ≤ n) : (obj fields).depth ≤ n + 1 := by
  apply Nat.succ_le_succ
  induction fields with
  | nil => exact Nat.zero_le n
  | cons field fields ih =>
      apply Nat.max_le.2
      constructor
      · exact bound field List.mem_cons_self
      · exact ih fun other member => bound other (List.mem_cons_of_mem field member)

end Json

/-- Induction over the values of a tree. -/
@[elab_as_elim]
theorem Json.induct {motive : Json → Prop} (null : motive .null)
    (bool : ∀ value, motive (.bool value)) (num : ∀ value, motive (.num value))
    (str : ∀ text, motive (.str text))
    (arr : ∀ items, (∀ item ∈ items, motive item) → motive (.arr items))
    (obj : ∀ fields : List (CString × Json), (∀ field ∈ fields, motive field.2) →
      motive (.obj fields)) (json : Json) : motive json :=
  match json with
  | .null => null
  | .bool value => bool value
  | .num value => num value
  | .str text => str text
  | .arr items => arr items fun item _ => item.induct null bool num str arr obj
  | .obj fields => obj fields fun field member =>
      have smaller : sizeOf field.2 < 1 + sizeOf fields := by
        have inside := List.sizeOf_lt_of_mem member
        cases field with
        | mk key value =>
            simp only [Prod.mk.sizeOf_spec] at inside ⊢
            omega
      field.2.induct null bool num str arr obj
termination_by sizeOf json

def digit (d : Nat) : UInt8 := UInt8.ofNat (48 + d)

def digits (n : Nat) : Bytes :=
  if n < 10 then [digit n] else digits (n / 10) ++ [digit (n % 10)]

def isDigit (byte : UInt8) : Bool := 48 ≤ byte.toNat && byte.toNat ≤ 57

def readDigits (value : Nat) : Bytes → Nat × Bytes
  | [] => (value, [])
  | byte :: rest =>
      if isDigit byte then readDigits (10 * value + (byte.toNat - 48)) rest
      else (value, byte :: rest)

/-- No numeral goes on here. -/
def Ends (rest : Bytes) : Prop := ∀ byte ∈ rest.head?, isDigit byte = false

theorem toNat_digit (small : d < 10) : (digit d).toNat = 48 + d :=
  UInt8.toNat_ofNat_of_lt' (by simp only [UInt8.size]; omega)

theorem isDigit_digit (small : d < 10) : isDigit (digit d) = true := by
  rw [isDigit, toNat_digit small]
  simp only [Bool.and_eq_true, decide_eq_true_eq]
  omega

theorem readDigits_digit (small : d < 10) (value : Nat) (rest : Bytes) :
    readDigits value (digit d :: rest) = readDigits (10 * value + d) rest := by
  rw [readDigits, if_pos (isDigit_digit small), toNat_digit small, Nat.add_sub_cancel_left]

theorem readDigits_ends (value : Nat) (ends : Ends rest) :
    readDigits value rest = (value, rest) := by
  cases rest with
  | nil => rfl
  | cons byte rest =>
      have other : isDigit byte = false := ends byte rfl
      rw [readDigits, other]
      rfl

theorem readDigits_digits (n : Nat) (rest : Bytes) :
    readDigits 0 (digits n ++ rest) = readDigits n rest := by
  induction n using Nat.strongRecOn generalizing rest with
  | ind n ih =>
      rw [digits]
      split
      next small =>
        rw [List.singleton_append, readDigits_digit small, Nat.mul_zero, Nat.zero_add]
      next large =>
        have low : n % 10 < 10 := Nat.mod_lt n (by decide)
        rw [List.append_assoc, ih (n / 10) (by omega), List.singleton_append,
          readDigits_digit low, Nat.div_add_mod]

theorem isDigit_of_mem_digits (n : Nat) : ∀ byte ∈ digits n, isDigit byte = true := by
  induction n using Nat.strongRecOn with
  | ind n ih =>
      rw [digits]
      split
      next small =>
        intro byte member
        obtain rfl := List.mem_singleton.1 member
        exact isDigit_digit small
      next large =>
        intro byte member
        rcases List.mem_append.1 member with member | member
        · exact ih (n / 10) (by omega) byte member
        · obtain rfl := List.mem_singleton.1 member
          exact isDigit_digit (Nat.mod_lt n (by decide))

theorem digits_cons (n : Nat) :
    ∃ byte rest, digits n = byte :: rest ∧ isDigit byte = true := by
  cases text : digits n with
  | nil =>
      rw [digits] at text
      split at text <;> simp at text
  | cons byte rest =>
      have member : byte ∈ digits n := by
        rw [text]
        exact List.mem_cons_self
      exact ⟨byte, rest, rfl, isDigit_of_mem_digits n byte member⟩

def printNumber (n : Int32) : Bytes :=
  if n.toInt < 0 then 45 :: digits n.toInt.natAbs else digits n.toInt.natAbs

theorem printNumber_cons (n : Int32) :
    ∃ byte rest, printNumber n = byte :: rest ∧ (byte = 45 ∨ isDigit byte = true) := by
  rw [printNumber]
  split
  next => exact ⟨45, _, rfl, .inl rfl⟩
  next =>
    obtain ⟨byte, rest, first, kind⟩ := digits_cons n.toInt.natAbs
    exact ⟨byte, rest, first, .inr kind⟩

def parseNumber : Bytes → Option (Int32 × Bytes)
  | [] => none
  | byte :: rest =>
      if byte = 45 then
        let (n, rest) := readDigits 0 rest
        some (Int32.ofInt (-n), rest)
      else if isDigit byte then
        let (n, rest) := readDigits 0 (byte :: rest)
        some (Int32.ofInt n, rest)
      else
        none

theorem parseNumber_printNumber (n : Int32) (ends : Ends rest) :
    parseNumber (printNumber n ++ rest) = some (n, rest) := by
  have read : readDigits 0 (digits n.toInt.natAbs ++ rest) = (n.toInt.natAbs, rest) := by
    rw [readDigits_digits, readDigits_ends _ ends]
  rw [printNumber]
  split
  next negative =>
    have value : -(n.toInt.natAbs : Int) = n.toInt := by omega
    rw [List.cons_append, parseNumber, if_pos rfl, read]
    simp only [value, Int32.ofInt_toInt]
  next positive =>
    have value : (n.toInt.natAbs : Int) = n.toInt := by omega
    obtain ⟨byte, tail, first, kind⟩ := digits_cons n.toInt.natAbs
    have unsigned : byte ≠ 45 := by
      rintro rfl
      contradiction
    rw [first, List.cons_append] at read ⊢
    rw [parseNumber, if_neg unsigned, if_pos kind, read]
    simp only [value, Int32.ofInt_toInt]

theorem nulFree_printNumber (n : Int32) : 0 ∉ printNumber n := by
  have nulFree : 0 ∉ digits n.toInt.natAbs := fun member =>
    absurd (isDigit_of_mem_digits _ 0 member) (by decide)
  rw [printNumber]
  split
  · intro member
    rcases List.mem_cons.1 member with same | later
    · contradiction
    · exact nulFree later
  · exact nulFree

def hexDigit (d : Nat) : UInt8 := UInt8.ofNat (if d < 10 then 48 + d else 87 + d)

def hexValue (byte : UInt8) : Nat :=
  if isDigit byte then byte.toNat - 48 else byte.toNat - 87

/-- The characters with an escape of one letter. -/
def escapes : List (UInt8 × UInt8) :=
  [(34, 34), (92, 92), (8, 98), (9, 116), (10, 110), (12, 102), (13, 114)]

def escape (byte : UInt8) : Bytes :=
  match escapes.find? fun pair => pair.1 = byte with
  | some (_, letter) => [92, letter]
  | none =>
      if byte.toNat < 32 then
        [92, 117, 48, 48, hexDigit (byte.toNat / 16), hexDigit (byte.toNat % 16)]
      else
        [byte]

/-- The characters up to the closing quote, and the text behind it. -/
def parseChars : Bytes → Option (Bytes × Bytes)
  | [] => none
  | byte :: rest =>
      if byte = 34 then
        some ([], rest)
      else if byte = 92 then
        match rest with
        | 117 :: 48 :: 48 :: high :: low :: rest =>
            (parseChars rest).map fun (chars, rest) =>
              (UInt8.ofNat (16 * hexValue high + hexValue low) :: chars, rest)
        | letter :: rest =>
            match escapes.find? fun pair => pair.2 = letter with
            | some (byte, _) =>
                (parseChars rest).map fun (chars, rest) => (byte :: chars, rest)
            | none => none
        | [] => none
      else
        (parseChars rest).map fun (chars, rest) => (byte :: chars, rest)

theorem parseChars_close (rest : Bytes) : parseChars (34 :: rest) = some ([], rest) := by
  simp [parseChars.eq_def]

theorem parseChars_letter (plain : letter ≠ 117) (rest : Bytes)
    (found : (escapes.find? fun pair => pair.2 = letter) = some pair) :
    parseChars (92 :: letter :: rest) =
      (parseChars rest).map fun (chars, rest) => (pair.1 :: chars, rest) := by
  rw [parseChars.eq_def]
  simp [plain, found]

theorem parseChars_hex (high low : UInt8) (rest : Bytes) :
    parseChars (92 :: 117 :: 48 :: 48 :: high :: low :: rest) =
      (parseChars rest).map fun (chars, rest) =>
        (UInt8.ofNat (16 * hexValue high + hexValue low) :: chars, rest) := by
  simp [parseChars.eq_def (92 :: _)]

theorem parseChars_plain (unquoted : byte ≠ 34) (unescaped : byte ≠ 92) (rest : Bytes) :
    parseChars (byte :: rest) =
      (parseChars rest).map fun (chars, rest) => (byte :: chars, rest) := by
  rw [parseChars.eq_def]
  simp [unquoted, unescaped]

theorem hexValue_hexDigit (small : d < 16) : hexValue (hexDigit d) = d := by
  have all : ∀ d < 16, hexValue (hexDigit d) = d := by decide
  exact all d small

theorem escapes_find (found : (escapes.find? fun pair => pair.1 = byte) = some pair) :
    pair.1 = byte ∧ pair.2 ≠ 117 ∧
      (escapes.find? fun other => other.2 = pair.2) = some pair := by
  have all : (escapes.all fun pair => pair.2 ≠ 117 ∧
      (escapes.find? fun other => other.2 = pair.2) = some pair) = true := by decide
  have same : pair.1 = byte := by simpa using List.find?_some found
  have back := List.all_eq_true.1 all pair (List.mem_of_find?_eq_some found)
  exact ⟨same, of_decide_eq_true back⟩

theorem parseChars_escape (byte : UInt8) (rest : Bytes) :
    parseChars (escape byte ++ rest) =
      (parseChars rest).map fun (chars, rest) => (byte :: chars, rest) := by
  rw [escape]
  split
  next pair letter found =>
    obtain ⟨rfl, plain, back⟩ := escapes_find found
    exact parseChars_letter plain rest back
  next unescaped =>
    split
    next control =>
      have high := hexValue_hexDigit (show byte.toNat / 16 < 16 by omega)
      have low := hexValue_hexDigit (show byte.toNat % 16 < 16 by omega)
      have value : UInt8.ofNat (16 * hexValue (hexDigit (byte.toNat / 16)) +
          hexValue (hexDigit (byte.toNat % 16))) = byte := by
        rw [high, low, Nat.div_add_mod, UInt8.ofNat_toNat]
      have read := parseChars_hex (hexDigit (byte.toNat / 16)) (hexDigit (byte.toNat % 16)) rest
      rw [value] at read
      exact read
    next =>
      apply parseChars_plain
      · rintro rfl
        contradiction
      · rintro rfl
        contradiction

theorem hexDigit_ne_zero (small : d < 16) : hexDigit d ≠ 0 := by
  have all : ∀ d < 16, hexDigit d ≠ 0 := by decide
  exact all d small

theorem nulFree_escape (char : byte ≠ 0) : 0 ∉ escape byte := by
  rw [escape]
  split
  next pair letter found =>
    have all : (escapes.all fun pair => pair.2 ≠ 0) = true := by decide
    have other := List.all_eq_true.1 all _ (List.mem_of_find?_eq_some found)
    simpa using Ne.symm (of_decide_eq_true other)
  next =>
    split
    next =>
      have high := hexDigit_ne_zero (show byte.toNat / 16 < 16 by omega)
      have low := hexDigit_ne_zero (show byte.toNat % 16 < 16 by omega)
      simp [high.symm, low.symm]
    next => simpa using Ne.symm char

theorem parseChars_escapes (chars rest : Bytes) :
    parseChars (chars.flatMap escape ++ 34 :: rest) = some (chars, rest) := by
  induction chars with
  | nil => exact parseChars_close rest
  | cons byte chars ih =>
      rw [List.flatMap_cons, List.append_assoc, parseChars_escape, ih]
      rfl

def printString (text : CString) : Bytes := 34 :: (text.bytes.flatMap escape ++ [34])

theorem nulFree_printString (text : CString) : 0 ∉ printString text := by
  intro member
  rw [printString, List.mem_cons, List.mem_append, List.mem_flatMap] at member
  rcases member with same | ⟨byte, char, member⟩ | member
  · contradiction
  · have other : byte ≠ 0 := fun zero => text.nulFree (zero ▸ char)
    exact nulFree_escape other member
  · contradiction

def parseString : Bytes → Option (CString × Bytes)
  | [] => none
  | byte :: rest =>
      if byte = 34 then
        (parseChars rest).map fun (chars, rest) => (CString.of chars, rest)
      else
        none

theorem parseString_printString (text : CString) (rest : Bytes) :
    parseString (printString text ++ rest) = some (text, rest) := by
  rw [printString, List.cons_append, List.append_assoc, parseString, if_pos rfl,
    List.singleton_append, parseChars_escapes]
  simp only [Option.map_some, CString.of_bytes]

section Lists

variable {α : Type} (close : UInt8) (print : α → Bytes)
  (one : Bytes → Option (α × Bytes))

def printMore (texts : List Bytes) : Bytes :=
  texts.flatMap (fun text => 44 :: text) ++ [close]

/-- The texts between commas, closed by `close`. -/
def printList : List Bytes → Bytes
  | [] => [close]
  | text :: texts => text ++ printMore close texts

def parseMore : Nat → Bytes → Option (List α × Bytes)
  | fuel + 1, byte :: rest =>
      if byte = close then
        some ([], rest)
      else if byte = 44 then
        (one rest).bind fun (item, rest) =>
          (parseMore fuel rest).map fun (items, rest) => (item :: items, rest)
      else
        none
  | _, _ => none

def parseList (text : Bytes) : Option (List α × Bytes) :=
  if text.head? = some close then
    some ([], text.tail)
  else
    (one text).bind fun (item, rest) =>
      (parseMore close one rest.length rest).map fun (items, rest) => (item :: items, rest)

variable {close} in
theorem nulFree_printMore (closes : close ≠ 0) {texts : List Bytes}
    (nulFree : ∀ text ∈ texts, 0 ∉ text) : 0 ∉ printMore close texts := by
  intro member
  rw [printMore, List.mem_append, List.mem_flatMap, List.mem_singleton] at member
  rcases member with ⟨text, inside, member⟩ | same
  · rcases List.mem_cons.1 member with same | later
    · contradiction
    · exact nulFree text inside later
  · exact closes same.symm

variable {close} in
theorem nulFree_printList (closes : close ≠ 0) {texts : List Bytes}
    (nulFree : ∀ text ∈ texts, 0 ∉ text) : 0 ∉ printList close texts := by
  cases texts with
  | nil => simpa [printList] using closes.symm
  | cons text texts =>
      rw [printList, List.mem_append, not_or]
      constructor
      · exact nulFree text List.mem_cons_self
      · exact nulFree_printMore closes fun other member =>
          nulFree other (List.mem_cons_of_mem text member)

/-- `one` reads back what `print` writes of the item. -/
def Reads (item : α) : Prop := ∀ rest, Ends rest → one (print item ++ rest) = some (item, rest)

theorem length_printMore (texts : List Bytes) :
    texts.length < (printMore close texts).length := by
  induction texts with
  | nil => exact Nat.zero_lt_one
  | cons text texts ih =>
      rw [printMore] at ih ⊢
      simp only [List.flatMap_cons, List.length_append, List.length_cons] at ih ⊢
      omega

variable {close print one}

theorem ends_printMore (closes : isDigit close = false) (texts : List Bytes)
    (rest : Bytes) : Ends (printMore close texts ++ rest) := by
  cases texts with
  | nil =>
      intro byte first
      obtain rfl := Option.some.inj first
      exact closes
  | cons text texts =>
      intro byte first
      obtain rfl := Option.some.inj first
      rfl

theorem parseMore_printMore (closes : isDigit close = false) (uncomma : close ≠ 44)
    (items : List α) (reads : ∀ item ∈ items, Reads print one item)
    (enough : items.length < fuel) (rest : Bytes) :
    parseMore close one fuel (printMore close (items.map print) ++ rest) =
      some (items, rest) := by
  induction items generalizing fuel with
  | nil =>
      cases fuel with
      | zero => contradiction
      | succ fuel =>
          rw [List.map_nil, printMore, List.flatMap_nil, List.nil_append,
            List.singleton_append, parseMore, if_pos rfl]
  | cons item items ih =>
      cases fuel with
      | zero => contradiction
      | succ fuel =>
          have read := reads item List.mem_cons_self
            (printMore close (items.map print) ++ rest) (ends_printMore closes _ _)
          have more := ih (fun other member => reads other (List.mem_cons_of_mem item member))
            (Nat.lt_of_succ_lt_succ enough)
          have text : printMore close ((item :: items).map print) ++ rest =
              44 :: (print item ++ (printMore close (items.map print) ++ rest)) := by
            simp [printMore]
          rw [text, parseMore, if_neg uncomma.symm, if_pos rfl, read]
          simp only [Option.bind_some, more, Option.map_some]

theorem parseList_printList (closes : isDigit close = false) (uncomma : close ≠ 44)
    (items : List α) (reads : ∀ item ∈ items, Reads print one item)
    (opens : ∀ item ∈ items, ∃ byte rest, print item = byte :: rest ∧ byte ≠ close)
    (rest : Bytes) :
    parseList close one (printList close (items.map print) ++ rest) = some (items, rest) := by
  cases items with
  | nil => exact if_pos rfl
  | cons item items =>
      obtain ⟨byte, tail, first, other⟩ := opens item List.mem_cons_self
      have read := reads item List.mem_cons_self
        (printMore close (items.map print) ++ rest) (ends_printMore closes _ _)
      have enough : items.length < (printMore close (items.map print) ++ rest).length := by
        have longer := length_printMore close (items.map print)
        rw [List.length_map] at longer
        rw [List.length_append]
        omega
      have more := parseMore_printMore closes uncomma items
        (fun other member => reads other (List.mem_cons_of_mem item member)) enough rest
      have unclosed : ¬(print item ++ (printMore close (items.map print) ++ rest)).head? =
          some close := by
        rw [first]
        exact fun same => other (Option.some.inj same)
      rw [List.map_cons, printList, List.append_assoc, parseList, if_neg unclosed, read]
      simp only [Option.bind_some, more, Option.map_some]

end Lists

namespace Json

mutual

def print : Json → Bytes
  | null => ascii "null"
  | bool true => ascii "true"
  | bool false => ascii "false"
  | num value => printNumber value
  | str text => printString text
  | arr items => 91 :: printList 93 (printItems items)
  | obj fields => 123 :: printList 125 (printFields fields)

def printItems : List Json → List Bytes
  | [] => []
  | item :: items => item.print :: printItems items

def printFields : List (CString × Json) → List Bytes
  | [] => []
  | (key, value) :: fields => (printString key ++ 58 :: value.print) :: printFields fields

end

def printField (field : CString × Json) : Bytes := printString field.1 ++ 58 :: field.2.print

theorem printItems_eq (items : List Json) : printItems items = items.map print := by
  induction items with
  | nil => rfl
  | cons item items ih => rw [printItems, ih, List.map_cons]

theorem printFields_eq (fields : List (CString × Json)) :
    printFields fields = fields.map printField := by
  induction fields with
  | nil => rfl
  | cons field fields ih => rw [printFields, ih, List.map_cons, printField]

def literals : List (Bytes × Json) :=
  [(ascii "null", null), (ascii "true", bool true), (ascii "false", bool false)]

def parseField (one : Bytes → Option (Json × Bytes)) (text : Bytes) :
    Option ((CString × Json) × Bytes) :=
  (parseString text).bind fun (key, rest) =>
    if rest.head? = some 58 then
      (one rest.tail).map fun (value, rest) => ((key, value), rest)
    else
      none

def parseValue : Nat → Bytes → Option (Json × Bytes)
  | fuel + 1, byte :: rest =>
      if byte = 91 then
        (parseList 93 (parseValue fuel) rest).map fun (items, rest) => (arr items, rest)
      else if byte = 123 then
        (parseList 125 (parseField (parseValue fuel)) rest).map
          fun (fields, rest) => (obj fields, rest)
      else if byte = 34 then
        (parseString (byte :: rest)).map fun (text, rest) => (str text, rest)
      else
        match literals.find? fun literal => literal.1.isPrefixOf (byte :: rest) with
        | some (word, value) => some (value, (byte :: rest).drop word.length)
        | none => (parseNumber (byte :: rest)).map fun (value, rest) => (num value, rest)
  | _, _ => none

def nestingLimit : Nat := 1000

def parse (text : Bytes) : Option Json := (parseValue (nestingLimit + 1) text).map Prod.fst

theorem print_cons (json : Json) :
    ∃ byte rest, json.print = byte :: rest ∧ byte ≠ 93 := by
  cases json with
  | null => exact ⟨_, _, rfl, by decide⟩
  | bool value =>
      cases value with
      | false => exact ⟨_, _, rfl, by decide⟩
      | true => exact ⟨_, _, rfl, by decide⟩
  | num value =>
      obtain ⟨byte, rest, first, kind⟩ := printNumber_cons value
      refine ⟨byte, rest, first, ?_⟩
      rintro rfl
      rcases kind with kind | kind
      · contradiction
      · contradiction
  | str text => exact ⟨34, _, rfl, by decide⟩
  | arr items => exact ⟨91, _, rfl, by decide⟩
  | obj fields => exact ⟨123, _, rfl, by decide⟩

theorem nulFree_print (json : Json) : 0 ∉ json.print := by
  induction json using Json.induct with
  | null => decide
  | bool value =>
      cases value with
      | false => decide
      | true => decide
  | num value => exact nulFree_printNumber value
  | str text => exact nulFree_printString text
  | arr items ih =>
      rw [print, printItems_eq, List.mem_cons, not_or]
      refine ⟨by decide, nulFree_printList (by decide) fun text member => ?_⟩
      obtain ⟨item, inside, rfl⟩ := List.mem_map.1 member
      exact ih item inside
  | obj fields ih =>
      rw [print, printFields_eq, List.mem_cons, not_or]
      refine ⟨by decide, nulFree_printList (by decide) fun text member => ?_⟩
      obtain ⟨field, inside, rfl⟩ := List.mem_map.1 member
      rw [printField, List.mem_append, List.mem_cons, not_or, not_or]
      exact ⟨nulFree_printString field.1, by decide, ih field inside⟩

theorem parseField_printField (reads : Reads print one field.2) :
    Reads printField (parseField one) field := by
  intro rest ends
  rw [printField, List.append_assoc, parseField, parseString_printString]
  simp only [Option.bind_some, List.cons_append, List.head?_cons, if_true, List.tail_cons,
    reads rest ends, Option.map_some]

theorem find_literal_number (kind : byte = 45 ∨ isDigit byte = true) (rest : Bytes) :
    (literals.find? fun other => other.1.isPrefixOf (byte :: rest)) = none := by
  have other : byte ≠ 110 ∧ byte ≠ 116 ∧ byte ≠ 102 := by
    refine ⟨?_, ?_, ?_⟩ <;>
    · rintro rfl
      exact absurd kind (by decide)
  obtain ⟨notNull, notTrue, notFalse⟩ := other
  simp [literals, ascii, String.utf8EncodeChar, notNull.symm, notTrue.symm, notFalse.symm]

theorem parseValue_number (value : Int32) (fuel : Nat) (ends : Ends rest) :
    parseValue (fuel + 1) (printNumber value ++ rest) = some (num value, rest) := by
  have read := parseNumber_printNumber value ends
  obtain ⟨byte, tail, first, kind⟩ := printNumber_cons value
  have other : byte ≠ 91 ∧ byte ≠ 123 ∧ byte ≠ 34 := by
    refine ⟨?_, ?_, ?_⟩ <;>
    · rintro rfl
      exact absurd kind (by decide)
  obtain ⟨notArr, notObj, notStr⟩ := other
  rw [first, List.cons_append] at read ⊢
  rw [parseValue, if_neg notArr, if_neg notObj, if_neg notStr]
  simp only [find_literal_number kind, read, Option.map_some]

theorem parseValue_print (json : Json) (enough : json.depth < fuel) :
    Reads print (parseValue fuel) json := by
  intro rest ends
  induction json using Json.induct generalizing fuel rest with
  | null =>
      cases fuel with
      | zero => contradiction
      | succ fuel => rfl
  | bool value =>
      cases fuel with
      | zero => contradiction
      | succ fuel =>
          cases value with
          | false => rfl
          | true => rfl
  | num value =>
      cases fuel with
      | zero => contradiction
      | succ fuel => exact parseValue_number value fuel ends
  | str text =>
      cases fuel with
      | zero => contradiction
      | succ fuel =>
          have read := parseString_printString text rest
          rw [printString, List.cons_append] at read
          rw [print, printString, List.cons_append, parseValue, if_neg (by decide),
            if_neg (by decide), if_pos rfl, read]
          rfl
  | arr items ih =>
      cases fuel with
      | zero => contradiction
      | succ fuel =>
          rw [depth] at enough
          have reads : ∀ item ∈ items, Reads print (parseValue fuel) item := by
            intro item member rest ends
            have below := depth_le_depthItems member
            exact ih item member (by omega) rest ends
          have read := parseList_printList (by decide) (by decide) items reads
            (fun item _ => print_cons item) rest
          rw [print, printItems_eq, List.cons_append, parseValue, if_pos rfl, read]
          rfl
  | obj fields ih =>
      cases fuel with
      | zero => contradiction
      | succ fuel =>
          rw [depth] at enough
          have reads : ∀ field ∈ fields,
              Reads printField (parseField (parseValue fuel)) field := by
            intro field member
            apply parseField_printField
            intro rest ends
            have below := depth_le_depthFields member
            exact ih field member (by omega) rest ends
          have opens : ∀ field ∈ fields,
              ∃ byte rest, printField field = byte :: rest ∧ byte ≠ 125 :=
            fun field _ => ⟨34, _, rfl, by decide⟩
          have read := parseList_printList (by decide) (by decide) fields reads opens rest
          rw [print, printFields_eq, List.cons_append, parseValue, if_neg (by decide),
            if_pos rfl, read]
          rfl

/-- The parser reads back what is printed, up to the nesting limit. -/
theorem parse_print (json : Json) (shallow : json.depth ≤ nestingLimit) :
    parse json.print = some json := by
  have ends : Ends [] := fun byte first => nomatch first
  have read := parseValue_print json (Nat.lt_succ_of_le shallow) [] ends
  rw [List.append_nil] at read
  rw [parse, read]
  rfl

end Json

end JsonText

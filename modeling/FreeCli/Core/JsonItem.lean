import FreeCli.Library.Json

namespace FreeCli

open Words JsonText

/-! The items of `cJSON.c`, and what it asks of the C library about numbers. -/

/-- `double` and the functions `cJSON.c` uses on it. -/
structure Doubles where
  Double : Type
  ofInt : Int32 → Double
  /-- neither `isnan` nor `isinf` -/
  finite : Double → Bool
  /-- `==` -/
  equal : Double → Double → Bool
  /-- `sprintf` with `"%1.15g"` -/
  digits15 : Double → Bytes
  /-- `sprintf` with `"%1.17g"` -/
  digits17 : Double → Bytes
  /-- `compare_double` -/
  compareDouble : Double → Double → Bool
  /-- the number at the start of a string, and its length -/
  strtod : Bytes → Option (Double × Nat)
  /-- `(int)number`, or the end of the range it is beyond -/
  toInt : Double → Int32

/-- The characters `parse_number` copies. -/
def numberChar (byte : UInt8) : Bool :=
  isDigit byte || byte = 43 || byte = 45 || byte = 101 || byte = 69 || byte = 46

/-- A text `strtod` is given whole. -/
structure Numeral (text : Bytes) : Prop where
  chars : ∀ byte ∈ text, numberChar byte = true
  start : ∃ byte rest, text = byte :: rest ∧ (byte = 45 ∨ isDigit byte = true)
  short : text.length ≤ 25

namespace Doubles

variable (lib : Doubles)

/-- What `print_number` prints. -/
def numberText (valueint : Int32) (valuedouble : lib.Double) : Bytes :=
  if !lib.finite valuedouble then ascii "null"
  else if lib.equal valuedouble (lib.ofInt valueint) then printNumber valueint
  else
    match lib.strtod (lib.digits15 valuedouble) with
    | some (test, _) =>
        if lib.compareDouble test valuedouble then lib.digits15 valuedouble
        else lib.digits17 valuedouble
    | none => lib.digits17 valuedouble

/-- What the C standard says of the functions. -/
structure Lawful : Prop where
  finite_ofInt : ∀ n, lib.finite (lib.ofInt n) = true
  equal_ofInt : ∀ n, lib.equal (lib.ofInt n) (lib.ofInt n) = true
  toInt_ofInt : ∀ n, lib.toInt (lib.ofInt n) = n
  numeral15 : ∀ d, lib.finite d = true → Numeral (lib.digits15 d)
  numeral17 : ∀ d, lib.finite d = true → Numeral (lib.digits17 d)
  strtod_int : ∀ n, lib.strtod (printNumber n) = some (lib.ofInt n, (printNumber n).length)
  strtod_digits15 : ∀ d, lib.finite d = true →
    ∃ read, lib.strtod (lib.digits15 d) = some (read, (lib.digits15 d).length)
  strtod_digits17 : ∀ d, lib.finite d = true →
    ∃ read, lib.strtod (lib.digits17 d) = some (read, (lib.digits17 d).length)
  strtod_inside : ∀ text read used, lib.strtod text = some (read, used) →
    0 < used ∧ used ≤ text.length

end Doubles

inductive JsonItem (lib : Doubles) where
  | null
  | bool (value : Bool)
  | number (valueint : Int32) (valuedouble : lib.Double)
  | string (valuestring : CString)
  | array (child : List (JsonItem lib))
  | object (child : List (CString × JsonItem lib))

namespace JsonItem

variable {lib : Doubles}

/-- Induction over the items of a tree. -/
@[elab_as_elim]
theorem induct {motive : JsonItem lib → Prop} (null : motive .null)
    (bool : ∀ value, motive (.bool value))
    (number : ∀ valueint valuedouble, motive (.number valueint valuedouble))
    (string : ∀ valuestring, motive (.string valuestring))
    (array : ∀ child, (∀ item ∈ child, motive item) → motive (.array child))
    (object : ∀ child : List (CString × JsonItem lib), (∀ member ∈ child, motive member.2) →
      motive (.object child)) (item : JsonItem lib) : motive item :=
  match item with
  | .null => null
  | .bool value => bool value
  | .number valueint valuedouble => number valueint valuedouble
  | .string valuestring => string valuestring
  | .array child =>
      array child fun item _ => item.induct null bool number string array object
  | .object child => object child fun member inside =>
      have smaller : sizeOf member.2 < 1 + sizeOf child := by
        have inside := List.sizeOf_lt_of_mem inside
        cases member with
        | mk key value =>
            simp only [Prod.mk.sizeOf_spec] at inside ⊢
            omega
      member.2.induct null bool number string array object
termination_by sizeOf item

mutual

def depth : JsonItem lib → Nat
  | array child => depthElements child + 1
  | object child => depthMembers child + 1
  | _ => 0

def depthElements : List (JsonItem lib) → Nat
  | [] => 0
  | item :: items => max item.depth (depthElements items)

def depthMembers : List (CString × JsonItem lib) → Nat
  | [] => 0
  | (_, item) :: members => max item.depth (depthMembers members)

end

/-! The printed text: on one line, or with a line for each member and tabs in front of
it. -/

def comma (format : Bool) : Bytes := if format then [44, 32] else [44]

def lineBreak (format : Bool) : Bytes := if format then [10] else []

def tabs (format : Bool) (depth : Nat) : Bytes :=
  if format then List.replicate depth 9 else []

def colon (format : Bool) : Bytes := if format then [58, 9] else [58]

def between {α : Type} (comma : Bytes) : List α → Bytes
  | [] => []
  | _ :: _ => comma

mutual

def text (format : Bool) (depth : Nat) : JsonItem lib → Bytes
  | null => ascii "null"
  | bool true => ascii "true"
  | bool false => ascii "false"
  | number valueint valuedouble => lib.numberText valueint valuedouble
  | string valuestring => printString valuestring
  | array child => [91] ++ elementsText format (depth + 1) child ++ [93]
  | object child =>
      [123] ++ lineBreak format ++ membersText format (depth + 1) child ++ tabs format depth ++
        [125]

def elementsText (format : Bool) (depth : Nat) : List (JsonItem lib) → Bytes
  | [] => []
  | item :: items =>
      item.text format depth ++ between (comma format) items ++ elementsText format depth items

def membersText (format : Bool) (depth : Nat) : List (CString × JsonItem lib) → Bytes
  | [] => []
  | (key, item) :: members =>
      tabs format depth ++ printString key ++ colon format ++ item.text format depth ++
        between [44] members ++ lineBreak format ++ membersText format depth members

end

end JsonItem

end FreeCli

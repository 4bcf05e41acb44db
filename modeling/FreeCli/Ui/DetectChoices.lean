import FreeCli.Core.Utf8

namespace FreeCli

open Words

/-! `detect_choices` of `main.c`. As in `utf8.c` a pointer is the memory from there
to the terminator, and a read behind that gives `none`. -/

def maxChoices : Nat := 8

structure Choice where
  start : Nat
  text : Bytes
  deriving DecidableEq, Repr

/-- How far `while (f(*p)) p++` goes. -/
def skipWhile (f : UInt8 → Bool) : Bytes → Option Nat
  | [] => none
  | c :: rest => if f c then (skipWhile f rest).map (· + 1) else some 0

def digitByte (c : UInt8) : Bool := decide (0x30 ≤ c) && decide (c ≤ 0x39)

def markByte (c : UInt8) : Bool := c == 0x2E || c == 0x29

/-- The number at `q`, in 32 bits, and the length of its digits. -/
def readNumber : Bytes → UInt32 → Option (UInt32 × Nat)
  | [], _ => none
  | c :: rest, num =>
      if digitByte c then
        (readNumber rest (num * 10 + (c - 0x30).toUInt32)).map fun (num, q) => (num, q + 1)
      else some (num, 0)

/-- Where the item starts if there is "N. " or "N) " at `t`. -/
def numberBullet (expected : Nat) (t : Bytes) : Option (Option Nat) := do
  let (num, q) ← readNumber t 0
  if num = UInt32.ofNat expected ∧ 0 < q then
    let mark ← t[q]?
    if markByte mark then
      let blank ← t[q + 1]?
      if blankByte blank then
        let spaces ← skipWhile (· == 0x20) (t.drop (q + 2))
        some (some (q + 2 + spaces))
      else some none
    else some none
  else some none

/-- The same for "A. " or "A) " in either case, with `expected` letters before it. -/
def letterBullet (expected : Nat) (t : Bytes) : Option (Option Nat) := do
  let want : UInt8 := 0x41 + UInt8.ofNat expected
  let letter ← t[0]?
  if letter = want ∨ letter = want + 32 then
    let mark ← t[1]?
    if markByte mark then
      let blank ← t[2]?
      if blankByte blank then
        let spaces ← skipWhile (· == 0x20) (t.drop 3)
        some (some (3 + spaces))
      else some none
    else some none
  else some none

/-- Where the item of the line at `scan` starts, if it is the one expected. -/
def matchLine (useLetters : Bool) (expected : Nat) (scan : Bytes) : Option (Option Nat) := do
  let returns ← skipWhile (· == 0x0D) scan
  let spaces ← skipWhile blankByte (scan.drop returns)
  let t := scan.drop (returns + spaces)
  let item ← if useLetters then letterBullet expected t else numberBullet expected t
  some (item.map (returns + spaces + ·))

def numberNext (expected : Nat) (next : Bytes) : Option Bool := do
  let (num, q) ← readNumber next 0
  if num = UInt32.ofNat (expected + 1) ∧ 0 < q then
    let mark ← next[q]?
    some (markByte mark)
  else some false

def letterNext (expected : Nat) (next : Bytes) : Option Bool := do
  let want : UInt8 := 0x41 + UInt8.ofNat (expected + 1)
  let letter ← next[0]?
  if letter = want ∨ letter = want + 32 then
    let mark ← next[1]?
    some (markByte mark)
  else some false

/-- Whether an item ends at a newline with `rest` behind it. -/
def endsItem (useLetters : Bool) (expected : Nat) (rest : Bytes) : Option Bool := do
  let spaces ← skipWhile blankByte rest
  let next := rest.drop spaces
  let first ← next[0]?
  if first = 0x0A ∨ first = 0x0D ∨ first = 0 then some true
  else if useLetters then letterNext expected next else numberNext expected next

/-- How far the item at `end` goes, its trailing blanks included. -/
def itemLength (useLetters : Bool) (expected : Nat) : Bytes → Option Nat
  | [] => none
  | c :: rest =>
      if c = 0 then some 0
      else if c = 0x0A then do
        let ended ← endsItem useLetters expected rest
        if ended then some 0
        else (itemLength useLetters expected rest).map (· + 1)
      else (itemLength useLetters expected rest).map (· + 1)

/-- The length of an item of `len` bytes without trailing newlines, spaces and
returns. -/
def trimItem (item : Bytes) : Nat → Option Nat
  | 0 => some 0
  | len + 1 =>
      match item[len]? with
      | none => none
      | some c => if c = 0x0A ∨ c = 0x20 ∨ c = 0x0D then trimItem item len else some (len + 1)

/-- To the start of the next line. -/
def skipLine : Bytes → Option Nat
  | [] => none
  | c :: rest =>
      if c = 0 then some 0
      else if c = 0x0A then some 1
      else (skipLine rest).map (· + 1)

/-- One round of the scan at `scan`: the option it takes, with its start, and how far
it moves. -/
def scanLine (useLetters : Bool) (expected : Nat) (scan : Bytes) :
    Option (Option Choice × Nat) := do
  match ← matchLine useLetters expected scan with
  | some start =>
      let item := scan.drop start
      let stop ← itemLength useLetters expected item
      let len ← trimItem item stop
      some (if 0 < len then some ⟨start, item.take len⟩ else none, start + len)
  | none =>
      let moved ← skipLine scan
      some (none, moved)

/-- The scan of one pass, `n` bytes into the text: numbers are expected from 1 on,
letters from 0. -/
def scanChoices (useLetters : Bool) :
    (rounds : Nat) → (scan : Bytes) → (n expected found : Nat) → Scanned (List Choice)
  | _, [], _, _, _ => .fault
  | 0, c :: _, _, _, found =>
      if c = 0 ∨ maxChoices ≤ found then .ended [] else .running
  | rounds + 1, c :: rest, n, expected, found =>
      if c = 0 ∨ maxChoices ≤ found then .ended []
      else
        match scanLine useLetters expected (c :: rest) with
        | none => .fault
        | some (none, moved) =>
            scanChoices useLetters rounds ((c :: rest).drop moved) (n + moved) expected found
        | some (some choice, moved) =>
            (scanChoices useLetters rounds ((c :: rest).drop moved) (n + moved) (expected + 1)
              (found + 1)).map ({ choice with start := n + choice.start } :: ·)

/-- `detect_choices`, each pass with the rounds it may take: the options found, none
if there are fewer than two. -/
def detectChoices (rounds : Nat) (text : Bytes) : Scanned (List Choice) :=
  match scanChoices false rounds text 0 1 0 with
  | .fault => .fault
  | .running => .running
  | .ended numbered =>
      if 2 ≤ numbered.length then .ended numbered
      else
        (scanChoices true rounds text 0 0 0).map fun lettered =>
          if 2 ≤ lettered.length then lettered else []

end FreeCli

import FreeCli.Library.Words
import FreeCli.Library.WordWrap

namespace FreeCli

open Words WordWrap

/-! `utf8.c`. A pointer into a string is the memory from there to the terminator,
the terminator included, and a read behind that gives `none`. -/

def utf8Clen (c : UInt8) : Nat :=
  if c = 0 then 1
  else if c < 0x80 then 1
  else if c < 0xC0 then 1
  else if c < 0xE0 then 2
  else if c < 0xF0 then 3
  else 4

def utf8Cwidth : Bytes → Option Nat
  | [] => none
  | c :: rest =>
      if c < 0x80 then some 1
      else if c < 0xE0 then some 1
      else if c < 0xF0 then
        match rest with
        | second :: third :: _ =>
            let cp := (c.toUInt32 &&& 0x0F) <<< 12
              ||| (second.toUInt32 &&& 0x3F) <<< 6
              ||| (third.toUInt32 &&& 0x3F)
            if (0x1100 ≤ cp && cp ≤ 0x115F)
                || (0x2E80 ≤ cp && cp ≤ 0x303E)
                || (0x3040 ≤ cp && cp ≤ 0xA4CF)
                || (0xAC00 ≤ cp && cp ≤ 0xD7A3)
                || (0xF900 ≤ cp && cp ≤ 0xFAFF)
                || (0xFF01 ≤ cp && cp ≤ 0xFF60)
                || (0xFFE0 ≤ cp && cp ≤ 0xFFE6) then
              some 2
            else
              some 1
        | _ => none
      else some 2

theorem utf8Cwidth_cases {p : Bytes} {cw : Nat} (width : utf8Cwidth p = some cw) :
    cw = 1 ∨ cw = 2 := by
  cases p with
  | nil => cases width
  | cons c rest =>
      simp only [utf8Cwidth] at width
      split_ifs at width
      · exact .inl (Option.some.inj width).symm
      · exact .inl (Option.some.inj width).symm
      · split at width
        · split_ifs at width
          · exact .inr (Option.some.inj width).symm
          · exact .inl (Option.some.inj width).symm
        · cases width
      · exact .inr (Option.some.inj width).symm

def blankByte (c : UInt8) : Bool := c == 0x20 || c == 0x09

/-- How many blanks `last_space` is moved over. -/
def skipBlanks : Bytes → Option Nat
  | [] => none
  | c :: rest => if blankByte c then (skipBlanks rest).map (· + 1) else some 0

theorem utf8Clen_pos (c : UInt8) : 0 < utf8Clen c := by
  unfold utf8Clen
  split_ifs <;> decide

/-- The loop of `wrap_line_end`, `n` bytes and `col` columns into the line. `last`
holds `last_end` and `last_space`, and the result is the end of the line and the
start of the next. -/
def wrapScan (avail : Nat) (p : Bytes) (n col : Nat) (last : Option (Nat × Nat)) :
    Option (Nat × Nat) :=
  match p with
  | [] => none
  | c :: rest =>
      if c = 0 then some (n, n)
      else if c = 0x0A then some (n, n + 1)
      else
        match utf8Cwidth (c :: rest) with
        | none => none
        | some cw =>
            if avail < col + cw then
              some (last.getD (n, n))
            else if blankByte c && decide (0 < col) then
              match skipBlanks rest with
              | none => none
              | some skipped =>
                  wrapScan avail ((c :: rest).drop (utf8Clen c)) (n + utf8Clen c)
                    (col + cw) (some (n, n + 1 + skipped))
            else
              wrapScan avail ((c :: rest).drop (utf8Clen c)) (n + utf8Clen c)
                (col + cw) last
termination_by p.length
decreasing_by
  all_goals
    have positive := utf8Clen_pos c
    rw [List.length_drop, List.length_cons]
    omega

/-- The columns a line may use; neither argument is negative, so the `int` subtraction does not
overflow. -/
def availColumns (xStart width : Int) : Nat :=
  (if width - xStart < 1 then 1 else width - xStart).toNat

/-- The end of the line and `*next_p`, as offsets from `text`. -/
def wrapLineEnd (text : Bytes) (xStart width : Int) : Option (Nat × Nat) :=
  wrapScan (availColumns xStart width) text 0 0 none

/-- One call of `wrap_line_end`: where it starts, the end it returns and the start
of the next line. -/
structure Row where
  start : Nat
  stop : Nat
  next : Nat
  deriving DecidableEq, Repr

/-- A loop over a string: it reads behind the string, it goes on after the rounds
it was given, or it ends. -/
inductive Scanned (α : Type) where
  | fault
  | running
  | ended (value : α)
  deriving DecidableEq, Repr

def Scanned.map {α β : Type} (f : α → β) : Scanned α → Scanned β
  | .fault => .fault
  | .running => .running
  | .ended value => .ended (f value)

/-- The calls the loop of `count_rows` makes, `n` bytes into the text. -/
def countLoop (indent width : Int) : Nat → Bytes → Nat → Int → Scanned (List Row)
  | _, [], _, _ => .fault
  | 0, c :: _, _, _ => if c = 0 then .ended [] else .running
  | calls + 1, c :: rest, n, x =>
      if c = 0 then .ended []
      else
        match wrapLineEnd (c :: rest) x width with
        | none => .fault
        | some (stop, next) =>
            (countLoop indent width calls ((c :: rest).drop next) (n + next) indent).map
              (⟨n, n + stop, n + next⟩ :: ·)

/-- `count_rows`, with the number of calls of `wrap_line_end` it may make. -/
def countRows (calls : Nat) (text : Bytes) (xStart indent width : Int) : Scanned Nat :=
  (countLoop indent width calls text 0 xStart).map fun rows =>
    if 0 < rows.length then rows.length else 1

/-- What `count_rows` returns if it does. A text never takes more calls than it has
bytes with its terminator. -/
def countedRows (text : Bytes) (xStart indent width : Int) : Option Nat :=
  match countRows text.length text xStart indent width with
  | .ended rows => some rows
  | _ => none

end FreeCli

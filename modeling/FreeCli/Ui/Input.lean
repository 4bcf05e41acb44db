import FreeCli.Library.CharArray
import FreeCli.Library.Transition
import FreeCli.Ui.Main

namespace FreeCli

open Words

/-! The line editor of `input.c`. Drawing is left out, but for what `input_render` puts
on the screen. -/

def inputMax : Nat := 1024

def historyMax : Nat := 32

def keyHome : Int := 262
def keyBackspace : Int := 263
def keyEnd : Int := 360

/-- `isprint` in the locale of the terminal. The terminator is a control character in
all of them. -/
structure Locale where
  printing : UInt8 → Bool
  nul : printing 0 = false

/-- `isprint`, false outside of `0..255`. -/
def Locale.isprint (locale : Locale) (ch : Int) : Bool :=
  decide (0 ≤ ch ∧ ch ≤ 255) && locale.printing (UInt8.ofNat ch.toNat)

/-- The C locale. -/
def Locale.posix : Locale := ⟨fun c => decide (0x20 ≤ c ∧ c ≤ 0x7E), rfl⟩

structure InputLine where
  buffer : CharArray inputMax
  len : Int
  pos : Int
  history : List (CharArray inputMax)
  history_length : history.length = historyMax
  histCount : Int
  histPos : Int

namespace InputLine

variable (locale : Locale) (line : InputLine)

/-- Nothing is written to the history. -/
def inputInit : InputLine :=
  { line with
    buffer := .zeroed inputMax
    len := 0
    pos := 0
    histCount := 0
    histPos := 0 }

def historyAt (k : Int) : Option (CharArray inputMax) :=
  if 0 ≤ k then line.history[k.toNat]? else none

/-- `strcpy(history[hist_count++], buffer)` -/
def keep : Option InputLine := do
  let slot ← line.historyAt line.histCount
  let kept ← slot.strcpy line.buffer
  some { line with
    history := line.history.set line.histCount.toNat kept
    history_length := by rw [List.length_set, line.history_length]
    histCount := line.histCount + 1 }

def saveHistory : Option InputLine :=
  if line.len = 0 then some line
  else do
    let line ← if line.histCount < historyMax then line.keep else some line
    some { line with histPos := line.histCount }

def backspace : Option InputLine :=
  if line.pos > 0 then do
    let buffer ← line.buffer.memmove (line.pos - 1) line.pos (line.len - line.pos + 1)
    some { line with buffer, pos := line.pos - 1, len := line.len - 1 }
  else some line

def showHistory : Option InputLine := do
  let kept ← line.historyAt line.histPos
  let buffer ← line.buffer.strcpy kept
  let len ← buffer.strlen
  some { line with buffer, len, pos := len }

def up : Option InputLine :=
  if line.histPos > 0 then { line with histPos := line.histPos - 1 : InputLine }.showHistory
  else some line

def inputReset : Option InputLine := do
  let buffer ← line.buffer.put 0 0
  some { line with buffer, len := 0, pos := 0 }

/-- Behind the newest history line the line is empty again. -/
def down : Option InputLine :=
  if line.histPos < line.histCount then
    let line := { line with histPos := line.histPos + 1 }
    if line.histPos = line.histCount then line.inputReset else line.showHistory
  else some line

def insert (ch : Int) : Option InputLine :=
  if locale.isprint ch ∧ line.len < (inputMax : Int) - 1 then do
    let moved ← line.buffer.memmove (line.pos + 1) line.pos (line.len - line.pos + 1)
    let buffer ← moved.put line.pos (UInt8.ofNat ch.toNat)
    some { line with buffer, pos := line.pos + 1, len := line.len + 1 }
  else some line

/-- The line after a key, and `*submitted`. -/
def inputHandleKey (ch : Int) : Option (InputLine × Bool) :=
  if ch = Tui.newline ∨ ch = Tui.keyEnter then
    if line.len > 0 then line.saveHistory.map (·, true) else some (line, false)
  else if ch = keyBackspace ∨ ch = 127 then line.backspace.map (·, false)
  else if ch = Tui.keyLeft then
    some (if line.pos > 0 then { line with pos := line.pos - 1 } else line, false)
  else if ch = Tui.keyRight then
    some (if line.pos < line.len then { line with pos := line.pos + 1 } else line, false)
  else if ch = keyHome then some ({ line with pos := 0 }, false)
  else if ch = keyEnd then some ({ line with pos := line.len }, false)
  else if ch = Tui.keyUp then line.up.map (·, false)
  else if ch = Tui.keyDown then line.down.map (·, false)
  else (line.insert locale ch).map (·, false)

/-- The text `input_render` draws, and the column of the cursor. -/
def inputRender : Bytes × Int :=
  (terminated (line.buffer.bytes.take line.len.toNat), line.pos)

end InputLine

/-- What happens to the line: a key, or the reset after a submission. -/
inductive Edit where
  | key (ch : Int)
  | reset
  deriving DecidableEq

def InputLine.edit (locale : Locale) (line : InputLine) : Edit → Option InputLine
  | .key ch => (line.inputHandleKey locale ch).map Prod.fst
  | .reset => line.inputReset

end FreeCli

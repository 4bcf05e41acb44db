import FreeCli.Core.JsonItem

namespace FreeCli.JsonPrint

open Words JsonText

/-! Printing in `cJSON.c`: a block that grows, an offset into it, and writes behind the
offset.  The hooks are `malloc`, `realloc` and `free`. -/

def intMax : Nat := 2 ^ 31 - 1

/-- How a run of `cJSON.c` ends without a result. -/
inductive Stop where
  /-- an access outside of a block -/
  | fault
  /-- false or NULL is returned -/
  | failed
  /-- NULL is returned, as the allocator has no block of that size -/
  | refused (size : Nat)
  /-- the given number of rounds is used up -/
  | running
  deriving DecidableEq

/-- What the allocator does: which sizes it has, and what a new block holds. -/
structure Allocator where
  grants : Nat → Bool
  content : Nat → Nat → UInt8

structure PrintBuffer where
  /-- the block of `length` bytes -/
  buffer : Bytes
  offset : Nat
  depth : Nat
  format : Bool

namespace Allocator

variable (heap : Allocator)

def block (size : Nat) : Bytes := (List.range size).map (heap.content size)

def realloc (old : Bytes) (size : Nat) : Option Bytes :=
  if heap.grants size then some (old.take size ++ (heap.block size).drop old.length) else none

end Allocator

namespace PrintBuffer

variable (p : PrintBuffer)

/-- The bytes are written from `output_pointer[i]` on. -/
def put (i : Nat) (bytes : Bytes) : Except Stop PrintBuffer :=
  let start := p.offset + i
  if start + bytes.length ≤ p.buffer.length then
    .ok { p with buffer :=
      p.buffer.take start ++ bytes ++ p.buffer.drop (start + bytes.length) }
  else
    .error .fault

def grow (heap : Allocator) (newsize : Nat) : Except Stop PrintBuffer :=
  match heap.realloc p.buffer newsize with
  | some newbuffer => .ok { p with buffer := newbuffer }
  | none => .error (.refused newsize)

def ensure (heap : Allocator) (needed : Nat) : Except Stop PrintBuffer :=
  if 0 < p.buffer.length ∧ p.buffer.length ≤ p.offset then .error .failed
  else if intMax < needed then .error .failed
  else
    let needed := needed + p.offset + 1
    if needed ≤ p.buffer.length then .ok p
    else if intMax / 2 < needed then
      if needed ≤ intMax then p.grow heap intMax else .error .failed
    else
      p.grow heap (needed * 2)

def updateOffset : Except Stop PrintBuffer :=
  let pending := p.buffer.drop p.offset
  if 0 ∈ pending then .ok { p with offset := p.offset + (terminated pending).length }
  else .error .fault

def printNumber (heap : Allocator) (numberBuffer : Bytes) : Except Stop PrintBuffer :=
  if numberBuffer.length > 26 - 1 then .error .failed
  else do
    let p ← p.ensure heap (numberBuffer.length + 1)
    let p ← p.put 0 (numberBuffer ++ [0])
    .ok { p with offset := p.offset + numberBuffer.length }

def escapeCharacters (byte : UInt8) : Nat :=
  if (escapes.find? fun pair => pair.1 = byte).isSome then 1
  else if byte.toNat < 32 then 5 else 0

/-- `sprintf` puts a terminator behind the `\u` sequence. -/
def putEscaped (i : Nat) : Bytes → PrintBuffer → Except Stop PrintBuffer
  | [], p => .ok p
  | byte :: input, p => do
      if 31 < byte.toNat ∧ byte ≠ 34 ∧ byte ≠ 92 then
        putEscaped (i + 1) input (← p.put i [byte])
      else
        match escapes.find? fun pair => pair.1 = byte with
        | some (_, letter) => putEscaped (i + 2) input (← p.put i [92, letter])
        | none =>
            putEscaped (i + 6) input (← p.put i [92, 117, 48, 48,
              hexDigit (byte.toNat / 16), hexDigit (byte.toNat % 16), 0])

def printStringPtr (heap : Allocator) (input : CString) : Except Stop PrintBuffer := do
  let escapeCharacters := (input.bytes.map escapeCharacters).sum
  let outputLength := input.bytes.length + escapeCharacters
  let p ← p.ensure heap (outputLength + 3)
  if escapeCharacters = 0 then
    p.put 0 ([34] ++ input.bytes ++ [34, 0])
  else do
    let p ← p.put 0 [34]
    let p ← putEscaped 1 input.bytes p
    p.put (outputLength + 1) [34, 0]

/-- An opening bracket, which nothing is written behind. -/
def opened (heap : Allocator) (needed : Nat) (bracket : Bytes) : Except Stop PrintBuffer := do
  let p ← p.ensure heap needed
  let p ← p.put 0 bracket
  .ok { p with offset := p.offset + bracket.length, depth := p.depth + 1 }

def closed (heap : Allocator) (needed : Nat) (bracket : Bytes) : Except Stop PrintBuffer := do
  let p ← p.ensure heap needed
  let p ← p.put 0 (bracket ++ [0])
  .ok { p with depth := p.depth - 1 }

/-- Bytes between two values, with the offset moved behind them. -/
def between (heap : Allocator) (needed : Nat) (bytes terminator : Bytes) :
    Except Stop PrintBuffer := do
  let p ← p.ensure heap needed
  let p ← p.put 0 (bytes ++ terminator)
  .ok { p with offset := p.offset + bytes.length }

def separate {α : Type} (heap : Allocator) : List α → Except Stop PrintBuffer
  | [] => .ok p
  | _ :: _ => p.between heap ((JsonItem.comma p.format).length + 1) (JsonItem.comma p.format) [0]

def indent (heap : Allocator) : Except Stop PrintBuffer :=
  if p.format then p.between heap p.depth (JsonItem.tabs p.format p.depth) [] else .ok p

end PrintBuffer

open PrintBuffer

variable {lib : Doubles} (heap : Allocator)

/-- `CJSON_NESTING_LIMIT` -/
def nestingLimit : Nat := 1000

mutual

def printValue : JsonItem lib → PrintBuffer → Except Stop PrintBuffer
  | .null, p => do (← p.ensure heap 5).put 0 (ascii "null" ++ [0])
  | .bool false, p => do (← p.ensure heap 6).put 0 (ascii "false" ++ [0])
  | .bool true, p => do (← p.ensure heap 5).put 0 (ascii "true" ++ [0])
  | .number valueint valuedouble, p =>
      p.printNumber heap (lib.numberText valueint valuedouble)
  | .string valuestring, p => p.printStringPtr heap valuestring
  | .array child, p =>
      if nestingLimit ≤ p.depth then .error .failed
      else do
        let p ← p.opened heap 1 [91]
        let p ← printElements child p
        p.closed heap 2 [93]
  | .object child, p =>
      if nestingLimit ≤ p.depth then .error .failed
      else do
        let bracket := [123] ++ JsonItem.lineBreak p.format
        let p ← p.opened heap (bracket.length + 1) bracket
        let p ← printMembers child p
        p.closed heap (if p.format then p.depth + 1 else 2)
          (JsonItem.tabs p.format (p.depth - 1) ++ [125])

def printElements : List (JsonItem lib) → PrintBuffer → Except Stop PrintBuffer
  | [], p => .ok p
  | item :: items, p => do
      let p ← (← printValue item p).updateOffset
      let p ← p.separate heap items
      printElements items p

def printMembers : List (CString × JsonItem lib) → PrintBuffer → Except Stop PrintBuffer
  | [], p => .ok p
  | (key, item) :: members, p => do
      let p ← p.indent heap
      let p ← (← p.printStringPtr heap key).updateOffset
      let colon := JsonItem.colon p.format
      let p ← p.between heap colon.length colon []
      let p ← (← printValue item p).updateOffset
      let line := JsonItem.between [44] members ++ JsonItem.lineBreak p.format
      let p ← p.between heap (line.length + 1) line [0]
      printMembers members p

end

/-- `cJSON_Print` and `cJSON_PrintUnformatted`: the printed string with its terminator. -/
def print (item : JsonItem lib) (format : Bool) : Except Stop Bytes :=
  if ¬heap.grants 256 then .error (.refused 256)
  else do
    let p ← printValue heap item
      { buffer := heap.block 256, offset := 0, depth := 0, format }
    let p ← p.updateOffset
    match heap.realloc p.buffer (p.offset + 1) with
    | some printed => .ok printed
    | none => .error (.refused (p.offset + 1))

end FreeCli.JsonPrint

import FreeCli.Core.JsonPrint

namespace FreeCli.JsonParse

open Words JsonText JsonPrint

/-! Parsing in `cJSON.c`: an offset into a block of known length.  Allocation succeeds;
`depth` is kept as the number of levels that are still allowed. -/

variable (content : Bytes)

def byteAt (index : Nat) : Except Stop UInt8 :=
  match content[index]? with
  | some byte => .ok byte
  | none => .error .fault

def skipSpaces (offset : Nat) : Bytes → Nat
  | [] => offset
  | byte :: rest => if byte ≤ 32 then skipSpaces (offset + 1) rest else offset

def bufferSkipWhitespace (offset : Nat) : Nat :=
  if content.length ≤ offset then offset
  else
    let offset := skipSpaces offset (content.drop offset)
    if offset = content.length then offset - 1 else offset

/-- `strncmp` with a word, where that many bytes can be read -/
def startsWith (offset : Nat) (word : Bytes) : Bool :=
  (content.drop offset).take word.length = word

def parseNumber (lib : Doubles) (offset : Nat) : Except Stop (JsonItem lib × Nat) :=
  let numberCString := (content.drop offset).takeWhile numberChar
  match lib.strtod numberCString with
  | none => .error .failed
  | some (number, used) => .ok (.number (lib.toInt number) number, offset + used)

/-- From behind the opening quote to the closing one: the bytes passed, and the backslashes
that are not counted. -/
def findQuote (passed skippedBytes : Nat) : Bytes → Option (Nat × Nat)
  | [] => none
  | byte :: rest =>
      if byte = 34 then some (passed, skippedBytes)
      else if byte = 92 then
        match rest with
        | [] => none
        | _ :: rest => findQuote (passed + 2) (skippedBytes + 1) rest
      else findQuote (passed + 1) skippedBytes rest

def hexNibble (byte : UInt8) : Option Nat :=
  if isDigit byte then some (byte.toNat - 48)
  else if 65 ≤ byte.toNat ∧ byte.toNat ≤ 70 then some (10 + byte.toNat - 65)
  else if 97 ≤ byte.toNat ∧ byte.toNat ≤ 102 then some (10 + byte.toNat - 97)
  else none

/-- The value of four hexadecimal digits, 0 if they are not. -/
def parseHex4 (input : Nat) : Except Stop Nat := do
  match hexNibble (← byteAt content input) with
  | none => .ok 0
  | some a =>
      match hexNibble (← byteAt content (input + 1)) with
      | none => .ok 0
      | some b =>
          match hexNibble (← byteAt content (input + 2)) with
          | none => .ok 0
          | some c =>
              match hexNibble (← byteAt content (input + 3)) with
              | none => .ok 0
              | some d => .ok (((a * 16 + b) * 16 + c) * 16 + d)

/-- The bytes of a code point below 0x110000. -/
def encodeUtf8 (codepoint : Nat) : Bytes :=
  let tail (shift : Nat) : UInt8 := UInt8.ofNat (codepoint / 64 ^ shift % 64 + 0x80)
  if codepoint < 0x80 then [UInt8.ofNat codepoint]
  else if codepoint < 0x800 then [UInt8.ofNat (codepoint / 64 + 0xC0), tail 0]
  else if codepoint < 0x10000 then
    [UInt8.ofNat (codepoint / 64 ^ 2 + 0xE0), tail 1, tail 0]
  else [UInt8.ofNat (codepoint / 64 ^ 3 + 0xF0), tail 2, tail 1, tail 0]

/-- The length of the sequence at `input` and its UTF-8 bytes. -/
def utf16LiteralToUtf8 (input inputEnd : Nat) : Except Stop (Nat × Bytes) := do
  if inputEnd < input + 6 then .error .failed
  else
    let firstCode ← parseHex4 content (input + 2)
    if 0xDC00 ≤ firstCode ∧ firstCode ≤ 0xDFFF then .error .failed
    else if 0xD800 ≤ firstCode ∧ firstCode ≤ 0xDBFF then
      let second := input + 6
      if inputEnd < second + 6 then .error .failed
      else
        if (← byteAt content second) ≠ 92 ∨ (← byteAt content (second + 1)) ≠ 117 then
          .error .failed
        else
          let secondCode ← parseHex4 content (second + 2)
          if secondCode < 0xDC00 ∨ 0xDFFF < secondCode then .error .failed
          else
            .ok (12, encodeUtf8 (0x10000 + (firstCode % 0x400 * 0x400 + secondCode % 0x400)))
    else
      .ok (6, encodeUtf8 firstCode)

/-- Bytes behind those in the output block, which has `size` bytes. -/
def emit (size : Nat) (output bytes : Bytes) : Except Stop Bytes :=
  if output.length + bytes.length ≤ size then .ok (output ++ bytes) else .error .fault

def letters : List (UInt8 × UInt8) :=
  [(98, 8), (102, 12), (110, 10), (114, 13), (116, 9), (34, 34), (92, 92), (47, 47)]

/-- The loop through the string literal, with the number of rounds it may take. -/
def unescape (inputEnd size : Nat) : Nat → Nat → Bytes → Except Stop Bytes
  | 0, input, output => if input < inputEnd then .error .running else .ok output
  | rounds + 1, input, output =>
      if input < inputEnd then do
        let byte ← byteAt content input
        if byte ≠ 92 then
          unescape inputEnd size rounds (input + 1) (← emit size output [byte])
        else
          let letter ← byteAt content (input + 1)
          match letters.find? fun pair => pair.1 = letter with
          | some (_, byte) =>
              unescape inputEnd size rounds (input + 2) (← emit size output [byte])
          | none =>
              if letter = 117 then
                let (sequenceLength, bytes) ← utf16LiteralToUtf8 content input inputEnd
                unescape inputEnd size rounds (input + sequenceLength) (← emit size output bytes)
              else
                .error .failed
      else
        .ok output

/-- The block of the string, without the terminator that is put behind it. -/
def parseString (offset : Nat) : Except Stop (Bytes × Nat) := do
  if (← byteAt content offset) ≠ 34 then .error .failed
  else
    match findQuote 0 0 (content.drop (offset + 1)) with
    | none => .error .failed
    | some (passed, skippedBytes) =>
        let inputEnd := offset + 1 + passed
        let allocationLength := inputEnd - offset - skippedBytes
        let output ← unescape content inputEnd (allocationLength + 1) passed (offset + 1) []
        let _ ← emit (allocationLength + 1) output [0]
        .ok (output, inputEnd + 1)

variable {lib : Doubles}

/-- The elements up to the first one with no comma behind it. -/
def parseElements (value : Nat → Except Stop (JsonItem lib × Nat)) :
    Nat → Nat → Except Stop (List (JsonItem lib) × Nat)
  | 0, _ => .error .running
  | rounds + 1, offset => do
      let (item, offset) ← value (bufferSkipWhitespace content (offset + 1))
      let offset := bufferSkipWhitespace content offset
      if content[offset]? = some 44 then
        let (items, offset) ← parseElements value rounds offset
        .ok (item :: items, offset)
      else
        .ok ([item], offset)

def parseArray (value : Nat → Except Stop (JsonItem lib × Nat)) (offset : Nat) :
    Except Stop (JsonItem lib × Nat) := do
  if (← byteAt content offset) ≠ 91 then .error .failed
  else
    let offset := bufferSkipWhitespace content (offset + 1)
    if content[offset]? = some 93 then .ok (.array [], offset + 1)
    else if content.length ≤ offset then .error .failed
    else
      let (items, offset) ← parseElements content value content.length (offset - 1)
      if content[offset]? = some 93 then .ok (.array items, offset + 1) else .error .failed

def parseMember (value : Nat → Except Stop (JsonItem lib × Nat)) (offset : Nat) :
    Except Stop ((CString × JsonItem lib) × Nat) := do
  if content.length ≤ offset + 1 then .error .failed
  else
    let (name, offset) ← parseString content (bufferSkipWhitespace content (offset + 1))
    let offset := bufferSkipWhitespace content offset
    if content[offset]? ≠ some 58 then .error .failed
    else
      let (item, offset) ← value (bufferSkipWhitespace content (offset + 1))
      .ok ((CString.of name, item), bufferSkipWhitespace content offset)

def parseMembers (value : Nat → Except Stop (JsonItem lib × Nat)) :
    Nat → Nat → Except Stop (List (CString × JsonItem lib) × Nat)
  | 0, _ => .error .running
  | rounds + 1, offset => do
      let (member, offset) ← parseMember content value offset
      if content[offset]? = some 44 then
        let (members, offset) ← parseMembers value rounds offset
        .ok (member :: members, offset)
      else
        .ok ([member], offset)

def parseObject (value : Nat → Except Stop (JsonItem lib × Nat)) (offset : Nat) :
    Except Stop (JsonItem lib × Nat) := do
  if content[offset]? ≠ some 123 then .error .failed
  else
    let offset := bufferSkipWhitespace content (offset + 1)
    if content[offset]? = some 125 then .ok (.object [], offset + 1)
    else if content.length ≤ offset then .error .failed
    else
      let (members, offset) ← parseMembers content value content.length (offset - 1)
      if content[offset]? = some 125 then .ok (.object members, offset + 1) else .error .failed

def words : List (Bytes × JsonItem lib) :=
  [(ascii "null", .null), (ascii "false", .bool false), (ascii "true", .bool true)]

def parseValue (lib : Doubles) (levels offset : Nat) : Except Stop (JsonItem lib × Nat) :=
  match words.find? fun word => startsWith content offset word.1 with
  | some (word, item) => .ok (item, offset + word.length)
  | none =>
      match content[offset]? with
      | none => .error .failed
      | some byte =>
          if byte = 34 then do
            let (output, offset) ← parseString content offset
            .ok (.string (CString.of output), offset)
          else if byte = 45 ∨ isDigit byte then parseNumber content lib offset
          else if byte = 91 then
            match levels with
            | 0 => .error .failed
            | levels + 1 => parseArray content (parseValue lib levels) offset
          else if byte = 123 then
            match levels with
            | 0 => .error .failed
            | levels + 1 => parseObject content (parseValue lib levels) offset
          else .error .failed

def skipUtf8Bom : Nat :=
  if 4 < content.length ∧ startsWith content 0 [0xEF, 0xBB, 0xBF] then 3 else 0

/-- `cJSON_ParseWithLength` -/
def parseWithLength (lib : Doubles) : Except Stop (JsonItem lib) :=
  if content.length = 0 then .error .failed
  else do
    let (item, _) ← parseValue content lib nestingLimit
      (bufferSkipWhitespace content (skipUtf8Bom content))
    .ok item

/-- `cJSON_Parse` -/
def parse (lib : Doubles) (value : CString) : Except Stop (JsonItem lib) :=
  parseWithLength (value.bytes ++ [0]) lib

end FreeCli.JsonParse

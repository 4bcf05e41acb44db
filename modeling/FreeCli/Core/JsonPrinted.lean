import FreeCli.Core.JsonPrint

namespace FreeCli.JsonPrint

open Words JsonText PrintBuffer

/-! Every write of the printer is inside its block, and what it leaves there is the text
of the item. -/

/-- The largest block that is asked for to print `total` bytes -/
def printBound (total : Nat) : Nat := max 256 (2 * (total + 2))

/-- A run ends early only where a block it asks for is refused, or where it is not `calm`. -/
def Excused (heap : Allocator) (total : Nat) (calm : Prop) : Stop → Prop
  | .refused size => heap.grants size = false ∧ size ≤ printBound total
  | .failed => ¬calm
  | _ => False

/-- The run gives a buffer with `post`, or has an excuse. -/
def Prints (heap : Allocator) (total : Nat) (calm : Prop) (run : Except Stop PrintBuffer)
    (post : PrintBuffer → Prop) : Prop :=
  match run with
  | .ok p => post p
  | .error stop => Excused heap total calm stop

namespace Prints

variable {heap : Allocator} {total : Nat} {calm : Prop} {run : Except Stop PrintBuffer} {post : PrintBuffer → Prop}

theorem of_ok {p : PrintBuffer} (ran : run = .ok p) (holds : post p) : Prints heap total calm run post := by
  rw [ran]
  exact holds

theorem bind {mid : PrintBuffer → Prop} {next : PrintBuffer → Except Stop PrintBuffer}
    (first : Prints heap total calm run mid) (rest : ∀ p, mid p → Prints heap total calm (next p) post) :
    Prints heap total calm (run >>= next) post := by
  cases run with
  | ok p => exact rest p first
  | error stop => exact first

theorem mono {strong : PrintBuffer → Prop} (ran : Prints heap total calm run strong)
    (implied : ∀ p, strong p → post p) : Prints heap total calm run post := by
  cases run with
  | ok p => exact implied p ran
  | error stop => exact ran

theorem weaken {less : Prop} (ran : Prints heap total less run post) (implied : calm → less) :
    Prints heap total calm run post := by
  cases run with
  | ok p => exact ran
  | error stop =>
      cases stop with
      | failed => exact fun holds => ran (implied holds)
      | refused size => exact ran
      | _ => exact ran

end Prints

def Fits (total : Nat) : Prop := total + 2 ≤ intMax

/-- The text is in the block and the next byte goes behind it. -/
structure Open (text : Bytes) (depth : Nat) (format : Bool) (p : PrintBuffer) : Prop where
  starts : text <+: p.buffer
  offset_eq : p.offset = text.length
  inside : text.length < p.buffer.length
  depth_eq : p.depth = depth
  format_eq : p.format = format

/-- The text is in the block with its terminator, and the offset not behind it. -/
structure Shown (text : Bytes) (depth : Nat) (format : Bool) (p : PrintBuffer) : Prop where
  starts : text ++ [0] <+: p.buffer
  offset_le : p.offset ≤ text.length
  depth_eq : p.depth = depth
  format_eq : p.format = format

/-- `q` is `p` with `written` at the start of the block. -/
structure Rewritten (p : PrintBuffer) (written : Bytes) (q : PrintBuffer) : Prop where
  starts : written <+: q.buffer
  length_eq : q.buffer.length = p.buffer.length
  offset_eq : q.offset = p.offset
  depth_eq : q.depth = p.depth
  format_eq : q.format = p.format

theorem prefix_put {written bytes buffer : Bytes} (starts : written <+: buffer) :
    written ++ bytes <+: buffer.take written.length ++ bytes ++
      buffer.drop (written.length + bytes.length) := by
  obtain ⟨rest, rfl⟩ := starts
  rw [List.take_left]
  exact List.prefix_append _ _

theorem put_rewritten {p : PrintBuffer} {written : Bytes} {i : Nat} (bytes : Bytes)
    (starts : written <+: p.buffer) (start : p.offset + i = written.length)
    (room : written.length + bytes.length ≤ p.buffer.length) :
    ∃ q, p.put i bytes = .ok q ∧ Rewritten p (written ++ bytes) q := by
  have inside : p.offset + i + bytes.length ≤ p.buffer.length := by
    rw [start]
    exact room
  refine ⟨_, if_pos inside, ?_, ?_, rfl, rfl, rfl⟩
  · rw [start]
    exact prefix_put starts
  · rw [start, List.length_append, List.length_append, List.length_take, List.length_drop]
    omega

theorem Rewritten.trans {p q r : PrintBuffer} {first second : Bytes}
    (one : Rewritten p first q) (two : Rewritten q second r) : Rewritten p second r where
  starts := two.starts
  length_eq := two.length_eq.trans one.length_eq
  offset_eq := two.offset_eq.trans one.offset_eq
  depth_eq := two.depth_eq.trans one.depth_eq
  format_eq := two.format_eq.trans one.format_eq

section Steps

variable {heap : Allocator} {text : Bytes} {depth : Nat} {format : Bool} {p : PrintBuffer}
  {needed total : Nat}

theorem Open.rewritten_shown {q : PrintBuffer} {bytes : Bytes} (opens : Open text depth format p)
    (wrote : Rewritten p (text ++ (bytes ++ [0])) q) : Shown (text ++ bytes) depth format q where
  starts := by
    rw [List.append_assoc]
    exact wrote.starts
  offset_le := by
    rw [wrote.offset_eq, opens.offset_eq, List.length_append]
    exact Nat.le_add_right _ _
  depth_eq := wrote.depth_eq.trans opens.depth_eq
  format_eq := wrote.format_eq.trans opens.format_eq

theorem length_realloc {old grown : Bytes} {size : Nat}
    (granted : heap.realloc old size = some grown) : grown.length = size := by
  rw [Allocator.realloc] at granted
  split at granted
  next =>
    rw [← Option.some.inj granted, List.length_append, List.length_take, List.length_drop,
      Allocator.block, List.length_map, List.length_range]
    omega
  next => contradiction

theorem prefix_realloc {old grown text : Bytes} {size : Nat} (starts : text <+: old)
    (fits : text.length ≤ size) (granted : heap.realloc old size = some grown) :
    text <+: grown := by
  rw [Allocator.realloc] at granted
  split at granted
  next =>
    rw [← Option.some.inj granted]
    exact (List.prefix_take_iff.2 ⟨starts, fits⟩).trans (List.prefix_append _ _)
  next => contradiction

theorem realloc_none {old : Bytes} {size : Nat} (refused : heap.realloc old size = none) :
    heap.grants size = false := by
  rw [Allocator.realloc] at refused
  split at refused
  next => contradiction
  next denied => simpa using denied

theorem Open.grow {newsize : Nat} (opens : Open text depth format p)
    (larger : text.length + needed + 1 ≤ newsize) (within : newsize ≤ printBound total) :
    Prints heap total (Fits total) (p.grow heap newsize) fun q =>
      Open text depth format q ∧ text.length + needed + 1 ≤ q.buffer.length := by
  rw [PrintBuffer.grow]
  cases granted : heap.realloc p.buffer newsize with
  | none =>
      exact ⟨realloc_none granted, within⟩
  | some grown =>
      have size := length_realloc granted
      have starts := prefix_realloc opens.starts (by omega) granted
      refine ⟨⟨starts, opens.offset_eq, ?_, opens.depth_eq, opens.format_eq⟩, ?_⟩
      · show text.length < grown.length
        omega
      · show text.length + needed + 1 ≤ grown.length
        omega

theorem Open.ensure (opens : Open text depth format p) (size : text.length + needed ≤ total + 1) :
    Prints heap total (Fits total) (p.ensure heap needed) fun q =>
      Open text depth format q ∧ text.length + needed + 1 ≤ q.buffer.length := by
  have offset_eq := opens.offset_eq
  have inside := opens.inside
  rw [PrintBuffer.ensure, if_neg (by omega)]
  split
  next large => exact fun small => by rw [Fits] at small; omega
  next =>
    have bound : 2 * (total + 2) ≤ printBound total := Nat.le_max_right _ _
    simp only
    split
    next enough => exact ⟨opens, by omega⟩
    next =>
      split
      next =>
        split
        next fits => exact opens.grow (by omega) (by rw [intMax] at *; omega)
        next large => exact fun small => by rw [Fits] at small; omega
      next => exact opens.grow (by omega) (by omega)

theorem Open.put (opens : Open text depth format p) (bytes : Bytes)
    (room : text.length + bytes.length ≤ p.buffer.length) :
    ∃ q, p.put 0 bytes = .ok q ∧ Rewritten p (text ++ bytes) q :=
  put_rewritten bytes opens.starts opens.offset_eq room

theorem Open.show {bytes : Bytes} (opens : Open text depth format p)
    (enough : bytes.length ≤ needed) (size : text.length + needed ≤ total + 1) :
    Prints heap total (Fits total) (do (← p.ensure heap needed).put 0 (bytes ++ [0]))
      (Shown (text ++ bytes) depth format) := by
  refine (opens.ensure size).bind fun q ⟨opens, room⟩ => ?_
  obtain ⟨r, ran, wrote⟩ := opens.put (bytes ++ [0]) (by
    rw [List.length_append, List.length_singleton]
    omega)
  exact .of_ok ran (opens.rewritten_shown wrote)

theorem Open.moved {q : PrintBuffer} {bytes terminator : Bytes}
    (opens : Open text depth format p) (wrote : Rewritten p (text ++ (bytes ++ terminator)) q)
    (room : text.length + bytes.length < p.buffer.length) :
    Open (text ++ bytes) depth format { q with offset := q.offset + bytes.length } where
  starts := by
    have starts := wrote.starts
    rw [← List.append_assoc] at starts
    exact (List.prefix_append _ _).trans starts
  offset_eq := by
    show q.offset + bytes.length = _
    rw [wrote.offset_eq, opens.offset_eq, List.length_append]
  inside := by
    show _ < q.buffer.length
    rw [wrote.length_eq, List.length_append]
    exact room
  depth_eq := wrote.depth_eq.trans opens.depth_eq
  format_eq := wrote.format_eq.trans opens.format_eq

theorem Open.between {bytes terminator : Bytes} (opens : Open text depth format p)
    (enough : bytes.length + terminator.length ≤ needed + 1) (within : bytes.length ≤ needed)
    (size : text.length + needed ≤ total + 1) :
    Prints heap total (Fits total) (p.between heap needed bytes terminator)
      (Open (text ++ bytes) depth format) := by
  refine (opens.ensure size).bind fun q ⟨opens, room⟩ => ?_
  obtain ⟨r, ran, wrote⟩ := opens.put (bytes ++ terminator) (by
    rw [List.length_append]
    omega)
  rw [ran]
  exact opens.moved wrote (by omega)

theorem Open.opened {bracket : Bytes} (opens : Open text depth format p)
    (within : bracket.length ≤ needed) (size : text.length + needed ≤ total + 1) :
    Prints heap total (Fits total) (p.opened heap needed bracket)
      (Open (text ++ bracket) (depth + 1) format) := by
  refine (opens.ensure size).bind fun q ⟨opens, room⟩ => ?_
  obtain ⟨r, ran, wrote⟩ := opens.put (bracket) (by omega)
  rw [ran]
  have whole : Rewritten q (text ++ (bracket ++ [])) r := by rwa [List.append_nil]
  have moved := opens.moved whole (by omega)
  exact ⟨moved.starts, moved.offset_eq, moved.inside, congrArg (· + 1) moved.depth_eq,
    moved.format_eq⟩

theorem Open.closed {bracket : Bytes} (opens : Open text (depth + 1) format p)
    (within : bracket.length ≤ needed) (size : text.length + needed ≤ total + 1) :
    Prints heap total (Fits total) (p.closed heap needed bracket)
      (Shown (text ++ bracket) depth format) := by
  refine (opens.ensure size).bind fun q ⟨opens, room⟩ => ?_
  obtain ⟨r, ran, wrote⟩ := opens.put (bracket ++ [0]) (by
    rw [List.length_append, List.length_singleton]
    omega)
  rw [ran]
  have shown := opens.rewritten_shown wrote
  exact ⟨shown.starts, shown.offset_le, by
    show r.depth - 1 = depth
    rw [shown.depth_eq, Nat.add_sub_cancel], shown.format_eq⟩

theorem Shown.updateOffset (shown : Shown text depth format p) (nulFree : 0 ∉ text) :
    p.updateOffset = .ok { p with offset := text.length } ∧
      Open text depth format { p with offset := text.length } := by
  obtain ⟨rest, content⟩ := shown.starts
  have pending : p.buffer.drop p.offset = text.drop p.offset ++ 0 :: rest := by
    rw [← content, List.append_assoc, List.drop_append_of_le_length shown.offset_le]
    rfl
  have found : terminated (p.buffer.drop p.offset) = text.drop p.offset := by
    rw [pending]
    exact terminated_append_nul ⟨_, fun member => nulFree (List.mem_of_mem_drop member)⟩ rest
  have zero : 0 ∈ p.buffer.drop p.offset := by
    rw [pending]
    exact List.mem_append_right _ List.mem_cons_self
  have moved : p.offset + (terminated (p.buffer.drop p.offset)).length = text.length := by
    have below := shown.offset_le
    rw [found, List.length_drop]
    omega
  refine ⟨?_, (List.prefix_append _ _).trans shown.starts, rfl, ?_, shown.depth_eq,
    shown.format_eq⟩
  · rw [PrintBuffer.updateOffset, if_pos zero, moved]
  · show _ < p.buffer.length
    rw [← content, List.length_append, List.length_append, List.length_singleton]
    omega

end Steps

theorem length_escape (byte : UInt8) : (escape byte).length = 1 + escapeCharacters byte := by
  rw [escape, escapeCharacters]
  cases found : escapes.find? fun pair => pair.1 = byte with
  | some pair => rfl
  | none =>
      simp only [Option.isSome_none]
      split <;> rfl

theorem length_escapes (input : Bytes) :
    (input.flatMap escape).length = input.length + (input.map escapeCharacters).sum := by
  induction input with
  | nil => rfl
  | cons byte input ih =>
      rw [List.flatMap_cons, List.length_append, length_escape, ih, List.length_cons,
        List.map_cons, List.sum_cons]
      omega

theorem escape_plain {byte : UInt8} (plain : escapeCharacters byte = 0) :
    escape byte = [byte] := by
  rw [escapeCharacters] at plain
  rw [escape]
  cases found : escapes.find? fun pair => pair.1 = byte with
  | some pair =>
      rw [found] at plain
      contradiction
  | none =>
      rw [found] at plain
      simp only [Option.isSome_none, Bool.false_eq_true, if_false] at plain
      split at plain
      next => contradiction
      next large => exact if_neg large

theorem escapes_plain {input : Bytes} (plain : (input.map escapeCharacters).sum = 0) :
    input.flatMap escape = input := by
  induction input with
  | nil => rfl
  | cons byte input ih =>
      rw [List.map_cons, List.sum_cons] at plain
      rw [List.flatMap_cons, escape_plain (by omega), ih (by omega)]
      rfl

theorem find_escape_none_iff (byte : UInt8) :
    (escapes.find? fun pair => pair.1 = byte) = none ↔
      byte ≠ 34 ∧ byte ≠ 92 ∧ byte ≠ 8 ∧ byte ≠ 9 ∧ byte ≠ 10 ∧ byte ≠ 12 ∧ byte ≠ 13 := by
  rw [List.find?_eq_none]
  simp [escapes, eq_comm]

theorem escape_copied {byte : UInt8} (copied : 31 < byte.toNat ∧ byte ≠ 34 ∧ byte ≠ 92) :
    escape byte = [byte] := by
  have none_ : (escapes.find? fun pair => pair.1 = byte) = none := by
    rw [find_escape_none_iff]
    refine ⟨copied.2.1, copied.2.2, ?_, ?_, ?_, ?_, ?_⟩ <;>
    · rintro rfl
      exact absurd copied.1 (by decide)
  rw [escape, none_]
  exact if_neg (by omega)

theorem Rewritten.shorten {p q : PrintBuffer} {first second : Bytes}
    (wrote : Rewritten p (first ++ second) q) : Rewritten p first q where
  starts := (List.prefix_append _ _).trans wrote.starts
  length_eq := wrote.length_eq
  offset_eq := wrote.offset_eq
  depth_eq := wrote.depth_eq
  format_eq := wrote.format_eq

theorem Rewritten.more {p q : PrintBuffer} {written : Bytes} {i : Nat} (bytes : Bytes)
    (wrote : Rewritten p written q) (start : p.offset + i = written.length)
    (room : written.length + bytes.length ≤ p.buffer.length) :
    ∃ r, q.put i bytes = .ok r ∧ Rewritten p (written ++ bytes) r := by
  rw [← wrote.length_eq] at room
  rw [← wrote.offset_eq] at start
  obtain ⟨r, ran, again⟩ := put_rewritten bytes wrote.starts start room
  exact ⟨r, ran, wrote.trans again⟩

theorem putEscaped_rewritten {p q : PrintBuffer} (input : Bytes) {written : Bytes} {i : Nat}
    (wrote : Rewritten p written q) (start : p.offset + i = written.length)
    (room : written.length + (input.flatMap escape).length < p.buffer.length) :
    ∃ r, putEscaped i input q = .ok r ∧ Rewritten p (written ++ input.flatMap escape) r := by
  induction input generalizing q written i with
  | nil =>
      rw [List.flatMap_nil, List.append_nil]
      exact ⟨q, rfl, wrote⟩
  | cons byte input ih =>
      rw [List.flatMap_cons, List.length_append] at room
      -- one character is written, and the rest behind it
      have goes_on : ∀ {more : Nat} {r : PrintBuffer}, (escape byte).length = more →
          Rewritten p (written ++ escape byte) r →
          ∃ last, putEscaped (i + more) input r = .ok last ∧
            Rewritten p (written ++ (byte :: input).flatMap escape) last := by
        intro more r size wrote
        rw [List.flatMap_cons, ← List.append_assoc]
        apply ih wrote
        · rw [List.length_append, size]
          omega
        · rw [List.length_append]
          omega
      rw [putEscaped]
      split
      next copied =>
        have same := escape_copied copied
        rw [same] at room goes_on
        obtain ⟨r, ran, wrote⟩ := wrote.more [byte] start (by omega)
        rw [ran]
        exact goes_on rfl wrote
      next special =>
        cases found : escapes.find? fun pair => pair.1 = byte with
        | some pair =>
            have same : escape byte = [92, pair.2] := by rw [escape, found]
            rw [same] at room goes_on
            obtain ⟨r, ran, wrote⟩ := wrote.more [92, pair.2] start (by omega)
            simp only [ran]
            exact goes_on rfl wrote
        | none =>
            have plain := (find_escape_none_iff byte).1 found
            have control : byte.toNat < 32 := by
              by_contra large
              exact special ⟨by omega, plain.1, plain.2.1⟩
            have same : escape byte = [92, 117, 48, 48, hexDigit (byte.toNat / 16),
                hexDigit (byte.toNat % 16)] := by
              rw [escape, found]
              exact if_pos control
            rw [same] at room goes_on
            obtain ⟨r, ran, wrote⟩ := wrote.more [92, 117, 48, 48, hexDigit (byte.toNat / 16),
              hexDigit (byte.toNat % 16), 0] start (by
                simp only [List.length_cons, List.length_nil] at room ⊢
                omega)
            simp only [ran]
            have without : Rewritten p (written ++ [92, 117, 48, 48,
                hexDigit (byte.toNat / 16), hexDigit (byte.toNat % 16)]) r := by
              have whole : Rewritten p (written ++ [92, 117, 48, 48,
                  hexDigit (byte.toNat / 16), hexDigit (byte.toNat % 16)] ++ [0]) r := by
                rw [List.append_assoc]
                exact wrote
              exact whole.shorten
            exact goes_on rfl without

section Values

variable {heap : Allocator} {total : Nat} {text : Bytes} {depth : Nat} {format : Bool}
  {p : PrintBuffer}

theorem length_printString (input : CString) :
    (printString input).length =
      input.bytes.length + (input.bytes.map escapeCharacters).sum + 2 := by
  rw [printString, List.length_cons, List.length_append, length_escapes, List.length_singleton]

theorem Open.printStringPtr (opens : Open text depth format p) (input : CString)
    (size : text.length + (printString input).length ≤ total) :
    Prints heap total (Fits total) (p.printStringPtr heap input)
      (Shown (text ++ printString input) depth format) := by
  have length := length_printString input
  refine (opens.ensure (by omega)).bind fun q ⟨opens, room⟩ => ?_
  split
  next plain =>
    have same : printString input = [34] ++ input.bytes ++ [34] := by
      rw [printString, escapes_plain plain]
      rfl
    obtain ⟨r, ran, wrote⟩ := opens.put (printString input ++ [0]) (by
      rw [List.length_append, List.length_singleton]
      omega)
    have bytes : [34] ++ input.bytes ++ [34, 0] = printString input ++ [0] := by
      rw [same, List.append_assoc, List.append_assoc, List.append_assoc]
      rfl
    rw [bytes]
    exact .of_ok ran (opens.rewritten_shown wrote)
  next =>
    obtain ⟨r, opened, wrote⟩ := opens.put [34] (by
      rw [List.length_singleton]
      omega)
    have start : q.offset + 1 = (text ++ [34]).length := by
      rw [opens.offset_eq, List.length_append, List.length_singleton]
    have escapes := length_escapes input.bytes
    obtain ⟨s, escaped, wrote⟩ := putEscaped_rewritten input.bytes wrote start (by
      rw [List.length_append, List.length_singleton]
      omega)
    have behind : q.offset + (input.bytes.length + (input.bytes.map escapeCharacters).sum + 1) =
        (text ++ [34] ++ input.bytes.flatMap escape).length := by
      rw [List.length_append, ← start, escapes]
      omega
    obtain ⟨t, closed, wrote⟩ := wrote.more [34, 0] behind (by
      rw [List.length_append, List.length_append, List.length_singleton, escapes]
      simp only [List.length_cons, List.length_nil]
      omega)
    have bytes : text ++ [34] ++ input.bytes.flatMap escape ++ [34, 0] =
        text ++ (printString input ++ [0]) := by
      simp [printString]
    rw [bytes] at wrote
    refine .of_ok ?_ (opens.rewritten_shown wrote)
    rw [opened]
    show (putEscaped 1 input.bytes r >>= fun p => p.put _ [34, 0]) = _
    rw [escaped]
    exact closed

theorem Open.printNumber (opens : Open text depth format p) (number : Bytes)
    (short : number.length ≤ 25) (size : text.length + number.length ≤ total) :
    Prints heap total (Fits total) (p.printNumber heap number)
      (Shown (text ++ number) depth format) := by
  rw [PrintBuffer.printNumber, if_neg (by omega)]
  refine (opens.ensure (by omega)).bind fun q ⟨opens, room⟩ => ?_
  obtain ⟨r, ran, wrote⟩ := opens.put (number ++ [0]) (by
    rw [List.length_append, List.length_singleton]
    omega)
  rw [ran]
  have shown := opens.rewritten_shown wrote
  refine ⟨shown.starts, ?_, shown.depth_eq, shown.format_eq⟩
  show r.offset + number.length ≤ _
  rw [wrote.offset_eq, opens.offset_eq, List.length_append]

end Values

end FreeCli.JsonPrint

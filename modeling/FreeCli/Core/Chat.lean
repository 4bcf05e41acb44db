import FreeCli.Core.Utf8

namespace FreeCli.Chat

open Words

/-! `chat.c`: what of a conversation is painted into a window. -/

/-- The fields of a message that drawing looks at. -/
structure Message where
  text : Option Bytes
  isUser : Bool
  nToolCalls : Nat
  toolCallId : Option Bytes
  deriving DecidableEq, Repr

structure ChatBuffer where
  msgs : List Message
  scroll : Int
  deriving DecidableEq, Repr

def ChatBuffer.count (cb : ChatBuffer) : Int := cb.msgs.length

def chatScroll (cb : ChatBuffer) (delta : Int) : ChatBuffer :=
  let scroll := cb.scroll + delta
  let scroll := if scroll < 0 then 0 else scroll
  { cb with scroll := if cb.count < scroll then cb.count else scroll }

/-- A `waddstr` at a place of the window.  Which cells ncurses fills with the bytes is left to it
(see `DrawnAsCounted`). -/
structure Paint where
  y : Int
  x : Int
  text : Bytes
  deriving DecidableEq, Repr

/-- Where a segment of `len` bytes ends if it may not end before a continuation
byte. -/
def trimSegment (p : Bytes) : Nat → Option Nat
  | 0 => some 0
  | len + 1 =>
      match p[len + 1]? with
      | none => none
      | some c => if c &&& 0xC0 = 0x80 then trimSegment p len else some (len + 1)

/-- The loop of `render_wrapped`, with `left` rows of the window below `y`: what it
paints and `rows`. -/
def renderRows (indent width : Int) : Nat → Int → Int → Bytes → Option (List Paint × Nat)
  | _, _, _, [] => none
  | 0, _, _, _ :: _ => some ([], 0)
  | left + 1, y, x, c :: rest =>
      if c = 0 then some ([], 0)
      else do
        let (stop, next) ← wrapLineEnd (c :: rest) x width
        let len ← trimSegment (c :: rest) (if 4096 ≤ stop then 4095 else stop)
        let (paints, rows) ← renderRows indent width left (y + 1) indent ((c :: rest).drop next)
        some (if 0 < len then ⟨y, x, (c :: rest).take len⟩ :: paints else paints, rows + 1)

def renderWrapped (maxY y xStart indent width : Int) (text : Bytes) :
    Option (List Paint × Nat) := do
  let (paints, rows) ← renderRows indent width (maxY - y).toNat y xStart text
  some (paints, if 0 < rows then rows else 1)

def messagePrefix (isUser : Bool) : Bytes :=
  if isUser then ascii "You: " else ascii "Assistant: "

def prefixCols (msg : Message) : Int := (messagePrefix msg.isUser).length

/-- Tool results and messages that only carry tool calls are not drawn. -/
def displayable (msg : Message) : Bool :=
  msg.toolCallId.isNone && !(decide (0 < msg.nToolCalls) && msg.text.isNone)

def messageText (msg : Message) : Bytes := msg.text.getD [] ++ [0]

/-- The prefix and the text of a message drawn from row `renderY` on. -/
def renderMessage (h w renderY : Int) (msg : Message) : Option (List Paint) := do
  let (paints, _) ← renderWrapped h renderY (prefixCols msg) (prefixCols msg) w
    (messageText msg)
  some (if renderY < h then ⟨renderY, 0, messagePrefix msg.isUser⟩ :: paints else paints)

/-- The loop of `chat_render` over the messages before `i`, with the next one to end
above row `y`: what is painted for which message. -/
def renderLoop (msgs : List Message) (h w : Int) : Nat → Int → Option (List (Nat × List Paint))
  | 0, _ => some []
  | i + 1, y =>
      if y < 0 then some []
      else
        match msgs[i]? with
        | none => none
        | some msg =>
            if displayable msg then do
              let rows ← countedRows (messageText msg) (prefixCols msg) (prefixCols msg) w
              let y := y - rows
              if y < -1 then some []
              else
                let renderY := if y < 0 then 0 else y
                let paints ← renderMessage h w renderY msg
                let older ← if y < 0 then some [] else renderLoop msgs h w i y
                some ((i, paints) :: older)
            else renderLoop msgs h w i y

def chatRender (cb : ChatBuffer) (h w : Int) : Option (List (Nat × List Paint)) :=
  renderLoop cb.msgs h w (cb.count - cb.scroll).toNat (h - 1)

end FreeCli.Chat

import FreeCli.Library.Lists
import FreeCli.Ui.Input

namespace FreeCli

open Words

/-! The line editor as text before and behind a cursor, and `input.c` against it. -/

/-- What a key is for. -/
inductive Stroke where
  | enter
  | backspace
  | left
  | right
  | home
  | ending
  | up
  | down
  | character (c : UInt8)
  | other
  deriving DecidableEq

def Stroke.of (locale : Locale) (ch : Int) : Stroke :=
  if ch = Tui.newline ∨ ch = Tui.keyEnter then .enter
  else if ch = keyBackspace ∨ ch = 127 then .backspace
  else if ch = Tui.keyLeft then .left
  else if ch = Tui.keyRight then .right
  else if ch = keyHome then .home
  else if ch = keyEnd then .ending
  else if ch = Tui.keyUp then .up
  else if ch = Tui.keyDown then .down
  else if locale.isprint ch then .character (UInt8.ofNat ch.toNat)
  else .other

/-- The lines submitted, oldest first, and which of them is shown; behind the last
stands the line being written. -/
structure Editor where
  before : Bytes
  after : Bytes
  history : List Bytes
  place : Nat
  deriving DecidableEq

namespace Editor

variable (ed : Editor)

def fresh : Editor := ⟨[], [], [], 0⟩

def text : Bytes := ed.before ++ ed.after

def shown : Bytes × Int := (ed.text, ed.before.length)

/-- A line is kept as long as there is room for it. -/
def submit : Editor :=
  if ed.text = [] then ed
  else
    let history := if ed.history.length < historyMax then ed.history ++ [ed.text] else ed.history
    { ed with history, place := history.length }

def showHistory (place : Nat) : Editor :=
  { ed with before := (ed.history[place]?).getD [], after := [], place }

def stroke : Stroke → Editor
  | .enter => ed.submit
  | .backspace => { ed with before := ed.before.dropLast }
  | .left =>
      { ed with before := ed.before.dropLast, after := ed.before.getLast?.toList ++ ed.after }
  | .right =>
      { ed with before := ed.before ++ ed.after.head?.toList, after := ed.after.tail }
  | .home => { ed with before := [], after := ed.text }
  | .ending => { ed with before := ed.text, after := [] }
  | .up => if 0 < ed.place then ed.showHistory (ed.place - 1) else ed
  | .down => if ed.place < ed.history.length then ed.showHistory (ed.place + 1) else ed
  | .character c =>
      if ed.text.length < inputMax - 1 then { ed with before := ed.before ++ [c] } else ed
  | .other => ed

def edit (locale : Locale) (ed : Editor) : Edit → Editor
  | .key ch => ed.stroke (.of locale ch)
  | .reset => { ed with before := [], after := [] }

def afterAll (locale : Locale) (edits : List Edit) : Editor :=
  edits.foldl (edit locale) fresh

end Editor

/-- The arrays hold the editor's text and history. -/
structure InputLine.Follows (line : InputLine) (ed : Editor) : Prop where
  buffer : line.buffer.Holds ed.text
  len : line.len = ed.text.length
  pos : line.pos = ed.before.length
  count : line.histCount = ed.history.length
  place : line.histPos = ed.place
  room : ed.history.length ≤ historyMax
  place_le : ed.place ≤ ed.history.length
  kept : ∀ (k : Nat) (text : Bytes), ed.history[k]? = some text →
    ∃ slot : CharArray inputMax, line.history[k]? = some slot ∧ slot.Holds text

namespace InputLine.Follows

variable {line : InputLine} {ed : Editor} {locale : Locale}

theorem start (line : InputLine) : line.inputInit.Follows .fresh where
  buffer := CharArray.zeroed_holds 1023
  len := rfl
  pos := rfl
  count := rfl
  place := rfl
  room := Nat.zero_le _
  place_le := Nat.le_refl 0
  kept := fun k text here => by cases here

theorem len_pos (follows : line.Follows ed) : line.len > 0 ↔ ed.text ≠ [] := by
  rw [follows.len, ← List.length_pos_iff]
  omega

theorem historyAt (follows : line.Follows ed) {k : Nat} (inside : k < historyMax) :
    ∃ slot, line.historyAt k = some slot ∧
      ∀ text, ed.history[k]? = some text → slot.Holds text := by
  have bound : k < line.history.length := by
    rw [line.history_length]
    exact inside
  have here := List.getElem?_eq_getElem bound
  refine ⟨line.history[k], ?_, ?_⟩
  · rw [InputLine.historyAt, if_pos (Int.natCast_nonneg k), Int.toNat_natCast]
    exact here
  · intro text kept
    obtain ⟨slot, same, holds⟩ := follows.kept k text kept
    obtain rfl := Option.some.inj (here.symm.trans same)
    exact holds

theorem reset (follows : line.Follows ed) :
    ∃ next, line.inputReset = some next ∧ next.Follows { ed with before := [], after := [] } := by
  obtain ⟨cleared, written, empty⟩ := follows.buffer.put_zero
  refine ⟨_, by rw [inputReset, written]; rfl, ?_⟩
  exact ⟨empty, rfl, rfl, follows.count, follows.place, follows.room, follows.place_le,
    follows.kept⟩

/-- The history has the line behind what it had, or is full. -/
theorem saveHistory (follows : line.Follows ed) (some_ : ed.text ≠ []) :
    ∃ next, line.saveHistory = some next ∧ next.Follows ed.submit := by
  have nonzero : ¬ line.len = 0 := by
    have positive := follows.len_pos.2 some_
    omega
  have counted := follows.count
  rw [InputLine.saveHistory, if_neg nonzero, Editor.submit, if_neg some_]
  rcases Nat.lt_or_ge ed.history.length historyMax with few | full
  · obtain ⟨slot, found, -⟩ := follows.historyAt few
    obtain ⟨copy, copied, holds⟩ := follows.buffer.copied slot follows.buffer.length_lt
    rw [← counted] at found
    rw [if_pos (by omega), if_pos few, keep, found]
    simp only [Option.bind_eq_bind, Option.bind_some, copied]
    have longer : line.histCount + 1 = ((ed.history ++ [ed.text]).length : Int) := by
      rw [List.length_append, counted]
      rfl
    have behind : line.histCount.toNat = ed.history.length := by omega
    refine ⟨_, rfl, follows.buffer, follows.len, follows.pos, longer, longer, ?_, ?_, ?_⟩
    · rw [List.length_append]
      exact few
    · exact Nat.le_refl _
    · intro k text here
      change ∃ slot, (line.history.set line.histCount.toNat copy)[k]? = some slot ∧ _
      rw [behind]
      rcases Lists.getElem?_concat_cases here with earlier | ⟨rfl, rfl⟩
      · obtain ⟨old, same, holds⟩ := follows.kept k text earlier
        have other : ed.history.length ≠ k :=
          Nat.ne_of_gt (List.getElem?_eq_some_iff.1 earlier).1
        exact ⟨old, by rw [List.getElem?_set_ne other]; exact same, holds⟩
      · refine ⟨copy, List.getElem?_set_self ?_, holds⟩
        rw [line.history_length]
        exact few
  · rw [if_neg (by omega), if_neg (by omega)]
    exact ⟨_, rfl, follows.buffer, follows.len, follows.pos, counted, counted, follows.room,
      Nat.le_refl _, follows.kept⟩

theorem backspace (follows : line.Follows ed) :
    ∃ next, line.backspace = some next ∧ next.Follows (ed.stroke .backspace) := by
  rw [InputLine.backspace, follows.pos]
  rcases List.eq_nil_or_concat ed.before with empty | ⟨front, c, same⟩
  · rw [if_neg (by rw [empty]; decide)]
    refine ⟨line, rfl, ?_⟩
    rw [Editor.stroke, empty, List.dropLast_nil, ← empty]
    exact follows
  · have text : ed.text = front ++ c :: ed.after := by
      rw [Editor.text, same]
      simp
    have size : ed.before.length = front.length + 1 := by
      rw [same]
      simp
    have buffer := follows.buffer
    rw [text] at buffer
    obtain ⟨shorter, moved, holds⟩ := buffer.removed
    have before : ed.before.dropLast = front := by
      rw [same]
      simp
    have len := follows.len
    rw [text, List.length_append, List.length_cons] at len
    have at_ : (ed.before.length : Int) - 1 = front.length := by omega
    have from_ : (ed.before.length : Int) = front.length + 1 := by omega
    have count : line.len - ed.before.length + 1 = (ed.after.length : Int) + 1 := by omega
    rw [if_pos (by omega), at_, count, from_, moved]
    refine ⟨_, rfl, ?_⟩
    rw [Editor.stroke, before]
    refine ⟨holds, ?_, rfl, follows.count, follows.place, follows.room, follows.place_le,
      follows.kept⟩
    rw [Editor.text, List.length_append]
    simp only
    omega

theorem left (follows : line.Follows ed) :
    (if line.pos > 0 then { line with pos := line.pos - 1 } else line).Follows
      (ed.stroke .left) := by
  rw [follows.pos, Editor.stroke]
  rcases List.eq_nil_or_concat ed.before with empty | ⟨front, c, same⟩
  · rw [if_neg (by rw [empty]; decide), empty, List.dropLast_nil, ← empty]
    simp only [empty, List.getLast?_nil, Option.toList_none, List.nil_append]
    rw [← empty]
    exact follows
  · have text : front ++ (c :: ed.after) = ed.text := by
      rw [Editor.text, same]
      simp
    have size : (ed.before.length : Int) = front.length + 1 := by
      rw [same]
      simp
    have last : ed.before.getLast?.toList ++ ed.after = c :: ed.after := by
      rw [same]
      simp
    have before : ed.before.dropLast = front := by
      rw [same]
      simp
    rw [if_pos (by omega), last, before]
    refine ⟨?_, ?_, ?_, follows.count, follows.place, follows.room, follows.place_le,
      follows.kept⟩
    · rw [Editor.text, text]
      exact follows.buffer
    · rw [Editor.text, text]
      exact follows.len
    · simp only
      omega

theorem right (follows : line.Follows ed) :
    (if line.pos < line.len then { line with pos := line.pos + 1 } else line).Follows
      (ed.stroke .right) := by
  have len := follows.len
  have pos := follows.pos
  have counted : ed.text.length = ed.before.length + ed.after.length := List.length_append
  rw [Editor.stroke]
  cases behind : ed.after with
  | nil =>
      rw [behind, List.length_nil] at counted
      rw [if_neg (by omega), List.head?_nil, Option.toList_none, List.append_nil, List.tail_nil,
        ← behind]
      exact follows
  | cons c rest =>
      rw [behind, List.length_cons] at counted
      have text : ed.before ++ [c] ++ rest = ed.text := by
        rw [Editor.text, behind, List.append_assoc, List.singleton_append]
      rw [if_pos (by omega), List.head?_cons, Option.toList_some, List.tail_cons]
      refine ⟨?_, ?_, ?_, follows.count, follows.place, follows.room, follows.place_le,
        follows.kept⟩
      · rw [Editor.text, text]
        exact follows.buffer
      · rw [Editor.text, text]
        exact len
      · rw [List.length_append]
        simp only [List.length_singleton]
        omega

theorem home (follows : line.Follows ed) :
    { line with pos := 0 : InputLine }.Follows (ed.stroke .home) :=
  ⟨follows.buffer, follows.len, rfl, follows.count, follows.place, follows.room,
    follows.place_le, follows.kept⟩

theorem ending (follows : line.Follows ed) :
    { line with pos := line.len : InputLine }.Follows (ed.stroke .ending) := by
  have text : ed.text ++ [] = ed.text := List.append_nil _
  refine ⟨?_, ?_, follows.len, follows.count, follows.place, follows.room, follows.place_le,
    follows.kept⟩
  · rw [Editor.stroke, Editor.text, text]
    exact follows.buffer
  · rw [Editor.stroke, Editor.text, text]
    exact follows.len

theorem showHistory (follows : line.Follows ed) {place : Nat} (inside : place < ed.history.length) :
    ∃ next, { line with histPos := place : InputLine }.showHistory = some next ∧
      next.Follows (ed.showHistory place) := by
  obtain ⟨slot, found, holds⟩ :=
    follows.historyAt (Nat.lt_of_lt_of_le inside follows.room)
  have here := List.getElem?_eq_getElem inside
  have stored := holds _ here
  obtain ⟨copy, copied, shows⟩ := stored.copied line.buffer stored.length_lt
  have found : { line with histPos := place : InputLine }.historyAt place = some slot := found
  simp only [InputLine.showHistory, found, copied, shows.strlen_eq, Option.bind_eq_bind,
    Option.bind_some]
  refine ⟨_, rfl, ?_⟩
  have text : ed.history[place] ++ [] = ed.history[place] := List.append_nil _
  rw [Editor.showHistory, here, Option.getD_some]
  refine ⟨?_, ?_, rfl, follows.count, rfl, follows.room, Nat.le_of_lt inside, follows.kept⟩
  · rw [Editor.text, text]
    exact shows
  · rw [Editor.text, text]

theorem up (follows : line.Follows ed) :
    ∃ next, line.up = some next ∧ next.Follows (ed.stroke .up) := by
  have bound := follows.place_le
  rw [InputLine.up, Editor.stroke, follows.place]
  split
  next positive =>
    have here : (ed.place : Int) - 1 = (ed.place - 1 : Nat) := by omega
    rw [here, if_pos (by omega)]
    exact follows.showHistory (by omega)
  next none_ =>
    rw [if_neg (by omega)]
    exact ⟨line, rfl, follows⟩

theorem down (follows : line.Follows ed) :
    ∃ next, line.down = some next ∧ next.Follows (ed.stroke .down) := by
  have bound := follows.place_le
  have counted := follows.count
  have here : (ed.place : Int) + 1 = (ed.place + 1 : Nat) := rfl
  rw [InputLine.down, Editor.stroke, follows.place, here]
  rcases Nat.lt_or_ge ed.place ed.history.length with before | behind
  · rw [if_pos before, if_pos (by omega)]
    rcases Nat.lt_or_ge (ed.place + 1) ed.history.length with inside | last
    · have more : ¬ ((ed.place + 1 : Nat) : Int) = line.histCount := by omega
      simp only [if_neg more]
      exact follows.showHistory inside
    · have ended : ed.place + 1 = ed.history.length := by omega
      have same : ((ed.place + 1 : Nat) : Int) = line.histCount := by omega
      simp only [if_pos same]
      obtain ⟨cleared, written, empty⟩ := follows.buffer.put_zero
      refine ⟨_, by rw [inputReset, written]; rfl, ?_⟩
      have none_ : ed.history[ed.place + 1]? = none := List.getElem?_eq_none last
      rw [Editor.showHistory, none_, Option.getD_none]
      exact ⟨empty, rfl, rfl, counted, rfl, follows.room, Nat.le_of_eq ended, follows.kept⟩
  · rw [if_neg (by omega), if_neg (by omega)]
    exact ⟨line, rfl, follows⟩

theorem insert (follows : line.Follows ed) {ch : Int} (printing : locale.isprint ch = true) :
    ∃ next, line.insert locale ch = some next ∧
      next.Follows (ed.stroke (.character (UInt8.ofNat ch.toNat))) := by
  have nonzero : UInt8.ofNat ch.toNat ≠ 0 := by
    intro zero
    rw [Locale.isprint, zero, locale.nul, Bool.and_false] at printing
    cases printing
  have pos := follows.pos
  have len := follows.len
  have counted : ed.text.length = ed.before.length + ed.after.length := List.length_append
  rw [InputLine.insert, Editor.stroke]
  rcases Nat.lt_or_ge ed.text.length (inputMax - 1) with room | full
  · have space : ed.text.length + 1 < inputMax := Nat.add_lt_of_lt_sub room
    have small : line.len < (inputMax : Int) - 1 := by
      rw [len]
      exact Int.lt_sub_right_of_add_lt (Int.ofNat_lt.2 space)
    obtain ⟨moved, longer, copied, written, holds⟩ := follows.buffer.inserted space nonzero
    have count : line.len - line.pos + 1 = (ed.after.length : Int) + 1 := by omega
    rw [if_pos ⟨printing, small⟩, if_pos room, count, pos, copied]
    simp only [Option.bind_eq_bind, Option.bind_some, written]
    have text : ed.before ++ [UInt8.ofNat ch.toNat] ++ ed.after =
        ed.before ++ UInt8.ofNat ch.toNat :: ed.after := by
      rw [List.append_assoc, List.singleton_append]
    refine ⟨_, rfl, ?_, ?_, ?_, follows.count, follows.place, follows.room, follows.place_le,
      follows.kept⟩
    · rw [Editor.text, text]
      exact holds
    · rw [Editor.text, text, List.length_append, List.length_cons]
      simp only
      omega
    · rw [List.length_append]
      rfl
  · have large : ¬ line.len < (inputMax : Int) - 1 := by
      rw [len]
      have full : 1023 ≤ ed.text.length := full
      change ¬ (ed.text.length : Int) < 1024 - 1
      omega
    rw [if_neg fun both => large both.2, if_neg (Nat.not_lt.2 full)]
    exact ⟨line, rfl, follows⟩

variable (locale) in
/-- One key, one operation of the editor; Enter submits a line that is not empty. -/
theorem inputHandleKey (follows : line.Follows ed) (ch : Int) :
    ∃ next, line.inputHandleKey locale ch =
        some (next, decide (Stroke.of locale ch = .enter ∧ ed.text ≠ [])) ∧
      next.Follows (ed.stroke (.of locale ch)) := by
  have silent : ∀ {run : Option InputLine} {stroke : Stroke}, stroke ≠ .enter →
      (∃ next, run = some next ∧ next.Follows (ed.stroke stroke)) →
      ∃ next, run.map (·, false) = some (next, decide (stroke = .enter ∧ ed.text ≠ [])) ∧
        next.Follows (ed.stroke stroke) := by
    intro run stroke other ran
    obtain ⟨next, rfl, after⟩ := ran
    refine ⟨next, ?_, after⟩
    rw [decide_eq_false fun both => other both.1]
    rfl
  unfold InputLine.inputHandleKey Stroke.of
  split
  next =>
    by_cases empty : ed.text = []
    · rw [if_neg fun positive => follows.len_pos.1 positive empty,
        decide_eq_false fun both => both.2 empty]
      refine ⟨line, rfl, ?_⟩
      rw [Editor.stroke, Editor.submit, if_pos empty]
      exact follows
    · obtain ⟨next, saved, after⟩ := follows.saveHistory empty
      rw [if_pos (follows.len_pos.2 empty), saved, decide_eq_true ⟨rfl, empty⟩]
      exact ⟨next, rfl, after⟩
  next =>
    split
    next => exact silent Stroke.noConfusion follows.backspace
    next =>
      split
      next => exact silent Stroke.noConfusion ⟨_, rfl, follows.left⟩
      next =>
        split
        next => exact silent Stroke.noConfusion ⟨_, rfl, follows.right⟩
        next =>
          split
          next => exact silent Stroke.noConfusion ⟨_, rfl, follows.home⟩
          next =>
            split
            next => exact silent Stroke.noConfusion ⟨_, rfl, follows.ending⟩
            next =>
              split
              next => exact silent Stroke.noConfusion follows.up
              next =>
                split
                next => exact silent Stroke.noConfusion follows.down
                next =>
                  split
                  next printing => exact silent Stroke.noConfusion (follows.insert printing)
                  next other =>
                    refine silent Stroke.noConfusion ⟨line, ?_, follows⟩
                    exact if_neg fun both => other both.1

theorem edit (follows : line.Follows ed) (edit : Edit) :
    ∃ next, line.edit locale edit = some next ∧ next.Follows (ed.edit locale edit) := by
  cases edit with
  | key ch =>
      obtain ⟨next, handled, after⟩ := follows.inputHandleKey locale ch
      refine ⟨next, ?_, after⟩
      rw [InputLine.edit, handled]
      rfl
  | reset => exact follows.reset

variable (locale) in
theorem edits (follows : line.Follows ed) (edits : List Edit) :
    ∃ next, Transition.exec (InputLine.edit locale) edits line = some next ∧
      next.Follows (edits.foldl (Editor.edit locale) ed) :=
  Transition.exec_simulates (fun _ _ edit follows => follows.edit edit) edits follows

theorem inputRender (follows : line.Follows ed) : line.inputRender = ed.shown := by
  rw [InputLine.inputRender, follows.len, follows.pos, Int.toNat_natCast,
    follows.buffer.take_length, terminated_of_nulFree follows.buffer.nulFree]
  rfl

end InputLine.Follows

/-- The bounds of the line, and its strings: they end inside their arrays. -/
structure InputLine.Sound (line : InputLine) : Prop where
  pos_nonneg : 0 ≤ line.pos
  pos_le : line.pos ≤ line.len
  len_le : line.len ≤ 1023
  ends : line.buffer.bytes[line.len.toNat]? = some 0
  first : ∀ i < line.len.toNat, line.buffer.bytes[i]? ≠ some 0
  histPos_nonneg : 0 ≤ line.histPos
  histPos_le : line.histPos ≤ line.histCount
  histCount_le : line.histCount ≤ 32
  stored : ∀ k < line.histCount.toNat, ∃ slot : CharArray inputMax,
    line.history[k]? = some slot ∧ ∃ i < 1024, slot.bytes[i]? = some 0

theorem InputLine.Follows.sound {line : InputLine} {ed : Editor} (follows : line.Follows ed) :
    line.Sound := by
  have len := follows.len
  have pos := follows.pos
  have count := follows.count
  have place := follows.place
  have room := follows.room
  have place_le := follows.place_le
  have inside := follows.buffer.length_lt
  have counted : ed.text.length = ed.before.length + ed.after.length := List.length_append
  have size : line.len.toNat = ed.text.length := by omega
  have terminator := follows.buffer.terminator
  have room : ed.history.length ≤ 32 := room
  have inside : ed.text.length < 1024 := inside
  refine ⟨by omega, by omega, by omega, ?_, ?_, by omega, by omega, by omega, ?_⟩
  · rw [size]
    exact terminator.1
  · rw [size]
    exact terminator.2
  · intro k older
    have here : k < ed.history.length := by omega
    obtain ⟨slot, found, holds⟩ := follows.kept k _ (List.getElem?_eq_getElem here)
    exact ⟨slot, found, _, holds.length_lt, holds.terminator.1⟩

theorem edits_follow (locale : Locale) (memory : InputLine) (edits : List Edit) :
    ∃ line, Transition.exec (InputLine.edit locale) edits memory.inputInit = some line ∧
      line.Follows (Editor.afterAll locale edits) :=
  (InputLine.Follows.start memory).edits locale edits

/-- From `input_init` on, any keys and resets in any order: all accesses are inside the
arrays, the bounds hold, and what is shown and what is submitted are as in the editor. -/
theorem input_refines_editor (locale : Locale) (memory : InputLine) (edits : List Edit) :
    ∃ line, Transition.exec (InputLine.edit locale) edits memory.inputInit = some line ∧
      line.Sound ∧ line.inputRender = (Editor.afterAll locale edits).shown ∧
      ∀ ch, (line.inputHandleKey locale ch).map Prod.snd =
        some (decide (Stroke.of locale ch = .enter ∧ (Editor.afterAll locale edits).text ≠ [])) := by
  obtain ⟨line, ran, follows⟩ := edits_follow locale memory edits
  refine ⟨line, ran, follows.sound, follows.inputRender, fun ch => ?_⟩
  obtain ⟨next, handled, -⟩ := follows.inputHandleKey locale ch
  rw [handled]
  rfl

end FreeCli

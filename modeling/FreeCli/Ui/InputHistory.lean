import FreeCli.Ui.InputEditor

namespace FreeCli

open Words Transition

/-! The line submitted last comes back with the up key while the history has room. -/

def InputLine.typed (line : InputLine) : Bytes := terminated line.buffer.bytes

def InputLine.newest (line : InputLine) : Option Bytes :=
  (line.historyAt 31).map fun slot => terminated slot.bytes

def submitThenUp (ch : Int) : List Edit := [.key ch, .reset, .key Tui.keyUp]

namespace Editor

variable {ed : Editor}

theorem history_submit (some_ : ed.text ≠ []) :
    ed.submit.history =
      if ed.history.length < historyMax then ed.history ++ [ed.text] else ed.history := by
  rw [submit, if_neg some_]

theorem text_submitThenUp (locale : Locale) {ch : Int} (enters : Stroke.of locale ch = .enter)
    (some_ : ed.text ≠ []) (nonempty : ed.submit.history ≠ []) :
    ((submitThenUp ch).foldl (edit locale) ed).text = ed.submit.history.getLast nonempty := by
  have place : ed.submit.place = ed.submit.history.length := by
    rw [submit, if_neg some_]
  have positive := List.length_pos_iff.2 nonempty
  have last : ed.submit.history[ed.submit.history.length - 1]? =
      some (ed.submit.history.getLast nonempty) := by
    rw [← List.getLast?_eq_getElem?, List.getLast?_eq_some_getLast]
  have ups : Stroke.of locale Tui.keyUp = .up := rfl
  simp only [submitThenUp, List.foldl_cons, List.foldl_nil, edit, enters, ups, stroke, place,
    if_pos positive, showHistory, last, Option.getD_some, text, List.append_nil]

end Editor

namespace InputLine.Follows

variable {line : InputLine} {ed : Editor}

theorem typed (follows : line.Follows ed) : line.typed = ed.text :=
  follows.buffer.terminated_eq

/-- With a full history the last array holds its last line. -/
theorem newest (follows : line.Follows ed) (full : ed.history.length = historyMax) :
    line.newest = ed.history.getLast? := by
  obtain ⟨slot, found, holds⟩ := follows.historyAt (k := 31) (by decide)
  have inside : 31 < ed.history.length := by
    rw [full]
    decide
  have here := List.getElem?_eq_getElem inside
  rw [InputLine.newest, List.getLast?_eq_getElem?, full, show historyMax - 1 = 31 from rfl, here]
  have found : line.historyAt 31 = some slot := found
  rw [found, Option.map_some, (holds _ here).terminated_eq]

end InputLine.Follows

/-- The up key brings the submitted line back exactly if the history had room for it, or
had it in its last place. -/
theorem up_recalls_iff (locale : Locale) (memory : InputLine) (edits : List Edit)
    {line : InputLine} (ch : Int)
    (ran : exec (InputLine.edit locale) edits memory.inputInit = some line)
    (submitted : (line.inputHandleKey locale ch).map Prod.snd = some true) :
    ∃ next, exec (InputLine.edit locale) (submitThenUp ch) line = some next ∧
      (next.typed = line.typed ↔ line.histCount < 32 ∨ line.newest = some line.typed) := by
  obtain ⟨same, again, follows⟩ := edits_follow locale memory edits
  obtain rfl := Option.some.inj (again.symm.trans ran)
  obtain ⟨after, handled, -⟩ := follows.inputHandleKey locale ch
  rw [handled] at submitted
  obtain ⟨enters, some_⟩ := of_decide_eq_true (Option.some.inj submitted)
  obtain ⟨next, moved, shows⟩ := follows.edits locale (submitThenUp ch)
  refine ⟨next, moved, ?_⟩
  have history := Editor.history_submit some_
  have count := follows.count
  rcases Nat.lt_or_ge (Editor.afterAll locale edits).history.length historyMax with few | full
  · rw [if_pos few] at history
    have nonempty : (Editor.afterAll locale edits).submit.history ≠ [] := by
      rw [history]
      exact List.append_ne_nil_of_right_ne_nil _ (List.cons_ne_nil _ _)
    have text := Editor.text_submitThenUp locale enters some_ nonempty
    simp only [history, List.getLast_concat] at text
    have room : same.histCount < 32 := by
      rw [count]
      exact Int.ofNat_lt.2 few
    rw [shows.typed, follows.typed, text]
    exact ⟨fun _ => .inl room, fun _ => rfl⟩
  · have exact_ : (Editor.afterAll locale edits).history.length = historyMax :=
      Nat.le_antisymm follows.room full
    rw [if_neg (Nat.not_lt.2 full)] at history
    have nonempty : (Editor.afterAll locale edits).submit.history ≠ [] := by
      rw [history]
      exact List.ne_nil_of_length_pos (by rw [exact_]; decide)
    have text := Editor.text_submitThenUp locale enters some_ nonempty
    simp only [history] at text nonempty
    have none_ : ¬ same.histCount < 32 := by
      rw [count, exact_]
      decide
    rw [shows.typed, follows.typed, text, follows.newest exact_,
      List.getLast?_eq_some_getLast nonempty, Option.some.injEq]
    exact ⟨.inr, fun either => either.resolve_left none_⟩

def emptyLine : InputLine :=
  { buffer := .zeroed inputMax, len := 0, pos := 0
    history := List.replicate historyMax (.zeroed inputMax)
    history_length := List.length_replicate, histCount := 0, histPos := 0 }

theorem up_recalls_first : ∃ line,
    exec (InputLine.edit .posix) [.key 0x61] emptyLine.inputInit = some line ∧
      ∃ next, exec (InputLine.edit .posix) (submitThenUp Tui.newline) line = some next ∧
        (next.typed = line.typed ↔ line.histCount < 32 ∨ line.newest = some line.typed) := by
  obtain ⟨line, ran, follows⟩ := edits_follow .posix emptyLine [.key 0x61]
  obtain ⟨after, handled, -⟩ := follows.inputHandleKey .posix Tui.newline
  refine ⟨line, ran, up_recalls_iff .posix emptyLine _ Tui.newline ran ?_⟩
  rw [handled]
  rfl

def thirtyTwoLines : List Edit :=
  (List.replicate 32 [.key 0x61, .key Tui.newline, .reset]).flatten ++ [.key 0x62]

set_option maxRecDepth 4000 in
theorem thirtyTwo_then_up : ∃ line next,
    exec (InputLine.edit .posix) thirtyTwoLines emptyLine.inputInit = some line ∧
      (line.inputHandleKey .posix Tui.newline).map Prod.snd = some true ∧
      exec (InputLine.edit .posix) (submitThenUp Tui.newline) line = some next ∧
      line.typed = ascii "b" ∧ next.typed = ascii "a" := by
  obtain ⟨line, ran, follows⟩ := edits_follow .posix emptyLine thirtyTwoLines
  obtain ⟨after, handled, -⟩ := follows.inputHandleKey .posix Tui.newline
  obtain ⟨next, moved, shows⟩ := follows.edits .posix (submitThenUp Tui.newline)
  have text : (Editor.afterAll .posix thirtyTwoLines).text = ascii "b" := by decide
  have old : ((submitThenUp Tui.newline).foldl (Editor.edit .posix)
      (Editor.afterAll .posix thirtyTwoLines)).text = ascii "a" := by decide
  refine ⟨line, next, ran, ?_, moved, follows.typed.trans text, shows.typed.trans old⟩
  rw [handled, text]
  rfl

end FreeCli

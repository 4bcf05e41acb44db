import Mathlib.Data.List.Infix
import FreeCli.Core.Letters

namespace FreeCli

open Words WordWrap

theorem availColumns_eq {xStart width : Int} (room : 2 ≤ width - xStart) :
    (availColumns xStart width : Int) = width - xStart := by
  rw [availColumns, if_neg (by omega)]
  omega

theorem availColumns_cases (xStart width : Int) :
    2 ≤ width - xStart ∧ 2 ≤ availColumns xStart width ∨
      ¬ 2 ≤ width - xStart ∧ availColumns xStart width = 1 := by
  rw [availColumns]
  split_ifs <;> omega

namespace Letter

theorem width_le_two (c : Letter) : font.width c ≤ 2 := by
  rcases c.width_cases with width | width <;> omega

theorem fits_of_room {xStart width : Int} (room : 2 ≤ width - xStart) (c : Letter) :
    font.newline c = true ∨ font.width c ≤ availColumns xStart width := by
  have bound := c.width_le_two
  rcases availColumns_cases xStart width with ⟨-, wide⟩ | ⟨narrow, -⟩
  · exact .inr (by omega)
  · contradiction

theorem exists_rows {indent width : Int} (room : 2 ≤ width - indent) (xStart : Int)
    (text : List Letter) :
    ∃ rows, font.Rows (availColumns indent width) (availColumns xStart width) text rows :=
  (Font.exists_rows_iff font _ _ text).2 fun _ _ _ _ _ c _ => fits_of_room room c

theorem fits_one_iff (c : Letter) :
    (font.newline c = true ∨ font.width c ≤ 1) ↔ font.width c = 1 := by
  constructor
  · rintro (broken | narrow)
    · have same : c.val = '\n' := by simpa [font] using broken
      change (utf8Cwidth (String.utf8EncodeChar c.val)).getD 1 = 1
      rw [same]
      rfl
    · have positive := font.width_pos c
      omega
  · exact fun width => .inr (Nat.le_of_eq width)

end Letter

open Letter (font script bytes_script size_script)

theorem wrapLineEnd_letters {row gap rest : List Letter} {xStart width : Int}
    (breaks : font.Breaks (availColumns xStart width) row gap rest) :
    wrapLineEnd (utf8 (row ++ (gap ++ rest)) ++ [0]) xStart width =
      some ((utf8 row).length, (utf8 (row ++ gap)).length) := by
  have call := script.wrapLineEnd_breaks breaks
  rwa [bytes_script, size_script, size_script] at call

theorem utf8_pos_iff (text : List Letter) : 0 < (utf8 text).length ↔ text ≠ [] := by
  rw [← size_script]
  constructor
  · rintro positive rfl
    exact absurd positive (Nat.lt_irrefl 0)
  · intro some_
    exact Nat.lt_of_lt_of_le (List.length_pos_iff.2 some_) (script.length_le_size text)

theorem wrapLineEnd_progress (text : List Letter) (xStart width : Int) :
    (text ≠ [] → ∃ stop next,
        wrapLineEnd (utf8 text ++ [0]) xStart width = some (stop, next) ∧ 0 < next) ↔
      (2 ≤ width - xStart ∨ ∀ c ∈ text.head?, font.width c = 1) := by
  cases text with
  | nil => simp
  | cons c text =>
      obtain ⟨row, gap, rest, same, breaks⟩ :=
        Font.exists_breaks font (availColumns xStart width) (c :: text)
      have call := wrapLineEnd_letters breaks
      have progress := breaks.progress_iff same.symm
      rw [← same] at call
      rw [call]
      simp only [ne_eq, reduceCtorEq, not_false_eq_true, forall_const, Option.some.injEq,
        Prod.mk.injEq, List.head?_cons, Option.mem_some_iff, forall_eq']
      constructor
      · rintro ⟨stop, next, ⟨-, rfl⟩, positive⟩
        have fits := progress.1 ((utf8_pos_iff _).1 positive)
        rcases availColumns_cases xStart width with ⟨room, -⟩ | ⟨-, one⟩
        · exact .inl room
        · rw [one] at fits
          exact .inr (c.fits_one_iff.1 fits)
      · intro room
        refine ⟨_, _, ⟨rfl, rfl⟩, (utf8_pos_iff _).2 (progress.2 ?_)⟩
        rcases availColumns_cases xStart width with ⟨wide, -⟩ | ⟨narrow, one⟩
        · exact Letter.fits_of_room wide c
        · rw [one]
          exact c.fits_one_iff.2 (room.resolve_left narrow)

theorem countRows_ended_iff (text : List Letter) (xStart indent width : Int) :
    (∃ calls rows, countRows calls (utf8 text ++ [0]) xStart indent width = .ended rows) ↔
      ∃ rows, font.Rows (availColumns indent width) (availColumns xStart width) text rows := by
  rw [← bytes_script]
  constructor
  · rintro ⟨calls, rows, ended⟩
    rw [countRows] at ended
    cases loop : countLoop indent width calls (script.bytes text ++ [0]) 0 xStart with
    | fault =>
        rw [loop] at ended
        cases ended
    | running =>
        rw [loop] at ended
        cases ended
    | ended result =>
        obtain ⟨rows, laid, -⟩ := script.rows_of_countLoop loop
        exact ⟨rows, laid⟩
  · rintro ⟨rows, laid⟩
    have loop := script.countLoop_rows 0 laid (Nat.le_refl _)
    exact ⟨rows.length, _, by rw [countRows, loop]; rfl⟩

/-- `wrap_line_end` gets on in a text unless it has one column and the first
character takes two; `count_rows` comes to an end unless it has one column for the
later rows and there is a character of two columns after the first row. -/
theorem countRows_ends (text : List Letter) (xStart indent width : Int) :
    ((text ≠ [] → ∃ stop next,
        wrapLineEnd (utf8 text ++ [0]) xStart width = some (stop, next) ∧ 0 < next) ↔
      (2 ≤ width - xStart ∨ ∀ c ∈ text.head?, font.width c = 1)) ∧
    ((∃ calls rows, countRows calls (utf8 text ++ [0]) xStart indent width = .ended rows) ↔
      (2 ≤ width - indent ∨ ∀ row gap rest, text = row ++ (gap ++ rest) →
        font.Breaks (availColumns xStart width) row gap rest →
          ∀ c ∈ rest, font.width c = 1)) := by
  refine ⟨wrapLineEnd_progress text xStart width, ?_⟩
  rw [countRows_ended_iff, Font.exists_rows_iff]
  rcases availColumns_cases indent width with ⟨room, -⟩ | ⟨narrow, one⟩
  · constructor
    · exact fun _ => .inl room
    · exact fun _ _ _ _ _ _ c _ => Letter.fits_of_room room c
  · rw [one]
    simp only [narrow, false_or, Letter.fits_one_iff]

/-- A character of two columns in a message, in a window with one column beside
the prefix: `wrap_line_end` stays where it is, and `count_rows` calls it for ever. -/
theorem countRows_stuck :
    wrapLineEnd (utf8 (letters "日") ++ [0]) 11 12 = some (0, 0) ∧
      ¬ ∃ calls rows, countRows calls (utf8 (letters "日") ++ [0]) 11 11 12 = .ended rows := by
  refine ⟨by decide +kernel, fun ends => ?_⟩
  obtain ⟨rows, laid⟩ := (countRows_ended_iff _ 11 11 12).1 ends
  exact absurd (laid.narrow rfl) (by decide)

theorem Letter.gap_cases {avail : Nat} {row gap rest : List Letter}
    (breaks : font.Breaks avail row gap rest) :
    gap = [] ∨ (∀ c ∈ gap, c.val = ' ' ∨ c.val = '\t') ∨ gap.map Subtype.val = ['\n'] := by
  rcases breaks.gap_cases with empty | blanks | ⟨next, rfl, broken⟩
  · exact .inl empty
  · refine .inr (.inl fun c member => ?_)
    simpa [font] using blanks c member
  · refine .inr (.inr ?_)
    simpa [font] using broken

theorem rows_shape {first later : Nat} {text : List Letter}
    {rows : List (List Letter × List Letter)} (laid : font.Rows later first text rows) :
    text = rows.flatMap (fun row => row.1 ++ row.2) ∧
      (∀ row ∈ rows.head?, font.columns row.1 ≤ first) ∧
      (∀ row ∈ rows.tail, font.columns row.1 ≤ later) ∧
      ∀ row ∈ rows, row.2 = [] ∨ (∀ c ∈ row.2, c.val = ' ' ∨ c.val = '\t') ∨
        row.2.map Subtype.val = ['\n'] := by
  induction laid with
  | done => simp
  | @row first row gap rest rows more breaks after ih =>
      obtain ⟨text, head, tail, gaps⟩ := ih
      refine ⟨?_, ?_, ?_, ?_⟩
      · rw [List.flatMap_cons, ← text, List.append_assoc]
      · intro line here
        obtain rfl := Option.some.inj here
        exact breaks.columns_le
      · intro line member
        cases rows with
        | nil => cases member
        | cons first rows =>
            rcases List.mem_cons.1 member with rfl | member
            · exact head _ rfl
            · exact tail line member
      · intro line member
        rcases List.mem_cons.1 member with rfl | member
        · exact Letter.gap_cases breaks
        · exact gaps line member

/-- The calls of `wrap_line_end` cut a text into rows of whole characters that are
not too wide, with nothing but blanks or one newline left out between two. -/
theorem wrapping_lossless (text : List Letter) (xStart indent width : Int)
    (first : 2 ≤ width - xStart) (later : 2 ≤ width - indent) :
    ∃ rows : List (List Letter × List Letter),
      (∃ calls, countLoop indent width calls (utf8 text ++ [0]) 0 xStart =
        .ended (script.place 0 rows)) ∧
      text = rows.flatMap (fun row => row.1 ++ row.2) ∧
      (∀ row ∈ rows.head?, (font.columns row.1 : Int) ≤ width - xStart) ∧
      (∀ row ∈ rows.tail, (font.columns row.1 : Int) ≤ width - indent) ∧
      (∀ row ∈ rows, row.2 = [] ∨ (∀ c ∈ row.2, c.val = ' ' ∨ c.val = '\t') ∨
        row.2.map Subtype.val = ['\n']) ∧
      (∃ calls, countRows calls (utf8 text ++ [0]) xStart indent width =
        .ended (if text = [] then 1 else rows.length)) := by
  obtain ⟨rows, laid⟩ := Letter.exists_rows later xStart text
  obtain ⟨whole, head, tail, gaps⟩ := rows_shape laid
  have loop := script.countLoop_rows 0 laid (Nat.le_refl _)
  rw [bytes_script] at loop
  refine ⟨rows, ⟨_, loop⟩, whole, ?_, ?_, gaps, ⟨rows.length, ?_⟩⟩
  · intro row here
    have bound := head row here
    have columns := availColumns_eq first
    omega
  · intro row member
    have bound := tail row member
    have columns := availColumns_eq later
    omega
  · rw [countRows, loop]
    simp only [Scanned.map, Script.length_place]
    cases laid with
    | done => rfl
    | row more => rw [if_neg more]; rfl

theorem wrapping_lossless_hello :
    ∃ rows : List (List Letter × List Letter),
      (∃ calls, countLoop 0 8 calls (utf8 (letters "hello world") ++ [0]) 0 0 =
        .ended (script.place 0 rows)) ∧
      letters "hello world" = rows.flatMap (fun row => row.1 ++ row.2) := by
  obtain ⟨rows, loop, whole, -⟩ := wrapping_lossless (letters "hello world") 0 0 8
    (by decide) (by decide)
  exact ⟨rows, loop, whole⟩

/-- Every row boundary inside a word is inside a word wider than a row, unless a row
starts with one blank and a word exactly as wide as the row. -/
theorem words_split_iff (text : List Letter) (indent width : Int) (room : 2 ≤ width - indent) :
    (∃ calls rows,
      countLoop indent width calls (utf8 text ++ [0]) 0 indent = .ended rows ∧
      ∀ before one two after, text = before ++ (one ++ (two ++ after)) →
        font.InsideWord before one two after →
        ∀ row ∈ rows, ((utf8 (before ++ one)).length = row.stop ∨
            (utf8 (before ++ one)).length = row.next) →
          width - indent < font.columns (one ++ two)) ↔
      ∀ start, font.RowStart (availColumns indent width) start text →
        ¬ font.Tight (availColumns indent width) start := by
  have columns := availColumns_eq room
  obtain ⟨laid, whole⟩ := Letter.exists_rows room indent text
  simp only [← bytes_script]
  constructor
  · rintro ⟨calls, rows, loop, split⟩ start reached
      ⟨space, body, last, after, rfl, blank, started, words, right, exact_⟩
    obtain ⟨rows', laid', -, rfl⟩ := script.rows_of_countLoop loop
    have breaks := Font.Tight.breaks after blank words exact_
    obtain ⟨pre, rfl, member⟩ := script.mem_place_of_rowStart (space :: body) []
      (last :: after) 0 reached laid' (List.cons_ne_nil _ _) breaks
    have notWord : font.word space = false := by simp [Font.word, blank]
    have inside : font.InsideWord (pre ++ [space]) body [last] after :=
      ⟨started, List.cons_ne_nil _ _, words, by simpa using notWord, right⟩
    have wide := split (pre ++ [space]) body [last] after (by simp) inside _ member
      (.inl (by simp [Script.size]))
    rw [exact_] at wide
    omega
  · intro loose
    refine ⟨_, _, script.countLoop_rows 0 whole (Nat.le_refl _), ?_⟩
    intro before one two after same inside row member place
    obtain ⟨pre, row', gap, rest, same', breaks, reached, rfl⟩ :=
      script.exists_of_mem_place whole rfl member
    have split : (pre ++ row' = before ++ one ∧ gap ++ rest = two ++ after) ∨
        (pre ++ row' ++ gap = before ++ one ∧ rest = two ++ after) := by
      have joined : before ++ one ++ (two ++ after) = pre ++ row' ++ (gap ++ rest) := by
        rw [List.append_assoc, ← same, same', List.append_assoc]
      rcases place with stop | next
      · obtain ⟨front, behind⟩ := script.split_unique joined (by simpa [Script.size] using stop)
        exact .inl ⟨front.symm, behind.symm⟩
      · rw [← List.append_assoc _ gap] at joined
        obtain ⟨front, behind⟩ := script.split_unique joined (by simpa [Script.size] using next)
        exact .inr ⟨front.symm, behind.symm⟩
    have wide : availColumns indent width < font.columns (one ++ two) :=
      breaks.wide inside split (loose _ reached)
    omega

theorem words_split_hello :
    countLoop 0 8 20 (utf8 (letters "hello big world") ++ [0]) 0 0 =
        .ended [⟨0, 5, 6⟩, ⟨6, 9, 10⟩, ⟨10, 15, 15⟩] ∧
      ∃ calls rows,
        countLoop 0 8 calls (utf8 (letters "hello big world") ++ [0]) 0 0 = .ended rows ∧
        ∀ before one two after, letters "hello big world" = before ++ (one ++ (two ++ after)) →
          font.InsideWord before one two after →
          ∀ row ∈ rows, ((utf8 (before ++ one)).length = row.stop ∨
              (utf8 (before ++ one)).length = row.next) →
            (8 : Int) - 0 < font.columns (one ++ two) := by
  refine ⟨by decide +kernel, (words_split_iff (letters "hello big world") 0 8 (by decide)).2 ?_⟩
  rintro start reached ⟨space, body, last, after, rfl, -, -, words, -, exact_⟩
  have narrow : ∀ tail ∈ (letters "hello big world").tails,
      font.columns ((tail.drop 1).takeWhile font.word) < 8 := by decide
  have within := narrow _ ((List.mem_tails ..).2 reached.suffix)
  rw [List.drop_one, List.tail_cons, List.append_cons,
    List.takeWhile_append_of_pos fun item member => words item member, Font.columns_append,
    exact_] at within
  have avail : availColumns 0 8 = 8 := rfl
  omega

/-- The blank after a full row starts the next one and is not remembered as a place
to break at, so a word of five columns is broken in a window of five. -/
theorem words_split_tight :
    countLoop 0 5 12 (utf8 (letters "abcde fghij") ++ [0]) 0 0 =
        .ended [⟨0, 5, 5⟩, ⟨5, 10, 10⟩, ⟨10, 11, 11⟩] ∧
      letters "abcde fghij" =
        letters "abcde " ++ (letters "fghi" ++ (letters "j" ++ [])) ∧
      font.InsideWord (letters "abcde ") (letters "fghi") (letters "j") [] ∧
      (utf8 (letters "abcde " ++ letters "fghi")).length = 10 ∧
      font.columns (letters "fghi" ++ letters "j") = 5 := by
  refine ⟨by decide +kernel, by decide, ⟨?_, ?_, ?_, ?_, ?_⟩, by decide, by decide⟩ <;> decide

def newline : Letter := ⟨'\n', by decide⟩

/-- `count_rows` of lines joined by newlines adds up, unless a line before the last
ends in blanks that are skipped at a soft break: the newline then gets a row of its
own. -/
theorem countRows_lines (lines : List (List Letter)) (indent width : Int)
    (some_ : lines ≠ [])
    (each : ∀ line ∈ lines, line ≠ [] ∧ ∀ c ∈ line, c.val ≠ '\n')
    (room : 2 ≤ width - indent) :
    ∃ (count : List Letter → Nat) (total : Nat),
      (∀ line ∈ lines,
        countedRows (utf8 line ++ [0]) indent indent width = some (count line)) ∧
      countedRows (utf8 ([newline].intercalate lines) ++ [0]) indent indent width =
        some total ∧
      (total = (lines.map count).sum ↔
        ∀ line ∈ lines.dropLast, ¬ font.LineSpills (availColumns indent width) line) := by
  choose rows laid using fun line => Letter.exists_rows room indent line
  have positive : ∀ {line : List Letter} {rows : List (List Letter × List Letter)},
      line ≠ [] → font.Rows (availColumns indent width) (availColumns indent width) line rows →
        max 1 rows.length = rows.length := by
    intro line rows started laid
    cases laid with
    | done => exact absurd rfl started
    | row => exact Nat.max_eq_right (by rw [List.length_cons]; omega)
  have counted : ∀ {line : List Letter} {rows : List (List Letter × List Letter)},
      line ≠ [] → font.Rows (availColumns indent width) (availColumns indent width) line rows →
        countedRows (utf8 line ++ [0]) indent indent width = some rows.length := by
    intro line rows started laid
    rw [← bytes_script, script.countedRows_rows laid, positive started laid]
  obtain ⟨joined, whole, -, total⟩ := Font.exists_rows_lines newline (by decide)
    (fun line => (rows line).length) lines some_ fun line member =>
      ⟨(each line member).1, fun c inside => by simpa [font] using (each line member).2 c inside,
        rows line, laid line, rfl⟩
  have nonempty : [newline].intercalate lines ≠ [] := by
    obtain ⟨line, lines, rfl⟩ := List.exists_cons_of_ne_nil some_
    have started := (each line List.mem_cons_self).1
    cases lines with
    | nil => simpa using started
    | cons => simp [started]
  exact ⟨fun line => (rows line).length, joined.length,
    fun line member => counted (each line member).1 (laid line), counted nonempty whole, total⟩

theorem countRows_lines_short :
    ∃ (count : List Letter → Nat) (total : Nat),
      (∀ line ∈ [letters "ab", letters "cd"],
        countedRows (utf8 line ++ [0]) 0 0 8 = some (count line)) ∧
      countedRows (utf8 (letters "ab\ncd") ++ [0]) 0 0 8 = some total ∧
      total = count (letters "ab") + count (letters "cd") := by
  obtain ⟨count, total, each, whole, sum⟩ := countRows_lines [letters "ab", letters "cd"] 0 8
    (by decide) (by decide) (by decide)
  refine ⟨count, total, each, ?_, ?_⟩
  · rw [← whole]
    rfl
  · have added := sum.2 ?_
    · simpa using added
    · intro line member
      obtain rfl := List.mem_singleton.1 member
      rintro ⟨start, reached, -, -, -, -, -, -, wide⟩
      obtain ⟨before, same⟩ := reached.suffix
      have columns : font.columns (letters "ab") = 2 := by decide
      rw [← same, Font.columns_append] at columns
      have avail : availColumns 0 8 = 8 := rfl
      omega

/-- The three blanks reach over the margin: `count_rows` gives 3 for the two lines
together, and 1 for each of them. -/
theorem countRows_lines_blanks :
    countedRows (utf8 ([newline].intercalate [letters "abc   ", letters "x"]) ++ [0]) 0 0 5 =
        some 3 ∧
      countedRows (utf8 (letters "abc   ") ++ [0]) 0 0 5 = some 1 ∧
      countedRows (utf8 (letters "x") ++ [0]) 0 0 5 = some 1 := by
  decide +kernel

end FreeCli

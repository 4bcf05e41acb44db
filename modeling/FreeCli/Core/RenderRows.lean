import FreeCli.Core.ChatRows

namespace FreeCli.Chat

open Words WordWrap
open FreeCli.Letter (font script bytes_script size_script)

/-! `render_wrapped` paints the rows that `count_rows` counts. -/

/-- The rows of a text drawn below each other: the first in column `x`, the others in
column `indent`, and nothing for an empty one. -/
def rowPaints (text : Bytes) (indent : Int) : Int → Int → List Row → List Paint
  | _, _, [] => []
  | y, x, row :: rows =>
      (if row.start < row.stop then
        [⟨y, x, (text.drop row.start).take (row.stop - row.start)⟩] else []) ++
        rowPaints text indent (y + 1) indent rows

theorem size_le_columns (row : List Letter) : script.size row ≤ 4 * font.columns row := by
  induction row with
  | nil => exact Nat.le_refl _
  | cons c row ih =>
      have bytes : utf8Clen (script.glyph c).lead ≤ 4 := by
        unfold utf8Clen
        split_ifs <;> decide
      have width := font.width_pos c
      rw [Script.size_cons, Font.columns_cons]
      omega

theorem trimSegment_whole {row : List Letter} (rest : List Letter)
    (fits : script.size row < 4096) :
    trimSegment (script.bytes (row ++ rest) ++ [0])
      (if 4096 ≤ script.size row then 4095 else script.size row) = some (script.size row) := by
  rw [if_neg (Nat.not_le.2 fits)]
  obtain ⟨c, here, boundary⟩ := boundary_byte row rest
  cases size : script.size row with
  | zero => rfl
  | succ len =>
      rw [size] at here
      rw [trimSegment, here]
      exact if_neg boundary

/-- A row has at most 1023 columns, and a column at most four bytes. -/
theorem row_fits {x width : Int} {row gap rest : List Letter} (narrow : width - x ≤ 1023)
    (breaks : font.Breaks (availColumns x width) row gap rest) : script.size row < 4096 := by
  have columns := breaks.columns_le
  have bytes := size_le_columns row
  have avail : availColumns x width ≤ 1023 := by
    rw [availColumns]
    split <;> omega
  omega

theorem renderRows_counts {memory : Bytes} {indent width : Int} (narrow : width - indent ≤ 1023)
    {text : List Letter} {rows : List (List Letter × List Letter)} {x : Int}
    (first : width - x ≤ 1023) (left n : Nat) (y : Int)
    (laid : font.Rows (availColumns indent width) (availColumns x width) text rows)
    (here : memory.drop n = script.bytes text ++ [0]) :
    renderRows indent width left y x (memory.drop n) =
      some (rowPaints memory indent y x ((script.place n rows).take left),
        min left rows.length) := by
  rw [here]
  generalize start : availColumns x width = avail at laid
  induction laid generalizing left n y x with
  | done avail =>
      rw [renderRows_stop (.inr rfl), Script.place, List.take_nil, List.length_nil, Nat.min_zero]
      rfl
  | @row avail row gap rest rows more breaks after ih =>
      subst start
      cases left with
      | zero =>
          rw [renderRows_stop (.inl rfl), List.take_zero, Nat.zero_min]
          rfl
      | succ left =>
          have call := script.wrapLineEnd_breaks breaks
          have drop := script.drop_row row gap rest [0]
          have trimmed := trimSegment_whole (gap ++ rest) (row_fits first breaks)
          have behind : memory.drop (n + script.size (row ++ gap)) = script.bytes rest ++ [0] := by
            rw [← List.drop_drop, here, drop]
          have drawn := ih narrow left (n + script.size (row ++ gap)) (y + 1) behind rfl
          obtain ⟨lead, bytes, same, nonzero⟩ := script.bytes_ne_nil more
          rw [same, List.cons_append] at call drop trimmed
          rw [same, List.cons_append, renderRows, if_neg nonzero, call]
          simp only [Option.bind_eq_bind, Option.bind_some, trimmed, drop, drawn,
            List.length_cons, Nat.add_min_add_right, Script.place, List.take_succ_cons, rowPaints]
          rw [here, same, List.cons_append, Nat.add_sub_cancel_left]
          by_cases some_ : 0 < script.size row
          · rw [if_pos some_, if_pos (Nat.lt_add_of_pos_right some_)]
            rfl
          · rw [if_neg some_, if_neg (by omega)]
            rfl

/-- ncurses gives these characters the columns that the code counts for them. -/
def DrawnAsCounted (columns : Letter → Nat) (text : List Letter) : Prop :=
  ∀ c ∈ text, columns c = font.width c

theorem rowPaints_inside {columns : Letter → Nat} {memory : Bytes} {indent width : Int}
    (laterRoom : 2 ≤ width - indent) {text : List Letter}
    {rows : List (List Letter × List Letter)} {x : Int} (room : 2 ≤ width - x)
    (drawn : DrawnAsCounted columns text) (left n : Nat) (y : Int)
    (laid : font.Rows (availColumns indent width) (availColumns x width) text rows)
    (here : memory.drop n = script.bytes text ++ [0]) :
    ∀ paint ∈ rowPaints memory indent y x ((script.place n rows).take left),
      ∃ row : List Letter, paint.text = utf8 row ∧
        paint.x + ((row.map columns).sum : Nat) ≤ width := by
  generalize start : availColumns x width = avail at laid
  induction laid generalizing left n y x with
  | done avail =>
      intro paint inside
      rw [Script.place, List.take_nil] at inside
      exact absurd inside List.not_mem_nil
  | @row avail row gap rest rows more breaks after ih =>
      subst start
      cases left with
      | zero =>
          intro paint inside
          exact absurd inside List.not_mem_nil
      | succ left =>
          have behind : memory.drop (n + script.size (row ++ gap)) = script.bytes rest ++ [0] := by
            rw [← List.drop_drop, here, script.drop_row]
          rw [Script.place, List.take_succ_cons, rowPaints]
          intro paint inside
          rcases List.mem_append.1 inside with first | later
          · by_cases some_ : n < n + script.size row
            · rw [if_pos some_, here, Nat.add_sub_cancel_left] at first
              obtain rfl := List.mem_singleton.1 first
              refine ⟨row, ?_, ?_⟩
              · rw [← bytes_script, Script.bytes_append, List.append_assoc]
                exact List.take_left
              · have same : (row.map columns).sum = font.columns row :=
                  congrArg List.sum (List.map_congr_left fun c member =>
                    drawn c (List.mem_append_left _ member))
                have narrow := breaks.columns_le
                have avail := availColumns_eq room
                rw [same]
                dsimp only
                omega
            · rw [if_neg some_] at first
              cases first
          · exact ih laterRoom (fun c member => drawn c (List.mem_append_right _
              (List.mem_append_right _ member))) left _ (y + 1) behind rfl paint later

/-- Every row stays inside the window, if ncurses draws as is counted. -/
theorem renderWrapped_inside {columns : Letter → Nat} (chars : List Letter)
    (drawn : DrawnAsCounted columns chars) {maxY y xStart indent width : Int}
    (room : 2 ≤ width - xStart ∧ width - xStart ≤ 1023)
    (laterRoom : 2 ≤ width - indent ∧ width - indent ≤ 1023) :
    ∃ paints count, renderWrapped maxY y xStart indent width (utf8 chars ++ [0]) =
        some (paints, count) ∧
      ∀ paint ∈ paints, ∃ row : List Letter, paint.text = utf8 row ∧
        paint.x + ((row.map columns).sum : Nat) ≤ width := by
  obtain ⟨rows, laid⟩ := Letter.exists_rows laterRoom.1 xStart chars
  rw [← bytes_script]
  have start : (script.bytes chars ++ [0]).drop 0 = script.bytes chars ++ [0] := List.drop_zero
  have ran := renderRows_counts laterRoom.2 room.2 (maxY - y).toNat 0 y laid start
  rw [List.drop_zero] at ran
  rw [renderWrapped, ran]
  exact ⟨_, _, rfl, rowPaints_inside laterRoom.1 room.1 drawn _ 0 y laid start⟩

/-- What is painted are the rows of `count_rows`, as far as the window goes, and their
number is returned. -/
theorem renderWrapped_counts (chars : List Letter) {maxY y xStart indent width : Int}
    (inside : y < maxY) (room : 2 ≤ width - xStart ∧ width - xStart ≤ 1023)
    (laterRoom : 2 ≤ width - indent ∧ width - indent ≤ 1023) :
    ∃ rows count,
      countLoop indent width (utf8 chars ++ [0]).length (utf8 chars ++ [0]) 0 xStart =
          .ended rows ∧
        countedRows (utf8 chars ++ [0]) xStart indent width = some count ∧
        renderWrapped maxY y xStart indent width (utf8 chars ++ [0]) =
          some (rowPaints (utf8 chars ++ [0]) indent y xStart (rows.take (maxY - y).toNat),
            min count (maxY - y).toNat) := by
  obtain ⟨rows, laid⟩ := Letter.exists_rows laterRoom.1 xStart chars
  have enough : rows.length ≤ (script.bytes chars ++ [0]).length := by
    have bound := laid.length_le_succ
    have bytes := script.length_le_size chars
    rw [List.length_append, List.length_singleton]
    exact Nat.le_trans bound (Nat.succ_le_succ bytes)
  have counted := script.countLoop_rows 0 laid enough
  have start : (script.bytes chars ++ [0]).drop 0 = script.bytes chars ++ [0] := List.drop_zero
  have drawn := renderRows_counts laterRoom.2 room.2 (maxY - y).toNat 0 y laid start
  rw [← bytes_script]
  refine ⟨script.place 0 rows, max 1 rows.length, counted, script.countedRows_rows laid, ?_⟩
  rw [List.drop_zero] at drawn
  rw [renderWrapped, drawn]
  simp only [Option.bind_eq_bind, Option.bind_some]
  have window : 0 < (maxY - y).toNat := by omega
  have returned : (if 0 < min (maxY - y).toNat rows.length then
      min (maxY - y).toNat rows.length else 1) = min (max 1 rows.length) (maxY - y).toNat := by
    split <;> omega
  rw [returned]

/-- A word that is wrapped, and a window with one row for it. -/
theorem renderWrapped_counts_two :
    ∃ rows count,
      countLoop 0 4 (utf8 (letters "one two") ++ [0]).length (utf8 (letters "one two") ++ [0]) 0
          0 = .ended rows ∧
        countedRows (utf8 (letters "one two") ++ [0]) 0 0 4 = some count ∧
        renderWrapped 1 0 0 0 4 (utf8 (letters "one two") ++ [0]) =
          some (rowPaints (utf8 (letters "one two") ++ [0]) 0 0 0
              (rows.take ((1 : Int) - 0).toNat), min count ((1 : Int) - 0).toNat) :=
  renderWrapped_counts (letters "one two") (by decide) (by decide) (by decide)

end FreeCli.Chat

import Mathlib.Algebra.Ring.Nat
import Mathlib.Data.List.Basic
import Mathlib.Data.List.Induction
import Mathlib.Data.List.TakeWhile

namespace WordWrap

/-! Breaking a text into rows: a row takes what fits, goes back to its last
blank if it has one, and the blanks at the break belong to no row. -/

/-- What a line breaker has to know of the characters it sets. -/
structure Font (α : Type) where
  width : α → Nat
  blank : α → Bool
  newline : α → Bool
  width_pos : ∀ item, 0 < width item
  width_blank : ∀ item, blank item = true → width item = 1
  apart : ∀ item, newline item = true → blank item = false

namespace Font

variable {α : Type} (font : Font α)

def columns (text : List α) : Nat := (text.map font.width).sum

def word (item : α) : Bool := !font.blank item && !font.newline item

@[simp] theorem columns_nil : font.columns [] = 0 := rfl

@[simp] theorem columns_cons (item : α) (text : List α) :
    font.columns (item :: text) = font.width item + font.columns text := rfl

@[simp] theorem columns_append (first second : List α) :
    font.columns (first ++ second) = font.columns first + font.columns second := by
  rw [columns, List.map_append, List.sum_append]
  rfl

theorem word_iff {item : α} :
    font.word item = true ↔ font.blank item = false ∧ font.newline item = false := by
  simp [word]

theorem width_le_columns {item : α} {text : List α} (member : item ∈ text) :
    font.width item ≤ font.columns text := by
  obtain ⟨before, after, rfl⟩ := List.append_of_mem member
  rw [columns_append, columns_cons]
  omega

theorem columns_pos {text : List α} (some : text ≠ []) : 0 < font.columns text := by
  obtain ⟨item, rest, rfl⟩ := List.exists_cons_of_ne_nil some
  have positive := font.width_pos item
  rw [columns_cons]
  omega

/-- `front` is as much of a line as goes into `avail` columns, and `rest` comes
after it. -/
structure Fits (avail : Nat) (front rest : List α) : Prop where
  plain : ∀ item ∈ front, font.newline item = false
  room : font.columns front ≤ avail
  full : ∀ next ∈ rest.head?,
    font.newline next = true ∨ avail < font.columns front + font.width next

variable {font} {avail : Nat}

theorem Fits.append_eq {front extra rest : List α}
    (short : font.Fits avail front (extra ++ rest))
    (long : font.Fits avail (front ++ extra) rest) : extra = [] := by
  cases extra with
  | nil => rfl
  | cons next extra =>
      have plain := long.plain next (by simp)
      have room := long.room
      rw [columns_append, columns_cons] at room
      rcases short.full next rfl with broken | over_
      · rw [plain] at broken
        contradiction
      · omega

theorem Fits.unique {front rest other left : List α}
    (one : font.Fits avail front rest) (two : font.Fits avail other left)
    (same : front ++ rest = other ++ left) : front = other ∧ rest = left := by
  rcases List.append_eq_append_iff.1 same with ⟨extra, rfl, rfl⟩ | ⟨extra, rfl, rfl⟩
  · obtain rfl := one.append_eq two
    simp
  · obtain rfl := two.append_eq one
    simp

theorem Fits.cons {item : α} {front rest : List α}
    (plain : font.newline item = false)
    (fits : font.Fits avail front rest) :
    font.Fits (font.width item + avail) (item :: front) rest where
  plain := by
    intro other member
    rcases List.mem_cons.1 member with rfl | member
    · exact plain
    · exact fits.plain other member
  room := by
    have room := fits.room
    rw [columns_cons]
    omega
  full := by
    intro next here
    rw [columns_cons]
    rcases fits.full next here with broken | over_
    · exact .inl broken
    · exact .inr (by omega)

theorem exists_fits (font : Font α) (avail : Nat) (text : List α) :
    ∃ front rest, front ++ rest = text ∧ font.Fits avail front rest := by
  induction text generalizing avail with
  | nil =>
      exact ⟨[], [], rfl, fun _ member => absurd member List.not_mem_nil,
        Nat.zero_le _, fun _ here => by cases here⟩
  | cons item text ih =>
      by_cases stop : font.newline item = true ∨ avail < font.width item
      · refine ⟨[], item :: text, rfl, fun _ member => absurd member List.not_mem_nil,
          Nat.zero_le _, fun next here => ?_⟩
        obtain rfl := Option.some.inj here
        rwa [columns_nil, Nat.zero_add]
      · rw [not_or, Bool.not_eq_true, Nat.not_lt] at stop
        obtain ⟨front, rest, rfl, fits⟩ := ih (avail - font.width item)
        have longer := fits.cons stop.1
        rw [Nat.add_sub_cancel' stop.2] at longer
        exact ⟨item :: front, rest, rfl, longer⟩

theorem Fits.front_ne_nil {front rest : List α} (fits : font.Fits avail front rest)
    {item : α} {text : List α} (same : front ++ rest = item :: text)
    (plain : font.newline item = false) (narrow : font.width item ≤ avail) :
    front ≠ [] := by
  rintro rfl
  obtain rfl : rest = item :: text := same
  rcases fits.full item rfl with broken | over_
  · rw [plain] at broken
    contradiction
  · rw [columns_nil] at over_
    omega

variable (font)

/-- A row, the gap after it and what is left of the text. -/
inductive Breaks (avail : Nat) : (row gap rest : List α) → Prop
  | ends {row : List α} (fits : font.Fits avail row []) : Breaks avail row [] []
  | newline {row rest : List α} {next : α}
      (fits : font.Fits avail row (next :: rest))
      (broken : font.newline next = true) : Breaks avail row [next] rest
  | hard {row rest : List α} {next : α}
      (fits : font.Fits avail row (next :: rest))
      (plain : font.newline next = false)
      (solid : ∀ item ∈ row.tail, font.blank item = false) :
      Breaks avail row [] (next :: rest)
  | soft {row more rest : List α} {space next : α}
      (started : row ≠ [])
      (blank : font.blank space = true)
      (solid : ∀ item ∈ more, font.blank item = false)
      (fits : font.Fits avail (row ++ space :: more) (next :: rest))
      (plain : font.newline next = false) :
      Breaks avail row (space :: (more ++ next :: rest).takeWhile font.blank)
        ((more ++ next :: rest).dropWhile font.blank)

variable {font}

theorem last_blank (font : Font α) (front : List α) :
    (∀ item ∈ front.tail, font.blank item = false) ∨
      ∃ row space more, front = row ++ space :: more ∧ row ≠ [] ∧
        font.blank space = true ∧ ∀ item ∈ more, font.blank item = false := by
  induction front using List.reverseRecOn with
  | nil => exact .inl fun _ member => absurd member List.not_mem_nil
  | append_singleton front item ih =>
      cases front with
      | nil => exact .inl fun _ member => absurd member List.not_mem_nil
      | cons first front =>
          cases kind : font.blank item with
          | true =>
              exact .inr ⟨first :: front, item, [], rfl, List.cons_ne_nil _ _, kind,
                fun _ member => absurd member List.not_mem_nil⟩
          | false =>
              have last : ∀ more : List α, (∀ other ∈ more, font.blank other = false) →
                  ∀ other ∈ more ++ [item], font.blank other = false := by
                intro more solid other member
                rcases List.mem_append.1 member with member | member
                · exact solid other member
                · rw [List.mem_singleton.1 member]
                  exact kind
              rcases ih with solid | ⟨row, space, more, same, started, blank, solid⟩
              · exact .inl (last front solid)
              · refine .inr ⟨row, space, more ++ [item], ?_, started, blank, last more solid⟩
                rw [same, List.append_assoc, List.cons_append]

theorem last_blank_unique {row other more left : List α} {space blank : α}
    (first : font.blank space = true) (second : font.blank blank = true)
    (solid : ∀ item ∈ more, font.blank item = false)
    (bare : ∀ item ∈ left, font.blank item = false)
    (same : row ++ space :: more = other ++ blank :: left) :
    row = other ∧ space = blank ∧ more = left := by
  rcases List.append_eq_append_iff.1 same with ⟨extra, rfl, tail⟩ | ⟨extra, rfl, tail⟩
  · cases extra with
    | nil =>
        obtain ⟨rfl, rfl⟩ := List.cons.inj tail
        simp
    | cons next extra =>
        obtain ⟨rfl, rfl⟩ := List.cons.inj tail
        have absent := solid blank (by simp)
        rw [second] at absent
        contradiction
  · cases extra with
    | nil =>
        obtain ⟨rfl, rfl⟩ := List.cons.inj tail
        simp
    | cons next extra =>
        obtain ⟨rfl, rfl⟩ := List.cons.inj tail
        have absent := bare space (by simp)
        rw [first] at absent
        contradiction

theorem soft_text (font : Font α) (row : List α) (space : α) (after : List α) :
    row ++ (space :: after.takeWhile font.blank ++ after.dropWhile font.blank) =
      row ++ space :: after := by
  rw [List.cons_append, List.takeWhile_append_dropWhile]

theorem exists_breaks (font : Font α) (avail : Nat) (text : List α) :
    ∃ row gap rest, text = row ++ (gap ++ rest) ∧ font.Breaks avail row gap rest := by
  obtain ⟨front, rest, rfl, fits⟩ := exists_fits font avail text
  cases rest with
  | nil => exact ⟨front, [], [], rfl, .ends fits⟩
  | cons next rest =>
      cases broken : font.newline next with
      | true => exact ⟨front, [next], rest, rfl, .newline fits broken⟩
      | false =>
          rcases last_blank font front with solid |
            ⟨row, space, more, rfl, started, blank, solid⟩
          · exact ⟨front, [], next :: rest, rfl, .hard fits broken solid⟩
          · refine ⟨row, _, _, ?_, .soft started blank solid fits broken⟩
            rw [soft_text, List.append_assoc, List.cons_append]

theorem solid_tail_ne {front row more : List α} {space : α}
    (solid : ∀ item ∈ front.tail, font.blank item = false)
    (started : row ≠ []) (blank : font.blank space = true) :
    front ≠ row ++ space :: more := by
  rintro rfl
  obtain ⟨first, row, rfl⟩ := List.exists_cons_of_ne_nil started
  have absent := solid space (by simp)
  rw [blank] at absent
  contradiction

theorem Breaks.fitting {row gap rest : List α} (breaks : font.Breaks avail row gap rest) :
    ∃ front after, font.Fits avail front after ∧ row ++ (gap ++ rest) = front ++ after ∧
      row <+: front := by
  cases breaks with
  | ends fits => exact ⟨row, [], fits, rfl, List.prefix_refl _⟩
  | newline fits broken => exact ⟨row, _, fits, rfl, List.prefix_refl _⟩
  | hard fits plain solid => exact ⟨row, _, fits, rfl, List.prefix_refl _⟩
  | soft started blank solid fits plain =>
      refine ⟨_, _, fits, ?_, List.prefix_append _ _⟩
      rw [soft_text, List.append_assoc, List.cons_append]

theorem Breaks.columns_le {row gap rest : List α}
    (breaks : font.Breaks avail row gap rest) : font.columns row ≤ avail := by
  obtain ⟨_, _, fits, _, more, rfl⟩ := breaks.fitting
  have room := fits.room
  rw [columns_append] at room
  omega

theorem Breaks.gap_cases {row gap rest : List α}
    (breaks : font.Breaks avail row gap rest) :
    gap = [] ∨ (∀ item ∈ gap, font.blank item = true) ∨
      ∃ next, gap = [next] ∧ font.newline next = true := by
  cases breaks with
  | ends => exact .inl rfl
  | newline fits broken => exact .inr (.inr ⟨_, rfl, broken⟩)
  | hard => exact .inl rfl
  | soft started blank solid fits plain =>
      refine .inr (.inl fun item member => ?_)
      rcases List.mem_cons.1 member with rfl | member
      · exact blank
      · exact List.mem_takeWhile_imp member

theorem Breaks.unique {row gap rest other space left : List α}
    (one : font.Breaks avail row gap rest) (two : font.Breaks avail other space left)
    (same : row ++ (gap ++ rest) = other ++ (space ++ left)) :
    row = other ∧ gap = space ∧ rest = left := by
  cases one with
  | ends fits =>
      cases two with
      | ends fits' =>
          obtain ⟨rfl, -⟩ := fits.unique fits' same
          exact ⟨rfl, rfl, rfl⟩
      | newline fits' => cases (fits.unique fits' same).2
      | hard fits' => cases (fits.unique fits' same).2
      | soft _ _ _ fits' =>
          rw [soft_text] at same
          cases (fits.unique fits' (same.trans (by simp))).2
  | newline fits broken =>
      cases two with
      | ends fits' => cases (fits.unique fits' same).2
      | newline fits' =>
          obtain ⟨rfl, after⟩ := fits.unique fits' same
          obtain ⟨rfl, rfl⟩ := List.cons.inj after
          exact ⟨rfl, rfl, rfl⟩
      | hard fits' plain =>
          obtain ⟨rfl, -⟩ := List.cons.inj (fits.unique fits' same).2
          rw [broken] at plain
          contradiction
      | soft _ _ _ fits' plain =>
          rw [soft_text] at same
          obtain ⟨rfl, -⟩ := List.cons.inj (fits.unique fits' (same.trans (by simp))).2
          rw [broken] at plain
          contradiction
  | hard fits plain solid =>
      cases two with
      | ends fits' => cases (fits.unique fits' same).2
      | newline fits' broken =>
          obtain ⟨rfl, -⟩ := List.cons.inj (fits.unique fits' same).2
          rw [broken] at plain
          contradiction
      | hard fits' =>
          obtain ⟨rfl, after⟩ := fits.unique fits' same
          exact ⟨rfl, rfl, after⟩
      | soft started blank _ fits' =>
          rw [soft_text] at same
          exact absurd (fits.unique fits' (same.trans (by simp))).1
            (solid_tail_ne solid started blank)
  | soft started blank solid fits plain =>
      rw [soft_text] at same
      cases two with
      | ends fits' => cases (fits.unique fits' (.trans (by simp) same)).2
      | newline fits' broken =>
          obtain ⟨rfl, -⟩ := List.cons.inj (fits.unique fits' (.trans (by simp) same)).2
          rw [broken] at plain
          contradiction
      | hard fits' _ solid' =>
          exact absurd (fits.unique fits' (.trans (by simp) same)).1.symm
            (solid_tail_ne solid' started blank)
      | soft _ blank' solid' fits' =>
          rw [soft_text] at same
          obtain ⟨front, after⟩ := fits.unique fits' (.trans (by simp) (same.trans (by simp)))
          obtain ⟨rfl, rfl, rfl⟩ := last_blank_unique blank blank' solid solid' front
          rw [after]
          exact ⟨rfl, rfl, rfl⟩

theorem Breaks.progress_iff {row gap rest text : List α} {item : α}
    (breaks : font.Breaks avail row gap rest)
    (same : row ++ (gap ++ rest) = item :: text) :
    row ++ gap ≠ [] ↔ font.newline item = true ∨ font.width item ≤ avail := by
  constructor
  · intro progress
    cases row with
    | cons first row =>
        obtain ⟨rfl, -⟩ := List.cons.inj same
        exact .inr (Nat.le_trans (font.width_le_columns List.mem_cons_self)
          breaks.columns_le)
    | nil =>
        cases breaks with
        | ends => exact absurd rfl progress
        | newline fits broken =>
            obtain ⟨rfl, -⟩ := List.cons.inj same
            exact .inl broken
        | hard => exact absurd rfl progress
        | soft started => exact absurd rfl started
  · intro room empty
    obtain ⟨rfl, rfl⟩ := List.append_eq_nil_iff.1 empty
    cases breaks with
    | ends => cases same
    | hard fits plain =>
        obtain ⟨rfl, -⟩ := List.cons.inj same
        rw [plain] at room
        rcases room with broken | narrow
        · contradiction
        · exact fits.front_ne_nil rfl plain narrow rfl

theorem Breaks.item_le {row gap rest : List α} {item : α}
    (breaks : font.Breaks avail row gap rest) (member : item ∈ row ++ gap) :
    font.newline item = true ∨ font.width item ≤ avail := by
  rcases List.mem_append.1 member with member | member
  · exact .inr (Nat.le_trans (font.width_le_columns member) breaks.columns_le)
  · have room := breaks.columns_le
    cases breaks with
    | ends => cases member
    | hard => cases member
    | newline fits broken =>
        rw [List.mem_singleton.1 member]
        exact .inl broken
    | soft started blank solid fits plain =>
        have space : font.blank item = true := by
          rcases List.mem_cons.1 member with rfl | member
          · exact blank
          · exact List.mem_takeWhile_imp member
        have positive := font.columns_pos started
        rw [font.width_blank item space]
        exact .inr (by omega)

/-! Whole texts. -/

variable (font)

/-- The rows of a text, each with the gap after it: `first` columns for the first
row and `later` for the others. -/
inductive Rows (later : Nat) : (first : Nat) → (text : List α) →
    (rows : List (List α × List α)) → Prop
  | done (first : Nat) : Rows later first [] []
  | row {first : Nat} {row gap rest : List α} {rows : List (List α × List α)}
      (more : row ++ (gap ++ rest) ≠ [])
      (breaks : font.Breaks first row gap rest)
      (after : Rows later later rest rows) :
      Rows later first (row ++ (gap ++ rest)) ((row, gap) :: rows)

variable {font} {first later : Nat}

theorem Rows.unique {text : List α} {rows others : List (List α × List α)}
    (one : font.Rows later first text rows) (two : font.Rows later first text others) :
    rows = others := by
  induction one generalizing others with
  | done first =>
      generalize empty : ([] : List α) = whole at two
      cases two with
      | done => rfl
      | row more => exact absurd empty.symm more
  | @row _ row gap rest _ more breaks after ih =>
      generalize same : row ++ (gap ++ rest) = whole at two
      cases two with
      | done => exact absurd same more
      | row more' breaks' after' =>
          obtain ⟨rfl, rfl, rfl⟩ := breaks.unique breaks' same
          rw [ih after']

theorem Rows.nil_iff {rows : List (List α × List α)}
    (laid : font.Rows later first [] rows) : rows = [] :=
  laid.unique (.done first)

theorem exists_rows (font : Font α) {later : Nat} (text : List α)
    (narrow : ∀ item ∈ text, font.newline item = true ∨ font.width item ≤ later) :
    ∃ rows, font.Rows later later text rows := by
  induction here : text.length using Nat.strong_induction_on generalizing text with
  | _ size ih =>
      cases text with
      | nil => exact ⟨[], .done later⟩
      | cons item text =>
          obtain ⟨row, gap, rest, same, breaks⟩ := exists_breaks font later (item :: text)
          have progress := (breaks.progress_iff same.symm).2 (narrow item List.mem_cons_self)
          have shorter : rest.length < size := by
            rw [← here, same, ← List.append_assoc, List.length_append]
            have positive := List.length_pos_iff.2 progress
            omega
          obtain ⟨rows, after⟩ := ih rest.length shorter rest
            (fun other member => narrow other (by rw [same]; simp [member])) rfl
          rw [same]
          exact ⟨_, .row (by rw [← same]; exact List.cons_ne_nil _ _) breaks after⟩

theorem Rows.narrow {text : List α} {rows : List (List α × List α)}
    (laid : font.Rows later first text rows) (same : first = later) :
    ∀ item ∈ text, font.newline item = true ∨ font.width item ≤ later := by
  induction laid with
  | done => exact fun item member => absurd member List.not_mem_nil
  | row more breaks after ih =>
      subst same
      intro item member
      rw [← List.append_assoc] at member
      rcases List.mem_append.1 member with member | member
      · exact breaks.item_le member
      · exact ih rfl item member

/-- A text comes to an end unless a character too wide for the later rows is left
after the first. -/
theorem exists_rows_iff (font : Font α) (later first : Nat) (text : List α) :
    (∃ rows, font.Rows later first text rows) ↔
      ∀ row gap rest, text = row ++ (gap ++ rest) → font.Breaks first row gap rest →
        ∀ item ∈ rest, font.newline item = true ∨ font.width item ≤ later := by
  constructor
  · rintro ⟨rows, laid⟩ row gap rest same breaks
    cases laid with
    | done =>
        obtain ⟨rfl, empty⟩ := List.append_eq_nil_iff.1 same.symm
        obtain ⟨rfl, rfl⟩ := List.append_eq_nil_iff.1 empty
        exact fun item member => absurd member List.not_mem_nil
    | row more breaks' after =>
        obtain ⟨rfl, rfl, rfl⟩ := breaks.unique breaks' same.symm
        exact after.narrow rfl
  · intro narrow
    obtain ⟨row, gap, rest, rfl, breaks⟩ := exists_breaks font first text
    by_cases more : row ++ (gap ++ rest) = []
    · rw [more]
      exact ⟨[], .done first⟩
    · obtain ⟨rows, after⟩ := exists_rows font rest (narrow row gap rest rfl breaks)
      exact ⟨_, .row more breaks after⟩

theorem Rows.length_le {text : List α} {rows : List (List α × List α)}
    (laid : font.Rows later first text rows) (same : first = later) :
    rows.length ≤ text.length := by
  induction laid with
  | done => exact Nat.le_refl _
  | @row first row gap rest rows more breaks after ih =>
      subst same
      obtain ⟨item, text, start⟩ := List.exists_cons_of_ne_nil more
      have narrow := (Rows.row more breaks after).narrow rfl item
        (by rw [start]; exact List.mem_cons_self)
      have progress := List.length_pos_iff.2 ((breaks.progress_iff start).2 narrow)
      have bound := ih rfl
      rw [← List.append_assoc, List.length_append, List.length_cons]
      omega

/-- Only the first call can fail to take anything. -/
theorem Rows.length_le_succ {text : List α} {rows : List (List α × List α)}
    (laid : font.Rows later first text rows) : rows.length ≤ text.length + 1 := by
  cases laid with
  | done => exact Nat.zero_le _
  | row more breaks after =>
      have bound := after.length_le rfl
      rw [List.length_cons, List.length_append, List.length_append]
      omega

/-! Words. -/

variable (font)

/-- `start` is what is left of the text where one of its rows starts. -/
inductive RowStart (avail : Nat) (start : List α) : (text : List α) → Prop
  | here : RowStart avail start start
  | next {row gap rest : List α} (breaks : font.Breaks avail row gap rest)
      (after : RowStart avail start rest) :
      RowStart avail start (row ++ (gap ++ rest))

/-- One blank and then a word exactly as wide as a row: the blank takes the
first column and the word is broken though it would go into a row of its own. -/
def Tight (avail : Nat) (text : List α) : Prop :=
  ∃ space body last after, text = space :: (body ++ last :: after) ∧
    font.blank space = true ∧ body ≠ [] ∧
    (∀ item ∈ body ++ [last], font.word item = true) ∧
    (∀ next ∈ after.head?, font.word next = false) ∧
    font.columns (body ++ [last]) = avail

/-- `first ++ second` is a word of `before ++ first ++ second ++ after`, and the
place between the two is inside it. -/
structure InsideWord (before first second after : List α) : Prop where
  started : first ≠ []
  unfinished : second ≠ []
  words : ∀ item ∈ first ++ second, font.word item = true
  left : ∀ item ∈ before.getLast?, font.word item = false
  right : ∀ item ∈ after.head?, font.word item = false

variable {font}

theorem RowStart.suffix {text start : List α} (reached : font.RowStart avail start text) :
    start <:+ text := by
  induction reached with
  | here => exact List.suffix_refl _
  | next breaks after ih =>
      rw [← List.append_assoc]
      exact ih.trans (List.suffix_append _ _)

theorem Tight.breaks {space last : α} {body : List α} (after : List α)
    (blank : font.blank space = true)
    (words : ∀ item ∈ body ++ [last], font.word item = true)
    (exact_ : font.columns (body ++ [last]) = avail) :
    font.Breaks avail (space :: body) [] (last :: after) := by
  have kind : ∀ item ∈ body ++ [last], font.blank item = false ∧ font.newline item = false :=
    fun item member => font.word_iff.1 (words item member)
  have wide := font.width_blank space blank
  have positive := font.width_pos last
  rw [columns_append, columns_cons, columns_nil] at exact_
  have plain : font.newline space = false := by
    cases broken : font.newline space with
    | false => rfl
    | true =>
        have apart := font.apart space broken
        rw [blank] at apart
        contradiction
  refine .hard ⟨?_, ?_, ?_⟩ (kind last (by simp)).2
    (fun item member => (kind item (List.mem_append_left _ member)).1)
  · intro item member
    rcases List.mem_cons.1 member with rfl | member
    · exact plain
    · exact (kind item (List.mem_append_left _ member)).2
  · rw [columns_cons]
    omega
  · intro next here
    obtain rfl := Option.some.inj here
    rw [columns_cons]
    exact .inr (by omega)

theorem Breaks.inside_word {row gap rest : List α} {next : α}
    (breaks : font.Breaks avail row gap (next :: rest))
    (empty : gap = []) :
    font.Fits avail row (next :: rest) ∧ font.newline next = false ∧
      ∀ item ∈ row.tail, font.blank item = false := by
  generalize same : next :: rest = left at breaks
  cases breaks with
  | ends => cases same
  | newline => cases empty
  | hard fits plain solid =>
      obtain ⟨rfl, rfl⟩ := List.cons.inj same
      exact ⟨fits, plain, solid⟩
  | soft => cases empty

theorem Breaks.gap_not_word {row gap rest : List α} {item : α}
    (breaks : font.Breaks avail row gap rest) (member : item ∈ gap) :
    font.word item = false := by
  rw [← Bool.not_eq_true, word_iff]
  rintro ⟨notBlank, plain⟩
  rcases breaks.gap_cases with rfl | blanks | ⟨next, rfl, broken⟩
  · cases member
  · rw [blanks item member] at notBlank
    contradiction
  · rw [List.mem_singleton.1 member, broken] at plain
    contradiction

theorem Breaks.inside_gap {pre row gap rest before one two after : List α}
    (breaks : font.Breaks avail row gap rest)
    (inside : font.InsideWord before one two after)
    (place : (pre ++ row = before ++ one ∧ gap ++ rest = two ++ after) ∨
      (pre ++ row ++ gap = before ++ one ∧ rest = two ++ after)) :
    gap = [] := by
  rcases place with ⟨-, same⟩ | ⟨same, -⟩
  · cases gap with
    | nil => rfl
    | cons item gap =>
        obtain ⟨next, more, rfl⟩ := List.exists_cons_of_ne_nil inside.unfinished
        obtain ⟨rfl, -⟩ := List.cons.inj same
        have word := inside.words item (by simp)
        rw [breaks.gap_not_word List.mem_cons_self] at word
        contradiction
  · rcases List.eq_nil_or_concat' gap with rfl | ⟨gap, item, rfl⟩
    · rfl
    · rcases List.eq_nil_or_concat' one with rfl | ⟨one, last, rfl⟩
      · exact absurd rfl inside.started
      · rw [← List.append_assoc, ← List.append_assoc] at same
        obtain rfl := List.singleton_inj.1 (List.append_inj_right' same rfl)
        have word := inside.words item (by simp)
        rw [breaks.gap_not_word (by simp)] at word
        contradiction

/-- A word is broken only if it is wider than a row, or at a row that starts with
a blank and then a word as wide as a row. -/
theorem Breaks.wide {pre row gap rest before one two after : List α}
    (breaks : font.Breaks avail row gap rest)
    (inside : font.InsideWord before one two after)
    (place : (pre ++ row = before ++ one ∧ gap ++ rest = two ++ after) ∨
      (pre ++ row ++ gap = before ++ one ∧ rest = two ++ after))
    (loose : ¬ font.Tight avail (row ++ (gap ++ rest))) :
    avail < font.columns (one ++ two) := by
  obtain rfl := breaks.inside_gap inside place
  rw [List.append_nil, List.nil_append, or_self] at place
  obtain ⟨left, rfl⟩ := place
  obtain ⟨next, more, rfl⟩ := List.exists_cons_of_ne_nil inside.unfinished
  obtain ⟨fits, plain, solid⟩ := breaks.inside_word rfl
  have full : avail < font.columns row + font.width next := by
    rcases fits.full next rfl with broken | full
    · rw [plain] at broken
      contradiction
    · exact full
  rw [columns_append, columns_cons]
  rcases List.append_eq_append_iff.1 left with ⟨extra, rfl, rfl⟩ | ⟨extra, rfl, rfl⟩
  · rcases List.eq_nil_or_concat' extra with rfl | ⟨extra, item, rfl⟩
    · rw [List.nil_append] at full
      omega
    · have outside : font.word item = false := inside.left item (by simp)
      have kept := fits.plain item (by simp)
      cases extra with
      | cons first extra =>
          have bare := solid item (by simp)
          rw [font.word_iff.2 ⟨bare, kept⟩] at outside
          contradiction
      | nil =>
          have blank : font.blank item = true := by
            cases kind : font.blank item with
            | true => rfl
            | false =>
                rw [font.word_iff.2 ⟨kind, kept⟩] at outside
                contradiction
          rw [List.nil_append, List.singleton_append, columns_cons,
            font.width_blank item blank] at full
          by_contra narrow
          apply loose
          rcases List.eq_nil_or_concat' (next :: more) with empty | ⟨body, last, same⟩
          · cases empty
          · have exact_ : font.columns (one ++ body ++ [last]) = avail := by
              rw [List.append_assoc, ← same, columns_append, columns_cons]
              omega
            refine ⟨item, one ++ body, last, after, ?_, blank, ?_, ?_, inside.right, exact_⟩
            · rw [same]
              simp
            · intro empty
              exact inside.started (List.append_eq_nil_iff.1 empty).1
            · rw [List.append_assoc, ← same]
              exact inside.words
  · rw [columns_append]
    omega

/-! Lines. -/

variable (font)

/-- More than fits, but nothing except blanks from before the last column on. -/
def Spills (avail : Nat) (text : List α) : Prop :=
  ∃ front blanks, text = front ++ blanks ∧ front ≠ [] ∧
    (∀ item ∈ blanks, font.blank item = true) ∧
    font.columns front < avail ∧ avail < font.columns text

/-- Some row of the line is followed by nothing but the blanks of a soft break. -/
def LineSpills (avail : Nat) (line : List α) : Prop :=
  ∃ start, font.RowStart avail start line ∧ font.Spills avail start

variable {font}

theorem Spills.ne_nil {text : List α} (spills : font.Spills avail text) : text ≠ [] := by
  rintro rfl
  obtain ⟨_, _, _, _, _, _, wide⟩ := spills
  exact absurd wide (Nat.not_lt_zero _)

theorem Breaks.spills {row gap : List α} (breaks : font.Breaks avail row gap [])
    (line : ∀ item ∈ row ++ (gap ++ []), font.newline item = false)
    (skipped : gap ≠ []) : font.Spills avail (row ++ (gap ++ [])) := by
  generalize nothing : ([] : List α) = rest at breaks line ⊢
  cases breaks with
  | ends => exact absurd rfl skipped
  | hard => exact absurd rfl skipped
  | newline fits broken =>
      have plain := line _ (List.mem_append_right _ List.mem_cons_self)
      rw [broken] at plain
      contradiction
  | @soft more rest space next started blank solid fits plain =>
      have blanks := List.dropWhile_eq_nil_iff.1 nothing.symm
      cases more with
      | cons item more =>
          have bare := solid item List.mem_cons_self
          rw [blanks item (by simp)] at bare
          contradiction
      | nil =>
          have room := fits.room
          rw [List.nil_append] at blanks ⊢
          rw [soft_text]
          rw [columns_append, columns_cons, columns_nil, font.width_blank space blank] at room
          refine ⟨row, space :: next :: rest, rfl, started, ?_, by omega, ?_⟩
          · intro item member
            rcases List.mem_cons.1 member with rfl | member
            · exact blank
            · exact blanks item member
          · rcases fits.full next rfl with broken | full
            · rw [plain] at broken
              contradiction
            · rw [columns_append, columns_cons, columns_nil] at full
              rw [columns_append, columns_cons, columns_cons]
              omega

theorem Fits.reaches {fitting after front text : List α} {first : α}
    (fits : font.Fits avail fitting after)
    (plain : ∀ item ∈ after, font.newline item = false)
    (same : front ++ first :: text = fitting ++ after)
    (narrow : font.columns front + font.width first ≤ avail) :
    ∃ between, fitting = front ++ first :: between ∧ text = between ++ after := by
  have full : ∀ next ∈ after.head?, avail < font.columns fitting + font.width next := by
    intro next here
    rcases fits.full next here with broken | full
    · rw [plain next (List.mem_of_mem_head? here)] at broken
      contradiction
    · exact full
  rcases List.append_eq_append_iff.1 same with ⟨extra, rfl, tail⟩ | ⟨extra, rfl, rfl⟩
  · cases extra with
    | nil =>
        subst tail
        have over_ := full first rfl
        rw [List.append_nil] at over_
        omega
    | cons item between =>
        obtain ⟨rfl, rfl⟩ := List.cons.inj tail
        exact ⟨between, rfl, rfl⟩
  · cases extra with
    | nil =>
        have over_ := full first rfl
        rw [List.append_nil] at narrow
        omega
    | cons item extra =>
        have over_ := full item rfl
        rw [columns_append, columns_cons] at narrow
        omega

/-- The blanks a line spills are all skipped at the break. -/
theorem Breaks.of_spills {row gap rest : List α} (breaks : font.Breaks avail row gap rest)
    (line : ∀ item ∈ row ++ (gap ++ rest), font.newline item = false)
    (spills : font.Spills avail (row ++ (gap ++ rest))) : gap ≠ [] ∧ rest = [] := by
  obtain ⟨front, blanks, same, started, blank, short, wide⟩ := spills
  have some_ : blanks ≠ [] := by
    rintro rfl
    rw [same, List.append_nil] at wide
    omega
  obtain ⟨first, blanks, rfl⟩ := List.exists_cons_of_ne_nil some_
  have narrow : font.columns front + font.width first ≤ avail := by
    rw [font.width_blank first (blank first List.mem_cons_self)]
    exact short
  rw [same] at line
  cases breaks with
  | ends fits =>
      rw [List.nil_append, List.append_nil] at same wide
      have room := fits.room
      omega
  | newline fits broken =>
      have plain := line _ (by rw [← same]; exact List.mem_append_right _ List.mem_cons_self)
      rw [broken] at plain
      contradiction
  | hard fits plain solid =>
      rw [← same] at line
      obtain ⟨between, rfl, -⟩ := fits.reaches
        (fun item member => line item (List.mem_append_right _ member)) same.symm narrow
      exact absurd rfl (solid_tail_ne solid started (blank first List.mem_cons_self))
  | @soft more rest space next started' blank' solid fits plain =>
      rw [soft_text] at same
      rw [← same] at line
      have after : ∀ item ∈ next :: rest, font.newline item = false :=
        fun item member => line item (List.mem_append_right _
          (List.mem_cons_of_mem _ (List.mem_append_right _ member)))
      obtain ⟨between, ending, later⟩ := fits.reaches after (same.symm.trans (by simp)) narrow
      refine ⟨List.cons_ne_nil _ _, List.dropWhile_eq_nil_iff.2 fun item member => ?_⟩
      have tail : more <:+ first :: between := by
        rcases List.append_eq_append_iff.1 ending with ⟨extra, -, tail⟩ | ⟨extra, rfl, tail⟩
        · cases extra with
          | nil => exact ⟨[space], tail⟩
          | cons other extra =>
              obtain ⟨rfl, rfl⟩ := List.cons.inj tail
              have bare := solid first (by simp)
              rw [blank first List.mem_cons_self] at bare
              contradiction
        · exact ⟨extra ++ [space], by rw [tail]; simp⟩
      rcases List.mem_append.1 member with member | member
      · obtain ⟨before, whole⟩ := tail
        have inside : item ∈ first :: between := by
          rw [← whole]
          exact List.mem_append_right _ member
        apply blank item
        rcases List.mem_cons.1 inside with rfl | inside
        · exact List.mem_cons_self
        · rw [later]
          exact List.mem_cons_of_mem _ (List.mem_append_left _ inside)
      · apply blank item
        rw [later]
        exact List.mem_cons_of_mem _ (List.mem_append_right _ member)

theorem not_lineSpills_nil : ¬ font.LineSpills avail [] := by
  rintro ⟨start, reached, spills⟩
  exact spills.ne_nil (List.suffix_nil.1 reached.suffix)

theorem lineSpills_iff {row gap rest : List α} (breaks : font.Breaks avail row gap rest) :
    font.LineSpills avail (row ++ (gap ++ rest)) ↔
      font.Spills avail (row ++ (gap ++ rest)) ∨ font.LineSpills avail rest := by
  constructor
  · rintro ⟨start, reached, spills⟩
    generalize same : row ++ (gap ++ rest) = text at reached
    cases reached with
    | here => exact .inl (same ▸ spills)
    | next breaks' after =>
        obtain ⟨-, -, rfl⟩ := breaks.unique breaks' same
        exact .inr ⟨start, after, spills⟩
  · rintro (spills | ⟨start, reached, spills⟩)
    · exact ⟨_, .here, spills⟩
    · exact ⟨start, .next breaks reached, spills⟩

theorem takeWhile_stop {p : α → Bool} {item : α} (stops : p item = false)
    (front after : List α) :
    (front ++ item :: after).takeWhile p = front.takeWhile p ∧
      (front ++ item :: after).dropWhile p = front.dropWhile p ++ item :: after := by
  induction front with
  | nil => simp [stops]
  | cons first front ih =>
      cases kind : p first with
      | true => simp [kind, ih]
      | false => simp [kind]

theorem Breaks.extend {row gap rest : List α} {next : α}
    (breaks : font.Breaks avail row gap rest)
    (line : ∀ item ∈ row ++ (gap ++ rest), font.newline item = false)
    (broken : font.newline next = true) (more : List α) :
    (gap = [] ∧ rest = [] ∧ font.Breaks avail row [next] more) ∨
      ((gap ≠ [] ∨ rest ≠ []) ∧ font.Breaks avail row gap (rest ++ next :: more)) := by
  have longer : ∀ {front after : List α}, font.Fits avail front after →
      font.Fits avail front (after ++ next :: more) := by
    intro front after fits
    refine ⟨fits.plain, fits.room, fun item here => ?_⟩
    cases after with
    | nil =>
        obtain rfl := Option.some.inj here
        exact .inl broken
    | cons first after => exact fits.full item here
  cases breaks with
  | ends fits => exact .inl ⟨rfl, rfl, .newline (longer fits) broken⟩
  | newline fits broken' =>
      have plain := line _ (List.mem_append_right _ List.mem_cons_self)
      rw [broken'] at plain
      contradiction
  | hard fits plain solid =>
      exact .inr ⟨.inr (List.cons_ne_nil _ _), .hard (longer fits) plain solid⟩
  | @soft body rest space item started blank solid fits plain =>
      have stop := takeWhile_stop (font.apart next broken) (body ++ item :: rest) more
      have fits' : font.Fits avail (row ++ space :: body) (item :: (rest ++ next :: more)) :=
        longer fits
      have wider := Breaks.soft started blank solid fits' plain
      rw [← List.cons_append, ← List.append_assoc, stop.1, stop.2] at wider
      exact .inr ⟨.inl (List.cons_ne_nil _ _), wider⟩

/-- Rows of a line with a newline and more lines behind it: one more than the two
have alone if the line spills. -/
theorem Rows.join {line more : List α} {rows others : List (List α × List α)} {next : α}
    (laid : font.Rows later first line rows) (same : first = later) (some_ : line ≠ [])
    (plain : ∀ item ∈ line, font.newline item = false)
    (broken : font.newline next = true) (after : font.Rows later later more others) :
    ∃ joined, font.Rows later first (line ++ next :: more) joined ∧
      ((font.LineSpills later line ∧ joined.length = rows.length + others.length + 1) ∨
        (¬ font.LineSpills later line ∧ joined.length = rows.length + others.length)) := by
  induction laid with
  | done => exact absurd rfl some_
  | @row first row gap rest rows nonempty breaks left ih =>
      subst same
      rw [lineSpills_iff breaks]
      rcases breaks.extend plain broken more with ⟨rfl, rfl, last⟩ | ⟨goes, wider⟩
      · obtain rfl := left.nil_iff
        refine ⟨(row, [next]) :: others, ?_, .inr ⟨?_, by simp; omega⟩⟩
        · have whole := Rows.row (by simp) last after
          simpa using whole
        · rintro (spills | spills)
          · exact (breaks.of_spills plain spills).1 rfl
          · exact not_lineSpills_nil spills
      · by_cases ended : rest = []
        · subst ended
          obtain rfl := left.nil_iff
          have spills := breaks.spills plain (by simpa using goes)
          have fits : font.Fits first [] (next :: more) :=
            ⟨fun _ member => absurd member List.not_mem_nil, Nat.zero_le _,
              fun item here => Option.some.inj here ▸ .inl broken⟩
          have blank := Rows.row (by simp) (.newline fits broken) after
          refine ⟨(row, gap) :: ([], [next]) :: others, ?_, .inl ⟨.inl spills, by simp; omega⟩⟩
          have whole := Rows.row (by simp) wider (by simpa using blank)
          simpa using whole
        · have solid : ¬ font.Spills first (row ++ (gap ++ rest)) :=
            fun spills => ended (breaks.of_spills plain spills).2
          obtain ⟨joined, laid', count⟩ := ih rfl ended
            (fun item member => plain item (by simp [member]))
          refine ⟨(row, gap) :: joined, ?_, ?_⟩
          · have whole := Rows.row (by simp) wider laid'
            simpa using whole
          · rw [List.length_cons, List.length_cons]
            rcases count with ⟨spills, count⟩ | ⟨solid', count⟩
            · exact .inl ⟨.inr spills, by omega⟩
            · exact .inr ⟨fun spills => spills.elim solid solid', by omega⟩

/-- Lines joined by newlines have the rows they have alone, and one more for
each line but the last that spills. -/
theorem exists_rows_lines (next : α) (broken : font.newline next = true)
    (count : List α → Nat) (lines : List (List α)) (some_ : lines ≠ [])
    (each : ∀ line ∈ lines, line ≠ [] ∧ (∀ item ∈ line, font.newline item = false) ∧
      ∃ rows, font.Rows avail avail line rows ∧ rows.length = count line) :
    ∃ rows, font.Rows avail avail ([next].intercalate lines) rows ∧
      (lines.map count).sum ≤ rows.length ∧
      (rows.length = (lines.map count).sum ↔
        ∀ line ∈ lines.dropLast, ¬ font.LineSpills avail line) := by
  induction lines with
  | nil => exact absurd rfl some_
  | cons line lines ih =>
      obtain ⟨started, plain, rows, laid, size⟩ := each line List.mem_cons_self
      cases lines with
      | nil =>
          refine ⟨rows, by simpa using laid, by simp [size], by simp [size]⟩
      | cons second lines =>
          obtain ⟨others, after, least, exact_⟩ := ih (List.cons_ne_nil _ _)
            fun other member => each other (List.mem_cons_of_mem _ member)
          obtain ⟨joined, whole, total⟩ := laid.join rfl started plain broken after
          refine ⟨joined, by simpa [List.intercalate_cons_cons] using whole, ?_, ?_⟩
          · rw [List.map_cons, List.sum_cons]
            rcases total with ⟨-, total⟩ | ⟨-, total⟩ <;> omega
          · rw [List.map_cons, List.sum_cons, List.dropLast_cons_cons, List.forall_mem_cons,
              ← exact_]
            rcases total with ⟨spills, total⟩ | ⟨solid, total⟩
            · constructor
              · omega
              · exact fun none_ => absurd spills none_.1
            · constructor
              · exact fun same => ⟨solid, by omega⟩
              · exact fun same => by omega

end Font

end WordWrap

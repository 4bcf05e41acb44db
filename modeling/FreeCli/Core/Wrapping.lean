import FreeCli.Core.Utf8

namespace FreeCli

open Words WordWrap

/-! Texts of whole characters, and what `wrap_line_end` makes of them. -/

/-- A lead byte with as many bytes behind it as `utf8_clen` says. -/
structure Glyph where
  lead : UInt8
  tail : Bytes
  lead_ne : lead ≠ 0
  size : tail.length + 1 = utf8Clen lead

namespace Glyph

def bytes (glyph : Glyph) : Bytes := glyph.lead :: glyph.tail

def width (glyph : Glyph) : Nat := (utf8Cwidth glyph.bytes).getD 1

def blank (glyph : Glyph) : Bool := blankByte glyph.lead

def newline (glyph : Glyph) : Bool := glyph.lead == 0x0A

theorem utf8Cwidth_bytes (glyph : Glyph) (p : Bytes) :
    utf8Cwidth (glyph.bytes ++ p) = some glyph.width := by
  have size := glyph.size
  unfold width bytes
  unfold utf8Clen at size
  rw [List.cons_append]
  unfold utf8Cwidth
  by_cases ascii : glyph.lead < 0x80
  · simp only [ascii, if_true]
    rfl
  · by_cases two : glyph.lead < 0xE0
    · simp only [ascii, two, if_true, if_false]
      rfl
    · by_cases three : glyph.lead < 0xF0
      · have notFew : ¬ glyph.lead < 0xC0 := fun few =>
          two (UInt8.lt_trans few (by decide))
        simp only [glyph.lead_ne, ascii, notFew, two, three, if_true, if_false] at size
        rcases tail : glyph.tail with _ | ⟨second, _ | ⟨third, more⟩⟩
        · rw [tail] at size
          cases size
        · rw [tail] at size
          cases size
        · simp only [ascii, two, three, if_true, if_false, List.cons_append]
          split_ifs <;> rfl
      · simp only [ascii, two, three, if_false]
        rfl

theorem width_cases (glyph : Glyph) : glyph.width = 1 ∨ glyph.width = 2 :=
  utf8Cwidth_cases (glyph.utf8Cwidth_bytes [])

theorem lead_of_blank {glyph : Glyph} (blank : glyph.blank = true) :
    glyph.lead = 0x20 ∨ glyph.lead = 0x09 := by
  simpa [Glyph.blank, blankByte] using blank

theorem bytes_of_blank {glyph : Glyph} (blank : glyph.blank = true) :
    glyph.bytes = [glyph.lead] := by
  have size := glyph.size
  have one : utf8Clen glyph.lead = 1 := by
    rcases lead_of_blank blank with lead | lead <;> rw [lead] <;> rfl
  have empty : glyph.tail = [] := List.eq_nil_of_length_eq_zero (by omega)
  rw [bytes, empty]

theorem width_blank (glyph : Glyph) (blank : glyph.blank = true) : glyph.width = 1 := by
  rw [width, bytes_of_blank blank]
  rcases lead_of_blank blank with lead | lead <;> rw [lead] <;> rfl

def font : Font Glyph where
  width := Glyph.width
  blank := Glyph.blank
  newline := Glyph.newline
  width_pos := by
    intro glyph
    rcases glyph.width_cases with width | width <;> rw [width] <;> decide
  width_blank := Glyph.width_blank
  apart := by
    intro glyph newline
    have lead : glyph.lead = 0x0A := by simpa [Glyph.newline] using newline
    rw [Glyph.blank, lead]
    rfl

end Glyph

/-- Characters of some kind with their bytes. -/
structure Script (α : Type) where
  font : Font α
  glyph : α → Glyph
  width_eq : ∀ item, font.width item = (glyph item).width
  blank_eq : ∀ item, font.blank item = (glyph item).blank
  newline_eq : ∀ item, font.newline item = (glyph item).newline

namespace Script

variable {α : Type} (script : Script α)

def bytes (text : List α) : Bytes := text.flatMap fun item => (script.glyph item).bytes

def size (text : List α) : Nat := (script.bytes text).length

@[simp] theorem bytes_nil : script.bytes [] = [] := rfl

@[simp] theorem bytes_cons (item : α) (text : List α) :
    script.bytes (item :: text) = (script.glyph item).bytes ++ script.bytes text := rfl

@[simp] theorem bytes_append (first second : List α) :
    script.bytes (first ++ second) = script.bytes first ++ script.bytes second :=
  List.flatMap_append

@[simp] theorem size_nil : script.size [] = 0 := rfl

@[simp] theorem size_append (first second : List α) :
    script.size (first ++ second) = script.size first + script.size second := by
  rw [size, bytes_append, List.length_append]
  rfl

@[simp] theorem size_cons (item : α) (text : List α) :
    script.size (item :: text) = utf8Clen (script.glyph item).lead + script.size text := by
  rw [size, bytes_cons, List.length_append, Glyph.bytes, List.length_cons,
    (script.glyph item).size]
  rfl

theorem size_blank {item : α} (blank : script.font.blank item = true) :
    utf8Clen (script.glyph item).lead = 1 := by
  rw [script.blank_eq] at blank
  rcases Glyph.lead_of_blank blank with lead | lead <;> rw [lead] <;> rfl

theorem size_newline {item : α} (broken : script.font.newline item = true) :
    utf8Clen (script.glyph item).lead = 1 := by
  rw [script.newline_eq] at broken
  have lead : (script.glyph item).lead = 0x0A := by simpa [Glyph.newline] using broken
  rw [lead]
  rfl

/-- The memory after a run of characters, up to the terminator. -/
def Closed (memory : Bytes) : Prop :=
  ∃ first more, memory = first :: more ∧ blankByte first = false

theorem skipBlanks_bytes (text : List α) {memory : Bytes} (closed : Closed memory) :
    skipBlanks (script.bytes text ++ memory) =
      some (script.size (text.takeWhile script.font.blank)) := by
  induction text with
  | nil =>
      obtain ⟨first, more, rfl, solid⟩ := closed
      simp [skipBlanks, solid]
  | cons item text ih =>
      rw [bytes_cons, List.takeWhile_cons]
      cases kind : script.font.blank item with
      | true =>
          have one := script.size_blank kind
          rw [script.blank_eq] at kind
          rw [Glyph.bytes_of_blank kind, List.singleton_append, List.cons_append, skipBlanks]
          have lead : blankByte (script.glyph item).lead = true := kind
          simp only [lead, if_true, ih, Option.map_some, size_cons, one, Nat.add_comm 1]
      | false =>
          rw [script.blank_eq] at kind
          have lead : blankByte (script.glyph item).lead = false := kind
          rw [Glyph.bytes, List.cons_append, List.cons_append, skipBlanks]
          simp [lead]

/-- What the scan remembers of the last blank: `front` is behind it, `todo` ahead. -/
def Marked (front todo : List α) : Option (Nat × Nat) → Prop
  | none => ∀ item ∈ front.tail, script.font.blank item = false
  | some last => ∃ row space more, front = row ++ space :: more ∧ row ≠ [] ∧
      script.font.blank space = true ∧ (∀ item ∈ more, script.font.blank item = false) ∧
      last = (script.size row,
        script.size (row ++ space :: (more ++ todo).takeWhile script.font.blank))

variable {script} {avail : Nat} {front todo : List α} {memory : Bytes}
  {last : Option (Nat × Nat)}

theorem Marked.solid {item : α} (marked : script.Marked front (item :: todo) last)
    (solid : script.font.blank item = false) :
    script.Marked (front ++ [item]) todo last := by
  cases last with
  | none =>
      intro other member
      cases front with
      | nil => cases member
      | cons first front =>
          rcases List.mem_append.1 member with member | member
          · exact marked other member
          · rw [List.mem_singleton.1 member]
            exact solid
  | some last =>
      obtain ⟨row, space, more, rfl, started, blank, bare, rfl⟩ := marked
      refine ⟨row, space, more ++ [item], by simp, started, blank, ?_, by simp⟩
      intro other member
      rcases List.mem_append.1 member with member | member
      · exact bare other member
      · rw [List.mem_singleton.1 member]
        exact solid

theorem Marked.first {item : α} (marked : script.Marked [] (item :: todo) last) :
    script.Marked [item] todo last := by
  cases last with
  | none => exact fun other member => absurd member List.not_mem_nil
  | some last =>
      obtain ⟨row, space, more, same, -⟩ := marked
      cases row <;> cases same

theorem newline_lead {item : α} (plain : script.font.newline item = false) :
    (script.glyph item).lead ≠ 0x0A := by
  rw [script.newline_eq] at plain
  simpa [Glyph.newline] using plain

theorem drop_glyph (item : α) (p : Bytes) :
    ((script.glyph item).lead :: ((script.glyph item).tail ++ p)).drop
      (utf8Clen (script.glyph item).lead) = p := by
  rw [← (script.glyph item).size, List.drop_succ_cons, List.drop_left]

theorem wrapScan_step {item : α} (todo : List α)
    (plain : script.font.newline item = false)
    (room : script.font.columns front + script.font.width item ≤ avail)
    (closed : Closed memory) (marked : script.Marked front (item :: todo) last) :
    ∃ last', script.Marked (front ++ [item]) todo last' ∧
      wrapScan avail (script.bytes (item :: todo) ++ memory) (script.size front)
          (script.font.columns front) last =
        wrapScan avail (script.bytes todo ++ memory) (script.size (front ++ [item]))
          (script.font.columns (front ++ [item])) last' := by
  have width := (script.glyph item).utf8Cwidth_bytes (script.bytes todo ++ memory)
  have narrow : ¬ avail < script.font.columns front + (script.glyph item).width := by
    rw [← script.width_eq]
    omega
  rw [Glyph.bytes, List.cons_append] at width
  rw [bytes_cons, Glyph.bytes, List.cons_append, List.cons_append, List.append_assoc, wrapScan]
  simp only [(script.glyph item).lead_ne, newline_lead plain, if_false, width, narrow,
    drop_glyph]
  rw [size_append, size_cons, size_nil, Nat.add_zero, Font.columns_append, Font.columns_cons,
    Font.columns_nil, Nat.add_zero, script.width_eq]
  cases kind : script.font.blank item with
  | false =>
      have lead : blankByte (script.glyph item).lead = false := by
        rw [script.blank_eq] at kind
        exact kind
      exact ⟨last, marked.solid kind, by simp [lead]⟩
  | true =>
      have lead : blankByte (script.glyph item).lead = true := by
        rw [script.blank_eq] at kind
        exact kind
      cases front with
      | nil => exact ⟨last, marked.first, by simp⟩
      | cons first front =>
          have positive := script.font.columns_pos (List.cons_ne_nil first front)
          have empty : (script.glyph item).tail = [] := by
            have size := (script.glyph item).size
            rw [script.size_blank kind] at size
            exact List.eq_nil_of_length_eq_zero (by omega)
          refine ⟨some (script.size (first :: front), script.size (first :: front) + 1 +
            script.size (todo.takeWhile script.font.blank)), ?_, ?_⟩
          · refine ⟨first :: front, item, [], rfl, List.cons_ne_nil _ _, kind,
              fun other member => absurd member List.not_mem_nil, ?_⟩
            rw [size_append, size_cons _ item, script.size_blank kind, List.nil_append,
              ← Nat.add_assoc]
          · simp only [lead, positive, decide_true, Bool.and_self, if_true, empty,
              List.nil_append, script.skipBlanks_bytes todo closed, Nat.add_zero]

theorem wrapScan_front (front more : List α)
    (plain : ∀ item ∈ more, script.font.newline item = false)
    (room : script.font.columns (front ++ more) ≤ avail)
    (closed : Closed memory) (marked : script.Marked front (more ++ todo) last) :
    ∃ last', script.Marked (front ++ more) todo last' ∧
      wrapScan avail (script.bytes (more ++ todo) ++ memory) (script.size front)
          (script.font.columns front) last =
        wrapScan avail (script.bytes todo ++ memory) (script.size (front ++ more))
          (script.font.columns (front ++ more)) last' := by
  induction more generalizing front last with
  | nil => exact ⟨last, by simpa using marked, by simp⟩
  | cons item more ih =>
      have fits : script.font.columns front + script.font.width item ≤ avail := by
        rw [Font.columns_append, Font.columns_cons] at room
        omega
      obtain ⟨next, marked', first⟩ :=
        wrapScan_step (more ++ todo) (plain item List.mem_cons_self) fits closed marked
      obtain ⟨last', marked'', rest⟩ := ih (front ++ [item])
        (fun other member => plain other (List.mem_cons_of_mem _ member))
        (by simpa using room) marked'
      refine ⟨last', by simpa using marked'', ?_⟩
      rw [List.cons_append, first, rest, List.append_assoc, List.singleton_append]

theorem marked_start (todo : List α) : script.Marked [] todo none :=
  fun _ member => absurd member List.not_mem_nil

theorem Marked.none_of_solid (marked : script.Marked front todo last)
    (solid : ∀ item ∈ front.tail, script.font.blank item = false) : last = none := by
  cases last with
  | none => rfl
  | some last =>
      obtain ⟨row, space, more, rfl, started, blank, -⟩ := marked
      exact absurd rfl (Font.solid_tail_ne solid started blank)

theorem Marked.some_of_blank {row more : List α} {space : α}
    (marked : script.Marked (row ++ space :: more) todo last) (started : row ≠ [])
    (blank : script.font.blank space = true)
    (solid : ∀ item ∈ more, script.font.blank item = false) :
    last = some (script.size row,
      script.size (row ++ space :: (more ++ todo).takeWhile script.font.blank)) := by
  cases last with
  | none => exact absurd rfl (Font.solid_tail_ne marked started blank)
  | some last =>
      obtain ⟨row', space', more', same, -, blank', solid', rfl⟩ := marked
      obtain ⟨rfl, rfl, rfl⟩ := Font.last_blank_unique blank blank' solid solid' same
      rfl

theorem wrapScan_full {next : α} {rest : List α} {n col : Nat}
    (plain : script.font.newline next = false)
    (full : avail < col + script.font.width next) :
    wrapScan avail (script.bytes (next :: rest) ++ memory) n col last =
      some (last.getD (n, n)) := by
  have width := (script.glyph next).utf8Cwidth_bytes (script.bytes rest ++ memory)
  rw [Glyph.bytes, List.cons_append] at width
  rw [script.width_eq] at full
  rw [bytes_cons, Glyph.bytes, List.cons_append, List.cons_append, List.append_assoc, wrapScan]
  simp only [(script.glyph next).lead_ne, newline_lead plain, if_false, width, full, if_true]

theorem wrapScan_fits {row : List α} (fits : script.font.Fits avail row todo)
    (closed : Closed memory) :
    ∃ last, script.Marked row todo last ∧
      wrapScan avail (script.bytes (row ++ todo) ++ memory) 0 0 none =
        wrapScan avail (script.bytes todo ++ memory) (script.size row)
          (script.font.columns row) last :=
  wrapScan_front [] row fits.plain fits.room closed (marked_start _)

theorem wrapScan_breaks {row gap rest : List α} (breaks : script.font.Breaks avail row gap rest)
    (closed : Closed memory)
    (ended : gap = [] → rest = [] → ∃ more, memory = 0 :: more) :
    wrapScan avail (script.bytes (row ++ (gap ++ rest)) ++ memory) 0 0 none =
      some (script.size row, script.size (row ++ gap)) := by
  have overfull : ∀ {front : List α} {next : α} {rest : List α},
      script.font.Fits avail front (next :: rest) → script.font.newline next = false →
        avail < script.font.columns front + script.font.width next := by
    intro front next rest fits plain
    rcases fits.full next rfl with broken | full
    · rw [plain] at broken
      contradiction
    · exact full
  cases breaks with
  | ends fits =>
      obtain ⟨last, -, scan⟩ := wrapScan_fits fits closed
      obtain ⟨more, rfl⟩ := ended rfl rfl
      rw [List.append_nil, scan, bytes_nil, List.nil_append, wrapScan]
      simp
  | @newline rest next fits broken =>
      obtain ⟨last, -, scan⟩ := wrapScan_fits fits closed
      have one := script.size_newline broken
      have lead : (script.glyph next).lead = 0x0A := by
        rw [script.newline_eq] at broken
        simpa [Glyph.newline] using broken
      rw [List.singleton_append, scan, bytes_cons, Glyph.bytes, List.cons_append,
        List.cons_append, wrapScan]
      simp [lead, utf8Clen]
  | hard fits plain solid =>
      obtain ⟨last, marked, scan⟩ := wrapScan_fits fits closed
      obtain rfl := marked.none_of_solid solid
      rw [List.nil_append, scan, wrapScan_full plain (overfull fits plain), List.append_nil]
      rfl
  | @soft more rest space next started blank solid fits plain =>
      obtain ⟨last, marked, scan⟩ := wrapScan_fits fits closed
      obtain rfl := marked.some_of_blank started blank solid
      have regroup : row ++ space :: (more ++ next :: rest) =
          row ++ space :: more ++ next :: rest := by simp
      rw [Font.soft_text, regroup, scan, wrapScan_full plain (overfull fits plain)]
      rfl

theorem closed_zero (more : Bytes) : Closed (0 :: more) := ⟨0, more, rfl, rfl⟩

theorem wrapLineEnd_breaks {row gap rest : List α} {x width : Int}
    (breaks : script.font.Breaks (availColumns x width) row gap rest) :
    wrapLineEnd (script.bytes (row ++ (gap ++ rest)) ++ [0]) x width =
      some (script.size row, script.size (row ++ gap)) :=
  wrapScan_breaks breaks (closed_zero []) fun _ _ => ⟨[], rfl⟩

theorem drop_row (row gap rest : List α) (memory : Bytes) :
    (script.bytes (row ++ (gap ++ rest)) ++ memory).drop (script.size (row ++ gap)) =
      script.bytes rest ++ memory := by
  rw [← List.append_assoc, bytes_append, List.append_assoc, size, List.drop_left]

/-! The rows of a whole text. -/

variable (script) in
def place : Nat → List (List α × List α) → List Row
  | _, [] => []
  | n, (row, gap) :: rows =>
      ⟨n, n + script.size row, n + script.size (row ++ gap)⟩ ::
        place (n + script.size (row ++ gap)) rows

@[simp] theorem length_place (n : Nat) (rows : List (List α × List α)) :
    (script.place n rows).length = rows.length := by
  induction rows generalizing n with
  | nil => rfl
  | cons row rows ih => simp [place, ih]

theorem exists_place_concat (n : Nat) (rows : List (List α × List α)) (row gap : List α) :
    ∃ start, script.place n (rows ++ [(row, gap)]) =
      script.place n rows ++
        [⟨start, start + script.size row, start + script.size (row ++ gap)⟩] := by
  induction rows generalizing n with
  | nil => exact ⟨n, rfl⟩
  | cons first rows ih =>
      obtain ⟨start, same⟩ := ih (n + script.size (first.1 ++ first.2))
      exact ⟨start, congrArg (_ :: ·) same⟩

theorem bytes_ne_nil {text : List α} (some_ : text ≠ []) :
    ∃ first more, script.bytes text = first :: more ∧ first ≠ 0 := by
  obtain ⟨item, rest, rfl⟩ := List.exists_cons_of_ne_nil some_
  exact ⟨(script.glyph item).lead, _, rfl, (script.glyph item).lead_ne⟩

theorem countLoop_nil (indent width : Int) (calls n : Nat) (x : Int) :
    countLoop indent width calls (script.bytes [] ++ [0]) n x = .ended [] := by
  cases calls <;> rfl

theorem countLoop_zero {text : List α} (some_ : text ≠ []) (indent width : Int) (n : Nat)
    (x : Int) : countLoop indent width 0 (script.bytes text ++ [0]) n x = .running := by
  obtain ⟨first, more, same, lead⟩ := script.bytes_ne_nil some_
  rw [same, List.cons_append, countLoop, if_neg lead]

theorem countLoop_step {row gap rest : List α} {indent width x : Int} (calls n : Nat)
    (more : row ++ (gap ++ rest) ≠ [])
    (breaks : script.font.Breaks (availColumns x width) row gap rest) :
    countLoop indent width (calls + 1) (script.bytes (row ++ (gap ++ rest)) ++ [0]) n x =
      (countLoop indent width calls (script.bytes rest ++ [0])
        (n + script.size (row ++ gap)) indent).map
        (⟨n, n + script.size row, n + script.size (row ++ gap)⟩ :: ·) := by
  obtain ⟨first, bytes, same, lead⟩ := script.bytes_ne_nil more
  have call := wrapLineEnd_breaks breaks
  have drop := script.drop_row row gap rest [0]
  rw [same, List.cons_append] at call drop ⊢
  rw [countLoop, if_neg lead, call]
  simp only [drop]

/-- `count_rows` makes the calls for the rows of the text. -/
theorem countLoop_rows {text : List α} {rows : List (List α × List α)}
    {indent width x : Int} {calls : Nat} (n : Nat)
    (laid : script.font.Rows (availColumns indent width) (availColumns x width) text rows)
    (enough : rows.length ≤ calls) :
    countLoop indent width calls (script.bytes text ++ [0]) n x =
      .ended (script.place n rows) := by
  generalize start : availColumns x width = first at laid
  induction laid generalizing n x calls with
  | done first => exact countLoop_nil indent width calls n x
  | @row first row gap rest rows more breaks after ih =>
      subst start
      cases calls with
      | zero => cases enough
      | succ calls =>
          have ended := ih (n + script.size (row ++ gap))
            (Nat.le_of_succ_le_succ enough) rfl
          rw [countLoop_step calls n more breaks, ended]
          rfl

theorem rows_of_countLoop {text : List α} {calls n : Nat} {indent width x : Int}
    {result : List Row}
    (ended : countLoop indent width calls (script.bytes text ++ [0]) n x = .ended result) :
    ∃ rows, script.font.Rows (availColumns indent width) (availColumns x width) text rows ∧
      rows.length ≤ calls ∧ result = script.place n rows := by
  induction calls generalizing text n x result with
  | zero =>
      by_cases empty : text = []
      · subst empty
        rw [countLoop_nil] at ended
        cases ended
        exact ⟨[], .done _, Nat.le_refl _, rfl⟩
      · rw [countLoop_zero empty] at ended
        cases ended
  | succ calls ih =>
      by_cases empty : text = []
      · subst empty
        rw [countLoop_nil] at ended
        cases ended
        exact ⟨[], .done _, Nat.zero_le _, rfl⟩
      · obtain ⟨row, gap, rest, rfl, breaks⟩ :=
          Font.exists_breaks script.font (availColumns x width) text
        rw [countLoop_step calls n empty breaks] at ended
        cases later : countLoop indent width calls (script.bytes rest ++ [0])
            (n + script.size (row ++ gap)) indent with
        | fault =>
            rw [later] at ended
            cases ended
        | running =>
            rw [later] at ended
            cases ended
        | ended result' =>
            rw [later] at ended
            obtain ⟨rows, after, bound, rfl⟩ := ih later
            cases ended
            exact ⟨(row, gap) :: rows, .row empty breaks after,
              Nat.succ_le_succ bound, rfl⟩

theorem countLoop_ne_fault (text : List α) (calls n : Nat) (indent width x : Int) :
    countLoop indent width calls (script.bytes text ++ [0]) n x ≠ .fault := by
  induction calls generalizing text n x with
  | zero =>
      by_cases empty : text = []
      · subst empty
        rw [countLoop_nil]
        exact nofun
      · rw [countLoop_zero empty]
        exact nofun
  | succ calls ih =>
      by_cases empty : text = []
      · subst empty
        rw [countLoop_nil]
        exact nofun
      · obtain ⟨row, gap, rest, rfl, breaks⟩ :=
          Font.exists_breaks script.font (availColumns x width) text
        rw [countLoop_step calls n empty breaks]
        intro fault
        cases later : countLoop indent width calls (script.bytes rest ++ [0])
            (n + script.size (row ++ gap)) indent with
        | fault => exact ih _ _ _ later
        | running =>
            rw [later] at fault
            cases fault
        | ended result =>
            rw [later] at fault
            cases fault

theorem length_le_size (script : Script α) (text : List α) :
    text.length ≤ script.size text := by
  induction text with
  | nil => exact Nat.le_refl _
  | cons item text ih =>
      have positive := utf8Clen_pos (script.glyph item).lead
      rw [size_cons, List.length_cons]
      omega

theorem countedRows_rows {text : List α} {rows : List (List α × List α)}
    {indent width x : Int}
    (laid : script.font.Rows (availColumns indent width) (availColumns x width) text rows) :
    countedRows (script.bytes text ++ [0]) x indent width = some (max 1 rows.length) := by
  have enough : rows.length ≤ (script.bytes text ++ [0]).length := by
    have bound := laid.length_le_succ
    have bytes := script.length_le_size text
    rw [List.length_append, List.length_singleton]
    exact Nat.le_trans bound (Nat.succ_le_succ bytes)
  rw [countedRows, countRows, countLoop_rows 0 laid enough]
  simp only [Scanned.map, length_place]
  split_ifs <;> congr 1 <;> omega

theorem split_unique {before after front rest : List α}
    (same : before ++ after = front ++ rest) (size : script.size before = script.size front) :
    before = front ∧ after = rest := by
  rcases List.append_eq_append_iff.1 same with ⟨extra, rfl, rfl⟩ | ⟨extra, rfl, rfl⟩
  all_goals
    have bound := script.length_le_size extra
    rw [size_append] at size
    have empty : extra.length = 0 := by omega
    obtain rfl := List.eq_nil_of_length_eq_zero empty
    simp

theorem exists_of_mem_place {text : List α} {rows : List (List α × List α)}
    {first later n : Nat} {call : Row} (laid : script.font.Rows later first text rows)
    (same : first = later) (member : call ∈ script.place n rows) :
    ∃ pre row gap rest, text = pre ++ (row ++ (gap ++ rest)) ∧
      script.font.Breaks later row gap rest ∧
      script.font.RowStart later (row ++ (gap ++ rest)) text ∧
      call = ⟨n + script.size pre, n + script.size (pre ++ row),
        n + script.size (pre ++ row ++ gap)⟩ := by
  induction laid generalizing n with
  | done => cases member
  | @row first row gap rest rows more breaks after ih =>
      subst same
      rcases List.mem_cons.1 member with rfl | member
      · exact ⟨[], row, gap, rest, rfl, breaks, .here, by simp⟩
      · obtain ⟨pre, row', gap', rest', rfl, breaks', reached, rfl⟩ := ih rfl member
        refine ⟨row ++ gap ++ pre, row', gap', rest', by simp, breaks',
          .next breaks reached, ?_⟩
        simp [Nat.add_assoc]

theorem mem_place_of_rowStart (row gap rest : List α) {text : List α}
    {rows : List (List α × List α)} {avail : Nat} (n : Nat)
    (reached : script.font.RowStart avail (row ++ (gap ++ rest)) text)
    (laid : script.font.Rows avail avail text rows)
    (more : row ++ (gap ++ rest) ≠ [])
    (breaks : script.font.Breaks avail row gap rest) :
    ∃ pre, text = pre ++ (row ++ (gap ++ rest)) ∧
      (⟨n + script.size pre, n + script.size (pre ++ row),
        n + script.size (pre ++ row ++ gap)⟩ : Row) ∈ script.place n rows := by
  induction reached generalizing n rows with
  | here =>
      generalize same : row ++ (gap ++ rest) = text at laid
      cases laid with
      | done => exact absurd same more
      | row more' breaks' after =>
          obtain ⟨rfl, rfl, rfl⟩ := breaks.unique breaks' same
          exact ⟨[], rfl, by simp [place]⟩
  | @next row' gap' rest' breaks' reached ih =>
      generalize same : row' ++ (gap' ++ rest') = text at laid
      cases laid with
      | done =>
          obtain ⟨-, rfl⟩ := List.append_eq_nil_iff.1 (List.append_eq_nil_iff.1 same).2
          exact absurd (List.suffix_nil.1 reached.suffix) more
      | row more' breaks'' after =>
          obtain ⟨rfl, rfl, rfl⟩ := breaks'.unique breaks'' same
          obtain ⟨pre, rfl, member⟩ := ih (n + script.size (row' ++ gap')) after
          refine ⟨row' ++ gap' ++ pre, by simp, List.mem_cons_of_mem _ ?_⟩
          simpa [Nat.add_assoc] using member

end Script

end FreeCli

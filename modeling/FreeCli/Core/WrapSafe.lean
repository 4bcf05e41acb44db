import FreeCli.Core.Wrapping

namespace FreeCli

open Words WordWrap

/-! Texts whose last character is cut off by the terminator. -/

def glyphs : Script Glyph where
  font := Glyph.font
  glyph := id
  width_eq _ := rfl
  blank_eq _ := rfl
  newline_eq _ := rfl

/-- A lead byte with fewer bytes behind it than `utf8_clen` says. -/
structure CutOff (cut : Bytes) : Prop where
  lead_ne : cut.head? ≠ some 0
  short : ∀ lead ∈ cut.head?, cut.length < utf8Clen lead
  ne_nil : cut ≠ []

/-- All characters are there to their last byte. -/
def WholeChars (text : Bytes) : Prop := ∃ front, text = glyphs.bytes front

/-- The line comes to a character that is cut off and for which there is room, or
whose width the code cannot tell without a byte behind the terminator. -/
def BrokenOff (avail : Nat) (text : Bytes) : Prop :=
  ∃ front cut, text = glyphs.bytes front ++ cut ∧ CutOff cut ∧
    (∀ glyph ∈ front, Glyph.newline glyph = false) ∧
    Glyph.font.columns front ≤ avail ∧
    ∀ cw, utf8Cwidth (cut ++ [0]) = some cw → Glyph.font.columns front + cw ≤ avail

theorem exists_glyphs (text : Bytes) (nulFree : (0 : UInt8) ∉ text) :
    ∃ front cut, text = glyphs.bytes front ++ cut ∧ (cut = [] ∨ CutOff cut) := by
  induction here : text.length using Nat.strong_induction_on generalizing text with
  | _ size ih =>
      cases text with
      | nil => exact ⟨[], [], rfl, .inl rfl⟩
      | cons lead rest =>
          have nonzero : lead ≠ 0 := fun zero => nulFree (zero ▸ List.mem_cons_self)
          by_cases short : rest.length + 1 < utf8Clen lead
          · refine ⟨[], lead :: rest, rfl, .inr ⟨?_, ?_, List.cons_ne_nil _ _⟩⟩
            · simpa using nonzero
            · intro first same
              obtain rfl := Option.some.inj same
              exact short
          · have positive := utf8Clen_pos lead
            have shorter : (rest.drop (utf8Clen lead - 1)).length < size := by
              rw [← here, List.length_drop, List.length_cons]
              omega
            obtain ⟨front, cut, same, ending⟩ := ih _ shorter (rest.drop (utf8Clen lead - 1))
              (fun member => nulFree (List.mem_cons_of_mem _ (List.mem_of_mem_drop member))) rfl
            refine ⟨⟨lead, rest.take (utf8Clen lead - 1), nonzero, ?_⟩ :: front, cut, ?_, ending⟩
            · rw [List.length_take]
              omega
            · rw [Script.bytes_cons, List.append_assoc, ← same]
              exact (congrArg (lead :: ·) (List.take_append_drop _ rest)).symm

theorem CutOff.closed {cut : Bytes} (cutOff : CutOff cut) : Script.Closed (cut ++ [0]) := by
  obtain ⟨lead, rest, rfl⟩ := List.exists_cons_of_ne_nil cutOff.ne_nil
  refine ⟨lead, rest ++ [0], rfl, ?_⟩
  have short := cutOff.short lead rfl
  rw [List.length_cons] at short
  rw [← Bool.not_eq_true]
  intro blank
  have lead : lead = 0x20 ∨ lead = 0x09 := by simpa [blankByte] using blank
  rcases lead with rfl | rfl <;> exact absurd short (by simp [utf8Clen])

/-- What the scan does at a character that is cut off. -/
theorem wrapScan_cut {cut : Bytes} (cutOff : CutOff cut) (avail n col : Nat)
    (last : Option (Nat × Nat)) :
    wrapScan avail (cut ++ [0]) n col last =
      match utf8Cwidth (cut ++ [0]) with
      | none => none
      | some cw => if avail < col + cw then some (last.getD (n, n)) else none := by
  obtain ⟨first, more, same, solid⟩ := cutOff.closed
  obtain ⟨lead, rest, rfl⟩ := List.exists_cons_of_ne_nil cutOff.ne_nil
  rw [List.cons_append] at same
  obtain ⟨rfl, rfl⟩ := List.cons.inj same
  have nonzero : lead ≠ 0 := fun zero => cutOff.lead_ne (congrArg some zero)
  have short := cutOff.short lead rfl
  rw [List.length_cons] at short
  have noNewline : lead ≠ 0x0A := by
    rintro rfl
    exact absurd short (by simp [utf8Clen])
  have gone : (lead :: (rest ++ [0])).drop (utf8Clen lead) = [] := by
    apply List.drop_eq_nil_of_le
    rw [List.length_cons, List.length_append, List.length_singleton]
    omega
  rw [List.cons_append, wrapScan]
  simp only [nonzero, noNewline, if_false, gone, solid, Bool.false_and]
  cases utf8Cwidth (lead :: (rest ++ [0])) with
  | none => rfl
  | some cw =>
      simp only
      split_ifs
      · rfl
      · contradiction
      · rw [wrapScan]

theorem wrapScan_to_cut {avail : Nat} {front : List Glyph} {cut : Bytes}
    (cutOff : CutOff cut) (fits : glyphs.font.Fits avail front []) :
    ∃ last, glyphs.Marked front [] last ∧
      wrapScan avail (glyphs.bytes front ++ cut ++ [0]) 0 0 none =
        match utf8Cwidth (cut ++ [0]) with
        | none => none
        | some cw =>
            if avail < Glyph.font.columns front + cw then
              some (last.getD (glyphs.size front, glyphs.size front))
            else none := by
  obtain ⟨last, marked, scan⟩ := Script.wrapScan_fits fits cutOff.closed
  refine ⟨last, marked, ?_⟩
  rw [List.append_nil] at scan
  rw [List.append_assoc, scan, Script.bytes_nil, List.nil_append, wrapScan_cut cutOff]
  rfl

theorem BrokenOff.faults {text : Bytes} {xStart width : Int}
    (broken : BrokenOff (availColumns xStart width) text) :
    wrapLineEnd (text ++ [0]) xStart width = none := by
  obtain ⟨front, cut, rfl, cutOff, plain, room, fits⟩ := broken
  obtain ⟨last, -, scan⟩ := wrapScan_to_cut cutOff
    ⟨plain, room, fun next here => by cases here⟩
  rw [wrapLineEnd, scan]
  cases width : utf8Cwidth (cut ++ [0]) with
  | none => rfl
  | some cw => exact if_neg (Nat.not_lt.2 (fits cw width))

/-- A soft break before the character that is cut off goes back to a place between
two others. -/
theorem Script.Marked.place {front : List Glyph} {last : Option (Nat × Nat)}
    (marked : glyphs.Marked front [] last) :
    ∃ stop pre rest, front = pre ++ rest ∧ (front ≠ [] → pre ≠ []) ∧
      last.getD (glyphs.size front, glyphs.size front) = (stop, glyphs.size pre) ∧
      stop ≤ glyphs.size pre := by
  cases last with
  | none =>
      exact ⟨_, front, [], (List.append_nil front).symm, id, rfl, Nat.le_refl _⟩
  | some last =>
      obtain ⟨row, space, more, rfl, -, -, -, rfl⟩ := marked
      refine ⟨glyphs.size row, row ++ space :: more.takeWhile glyphs.font.blank,
        more.dropWhile glyphs.font.blank, ?_, by simp, by simp, ?_⟩
      · rw [List.append_assoc, List.cons_append, List.takeWhile_append_dropWhile]
      · rw [Script.size_append]
        omega

theorem wrapLineEnd_stays {front : List Glyph} {cut : Bytes} {xStart width : Int}
    (ending : cut = [] ∨ CutOff cut)
    (safe : ¬ BrokenOff (availColumns xStart width) (glyphs.bytes front ++ cut)) :
    ∃ stop pre rest, front = pre ++ rest ∧
      wrapLineEnd (glyphs.bytes front ++ cut ++ [0]) xStart width =
        some (stop, glyphs.size pre) ∧
      stop ≤ glyphs.size pre ∧
      (2 ≤ availColumns xStart width → glyphs.bytes front ++ cut ≠ [] → pre ≠ []) := by
  obtain ⟨row, gap, rest, rfl, breaks⟩ :=
    Font.exists_breaks glyphs.font (availColumns xStart width) front
  by_cases ended : gap = [] ∧ rest = [] ∧ cut ≠ []
  · obtain ⟨rfl, rfl, some_⟩ := ended
    have cutOff := ending.resolve_left some_
    have fits : glyphs.font.Fits (availColumns xStart width) row [] := by
      cases breaks with
      | ends fits => exact fits
    simp only [List.append_nil] at safe ⊢
    obtain ⟨last, marked, scan⟩ := wrapScan_to_cut cutOff fits
    have room : ∀ {cw : Nat}, (∀ other, utf8Cwidth (cut ++ [0]) = some other → other = cw) →
        availColumns xStart width < Glyph.font.columns row + cw := by
      intro cw known
      by_contra room
      refine safe ⟨row, cut, rfl, cutOff, fits.plain, fits.room, fun other width => ?_⟩
      rw [known other width]
      exact Nat.not_lt.1 room
    rw [wrapLineEnd, scan]
    cases known : utf8Cwidth (cut ++ [0]) with
    | none =>
        have full := @room 0 fun other width => by rw [known] at width; cases width
        exact absurd fits.room (Nat.not_le.2 full)
    | some cw =>
        have full := @room cw fun other width => by
          rw [known] at width
          exact (Option.some.inj width).symm
        obtain ⟨stop, pre, rest, same, started, place, bound⟩ := marked.place
        refine ⟨stop, pre, rest, same, ?_, bound, fun wide _ => started ?_⟩
        · exact (if_pos full).trans (congrArg some place)
        · rintro rfl
          rw [Font.columns_nil] at full
          rcases utf8Cwidth_cases known with rfl | rfl <;> omega
  · refine ⟨glyphs.size row, row ++ gap, rest, (List.append_assoc _ _ _).symm, ?_, ?_, ?_⟩
    · rw [wrapLineEnd, List.append_assoc]
      rcases ending with rfl | cutOff
      · exact Script.wrapScan_breaks breaks (Script.closed_zero []) fun _ _ => ⟨[], rfl⟩
      · refine Script.wrapScan_breaks breaks cutOff.closed fun empty nothing => ?_
        exact absurd ⟨empty, nothing, cutOff.ne_nil⟩ ended
    · rw [Script.size_append]
      omega
    · intro wide some_
      cases whole : row ++ (gap ++ rest) with
      | nil =>
          rw [whole] at some_
          obtain ⟨-, empty⟩ := List.append_eq_nil_iff.1 whole
          obtain ⟨rfl, rfl⟩ := List.append_eq_nil_iff.1 empty
          exact absurd ⟨rfl, rfl, some_⟩ ended
      | cons item text =>
          refine (breaks.progress_iff whole).2 (.inr ?_)
          have two : glyphs.font.width item ≤ 2 := by
            rcases item.width_cases with width | width
            · exact Nat.le_trans (Nat.le_of_eq width) (by decide)
            · exact Nat.le_of_eq width
          exact Nat.le_trans two wide

/-- One call of `wrap_line_end` stays inside the string unless the line comes to a
character that the terminator cuts off. -/
theorem wrapLineEnd_safe_iff (text : CString) (xStart width : Int) :
    (∃ stop next, wrapLineEnd (text.bytes ++ [0]) xStart width = some (stop, next) ∧
      stop ≤ next ∧ next ≤ text.bytes.length) ↔
      ¬ BrokenOff (availColumns xStart width) text.bytes := by
  constructor
  · rintro ⟨stop, next, call, -⟩ broken
    rw [broken.faults] at call
    cases call
  · intro safe
    obtain ⟨front, cut, same, ending⟩ := exists_glyphs text.bytes text.nulFree
    rw [same] at safe ⊢
    obtain ⟨stop, pre, rest, rfl, call, bound, -⟩ := wrapLineEnd_stays ending safe
    refine ⟨stop, _, call, bound, ?_⟩
    rw [Script.bytes_append, List.length_append, List.length_append, Script.size]
    omega

theorem CutOff.read (front : List Glyph) {cut : Bytes} (cutOff : CutOff cut) :
    ∃ first more, glyphs.bytes front ++ cut = first :: more ∧ first ≠ 0 := by
  cases front with
  | nil =>
      obtain ⟨lead, rest, rfl⟩ := List.exists_cons_of_ne_nil cutOff.ne_nil
      exact ⟨lead, rest, rfl, fun zero => cutOff.lead_ne (congrArg some zero)⟩
  | cons item front => exact ⟨item.lead, _, rfl, item.lead_ne⟩

theorem countLoop_reaches_cut (front : List Glyph) {cut : Bytes} {indent width x : Int}
    (cutOff : CutOff cut) (first : 2 ≤ availColumns x width)
    (later : 2 ≤ availColumns indent width) (n : Nat) :
    ∃ calls, countLoop indent width calls (glyphs.bytes front ++ cut ++ [0]) n x = .fault := by
  induction here : front.length using Nat.strong_induction_on generalizing front n x with
  | _ size ih =>
      obtain ⟨lead, more, same, nonzero⟩ := cutOff.read front
      by_cases broken : BrokenOff (availColumns x width) (glyphs.bytes front ++ cut)
      · refine ⟨1, ?_⟩
        have call := broken.faults
        rw [same, List.cons_append] at call ⊢
        rw [countLoop, if_neg nonzero, call]
      · obtain ⟨stop, pre, rest, rfl, call, bound, progress⟩ :=
          wrapLineEnd_stays (.inr cutOff) broken
        have taken := List.length_pos_iff.2
          (progress first (by rw [same]; exact List.cons_ne_nil _ _))
        have shorter : rest.length < size := by
          rw [← here, List.length_append]
          omega
        obtain ⟨calls, fault⟩ := ih rest.length shorter rest later (n + glyphs.size pre) rfl
        refine ⟨calls + 1, ?_⟩
        have drop : (glyphs.bytes (pre ++ rest) ++ cut ++ [0]).drop (glyphs.size pre) =
            glyphs.bytes rest ++ cut ++ [0] := by
          rw [Script.bytes_append, List.append_assoc, List.append_assoc, List.append_assoc,
            Script.size, List.drop_left]
        rw [same, List.cons_append] at call drop ⊢
        rw [countLoop, if_neg nonzero, call]
        simp only [drop, fault, Scanned.map]

/-- Wrapping stays inside the string: a call of `wrap_line_end` unless the line comes
to a character that the terminator cuts off; `count_rows` if no character is cut off,
and, where every row has room for any character, only then. -/
theorem wrapping_safe_iff (text : CString) (xStart indent width : Int) :
    ((∃ stop next, wrapLineEnd (text.bytes ++ [0]) xStart width = some (stop, next) ∧
        stop ≤ next ∧ next ≤ text.bytes.length) ↔
      ¬ BrokenOff (availColumns xStart width) text.bytes) ∧
    (WholeChars text.bytes →
      ∀ calls, countRows calls (text.bytes ++ [0]) xStart indent width ≠ .fault) ∧
    (2 ≤ width - xStart → 2 ≤ width - indent →
      ((∀ calls, countRows calls (text.bytes ++ [0]) xStart indent width ≠ .fault) ↔
        WholeChars text.bytes)) := by
  have fault : ∀ calls, countRows calls (text.bytes ++ [0]) xStart indent width = .fault ↔
      countLoop indent width calls (text.bytes ++ [0]) 0 xStart = .fault := by
    intro calls
    rw [countRows]
    cases countLoop indent width calls (text.bytes ++ [0]) 0 xStart <;> simp [Scanned.map]
  have whole : WholeChars text.bytes →
      ∀ calls, countRows calls (text.bytes ++ [0]) xStart indent width ≠ .fault := by
    rintro ⟨front, same⟩ calls
    rw [ne_eq, fault, same]
    exact Script.countLoop_ne_fault front calls 0 indent width xStart
  refine ⟨wrapLineEnd_safe_iff text xStart width, whole, fun first later => ⟨?_, whole⟩⟩
  intro safe
  obtain ⟨front, cut, same, rfl | cutOff⟩ := exists_glyphs text.bytes text.nulFree
  · exact ⟨front, same.trans (List.append_nil _)⟩
  · have roomy : ∀ {x : Int}, 2 ≤ width - x → 2 ≤ availColumns x width := by
      intro x room
      rw [availColumns, if_neg (by omega)]
      omega
    obtain ⟨calls, reached⟩ :=
      countLoop_reaches_cut front cutOff (roomy first) (roomy later) 0
    rw [← same, ← fault] at reached
    exact absurd reached (safe calls)

/-- A two-byte character with its second byte cut off. -/
theorem wrapping_cut :
    wrapLineEnd ([0x61, 0xC3] ++ [0]) 0 80 = none ∧
      countRows 1 ([0x61, 0xC3] ++ [0]) 0 0 80 = .fault := by
  decide +kernel

end FreeCli

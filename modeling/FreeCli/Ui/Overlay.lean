import FreeCli.Ui.Main

namespace FreeCli

open Words

/-! `overlay.c`: what the popup shows, and what the keys take from it. -/

/-- The size and the place of the popup on a screen. -/
structure OverlayBox where
  innerW : Int
  boxW : Int
  /-- how many options fit -/
  vis : Int
  boxH : Int
  y0 : Int
  x0 : Int
  deriving DecidableEq, Repr

structure OverlayView where
  sel : Int
  /-- index of the first option shown -/
  scroll : Int
  deriving DecidableEq, Repr

/-- An option as it is printed, from column 2 on. -/
structure OverlayRow where
  row : Int
  text : Bytes
  reverse : Bool
  deriving DecidableEq, Repr

inductive OverlayArrow where
  | up
  | down
  deriving DecidableEq, Repr

structure OverlayHint where
  row : Int
  col : Int
  arrow : OverlayArrow
  deriving DecidableEq, Repr

structure OverlayScreen where
  rows : List OverlayRow
  /-- in the order they are drawn -/
  hints : List OverlayHint
  deriving DecidableEq, Repr

def OverlayScreen.arrowAt (screen : OverlayScreen) (row col : Int) : Option OverlayArrow :=
  (screen.hints.reverse.find? fun hint => hint.row = row ∧ hint.col = col).map OverlayHint.arrow

/-- What a key does: it moves the highlight, or ends with a result. -/
inductive OverlayTurn where
  | moved (sel : Int)
  | ended (result : Int)
  deriving DecidableEq, Repr

namespace Overlay

variable (box : OverlayBox) (options : List Bytes) (current : Int)

/-- The start of the loop -/
def keepInView (view : OverlayView) : OverlayView :=
  let scroll := if view.sel < view.scroll then view.sel else view.scroll
  { view with scroll := if view.sel ≥ scroll + box.vis then view.sel - box.vis + 1 else scroll }

/-- `"%c %-*.*s"` -/
def label (option : Bytes) (mark : Bool) : Bytes :=
  let shown := option.take box.innerW.toNat
  (if mark then 42 else space) :: space ::
    (shown ++ List.replicate (box.innerW.toNat - shown.length) space)

def hints (above below : Bool) : List OverlayHint :=
  (if above then [⟨3, box.boxW - 2, .up⟩] else []) ++
    (if below then [⟨3 + box.vis - 1, box.boxW - 2, .down⟩] else [])

def draw (view : OverlayView) : OverlayScreen :=
  let count : Int := options.length
  { rows := ((List.range box.vis.toNat).takeWhile fun (i : Nat) =>
        view.scroll + i < count).map fun (i : Nat) =>
      let idx := view.scroll + i
      { row := 3 + i, text := label box (options.getD idx.toNat []) (idx = current)
        reverse := idx = view.sel }
    hints := hints box (view.scroll > 0) (view.scroll + box.vis < count) }

def turn (sel : Int) (ch : Nat) : OverlayTurn :=
  let count : Int := options.length
  if ch = Tui.keyUp then .moved (if sel > 0 then sel - 1 else sel)
  else if ch = Tui.keyDown then .moved (if sel < count - 1 then sel + 1 else sel)
  else if ch = Tui.keyPPage then .moved (if sel - box.vis < 0 then 0 else sel - box.vis)
  else if ch = Tui.keyNPage then .moved (if sel + box.vis ≥ count then count - 1 else sel + box.vis)
  else if ch = Tui.newline ∨ ch = Tui.keyEnter then .ended sel
  else if ch = 27 ∨ ch = 'q'.toNat then .ended (-1)
  else .moved sel

/-- The screens shown for the keys, and the result when there is one. -/
def loop : List Nat → OverlayView → List OverlayScreen × Option Int
  | [], view => ([draw box options current (keepInView box view)], none)
  | ch :: keys, view =>
      let view := keepInView box view
      let screen := draw box options current view
      match turn box options view.sel ch with
      | .moved sel =>
          let (screens, result) := loop keys { view with sel }
          (screen :: screens, result)
      | .ended result => ([screen], some result)

end Overlay

namespace Overlay

/-! ### The highlight -/

variable (box : OverlayBox) (options : List Bytes) (current : Int)

/-- The highlighted option is one of those shown, and no row is left empty. -/
structure InView (view : OverlayView) : Prop where
  start : 0 ≤ view.scroll
  before : view.scroll ≤ view.sel
  behind : view.sel < view.scroll + box.vis
  full : view.scroll + box.vis ≤ options.length

/-- The first and the last row tell what is out of view; a single row tells of what is below
before it tells of what is above. -/
structure Hints (screen : OverlayScreen) (above below : Prop) : Prop where
  down : screen.arrowAt (3 + box.vis - 1) (box.boxW - 2) = some .down ↔ below
  up : screen.arrowAt 3 (box.boxW - 2) = some .up ↔ above ∧ ¬(box.vis = 1 ∧ below)
  places : ∀ hint ∈ screen.hints, hint.col = box.boxW - 2 ∧
    (hint.row = 3 ∧ above ∨ hint.row = 3 + box.vis - 1 ∧ below)

/-- The options shown, with the highlight. -/
structure Shows (screen : OverlayScreen) (sel : Nat) : Prop where
  rows : ∃ scroll : Nat, scroll ≤ sel ∧ sel < scroll + box.vis.toNat ∧
    scroll + box.vis.toNat ≤ options.length ∧
    screen.rows = ((options.drop scroll).take box.vis.toNat).mapIdx (fun i option =>
      { row := 3 + i, text := label box option ((scroll + i : Nat) = current)
        reverse := decide (scroll + i = sel) }) ∧
    Hints box screen (0 < scroll) (scroll + box.vis.toNat < options.length)

variable {box options current}

structure Sized (box : OverlayBox) (options : List Bytes) : Prop where
  pos : 1 ≤ box.vis
  le : box.vis ≤ options.length

/-- A view between two turns -/
structure Ready (box : OverlayBox) (options : List Bytes) (view : OverlayView) : Prop where
  sel : 0 ≤ view.sel ∧ view.sel < options.length
  start : 0 ≤ view.scroll
  full : view.scroll + box.vis ≤ options.length

theorem Ready.inView {view : OverlayView} (sized : Sized box options)
    (ready : Ready box options view) : InView box options (keepInView box view) := by
  obtain ⟨⟨low, high⟩, start, full⟩ := ready
  have pos := sized.pos
  rw [keepInView]
  constructor <;> · simp only; split <;> split <;> omega

theorem draw_rows {view : OverlayView} {scroll sel : Nat} (start : view.scroll = scroll)
    (at_ : view.sel = sel) (full : scroll + box.vis.toNat ≤ options.length) :
    (draw box options current view).rows =
      ((options.drop scroll).take box.vis.toNat).mapIdx fun i option =>
        { row := 3 + i, text := label box option ((scroll + i : Nat) = current)
          reverse := decide (scroll + i = sel) } := by
  have whole : (List.range box.vis.toNat).takeWhile
      (fun (i : Nat) => decide (view.scroll + i < (options.length : Int))) =
        List.range box.vis.toNat := by
    rw [List.takeWhile_eq_self_iff]
    intro i inside
    rw [List.mem_range] at inside
    rw [decide_eq_true_eq]
    omega
  rw [draw, whole]
  apply List.ext_getElem
  · simp only [List.length_map, List.length_range, List.length_mapIdx, List.length_take,
      List.length_drop]
    omega
  · intro i shown _
    rw [List.length_map, List.length_range] at shown
    have sum : view.scroll + (i : Int) = ((scroll + i : Nat) : Int) := by omega
    have found : options.getD (scroll + i) [] = options[scroll + i] := by
      rw [List.getD_eq_getElem?_getD, List.getElem?_eq_getElem (by omega), Option.getD_some]
    have same : (((scroll + i : Nat) : Int) = view.sel) = (scroll + i = sel) := by
      rw [at_, Int.ofNat_inj]
    simp only [List.getElem_map, List.getElem_range, List.getElem_mapIdx, List.getElem_take,
      List.getElem_drop, sum, Int.toNat_natCast, found, same]

theorem hints_drawn {screen : OverlayScreen} {above below : Bool}
    (drawn : screen.hints = hints box above below) :
    Hints box screen (above = true) (below = true) := by
  by_cases single : box.vis = 1
  · cases above <;> cases below <;> constructor <;>
      simp [OverlayScreen.arrowAt, drawn, hints, single]
  · have first : ¬(3 + box.vis - 1 = 3) := by omega
    have last : ¬(3 = 3 + box.vis - 1) := by omega
    cases above <;> cases below <;> constructor <;>
      simp [OverlayScreen.arrowAt, drawn, hints, single, first, last]

theorem draw_shows {view : OverlayView} (sized : Sized box options)
    (inView : InView box options view) :
    Shows box options current (draw box options current view) view.sel.toNat := by
  obtain ⟨start, before, behind, full⟩ := inView
  have pos := sized.pos
  refine ⟨view.scroll.toNat, by omega, by omega, by omega, ?_, ?_⟩
  · exact draw_rows (Int.toNat_of_nonneg start).symm (Int.toNat_of_nonneg (by omega)).symm
      (by omega)
  · have hints := @hints_drawn box (draw box options current view) _ _ rfl
    have above : (decide (view.scroll > 0) = true) = (0 < view.scroll.toNat) := by
      rw [decide_eq_true_eq, eq_iff_iff]
      omega
    have below : (decide (view.scroll + box.vis < options.length) = true) =
        (view.scroll.toNat + box.vis.toNat < options.length) := by
      rw [decide_eq_true_eq, eq_iff_iff]
      omega
    rwa [above, below] at hints

theorem Ready.shows {view : OverlayView} (sized : Sized box options)
    (ready : Ready box options view) (current : Int) :
    view.sel.toNat < options.length ∧
      Shows box options current (draw box options current (keepInView box view))
        view.sel.toNat := by
  have inside := ready.sel
  exact ⟨by omega, draw_shows sized (ready.inView sized)⟩

end Overlay

end FreeCli

import FreeCli.Core.Chat
import FreeCli.Core.WrapRows

namespace FreeCli.Chat

open Words WordWrap
open FreeCli.Letter (font script bytes_script size_script)

/-! The rows of the window a message is painted on. -/

set_option maxRecDepth 4000 in
theorem continuation_iff : ∀ c : UInt8, c &&& 0xC0 = 0x80 ↔ 0x80 ≤ c ∧ c < 0xC0 := by
  have table : ∀ n : Fin 256, UInt8.ofNat n.val &&& 0xC0 = 0x80 ↔
      0x80 ≤ UInt8.ofNat n.val ∧ UInt8.ofNat n.val < 0xC0 := by
    decide
  intro c
  have entry := table ⟨c.toNat, c.toNat_lt⟩
  rwa [UInt8.ofNat_toNat] at entry

theorem lead_not_continuation (c : Letter) : ¬ c.glyph.lead &&& 0xC0 = 0x80 := by
  have whole : c.glyph.lead :: c.glyph.tail = String.utf8EncodeChar c.val := c.bytes_glyph
  rw [continuation_iff, UInt8.le_iff_toNat_le, UInt8.lt_iff_toNat_lt]
  rintro ⟨low, high⟩
  have low : 0x80 ≤ c.glyph.lead.toNat := low
  have high : c.glyph.lead.toNat < 0xC0 := high
  rcases Letter.encode_cases c.val with ⟨small, bytes⟩ | ⟨-, lead, tail, bytes, large, -⟩
  · rw [bytes] at whole
    have value : (UInt8.ofNat c.val.val.toNat).toNat = c.val.val.toNat :=
      UInt8.toNat_ofNat_of_lt' (Nat.lt_of_le_of_lt small (by decide))
    rw [(List.cons.inj whole).1, value] at low
    omega
  · rw [bytes] at whole
    rw [(List.cons.inj whole).1] at high
    omega

theorem boundary_byte (pre post : List Letter) :
    ∃ c, (script.bytes (pre ++ post) ++ [0])[script.size pre]? = some c ∧
      ¬ c &&& 0xC0 = 0x80 := by
  rw [Script.bytes_append, List.append_assoc, Script.size, List.getElem?_append_right
    (Nat.le_refl _), Nat.sub_self]
  cases post with
  | nil => exact ⟨0, rfl, by decide⟩
  | cons c post => exact ⟨c.glyph.lead, rfl, lead_not_continuation c⟩

theorem trimSegment_pos {p : Bytes} (len : Nat) {k : Nat} {c : UInt8} (inside : len < p.length)
    (positive : 0 < k) (bound : k ≤ len) (here : p[k]? = some c)
    (boundary : ¬ c &&& 0xC0 = 0x80) : ∃ n, trimSegment p len = some n ∧ 0 < n := by
  induction len with
  | zero => omega
  | succ len ih =>
      rw [trimSegment, List.getElem?_eq_getElem inside]
      simp only
      split
      next continuation =>
        refine ih (by omega) ?_
        rcases Nat.lt_or_eq_of_le bound with less | rfl
        · omega
        · rw [List.getElem?_eq_getElem inside] at here
          rw [Option.some.inj here] at continuation
          contradiction
      next => exact ⟨len + 1, rfl, Nat.succ_pos _⟩

theorem trimSegment_row (row rest : List Letter) :
    ∃ n, trimSegment (script.bytes (row ++ rest) ++ [0])
        (if 4096 ≤ script.size row then 4095 else script.size row) = some n ∧
      (0 < n ↔ row ≠ []) := by
  have room : script.size row < (script.bytes (row ++ rest) ++ [0]).length := by
    rw [List.length_append, Script.bytes_append, List.length_append, List.length_singleton,
      Script.size]
    omega
  cases row with
  | nil => exact ⟨0, rfl, by simp⟩
  | cons first row =>
      have small : utf8Clen first.glyph.lead ≤ 4 := by
        unfold utf8Clen
        split_ifs <;> decide
      have size : script.size (first :: row) =
          utf8Clen first.glyph.lead + script.size row := script.size_cons first row
      split
      next long =>
        obtain ⟨c, here, boundary⟩ : ∃ c,
            (script.bytes (first :: row ++ rest) ++ [0])[script.size [first]]? = some c ∧
              ¬ c &&& 0xC0 = 0x80 := boundary_byte [first] (row ++ rest)
        have one : script.size [first] = utf8Clen first.glyph.lead := by
          rw [Script.size_cons, Script.size_nil, Nat.add_zero]
          rfl
        have positive := utf8Clen_pos first.glyph.lead
        rw [one] at here
        obtain ⟨n, trimmed, some_⟩ :=
          trimSegment_pos 4095 (by omega) positive (by omega) here boundary
        exact ⟨n, trimmed, by simp [some_]⟩
      next short =>
        obtain ⟨c, here, boundary⟩ := boundary_byte (first :: row) rest
        have positive := utf8Clen_pos first.glyph.lead
        obtain ⟨n, trimmed, some_⟩ :=
          trimSegment_pos _ room (by omega) (Nat.le_refl _) here boundary
        exact ⟨n, trimmed, by simp [some_]⟩

def Touches (paints : List Paint) (z : Int) : Prop := ∃ paint ∈ paints, paint.y = z

theorem renderRows_stop {indent width x : Int} {left : Nat} {y : Int} {text : List Letter}
    (ended : left = 0 ∨ text = []) :
    renderRows indent width left y x (script.bytes text ++ [0]) = some ([], 0) := by
  rcases ended with rfl | rfl
  · cases text with
    | nil => rfl
    | cons c text => rfl
  · cases left <;> rfl

/-- `render_wrapped` paints the rows of the text that are not empty, as far as the
window goes. -/
theorem renderRows_rows {text : List Letter} {rows : List (List Letter × List Letter)}
    {indent width x : Int} (left : Nat) (y : Int)
    (laid : font.Rows (availColumns indent width) (availColumns x width) text rows) :
    ∃ paints, renderRows indent width left y x (script.bytes text ++ [0]) =
        some (paints, min left rows.length) ∧
      ∀ z, Touches paints z ↔
        ∃ k row, k < left ∧ rows[k]? = some row ∧ row.1 ≠ [] ∧ z = y + k := by
  generalize start : availColumns x width = first at laid
  induction laid generalizing left y x with
  | done first =>
      refine ⟨[], ?_, fun z => ?_⟩
      · rw [renderRows_stop (.inr rfl)]
        simp
      · simp [Touches]
  | @row first row gap rest rows more breaks after ih =>
      subst start
      cases left with
      | zero =>
          refine ⟨[], ?_, fun z => ?_⟩
          · rw [renderRows_stop (.inl rfl)]
            simp
          · simp [Touches]
      | succ left =>
          obtain ⟨paints, drawn, touches⟩ := ih (x := indent) left (y + 1) rfl
          obtain ⟨lead, bytes, same, nonzero⟩ := script.bytes_ne_nil more
          obtain ⟨len, trimmed, kept⟩ := trimSegment_row row (gap ++ rest)
          have call := script.wrapLineEnd_breaks breaks
          have drop := script.drop_row row gap rest [0]
          rw [same, List.cons_append] at call drop trimmed ⊢
          refine ⟨if 0 < len then ⟨y, x, (lead :: (bytes ++ [0])).take len⟩ :: paints
            else paints, ?_, fun z => ?_⟩
          · rw [renderRows, if_neg nonzero, call]
            simp only [Option.bind_eq_bind, Option.bind_some, trimmed, drop, drawn,
              List.length_cons, Nat.add_min_add_right]
          · have tail : (∃ k line, k < left + 1 ∧ ((row, gap) :: rows)[k]? = some line ∧
                line.1 ≠ [] ∧ z = y + k) ↔ (row ≠ [] ∧ z = y) ∨ Touches paints z := by
              rw [touches]
              constructor
              · rintro ⟨k, line, bound, here, some_, rfl⟩
                cases k with
                | zero =>
                    obtain rfl := Option.some.inj here
                    exact .inl ⟨some_, by simp⟩
                | succ k =>
                    exact .inr ⟨k, line, by omega, here, some_, by omega⟩
              · rintro (⟨some_, rfl⟩ | ⟨k, line, bound, here, some_, rfl⟩)
                · exact ⟨0, (row, gap), by omega, rfl, some_, by simp⟩
                · exact ⟨k + 1, line, by omega, here, some_, by omega⟩
            rw [tail]
            by_cases some_ : row = []
            · rw [if_neg (mt kept.1 (not_not.2 some_))]
              simp [some_]
            · rw [if_pos (kept.2 some_)]
              simp [Touches, some_, eq_comm]

def ValidText (msg : Message) : Prop :=
  ∀ text ∈ msg.text, ∃ chars : List Letter, text = utf8 chars

/-- The rows `wrap_line_end` breaks the text of a message into. -/
def textRows (w : Int) (msg : Message) : List Row :=
  match countLoop (prefixCols msg) w (messageText msg).length (messageText msg) 0
      (prefixCols msg) with
  | .ended rows => rows
  | _ => []

/-- The rows of the window a message asks for. -/
def height (w : Int) (msg : Message) : Nat := max 1 (textRows w msg).length

/-- The last of these rows is not left empty. -/
def PaintsBottom (w : Int) (msg : Message) : Prop :=
  (textRows w msg).length ≤ 1 ∨ ∀ row ∈ (textRows w msg).getLast?, row.start < row.stop

theorem height_pos (w : Int) (msg : Message) : 0 < height w msg :=
  Nat.lt_of_lt_of_le Nat.one_pos (Nat.le_max_left _ _)

theorem prefixCols_room {w : Int} (wide : 13 ≤ w) (msg : Message) :
    2 ≤ w - prefixCols msg := by
  have cols : prefixCols msg ≤ 11 := by
    rw [prefixCols]
    cases msg.isUser <;> decide
  omega

theorem exists_layout {w : Int} {msg : Message} (valid : ValidText msg) (wide : 13 ≤ w) :
    ∃ text rows, messageText msg = script.bytes text ++ [0] ∧
      font.Rows (availColumns (prefixCols msg) w) (availColumns (prefixCols msg) w) text rows ∧
      textRows w msg = script.place 0 rows ∧
      countedRows (messageText msg) (prefixCols msg) (prefixCols msg) w =
        some (height w msg) := by
  obtain ⟨text, same⟩ : ∃ text : List Letter, msg.text.getD [] = script.bytes text := by
    cases known : msg.text with
    | none => exact ⟨[], rfl⟩
    | some text =>
        obtain ⟨chars, rfl⟩ := valid text known
        exact ⟨chars, (bytes_script chars).symm⟩
  have whole : messageText msg = script.bytes text ++ [0] := by rw [messageText, same]
  obtain ⟨rows, laid⟩ := Letter.exists_rows (prefixCols_room wide msg) (prefixCols msg) text
  have enough : rows.length ≤ (script.bytes text ++ [0]).length := by
    have bound := laid.length_le rfl
    have bytes := script.length_le_size text
    rw [List.length_append, List.length_singleton]
    exact Nat.le_trans bound (Nat.le_succ_of_le bytes)
  have placed : textRows w msg = script.place 0 rows := by
    rw [textRows, whole, script.countLoop_rows 0 laid enough]
  refine ⟨text, rows, whole, laid, placed, ?_⟩
  rw [whole, script.countedRows_rows laid, height, placed, Script.length_place]

/-- A message is painted from its first row on, on no more rows than it asks for,
and on the last of them if that row is not empty. -/
theorem renderMessage_rows {h w renderY : Int} {msg : Message} (valid : ValidText msg)
    (wide : 13 ≤ w) (inside : renderY < h) :
    ∃ paints, renderMessage h w renderY msg = some paints ∧
      Touches paints renderY ∧
      (∀ z, Touches paints z → renderY ≤ z ∧ z < renderY + height w msg ∧ z < h) ∧
      (renderY + height w msg ≤ h →
        (Touches paints (renderY + height w msg - 1) ↔ PaintsBottom w msg)) := by
  obtain ⟨text, rows, whole, laid, placed, -⟩ := exists_layout valid wide
  obtain ⟨paints, drawn, touches⟩ := renderRows_rows (h - renderY).toNat renderY laid
  have size : height w msg = max 1 rows.length := by
    rw [height, placed, Script.length_place]
  have touched : ∀ z, Touches (⟨renderY, 0, messagePrefix msg.isUser⟩ :: paints) z ↔
      z = renderY ∨ ∃ k row, k < (h - renderY).toNat ∧ rows[k]? = some row ∧ row.1 ≠ [] ∧
        z = renderY + k := by
    intro z
    rw [← touches]
    simp [Touches, eq_comm]
  refine ⟨_, ?_, (touched renderY).2 (.inl rfl), ?_, ?_⟩
  · rw [renderMessage, renderWrapped, whole, drawn]
    simp only [Option.bind_eq_bind, Option.bind_some, if_pos inside]
  · intro z touch
    rw [size]
    rcases (touched z).1 touch with rfl | ⟨k, row, bound, here, -, rfl⟩
    · omega
    · have short := (List.getElem?_eq_some_iff.1 here).1
      omega
  · intro room
    rw [touched, PaintsBottom, placed, Script.length_place]
    rcases List.eq_nil_or_concat' rows with rfl | ⟨rows, ⟨row, gap⟩, rfl⟩
    · simp [size]
    · have last : (rows ++ [(row, gap)])[rows.length]? = some (row, gap) := by simp
      obtain ⟨start, same⟩ := script.exists_place_concat 0 rows row gap
      have filled : 0 < script.size row ↔ row ≠ [] := by
        rw [size_script]
        exact utf8_pos_iff row
      rw [same, List.getLast?_concat]
      simp only [List.length_append, List.length_singleton, Option.mem_some_iff, forall_eq']
      rw [List.length_append, List.length_singleton] at size
      constructor
      · rintro (first | ⟨k, line, bound, here, some_, bottom⟩)
        · exact .inl (by omega)
        · have position : k = rows.length := by omega
          subst position
          rw [last] at here
          obtain rfl := Option.some.inj here
          have positive := filled.2 some_
          exact .inr (by omega)
      · rintro (short | positive)
        · exact .inl (by omega)
        · exact .inr ⟨rows.length, (row, gap), by omega, last, filled.1 (by omega), by omega⟩

/-! All messages. -/

def shown (msgs : List Message) : Nat → List (Nat × Message)
  | 0 => []
  | i + 1 =>
      match msgs[i]? with
      | none => shown msgs i
      | some msg => if displayable msg then (i, msg) :: shown msgs i else shown msgs i

theorem mem_shown {msgs : List Message} {i k : Nat} {msg : Message} :
    (k, msg) ∈ shown msgs i ↔ k < i ∧ msgs[k]? = some msg ∧ displayable msg = true := by
  induction i with
  | zero => simp [shown]
  | succ i ih =>
      rw [shown]
      cases here : msgs[i]? with
      | none =>
          simp only [ih]
          constructor
          · exact fun ⟨bound, rest⟩ => ⟨Nat.lt_succ_of_lt bound, rest⟩
          · rintro ⟨bound, at_, shows⟩
            refine ⟨Nat.lt_of_le_of_ne (Nat.le_of_lt_succ bound) ?_, at_, shows⟩
            rintro rfl
            rw [here] at at_
            cases at_
      | some other =>
          simp only
          by_cases same : k = i
          · subst same
            rw [here]
            split
            next shows =>
              rw [List.mem_cons, ih]
              constructor
              · rintro (eq | ⟨bound, -⟩)
                · obtain ⟨-, rfl⟩ := Prod.mk.inj eq
                  exact ⟨Nat.lt_succ_self k, rfl, shows⟩
                · exact absurd bound (Nat.lt_irrefl k)
              · rintro ⟨-, eq, -⟩
                exact .inl (by rw [Option.some.inj eq])
            next hidden =>
              rw [ih]
              constructor
              · rintro ⟨bound, -⟩
                exact absurd bound (Nat.lt_irrefl k)
              · rintro ⟨-, eq, shows⟩
                obtain rfl := Option.some.inj eq
                exact absurd shows hidden
          · have less : k < i + 1 ↔ k < i := by omega
            rw [less, ← ih]
            split
            · simp [same]
            · rfl

def renderShown (h w : Int) : List (Nat × Message) → Int → Option (List (Nat × List Paint))
  | [], _ => some []
  | (i, msg) :: older, y =>
      if y < 0 then some []
      else do
        let rows ← countedRows (messageText msg) (prefixCols msg) (prefixCols msg) w
        let y := y - rows
        if y < -1 then some []
        else
          let renderY := if y < 0 then 0 else y
          let paints ← renderMessage h w renderY msg
          let rest ← if y < 0 then some [] else renderShown h w older y
          some ((i, paints) :: rest)

theorem renderShown_above {h w y : Int} (above : y < 0) (list : List (Nat × Message)) :
    renderShown h w list y = some [] := by
  cases list with
  | nil => rfl
  | cons first list => exact if_pos above

theorem renderLoop_shown {msgs : List Message} {h w : Int} {i : Nat} (y : Int)
    (bound : i ≤ msgs.length) :
    renderLoop msgs h w i y = renderShown h w (shown msgs i) y := by
  induction i generalizing y with
  | zero => rfl
  | succ i ih =>
      have here : msgs[i]? = some msgs[i] := List.getElem?_eq_getElem bound
      rw [renderLoop, shown, here]
      simp only [ih _ (Nat.le_of_succ_le bound)]
      by_cases above : y < 0
      · rw [if_pos above, renderShown_above above]
      · rw [if_neg above]
        split
        · rw [renderShown, if_neg above]
        · rfl

/-- No message is painted over or below a later one. -/
def InOrder (painted : List (Nat × List Paint)) : Prop :=
  ∀ i earlier j later, (i, earlier) ∈ painted → (j, later) ∈ painted → i < j →
    ∀ y z, Touches earlier y → Touches later z → y < z

/-- A message with later ones below it would start one row above the window, and its
last row is not empty. -/
def Overlaps (w : Int) (list : List (Nat × Message)) (y : Int) : Prop :=
  ∃ newer i msg older, list = newer ++ (i, msg) :: older ∧ newer ≠ [] ∧
    ((newer.map fun entry => height w entry.2).sum : Int) + height w msg = y + 1 ∧
    PaintsBottom w msg

theorem not_overlaps_nil (w y : Int) : ¬ Overlaps w [] y := by
  rintro ⟨newer, i, msg, older, same, -⟩
  cases newer <;> cases same

theorem overlaps_cons {w y : Int} {i : Nat} {msg : Message} {older : List (Nat × Message)} :
    Overlaps w ((i, msg) :: older) y ↔
      (∃ k next rest, older = (k, next) :: rest ∧
        (height w next : Int) = y - height w msg + 1 ∧ PaintsBottom w next) ∨
      Overlaps w older (y - height w msg) := by
  constructor
  · rintro ⟨newer, k, next, rest, same, some_, sum, bottom⟩
    cases newer with
    | nil => exact absurd rfl some_
    | cons first newer =>
        obtain ⟨rfl, rfl⟩ := List.cons.inj same
        rw [List.map_cons, List.sum_cons] at sum
        cases newer with
        | nil =>
            refine .inl ⟨k, next, rest, rfl, ?_, bottom⟩
            simp only [List.map_nil, List.sum_nil] at sum
            omega
        | cons second newer =>
            exact .inr ⟨second :: newer, k, next, rest, rfl, List.cons_ne_nil _ _,
              by simp only [Int.natCast_add] at sum ⊢; omega, bottom⟩
  · rintro (⟨k, next, rest, rfl, size, bottom⟩ |
      ⟨newer, k, next, rest, rfl, some_, sum, bottom⟩)
    · exact ⟨[(i, msg)], k, next, rest, rfl, List.cons_ne_nil _ _, by simp; omega, bottom⟩
    · exact ⟨(i, msg) :: newer, k, next, rest, rfl, List.cons_ne_nil _ _,
        by rw [List.map_cons, List.sum_cons]; simp only [Int.natCast_add]; omega, bottom⟩

theorem not_overlaps_short {w y : Int} {i : Nat} {msg : Message}
    (older : List (Nat × Message)) (short : y < height w msg) :
    ¬ Overlaps w ((i, msg) :: older) y := by
  rintro ⟨newer, k, next, rest, same, some_, sum, -⟩
  cases newer with
  | nil => exact absurd rfl some_
  | cons first newer =>
      obtain ⟨rfl, rfl⟩ := List.cons.inj same
      have positive := height_pos w next
      rw [List.map_cons, List.sum_cons] at sum
      simp only [Int.natCast_add] at sum
      omega

theorem inOrder_nil : InOrder [] :=
  fun _ _ _ _ member => absurd member List.not_mem_nil

theorem inOrder_cons {i : Nat} {paints : List Paint} {painted : List (Nat × List Paint)}
    (newest : ∀ entry ∈ painted, entry.1 < i) :
    InOrder ((i, paints) :: painted) ↔
      (∀ entry ∈ painted, ∀ y z, Touches entry.2 y → Touches paints z → y < z) ∧
        InOrder painted := by
  constructor
  · intro order
    constructor
    · intro entry member
      exact order entry.1 entry.2 i paints (List.mem_cons_of_mem _ member)
        List.mem_cons_self (newest entry member)
    · intro k earlier j later first second
      exact order k earlier j later (List.mem_cons_of_mem _ first)
        (List.mem_cons_of_mem _ second)
  · rintro ⟨below, order⟩ k earlier j later first second less
    rcases List.mem_cons.1 second with same | newer
    · obtain ⟨rfl, rfl⟩ := Prod.mk.inj same
      rcases List.mem_cons.1 first with same | older
      · obtain ⟨rfl, -⟩ := Prod.mk.inj same
        exact absurd less (Nat.lt_irrefl _)
      · exact below _ older
    · rcases List.mem_cons.1 first with same | older
      · obtain ⟨rfl, -⟩ := Prod.mk.inj same
        exact absurd less (Nat.lt_asymm (newest _ newer))
      · exact order k earlier j later older newer less

/-- What is painted of these messages from row `y` on upwards: every message stays
above the one painted before it, and only one that starts a row above the window can
come down to row `y`. -/
structure Stacked (w : Int) (list : List (Nat × Message)) (y : Int)
    (painted : List (Nat × List Paint)) : Prop where
  sources : ∀ entry ∈ painted, ∃ msg, (entry.1, msg) ∈ list
  limits : ∀ entry ∈ painted, ∀ z, Touches entry.2 z → z ≤ y
  bottom : (∃ entry ∈ painted, Touches entry.2 y) ↔
    ∃ k next rest, list = (k, next) :: rest ∧ (height w next : Int) = y + 1 ∧
      PaintsBottom w next
  order : InOrder painted ↔ ¬ Overlaps w list y

namespace Stacked

variable {h w y : Int} {i : Nat} {msg : Message} {older : List (Nat × Message)}
  {paints : List Paint} {painted : List (Nat × List Paint)}

theorem nil (w y : Int) : Stacked w [] y [] :=
  ⟨by simp, by simp, by simp, by simp [inOrder_nil, not_overlaps_nil]⟩

theorem bottom_cons : (∃ k next rest, (i, msg) :: older = (k, next) :: rest ∧
    (height w next : Int) = y + 1 ∧ PaintsBottom w next) ↔
    (height w msg : Int) = y + 1 ∧ PaintsBottom w msg := by
  constructor
  · rintro ⟨k, next, rest, same, size, paints⟩
    obtain ⟨eq, -⟩ := List.cons.inj same
    obtain ⟨-, rfl⟩ := Prod.mk.inj eq
    exact ⟨size, paints⟩
  · exact fun ⟨size, paints⟩ => ⟨i, msg, older, rfl, size, paints⟩

/-- The message starts more than one row above the window. -/
theorem above (short : y - height w msg < -1) : Stacked w ((i, msg) :: older) y [] := by
  refine ⟨by simp, by simp, ?_, ?_⟩
  · rw [bottom_cons]
    simp only [List.not_mem_nil, false_and, exists_false, false_iff, not_and]
    omega
  · simp [inOrder_nil, not_overlaps_short older (show y < height w msg by omega)]

/-- The message starts one row above the window and is painted from row 0 on. -/
theorem edge (start : y - height w msg = -1)
    (bounds : ∀ z, Touches paints z → 0 ≤ z ∧ z < 0 + (height w msg : Int) ∧ z < h)
    (last : Touches paints (0 + height w msg - 1) ↔ PaintsBottom w msg) :
    Stacked w ((i, msg) :: older) y [(i, paints)] := by
  refine ⟨by simp, ?_, ?_, ?_⟩
  · intro entry member z touched
    obtain rfl := List.mem_singleton.1 member
    have bound := bounds z touched
    omega
  · have row : (0 : Int) + height w msg - 1 = y := by omega
    rw [row] at last
    rw [bottom_cons]
    simp only [List.mem_singleton, exists_eq_left, last]
    constructor
    · exact fun paints => ⟨by omega, paints⟩
    · exact fun paints => paints.2
  · have order : InOrder [(i, paints)] := (inOrder_cons (by simp)).2 ⟨by simp, inOrder_nil⟩
    simp [order, not_overlaps_short older (show y < height w msg by omega)]

/-- The message starts inside the window, and the older ones are above it. -/
theorem cons (inside : 0 ≤ y - height w msg)
    (newest : ((i, msg) :: older).Pairwise fun first second => second.1 < first.1)
    (top : Touches paints (y - height w msg))
    (bounds : ∀ z, Touches paints z →
      y - height w msg ≤ z ∧ z < y - height w msg + (height w msg : Int) ∧ z < h)
    (rest : Stacked w older (y - height w msg) painted) :
    Stacked w ((i, msg) :: older) y ((i, paints) :: painted) := by
  have positive := height_pos w msg
  refine ⟨?_, ?_, ?_, ?_⟩
  · intro entry member
    rcases List.mem_cons.1 member with rfl | member
    · exact ⟨msg, List.mem_cons_self⟩
    · obtain ⟨other, source⟩ := rest.sources entry member
      exact ⟨other, List.mem_cons_of_mem _ source⟩
  · intro entry member z touched
    rcases List.mem_cons.1 member with rfl | member
    · have bound := bounds z touched
      omega
    · have bound := rest.limits entry member z touched
      omega
  · rw [bottom_cons]
    constructor
    · rintro ⟨entry, member, touched⟩
      rcases List.mem_cons.1 member with rfl | member
      · have bound := bounds y touched
        omega
      · have bound := rest.limits entry member y touched
        omega
    · rintro ⟨size, -⟩
      omega
  · have least : ∀ entry ∈ painted, entry.1 < i := by
      intro entry member
      obtain ⟨other, source⟩ := rest.sources entry member
      exact List.rel_of_pairwise_cons newest source
    rw [inOrder_cons least, rest.order, overlaps_cons, not_or]
    refine and_congr_left fun _ => ?_
    rw [← rest.bottom]
    constructor
    · rintro apart ⟨entry, member, touched⟩
      exact absurd (apart entry member _ _ touched top) (Int.lt_irrefl _)
    · intro apart entry member a b first second
      have limit := rest.limits entry member a first
      have bound := bounds b second
      have differs : a ≠ y - height w msg := by
        rintro rfl
        exact apart ⟨entry, member, first⟩
      omega

end Stacked

theorem renderShown_spec {h w : Int} (wide : 13 ≤ w) (list : List (Nat × Message))
    (valid : ∀ entry ∈ list, ValidText entry.2)
    (newest : list.Pairwise fun first second => second.1 < first.1)
    {y : Int} (inside : 0 ≤ y) (room : y < h) :
    ∃ painted, renderShown h w list y = some painted ∧ Stacked w list y painted := by
  induction list generalizing y with
  | nil => exact ⟨[], rfl, .nil w y⟩
  | cons first older ih =>
      obtain ⟨i, msg⟩ := first
      have fine : ValidText msg := valid (i, msg) List.mem_cons_self
      obtain ⟨-, -, -, -, -, counted⟩ := exists_layout fine wide
      have positive := height_pos w msg
      rw [renderShown, if_neg (Int.not_lt.2 inside), counted]
      simp only [Option.bind_eq_bind, Option.bind_some]
      rcases Int.lt_trichotomy (y - height w msg) (-1) with above | edge | below
      · rw [if_pos above]
        exact ⟨[], rfl, .above above⟩
      · obtain ⟨paints, drawn, top, bounds, touch⟩ := renderMessage_rows (h := h)
          fine wide (show (0 : Int) < h by omega)
        rw [if_neg (by omega), if_pos (by omega), drawn]
        refine ⟨[(i, paints)], ?_, .edge edge bounds (touch (by omega))⟩
        simp only [Option.bind_some, if_pos (show y - height w msg < 0 by omega)]
      · obtain ⟨paints, drawn, top, bounds, -⟩ := renderMessage_rows (h := h)
          fine wide (show y - height w msg < h by omega)
        obtain ⟨rest, later, stacked⟩ := ih
          (fun entry member => valid entry (List.mem_cons_of_mem _ member))
          (List.Pairwise.of_cons newest) (show 0 ≤ y - height w msg by omega) (by omega)
        rw [if_neg (by omega), if_neg (by omega), drawn]
        refine ⟨(i, paints) :: rest, ?_, .cons (by omega) newest top bounds stacked⟩
        simp only [Option.bind_some, if_neg (show ¬ y - height w msg < 0 by omega), later]

theorem shown_newest (msgs : List Message) (i : Nat) :
    (shown msgs i).Pairwise fun first second => second.1 < first.1 := by
  induction i with
  | zero => exact List.Pairwise.nil
  | succ i ih =>
      rw [shown]
      split
      · exact ih
      · split
        · exact List.pairwise_cons.2 ⟨fun entry member => (mem_shown.1 member).1, ih⟩
        · exact ih

theorem shown_valid {cb : ChatBuffer} (valid : ∀ msg ∈ cb.msgs, ValidText msg) (i : Nat) :
    ∀ entry ∈ shown cb.msgs i, ValidText entry.2 := by
  rintro ⟨k, msg⟩ member
  exact valid msg (List.mem_of_getElem? (mem_shown.1 member).2.1)

theorem chatRender_shown {cb : ChatBuffer} (h w : Int) (scrolled : 0 ≤ cb.scroll) :
    chatRender cb h w =
      renderShown h w (shown cb.msgs (cb.count - cb.scroll).toNat) (h - 1) := by
  apply renderLoop_shown
  rw [ChatBuffer.count]
  omega

/-- Messages are painted one below the other, in their order, except where one that
starts a row above the window is painted from row 0 on and its last row meets the
first row of the next message. -/
theorem chatRender_inOrder_iff (cb : ChatBuffer) (h w : Int)
    (valid : ∀ msg ∈ cb.msgs, ValidText msg)
    (scrolled : 0 ≤ cb.scroll ∧ cb.scroll ≤ cb.count) (high : 2 ≤ h) (wide : 13 ≤ w) :
    ∃ painted, chatRender cb h w = some painted ∧
      (InOrder painted ↔
        ¬ Overlaps w (shown cb.msgs (cb.count - cb.scroll).toNat) (h - 1)) := by
  obtain ⟨painted, drawn, stacked⟩ := renderShown_spec (h := h) wide
    (shown cb.msgs (cb.count - cb.scroll).toNat) (shown_valid valid _) (shown_newest _ _)
    (show 0 ≤ h - 1 by omega) (by omega)
  exact ⟨painted, (chatRender_shown h w scrolled.1).trans drawn, stacked.order⟩

theorem not_overlaps_of_room {w y : Int} {list : List (Nat × Message)}
    (room : ((list.map fun entry => height w entry.2).sum : Int) ≤ y) :
    ¬ Overlaps w list y := by
  rintro ⟨newer, i, msg, older, rfl, -, sum, -⟩
  rw [List.map_append, List.map_cons, List.sum_append, List.sum_cons] at room
  simp only [Int.natCast_add] at room sum
  omega

def plain (text : String) (isUser : Bool) : Message :=
  ⟨some (ascii text), isUser, 0, none⟩

theorem plain_valid {text : String} {isUser : Bool}
    (legal : ascii text = utf8 (letters text)) : ValidText (plain text isUser) := by
  intro other same
  obtain rfl := Option.some.inj same
  exact ⟨letters text, legal⟩

theorem plain_two : ∀ msg ∈ [plain "hi" true, plain "hello" false], ValidText msg := by
  intro msg member
  rcases List.mem_cons.1 member with rfl | member
  · exact plain_valid (by decide)
  · obtain rfl := List.mem_singleton.1 member
    exact plain_valid (by decide)

theorem plain_heights : height 40 (plain "hi" true) = 1 ∧ height 40 (plain "hello" false) = 1 ∧
    height 40 (plain "a\nb\nc\nd" false) = 4 := by
  decide +kernel

theorem chatRender_inOrder_two :
    ∃ painted,
      chatRender ⟨[plain "hi" true, plain "hello" false], 0⟩ 10 40 = some painted ∧
      InOrder painted := by
  obtain ⟨painted, drawn, order⟩ :=
    chatRender_inOrder_iff ⟨[plain "hi" true, plain "hello" false], 0⟩ 10 40 plain_two
      (by decide) (by decide) (by decide)
  have two : shown [plain "hi" true, plain "hello" false] 2 =
      [(1, plain "hello" false), (0, plain "hi" true)] := rfl
  refine ⟨painted, drawn, order.2 (not_overlaps_of_room ?_)⟩
  obtain ⟨first, second, -⟩ := plain_heights
  simp only [ChatBuffer.count, List.length_cons, List.length_nil]
  rw [show (((0 + 1 + 1 : Nat) : Int) - 0).toNat = 2 from rfl, two]
  simp only [List.map_cons, List.map_nil, List.sum_cons, List.sum_nil, first, second]
  decide

/-- Three messages of one row in a window of three: the oldest is painted over the
one after it. -/
theorem chatRender_painted_over :
    ∃ painted,
      chatRender ⟨[plain "one" true, plain "two" true, plain "three" true], 0⟩ 3 40 =
        some painted ∧
      ¬ InOrder painted := by
  refine ⟨[(2, [⟨1, 0, ascii "You: "⟩, ⟨1, 5, ascii "three"⟩]),
    (1, [⟨0, 0, ascii "You: "⟩, ⟨0, 5, ascii "two"⟩]),
    (0, [⟨0, 0, ascii "You: "⟩, ⟨0, 5, ascii "one"⟩])], by decide +kernel, fun order => ?_⟩
  have below := order 0 _ 1 _ (.tail _ (.tail _ (.head _))) (.tail _ (.head _)) (by decide)
  exact absurd (below 0 0 ⟨_, List.mem_cons_self, rfl⟩ ⟨_, List.mem_cons_self, rfl⟩) (by decide)

/-! Scrolling a message into view. -/

/-- Something of message `i` is painted inside the window. -/
def InView (cb : ChatBuffer) (h w : Int) (i : Nat) : Prop :=
  ∃ painted paints, chatRender cb h w = some painted ∧ (i, paints) ∈ painted ∧
    ∃ z, 0 ≤ z ∧ z < h ∧ Touches paints z

theorem renderShown_fits {h w : Int} (wide : 13 ≤ w) {list : List (Nat × Message)}
    (valid : ∀ entry ∈ list, ValidText entry.2) {y : Int}
    {painted : List (Nat × List Paint)} (drawn : renderShown h w list y = some painted) :
    ∀ entry ∈ painted, ∃ msg, (entry.1, msg) ∈ list ∧ (height w msg : Int) ≤ y + 1 := by
  induction list generalizing y painted with
  | nil =>
      cases drawn
      exact fun entry member => absurd member List.not_mem_nil
  | cons first older ih =>
      obtain ⟨i, msg⟩ := first
      have fine : ValidText msg := valid (i, msg) List.mem_cons_self
      obtain ⟨-, -, -, -, -, counted⟩ := exists_layout fine wide
      rw [renderShown] at drawn
      split at drawn
      next =>
        cases drawn
        exact fun entry member => absurd member List.not_mem_nil
      next =>
        rw [counted] at drawn
        simp only [Option.bind_eq_bind, Option.bind_some] at drawn
        split at drawn
        next =>
          cases drawn
          exact fun entry member => absurd member List.not_mem_nil
        next fits =>
          obtain ⟨paints, -, drawn⟩ := Option.bind_eq_some_iff.1 drawn
          split at drawn
          next =>
            cases drawn
            intro entry member
            obtain rfl := List.mem_singleton.1 member
            exact ⟨msg, List.mem_cons_self, by omega⟩
          next =>
            obtain ⟨rest, later, drawn⟩ := Option.bind_eq_some_iff.1 drawn
            cases drawn
            intro entry member
            rcases List.mem_cons.1 member with rfl | member
            · exact ⟨msg, List.mem_cons_self, by omega⟩
            · obtain ⟨other, source, bound⟩ := ih
                (fun entry member => valid entry (List.mem_cons_of_mem _ member)) later
                entry member
              exact ⟨other, List.mem_cons_of_mem _ source, by omega⟩

/-- The newest of the messages is painted if it fits into the window. -/
theorem renderShown_newest {h w : Int} (wide : 13 ≤ w) {i : Nat} {msg : Message}
    {older : List (Nat × Message)} (valid : ∀ entry ∈ (i, msg) :: older, ValidText entry.2)
    (newest : ((i, msg) :: older).Pairwise fun first second => second.1 < first.1)
    (high : 1 ≤ h) (fits : (height w msg : Int) ≤ h) :
    ∃ painted paints, renderShown h w ((i, msg) :: older) (h - 1) = some painted ∧
      (i, paints) ∈ painted ∧ ∃ z, 0 ≤ z ∧ z < h ∧ Touches paints z := by
  have fine : ValidText msg := valid (i, msg) List.mem_cons_self
  have positive := height_pos w msg
  obtain ⟨-, -, -, -, -, counted⟩ := exists_layout fine wide
  rw [renderShown, if_neg (by omega), counted]
  simp only [Option.bind_eq_bind, Option.bind_some]
  rw [if_neg (by omega)]
  rcases Int.lt_or_le (h - 1 - height w msg) 0 with edge | below
  · obtain ⟨paints, drawn, top, -⟩ := renderMessage_rows (h := h) fine wide
      (show (0 : Int) < h by omega)
    rw [if_pos edge, drawn]
    refine ⟨[(i, paints)], paints, ?_, List.mem_cons_self, 0, by omega, by omega, top⟩
    simp only [Option.bind_some, if_pos edge]
  · obtain ⟨paints, drawn, top, -⟩ := renderMessage_rows (h := h) fine wide
      (show h - 1 - height w msg < h by omega)
    obtain ⟨rest, later, -⟩ := renderShown_spec (h := h) wide older
      (fun entry member => valid entry (List.mem_cons_of_mem _ member))
      (List.Pairwise.of_cons newest) below (by omega)
    rw [if_neg (Int.not_lt.2 below), drawn]
    refine ⟨(i, paints) :: rest, paints, ?_, List.mem_cons_self, h - 1 - height w msg,
      below, by omega, top⟩
    simp only [Option.bind_some, if_neg (Int.not_lt.2 below), later]

/-- A message taller than the window is in view at no scroll value. -/
theorem InView.fits {cb : ChatBuffer} {h w : Int} {i : Nat} {msg : Message}
    (view : InView cb h w i) (valid : ∀ msg ∈ cb.msgs, ValidText msg)
    (scrolled : 0 ≤ cb.scroll) (wide : 13 ≤ w) (here : cb.msgs[i]? = some msg) :
    (height w msg : Int) ≤ h := by
  obtain ⟨painted, paints, drawn, member, -⟩ := view
  rw [chatRender_shown h w scrolled] at drawn
  obtain ⟨other, source, bound⟩ :=
    renderShown_fits wide (shown_valid valid _) drawn _ member
  have same : cb.msgs[i]? = some other := (mem_shown.1 source).2.1
  rw [here] at same
  rw [Option.some.inj same]
  omega

theorem inView_of_shown {cb : ChatBuffer} {h w : Int} {i : Nat} {msg : Message}
    {older : List (Nat × Message)} (valid : ∀ msg ∈ cb.msgs, ValidText msg)
    (scrolled : 0 ≤ cb.scroll) (high : 2 ≤ h) (wide : 13 ≤ w)
    (first : shown cb.msgs (cb.count - cb.scroll).toNat = (i, msg) :: older)
    (fits : (height w msg : Int) ≤ h) : InView cb h w i := by
  have all := shown_valid valid (cb.count - cb.scroll).toNat
  have order := shown_newest cb.msgs (cb.count - cb.scroll).toNat
  rw [first] at all order
  obtain ⟨painted, paints, drawn, member, touched⟩ :=
    renderShown_newest wide all order (by omega) fits
  refine ⟨painted, paints, ?_, member, touched⟩
  rw [chatRender_shown h w scrolled, first, drawn]

theorem shown_last {msgs : List Message} {i : Nat} {msg : Message}
    (here : msgs[i]? = some msg) (shows : displayable msg = true) {n : Nat} (bound : i < n)
    (last : ∀ j later, i < j → msgs[j]? = some later → displayable later = false) :
    shown msgs n = (i, msg) :: shown msgs i := by
  induction n with
  | zero => cases bound
  | succ n ih =>
      rw [shown]
      rcases Nat.lt_or_eq_of_le (Nat.le_of_lt_succ bound) with before | rfl
      · cases later : msgs[n]? with
        | none => exact ih before
        | some other =>
            simp only [last n other before later]
            exact ih before
      · rw [here]
        exact if_pos shows

theorem chatScroll_to {cb : ChatBuffer} {scroll : Int} (low : 0 ≤ scroll)
    (high : scroll ≤ cb.count) :
    chatScroll cb (scroll - cb.scroll) = { cb with scroll } := by
  have sum : cb.scroll + (scroll - cb.scroll) = scroll := by omega
  simp only [chatScroll, sum, if_neg (Int.not_lt.2 low), if_neg (Int.not_lt.2 high)]

theorem chatScroll_nonneg (cb : ChatBuffer) (delta : Int) :
    0 ≤ (chatScroll cb delta).scroll := by
  have count : 0 ≤ cb.count := Int.natCast_nonneg _
  simp only [chatScroll]
  split_ifs <;> omega

/-- A message can be scrolled into view exactly if it is no taller than the window;
the newest one is in view without scrolling under the same condition. -/
theorem chatRender_inView_iff (cb : ChatBuffer) (h w : Int)
    (valid : ∀ msg ∈ cb.msgs, ValidText msg) (high : 2 ≤ h) (wide : 13 ≤ w)
    (i : Nat) (msg : Message) (here : cb.msgs[i]? = some msg)
    (shows : displayable msg = true) :
    ((∃ delta, InView (chatScroll cb delta) h w i) ↔ (height w msg : Int) ≤ h) ∧
    ((∀ j later, i < j → cb.msgs[j]? = some later → displayable later = false) →
      (InView { cb with scroll := 0 } h w i ↔ (height w msg : Int) ≤ h)) := by
  have bound : i < cb.msgs.length := (List.getElem?_eq_some_iff.1 here).1
  constructor
  · constructor
    · rintro ⟨delta, view⟩
      exact view.fits valid (chatScroll_nonneg cb delta) wide here
    · intro fits
      have top : (cb.count - (cb.count - (i + 1))).toNat = i + 1 := by omega
      refine ⟨cb.count - (i + 1) - cb.scroll, ?_⟩
      rw [chatScroll_to (by rw [ChatBuffer.count]; omega) (by omega)]
      have first : shown cb.msgs (cb.count - (cb.count - (i + 1))).toNat =
          (i, msg) :: shown cb.msgs i := by
        rw [top, shown, here]
        exact if_pos shows
      refine inView_of_shown valid ?_ high wide first fits
      simp only [ChatBuffer.count]
      omega
  · intro last
    constructor
    · exact fun view => view.fits valid (Int.le_refl 0) wide here
    · intro fits
      have all : i < (cb.count - 0).toNat := by
        rw [ChatBuffer.count]
        omega
      exact inView_of_shown valid (Int.le_refl 0) high wide (shown_last here shows all last) fits

theorem chatRender_inView_two :
    (∃ delta, InView (chatScroll ⟨[plain "hi" true, plain "hello" false], 0⟩ delta) 2 40 0) ∧
      InView ⟨[plain "hi" true, plain "hello" false], 0⟩ 2 40 1 := by
  obtain ⟨first, second, -⟩ := plain_heights
  refine ⟨?_, ?_⟩
  · refine (chatRender_inView_iff ⟨_, 0⟩ 2 40 plain_two (by decide) (by decide) 0 _ rfl rfl).1.2
      ?_
    rw [first]
    decide
  · refine ((chatRender_inView_iff ⟨_, 0⟩ 2 40 plain_two (by decide) (by decide) 1 _ rfl
      rfl).2 ?_).2 (by rw [second]; decide)
    intro j later less at_
    have bound := (List.getElem?_eq_some_iff.1 at_).1
    simp only [List.length_cons, List.length_nil] at bound
    omega

/-- An answer of four lines in a window of three rows is painted at no scroll
value. -/
theorem chatRender_too_tall :
    ¬ (∃ delta, InView (chatScroll ⟨[plain "a\nb\nc\nd" false], 0⟩ delta) 3 40 0) ∧
      ¬ InView ⟨[plain "a\nb\nc\nd" false], 0⟩ 3 40 0 := by
  have valid : ∀ msg ∈ [plain "a\nb\nc\nd" false], ValidText msg := by
    intro msg member
    obtain rfl := List.mem_singleton.1 member
    exact plain_valid (by decide)
  have tall : ¬ (height 40 (plain "a\nb\nc\nd" false) : Int) ≤ 3 := by
    rw [plain_heights.2.2]
    decide
  constructor
  · rintro ⟨delta, view⟩
    exact tall (view.fits valid (chatScroll_nonneg _ delta) (by decide) rfl)
  · intro view
    exact tall (view.fits valid (by decide) (by decide) rfl)

end FreeCli.Chat

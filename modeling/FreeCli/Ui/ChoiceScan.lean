import FreeCli.Ui.DetectChoices

namespace FreeCli

open Words

/-! `detect_choices` stays in the text and finds options that are there. -/

/-- A string with its terminator. -/
inductive Memory : Bytes → Prop
  | last : Memory [0]
  | cons {c : UInt8} {rest : Bytes} (nonzero : c ≠ 0) (memory : Memory rest) :
      Memory (c :: rest)

namespace Memory

variable {p : Bytes}

theorem of_nulFree {text : Bytes} (nulFree : (0 : UInt8) ∉ text) : Memory (text ++ [0]) := by
  induction text with
  | nil => exact .last
  | cons c text ih =>
      exact .cons (fun zero => nulFree (zero ▸ List.mem_cons_self))
        (ih fun member => nulFree (List.mem_cons_of_mem _ member))

theorem length_pos (memory : Memory p) : 0 < p.length := by
  cases memory <;> exact Nat.succ_pos _

theorem drop {k : Nat} (memory : Memory p) (inside : k < p.length) : Memory (p.drop k) := by
  induction memory generalizing k with
  | last =>
      obtain rfl : k = 0 := by simpa using inside
      exact .last
  | cons nonzero memory ih =>
      cases k with
      | zero => exact .cons nonzero memory
      | succ k => exact ih (Nat.lt_of_succ_lt_succ inside)

theorem next {k : Nat} {c : UInt8} (memory : Memory p) (here : p[k]? = some c)
    (nonzero : c ≠ 0) : k + 1 < p.length := by
  induction memory generalizing k with
  | last =>
      cases k with
      | zero => exact absurd (Option.some.inj here).symm nonzero
      | succ k => cases here
  | cons _ memory ih =>
      cases k with
      | zero => exact Nat.succ_lt_succ memory.length_pos
      | succ k => exact Nat.succ_lt_succ (ih here)

end Memory

theorem getElem?_inside {p : Bytes} {k : Nat} (inside : k < p.length) :
    ∃ c, p[k]? = some c := ⟨p[k], List.getElem?_eq_getElem inside⟩

theorem skipWhile_inside {f : UInt8 → Bool} (stops : f 0 = false) {p : Bytes}
    (memory : Memory p) :
    ∃ k c, skipWhile f p = some k ∧ p[k]? = some c ∧ f c = false := by
  induction memory with
  | last => exact ⟨0, 0, by simp [skipWhile, stops], rfl, stops⟩
  | @cons c rest nonzero memory ih =>
      cases kind : f c with
      | false => exact ⟨0, c, by simp [skipWhile, kind], rfl, kind⟩
      | true =>
          obtain ⟨k, next, skipped, here, stop⟩ := ih
          exact ⟨k + 1, next, by simp [skipWhile, kind, skipped], here, stop⟩

theorem inside_of_getElem? {p : Bytes} {k : Nat} {c : UInt8} (here : p[k]? = some c) :
    k < p.length := (List.getElem?_eq_some_iff.1 here).1

theorem readNumber_inside {p : Bytes} (memory : Memory p) (num : UInt32) :
    ∃ value k, readNumber p num = some (value, k) ∧ k < p.length := by
  induction memory generalizing num with
  | last => exact ⟨num, 0, rfl, Nat.one_pos⟩
  | @cons c rest nonzero memory ih =>
      cases kind : digitByte c with
      | false => exact ⟨num, 0, by simp [readNumber, kind], Nat.succ_pos _⟩
      | true =>
          obtain ⟨value, k, read, inside⟩ := ih (num * 10 + (c - 0x30).toUInt32)
          exact ⟨value, k + 1, by rw [readNumber, if_pos kind, read]; rfl, Nat.succ_lt_succ inside⟩

theorem markByte_ne {c : UInt8} (mark : markByte c = true) : c ≠ 0 := by
  rintro rfl
  cases mark

theorem blankByte_ne {c : UInt8} (blank : blankByte c = true) : c ≠ 0 := by
  rintro rfl
  cases blank

/-- Where an item starts: inside the text, behind `p`, and at no space. -/
def ItemAt (p : Bytes) (start : Nat) : Prop :=
  0 < start ∧ ∃ c, p[start]? = some c ∧ c ≠ 0x20

theorem spaces_inside {p : Bytes} (memory : Memory p) {k : Nat} (inside : k < p.length)
    (positive : 0 < k) :
    ∃ spaces, skipWhile (· == 0x20) (p.drop k) = some spaces ∧ ItemAt p (k + spaces) := by
  obtain ⟨spaces, c, skipped, here, stop⟩ :=
    skipWhile_inside (f := (· == 0x20)) rfl (memory.drop inside)
  rw [List.getElem?_drop] at here
  exact ⟨spaces, skipped, by omega, c, here, by simpa using stop⟩

theorem numberBullet_inside {p : Bytes} (memory : Memory p) (expected : Nat) :
    ∃ item, numberBullet expected p = some item ∧ ∀ start ∈ item, ItemAt p start := by
  obtain ⟨num, q, read, inside⟩ := readNumber_inside memory 0
  obtain ⟨mark, here⟩ := getElem?_inside inside
  simp only [numberBullet, read, Option.bind_eq_bind, Option.bind_some, here]
  split
  next =>
    split
    next marked =>
      have second := memory.next here (markByte_ne marked)
      obtain ⟨blank, there⟩ := getElem?_inside second
      simp only [there, Option.bind_some]
      split
      next spaced =>
        have third := memory.next there (blankByte_ne spaced)
        obtain ⟨spaces, skipped, item⟩ := spaces_inside memory third (Nat.succ_pos _)
        simp only [skipped, Option.bind_some]
        exact ⟨_, rfl, fun start same => Option.some.inj same ▸ item⟩
      next => exact ⟨none, rfl, fun _ none_ => by cases none_⟩
    next => exact ⟨none, rfl, fun _ none_ => by cases none_⟩
  next => exact ⟨none, rfl, fun _ none_ => by cases none_⟩

theorem want_ne : ∀ expected : Nat, expected ≤ 9 →
    (0x41 + UInt8.ofNat expected : UInt8) ≠ 0 ∧
      (0x41 + UInt8.ofNat expected : UInt8) + 32 ≠ 0 := by
  decide

theorem letter_ne {expected : Nat} (small : expected ≤ 9) {letter : UInt8}
    (wanted : letter = 0x41 + UInt8.ofNat expected ∨
      letter = 0x41 + UInt8.ofNat expected + 32) : letter ≠ 0 := by
  rcases wanted with rfl | rfl
  · exact (want_ne expected small).1
  · exact (want_ne expected small).2

theorem letterBullet_inside {p : Bytes} (memory : Memory p) {expected : Nat}
    (small : expected ≤ 9) :
    ∃ item, letterBullet expected p = some item ∧ ∀ start ∈ item, ItemAt p start := by
  obtain ⟨letter, first⟩ := getElem?_inside memory.length_pos
  simp only [letterBullet, first, Option.bind_eq_bind, Option.bind_some]
  split
  next wanted =>
    have inside := memory.next first (letter_ne small wanted)
    obtain ⟨mark, here⟩ := getElem?_inside inside
    simp only [Nat.zero_add] at here
    simp only [here, Option.bind_some]
    split
    next marked =>
      have second := memory.next here (markByte_ne marked)
      obtain ⟨blank, there⟩ := getElem?_inside second
      simp only [Nat.reduceAdd] at there
      simp only [there, Option.bind_some]
      split
      next spaced =>
        have third := memory.next there (blankByte_ne spaced)
        obtain ⟨spaces, skipped, item⟩ := spaces_inside memory third (Nat.succ_pos _)
        simp only [Nat.reduceAdd] at skipped item
        simp only [skipped, Option.bind_some]
        exact ⟨_, rfl, fun start same => Option.some.inj same ▸ item⟩
      next => exact ⟨none, rfl, fun _ none_ => by cases none_⟩
    next => exact ⟨none, rfl, fun _ none_ => by cases none_⟩
  next => exact ⟨none, rfl, fun _ none_ => by cases none_⟩

theorem matchLine_inside {p : Bytes} (memory : Memory p) (useLetters : Bool) {expected : Nat}
    (small : expected ≤ 9) :
    ∃ item, matchLine useLetters expected p = some item ∧ ∀ start ∈ item, ItemAt p start := by
  obtain ⟨returns, c, skipped, here, -⟩ :=
    skipWhile_inside (f := (· == 0x0D)) rfl memory
  have first := inside_of_getElem? here
  obtain ⟨spaces, next, spaced, there, -⟩ :=
    skipWhile_inside (f := blankByte) rfl (memory.drop first)
  rw [List.getElem?_drop] at there
  have second := inside_of_getElem? there
  have bullet : ∃ item,
      (if useLetters then letterBullet expected (p.drop (returns + spaces))
        else numberBullet expected (p.drop (returns + spaces))) = some item ∧
      ∀ start ∈ item, ItemAt (p.drop (returns + spaces)) start := by
    cases useLetters with
    | true => exact letterBullet_inside (memory.drop second) small
    | false => exact numberBullet_inside (memory.drop second) expected
  obtain ⟨item, found, starts⟩ := bullet
  refine ⟨item.map (returns + spaces + ·), ?_, ?_⟩
  · simp only [matchLine, skipped, spaced, Option.bind_eq_bind, Option.bind_some]
    cases useLetters <;> simp_all
  · intro start same
    obtain ⟨offset, from_, rfl⟩ := Option.map_eq_some_iff.1 same
    obtain ⟨positive, c, at_, space⟩ := starts offset from_
    rw [List.getElem?_drop] at at_
    exact ⟨by omega, c, at_, space⟩

theorem endsItem_inside {p : Bytes} (memory : Memory p) (useLetters : Bool) {expected : Nat}
    (small : expected ≤ 8) : ∃ ended, endsItem useLetters expected p = some ended := by
  obtain ⟨spaces, first, skipped, here, -⟩ := skipWhile_inside (f := blankByte) rfl memory
  have rest := memory.drop (inside_of_getElem? here)
  have zero : (p.drop spaces)[0]? = some first := by
    rw [List.getElem?_drop, Nat.add_zero]
    exact here
  simp only [endsItem, skipped, zero, Option.bind_eq_bind, Option.bind_some]
  split
  next => exact ⟨true, rfl⟩
  next =>
    cases useLetters with
    | true =>
        simp only [if_true, letterNext, zero, Option.bind_eq_bind, Option.bind_some]
        split
        next wanted =>
          have second := rest.next zero (letter_ne (Nat.succ_le_succ small) wanted)
          obtain ⟨mark, there⟩ := getElem?_inside second
          simp only [Nat.zero_add] at there
          exact ⟨markByte mark, by simp only [there, Option.bind_some]⟩
        next => exact ⟨false, rfl⟩
    | false =>
        obtain ⟨num, q, read, inside⟩ := readNumber_inside rest 0
        obtain ⟨mark, there⟩ := getElem?_inside inside
        simp only [Bool.false_eq_true, if_false, numberNext, read, there, Option.bind_eq_bind,
          Option.bind_some]
        split
        next => exact ⟨markByte mark, rfl⟩
        next => exact ⟨false, rfl⟩

theorem itemLength_inside {p : Bytes} (memory : Memory p) (useLetters : Bool)
    {expected : Nat} (small : expected ≤ 8) :
    ∃ stop, itemLength useLetters expected p = some stop ∧ stop < p.length := by
  induction memory with
  | last => exact ⟨0, rfl, Nat.one_pos⟩
  | @cons c rest nonzero memory ih =>
      obtain ⟨stop, read, inside⟩ := ih
      rw [itemLength, if_neg nonzero]
      split
      next =>
        obtain ⟨ended, known⟩ := endsItem_inside memory useLetters small
        simp only [known, Option.bind_eq_bind, Option.bind_some]
        cases ended with
        | true => exact ⟨0, rfl, Nat.succ_pos _⟩
        | false => exact ⟨stop + 1, by simp [read], Nat.succ_lt_succ inside⟩
      next => exact ⟨stop + 1, by simp [read], Nat.succ_lt_succ inside⟩

theorem trimItem_inside {item : Bytes} {len : Nat} (inside : len ≤ item.length) :
    ∃ kept, trimItem item len = some kept ∧ kept ≤ len ∧
      (0 < kept → ∃ c, item[kept - 1]? = some c ∧ c ≠ 0x0A ∧ c ≠ 0x20 ∧ c ≠ 0x0D) := by
  induction len with
  | zero => exact ⟨0, rfl, Nat.le_refl 0, fun none_ => absurd none_ (Nat.lt_irrefl 0)⟩
  | succ len ih =>
      have here : item[len]? = some item[len] := List.getElem?_eq_getElem inside
      simp only [trimItem, here]
      split
      next =>
        obtain ⟨kept, trimmed, bound, last⟩ := ih (Nat.le_of_succ_le inside)
        exact ⟨kept, trimmed, Nat.le_succ_of_le bound, last⟩
      next solid =>
        rw [not_or, not_or] at solid
        exact ⟨len + 1, rfl, Nat.le_refl _, fun _ => ⟨item[len], here, solid⟩⟩

theorem skipLine_inside {p : Bytes} (memory : Memory p) :
    ∃ moved, skipLine p = some moved ∧ moved < p.length ∧ (p.head? ≠ some 0 → 0 < moved) := by
  induction memory with
  | last => exact ⟨0, rfl, Nat.one_pos, fun nonzero => absurd rfl nonzero⟩
  | @cons c rest nonzero memory ih =>
      obtain ⟨moved, skipped, inside, -⟩ := ih
      rw [skipLine, if_neg nonzero]
      split
      next => exact ⟨1, rfl, Nat.succ_lt_succ memory.length_pos, fun _ => Nat.one_pos⟩
      next =>
        exact ⟨moved + 1, by simp [skipped], Nat.succ_lt_succ inside, fun _ => Nat.succ_pos _⟩

/-- An option is a piece of the text without spaces in front and without spaces,
newlines or returns behind. -/
structure Choice.Taken (choice : Choice) (text : Bytes) : Prop where
  piece : choice.text = (text.drop choice.start).take choice.text.length
  inside : choice.start + choice.text.length < text.length
  ne_nil : choice.text ≠ []
  front : choice.text.head? ≠ some 0x20
  back : ∀ last ∈ choice.text.getLast?, last ≠ 0x0A ∧ last ≠ 0x20 ∧ last ≠ 0x0D

theorem scanLine_inside {p : Bytes} (memory : Memory p) (useLetters : Bool) (expected : Nat)
    (small : expected ≤ 8) (more : p.head? ≠ some 0) :
    ∃ taken moved, scanLine useLetters expected p = some (taken, moved) ∧ 0 < moved ∧
      moved < p.length ∧ ∀ choice ∈ taken, choice.Taken p ∧
        choice.start + choice.text.length = moved := by
  obtain ⟨item, matched, starts⟩ :=
    matchLine_inside memory useLetters (Nat.le_succ_of_le small)
  cases item with
  | none =>
      obtain ⟨moved, skipped, inside, progress⟩ := skipLine_inside memory
      refine ⟨none, moved, ?_, progress more, inside, fun choice none_ => by cases none_⟩
      simp only [scanLine, matched, skipped, Option.bind_eq_bind, Option.bind_some]
  | some start =>
      obtain ⟨positive, c, here, space⟩ := starts start rfl
      have within := inside_of_getElem? here
      obtain ⟨stop, length, bound⟩ :=
        itemLength_inside (memory.drop within) useLetters small
      obtain ⟨len, trimmed, short, last⟩ := trimItem_inside (Nat.le_of_lt bound)
      rw [List.length_drop] at bound
      refine ⟨if 0 < len then some ⟨start, (p.drop start).take len⟩ else none, start + len,
        ?_, by omega, by omega, ?_⟩
      · simp only [scanLine, matched, length, trimmed, Option.bind_eq_bind, Option.bind_some]
      · intro choice same
        split at same
        next some_ =>
          obtain rfl := Option.some.inj same
          have size : ((p.drop start).take len).length = len := by
            rw [List.length_take, List.length_drop]
            omega
          refine ⟨⟨?_, ?_, ?_, ?_, ?_⟩, ?_⟩
          · simp only [size]
          · simp only [size]
            omega
          · intro empty
            rw [← List.length_eq_zero_iff] at empty
            simp only [size] at empty
            omega
          · rw [List.head?_take, if_neg (Nat.ne_of_gt some_), List.head?_drop, here]
            simpa using space
          · intro other end_
            obtain ⟨kept, at_, solid⟩ := last some_
            simp only [List.getLast?_eq_getElem?, size] at end_
            rw [List.getElem?_take_of_lt (by omega), at_] at end_
            obtain rfl := Option.some.inj end_
            exact solid
          · simp only [size]
        next => cases same

theorem Choice.Taken.shift {choice : Choice} {text : Bytes} {n : Nat}
    (taken : choice.Taken (text.drop n)) :
    { choice with start := n + choice.start : Choice }.Taken text where
  piece := by
    have piece := taken.piece
    rwa [List.drop_drop] at piece
  inside := by
    have inside := taken.inside
    rw [List.length_drop] at inside
    simp only
    omega
  ne_nil := taken.ne_nil
  front := taken.front
  back := taken.back

def Choice.Before (first second : Choice) : Prop :=
  first.start < second.start ∧ first.start + first.text.length ≤ second.start

/-- A pass that goes on at `scan` finds these options. -/
def Scans (useLetters : Bool) (scan : Bytes) (n expected found : Nat)
    (choices : List Choice) : Prop :=
  ∀ rounds, scan.length ≤ rounds + 1 →
    scanChoices useLetters rounds scan n expected found = .ended choices

namespace Scans

variable {useLetters : Bool} {scan : Bytes} {n expected found moved : Nat}
  {choices : List Choice}

theorem done (useLetters : Bool) (rest : Bytes) (n expected found : Nat) :
    Scans useLetters (0 :: rest) n expected found [] := by
  intro rounds _
  cases rounds <;> rw [scanChoices, if_pos (.inl rfl)]

theorem full (useLetters : Bool) (some_ : scan ≠ []) (n expected : Nat)
    (full : maxChoices ≤ found) : Scans useLetters scan n expected found [] := by
  intro rounds _
  obtain ⟨c, rest, rfl⟩ := List.exists_cons_of_ne_nil some_
  cases rounds <;> rw [scanChoices, if_pos (.inr full)]

theorem round (some_ : scan ≠ []) (more : scan.head? ≠ some 0) (room : found < maxChoices)
    (moves : 0 < moved) (inside : moved < scan.length) {rounds : Nat}
    (enough : scan.length ≤ rounds + 1) :
    ∃ c rest fewer, scan = c :: rest ∧ rounds = fewer + 1 ∧
      (scan.drop moved).length ≤ fewer + 1 ∧ ¬ (c = 0 ∨ maxChoices ≤ found) := by
  obtain ⟨c, rest, rfl⟩ := List.exists_cons_of_ne_nil some_
  refine ⟨c, rest, rounds - 1, rfl, ?_, ?_, ?_⟩
  · omega
  · rw [List.length_drop]
    omega
  · rintro (rfl | full)
    · exact more rfl
    · omega

theorem skip (some_ : scan ≠ []) (more : scan.head? ≠ some 0) (room : found < maxChoices)
    (line : scanLine useLetters expected scan = some (none, moved)) (moves : 0 < moved)
    (inside : moved < scan.length)
    (after : Scans useLetters (scan.drop moved) (n + moved) expected found choices) :
    Scans useLetters scan n expected found choices := by
  intro rounds enough
  obtain ⟨c, rest, fewer, rfl, rfl, left, goes⟩ := round some_ more room moves inside enough
  rw [scanChoices, if_neg goes, line]
  exact after fewer left

theorem take {choice : Choice} (some_ : scan ≠ []) (more : scan.head? ≠ some 0)
    (room : found < maxChoices)
    (line : scanLine useLetters expected scan = some (some choice, moved)) (moves : 0 < moved)
    (inside : moved < scan.length)
    (after : Scans useLetters (scan.drop moved) (n + moved) (expected + 1) (found + 1)
      choices) :
    Scans useLetters scan n expected found
      ({ choice with start := n + choice.start } :: choices) := by
  intro rounds enough
  obtain ⟨c, rest, fewer, rfl, rfl, left, goes⟩ := round some_ more room moves inside enough
  rw [scanChoices, if_neg goes, line]
  simp only [after fewer left, Scanned.map]

end Scans

theorem exists_scans {text : Bytes} (memory : Memory text) (useLetters : Bool)
    (n expected found : Nat) (inside : n < text.length) (small : expected ≤ found + 1)
    (room : found ≤ maxChoices) :
    ∃ choices, Scans useLetters (text.drop n) n expected found choices ∧
      found + choices.length ≤ maxChoices ∧
      (∀ choice ∈ choices, n ≤ choice.start ∧ choice.Taken text) ∧
      choices.Pairwise Choice.Before := by
  induction left : text.length - n using Nat.strong_induction_on
    generalizing n expected found with
  | _ size ih =>
      have here := memory.drop inside
      have some_ : text.drop n ≠ [] := List.ne_nil_of_length_pos here.length_pos
      by_cases ended : (text.drop n).head? = some 0
      · obtain ⟨c, rest, same⟩ := List.exists_cons_of_ne_nil some_
        rw [same] at ended ⊢
        obtain rfl := Option.some.inj ended
        exact ⟨[], .done _ _ _ _ _, room, by simp, List.Pairwise.nil⟩
      · rcases Nat.lt_or_ge found maxChoices with few | full
        · obtain ⟨taken, moved, round, positive, within, choice⟩ :=
            scanLine_inside here useLetters expected (Nat.le_trans small few) ended
          have bound := within
          rw [List.length_drop] at bound
          cases taken with
          | none =>
              obtain ⟨choices, scan, count, pieces, apart⟩ := ih (text.length - (n + moved))
                (by omega) (n + moved) expected found (by omega) small room rfl
              rw [← List.drop_drop] at scan
              exact ⟨choices, .skip some_ ended few round positive within scan, count,
                fun choice member => ⟨Nat.le_of_add_right_le (pieces choice member).1,
                  (pieces choice member).2⟩, apart⟩
          | some first =>
              obtain ⟨piece, reach⟩ := choice first rfl
              obtain ⟨choices, scan, count, pieces, apart⟩ := ih (text.length - (n + moved))
                (by omega) (n + moved) (expected + 1) (found + 1) (by omega) (by omega) few rfl
              rw [← List.drop_drop] at scan
              refine ⟨_, .take some_ ended few round positive within scan, ?_, ?_,
                List.pairwise_cons.2 ⟨?_, apart⟩⟩
              · rw [List.length_cons]
                omega
              · intro choice member
                rcases List.mem_cons.1 member with rfl | member
                · exact ⟨Nat.le_add_right _ _, piece.shift⟩
                · exact ⟨Nat.le_of_add_right_le (pieces choice member).1,
                    (pieces choice member).2⟩
              · intro choice member
                have after := (pieces choice member).1
                have filled := List.length_pos_iff.2 piece.ne_nil
                exact ⟨by simp only; omega, by simp only; omega⟩
        · exact ⟨[], .full _ some_ _ _ full, room, by simp, List.Pairwise.nil⟩

theorem Scans.detect {text : Bytes} {numbered lettered : List Choice}
    (first : Scans false text 0 1 0 numbered) (second : Scans true text 0 0 0 lettered)
    {rounds : Nat} (enough : text.length ≤ rounds + 1) :
    detectChoices rounds text = .ended (if 2 ≤ numbered.length then numbered
      else if 2 ≤ lettered.length then lettered else []) := by
  rw [detectChoices, first rounds enough, second rounds enough]
  simp only
  split <;> rfl

theorem Choice.Taken.split {choice : Choice} {text : Bytes}
    (taken : choice.Taken (text ++ [0])) :
    ∃ before after, text = before ++ (choice.text ++ after) ∧
      before.length = choice.start := by
  have inside := taken.inside
  rw [List.length_append, List.length_singleton] at inside
  have piece : choice.text = (text.drop choice.start).take choice.text.length := by
    have piece := taken.piece
    rwa [List.drop_append_of_le_length (by omega),
      List.take_append_of_le_length (by rw [List.length_drop]; omega)] at piece
  refine ⟨text.take choice.start, (text.drop choice.start).drop choice.text.length, ?_, ?_⟩
  · have whole : choice.text ++ (text.drop choice.start).drop choice.text.length =
        text.drop choice.start := by
      have split := List.take_append_drop choice.text.length (text.drop choice.start)
      rwa [← piece] at split
    rw [whole, List.take_append_drop]
  · rw [List.length_take]
    omega

/-- Whatever the text, `detect_choices` ends without leaving it, with no option or
with two to eight, which are pieces of the text one behind the other. -/
theorem detectChoices_wellFormed (text : CString) :
    ∃ choices, (∀ rounds, text.bytes.length ≤ rounds →
        detectChoices rounds (text.bytes ++ [0]) = .ended choices) ∧
      (choices = [] ∨ 2 ≤ choices.length ∧ choices.length ≤ 8) ∧
      (∀ choice ∈ choices, choice.text ≠ [] ∧
        (∃ before after, text.bytes = before ++ (choice.text ++ after) ∧
          before.length = choice.start) ∧
        choice.text.head? ≠ some 0x20 ∧
        ∀ last ∈ choice.text.getLast?, last ≠ 0x20 ∧ last ≠ 0x0A ∧ last ≠ 0x0D) ∧
      choices.Pairwise Choice.Before := by
  have memory := Memory.of_nulFree text.nulFree
  have size : (text.bytes ++ [0]).length = text.bytes.length + 1 := by simp
  obtain ⟨numbered, first, count, pieces, apart⟩ := exists_scans memory false 0 1 0
    memory.length_pos (Nat.le_refl 1) (Nat.zero_le _)
  obtain ⟨lettered, second, count', pieces', apart'⟩ := exists_scans memory true 0 0 0
    memory.length_pos (Nat.zero_le 1) (Nat.zero_le _)
  have found : ∀ choice : Choice, choice.Taken (text.bytes ++ [0]) → choice.text ≠ [] ∧
      (∃ before after, text.bytes = before ++ (choice.text ++ after) ∧
        before.length = choice.start) ∧
      choice.text.head? ≠ some 0x20 ∧
      ∀ last ∈ choice.text.getLast?, last ≠ 0x20 ∧ last ≠ 0x0A ∧ last ≠ 0x0D := by
    intro choice taken
    refine ⟨taken.ne_nil, taken.split, taken.front, fun last end_ => ?_⟩
    obtain ⟨line, space, return_⟩ := taken.back last end_
    exact ⟨space, line, return_⟩
  refine ⟨if 2 ≤ numbered.length then numbered
    else if 2 ≤ lettered.length then lettered else [], fun rounds enough => ?_, ?_, ?_, ?_⟩
  · exact first.detect second (size ▸ Nat.succ_le_succ enough)
  · have most : maxChoices = 8 := rfl
    split
    next two => exact .inr ⟨two, by omega⟩
    next =>
      split
      next two => exact .inr ⟨two, by omega⟩
      next => exact .inl rfl
  · split
    next => exact fun choice member => found choice (pieces choice member).2
    next =>
      split
      next => exact fun choice member => found choice (pieces' choice member).2
      next => exact fun choice member => absurd member List.not_mem_nil
  · split
    · exact apart
    · split
      · exact apart'
      · exact List.Pairwise.nil

end FreeCli

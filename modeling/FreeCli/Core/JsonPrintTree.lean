import FreeCli.Core.JsonPrinted

namespace FreeCli

open Words JsonText

namespace Numeral

variable {text : Bytes}

theorem nulFree (numeral : Numeral text) : 0 ∉ text := fun member =>
  absurd (numeral.chars 0 member) (by decide)

end Numeral

theorem numeral_printNumber (n : Int32) : Numeral (printNumber n) where
  chars := by
    intro byte member
    have digits : ∀ byte ∈ digits n.toInt.natAbs, numberChar byte = true := fun byte inside => by
      rw [numberChar, isDigit_of_mem_digits _ byte inside]
      rfl
    rw [printNumber] at member
    split at member
    · rcases List.mem_cons.1 member with rfl | later
      · decide
      · exact digits byte later
    · exact digits byte member
  start := printNumber_cons n
  short := by
    have below : n.toInt.natAbs < 10 ^ 10 := by
      have lower := n.le_toInt
      have upper := n.toInt_lt
      omega
    have length : ∀ k n : Nat, n < 10 ^ (k + 1) → (digits n).length ≤ k + 1 := by
      intro k
      induction k with
      | zero =>
          intro n small
          rw [digits, if_pos (by simpa using small)]
          exact Nat.le_refl 1
      | succ k ih =>
          intro n small
          rw [digits]
          split
          · exact Nat.succ_le_succ (Nat.zero_le _)
          · rw [List.length_append, List.length_singleton]
            exact Nat.succ_le_succ (ih (n / 10) (by rw [Nat.pow_succ] at small; omega))
    have short := length 9 _ below
    rw [printNumber]
    split
    · rw [List.length_cons]
      omega
    · omega

/-- Doubles that are all of type `int`. -/
def Doubles.integers : Doubles where
  Double := Int32
  ofInt n := n
  finite _ := true
  equal first second := decide (first = second)
  digits15 := printNumber
  digits17 := printNumber
  compareDouble first second := decide (first = second)
  strtod text :=
    let sign := if text.head? = some 45 then 1 else 0
    let digits := (text.drop sign).takeWhile isDigit
    let value : Int := (readDigits 0 digits).1
    if digits = [] then none
    else some (Int32.ofInt (if sign = 1 then -value else value), sign + digits.length)
  toInt n := n

namespace Doubles.Lawful

variable {lib : Doubles}

/-- Anything but a numeral is printed as `null`. -/
theorem numberText_cases (laws : lib.Lawful) (valueint : Int32) (valuedouble : lib.Double) :
    lib.numberText valueint valuedouble = ascii "null" ∧ lib.finite valuedouble = false ∨
      Numeral (lib.numberText valueint valuedouble) ∧ ∃ read,
        lib.strtod (lib.numberText valueint valuedouble) =
          some (read, (lib.numberText valueint valuedouble).length) := by
  rw [Doubles.numberText]
  cases finite : lib.finite valuedouble with
  | false => exact .inl ⟨rfl, rfl⟩
  | true =>
      right
      rw [Bool.not_true, if_neg Bool.false_ne_true]
      split
      next => exact ⟨numeral_printNumber valueint, _, laws.strtod_int valueint⟩
      next =>
        split
        · split
          · exact ⟨laws.numeral15 _ finite, laws.strtod_digits15 _ finite⟩
          · exact ⟨laws.numeral17 _ finite, laws.strtod_digits17 _ finite⟩
        · exact ⟨laws.numeral17 _ finite, laws.strtod_digits17 _ finite⟩

theorem nulFree_numberText (laws : lib.Lawful) (valueint : Int32) (valuedouble : lib.Double) :
    0 ∉ lib.numberText valueint valuedouble := by
  rcases laws.numberText_cases valueint valuedouble with ⟨same, -⟩ | ⟨numeral, -⟩
  · rw [same]
    decide
  · exact numeral.nulFree

theorem length_numberText (laws : lib.Lawful) (valueint : Int32) (valuedouble : lib.Double) :
    (lib.numberText valueint valuedouble).length ≤ 25 := by
  rcases laws.numberText_cases valueint valuedouble with ⟨same, -⟩ | ⟨numeral, -⟩
  · rw [same]
    decide
  · exact numeral.short

end Doubles.Lawful

theorem takeWhile_digits (n : Nat) : (digits n).takeWhile isDigit = digits n :=
  List.takeWhile_eq_self_iff.2 (isDigit_of_mem_digits n)

theorem readDigits_digits_nil (n : Nat) : readDigits 0 (digits n) = (n, []) := by
  have read := readDigits_digits n []
  rwa [List.append_nil] at read

theorem integers_strtod (n : Int32) :
    Doubles.integers.strtod (printNumber n) = some (n, (printNumber n).length) := by
  obtain ⟨byte, rest, first, digit⟩ := digits_cons n.toInt.natAbs
  have some_ : digits n.toInt.natAbs ≠ [] := by
    rw [first]
    exact List.cons_ne_nil _ _
  have read := readDigits_digits_nil n.toInt.natAbs
  rw [printNumber]
  split
  next negative =>
    have value : -(n.toInt.natAbs : Int) = n.toInt := by omega
    simp only [Doubles.integers, List.head?_cons, if_true, List.drop_succ_cons, List.drop_zero,
      takeWhile_digits, if_neg some_, read, value, Int32.ofInt_toInt, List.length_cons,
      Nat.add_comm 1]
  next positive =>
    have value : (n.toInt.natAbs : Int) = n.toInt := by omega
    have unsigned : ¬(digits n.toInt.natAbs).head? = some 45 := by
      rw [first]
      rintro same
      rw [Option.some.inj same] at digit
      contradiction
    simp [Doubles.integers, if_neg unsigned, takeWhile_digits, if_neg some_, read, value]

theorem Doubles.integers_lawful : Doubles.integers.Lawful where
  finite_ofInt _ := rfl
  equal_ofInt n := by
    show decide ((n : Int32) = n) = true
    exact decide_eq_true rfl
  toInt_ofInt _ := rfl
  numeral15 d _ := numeral_printNumber d
  numeral17 d _ := numeral_printNumber d
  strtod_int := integers_strtod
  strtod_digits15 d _ := ⟨d, integers_strtod d⟩
  strtod_digits17 d _ := ⟨d, integers_strtod d⟩
  strtod_inside := by
    intro text read used found
    simp only [Doubles.integers] at found
    generalize (if text.head? = some 45 then 1 else 0) = sign at found
    have inside := ((text.drop sign).takeWhile_sublist isDigit).length_le
    by_cases none_ : (text.drop sign).takeWhile isDigit = []
    · rw [if_pos none_] at found
      contradiction
    · have some_ := List.length_pos_iff.2 none_
      rw [if_neg none_] at found
      rw [← (Prod.mk.inj (Option.some.inj found)).2]
      rw [List.length_drop] at inside
      omega

namespace JsonItem

variable {lib : Doubles}

theorem nulFree_between {comma : Bytes} (nulFree : 0 ∉ comma) (items : List α) :
    0 ∉ between comma items := by
  cases items with
  | nil => exact List.not_mem_nil
  | cons item items => exact nulFree

theorem nulFree_comma (format : Bool) : 0 ∉ comma format := by
  cases format <;> decide

theorem nulFree_lineBreak (format : Bool) : 0 ∉ lineBreak format := by
  cases format <;> decide

theorem nulFree_colon (format : Bool) : 0 ∉ colon format := by
  cases format <;> decide

theorem nulFree_tabs (format : Bool) (depth : Nat) : 0 ∉ tabs format depth := by
  cases format with
  | false => exact List.not_mem_nil
  | true => exact fun member => absurd (List.eq_of_mem_replicate member) (by decide)

theorem nulFree_text (laws : lib.Lawful) (format : Bool) (item : JsonItem lib) (depth : Nat) :
    0 ∉ item.text format depth := by
  induction item using JsonItem.induct generalizing depth with
  | null =>
      rw [text]
      decide
  | bool value =>
      cases value
      · rw [text]
        decide
      · rw [text]
        decide
  | number valueint valuedouble => exact laws.nulFree_numberText valueint valuedouble
  | string valuestring => exact nulFree_printString valuestring
  | array child ih =>
      have elements : 0 ∉ elementsText format (depth + 1) child := by
        induction child with
        | nil => exact List.not_mem_nil
        | cons item items more =>
            simp only [elementsText, List.mem_append, not_or]
            exact ⟨⟨ih item List.mem_cons_self _, nulFree_between (nulFree_comma format) items⟩,
              more fun other member => ih other (List.mem_cons_of_mem item member)⟩
      simp only [text, List.mem_append, not_or]
      exact ⟨⟨by decide, elements⟩, by decide⟩
  | object child ih =>
      have members : 0 ∉ membersText format (depth + 1) child := by
        induction child with
        | nil => exact List.not_mem_nil
        | cons member members more =>
            obtain ⟨key, item⟩ := member
            simp only [membersText, List.mem_append, not_or]
            exact ⟨⟨⟨⟨⟨⟨nulFree_tabs format _, nulFree_printString key⟩, nulFree_colon format⟩,
              ih (key, item) List.mem_cons_self _⟩, nulFree_between (by decide) members⟩,
              nulFree_lineBreak format⟩,
              more fun other inside => ih other (List.mem_cons_of_mem _ inside)⟩
      simp only [text, List.mem_append, not_or]
      exact ⟨⟨⟨⟨by decide, nulFree_lineBreak format⟩, members⟩, nulFree_tabs format depth⟩,
        by decide⟩

end JsonItem

namespace JsonPrint

open PrintBuffer JsonItem

variable {lib : Doubles} {heap : Allocator} {total : Nat}

def PrintsText (heap : Allocator) (total : Nat) (item : JsonItem lib) : Prop :=
  ∀ {before : Bytes} {depth : Nat} {format : Bool} {p : PrintBuffer},
    Open before depth format p → 0 ∉ before → depth ≤ nestingLimit →
    before.length + (item.text format depth).length ≤ total →
    Prints heap total (Fits total ∧ depth + item.depth ≤ nestingLimit) (printValue heap item p)
      fun q => Shown (before ++ item.text format depth) depth format q ∧
        depth + item.depth ≤ nestingLimit

section Steps

variable {before : Bytes} {depth : Nat} {format : Bool} {p : PrintBuffer}

theorem PrintsText.behind {item : JsonItem lib} (laws : lib.Lawful)
    (prints : PrintsText heap total item) (opens : Open before depth format p)
    (nulFree : 0 ∉ before) (shallow : depth ≤ nestingLimit)
    (size : before.length + (item.text format depth).length ≤ total) :
    Prints heap total (Fits total ∧ depth + item.depth ≤ nestingLimit)
      (do (← printValue heap item p).updateOffset)
      fun q => Open (before ++ item.text format depth) depth format q ∧
        depth + item.depth ≤ nestingLimit := by
  refine (prints opens nulFree shallow size).bind fun q ⟨shown, deep⟩ => ?_
  obtain ⟨ran, opens⟩ := shown.updateOffset (by
    rw [List.mem_append, not_or]
    exact ⟨nulFree, item.nulFree_text laws format depth⟩)
  exact .of_ok ran ⟨opens, deep⟩

theorem Open.word {word : Bytes} (opens : Open before depth format p)
    (size : before.length + word.length ≤ total) :
    Prints heap total (Fits total) (do (← p.ensure heap (word.length + 1)).put 0 (word ++ [0]))
      (Shown (before ++ word) depth format) :=
  opens.show (Nat.le_succ _) (by omega)

theorem Open.key (opens : Open before depth format p) (nulFree : 0 ∉ before) (key : CString)
    (size : before.length + (printString key).length ≤ total) :
    Prints heap total (Fits total) (do (← p.printStringPtr heap key).updateOffset)
      (Open (before ++ printString key) depth format) := by
  refine (opens.printStringPtr key size).bind fun q shown => ?_
  obtain ⟨ran, opens⟩ := shown.updateOffset (by
    rw [List.mem_append, not_or]
    exact ⟨nulFree, nulFree_printString key⟩)
  exact .of_ok ran opens

theorem nulFree_append {first second : Bytes} (one : 0 ∉ first) (two : 0 ∉ second) :
    0 ∉ first ++ second := by
  rw [List.mem_append, not_or]
  exact ⟨one, two⟩

theorem Open.separate (opens : Open before depth format p) (items : List α)
    (size : before.length + (JsonItem.between (comma format) items).length ≤ total) :
    Prints heap total (Fits total) (p.separate heap items)
      (Open (before ++ JsonItem.between (comma format) items) depth format) := by
  cases items with
  | nil =>
      refine .of_ok rfl ?_
      rwa [JsonItem.between, List.append_nil]
  | cons next items =>
      rw [PrintBuffer.separate, opens.format_eq]
      rw [JsonItem.between] at size
      exact opens.between (Nat.le_succ _) (Nat.le_succ _) (by omega)

theorem Open.indent (opens : Open before depth format p)
    (size : before.length + (tabs format depth).length ≤ total) :
    Prints heap total (Fits total) (p.indent heap)
      (Open (before ++ tabs format depth) depth format) := by
  rw [PrintBuffer.indent, opens.format_eq, opens.depth_eq]
  cases format with
  | false =>
      refine .of_ok rfl ?_
      rwa [show tabs false depth = [] from rfl, List.append_nil]
  | true =>
      have length : (tabs true depth).length = depth := List.length_replicate
      rw [if_pos rfl]
      rw [length] at size
      refine opens.between ?_ (by rw [length]) (by omega)
      rw [length, List.length_nil]
      omega

theorem printElements_prints (laws : lib.Lawful) {items : List (JsonItem lib)}
    (prints : ∀ item ∈ items, PrintsText heap total item) (opens : Open before depth format p)
    (nulFree : 0 ∉ before) (shallow : depth ≤ nestingLimit)
    (size : before.length + (elementsText format depth items).length ≤ total) :
    Prints heap total (Fits total ∧ depth + depthElements items ≤ nestingLimit)
      (printElements heap items p)
      fun q => Open (before ++ elementsText format depth items) depth format q ∧
        depth + depthElements items ≤ nestingLimit := by
  induction items generalizing before p with
  | nil =>
      refine .of_ok rfl ⟨?_, shallow⟩
      rwa [elementsText, List.append_nil]
  | cons item items ih =>
      simp only [elementsText, List.length_append] at size
      have free := nulFree_append nulFree (item.nulFree_text laws format depth)
      have deeper : depthElements (item :: items) = max item.depth (depthElements items) := rfl
      rw [deeper, printElements, ← bind_assoc]
      have itself : PrintsText heap total item := prints item List.mem_cons_self
      have first := PrintsText.behind laws itself opens nulFree shallow (by omega)
      refine Prints.bind (first.weaken fun calm => ⟨calm.1, by omega⟩)
        fun q ⟨opens, deep⟩ => ?_
      have comma : Prints heap total (Fits total) (q.separate heap items)
          (Open (before ++ item.text format depth ++ JsonItem.between (comma format) items)
            depth format) := by
        apply opens.separate items
        rw [List.length_append]
        omega
      refine Prints.bind (comma.weaken And.left) fun q opens => ?_
      have rest := ih (fun other member => prints other (List.mem_cons_of_mem item member)) opens
        (nulFree_append free (nulFree_between (nulFree_comma format) items)) (by
          simp only [List.length_append]
          omega)
      refine Prints.mono (rest.weaken fun calm => ⟨calm.1, by omega⟩) fun q ⟨opens, deeper⟩ =>
        ⟨?_, by omega⟩
      simpa only [elementsText, List.append_assoc] using opens

theorem printMembers_prints (laws : lib.Lawful) {members : List (CString × JsonItem lib)}
    (prints : ∀ member ∈ members, PrintsText heap total member.2)
    (opens : Open before depth format p) (nulFree : 0 ∉ before)
    (shallow : depth ≤ nestingLimit)
    (size : before.length + (membersText format depth members).length ≤ total) :
    Prints heap total (Fits total ∧ depth + depthMembers members ≤ nestingLimit)
      (printMembers heap members p)
      fun q => Open (before ++ membersText format depth members) depth format q ∧
        depth + depthMembers members ≤ nestingLimit := by
  induction members generalizing before p with
  | nil =>
      refine .of_ok rfl ⟨?_, shallow⟩
      rwa [membersText, List.append_nil]
  | cons member members ih =>
      obtain ⟨key, item⟩ := member
      simp only [membersText, List.length_append] at size
      have deeper : depthMembers ((key, item) :: members) = max item.depth (depthMembers members) :=
        rfl
      rw [deeper, printMembers]
      refine Prints.bind ((opens.indent (by omega)).weaken And.left) fun q opens => ?_
      have free := nulFree_append nulFree (nulFree_tabs format depth)
      -- the key and the colon
      have keys : Prints heap total (Fits total) (do (← q.printStringPtr heap key).updateOffset)
          (Open (before ++ tabs format depth ++ printString key) depth format) := by
        apply opens.key free key
        rw [List.length_append]
        omega
      rw [← bind_assoc]
      refine Prints.bind (keys.weaken And.left) fun q opens => ?_
      have free := nulFree_append free (nulFree_printString key)
      have colons : Prints heap total (Fits total)
          (q.between heap (JsonItem.colon q.format).length (JsonItem.colon q.format) [])
          (Open (before ++ tabs format depth ++ printString key ++ JsonItem.colon format)
            depth format) := by
        rw [opens.format_eq]
        refine opens.between ?_ (Nat.le_refl _) ?_
        · rw [List.length_nil]
          omega
        · rw [List.length_append, List.length_append]
          omega
      refine Prints.bind (colons.weaken And.left) fun q opens => ?_
      have free := nulFree_append free (nulFree_colon format)
      -- the value
      have itself : PrintsText heap total item := prints _ List.mem_cons_self
      have value := PrintsText.behind laws itself opens free shallow (by
        simp only [List.length_append]
        omega)
      rw [← bind_assoc]
      refine Prints.bind (value.weaken fun calm => ⟨calm.1, by omega⟩)
        fun q ⟨opens, deep⟩ => ?_
      have free := nulFree_append free (item.nulFree_text laws format depth)
      -- the comma and the end of the line
      have line : Prints heap total (Fits total)
          (q.between heap
            ((JsonItem.between [44] members ++ JsonItem.lineBreak q.format).length + 1)
            (JsonItem.between [44] members ++ JsonItem.lineBreak q.format) [0])
          (Open (before ++ tabs format depth ++ printString key ++ JsonItem.colon format ++
            item.text format depth ++ (JsonItem.between [44] members ++ JsonItem.lineBreak format))
            depth format) := by
        rw [opens.format_eq]
        refine opens.between (Nat.le_succ _) (Nat.le_succ _) ?_
        simp only [List.length_append]
        omega
      refine Prints.bind (line.weaken And.left) fun q opens => ?_
      have rest := ih (fun other inside => prints other (List.mem_cons_of_mem _ inside)) opens
        (nulFree_append free
          (nulFree_append (nulFree_between (by decide) members) (nulFree_lineBreak format))) (by
            simp only [List.length_append]
            omega)
      refine Prints.mono (rest.weaken fun calm => ⟨calm.1, by omega⟩) fun q ⟨opens, deeper⟩ =>
        ⟨?_, by omega⟩
      simpa only [membersText, List.append_assoc] using opens

end Steps

theorem printValue_prints (laws : lib.Lawful) (item : JsonItem lib) :
    PrintsText heap total item := by
  induction item using JsonItem.induct with
  | null =>
      intro before depth format p opens _ shallow size
      exact Prints.mono ((opens.word size).weaken And.left) fun q shown => ⟨shown, shallow⟩
  | bool value =>
      intro before depth format p opens _ shallow size
      cases value with
      | false =>
          exact Prints.mono ((opens.word size).weaken And.left) fun q shown => ⟨shown, shallow⟩
      | true =>
          exact Prints.mono ((opens.word size).weaken And.left) fun q shown => ⟨shown, shallow⟩
  | number valueint valuedouble =>
      intro before depth format p opens _ shallow size
      have short := laws.length_numberText valueint valuedouble
      exact Prints.mono ((opens.printNumber _ short size).weaken And.left)
        fun q shown => ⟨shown, shallow⟩
  | string valuestring =>
      intro before depth format p opens _ shallow size
      exact Prints.mono ((opens.printStringPtr valuestring size).weaken And.left)
        fun q shown => ⟨shown, shallow⟩
  | array child ih =>
      intro before depth format p opens free shallow size
      simp only [JsonItem.text, List.length_append, List.length_singleton] at size
      have deeper : (JsonItem.array child : JsonItem lib).depth = depthElements child + 1 := rfl
      rw [printValue, opens.depth_eq, deeper]
      split
      next deep => exact fun calm => by have := calm.2; omega
      next room =>
        have opened : Prints heap total (Fits total) (p.opened heap 1 [91])
            (Open (before ++ [91]) (depth + 1) format) :=
          opens.opened (Nat.le_refl _) (by omega)
        refine Prints.bind (opened.weaken And.left) fun q opens => ?_
        have free := nulFree_append free (show 0 ∉ ([91] : Bytes) by decide)
        have elements := printElements_prints laws ih opens free (by omega) (by
          rw [List.length_append, List.length_singleton]
          omega)
        refine Prints.bind (elements.weaken fun calm => ⟨calm.1, by have := calm.2; omega⟩)
          fun q ⟨opens, deep⟩ => ?_
        have closed : Prints heap total (Fits total) (q.closed heap 2 [93])
            (Shown (before ++ [91] ++ elementsText format (depth + 1) child ++ [93])
              depth format) := by
          refine opens.closed (by decide) ?_
          simp only [List.length_append, List.length_singleton]
          omega
        refine Prints.mono (closed.weaken And.left) fun q shown => ⟨?_, by omega⟩
        simpa only [JsonItem.text, List.append_assoc] using shown
  | object child ih =>
      intro before depth format p opens free shallow size
      simp only [JsonItem.text, List.length_append, List.length_singleton] at size
      have deeper : (JsonItem.object child : JsonItem lib).depth = depthMembers child + 1 := rfl
      rw [printValue, opens.depth_eq, deeper]
      split
      next deep => exact fun calm => by have := calm.2; omega
      next room =>
        rw [opens.format_eq]
        have opened : Prints heap total (Fits total)
            (p.opened heap (([123] ++ JsonItem.lineBreak format).length + 1)
              ([123] ++ JsonItem.lineBreak format))
            (Open (before ++ ([123] ++ JsonItem.lineBreak format)) (depth + 1) format) := by
          refine opens.opened (Nat.le_succ _) ?_
          simp only [List.length_append, List.length_singleton]
          omega
        refine Prints.bind (opened.weaken And.left) fun q opens => ?_
        have free := nulFree_append free (nulFree_append
          (show 0 ∉ ([123] : Bytes) by decide) (nulFree_lineBreak format))
        have members := printMembers_prints laws ih opens free (by omega) (by
          simp only [List.length_append, List.length_singleton]
          omega)
        refine Prints.bind (members.weaken fun calm => ⟨calm.1, by have := calm.2; omega⟩)
          fun q ⟨opens, deep⟩ => ?_
        have bracket : Prints heap total (Fits total)
            (q.closed heap (if q.format then q.depth + 1 else 2)
              (tabs q.format (q.depth - 1) ++ [125]))
            (Shown (before ++ ([123] ++ JsonItem.lineBreak format) ++
              membersText format (depth + 1) child ++ (tabs format depth ++ [125]))
              depth format) := by
          rw [opens.format_eq, opens.depth_eq, Nat.add_sub_cancel]
          have length : (tabs format depth).length = if format then depth else 0 := by
            cases format with
            | false => rfl
            | true => exact List.length_replicate
          refine opens.closed ?_ ?_
          · rw [List.length_append, List.length_singleton, length]
            cases format <;> simp
          · simp only [List.length_append, List.length_singleton]
            rw [length] at size
            cases format <;> simp at size ⊢ <;> omega
        refine Prints.mono (bracket.weaken And.left) fun q shown => ⟨?_, by omega⟩
        simpa only [JsonItem.text, List.append_assoc] using shown

theorem printValue_whole (laws : lib.Lawful) (heap : Allocator) (item : JsonItem lib)
    (format : Bool) :
    Prints heap (item.text format 0).length
      (Fits (item.text format 0).length ∧ item.depth ≤ nestingLimit)
      (printValue heap item { buffer := heap.block 256, offset := 0, depth := 0, format })
      fun p => Shown (item.text format 0) 0 format p ∧ item.depth ≤ nestingLimit := by
  have start : Open [] 0 format
      { buffer := heap.block 256, offset := 0, depth := 0, format } :=
    ⟨List.nil_prefix, rfl, by simp [Allocator.block], rfl, rfl⟩
  have itself : PrintsText heap (item.text format 0).length item := printValue_prints laws item
  have prints := itself start List.not_mem_nil (Nat.zero_le _) (Nat.le_of_eq (Nat.zero_add _))
  rwa [Nat.zero_add, List.nil_append] at prints

theorem print_copied (laws : lib.Lawful) {item : JsonItem lib} {format : Bool} {p : PrintBuffer}
    (ran : printValue heap item { buffer := heap.block 256, offset := 0, depth := 0, format } =
      .ok p)
    (granted : heap.grants 256 = true) (shown : Shown (item.text format 0) 0 format p) :
    print heap item format =
      match heap.realloc p.buffer ((item.text format 0).length + 1) with
      | some printed => .ok printed
      | none => .error (.refused ((item.text format 0).length + 1)) := by
  obtain ⟨moved, -⟩ := shown.updateOffset (item.nulFree_text laws format 0)
  rw [print, if_neg (not_not_intro granted), ran]
  show (p.updateOffset >>= _) = _
  rw [moved]
  rfl

theorem print_ok (laws : lib.Lawful) {item : JsonItem lib} {format : Bool} {printed : Bytes}
    (ran : print heap item format = .ok printed) :
    printed = item.text format 0 ++ [0] ∧ item.depth ≤ nestingLimit := by
  have granted : heap.grants 256 = true := by
    by_contra refused
    rw [print, if_pos refused] at ran
    contradiction
  have prints := printValue_whole laws heap item format
  cases value : printValue heap item
      { buffer := heap.block 256, offset := 0, depth := 0, format } with
  | error stop =>
      rw [print, if_neg (not_not_intro granted), value] at ran
      contradiction
  | ok p =>
      rw [value] at prints
      obtain ⟨shown, shallow⟩ := prints
      rw [print_copied laws value granted shown] at ran
      cases copied : heap.realloc p.buffer ((item.text format 0).length + 1) with
      | none =>
          rw [copied] at ran
          contradiction
      | some block =>
          rw [copied] at ran
          obtain rfl := Except.ok.inj ran
          have starts := prefix_realloc shown.starts (by
            rw [List.length_append, List.length_singleton]) copied
          refine ⟨(starts.eq_of_length ?_).symm, shallow⟩
          rw [length_realloc copied, List.length_append, List.length_singleton]

theorem print_error (laws : lib.Lawful) {item : JsonItem lib} {format : Bool} {stop : Stop}
    (ran : print heap item format = .error stop) :
    Excused heap (item.text format 0).length
      (Fits (item.text format 0).length ∧ item.depth ≤ nestingLimit) stop := by
  by_cases granted : heap.grants 256 = true
  · have prints := printValue_whole laws heap item format
    cases value : printValue heap item
        { buffer := heap.block 256, offset := 0, depth := 0, format } with
    | error first =>
        rw [print, if_neg (not_not_intro granted), value] at ran
        obtain rfl : first = stop := Except.error.inj ran
        rwa [value] at prints
    | ok p =>
        rw [value] at prints
        rw [print_copied laws value granted prints.1] at ran
        cases copied : heap.realloc p.buffer ((item.text format 0).length + 1) with
        | some block =>
            rw [copied] at ran
            contradiction
        | none =>
            rw [copied] at ran
            obtain rfl := Except.error.inj ran
            refine ⟨realloc_none copied, ?_⟩
            have bound := Nat.le_max_right 256 (2 * ((item.text format 0).length + 2))
            rw [printBound]
            omega
  · rw [print, if_pos granted] at ran
    obtain rfl := Except.error.inj ran
    exact ⟨by simpa using granted, Nat.le_max_left _ _⟩

theorem print_granted (laws : lib.Lawful) {item : JsonItem lib} {format : Bool}
    (grants : ∀ size ≤ printBound (item.text format 0).length, heap.grants size = true)
    (fits : Fits (item.text format 0).length) (shallow : item.depth ≤ nestingLimit) :
    print heap item format = .ok (item.text format 0 ++ [0]) := by
  cases ran : print heap item format with
  | ok printed => rw [(print_ok laws ran).1]
  | error stop =>
      have excuse := print_error laws ran
      cases stop with
      | refused size =>
          rw [Excused, grants size excuse.2] at excuse
          exact absurd excuse.1 (by decide)
      | failed => exact absurd ⟨fits, shallow⟩ excuse
      | fault => exact excuse.elim
      | running => exact excuse.elim

/-- Printing gives the text and its terminator, and `NULL` only where a block that it asks for
is refused, for a text too long for an `int` or for an item that is nested too deep. -/
theorem print_text (laws : lib.Lawful) (heap : Allocator) (item : JsonItem lib) (format : Bool) :
    (print heap item format = .ok (item.text format 0 ++ [0]) ∧ item.depth ≤ nestingLimit) ∨
      (∃ size, print heap item format = .error (.refused size) ∧ heap.grants size = false ∧
        size ≤ printBound (item.text format 0).length) ∨
      (print heap item format = .error .failed ∧
        ¬(Fits (item.text format 0).length ∧ item.depth ≤ nestingLimit)) := by
  cases ran : print heap item format with
  | ok printed =>
      obtain ⟨rfl, shallow⟩ := print_ok laws ran
      exact .inl ⟨rfl, shallow⟩
  | error stop =>
      have excuse := print_error laws ran
      cases stop with
      | refused size => exact .inr (.inl ⟨size, rfl, excuse⟩)
      | failed => exact .inr (.inr ⟨rfl, excuse⟩)
      | fault => exact excuse.elim
      | running => exact excuse.elim

/-- There are no blocks of 300 bytes or more, and none is asked for. -/
theorem print_text_array :
    let item : JsonItem Doubles.integers := .array [.null, .string ⟨[10], by decide⟩]
    print ⟨(· < 300), fun _ _ => 0⟩ item true = .ok (item.text true 0 ++ [0]) := by
  intro item
  have length : printBound (item.text true 0).length = 256 := by decide
  have fits : Fits (item.text true 0).length ∧ item.depth ≤ nestingLimit := by
    rw [Fits]
    decide
  rcases print_text Doubles.integers_lawful ⟨(· < 300), fun _ _ => 0⟩ item true with
    printed | ⟨size, -, refused, within⟩ | ⟨-, unfit⟩
  · exact printed.1
  · rw [length] at within
    have large : ¬size < 300 := of_decide_eq_false refused
    omega
  · exact absurd fits unfit

end JsonPrint

end FreeCli

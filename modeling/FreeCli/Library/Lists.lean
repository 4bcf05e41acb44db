import Mathlib.Data.List.Basic
import Mathlib.Logic.Function.Basic

namespace Lists

/-! Lists with one element replaced, partial maps without repeated images, functions updated
along a list, and lists that several parties work off. -/

theorem getElem?_set_cases {α : Type} {l : List α} {i k : Nat} {new item : α}
    (here : (l.set i new)[k]? = some item) :
    item = new ∨ l[k]? = some item := by
  rw [List.getElem?_set] at here
  split at here
  next =>
    split at here
    · exact .inl (Option.some.inj here).symm
    · contradiction
  next => exact .inr here

theorem getElem?_concat_cases {α : Type} {l : List α} {i : Nat} {new item : α}
    (here : (l ++ [new])[i]? = some item) :
    l[i]? = some item ∨ i = l.length ∧ item = new := by
  rcases Nat.lt_trichotomy i l.length with inside | rfl | outside
  · exact .inl ((List.getElem?_append_left inside).symm.trans here)
  · rw [List.getElem?_concat_length] at here
    exact .inr ⟨rfl, (Option.some.inj here).symm⟩
  · rw [List.getElem?_eq_none (by rw [List.length_append]; exact outside)] at here
    contradiction

theorem mem_set_of_mem {α : Type} {l : List α} {old item : α} (new : α)
    (here : l[i]? = some old) (member : item ∈ l) :
    (item = old ∧ new ∈ l.set i new) ∨ item ∈ l.set i new := by
  obtain ⟨k, at_⟩ := List.mem_iff_getElem?.1 member
  obtain ⟨bound, _⟩ := List.getElem?_eq_some_iff.1 here
  by_cases same : i = k
  · subst same
    rw [here] at at_
    exact .inl ⟨(Option.some.inj at_).symm,
      List.mem_of_getElem? (List.getElem?_set_self bound)⟩
  · exact .inr (List.mem_of_getElem? ((List.getElem?_set_ne same).trans at_))

theorem map_set_same {α β : Type} {l : List α} {f : α → β} {old new : α}
    (here : l[i]? = some old) (same : f new = f old) :
    (l.set i new).map f = l.map f := by
  apply List.ext_getElem?
  intro k
  rw [List.getElem?_map, List.getElem?_map, List.getElem?_set]
  split
  next eq =>
    obtain ⟨bound, _⟩ := List.getElem?_eq_some_iff.1 here
    subst eq
    rw [if_pos bound, here]
    exact congrArg some same
  next => rfl

theorem modify_congr {α : Type} {l : List α} {i : Nat} {f g : α → α}
    (same : ∀ item, l[i]? = some item → f item = g item) :
    l.modify i f = l.modify i g := by
  apply List.ext_getElem?
  intro k
  rw [List.getElem?_modify, List.getElem?_modify]
  cases here : l[k]? with
  | none => rfl
  | some item =>
      simp only [Option.map_eq_map, Option.map_some]
      split
      next at_ =>
        subst at_
        rw [same item here]
      next => rfl

theorem countP_set {α : Type} (p : α → Bool) {l : List α} {i : Nat} {old : α}
    (here : l[i]? = some old) (new : α) :
    (l.set i new).countP p + (if p old then 1 else 0) =
      l.countP p + if p new then 1 else 0 := by
  induction l generalizing i with
  | nil => contradiction
  | cons head rest ih =>
      cases i with
      | zero =>
          obtain rfl := Option.some.inj here
          rw [List.set_cons_zero, List.countP_cons, List.countP_cons]
          omega
      | succ i =>
          have later := ih here
          rw [List.set_cons_succ, List.countP_cons, List.countP_cons]
          omega

theorem filterMap_inj {α β : Type} {f : α → Option β} {l : List α}
    {item other : α} {image : β}
    (different : (l.filterMap f).Nodup) (first : item ∈ l) (second : other ∈ l)
    (one : f item = some image) (two : f other = some image) : item = other := by
  induction l with
  | nil => exact absurd first List.not_mem_nil
  | cons head rest ih =>
      cases value : f head with
      | none =>
          rw [List.filterMap_cons_none value] at different
          rcases List.mem_cons.1 first with rfl | first
          · rw [one] at value
            contradiction
          rcases List.mem_cons.1 second with rfl | second
          · rw [two] at value
            contradiction
          · exact ih different first second
      | some own =>
          rw [List.filterMap_cons_some value, List.nodup_cons] at different
          rcases List.mem_cons.1 first with same | first
          · rcases List.mem_cons.1 second with again | second
            · exact same.trans again.symm
            · rw [← same, one] at value
              cases value
              exact absurd (List.mem_filterMap.2 ⟨_, second, two⟩) different.1
          · rcases List.mem_cons.1 second with again | second
            · rw [← again, two] at value
              cases value
              exact absurd (List.mem_filterMap.2 ⟨_, first, one⟩) different.1
            · exact ih different.2 first second

theorem foldl_range_getElem? {α β : Type} (step : β → Option α → β) (l : List α)
    (init : β) :
    (List.range l.length).foldl (fun acc i => step acc l[i]?) init =
      l.foldl (fun acc item => step acc (some item)) init := by
  induction l generalizing init with
  | nil => rfl
  | cons head rest ih =>
      rw [List.length_cons, List.range_succ_eq_map, List.foldl_cons, List.foldl_cons,
        List.foldl_map]
      simp only [List.getElem?_cons_succ, List.getElem?_cons_zero]
      exact ih _

theorem mapM_range_getElem? {α : Type} (l : List α) :
    ((List.range l.length).mapM fun i => l[i]?) = some l := by
  induction l with
  | nil => rfl
  | cons head rest ih =>
      have shift : (fun i => (head :: rest)[i]?) ∘ Nat.succ = fun i => rest[i]? := rfl
      rw [List.length_cons, List.range_succ_eq_map, List.mapM_cons, List.mapM_map, shift, ih]
      rfl

/-! ### Updates along a list -/

section Updates

variable {α κ β : Type} [DecidableEq κ] (place : α → κ) (value : α → β)

theorem foldl_update_other {l : List α} {k : κ} (absent : ∀ item ∈ l, place item ≠ k)
    (init : κ → β) :
    l.foldl (fun map item => Function.update map (place item) (value item)) init k = init k := by
  induction l generalizing init with
  | nil => rfl
  | cons head rest ih =>
      rw [List.foldl_cons, ih fun item member => absent item (List.mem_cons_of_mem head member),
        Function.update_of_ne (absent head List.mem_cons_self).symm]

theorem foldl_update_mem {l : List α} {item : α} (member : item ∈ l) (init : κ → β) :
    ∃ last ∈ l, place last = place item ∧
      l.foldl (fun map item => Function.update map (place item) (value item)) init (place item) =
        value last := by
  induction l generalizing init item with
  | nil => contradiction
  | cons head rest ih =>
      rw [List.foldl_cons]
      by_cases again : ∃ other ∈ rest, place other = place item
      · obtain ⟨other, inside, same⟩ := again
        obtain ⟨last, later, there, holds⟩ :=
          ih inside (Function.update init (place head) (value head))
        rw [same] at there holds
        exact ⟨last, List.mem_cons_of_mem head later, there, holds⟩
      · have absent : ∀ other ∈ rest, place other ≠ place item := fun other inside same =>
          again ⟨other, inside, same⟩
        obtain rfl : item = head := by
          rcases List.mem_cons.1 member with same | later
          · exact same
          · exact absurd rfl (absent item later)
        refine ⟨item, member, rfl, ?_⟩
        rw [foldl_update_other place value absent, Function.update_self]

end Updates

/-- What several parties have done of their lists `todo`, in one order, comes from the items of
these. -/
theorem exists_merge {ι α β : Type} [DecidableEq ι] (f : α → β) (merged : List (ι × β))
    (todo : ι → List α)
    (each : ∀ i, (merged.filter fun item => item.1 = i).map Prod.snd <+: (todo i).map f) :
    ∃ source : List (ι × α), source.map (fun item => (item.1, f item.2)) = merged ∧
      ∀ i, (source.filter fun item => item.1 = i).map Prod.snd <+: todo i := by
  induction merged generalizing todo with
  | nil => exact ⟨[], rfl, fun i => List.nil_prefix⟩
  | cons item merged ih =>
      obtain ⟨own, made⟩ := item
      have first := each own
      rw [List.filter_cons_of_pos (by simp), List.map_cons] at first
      obtain ⟨next, rest, asked⟩ : ∃ next rest, todo own = next :: rest := by
        cases list : todo own with
        | nil =>
            rw [list] at first
            exact absurd (List.prefix_nil.1 first) (List.cons_ne_nil _ _)
        | cons next rest => exact ⟨next, rest, rfl⟩
      rw [asked, List.map_cons, List.cons_prefix_cons] at first
      obtain ⟨source, made_, order⟩ := ih (Function.update todo own rest) fun i => by
        by_cases same : i = own
        · subst same
          rw [Function.update_self]
          exact first.2
        · have before := each i
          rwa [List.filter_cons_of_neg (by simpa using Ne.symm same),
            ← Function.update_of_ne same rest todo] at before
      refine ⟨(own, next) :: source, ?_, fun i => ?_⟩
      · rw [List.map_cons, made_, ← first.1]
      · by_cases same : i = own
        · subst same
          have later := order i
          rw [Function.update_self] at later
          rw [List.filter_cons_of_pos (by simp), List.map_cons, asked, List.cons_prefix_cons]
          exact ⟨rfl, later⟩
        · have later := order i
          rw [Function.update_of_ne same] at later
          rwa [List.filter_cons_of_neg (by simpa using Ne.symm same)]

theorem map_filterMap_of_some {α β γ : Type} {f : α → Option β} (g : β → γ) (h : α → γ)
    {l : List α} (agree : ∀ a ∈ l, ∀ b, f a = some b → g b = h a) :
    (l.filterMap f).map g = (l.filter fun a => (f a).isSome).map h := by
  induction l with
  | nil => rfl
  | cons a l ih =>
      have rest := ih fun other inside => agree other (List.mem_cons_of_mem a inside)
      cases made : f a with
      | none =>
          rw [List.filterMap_cons_none made, List.filter_cons_of_neg (by simp [made])]
          exact rest
      | some b =>
          rw [List.filterMap_cons_some made, List.filter_cons_of_pos (by simp [made]),
            List.map_cons, List.map_cons, agree a List.mem_cons_self b made, rest]

end Lists

import Mathlib.Data.List.Basic
import Mathlib.Data.List.ReduceOption

namespace Slots

/-! Fixed tables of slots filled first-fit; a slot in use holds an item. -/

abbrev Table (α : Type) := List (Option α)

variable {α β : Type}

def occupied (table : Table α) : List α := table.reduceOption

def add (item : α) : Table α → Table α
  | [] => []
  | none :: table => some item :: table
  | some other :: table => some other :: add item table

def remove (matching : α → Bool) : Table α → Option α × Table α
  | [] => (none, [])
  | none :: table =>
      let rest := remove matching table
      (rest.1, none :: rest.2)
  | some item :: table =>
      if matching item then
        (some item, none :: table)
      else
        let rest := remove matching table
        (rest.1, some item :: rest.2)

def find (matching : α → Bool) (table : Table α) : Option α :=
  (occupied table).find? matching

def firstFree (table : Table α) : Option Nat := table.findIdx? Option.isNone

@[simp] theorem occupied_nil : occupied ([] : Table α) = [] := rfl

@[simp] theorem occupied_none_cons (table : Table α) :
    occupied (none :: table) = occupied table := rfl

@[simp] theorem occupied_some_cons (item : α) (table : Table α) :
    occupied (some item :: table) = item :: occupied table := rfl

theorem occupied_replicate (count : Nat) :
    occupied (List.replicate count (none : Option α)) = [] := by
  induction count with
  | zero => rfl
  | succ count ih => exact ih

theorem add_full (item : α) {table : Table α} (full : none ∉ table) :
    add item table = table := by
  induction table with
  | nil => rfl
  | cons slot table ih =>
      cases slot with
      | none => simp at full
      | some other => rw [add, ih (by simpa using full)]

theorem occupied_add (item : α) {table : Table α} (free : none ∈ table) :
    (occupied (add item table)).Perm (item :: occupied table) := by
  induction table with
  | nil => simp at free
  | cons slot table ih =>
      cases slot with
      | none => exact .refl _
      | some other =>
          have rest := ih (by simpa using free)
          exact (rest.cons other).trans (.swap item other (occupied table))

theorem mem_occupied_add {item other : α} {table : Table α}
    (member : other ∈ occupied (add item table)) :
    other = item ∨ other ∈ occupied table := by
  by_cases free : none ∈ table
  · simpa using (occupied_add item free).subset member
  · rw [add_full item free] at member
    exact .inr member

theorem mem_occupied_add_of_mem (item : α) {other : α} {table : Table α}
    (member : other ∈ occupied table) :
    other ∈ occupied (add item table) := by
  by_cases free : none ∈ table
  · exact (occupied_add item free).symm.subset (List.mem_cons_of_mem _ member)
  · rwa [add_full item free]

theorem remove_eq_none {matching : α → Bool} {table : Table α}
    (absent : (remove matching table).1 = none) :
    (remove matching table).2 = table ∧
      ∀ item ∈ occupied table, matching item = false := by
  induction table with
  | nil => simp [remove]
  | cons slot table ih =>
      cases slot with
      | none =>
          obtain ⟨same, others⟩ := ih absent
          exact ⟨by rw [remove, same], others⟩
      | some item =>
          rw [remove] at absent ⊢
          split at absent
          · contradiction
          next differs =>
            obtain ⟨same, others⟩ := ih absent
            refine ⟨by simp only [if_neg differs, same], ?_⟩
            simpa using ⟨by simpa using differs, others⟩

theorem remove_eq_some {matching : α → Bool} {table : Table α}
    (found : (remove matching table).1 = some item) :
    matching item = true ∧
      (occupied table).Perm (item :: occupied (remove matching table).2) := by
  induction table with
  | nil => simp [remove] at found
  | cons slot table ih =>
      cases slot with
      | none => exact ih found
      | some other =>
          rw [remove] at found ⊢
          split at found
          next matched =>
            obtain rfl := Option.some.inj found
            simp [matched]
          next differs =>
            obtain ⟨matched, rest⟩ := ih found
            refine ⟨matched, ?_⟩
            rw [if_neg differs]
            exact (rest.cons other).trans (.swap item other _)

theorem remove_isSome {matching : α → Bool} {table : Table α}
    (member : item ∈ occupied table) (matched : matching item = true) :
    ∃ found, (remove matching table).1 = some found := by
  cases outcome : (remove matching table).1 with
  | some found => exact ⟨found, rfl⟩
  | none =>
      have differs := (remove_eq_none outcome).2 item member
      rw [matched] at differs
      contradiction

theorem mem_occupied_of_remove {matching : α → Bool} {table : Table α}
    (member : item ∈ occupied (remove matching table).2) :
    item ∈ occupied table := by
  cases outcome : (remove matching table).1 with
  | none => rwa [(remove_eq_none outcome).1] at member
  | some found =>
      exact (remove_eq_some outcome).2.symm.subset
        (List.mem_cons_of_mem _ member)

theorem mem_occupied_remove {matching : α → Bool} {table : Table α}
    (member : item ∈ occupied table) (differs : matching item = false) :
    item ∈ occupied (remove matching table).2 := by
  cases outcome : (remove matching table).1 with
  | none => rwa [(remove_eq_none outcome).1]
  | some found =>
      obtain ⟨matched, split⟩ := remove_eq_some outcome
      rcases List.mem_cons.1 (split.subset member) with rfl | rest
      · rw [differs] at matched
        contradiction
      · exact rest

theorem countP_add (p : α → Bool) (item : α) (table : Table α) :
    (occupied (add item table)).countP p ≤
      (occupied table).countP p + if p item then 1 else 0 := by
  by_cases free : none ∈ table
  · apply Nat.le_of_eq
    rw [(occupied_add item free).countP_eq, List.countP_cons]
  · rw [add_full item free]
    exact Nat.le_add_right _ _

theorem countP_remove (p matching : α → Bool) (table : Table α) :
    (occupied (remove matching table).2).countP p ≤ (occupied table).countP p := by
  cases outcome : (remove matching table).1 with
  | none =>
      apply Nat.le_of_eq
      rw [(remove_eq_none outcome).1]
  | some found =>
      rw [(remove_eq_some outcome).2.countP_eq, List.countP_cons]
      exact Nat.le_add_right _ _

theorem nodup_add {key : α → β} {table : Table α}
    (different : ((occupied table).map key).Nodup) (item : α)
    (fresh : none ∈ table → key item ∉ (occupied table).map key) :
    ((occupied (add item table)).map key).Nodup := by
  by_cases free : none ∈ table
  · rw [((occupied_add item free).map key).nodup_iff, List.map_cons, List.nodup_cons]
    exact ⟨fresh free, different⟩
  · rwa [add_full item free]

theorem not_nodup_add {key : α → β} {table : Table α} {item : α}
    (free : none ∈ table) (there : key item ∈ (occupied table).map key) :
    ¬((occupied (add item table)).map key).Nodup := by
  rw [((occupied_add item free).map key).nodup_iff, List.map_cons, List.nodup_cons]
  exact fun different => different.1 there

theorem nodup_remove {key : α → β} {table : Table α}
    (different : ((occupied table).map key).Nodup) (matching : α → Bool) :
    ((occupied (remove matching table).2).map key).Nodup := by
  cases outcome : (remove matching table).1 with
  | none => rwa [(remove_eq_none outcome).1]
  | some found =>
      rw [((remove_eq_some outcome).2.map key).nodup_iff, List.map_cons,
        List.nodup_cons] at different
      exact different.2

theorem not_mem_remove {key : α → β} {table : Table α} {matching : α → Bool}
    (different : ((occupied table).map key).Nodup)
    (member : item ∈ occupied (remove matching table).2)
    (alike : ∀ found, matching found = true → key found = key item)
    (matched : matching item = true) : False := by
  obtain ⟨found, outcome⟩ := remove_isSome (mem_occupied_of_remove member) matched
  obtain ⟨first, split⟩ := remove_eq_some outcome
  rw [(split.map key).nodup_iff, List.map_cons, List.nodup_cons] at different
  exact different.1 (alike found first ▸ List.mem_map_of_mem member)

theorem getElem?_add {k : Nat} (matching : α → Bool) {item other : α} {table : Table α}
    (matched : matching item = true) (differs : matching other = false) :
    (add item table)[k]? = some (some other) ↔ table[k]? = some (some other) := by
  induction table generalizing k with
  | nil => rfl
  | cons slot table ih =>
      cases slot with
      | none =>
          cases k with
          | zero =>
              have apart : item ≠ other := by
                rintro rfl
                rw [matched] at differs
                contradiction
              simp [add, apart]
          | succ k => rfl
      | some head =>
          cases k with
          | zero => rfl
          | succ k => exact ih

theorem getElem?_remove {k : Nat} {matching : α → Bool} {other : α} {table : Table α}
    (differs : matching other = false) :
    (remove matching table).2[k]? = some (some other) ↔
      table[k]? = some (some other) := by
  induction table generalizing k with
  | nil => rfl
  | cons slot table ih =>
      cases slot with
      | none =>
          cases k with
          | zero => rfl
          | succ k => exact ih
      | some head =>
          rw [remove]
          split
          next matched =>
            cases k with
            | zero =>
                have apart : head ≠ other := by
                  rintro rfl
                  rw [matched] at differs
                  contradiction
                simp [apart]
            | succ k => rfl
          next =>
            cases k with
            | zero => rfl
            | succ k => exact ih

theorem firstFree_eq_some {table : Table α} (free : firstFree table = some i) :
    table[i]? = some none := by
  obtain ⟨bound, isNone, _⟩ := List.findIdx?_eq_some_iff_getElem.1 free
  rw [List.getElem?_eq_getElem bound, Option.isNone_iff_eq_none.1 isNone]

theorem firstFree_eq_none {table : Table α}
    (full : table.countP Option.isSome = table.length) : firstFree table = none := by
  refine List.findIdx?_eq_none_iff.2 fun entry member => ?_
  have used := List.countP_eq_length.1 full entry member
  rw [Option.isNone_eq_false_iff]
  exact used

end Slots

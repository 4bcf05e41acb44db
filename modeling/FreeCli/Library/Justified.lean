import Mathlib.Data.List.Basic

namespace FreeCli

variable {α : Type}

/-! Traces in which each item is justified by those before it. -/

theorem concat_split {trace before after : List α} {last item : α}
    (split : trace ++ [last] = before ++ item :: after) :
    (trace = before ∧ last = item ∧ after = []) ∨
      ∃ earlier, trace = before ++ item :: earlier ∧ after = earlier ++ [last] := by
  rcases List.eq_nil_or_concat after with rfl | ⟨earlier, final, rfl⟩
  · obtain ⟨same, rest⟩ := List.append_inj' split rfl
    exact .inl ⟨same, List.singleton_inj.1 rest, rfl⟩
  · have whole : trace ++ [last] = (before ++ item :: earlier) ++ [final] := by
      rw [split, List.concat_eq_append, List.append_assoc, List.cons_append]
    obtain ⟨same, rest⟩ := List.append_inj' whole rfl
    obtain rfl := List.singleton_inj.1 rest
    exact .inr ⟨earlier, same, List.concat_eq_append⟩

def EachAfter (Justifies : List α → α → Prop) (trace : List α) : Prop :=
  ∀ before item after, trace = before ++ item :: after → Justifies before item

theorem EachAfter.nil {Justifies : List α → α → Prop} : EachAfter Justifies [] := by
  intro before item after split
  simp at split

theorem EachAfter.concat {Justifies : List α → α → Prop} {trace : List α} {last : α}
    (each : EachAfter Justifies trace) (justified : Justifies trace last) :
    EachAfter Justifies (trace ++ [last]) := by
  intro before item after split
  rcases concat_split split with ⟨rfl, rfl, -⟩ | ⟨earlier, split, -⟩
  · exact justified
  · exact each before item earlier split

/-- The last item of a kind in a trace, with what comes before and after it. -/
structure Latest (kind : α → Prop) (trace before : List α) (item : α) (since : List α) :
    Prop where
  split : trace = before ++ item :: since
  is : kind item
  other : ∀ later ∈ since, ¬kind later

theorem Latest.concat {kind : α → Prop} {trace before since : List α} {item last : α}
    (latest : Latest kind trace before item since) (other : ¬kind last) :
    Latest kind (trace ++ [last]) before item (since ++ [last]) where
  split := by rw [latest.split, List.append_assoc, List.cons_append]
  is := latest.is
  other later inside := by
    rcases List.mem_append.1 inside with earlier | here
    · exact latest.other later earlier
    · rwa [List.mem_singleton.1 here]

theorem Latest.of_concat {kind : α → Prop} {trace before since : List α} {item last : α}
    (latest : Latest kind (trace ++ [last]) before item since) (other : ¬kind last) :
    ∃ earlier, Latest kind trace before item earlier := by
  rcases concat_split latest.split with ⟨-, rfl, -⟩ | ⟨earlier, split, rfl⟩
  · exact absurd latest.is other
  · exact ⟨earlier, split, latest.is, fun later inside =>
      latest.other later (List.mem_append_left _ inside)⟩

end FreeCli

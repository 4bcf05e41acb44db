import Mathlib.Data.List.Basic
import Mathlib.Data.List.Induction

namespace Transition

/-! Labelled transition systems given by a partial step function, their runs,
and the rules that carry a property of one step to every run. -/

structure Taken (σ ℓ : Type) where
  src : σ
  label : ℓ
  dst : σ

/-- `trace` lists, oldest first, the steps from a start state to the last
argument. -/
inductive Run (step : σ → ℓ → Option σ) (start : σ → Prop) :
    List (Taken σ ℓ) → σ → Prop
  | start : start state → Run step start [] state
  | snoc : Run step start trace src → step src label = some dst →
      Run step start (trace ++ [⟨src, label, dst⟩]) dst

variable {σ ℓ : Type} {step : σ → ℓ → Option σ} {start : σ → Prop}
  {trace : List (Taken σ ℓ)} {state : σ}

/-- Holds at the start and is kept by every step that meets `Allowed`, hence
holds after every run of such steps; the property may speak of the run. -/
theorem Run.invariant_trace (Allowed : Taken σ ℓ → Prop)
    (Inv : List (Taken σ ℓ) → σ → Prop)
    (initial : ∀ state, start state → Inv [] state)
    (preserved : ∀ trace src label dst, Run step start trace src →
      (∀ taken ∈ trace, Allowed taken) → Inv trace src →
      step src label = some dst → Allowed ⟨src, label, dst⟩ →
      Inv (trace ++ [⟨src, label, dst⟩]) dst)
    (run : Run step start trace state)
    (allowed : ∀ taken ∈ trace, Allowed taken) : Inv trace state := by
  induction run with
  | start first => exact initial _ first
  | snoc before stepped ih =>
      rename_i trace src label dst
      have earlier : ∀ taken ∈ trace, Allowed taken := fun taken member =>
        allowed taken (List.mem_append_left _ member)
      have last : Allowed ⟨src, label, dst⟩ := allowed _ (by simp)
      exact preserved trace src label dst before earlier (ih earlier) stepped
        last

theorem Run.invariant (Allowed : Taken σ ℓ → Prop) (Inv : σ → Prop)
    (initial : ∀ state, start state → Inv state)
    (preserved : ∀ src label dst, Inv src → step src label = some dst →
      Allowed ⟨src, label, dst⟩ → Inv dst)
    (run : Run step start trace state)
    (allowed : ∀ taken ∈ trace, Allowed taken) : Inv state :=
  run.invariant_trace Allowed (fun _ => Inv) initial
    (fun _ src label dst _ _ holds stepped last =>
      preserved src label dst holds stepped last) allowed

theorem Run.always (Inv : σ → Prop) (initial : ∀ state, start state → Inv state)
    (preserved : ∀ src label dst, Inv src → step src label = some dst → Inv dst)
    (run : Run step start trace state) : Inv state :=
  run.invariant (fun _ => True) Inv initial
    (fun src label dst holds stepped _ => preserved src label dst holds stepped)
    (fun _ _ => trivial)

theorem Run.split (run : Run step start (earlier ++ taken :: later) state) :
    Run step start earlier taken.src ∧
      step taken.src taken.label = some taken.dst := by
  generalize whole : earlier ++ taken :: later = trace at run
  induction run generalizing later with
  | start first => simp at whole
  | snoc before stepped ih =>
      rcases List.eq_nil_or_concat later with rfl | ⟨later, last, rfl⟩
      · obtain ⟨rfl, final⟩ := List.append_inj' whole rfl
        obtain rfl := List.singleton_inj.1 final
        exact ⟨before, stepped⟩
      · rw [List.concat_eq_append, ← List.cons_append, ← List.append_assoc]
          at whole
        exact ih (List.append_inj' whole rfl).1

theorem Run.prefix_of_mem (run : Run step start trace state)
    (member : taken ∈ trace) :
    ∃ earlier later, trace = earlier ++ taken :: later ∧
      Run step start earlier taken.src ∧
      step taken.src taken.label = some taken.dst := by
  obtain ⟨earlier, later, rfl⟩ := List.append_of_mem member
  exact ⟨earlier, later, rfl, run.split⟩

theorem Run.last (run : Run step start (earlier ++ [taken]) state) :
    Run step start earlier taken.src ∧ taken.dst = state := by
  generalize whole : earlier ++ [taken] = trace at run
  cases run with
  | start first => simp at whole
  | snoc before stepped =>
      obtain ⟨rfl, final⟩ := List.append_inj' whole rfl
      obtain rfl := List.singleton_inj.1 final
      exact ⟨before, rfl⟩

theorem Run.ended (Holds : σ → Prop) {middle : List (Taken σ ℓ)}
    (run : Run step start (earlier ++ first :: middle) state) (holds : Holds first.dst)
    (lost : ¬Holds state) : ∃ taken ∈ middle, Holds taken.src ∧ ¬Holds taken.dst := by
  induction middle using List.reverseRecOn generalizing state with
  | nil =>
      obtain ⟨_, rfl⟩ := run.last
      exact absurd holds lost
  | append_singleton middle final ih =>
      rw [← List.cons_append, ← List.append_assoc] at run
      obtain ⟨before, rfl⟩ := run.last
      by_cases here : Holds final.src
      · exact ⟨final, by simp, here, lost⟩
      · obtain ⟨taken, member, ends⟩ := ih before here
        exact ⟨taken, List.mem_append_left _ member, ends⟩

/-! Running a list of labels. -/

def exec (step : σ → ℓ → Option σ) : List ℓ → σ → Option σ
  | [], state => some state
  | label :: labels, state => (step state label).bind (exec step labels)

def execTrace (step : σ → ℓ → Option σ) : List ℓ → σ → List (Taken σ ℓ)
  | [], _ => []
  | label :: labels, src =>
      match step src label with
      | none => []
      | some dst => ⟨src, label, dst⟩ :: execTrace step labels dst

theorem Run.exec (run : Run step start trace src)
    (ran : exec step labels src = some state) :
    Run step start (trace ++ execTrace step labels src) state := by
  induction labels generalizing trace src with
  | nil =>
      obtain rfl : src = state := by simpa [Transition.exec] using ran
      simpa [execTrace] using run
  | cons label labels ih =>
      obtain ⟨dst, stepped, rest⟩ := Option.bind_eq_some_iff.1 ran
      have longer := ih (run.snoc stepped) rest
      simpa [execTrace, stepped] using longer

theorem Run.of_exec (first : start src)
    (ran : Transition.exec step labels src = some state) :
    Run step start (execTrace step labels src) state := by
  have run : Run step start [] src := .start first
  simpa using run.exec ran

/-- A run of steps that are all possible follows a second system step by step. -/
theorem exec_simulates {τ : Type} {Follows : σ → τ → Prop} {move : τ → ℓ → τ}
    (follows : ∀ src other label, Follows src other →
      ∃ dst, step src label = some dst ∧ Follows dst (move other label))
    (labels : List ℓ) {src : σ} {other : τ} (here : Follows src other) :
    ∃ dst, exec step labels src = some dst ∧ Follows dst (labels.foldl move other) := by
  induction labels generalizing src other with
  | nil => exact ⟨src, rfl, here⟩
  | cons label labels ih =>
      obtain ⟨mid, stepped, next⟩ := follows src other label here
      obtain ⟨dst, ran, last⟩ := ih next
      refine ⟨dst, ?_, last⟩
      rw [exec, stepped]
      exact ran

/-! Stepping on inputs from outside. -/

/-- The state after at most `n` steps; a state without a step stays. -/
def drive (step : ι → σ → Option σ) : (inputs : Nat → ι) → (n : Nat) → σ → σ
  | _, 0, state => state
  | inputs, n + 1, state =>
      match step (inputs 0) state with
      | none => state
      | some next => drive step (fun k => inputs (k + 1)) n next

/-- Whatever the inputs, steps that descend come to an end. -/
theorem drive_ends {step : ι → σ → Option σ} {below : σ → σ → Prop}
    (wellFounded : WellFounded below)
    (descends : ∀ input state next, step input state = some next → below next state)
    (inputs : Nat → ι) (state : σ) :
    ∃ n input, step input (drive step inputs n state) = none := by
  induction state using wellFounded.induction generalizing inputs with
  | h state ih =>
      cases stepped : step (inputs 0) state with
      | none => exact ⟨0, inputs 0, stepped⟩
      | some next =>
          obtain ⟨n, input, ended⟩ :=
            ih next (descends _ _ _ stepped) fun k => inputs (k + 1)
          refine ⟨n + 1, input, ?_⟩
          rw [drive, stepped]
          exact ended

/-! Steps that send messages. -/

/-- Some steps of `move`, with all that they send. -/
inductive Emits (move : σ → List ℓ → σ → Prop) : σ → List ℓ → σ → Prop
  | refl (state : σ) : Emits move state [] state
  | step : move src new mid → Emits move mid sent dst →
      Emits move src (new ++ sent) dst

variable {move : σ → List ℓ → σ → Prop} {src mid dst : σ} {sent more : List ℓ}

theorem Emits.single (moved : move src sent dst) : Emits move src sent dst := by
  have emitted := Emits.step moved (.refl dst)
  rwa [List.append_nil] at emitted

theorem Emits.trans (first : Emits move src sent mid) (second : Emits move mid more dst) :
    Emits move src (sent ++ more) dst := by
  induction first with
  | refl => exact second
  | step moved _ ih =>
      rw [List.append_assoc]
      exact .step moved (ih second)

theorem Emits.carries (Holds : σ → List ℓ → Prop)
    (kept : ∀ src sent new dst, Holds src sent → move src new dst →
      Holds dst (sent ++ new))
    (emits : Emits move src more dst) (here : Holds src sent) :
    Holds dst (sent ++ more) := by
  induction emits generalizing sent with
  | refl => rwa [List.append_nil]
  | step moved _ ih =>
      rw [← List.append_assoc]
      exact ih (kept _ _ _ _ here moved)

end Transition

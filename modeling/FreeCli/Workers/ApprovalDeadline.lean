import FreeCli.Workers.ApprovalExclusion

namespace FreeCli

open Words Slots Lists Transition

/-! The end of a wait. `pthread_cond_timedwait` may report the deadline although a
decision was recorded before the mutex was taken again. -/

namespace Approvals

variable {state : Approvals} {trace : Trace}

/-- The wait of call `i` reports its deadline although its slot holds an approval. -/
def Overrules (i : Nat) (taken : Taken Approvals ApprovalLabel) : Prop :=
  taken.label = .run i true ∧ ∃ (call : ApprovalCall) (slot : Nat),
    taken.src.calls[i]? = some call ∧ call.phase = .blocked slot ∧
      taken.src.table.decidedAt slot = some 1

theorem overrules_run {src dst : Approvals} {call : ApprovalCall}
    (here : src.calls[i]? = some call) :
    Overrules i ⟨src, .run j late, dst⟩ ↔
      (j = i ∧ late = true) ∧ ∃ slot, call.phase = .blocked slot ∧
        src.table.decidedAt slot = some 1 := by
  constructor
  · rintro ⟨same, other, slot, there, at_, decided⟩
    cases same
    rw [here] at there
    obtain rfl := Option.some.inj there
    exact ⟨⟨rfl, rfl⟩, slot, at_, decided⟩
  · rintro ⟨⟨rfl, rfl⟩, slot, at_, decided⟩
    exact ⟨rfl, call, slot, here, at_, decided⟩

/-- The last notification that call `i` heard approves. -/
def Approved (i : Nat) (trace : Trace) (state : Approvals) : Prop :=
  ∃ call, state.calls[i]? = some call ∧ (heard i call.corrId trace).getLast? = some true

theorem approved_iff {call : ApprovalCall} (here : state.calls[i]? = some call) :
    Approved i trace state ↔ (heard i call.corrId trace).getLast? = some true := by
  constructor
  · rintro ⟨other, there, last⟩
    rw [here] at there
    obtain rfl := Option.some.inj there
    exact last
  · exact fun last => ⟨call, here, last⟩

/-- A wait was overruled exactly where one timed out after an approval was heard. -/
def Tracked (i : Nat) (trace : Trace) (state : Approvals) : Prop :=
  (∃ taken ∈ trace, Overrules i taken) ↔ timedOut i trace = true ∧ Approved i trace state

theorem overrules_snoc (taken : Taken Approvals ApprovalLabel) :
    (∃ other ∈ trace ++ [taken], Overrules i other) ↔
      (∃ other ∈ trace, Overrules i other) ∨ Overrules i taken := by
  simp only [List.mem_append, List.mem_singleton, or_and_right, exists_or, exists_eq_left]

theorem Tracked.quiet (tracked : Tracked i trace state) (keeps : ¬Overrules i taken)
    (same : (timedOut i (trace ++ [taken]) = true ∧ Approved i (trace ++ [taken]) next) ↔
      (timedOut i trace = true ∧ Approved i trace state)) :
    Tracked i (trace ++ [taken]) next := by
  rw [Tracked, overrules_snoc, same, or_iff_left keeps]
  exact tracked

theorem Tracked.called (tracked : Tracked i trace state) (told : Told trace state i)
    (corrId : Nat) (next : Approvals) :
    Tracked i (trace ++ [⟨state, .call corrId, next⟩])
      { state with calls := state.calls ++ [⟨corrId, .claim⟩] } := by
  apply tracked.quiet
  · rintro ⟨label, _⟩
    contradiction
  · rw [timedOut_call]
    apply and_congr_right
    intro late
    rw [Approved, Approved]
    cases at_ : state.calls[i]? with
    | none =>
        simp only [Told, at_] at told
        rw [told.2] at late
        contradiction
    | some call =>
        obtain ⟨inside, _⟩ := List.getElem?_eq_some_iff.1 at_
        rw [List.getElem?_append_left inside, at_]
        simp only [heard_call]

theorem Tracked.notified (tracked : Tracked i trace state) (told : Told trace state i)
    (corrId : Nat) (approved : Bool) (next : Approvals) :
    Tracked i (trace ++ [⟨state, .notify corrId approved, next⟩])
      { state with table := bwNotifyApproval corrId approved state.table } := by
  apply tracked.quiet
  · rintro ⟨label, _⟩
    contradiction
  · rw [timedOut_notify]
    apply and_congr_right
    intro late
    -- a call that still listens has not timed out
    have deaf : listens i state = false := by
      cases at_ : state.calls[i]? with
      | none => simp [listens, at_]
      | some call =>
          simp only [Told, at_] at told
          cases phase : call.phase with
          | ask slot | wait slot | blocked slot =>
              simp only [phase] at told
              rw [told.2] at late
              contradiction
          | claim | release slot approved | returned approved =>
              simp [listens, at_, phase, ApprovalPhase.listens]
    rw [Approved, Approved]
    simp only [heard_notify, deaf, Bool.false_eq_true, and_false, if_false, List.append_nil]

theorem Tracked.ran (tracked : Tracked i trace state) (told : Told trace state i)
    {call after : ApprovalCall} {table : ApprovalTable} (here : state.calls[j]? = some call)
    (moved : call.Move late state.table after table) (next : Approvals) :
    Tracked i (trace ++ [⟨state, .run j late, next⟩])
      { table, calls := state.calls.set j after } := by
  by_cases same : j = i
  · subst same
    obtain ⟨bound, _⟩ := List.getElem?_eq_some_iff.1 here
    have stays : Approved j (trace ++ [⟨state, .run j late, next⟩])
        { table, calls := state.calls.set j after } ↔ Approved j trace state := by
      rw [approved_iff (List.getElem?_set_self bound), approved_iff here, heard_run,
        moved.corrId]
    by_cases waiting : call.phase.blocks = true ∧ late = true
    · obtain ⟨blocked, rfl⟩ := waiting
      cases at_ : call.phase with
      | blocked slot =>
          simp only [Told, here, at_] at told
          have lasts : state.table.decidedAt slot = some 1 ↔ Approved j trace state := by
            rw [told.1, Option.some.injEq, decision_eq_one, approved_iff here]
          rw [Tracked, overrules_snoc, stays, overrules_run here, timedOut_run, here]
          simp [tracked.not.2 (by simp [told.2]), at_, ApprovalPhase.blocks, lasts]
      | _ =>
          rw [at_] at blocked
          contradiction
    · apply tracked.quiet
      · rw [overrules_run here]
        rintro ⟨⟨_, isLate⟩, slot, at_, _⟩
        exact waiting ⟨by rw [at_]; rfl, isLate⟩
      · have awake : (late && call.phase.blocks) = false := by
          cases late <;> cases blocks : call.phase.blocks <;> simp_all
        rw [stays, timedOut_run, here]
        simp [awake]
  · apply tracked.quiet
    · rintro ⟨label, _⟩
      cases label
      exact same rfl
    · rw [timedOut_run, Approved, Approved, List.getElem?_set_ne same]
      simp [same]

theorem tracked_run (run : Run Approvals.step start trace state) (i : Nat) :
    Tracked i trace state := by
  refine run.invariant_trace (fun _ => True) (fun trace state => Tracked i trace state) ?_ ?_
    fun _ _ => trivial
  · rintro state rfl
    simp [Tracked, timedOut]
  · intro trace src label dst before _ tracked stepped _
    have told := told_run before i
    rcases step_cases stepped with ⟨corrId, rfl, -, rfl⟩ |
      ⟨j, late, call, after, table, rfl, here, -, moved, rfl⟩ | ⟨corrId, approved, rfl, rfl⟩
    · exact tracked.called told corrId _
    · exact tracked.ran told here moved _
    · exact tracked.notified told corrId approved _

/-- A call returns the last decision recorded before it read its slot, unless its wait
ended with the deadline after an approval was recorded. -/
theorem decision_honoured (run : Run Approvals.step start trace state)
    {call : ApprovalCall} (here : state.calls[i]? = some call)
    (returned : call.phase = .returned approved) :
    (∀ decided, (heard i call.corrId trace).getLast? = some decided → approved = decided) ↔
      ∀ taken ∈ trace, ¬Overrules i taken := by
  have told := told_run run i
  simp only [Told, here, returned] at told
  have tracked := tracked_run run i
  rw [Tracked, approved_iff here] at tracked
  have never : (∀ taken ∈ trace, ¬Overrules i taken) ↔
      ¬(timedOut i trace = true ∧ (heard i call.corrId trace).getLast? = some true) := by
    rw [← tracked]
    simp only [not_exists, not_and]
  rw [never, told, verdict]
  cases last : (heard i call.corrId trace).getLast? with
  | none => simp
  | some decided => cases decided <;> simp

theorem decision_honoured_two :
    ∃ trace state, Run Approvals.step start trace state ∧
      state.calls[0]? = some ⟨7, .returned true⟩ ∧
      ((∀ decided, (heard 0 7 trace).getLast? = some decided → true = decided) ↔
        ∀ taken ∈ trace, ¬Overrules 0 taken) := by
  have ran : exec Approvals.step twoCalls ⟨noApprovals, []⟩ =
      some ⟨noApprovals, [⟨7, .returned true⟩, ⟨9, .returned false⟩]⟩ := by
    decide +kernel
  have run : Run Approvals.step Approvals.start _ _ := Run.of_exec rfl ran
  have here : (Approvals.mk noApprovals [⟨7, .returned true⟩, ⟨9, .returned false⟩]).calls[0]? =
      some ⟨7, .returned true⟩ := rfl
  exact ⟨_, _, run, here, decision_honoured run here rfl⟩

/-- The request is approved while it waits, and the wait then reports its deadline. -/
def overruledCall : List ApprovalLabel :=
  [.call 7, .run 0 false, .run 0 false, .run 0 false, .notify 7 true, .run 0 true,
    .run 0 false]

theorem decision_overruled : ¬∀ (trace : Trace) (state : Approvals) (i : Nat)
    (call : ApprovalCall) (approved : Bool), Run Approvals.step start trace state →
      state.calls[i]? = some call → call.phase = .returned approved →
      ∀ decided, (heard i call.corrId trace).getLast? = some decided →
        approved = decided := by
  intro honoured
  have ran : exec Approvals.step overruledCall ⟨noApprovals, []⟩ =
      some ⟨noApprovals, [⟨7, .returned false⟩]⟩ := by
    decide +kernel
  have run : Run Approvals.step Approvals.start _ _ := Run.of_exec rfl ran
  have last : (heard 0 7 (execTrace Approvals.step overruledCall
      ⟨noApprovals, []⟩)).getLast? = some true := by
    decide +kernel
  exact absurd (honoured _ _ 0 ⟨7, .returned false⟩ false run rfl rfl true last) (by decide)

end Approvals

end FreeCli

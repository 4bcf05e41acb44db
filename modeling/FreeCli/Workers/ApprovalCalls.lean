import FreeCli.Library.Transition
import FreeCli.Workers.ApprovalSlots

namespace FreeCli

open Words Slots Lists Transition

/-! Any number of calls of `bw_request_approval` beside any calls of
`bw_notify_approval`. A section under a mutex is one step; the table is the one
`bw_registry_init` makes before the first thread. -/

inductive ApprovalPhase where
  | claim
  | ask (slot : Nat)
  /-- before the wait loop -/
  | wait (slot : Nat)
  /-- in `pthread_cond_timedwait` -/
  | blocked (slot : Nat)
  | release (slot : Nat) (approved : Bool)
  | returned (approved : Bool)
  deriving DecidableEq, Repr

namespace ApprovalPhase

def slot : ApprovalPhase → Option Nat
  | .ask slot | .wait slot | .blocked slot | .release slot _ => some slot
  | .claim | .returned _ => none

def listens : ApprovalPhase → Bool
  | .ask _ | .wait _ | .blocked _ => true
  | .claim | .release .. | .returned _ => false

def blocks : ApprovalPhase → Bool
  | .blocked _ => true
  | _ => false

def inProgress : ApprovalPhase → Bool
  | .returned _ => false
  | _ => true

end ApprovalPhase

theorem ApprovalPhase.inProgress_of_slot {phase : ApprovalPhase}
    (holds : phase.slot = some k) : phase.inProgress = true := by
  cases phase <;> first | contradiction | rfl

structure ApprovalCall where
  corrId : Nat
  phase : ApprovalPhase
  deriving DecidableEq, Repr

namespace ApprovalCall

variable (call : ApprovalCall)

def goto (phase : ApprovalPhase) : ApprovalCall := { call with phase }

/-- The test of the wait loop: blocks, or reads the decision. -/
def check (slot : Nat) (table : ApprovalTable) :
    Option (ApprovalCall × ApprovalTable) :=
  match table[slot]? with
  | some (some pending) =>
      if pending.decided = 0 then
        some (call.goto (.blocked slot), table)
      else
        some (call.goto (.release slot (pending.decided = 1)), table)
  | _ => none

/-- The deadline passes: the request is denied whatever was decided. -/
def expire (slot : Nat) (table : ApprovalTable) :
    Option (ApprovalCall × ApprovalTable) :=
  match table[slot]? with
  | some (some pending) =>
      some (call.goto (.release slot false),
        table.set slot (some { pending with decided := -1 }))
  | _ => none

/-- The next section of the call. -/
def bwRequestApproval (timedOut : Bool) (table : ApprovalTable) :
    Option (ApprovalCall × ApprovalTable) :=
  match call.phase with
  | .claim =>
      match firstFree table with
      | none => some (call.goto (.returned false), table)
      | some slot =>
          some (call.goto (.ask slot), table.set slot (some ⟨call.corrId, 0⟩))
  | .ask slot => some (call.goto (.wait slot), table)
  | .wait slot => call.check slot table
  | .blocked slot => if timedOut then call.expire slot table else call.check slot table
  | .release slot approved => some (call.goto (.returned approved), table.set slot none)
  | .returned _ => none

end ApprovalCall

/-! What one section can do, said once. -/

namespace ApprovalCall

def Waits (call : ApprovalCall) (slot : Nat) (timedOut : Bool) : Prop :=
  call.phase = .wait slot ∨ call.phase = .blocked slot ∧ timedOut = false

theorem Waits.phase {call : ApprovalCall} {slot : Nat} {late : Bool}
    (waits : call.Waits slot late) :
    call.phase.slot = some slot ∧ call.phase.listens = true := by
  rcases waits with at_ | ⟨at_, _⟩
  · rw [at_]
    exact ⟨rfl, rfl⟩
  · rw [at_]
    exact ⟨rfl, rfl⟩

inductive Move (call : ApprovalCall) (timedOut : Bool) (table : ApprovalTable) :
    ApprovalCall → ApprovalTable → Prop
  | full (at_ : call.phase = .claim) (full : firstFree table = none) :
      Move call timedOut table (call.goto (.returned false)) table
  | claimed (slot : Nat) (at_ : call.phase = .claim)
      (free : table[slot]? = some none) :
      Move call timedOut table (call.goto (.ask slot))
        (table.set slot (some ⟨call.corrId, 0⟩))
  | asked (slot : Nat) (at_ : call.phase = .ask slot) :
      Move call timedOut table (call.goto (.wait slot)) table
  | blocks (slot : Nat) (at_ : call.Waits slot timedOut) :
      Move call timedOut table (call.goto (.blocked slot)) table
  | reads (slot : Nat) (pending : PendingApproval) (at_ : call.Waits slot timedOut)
      (held : table[slot]? = some (some pending)) :
      Move call timedOut table (call.goto (.release slot (pending.decided = 1))) table
  | expires (slot : Nat) (pending : PendingApproval)
      (at_ : call.phase = .blocked slot) (late : timedOut = true)
      (held : table[slot]? = some (some pending)) :
      Move call timedOut table (call.goto (.release slot false))
        (table.set slot (some { pending with decided := -1 }))
  | releases (slot : Nat) (approved : Bool) (at_ : call.phase = .release slot approved) :
      Move call timedOut table (call.goto (.returned approved)) (table.set slot none)

variable {call next : ApprovalCall} {late : Bool} {table after : ApprovalTable}

theorem check_move (at_ : call.Waits slot late)
    (checked : call.check slot table = some (next, after)) :
    Move call late table next after := by
  rw [check] at checked
  split at checked
  next pending held =>
    split at checked
    · cases checked
      exact .blocks slot at_
    · cases checked
      exact .reads slot pending at_ held
  next => contradiction

theorem move_of_section
    (ran : call.bwRequestApproval late table = some (next, after)) :
    Move call late table next after := by
  rw [bwRequestApproval.eq_def] at ran
  split at ran
  next at_ =>
    split at ran
    next full =>
      cases ran
      exact .full at_ full
    next slot free =>
      cases ran
      exact .claimed slot at_ (firstFree_eq_some free)
  next slot at_ =>
    cases ran
    exact .asked slot at_
  next slot at_ => exact check_move (.inl at_) ran
  next slot at_ =>
    split at ran
    next isLate =>
      rw [expire] at ran
      split at ran
      next pending held =>
        cases ran
        exact .expires slot pending at_ isLate held
      next => contradiction
    next early => exact check_move (.inr ⟨at_, by simpa using early⟩) ran
  next slot approved at_ =>
    cases ran
    exact .releases slot approved at_
  next => contradiction

theorem inProgress_of_section
    (ran : call.bwRequestApproval late table = some (next, after)) :
    call.phase.inProgress = true := by
  cases at_ : call.phase with
  | returned approved => simp [bwRequestApproval, at_] at ran
  | _ => rfl

theorem Move.corrId (moved : Move call late table next after) :
    next.corrId = call.corrId := by
  cases moved <;> rfl

end ApprovalCall

/-- The table and all the calls ever made. -/
structure Approvals where
  table : ApprovalTable
  calls : List ApprovalCall
  deriving DecidableEq, Repr

inductive ApprovalLabel where
  /-- A thread calls `bw_request_approval`. -/
  | call (corrId : Nat)
  /-- The next section of a call; `timedOut` is that of the wait. -/
  | run (i : Nat) (timedOut : Bool)
  | notify (corrId : Nat) (approved : Bool)
  deriving DecidableEq, Repr

namespace Approvals

def busy (state : Approvals) (corrId : Nat) : Bool :=
  state.calls.any fun call => call.phase.inProgress && call.corrId == corrId

def step (state : Approvals) : ApprovalLabel → Option Approvals
  | .call corrId =>
      if state.busy corrId then
        none
      else
        some { state with calls := state.calls ++ [⟨corrId, .claim⟩] }
  | .run i timedOut => do
      let call ← state.calls[i]?
      let (call, table) ← call.bwRequestApproval timedOut state.table
      some { table, calls := state.calls.set i call }
  | .notify corrId approved =>
      some { state with table := bwNotifyApproval corrId approved state.table }

def start (state : Approvals) : Prop := state = ⟨noApprovals, []⟩

abbrev Trace := List (Taken Approvals ApprovalLabel)

/-- Call `i` has claimed its slot and not read the decision. -/
def listens (i : Nat) (state : Approvals) : Bool :=
  (state.calls[i]?).any fun call => call.phase.listens

/-- The notifications for `corrId` that ran while call `i` listened. -/
def heard (i corrId : Nat) (trace : Trace) : List Bool :=
  trace.filterMap fun taken =>
    match taken.label with
    | .notify other approved =>
        if other = corrId ∧ listens i taken.src then some approved else none
    | _ => none

def timedOut (i : Nat) (trace : Trace) : Bool :=
  trace.any fun taken => taken.label == .run i true &&
    (taken.src.calls[i]?).any fun call => call.phase.blocks

end Approvals

/-! The threads of the worker make such calls. -/

namespace WorkerThread

/-- Where a thread is in its call; one that was woken makes the test of the loop in
its next step. -/
inductive InCall (thread : WorkerThread) : ApprovalPhase → Prop
  | claim (at_ : thread.phase = .claim) : InCall thread .claim
  | ask (slot : Nat) (at_ : thread.phase = .ask slot) : InCall thread (.ask slot)
  | wait (slot : Nat) (at_ : thread.phase = .wait slot) : InCall thread (.wait slot)
  | woken (slot : Nat) (at_ : thread.phase = .wait slot) : InCall thread (.blocked slot)
  | blocked (slot : Nat) (at_ : thread.phase = .blocked slot) :
      InCall thread (.blocked slot)
  | release (slot : Nat) (approved : Bool) (at_ : thread.phase = .release slot approved) :
      InCall thread (.release slot approved)
  | granted (at_ : thread.phase = .change) : InCall thread (.returned true)
  | denied (text : Bytes) (at_ : thread.phase = .reply false text) :
      InCall thread (.returned false)

variable {priv : FsPriv} {thread next : WorkerThread} {env : WorkerEnv} {bus after : Bus}
  {op : FsOp} {phase : ApprovalPhase}

theorem wait_inCall (stepped : thread.wait slot bus = some (next, after)) :
    ∃ call, (ApprovalCall.mk thread.corrId phase).check slot bus.approvals =
      some (call, after.approvals) ∧ next.InCall call.phase := by
  rw [ApprovalCall.check]
  rw [wait] at stepped
  rcases held : bus.approvals[slot]? with _ | _ | pending
  · simp only [held] at stepped
    contradiction
  · simp only [held] at stepped
    contradiction
  · simp only [held] at stepped ⊢
    split at stepped
    next undecided =>
      cases stepped
      exact ⟨_, if_pos undecided, .blocked slot rfl⟩
    next decided =>
      cases stepped
      exact ⟨_, if_neg decided, .release slot _ rfl⟩

theorem step_inCall (stepped : thread.step priv env bus = some (next, after))
    (known : fsDispatch thread.op = some op) (inCall : thread.InCall phase)
    (going : phase.inProgress = true) :
    next.InCall phase ∧ after.approvals = bus.approvals ∨
      ∃ late call, (ApprovalCall.mk thread.corrId phase).bwRequestApproval late
          bus.approvals = some (call, after.approvals) ∧ next.InCall call.phase := by
  cases inCall with
  | claim at_ =>
      simp only [step, at_, known, stepOp, claim, Option.some.injEq] at stepped
      refine .inr ⟨false, ?_⟩
      simp only [ApprovalCall.bwRequestApproval]
      cases free : firstFree bus.approvals with
      | none =>
          simp only [free] at stepped ⊢
          cases stepped
          exact ⟨_, rfl, .denied _ rfl⟩
      | some slot =>
          simp only [free] at stepped ⊢
          cases stepped
          exact ⟨_, rfl, .ask slot rfl⟩
  | ask slot at_ =>
      simp only [step, at_, known, stepOp, Option.some.injEq] at stepped
      cases stepped
      exact .inr ⟨false, _, rfl, .wait slot rfl⟩
  | wait slot at_ =>
      simp only [step, at_, known, stepOp] at stepped
      exact .inr ⟨false, wait_inCall stepped⟩
  | woken slot at_ =>
      simp only [step, at_, known, stepOp] at stepped
      exact .inr ⟨false, wait_inCall stepped⟩
  | blocked slot at_ =>
      simp only [step, at_, known, stepOp, wake] at stepped
      split at stepped
      next pending held =>
        split at stepped
        · cases stepped
          refine .inr ⟨true, ⟨thread.corrId, .release slot false⟩, ?_,
            .release slot false rfl⟩
          simp [ApprovalCall.bwRequestApproval, ApprovalCall.expire, ApprovalCall.goto, held]
        · cases stepped
          exact .inl ⟨.woken slot rfl, rfl⟩
      next => contradiction
  | release slot approved at_ =>
      simp only [step, at_, known, stepOp, release, Option.some.injEq] at stepped
      cases stepped
      refine .inr ⟨false, _, rfl, ?_⟩
      cases approved
      · exact .denied _ rfl
      · exact .granted rfl
  | granted at_ => contradiction
  | denied text at_ => contradiction

end WorkerThread

end FreeCli

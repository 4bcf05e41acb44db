import FreeCli.Core.Messages
import FreeCli.Library.Slots

namespace FreeCli

open Words Slots

/-! The approval table of `backend_worker.c`.  Every section under a mutex is
one step of its thread. -/

structure PendingApproval where
  corrId : Nat
  /-- 0 pending, 1 approved, -1 denied -/
  decided : Int
  deriving DecidableEq, Repr

abbrev ApprovalTable := Table PendingApproval

def maxPendingApprovals : Nat := 8

def noApprovals : ApprovalTable := List.replicate maxPendingApprovals none

/-- `bw_notify_approval`: the first slot in use for the request is decided. -/
def bwNotifyApproval (corrId : Nat) (approved : Bool) :
    ApprovalTable → ApprovalTable
  | [] => []
  | none :: table => none :: bwNotifyApproval corrId approved table
  | some slot :: table =>
      if slot.corrId = corrId then
        some { slot with decided := if approved then 1 else -1 } :: table
      else
        some slot :: bwNotifyApproval corrId approved table

/-- A notification keeps who holds which slot, and decides only the request's. -/
theorem bwNotifyApproval_getElem? (corrId : Nat) (approved : Bool)
    (table : ApprovalTable) (i : Nat) :
    (bwNotifyApproval corrId approved table)[i]? = table[i]? ∨
      ∃ slot, table[i]? = some (some slot) ∧ slot.corrId = corrId ∧
        (bwNotifyApproval corrId approved table)[i]? =
          some (some { slot with decided := if approved then 1 else -1 }) := by
  induction table generalizing i with
  | nil => exact .inl rfl
  | cons entry table ih =>
      cases entry with
      | none =>
          cases i with
          | zero => exact .inl rfl
          | succ i => exact ih i
      | some slot =>
          rw [bwNotifyApproval]
          split
          next same =>
            cases i with
            | zero => exact .inr ⟨slot, rfl, same, rfl⟩
            | succ i => exact .inl rfl
          next =>
            cases i with
            | zero => exact .inl rfl
            | succ i => exact ih i

end FreeCli

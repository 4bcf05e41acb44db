import FreeCli.Ui.Received

namespace FreeCli

open Words Slots Guarded

/-! `check_ipc` on the messages the backend encodes is `check_ipc` on their
values. -/

/-- How a message travels.  An error has no terminator and is left out. -/
inductive Carried : ToTui → IpcMsg → Prop
  | repFinal (corrId : UInt64) (v : RepFinal) (fits : v.size < 2 ^ 32)
      (index : v.sessionIdx.toNat < 2 ^ 31) :
      Carried
        (.repFinal corrId.toNat v.sessionIdx.toNat (text v.content)
          (v.reasoning.map CString.bytes))
        ⟨msgRepFinal, corrId, (ipcEncodeRepFinal v).buf⟩
  | workerStart (corrId : UInt64) (v : WorkerStart) (fits : v.size < 2 ^ 32)
      (named : text v.model ≠ []) :
      Carried
        (.workerStart corrId.toNat v.parentCorrId.toNat (text v.model)
          (text v.description))
        ⟨msgWorkerStart, corrId, (ipcEncodeWorkerStart v).buf⟩
  | workerEnd (corrId : UInt64) :
      Carried (.workerEnd corrId.toNat) ⟨msgWorkerEnd, corrId, []⟩
  | workerRep (corrId : UInt64) (v : WorkerRep) (fits : v.size < 2 ^ 32) :
      Carried (.workerRep corrId.toNat (v.success ≠ 0) (text v.result))
        ⟨msgWorkerRep, corrId, (ipcEncodeWorkerRep v).buf⟩
  | approvalReq (corrId : UInt64) (v : ApprovalReq) (fits : v.size < 2 ^ 32)
      (described : text v.description ≠ []) :
      Carried
        (.approvalReq corrId.toNat v.reqCorrId.toNat (text v.description))
        ⟨msgApprovalReq, corrId, (ipcEncodeApprovalReq v).buf⟩
  | sessionRename (corrId : UInt64) (v : SessionRename) (fits : v.size < 2 ^ 32)
      (index : v.sessionIdx.toNat < 2 ^ 31) :
      Carried (.sessionRename corrId.toNat v.sessionIdx.toNat (text v.topic))
        ⟨msgSessionRename, corrId, (ipcEncodeSessionRename v).buf⟩

theorem stringOr_carries (null : Bytes) (carries : Carries block s)
    (given : null = [] ∨ text s ≠ []) :
    stringOr null block = some (text s) := by
  cases block with
  | none =>
      have empty : text s = [] := carries
      rw [stringOr, given.resolve_right (fun nonempty => nonempty empty), empty]
  | some b =>
      obtain ⟨ended, same⟩ := carries
      rw [stringOr, cString, if_pos ended, same]

theorem stringOrNull_carries {s : Option CString} (carries : Carries block s) :
    ∃ result, stringOrNull block = some result ∧
      result.filter (fun bytes => bytes ≠ []) =
        (s.map CString.bytes).filter fun bytes => bytes ≠ [] := by
  have shown : ((some (text s)).filter fun bytes => bytes ≠ []) =
      (s.map CString.bytes).filter fun bytes => bytes ≠ [] := by
    cases s <;> rfl
  cases block with
  | none =>
      have empty : text s = [] := carries
      refine ⟨none, rfl, ?_⟩
      rw [← shown, empty]
      rfl
  | some b =>
      obtain ⟨ended, same⟩ := carries
      refine ⟨some (terminated b), ?_, ?_⟩
      · rw [stringOrNull, cString, if_pos ended, Option.map_some]
      · rw [← shown, same]

theorem SessionManager.chatAt_same (sm : SessionManager) {sidx : Int}
    (valid : 0 ≤ sidx) : sm.chatAt sidx sidx = some (sm.replyIndex sidx) := by
  rw [chatAt, replyIndex]
  by_cases small : sidx < sm.smCount
  · rw [if_pos small, if_pos ⟨valid, small⟩, if_pos ⟨valid, small⟩]
  · rw [if_neg small, if_neg fun inside => small inside.2]

namespace Tui

variable {tui : Tui}

theorem checkRepFinal_carried (corrId : UInt64) (v : RepFinal)
    (fits : v.size < 2 ^ 32) (index : v.sessionIdx.toNat < 2 ^ 31)
    (choices : List Bytes) :
    tui.checkRepFinal ⟨msgRepFinal, corrId, (ipcEncodeRepFinal v).buf⟩ choices =
      some (tui.repFinal corrId.toNat v.sessionIdx.toNat (text v.content)
        (v.reasoning.map CString.bytes) choices) := by
  obtain ⟨out, ran, agrees⟩ := ipcDecodeRepFinal_encode v fits ⟨0, none, none⟩
  have content := stringOr_carries [] agrees.content (.inl rfl)
  obtain ⟨reasoning, read, shown⟩ := stringOrNull_carries agrees.reasoning
  have asInt : (v.sessionIdx.toInt32.toInt : Int) = v.sessionIdx.toNat := by
    rw [toInt_toInt32, if_pos index]
  have valid : (0 : Int) ≤ if (inflightRemove tui.inFlight corrId.toNat).1 ≥ 0 then
      (inflightRemove tui.inFlight corrId.toNat).1 else v.sessionIdx.toNat := by
    split <;> omega
  have same : ∀ cb : ChatBuffer, ∀ text, chatAddR cb text false reasoning =
      chatAddR cb text false (v.reasoning.map CString.bytes) := by
    intro cb text
    rw [chatAddR, chatAddR, shown]
  rw [checkRepFinal, ran]
  simp only [Option.bind_eq_bind, Option.bind_some, if_true, asInt,
    SessionManager.chatAt_same _ valid, agrees.sessionIdx, repFinal]
  cases tui.sessions.replyIndex (if (inflightRemove tui.inFlight corrId.toNat).1 ≥ 0 then
      (inflightRemove tui.inFlight corrId.toNat).1 else v.sessionIdx.toNat) with
  | none => rfl
  | some idx =>
      simp only [content, read, Option.bind_some, same]

theorem checkWorkerStart_carried (corrId : UInt64) (v : WorkerStart)
    (fits : v.size < 2 ^ 32) (named : text v.model ≠ []) :
    tui.checkWorkerStart ⟨msgWorkerStart, corrId, (ipcEncodeWorkerStart v).buf⟩ =
      some (tui.workerStart corrId.toNat v.parentCorrId.toNat (text v.model)
        (text v.description)) := by
  obtain ⟨out, ran, agrees⟩ := ipcDecodeWorkerStart_encode v fits ⟨0, none, none⟩
  have model := stringOr_carries (ascii "?") agrees.model (.inr named)
  have description := stringOr_carries [] agrees.description (.inl rfl)
  rw [checkWorkerStart, ran]
  simp only [Option.bind_eq_bind, Option.bind_some, if_true, model, description,
    agrees.parentCorrId, workerStart, if_pos named]

theorem checkWorkerRep_carried (corrId : UInt64) (v : WorkerRep)
    (fits : v.size < 2 ^ 32) :
    tui.checkWorkerRep ⟨msgWorkerRep, corrId, (ipcEncodeWorkerRep v).buf⟩ =
      some (tui.workerRep (v.success ≠ 0) (text v.result)) := by
  obtain ⟨out, ran, agrees⟩ := ipcDecodeWorkerRep_encode v fits ⟨0, none⟩
  have result := stringOr_carries [] agrees.result (.inl rfl)
  have flag : (out.success ≠ 0) = (v.success ≠ 0) := by
    rw [agrees.success, normalised]
    split <;> simp [*]
  rw [checkWorkerRep, ran]
  simp only [Option.bind_eq_bind, Option.bind_some, if_true, result, flag]

theorem checkApprovalReq_carried (corrId : UInt64) (v : ApprovalReq)
    (fits : v.size < 2 ^ 32) (described : text v.description ≠ []) :
    tui.checkApprovalReq ⟨msgApprovalReq, corrId, (ipcEncodeApprovalReq v).buf⟩ =
      some (tui.approvalReq v.reqCorrId.toNat (text v.description)) := by
  obtain ⟨out, ran, agrees⟩ := ipcDecodeApprovalReq_encode v fits ⟨0, none⟩
  have description := stringOr_carries (ascii "unknown operation")
    agrees.description (.inr described)
  rw [checkApprovalReq, ran]
  simp only [Option.bind_eq_bind, Option.bind_some, if_true, description,
    agrees.reqCorrId, approvalReq, if_pos described]

theorem checkSessionRename_carried (corrId : UInt64) (v : SessionRename)
    (fits : v.size < 2 ^ 32) (index : v.sessionIdx.toNat < 2 ^ 31) :
    tui.checkSessionRename ⟨msgSessionRename, corrId, (ipcEncodeSessionRename v).buf⟩ =
      some (tui.sessionRename v.sessionIdx.toNat (text v.topic)) := by
  obtain ⟨out, ran, agrees⟩ := ipcDecodeSessionRename_encode v fits ⟨0, none⟩
  have topic := stringOr_carries [] agrees.topic (.inl rfl)
  have asInt : (v.sessionIdx.toInt32.toInt : Int) = v.sessionIdx.toNat := by
    rw [toInt_toInt32, if_pos index]
  rw [checkSessionRename, ran]
  simp only [Option.bind_eq_bind, Option.bind_some, if_true, topic, asInt,
    agrees.sessionIdx]
  cases found : tui.sessions.smGet v.sessionIdx.toNat with
  | none =>
      have absent : ¬v.sessionIdx.toNat < tui.sessions.smCount := by
        intro inside
        rw [SessionManager.smGet, if_neg (by omega)] at found
        exact absurd (List.getElem?_eq_none_iff.1 found) (Nat.not_le.2 inside)
      simp only [sessionRename]
      rw [if_neg fun both => absent both.2]
  | some session => rfl

theorem checkIpcMsg_carried (carried : Carried typed msg)
    (beyond : Bytes) (choices : List Bytes) :
    tui.checkIpcMsg msg choices = some (tui.checkIpc typed beyond choices) := by
  cases carried with
  | repFinal corrId v fits index =>
      have payload : (ipcEncodeRepFinal v).buf ≠ [] := by
        apply List.ne_nil_of_length_pos
        rw [(ipcEncodeRepFinal_length v fits).1, RepFinal.size]
        omega
      rw [checkIpcMsg, if_pos ⟨rfl, payload⟩]
      exact checkRepFinal_carried corrId v fits index choices
  | workerStart corrId v fits named =>
      have payload : (ipcEncodeWorkerStart v).buf ≠ [] := by
        apply List.ne_nil_of_length_pos
        rw [(ipcEncodeWorkerStart_length v fits).1, WorkerStart.size]
        omega
      rw [checkIpc, ← checkWorkerStart_carried corrId v fits named]
      simp [checkIpcMsg, payload, msgRepFinal, msgRepError, msgWorkerStart]
  | workerEnd corrId => rfl
  | workerRep corrId v fits =>
      have payload : (ipcEncodeWorkerRep v).buf ≠ [] := by
        apply List.ne_nil_of_length_pos
        rw [(ipcEncodeWorkerRep_length v fits).1, WorkerRep.size]
        omega
      rw [checkIpc, ← checkWorkerRep_carried corrId v fits]
      simp [checkIpcMsg, payload, msgRepFinal, msgRepError, msgWorkerStart,
        msgWorkerEnd, msgWorkerRep]
  | approvalReq corrId v fits described =>
      have payload : (ipcEncodeApprovalReq v).buf ≠ [] := by
        apply List.ne_nil_of_length_pos
        rw [(ipcEncodeApprovalReq_length v fits).1, ApprovalReq.size]
        omega
      rw [checkIpc, ← checkApprovalReq_carried corrId v fits described]
      simp [checkIpcMsg, payload, msgRepFinal, msgRepError, msgWorkerStart,
        msgWorkerEnd, msgWorkerRep, msgApprovalReq]
  | sessionRename corrId v fits index =>
      have payload : (ipcEncodeSessionRename v).buf ≠ [] := by
        apply List.ne_nil_of_length_pos
        rw [(ipcEncodeSessionRename_length v fits).1, SessionRename.size]
        omega
      rw [checkIpc, ← checkSessionRename_carried corrId v fits index]
      simp [checkIpcMsg, payload, msgRepFinal, msgRepError, msgWorkerStart,
        msgWorkerEnd, msgWorkerRep, msgApprovalReq, msgSessionRename]

end Tui

end FreeCli

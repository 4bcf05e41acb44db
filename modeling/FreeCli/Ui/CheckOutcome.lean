import FreeCli.Ui.KeyOutcome

namespace FreeCli

open Words Slots

/-! What one received message can do to the state of the TUI, said once. -/

def finalReply (content : Bytes) (reasoning : Option Bytes) : Message where
  text := if content ≠ [] then content else ascii "(no response)"
  isUser := false
  reasoning := reasoning.filter fun bytes => bytes ≠ []
  placeholder := none

def errorReply (text beyond : Bytes) : Message where
  text := if text ≠ [] then terminated (text ++ beyond) else ascii "backend error"
  isUser := false
  reasoning := none
  placeholder := none

/-- The request a message replies to, and what the chat shows for it. -/
def ToTui.reply (beyond : Bytes) : ToTui → Option (Nat × Message)
  | .repFinal corrId _ content reasoning => some (corrId, finalReply content reasoning)
  | .repError corrId text => some (corrId, errorReply text beyond)
  | _ => none

/-- The sessions after `reply` took the place of the last message of the chat
that session index `sidx` leads to. -/
def SessionManager.settle (sm : SessionManager) (sidx : Int) (reply : Message) :
    SessionManager :=
  match sm.replyIndex sidx with
  | none => sm
  | some idx => sm.setChat idx fun cb => chatRemoveLast cb ++ [reply]

theorem SessionManager.replyIndex_of_lt {sm : SessionManager} {idx : Nat}
    (inside : idx < sm.smCount) : sm.replyIndex (idx : Int) = some idx := by
  rw [replyIndex, if_pos (by omega), Int.toNat_natCast]

theorem SessionManager.settle_none {sm : SessionManager}
    (lost : sm.replyIndex sidx = none) (reply : Message) :
    sm.settle sidx reply = sm := by
  rw [settle, lost]

theorem SessionManager.settle_some {sm : SessionManager}
    (found : sm.replyIndex sidx = some idx) (reply : Message) :
    sm.settle sidx reply =
      sm.setChat idx fun cb => chatRemoveLast cb ++ [reply] := by
  rw [settle, found]

namespace Tui

variable (tui : Tui)

structure Settles (after : Tui) (corrId : Nat) (sidx : Int) (reply : Message) :
    Prop where
  sessions : after.sessions = tui.sessions.settle sidx reply
  inFlight : after.inFlight = (inflightRemove tui.inFlight corrId).2
  nextCorr : after.nextCorr = tui.nextCorr
  ipcOpen : after.ipcOpen = tui.ipcOpen
  approval : after.pendingApprovalCorr = tui.pendingApprovalCorr

/-- The index a final reply for `corrId` goes by: `corr_id` is authoritative and
`sessionIdx` a hint. -/
def finalIndex (corrId sessionIdx : Nat) : Int :=
  if (inflightRemove tui.inFlight corrId).1 ≥ 0 then
    (inflightRemove tui.inFlight corrId).1
  else
    sessionIdx

variable {tui}

theorem offerChoices_quiet (tui : Tui) (sidx : Int) (choices : List Bytes) :
    tui.Quiet (tui.offerChoices sidx choices) ∧
      (tui.offerChoices sidx choices).sessions = tui.sessions := by
  rw [offerChoices]
  split
  · exact ⟨⟨rfl, rfl, rfl, rfl⟩, rfl⟩
  · exact ⟨.refl, rfl⟩

theorem repFinal_settles (corrId sessionIdx : Nat) (content : Bytes)
    (reasoning : Option Bytes) (choices : List Bytes) :
    tui.Settles (tui.repFinal corrId sessionIdx content reasoning choices) corrId
      (tui.finalIndex corrId sessionIdx) (finalReply content reasoning) := by
  rw [repFinal]
  split
  next lost =>
    exact ⟨(SessionManager.settle_none lost _).symm, rfl, rfl, rfl, rfl⟩
  next idx found =>
    let removed : Tui :=
      { tui with inFlight := (inflightRemove tui.inFlight corrId).2 }
    obtain ⟨kept, same⟩ := offerChoices_quiet (removed.putReply idx fun cb =>
      chatAddR cb (if content ≠ [] then content else ascii "(no response)") false
        reasoning) (tui.finalIndex corrId sessionIdx) choices
    exact ⟨same.trans (SessionManager.settle_some found _).symm, kept.inFlight,
      kept.nextCorr, kept.ipcOpen, kept.approval⟩

theorem repError_settles (corrId : Nat) (text beyond : Bytes) :
    tui.Settles (tui.repError corrId text beyond) corrId
      (inflightRemove tui.inFlight corrId).1 (errorReply text beyond) := by
  rw [repError]
  split
  next lost =>
    exact ⟨(SessionManager.settle_none lost _).symm, rfl, rfl, rfl, rfl⟩
  next idx found =>
    exact ⟨(SessionManager.settle_some found _).symm, rfl, rfl, rfl, rfl⟩

theorem workerRep_quiet (success : Bool) (result : Bytes) :
    tui.Quiet (tui.workerRep success result) ∧
      SessionEdit tui.sessions.sessions
        (tui.workerRep success result).sessions.sessions := by
  rw [workerRep]
  split
  · exact ⟨.refl, .same⟩
  · exact ⟨systemMsg_quiet _ _, systemMsg_edit _ _⟩

theorem sessionRename_quiet (sessionIdx : Nat) (topic : Bytes) :
    tui.Quiet (tui.sessionRename sessionIdx topic) ∧
      ((tui.sessionRename sessionIdx topic).sessions = tui.sessions ∨
        ∃ name : Session → Bytes,
          (tui.sessionRename sessionIdx topic).sessions =
            tui.sessions.setSession sessionIdx fun session =>
              { session with name := name session }) := by
  rw [sessionRename]
  split
  · refine ⟨⟨rfl, rfl, rfl, rfl⟩, .inr ⟨fun session =>
      if (defaultNumber session.name).isSome then
        (ascii "#" ++ decimal session.id ++ ascii " " ++ topic).take 63
      else
        session.name, ?_⟩⟩
    simp only
    congr
    funext session
    split <;> rfl
  · exact ⟨.refl, .inl rfl⟩

def replySidx (tui : Tui) : ToTui → Int
  | .repFinal corrId sessionIdx _ _ => tui.finalIndex corrId sessionIdx
  | .repError corrId _ => (inflightRemove tui.inFlight corrId).1
  | _ => -1

inductive SessionsStep (tui : Tui) (msg : ToTui) (beyond : Bytes) :
    SessionManager → Prop
  | replies (corrId : Nat) (reply : Message)
      (found : msg.reply beyond = some (corrId, reply)) :
      SessionsStep tui msg beyond (tui.sessions.settle (tui.replySidx msg) reply)
  | edits (after : SessionManager) (other : msg.reply beyond = none)
      (edit : SessionEdit tui.sessions.sessions after.sessions) :
      SessionsStep tui msg beyond after

theorem checkIpc_sessions (tui : Tui) (msg : ToTui) (beyond : Bytes)
    (choices : List Bytes) :
    tui.SessionsStep msg beyond (tui.checkIpc msg beyond choices).sessions := by
  cases msg with
  | repFinal corrId sessionIdx content reasoning =>
      rw [checkIpc, (repFinal_settles _ _ _ _ _).sessions]
      exact .replies corrId _ rfl
  | repError corrId text =>
      rw [checkIpc, (repError_settles _ _ _).sessions]
      exact .replies corrId _ rfl
  | workerRep corrId success result => exact .edits _ rfl (workerRep_quiet _ _).2
  | sessionRename corrId sessionIdx topic =>
      refine .edits _ rfl ?_
      rcases (sessionRename_quiet sessionIdx topic).2 with same | ⟨name, renames⟩
      · rw [checkIpc, same]
        exact .same
      · rw [checkIpc, renames]
        exact .change sessionIdx _ fun session => ⟨rfl, .same⟩
  | _ => exact .edits _ rfl .same

/-! ### What no message changes -/

theorem checkIpc_nextCorr (msg : ToTui) (beyond : Bytes) (choices : List Bytes) :
    (tui.checkIpc msg beyond choices).nextCorr = tui.nextCorr := by
  cases msg with
  | repFinal => exact (repFinal_settles _ _ _ _ _).nextCorr
  | repError => exact (repError_settles _ _ _).nextCorr
  | workerRep => exact (workerRep_quiet _ _).1.nextCorr
  | sessionRename => exact (sessionRename_quiet _ _).1.nextCorr
  | _ => rfl

theorem checkIpc_ipcOpen (msg : ToTui) (beyond : Bytes) (choices : List Bytes) :
    (tui.checkIpc msg beyond choices).ipcOpen = tui.ipcOpen := by
  cases msg with
  | repFinal => exact (repFinal_settles _ _ _ _ _).ipcOpen
  | repError => exact (repError_settles _ _ _).ipcOpen
  | workerRep => exact (workerRep_quiet _ _).1.ipcOpen
  | sessionRename => exact (sessionRename_quiet _ _).1.ipcOpen
  | _ => rfl

theorem checkIpc_approval (tui : Tui) (msg : ToTui) (beyond : Bytes)
    (choices : List Bytes) :
    (∃ corrId reqCorrId description,
      msg = .approvalReq corrId reqCorrId description ∧
        (tui.checkIpc msg beyond choices).pendingApprovalCorr = reqCorrId) ∨
      (tui.checkIpc msg beyond choices).pendingApprovalCorr =
        tui.pendingApprovalCorr := by
  cases msg with
  | repFinal => exact .inr (repFinal_settles _ _ _ _ _).approval
  | repError => exact .inr (repError_settles _ _ _).approval
  | workerRep => exact .inr (workerRep_quiet _ _).1.approval
  | sessionRename => exact .inr (sessionRename_quiet _ _).1.approval
  | approvalReq corrId reqCorrId description =>
      exact .inl ⟨corrId, reqCorrId, description, rfl, rfl⟩
  | _ => exact .inr rfl

end Tui

end FreeCli

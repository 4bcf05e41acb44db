import FreeCli.Ui.DetectChoices
import FreeCli.Ui.Received
import FreeCli.Ui.SessionRuns

namespace FreeCli

open Words JsonText Slots Transition

/-! The options offered for a reply, over runs of the session operations. -/

/-- The options `detect_choices` finds in a reply; these rounds are enough for it. -/
def detected (reply : Bytes) : List Bytes :=
  match detectChoices reply.length (reply ++ [0]) with
  | .ended choices => choices.map Choice.text
  | _ => []

def SessionOp.reply : SessionOp → Option (Bytes × List Bytes)
  | .checkIpc (.repFinal _ _ content reasoning) _ choices =>
      some ((finalReply content reasoning).text, choices)
  | _ => none

/-- A session operation; a reply comes with the options found in it. -/
def pickerStep (tui : Tui) (op : SessionOp) : Option Tui :=
  if ∀ found ∈ op.reply, found.2 = detected found.1 then sessionStep tui op else none

/-- The session a reply is put in whose options are offered from then on, and the
reply. -/
def offering (taken : Taken Tui SessionOp) : Option (Int × Bytes) :=
  match taken.label with
  | .checkIpc (.repFinal corrId sessionIdx content reasoning) _ _ =>
      if taken.src.pendingChoices = none ∧ taken.dst.pendingChoices ≠ none then do
        let idx ← taken.src.sessions.replyIndex (taken.src.finalIndex corrId sessionIdx)
        let id ← taken.src.sessions.ids[idx]?
        some (id, (finalReply content reasoning).text)
      else none
  | _ => none

/-- The id of the session that offered options last, and its reply. -/
def offered (trace : List (Taken Tui SessionOp)) : Option (Int × Bytes) :=
  (trace.filterMap offering).getLast?

namespace Tui

variable (tui : Tui)

def newAsked (ch : Nat) (env : KeyEnv) : Prop :=
  (ch ≠ keyResize ∧ ¬(tui.pendingApprovalCorr ≠ 0 ∧ approvalKey ch) ∧ tui.focus = 0 ∧
      ch = 'n'.toNat) ∨
    (tui.reachesEditor ch ∧ env.submitted = true ∧
      isCommand (ascii "/new") (env.buffer.take 255) = true)

end Tui

/-- The index of the session the operation is asked to delete. -/
def SessionOp.deletes (tui : Tui) : SessionOp → Option Int
  | .doDeleteSession idx => some idx
  | .sidebarKey ch =>
      if ch = 'd'.toNat ∧ tui.sessions.smCount > 0 then some tui.sidebarSel else none
  | .mainKey ch env => tui.deleteAsked ch env
  | _ => none

/-- The operation is asked for a new session. -/
def SessionOp.creates (tui : Tui) : SessionOp → Prop
  | .newSession | .cmdNew _ => True
  | .sidebarKey ch => ch = 'n'.toNat
  | .mainKey ch env => tui.newAsked ch env
  | _ => False

/-- While options are offered, another session comes to their index: one at or before
it is deleted and one behind it moves up, the only one is deleted, or one is made
there. -/
def Shifts (taken : Taken Tui SessionOp) : Prop :=
  ∃ pending ∈ taken.src.pendingChoices, ∃ k : Nat, pending.sessionIdx = k ∧
    ((∃ idx : Nat, taken.label.deletes taken.src = some (idx : Int) ∧
        idx < taken.src.sessions.smCount ∧
        (idx ≤ k ∧ k + 1 < taken.src.sessions.smCount ∨
          k = 0 ∧ taken.src.sessions.smCount = 1)) ∨
      taken.label.creates taken.src ∧ k = taken.src.sessions.smCount ∧ k < maxSessions)

/-- An option is submitted to the session that offered it, or to none if that is
gone. -/
def GoesToOffering (trace : List (Taken Tui SessionOp)) (tui : Tui) : Prop :=
  ∀ idx : Int,
    ((tui.acceptChoice idx).2 ≠ [] → ∃ id reply text k, offered trace = some (id, reply) ∧
      (detected reply)[idx.toNat]? = some text ∧
      tui.Submits (tui.acceptChoice idx).1 (tui.acceptChoice idx).2 k text ∧
      tui.sessions.ids[k]? = some id) ∧
    ∀ id reply, offered trace = some (id, reply) → id ∉ tui.sessions.ids →
      (tui.acceptChoice idx).2 = []

/-! ### What an operation does to the table -/

namespace Tui

variable {tui after : Tui} {deleted : Option Int} {created : Prop}

/-- The ids stay, a session is opened as asked, or one is removed as asked. -/
inductive Moves (tui : Tui) (deleted : Option Int) (created : Prop) (after : Tui) : Prop
  | kept (ids : after.sessions.ids = tui.sessions.ids)
  | opened (asked : created) (name : Bytes)
      (opens : Opens tui.sessions after.sessions after.sidebarSel name)
  | removed (idx : Nat) (asked : deleted = some (idx : Int))
      (removes : Removes tui.sessions tui.sidebarSel after.sessions after.sidebarSel idx)

theorem Moves.of_same {base : Tui} (moves : base.Moves deleted created after)
    (sessions : base.sessions = tui.sessions) (sidebar : base.sidebarSel = tui.sidebarSel) :
    tui.Moves deleted created after := by
  cases moves with
  | kept ids => exact .kept (sessions ▸ ids)
  | opened asked name opens => exact .opened asked name (sessions ▸ opens)
  | removed idx asked removes => exact .removed idx asked (sessions ▸ sidebar ▸ removes)

theorem Still.moves (still : tui.Still after) : tui.Moves deleted created after :=
  .kept still.ids

theorem openSession_moves (asked : created) (name : Bytes) :
    tui.Moves deleted created (tui.openSession name) := by
  rcases Nat.lt_or_ge tui.sessions.smCount maxSessions with room | full
  · exact .opened asked name (openSession_opens room name)
  · rw [openSession_full full]
    exact .kept rfl

theorem doDeleteSession_moves (tabled : tui.Tabled) {idx : Int} (asked : deleted = some idx) :
    tui.Moves deleted created (tui.doDeleteSession idx) := by
  by_cases outside : idx < 0 ∨ idx ≥ tui.sessions.smCount
  · rw [doDeleteSession, if_pos outside]
    exact .kept rfl
  · obtain ⟨idx, rfl⟩ := Int.eq_ofNat_of_zero_le (by omega : 0 ≤ idx)
    exact .removed idx asked (doDeleteSession_removes tabled (by omega))

theorem smSelect_ids (sm : SessionManager) (index : Int) : (sm.smSelect index).ids = sm.ids := by
  rw [SessionManager.ids, SessionManager.ids, smSelect_sessions]

theorem cmdDispatch_moves (tabled : tui.Tabled) (input : Bytes) (env : KeyEnv)
    (deletes : isCommand (ascii "/delete") input = true → deleted = some tui.sessions.active)
    (opens : isCommand (ascii "/new") input = true → created) :
    tui.Moves deleted created (tui.cmdDispatch input env).1 := by
  rw [cmdDispatch]
  split
  · exact (systemMsg_still _ _).moves
  split
  next asked => exact doDeleteSession_moves tabled (deletes asked)
  split
  · exact (cmdClear_still _).moves
  split
  next asked => exact openSession_moves (opens asked) _
  split
  · exact (cmdRename_still _ _).moves
  split
  · exact (cmdProvider_still _ _).moves
  split
  · exact (cmdModel_still _ _).moves
  split
  · exact (cmdFs_still _ _ _).moves
  · exact (systemMsg_still _ _).moves

theorem acceptChoice_ids (tui : Tui) (idx : Int) :
    (tui.acceptChoice idx).1.sessions.ids = tui.sessions.ids := by
  cases acceptChoice_steps tui idx [] with
  | kept ids nextId active sidebar => exact ids

theorem submitMessage_moves (tabled : tui.Tabled) (env : KeyEnv)
    (deletes : isCommand (ascii "/delete") (tui.inputLine.take 255) = true →
      deleted = some tui.sessions.active)
    (opens : isCommand (ascii "/new") (tui.inputLine.take 255) = true → created) :
    tui.Moves deleted created (tui.submitMessage env).1 := by
  rw [submitMessage]
  split
  · exact .kept rfl
  split
  · have same : Tui.Tabled { tui with inputLine := [] } :=
      ⟨tabled.some_, tabled.room, tabled.active, tabled.sidebar⟩
    exact (cmdDispatch_moves same (tui.inputLine.take 255) env deletes opens).of_same rfl rfl
  · simp only
    split
    · exact .kept rfl
    split
    · exact .kept rfl
    · exact .kept (submitChat_still _ _).ids

theorem sidebarKey_moves (tabled : tui.Tabled) (ch : Nat)
    (deletes : ch = 'd'.toNat → tui.sessions.smCount > 0 → deleted = some tui.sidebarSel)
    (opens : ch = 'n'.toNat → created) :
    tui.Moves deleted created (tui.sidebarKey ch) := by
  rw [sidebarKey]
  split
  next asked => exact openSession_moves (opens asked) _
  split
  · exact .kept rfl
  split
  next asked => exact doDeleteSession_moves tabled (deletes asked.1 asked.2)
  split
  · exact .kept rfl
  split
  · exact .kept rfl
  split
  · exact .kept (smSelect_ids _ _)
  · exact .kept rfl

theorem choiceKey_ids (picked : tui.choiceKey ch = some result) :
    result.1.sessions.ids = tui.sessions.ids := by
  cases choiceKey_steps picked [] with
  | kept ids nextId active sidebar => exact ids

theorem inputKey_moves (tabled : tui.Tabled) (ch : Nat) (env : KeyEnv)
    (deletes : (¬(ch = keyLeft ∨ ch = tab) ∧ tui.choiceKey ch = none ∧
        ¬(ch = keyPPage ∨ ch = keyNPage)) ∧ env.submitted = true ∧
        isCommand (ascii "/delete") (env.buffer.take 255) = true →
      deleted = some tui.sessions.active)
    (opens : (¬(ch = keyLeft ∨ ch = tab) ∧ tui.choiceKey ch = none ∧
        ¬(ch = keyPPage ∨ ch = keyNPage)) ∧ env.submitted = true ∧
        isCommand (ascii "/new") (env.buffer.take 255) = true → created) :
    tui.Moves deleted created (tui.inputKey ch env).1 := by
  rw [inputKey]
  split
  · exact .kept rfl
  next stays =>
    split
    next result picked => exact .kept (choiceKey_ids picked)
    next unpicked =>
      split
      · exact .kept rfl
      next paged =>
        simp only
        split
        next submitted =>
          have same : Tui.Tabled { tui with inputLine := env.buffer } :=
            ⟨tabled.some_, tabled.room, tabled.active, tabled.sidebar⟩
          have moves : Moves _ deleted created _ := submitMessage_moves same env
            (fun asked => deletes ⟨⟨stays, unpicked, paged⟩, submitted, asked⟩)
            (fun asked => opens ⟨⟨stays, unpicked, paged⟩, submitted, asked⟩)
          exact moves.of_same rfl rfl
        next => exact .kept rfl

theorem mainKey_moves (tabled : tui.Tabled) (ch : Nat) (env : KeyEnv) :
    tui.Moves (tui.deleteAsked ch env) (tui.newAsked ch env) (tui.mainKey ch env).1 := by
  rw [mainKey]
  split
  · exact .kept rfl
  next sized =>
    split
    · exact .kept rfl
    next unprompted =>
      split
      next sidebar =>
        refine sidebarKey_moves tabled ch (fun deleting some_ => ?_)
          (fun opening => .inl ⟨sized, unprompted, sidebar, opening⟩)
        rw [deleteAsked, if_pos ⟨sized, unprompted, sidebar⟩, if_pos ⟨deleting, some_⟩]
      next inputs =>
        have elsewhere : ¬(ch ≠ keyResize ∧
            ¬(tui.pendingApprovalCorr ≠ 0 ∧ approvalKey ch) ∧ tui.focus = 0) :=
          fun sidebar => inputs sidebar.2.2
        have reaches : ¬(ch = keyLeft ∨ ch = tab) ∧ tui.choiceKey ch = none ∧
            ¬(ch = keyPPage ∨ ch = keyNPage) → tui.reachesEditor ch := by
          rintro ⟨stays, unpicked, paged⟩
          rw [not_or] at stays paged
          exact ⟨sized, unprompted, inputs, stays.1, stays.2, unpicked, paged⟩
        refine inputKey_moves tabled ch env (fun asked => ?_)
          (fun asked => .inr ⟨reaches asked.1, asked.2⟩)
        rw [deleteAsked, if_neg elsewhere, if_pos ⟨reaches asked.1, asked.2⟩]

end Tui

theorem SessionOp.run_moves {tui : Tui} (tabled : tui.Tabled) (op : SessionOp) :
    tui.Moves (op.deletes tui) (op.creates tui) (op.run tui) := by
  cases op with
  | newSession => exact Tui.openSession_moves trivial _
  | cmdNew input => exact Tui.openSession_moves trivial _
  | doDeleteSession idx => exact Tui.doDeleteSession_moves tabled rfl
  | smSelect index => exact .kept (Tui.smSelect_ids _ _)
  | acceptChoice idx => exact .kept (Tui.acceptChoice_ids tui idx)
  | sidebarKey ch =>
      exact Tui.sidebarKey_moves tabled ch
        (fun deleting some_ => if_pos ⟨deleting, some_⟩) id
  | cmdRename input => exact (Tui.cmdRename_still tui input).moves
  | cmdClear => exact (Tui.cmdClear_still tui).moves
  | mainKey ch env => exact Tui.mainKey_moves tabled ch env
  | checkIpc msg beyond choices => exact (Tui.checkIpc_still tui msg beyond choices).moves

theorem getElem?_ids (sm : SessionManager) (k : Nat) :
    sm.ids[k]? = sm.sessions[k]?.map Session.id := by
  rw [SessionManager.ids, List.getElem?_map]

theorem ids_of_not_shifts {src : Tui} {op : SessionOp} (tabled : src.Tabled)
    (still : ¬ Shifts ⟨src, op, op.run src⟩) {pending : PendingChoices}
    (pends : src.pendingChoices = some pending) {k : Nat} (at_ : pending.sessionIdx = k)
    {id : Int} (here : (op.run src).sessions.ids[k]? = some id) :
    src.sessions.ids[k]? = some id := by
  have apart : ¬((∃ idx : Nat, op.deletes src = some (idx : Int) ∧
        idx < src.sessions.smCount ∧ (idx ≤ k ∧ k + 1 < src.sessions.smCount ∨
          k = 0 ∧ src.sessions.smCount = 1)) ∨
      op.creates src ∧ k = src.sessions.smCount ∧ k < maxSessions) :=
    fun shifts => still ⟨pending, pends, k, at_, shifts⟩
  rw [not_or] at apart
  cases SessionOp.run_moves tabled op with
  | kept ids => rwa [ids] at here
  | opened asked name opens =>
      rw [getElem?_ids, opens.sessions, List.getElem?_append] at here
      split at here
      next => rwa [getElem?_ids]
      next beyond =>
        rw [List.getElem?_singleton] at here
        split at here
        next first =>
          have room := opens.room
          rw [SessionManager.smCount] at room
          refine absurd ⟨asked, ?_, ?_⟩ apart.2
          · rw [SessionManager.smCount]
            omega
          · omega
        next => contradiction
  | removed idx asked removes =>
      have inside := removes.inside
      have kept : ¬(idx ≤ k ∧ k + 1 < src.sessions.smCount ∨
          k = 0 ∧ src.sessions.smCount = 1) := fun moved =>
        apart.1 ⟨idx, asked, inside, moved⟩
      have count : (op.run src).sessions.smCount =
          if src.sessions.smCount = 1 then 1 else src.sessions.smCount - 1 :=
        Tui.removes_smCount removes
      have bound : k < (op.run src).sessions.smCount := by
        obtain ⟨bound, -⟩ := List.getElem?_eq_some_iff.1 here
        rwa [SessionManager.ids, List.length_map] at bound
      split at count
      next => omega
      next more =>
        rw [getElem?_ids, removes.sessions, if_neg more, List.append_nil,
          List.getElem?_eraseIdx, if_pos (by omega)] at here
        rwa [getElem?_ids]

/-! ### What an operation does to the offered options -/

def SameOffer (before after : Option PendingChoices) : Prop :=
  ∀ pending ∈ after, ∃ old ∈ before,
    old.sessionIdx = pending.sessionIdx ∧ old.choices = pending.choices

theorem SameOffer.of_eq {before after : Option PendingChoices} (same : after = before) :
    SameOffer before after := fun pending here => ⟨pending, same ▸ here, rfl, rfl⟩

theorem SameOffer.withdrawn (before : Option PendingChoices) : SameOffer before none :=
  fun _ here => nomatch here

namespace Tui

variable {tui : Tui}

@[simp] theorem systemMsg_pending (tui : Tui) (text : Bytes) :
    (tui.systemMsg text).pendingChoices = tui.pendingChoices := by
  rw [systemMsg]
  split <;> rfl

@[simp] theorem openSession_pending (tui : Tui) (name : Bytes) :
    (tui.openSession name).pendingChoices = tui.pendingChoices := by
  rw [openSession]
  split <;> rfl

@[simp] theorem doDeleteSession_pending (tui : Tui) (idx : Int) :
    (tui.doDeleteSession idx).pendingChoices = tui.pendingChoices := by
  rw [doDeleteSession]
  split <;> rfl

@[simp] theorem cmdClear_pending (tui : Tui) :
    tui.cmdClear.pendingChoices = tui.pendingChoices := by
  rw [cmdClear]
  split <;> rfl

@[simp] theorem cmdRename_pending (tui : Tui) (input : Bytes) :
    (tui.cmdRename input).pendingChoices = tui.pendingChoices := by
  rw [cmdRename]
  split <;> rfl

@[simp] theorem doSetModel_pending (tui : Tui) (model : Bytes) :
    (tui.doSetModel model).pendingChoices = tui.pendingChoices := by
  rw [doSetModel]
  split <;> rfl

@[simp] theorem doSetProvider_pending (tui : Tui) (providerId : Bytes) :
    (tui.doSetProvider providerId).pendingChoices = tui.pendingChoices := by
  rw [doSetProvider]
  split <;> rfl

@[simp] theorem doSendWorkerReq_pending (tui : Tui) (workerType : Nat) (op argsJson : Bytes) :
    (tui.doSendWorkerReq workerType op argsJson).2.1.pendingChoices = tui.pendingChoices := by
  rw [doSendWorkerReq]
  split <;> rfl

theorem cmdProvider_pending (tui : Tui) (picked : Int) :
    (tui.cmdProvider picked).pendingChoices = tui.pendingChoices := by
  rw [cmdProvider]
  split <;> simp

theorem cmdModel_pending (tui : Tui) (picked : Int) :
    (tui.cmdModel picked).pendingChoices = tui.pendingChoices := by
  rw [cmdModel]
  split <;> simp

theorem cmdFs_pending (tui : Tui) (input : Bytes) (env : KeyEnv) :
    (tui.cmdFs input env).1.pendingChoices = tui.pendingChoices := by
  rw [cmdFs]
  simp only
  split
  next => exact systemMsg_pending _ _
  next =>
    split
    next => exact systemMsg_pending _ _
    next => split <;> simp

theorem cmdDispatch_pending (tui : Tui) (input : Bytes) (env : KeyEnv) :
    (tui.cmdDispatch input env).1.pendingChoices = tui.pendingChoices := by
  rw [cmdDispatch]
  split
  · exact systemMsg_pending _ _
  split
  · exact doDeleteSession_pending _ _
  split
  · exact cmdClear_pending _
  split
  · exact openSession_pending _ _
  split
  · exact cmdRename_pending _ _
  split
  · exact cmdProvider_pending _ _
  split
  · exact cmdModel_pending _ _
  split
  · exact cmdFs_pending _ _ _
  · exact systemMsg_pending _ _

theorem submitChat_pending (tui : Tui) (text : Bytes) :
    (tui.submitChat text).1.pendingChoices = tui.pendingChoices := by
  rw [submitChat]
  split <;> rfl

theorem submitText_pending (tui : Tui) (text : Bytes) :
    (tui.submitText text).1.pendingChoices = tui.pendingChoices := by
  rw [submitText]
  split
  · rfl
  split
  · rfl
  split
  · rfl
  split
  · rfl
  · exact submitChat_pending tui text

theorem acceptChoice_pending (tui : Tui) (idx : Int) :
    SameOffer tui.pendingChoices (tui.acceptChoice idx).1.pendingChoices := by
  rw [acceptChoice]
  split
  next => exact .of_eq rfl
  next pending _ =>
    split
    · exact .of_eq rfl
    split
    · exact .of_eq rfl
    · rw [submitText_pending]
      exact .withdrawn _

theorem submitMessage_pending (tui : Tui) (env : KeyEnv) :
    SameOffer tui.pendingChoices (tui.submitMessage env).1.pendingChoices := by
  rw [submitMessage]
  split
  · exact .of_eq rfl
  split
  · exact .of_eq (cmdDispatch_pending _ _ _)
  · simp only
    split
    · exact .withdrawn _
    split
    · exact .withdrawn _
    · rw [submitChat_pending]
      exact .withdrawn _

theorem sidebarKey_pending (tui : Tui) (ch : Nat) :
    (tui.sidebarKey ch).pendingChoices = tui.pendingChoices := by
  rw [sidebarKey]
  split
  · exact openSession_pending _ _
  split
  · rfl
  split
  · exact doDeleteSession_pending _ _
  split
  · rfl
  split
  · rfl
  split <;> rfl

theorem choiceKey_pending (picked : tui.choiceKey ch = some result) :
    SameOffer tui.pendingChoices result.1.pendingChoices := by
  rcases choiceKey_cases picked with ⟨idx, rfl⟩ | ⟨pending, selected, pends, rfl⟩
  · exact acceptChoice_pending tui idx
  · rintro _ ⟨⟩
    exact ⟨pending, pends, rfl, rfl⟩

theorem mainKey_pending (tui : Tui) (ch : Nat) (env : KeyEnv) :
    SameOffer tui.pendingChoices (tui.mainKey ch env).1.pendingChoices := by
  rw [mainKey]
  split
  · exact .of_eq rfl
  split
  · exact .of_eq rfl
  split
  · exact .of_eq (sidebarKey_pending tui ch)
  rw [inputKey]
  split
  · exact .withdrawn _
  split
  next result picked => exact choiceKey_pending picked
  next =>
    split
    · exact .of_eq rfl
    · simp only
      split
      · exact submitMessage_pending _ env
      · exact .of_eq rfl

theorem offerChoices_pending (tui : Tui) (sidx : Int) (choices : List Bytes) :
    (tui.offerChoices sidx choices).pendingChoices = tui.pendingChoices ∨
      tui.pendingChoices = none ∧
        (tui.offerChoices sidx choices).pendingChoices = some ⟨sidx, choices, 0⟩ := by
  rw [offerChoices]
  split
  next offers => exact .inr ⟨offers.1, rfl⟩
  next => exact .inl rfl

theorem repFinal_pending (tui : Tui) (corrId sessionIdx : Nat) (content : Bytes)
    (reasoning : Option Bytes) (choices : List Bytes) :
    (tui.repFinal corrId sessionIdx content reasoning choices).pendingChoices =
        tui.pendingChoices ∨
      tui.pendingChoices = none ∧
        (tui.repFinal corrId sessionIdx content reasoning choices).pendingChoices =
          some ⟨tui.finalIndex corrId sessionIdx, choices, 0⟩ ∧
        ∃ idx, tui.sessions.replyIndex (tui.finalIndex corrId sessionIdx) = some idx := by
  rw [repFinal]
  split
  next => exact .inl rfl
  next idx found =>
    rcases offerChoices_pending
      ({ tui with inFlight := (inflightRemove tui.inFlight corrId).2 }.putReply idx fun cb =>
        chatAddR cb (if content ≠ [] then content else ascii "(no response)") false reasoning)
      (tui.finalIndex corrId sessionIdx) choices with same | ⟨free, offers⟩
    · exact .inl same
    · exact .inr ⟨free, offers, idx, found⟩

end Tui

theorem SessionOp.run_pending (tui : Tui) (op : SessionOp) :
    SameOffer tui.pendingChoices (op.run tui).pendingChoices ∨
      ∃ corrId sessionIdx content reasoning beyond choices idx,
        op = .checkIpc (.repFinal corrId sessionIdx content reasoning) beyond choices ∧
        tui.pendingChoices = none ∧
        (op.run tui).pendingChoices =
          some ⟨tui.finalIndex corrId sessionIdx, choices, 0⟩ ∧
        tui.sessions.replyIndex (tui.finalIndex corrId sessionIdx) = some idx := by
  cases op with
  | newSession => exact .inl (.of_eq (Tui.openSession_pending tui _))
  | cmdNew input => exact .inl (.of_eq (Tui.openSession_pending tui _))
  | doDeleteSession idx => exact .inl (.of_eq (Tui.doDeleteSession_pending tui idx))
  | smSelect index => exact .inl (.of_eq rfl)
  | acceptChoice idx => exact .inl (Tui.acceptChoice_pending tui idx)
  | sidebarKey ch => exact .inl (.of_eq (Tui.sidebarKey_pending tui ch))
  | cmdRename input => exact .inl (.of_eq (Tui.cmdRename_pending tui input))
  | cmdClear => exact .inl (.of_eq (Tui.cmdClear_pending tui))
  | mainKey ch env => exact .inl (Tui.mainKey_pending tui ch env)
  | checkIpc msg beyond choices =>
      cases msg with
      | repFinal corrId sessionIdx content reasoning =>
          rcases Tui.repFinal_pending tui corrId sessionIdx content reasoning choices with
            same | ⟨free, offers, idx, found⟩
          · exact .inl (.of_eq same)
          · exact .inr ⟨corrId, sessionIdx, content, reasoning, beyond, choices, idx, rfl, free,
              offers, found⟩
      | repError corrId text =>
          refine .inl (.of_eq ?_)
          simp only [SessionOp.run, Tui.checkIpc, Tui.repError]
          split <;> rfl
      | workerStart => exact .inl (.of_eq rfl)
      | workerEnd => exact .inl (.of_eq rfl)
      | workerRep corrId success result =>
          refine .inl (.of_eq ?_)
          simp only [SessionOp.run, Tui.checkIpc, Tui.workerRep]
          split
          · rfl
          · exact Tui.systemMsg_pending _ _
      | approvalReq => exact .inl (.of_eq rfl)
      | sessionRename corrId sessionIdx topic =>
          refine .inl (.of_eq ?_)
          simp only [SessionOp.run, Tui.checkIpc, Tui.sessionRename]
          split <;> rfl

theorem offering_of_pending {taken : Taken Tui SessionOp} {pending : PendingChoices}
    (pends : taken.src.pendingChoices = some pending) : offering taken = none := by
  rw [offering]
  split
  next => exact if_neg fun free => by rw [pends] at free; cases free.1
  next => rfl

theorem offered_of_none {trace : List (Taken Tui SessionOp)} {taken : Taken Tui SessionOp}
    (none_ : offering taken = none) : offered (trace ++ [taken]) = offered trace := by
  rw [offered, List.filterMap_append, List.filterMap_cons_none none_, List.filterMap_nil,
    List.append_nil, offered]

theorem offered_of_some {trace : List (Taken Tui SessionOp)} {taken : Taken Tui SessionOp}
    {offer : Int × Bytes} (offers : offering taken = some offer) :
    offered (trace ++ [taken]) = some offer := by
  rw [offered, List.filterMap_append, List.filterMap_cons_some offers, List.filterMap_nil,
    List.getLast?_concat]

/-- The offered options are those of the last offering reply, and no other session is
at their index than the one it was put in. -/
structure Offers (trace : List (Taken Tui SessionOp)) (tui : Tui) : Prop where
  tabled : tui.Tabled
  offers : ∀ pending ∈ tui.pendingChoices, ∃ id reply, offered trace = some (id, reply) ∧
    detected reply = pending.choices ∧
    ∀ k : Nat, pending.sessionIdx = k → ∀ other, tui.sessions.ids[k]? = some other → other = id

theorem Offers.step {trace : List (Taken Tui SessionOp)} {src : Tui} {op : SessionOp}
    (holds : Offers trace src) (reads : ∀ found ∈ op.reply, found.2 = detected found.1)
    (still : ¬ Shifts ⟨src, op, op.run src⟩) :
    Offers (trace ++ [⟨src, op, op.run src⟩]) (op.run src) := by
  obtain ⟨tabled, offers⟩ := holds
  obtain ⟨saves, steps⟩ := SessionOp.run_steps tabled op
  refine ⟨steps.tabled tabled, fun pending here => ?_⟩
  rcases SessionOp.run_pending src op with same |
    ⟨corrId, sessionIdx, content, reasoning, beyond, choices, idx, rfl, free, new, found⟩
  · obtain ⟨old, pends, index, texts⟩ := same pending here
    obtain ⟨id, reply, last, found, alone⟩ := offers old pends
    refine ⟨id, reply, ?_, found.trans texts, fun k at_ other there => ?_⟩
    · rw [offered_of_none (offering_of_pending pends), last]
    · have at_ := index.trans at_
      exact alone k at_ other (ids_of_not_shifts tabled still pends at_ there)
  · obtain rfl := Option.some.inj (new.symm.trans here)
    have inside : idx < src.sessions.ids.length := by
      rw [← Tui.smCount_eq_ids]
      exact SessionManager.replyIndex_lt found
    have known : src.sessions.ids[idx]? = some src.sessions.ids[idx] :=
      List.getElem?_eq_getElem inside
    refine ⟨src.sessions.ids[idx], (finalReply content reasoning).text, ?_, ?_, ?_⟩
    · refine offered_of_some ?_
      simp only [offering, free, new, found, known, Option.bind_eq_bind, Option.bind_some]
      rfl
    · exact (reads _ rfl).symm
    · intro k at_ other there
      have kept := (Tui.checkIpc_still src (.repFinal corrId sessionIdx content reasoning)
        beyond choices).ids
      rw [SessionOp.run, kept] at there
      have below : k < src.sessions.smCount := by
        rw [Tui.smCount_eq_ids]
        exact (List.getElem?_eq_some_iff.1 there).1
      rw [show src.finalIndex corrId sessionIdx = k from at_,
        SessionManager.replyIndex_of_lt below] at found
      obtain rfl := Option.some.inj found
      exact Option.some.inj (there.symm.trans known)

namespace Tui

variable {tui : Tui}

theorem submitText_submits {text : Bytes} (some_ : (tui.submitText text).2 ≠ []) {k : Nat}
    (active : tui.sessions.activeIndex = some k) :
    tui.Submits (tui.submitText text).1 (tui.submitText text).2 k text := by
  obtain ⟨inside, here⟩ := activeIndex_eq_some active
  rw [submitText] at some_ ⊢
  split at some_
  · exact absurd rfl some_
  next filled =>
    split at some_
    · exact absurd rfl some_
    next chat =>
      split at some_
      · exact absurd rfl some_
      next connected =>
        split at some_
        · exact absurd rfl some_
        next free =>
          rw [if_neg filled, if_neg chat, if_neg connected, if_neg free, submitChat, active]
          rw [here] at free
          simp only [here]
          exact ⟨inside, here, by simpa using connected, by simpa using free, rfl, ⟨_, rfl⟩, rfl,
            rfl, rfl, ⟨_, _, _, rfl⟩⟩

theorem acceptChoice_submits {idx : Int} (some_ : (tui.acceptChoice idx).2 ≠ []) :
    ∃ pending k text, tui.pendingChoices = some pending ∧ pending.sessionIdx = (k : Nat) ∧
      pending.choices[idx.toNat]? = some text ∧ k < tui.sessions.smCount ∧
      tui.Submits (tui.acceptChoice idx).1 (tui.acceptChoice idx).2 k text := by
  rw [acceptChoice] at some_ ⊢
  split at some_
  next => exact absurd rfl some_
  next pending pends =>
    split at some_
    · exact absurd rfl some_
    next offered =>
      split at some_
      · exact absurd rfl some_
      next there =>
        rw [pends]
        simp only [if_neg offered, if_neg there]
        obtain ⟨k, at_⟩ := Int.eq_ofNat_of_zero_le (by omega : 0 ≤ pending.sessionIdx)
        have inside : k < tui.sessions.smCount := by omega
        let chosen : Tui := { tui with
          pendingChoices := none
          sessions := { tui.sessions with active := pending.sessionIdx } }
        have active : chosen.sessions.activeIndex = some k := by
          exact (if_neg there).trans (congrArg (fun i : Int => some i.toNat) at_)
        have option : pending.choices[idx.toNat]? =
            some (pending.choices.getD idx.toNat []) := by
          have bound : idx.toNat < pending.choices.length := by omega
          rw [List.getElem?_eq_getElem bound, List.getD_eq_getElem?_getD,
            List.getElem?_eq_getElem bound]
          rfl
        have submitted : chosen.Submits _ _ k _ := submitText_submits some_ active
        obtain ⟨within, here, opened, free, sessions, inFlight, nextCorr, ipcOpen, approval,
          sent⟩ := submitted
        exact ⟨pending, k, _, rfl, at_, option, inside, ⟨within, here, opened, free, sessions,
          inFlight, nextCorr, ipcOpen, approval, sent⟩⟩

end Tui

theorem Offers.goes {trace : List (Taken Tui SessionOp)} {tui : Tui}
    (holds : Offers trace tui) : GoesToOffering trace tui := by
  have submits : ∀ idx : Int, (tui.acceptChoice idx).2 ≠ [] → ∃ id reply text k,
      offered trace = some (id, reply) ∧ (detected reply)[idx.toNat]? = some text ∧
      tui.Submits (tui.acceptChoice idx).1 (tui.acceptChoice idx).2 k text ∧
      tui.sessions.ids[k]? = some id := by
    intro idx some_
    obtain ⟨pending, k, text, pends, at_, option, inside, submitted⟩ :=
      Tui.acceptChoice_submits some_
    obtain ⟨id, reply, last, found, alone⟩ := holds.offers pending pends
    have within : k < tui.sessions.ids.length := by rwa [← Tui.smCount_eq_ids]
    have known : tui.sessions.ids[k]? = some tui.sessions.ids[k] :=
      List.getElem?_eq_getElem within
    exact ⟨id, reply, text, k, last, found ▸ option, submitted,
      alone k at_ _ known ▸ known⟩
  refine fun idx => ⟨submits idx, fun id reply last gone => ?_⟩
  by_contra some_
  obtain ⟨other, _, text, k, last', _, _, here⟩ := submits idx some_
  obtain ⟨rfl, -⟩ := Prod.mk.inj (Option.some.inj (last.symm.trans last'))
  exact gone (List.mem_of_getElem? here)

/-- In every run in which nothing shifts while options are offered, an accepted option
goes to the session that offered it. -/
theorem choice_goes_to_offering (run : Run pickerStep Started trace tui)
    (still : ∀ taken ∈ trace, ¬ Shifts taken) : GoesToOffering trace tui := by
  have holds : Offers trace tui := by
    apply run.invariant_trace (fun taken => ¬ Shifts taken) Offers
    · rintro first ⟨cjson, dir, files, rfl⟩
      exact ⟨startUp_tabled cjson dir files, fun pending here => nomatch here⟩
    · intro trace src op dst _ _ holds stepped still
      rw [pickerStep] at stepped
      split at stepped
      next reads =>
        obtain rfl := Option.some.inj stepped
        exact holds.step reads still
      next => contradiction
    · exact still
  exact holds.goes

def press (ch : Nat) : SessionOp := .mainKey ch ⟨[], false, -1, []⟩

def typed (text : Bytes) : SessionOp := .mainKey Tui.newline ⟨text, true, -1, []⟩

/-- A question to the first session, its reply, and a second session. -/
def offeredThenNew : List SessionOp :=
  [typed (ascii "hi"),
    .checkIpc (.repFinal 1 0 (ascii "1. yes\n2. no") none) [] [ascii "yes", ascii "no"],
    .newSession]

theorem choice_goes_to_offering_new :
    GoesToOffering (execTrace pickerStep offeredThenNew Tui.fresh)
      (offeredThenNew.foldl SessionOp.run Tui.fresh) := by
  have started : Started Tui.fresh :=
    ⟨CJson.compact, [], fun _ => none, (startUp_absent _ _).symm⟩
  have ran : exec pickerStep offeredThenNew Tui.fresh =
      some (offeredThenNew.foldl SessionOp.run Tui.fresh) := rfl
  refine choice_goes_to_offering (Run.of_exec started ran) ?_
  have apart : ∀ taken ∈ execTrace pickerStep offeredThenNew Tui.fresh,
      taken.src.pendingChoices = none ∨ taken.label = .newSession ∧
        taken.src.sessions.smCount = 1 ∧
        taken.src.pendingChoices = some ⟨0, [ascii "yes", ascii "no"], 0⟩ := by decide
  rintro taken member ⟨pending, pends, k, at_, shifts⟩
  rcases apart taken member with none_ | ⟨new, one, here⟩
  · rw [none_] at pends
    cases pends
  · obtain rfl := Option.some.inj (here.symm.trans pends)
    rw [new, one] at shifts
    rcases shifts with ⟨idx, asked, -⟩ | ⟨-, there, -⟩
    · cases asked
    · have first : (0 : Int) = k := at_
      omega

/-- The second of three sessions is asked; its reply comes while the third one is
shown, the first one is deleted and the third one selected. -/
def deletedBefore : List SessionOp :=
  [press Tui.keyLeft, press 'n'.toNat, typed (ascii "hi"), press Tui.keyLeft, press 'n'.toNat,
    press Tui.keyLeft,
    .checkIpc (.repFinal 1 1 (ascii "1. yes\n2. no") none) [] [ascii "yes", ascii "no"],
    press Tui.keyUp, press Tui.keyUp, press 'd'.toNat, press Tui.keyDown, typed []]

def afterDeletion : Tui := deletedBefore.foldl SessionOp.run Tui.fresh

theorem choice_goes_astray :
    Run pickerStep Started (execTrace pickerStep deletedBefore Tui.fresh) afterDeletion ∧
      (afterDeletion.mainKey '1'.toNat ⟨[], false, -1, []⟩) = afterDeletion.acceptChoice 0 ∧
      ¬ GoesToOffering (execTrace pickerStep deletedBefore Tui.fresh) afterDeletion := by
  have started : Started Tui.fresh :=
    ⟨CJson.compact, [], fun _ => none, (startUp_absent _ _).symm⟩
  have ran : exec pickerStep deletedBefore Tui.fresh = some afterDeletion := rfl
  refine ⟨Run.of_exec started ran, rfl, fun goes => ?_⟩
  obtain ⟨id, reply, text, k, last, -, submits, here⟩ := (goes 0).1 (List.cons_ne_nil _ _)
  have offer : offered (execTrace pickerStep deletedBefore Tui.fresh) =
      some (2, ascii "1. yes\n2. no") := rfl
  have active : (afterDeletion.acceptChoice 0).1.sessions.active = 1 := rfl
  have third : afterDeletion.sessions.ids[1]? = some 3 := rfl
  obtain ⟨rfl, -⟩ := Prod.mk.inj (Option.some.inj (offer.symm.trans last))
  obtain rfl : 1 = k := Int.ofNat.inj (active.symm.trans submits.here)
  exact absurd (third.symm.trans here) (by decide)

end FreeCli

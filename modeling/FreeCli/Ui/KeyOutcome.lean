import FreeCli.Ui.Main

namespace FreeCli

open Words Slots

/-! What one key press can do to the state of the TUI, said once. -/

inductive ChatEdit (cb : ChatBuffer) : ChatBuffer → Prop
  | same : ChatEdit cb cb
  | cleared : ChatEdit cb []
  | note (text : Bytes) : ChatEdit cb (chatAdd cb text false)

/-- What a key may do to the sessions, other than submitting and deleting. -/
inductive SessionEdit (sessions : List Session) : List Session → Prop
  | same : SessionEdit sessions sessions
  | change (idx : Nat) (f : Session → Session)
      (keeps : ∀ session, (f session).id = session.id ∧
        ChatEdit session.chat (f session).chat) :
      SessionEdit sessions (sessions.modify idx f)
  | new (session : Session) (empty : session.chat = []) :
      SessionEdit sessions (sessions ++ [session])

theorem SessionEdit.from {before after : List Session} {k : Nat}
    (edit : SessionEdit before after) (here : after[k]? = some session) :
    (∃ old, before[k]? = some old ∧ session.id = old.id ∧
      ChatEdit old.chat session.chat) ∨ (before[k]? = none ∧ session.chat = []) := by
  cases edit with
  | same => exact .inl ⟨session, here, rfl, .same⟩
  | change idx f keeps =>
      rw [List.getElem?_modify] at here
      obtain ⟨old, there, rfl⟩ := Option.map_eq_some_iff.1 here
      refine .inl ⟨old, there, ?_⟩
      split
      · exact keeps old
      · exact ⟨rfl, .same⟩
  | new fresh empty =>
      rw [List.getElem?_append] at here
      split at here
      next => exact .inl ⟨session, here, rfl, .same⟩
      next beyond =>
        rw [List.getElem?_singleton] at here
        split at here
        · obtain rfl := Option.some.inj here
          exact .inr ⟨List.getElem?_eq_none (by omega), empty⟩
        · contradiction

theorem SessionEdit.stays {before after : List Session} {k : Nat}
    (edit : SessionEdit before after) (here : before[k]? = some session) :
    ∃ next, after[k]? = some next ∧ next.id = session.id := by
  cases edit with
  | same => exact ⟨session, here, rfl⟩
  | change idx f keeps =>
      refine ⟨_, by rw [List.getElem?_modify, here]; rfl, ?_⟩
      simp only
      split
      · exact (keeps session).1
      · rfl
  | new fresh empty =>
      obtain ⟨bound, _⟩ := List.getElem?_eq_some_iff.1 here
      exact ⟨session, (List.getElem?_append_left bound).trans here, rfl⟩

theorem SessionEdit.length_le {before after : List Session}
    (edit : SessionEdit before after) : before.length ≤ after.length := by
  cases edit with
  | same => exact Nat.le_refl _
  | change idx f keeps => rw [List.length_modify]
  | new fresh empty => simp

namespace Tui

variable (tui : Tui)

def reachesEditor (ch : Nat) : Prop :=
  ch ≠ keyResize ∧ ¬(tui.pendingApprovalCorr ≠ 0 ∧ approvalKey ch) ∧
    tui.focus ≠ 0 ∧ ch ≠ keyLeft ∧ ch ≠ tab ∧ tui.choiceKey ch = none ∧
    ch ≠ keyPPage ∧ ch ≠ keyNPage

instance (ch : Nat) : Decidable (tui.reachesEditor ch) :=
  inferInstanceAs (Decidable (_ ∧ _))

def deleteAsked (ch : Nat) (env : KeyEnv) : Option Int :=
  if ch ≠ keyResize ∧ ¬(tui.pendingApprovalCorr ≠ 0 ∧ approvalKey ch) ∧
      tui.focus = 0 then
    if ch = 'd'.toNat ∧ tui.sessions.smCount > 0 then some tui.sidebarSel else none
  else if tui.reachesEditor ch ∧ env.submitted ∧
      isCommand (ascii "/delete") (env.buffer.take 255) then
    some tui.sessions.active
  else
    none

structure Quiet (after : Tui) : Prop where
  inFlight : after.inFlight = tui.inFlight
  nextCorr : after.nextCorr = tui.nextCorr
  ipcOpen : after.ipcOpen = tui.ipcOpen
  approval : after.pendingApprovalCorr = tui.pendingApprovalCorr

structure Submits (after : Tui) (sent : List ToBackend) (active : Nat)
    (text : Bytes) : Prop where
  inside : active < tui.sessions.smCount
  here : after.sessions.active = active
  open_ : tui.ipcOpen = true
  free : inflightSessionActive tui.inFlight active = false
  sessions : after.sessions.sessions = tui.sessions.sessions.modify active
    fun session => { session with
      chat := chatAddPlaceholder (chatAdd session.chat text true) tui.nextCorr }
  inFlight : ∃ name, after.inFlight =
    inflightAdd tui.inFlight tui.nextCorr active name
  nextCorr : after.nextCorr = tui.nextCorr + 1
  ipcOpen : after.ipcOpen = tui.ipcOpen
  approval : after.pendingApprovalCorr = tui.pendingApprovalCorr
  sent : ∃ msgs model provider,
    sent = [.reqSend tui.nextCorr active msgs model provider]

structure AsksWorker (after : Tui) (sent : List ToBackend) : Prop where
  open_ : tui.ipcOpen = true
  sessions : SessionEdit tui.sessions.sessions after.sessions.sessions
  inFlight : ∃ sidx op, after.inFlight =
    inflightAdd tui.inFlight tui.nextCorr sidx op
  nextCorr : after.nextCorr = tui.nextCorr + 1
  ipcOpen : after.ipcOpen = tui.ipcOpen
  approval : after.pendingApprovalCorr = tui.pendingApprovalCorr
  sent : ∃ workerType op argsJson,
    sent = [.workerReq tui.nextCorr workerType op argsJson]

/-- The approval prompt is answered by the key `ch`. -/
structure Answers (ch : Nat) (after : Tui) (sent : List ToBackend) : Prop where
  asked : tui.pendingApprovalCorr ≠ 0
  pressed : approvalKey ch = true
  sessions : after.sessions.sessions = tui.sessions.sessions
  inFlight : after.inFlight = tui.inFlight
  nextCorr : after.nextCorr = tui.nextCorr
  ipcOpen : after.ipcOpen = tui.ipcOpen
  approval : after.pendingApprovalCorr = 0
  sent : ∀ msg ∈ sent, ∃ approved,
    msg = .approvalRep tui.pendingApprovalCorr tui.pendingApprovalCorr approved ∧
      (approved = true → ch = 'y'.toNat ∨ ch = 'Y'.toNat)

/-- The session at `idx` is deleted; another one is made if it was the last. -/
structure Deletes (after : Tui) (idx : Nat) : Prop where
  kept : tui.Quiet after
  inside : idx < tui.sessions.smCount
  sessions : ∃ fresh, (∀ session ∈ fresh, session.chat = []) ∧
    after.sessions.sessions = tui.sessions.sessions.eraseIdx idx ++ fresh

/-- `asked` is the index of the session the key asks to delete. -/
inductive KeyOutcome (asked : Option Int) (ch : Nat) (after : Tui) :
    List ToBackend → Prop
  | quiet (kept : tui.Quiet after)
      (edit : SessionEdit tui.sessions.sessions after.sessions.sessions) :
      KeyOutcome asked ch after []
  | delete (idx : Nat) (wanted : asked = some (idx : Int))
      (deletes : tui.Deletes after idx) : KeyOutcome asked ch after []
  | submit (active : Nat) (text : Bytes)
      (submits : tui.Submits after sent active text) :
      KeyOutcome asked ch after sent
  | worker (asks : tui.AsksWorker after sent) : KeyOutcome asked ch after sent
  | answer (answers : tui.Answers ch after sent) : KeyOutcome asked ch after sent

variable {tui} {asked : Option Int}

theorem Quiet.refl : tui.Quiet tui := ⟨rfl, rfl, rfl, rfl⟩

theorem Quiet.trans {middle after : Tui} (first : tui.Quiet middle)
    (second : middle.Quiet after) : tui.Quiet after where
  inFlight := second.inFlight.trans first.inFlight
  nextCorr := second.nextCorr.trans first.nextCorr
  ipcOpen := second.ipcOpen.trans first.ipcOpen
  approval := second.approval.trans first.approval

theorem systemMsg_quiet (tui : Tui) (text : Bytes) :
    tui.Quiet (tui.systemMsg text) := by
  rw [systemMsg]
  split
  · exact ⟨rfl, rfl, rfl, rfl⟩
  · exact .refl

theorem systemMsg_edit (tui : Tui) (text : Bytes) :
    SessionEdit tui.sessions.sessions (tui.systemMsg text).sessions.sessions := by
  rw [systemMsg]
  split
  next idx _ => exact .change idx _ fun session => ⟨rfl, .note text⟩
  next => exact .same

theorem KeyOutcome.of_quiet {base : Tui}
    (outcome : base.KeyOutcome asked ch after sent) (kept : tui.Quiet base)
    (same : base.sessions.sessions = tui.sessions.sessions) :
    tui.KeyOutcome asked ch after sent := by
  have count : base.sessions.smCount = tui.sessions.smCount := by
    rw [SessionManager.smCount, same, SessionManager.smCount]
  cases outcome with
  | quiet later edit => exact .quiet (kept.trans later) (same ▸ edit)
  | delete idx wanted deletes =>
      obtain ⟨later, inside, sessions⟩ := deletes
      exact .delete idx wanted
        ⟨kept.trans later, by omega, by rwa [← same]⟩
  | submit active text submits =>
      obtain ⟨inside, here, opened, free, sessions, inFlight, nextCorr, ipcOpen,
        approval, sent⟩ := submits
      rw [kept.ipcOpen] at opened ipcOpen
      rw [kept.inFlight] at free inFlight
      rw [kept.nextCorr] at sessions inFlight nextCorr sent
      rw [kept.approval] at approval
      rw [same] at sessions
      exact .submit active text ⟨by omega, here, opened, free, sessions, inFlight,
        nextCorr, ipcOpen, approval, sent⟩
  | worker asks =>
      obtain ⟨opened, sessions, inFlight, nextCorr, ipcOpen, approval, sent⟩ := asks
      rw [kept.ipcOpen] at opened ipcOpen
      rw [kept.inFlight, kept.nextCorr] at inFlight
      rw [kept.nextCorr] at nextCorr sent
      rw [kept.approval] at approval
      rw [same] at sessions
      exact .worker ⟨opened, sessions, inFlight, nextCorr, ipcOpen, approval, sent⟩
  | answer answers =>
      obtain ⟨prompted, pressed, sessions, inFlight, nextCorr, ipcOpen, approval, sent⟩ :=
        answers
      rw [kept.approval] at prompted sent
      exact .answer ⟨prompted, pressed, sessions.trans same, inFlight.trans kept.inFlight,
        nextCorr.trans kept.nextCorr, ipcOpen.trans kept.ipcOpen, approval, sent⟩

theorem note_outcome (tui : Tui) (text : Bytes) :
    tui.KeyOutcome asked ch (tui.systemMsg text) [] :=
  .quiet (systemMsg_quiet tui text) (systemMsg_edit tui text)

theorem doSetModel_quiet (tui : Tui) (model : Bytes) :
    tui.Quiet (tui.doSetModel model) ∧
      (tui.doSetModel model).sessions = tui.sessions := by
  rw [doSetModel]
  split
  · exact ⟨⟨rfl, rfl, rfl, rfl⟩, rfl⟩
  · exact ⟨.refl, rfl⟩

theorem doSetProvider_quiet (tui : Tui) (providerId : Bytes) :
    tui.Quiet (tui.doSetProvider providerId) ∧
      (tui.doSetProvider providerId).sessions = tui.sessions := by
  rw [doSetProvider]
  split
  · exact ⟨⟨rfl, rfl, rfl, rfl⟩, rfl⟩
  · exact ⟨.refl, rfl⟩

theorem newSession_outcome {sm : SessionManager} (name : Bytes) :
    SessionEdit sm.sessions (sm.smNewSession name).2.sessions := by
  rw [SessionManager.smNewSession]
  split
  · exact .same
  · exact .new _ rfl

@[simp] theorem smSelect_sessions (sm : SessionManager) (index : Int) :
    (sm.smSelect index).sessions = sm.sessions := by
  rw [SessionManager.smSelect]
  split <;> rfl

theorem openSession_outcome (name : Bytes) :
    tui.KeyOutcome asked ch (tui.openSession name) [] := by
  rw [openSession]
  split
  · refine .quiet ⟨rfl, rfl, rfl, rfl⟩ ?_
    rw [smSelect_sessions]
    exact newSession_outcome _
  · exact .quiet .refl .same

theorem cmdClear_outcome : tui.KeyOutcome asked ch tui.cmdClear [] := by
  rw [cmdClear]
  split
  next idx _ =>
    exact .quiet ⟨rfl, rfl, rfl, rfl⟩
      (.change idx _ fun session => ⟨rfl, .cleared⟩)
  next => exact .quiet .refl .same

theorem cmdRename_outcome (input : Bytes) :
    tui.KeyOutcome asked ch (tui.cmdRename input) [] := by
  rw [cmdRename]
  split
  next idx _ =>
    exact .quiet ⟨rfl, rfl, rfl, rfl⟩
      (.change idx _ fun session => ⟨rfl, .same⟩)
  next => exact .quiet .refl .same

theorem cmdProvider_outcome (picked : Int) :
    tui.KeyOutcome asked ch (tui.cmdProvider picked) [] := by
  rw [cmdProvider]
  split
  next info _ =>
    obtain ⟨provider, sameProvider⟩ := doSetProvider_quiet tui info.id
    obtain ⟨model, sameModel⟩ := doSetModel_quiet
      (tui.doSetProvider info.id) (info.models.headD [])
    exact .of_quiet (note_outcome _ _) (provider.trans model)
      (congrArg _ (sameModel.trans sameProvider))
  next => exact .quiet .refl .same

theorem cmdModel_outcome (picked : Int) :
    tui.KeyOutcome asked ch (tui.cmdModel picked) [] := by
  rw [cmdModel]
  split
  next model _ =>
    obtain ⟨kept, same⟩ := doSetModel_quiet tui model
    exact .of_quiet (note_outcome _ _) kept (congrArg _ same)
  next => exact .quiet .refl .same

theorem doSendWorkerReq_open (connected : tui.ipcOpen = true)
    (workerType : Nat) (op argsJson : Bytes) :
    tui.doSendWorkerReq workerType op argsJson =
      (tui.nextCorr, { tui with
        nextCorr := tui.nextCorr + 1
        inFlight := inflightAdd tui.inFlight tui.nextCorr tui.sessions.active op },
        [.workerReq tui.nextCorr workerType op argsJson]) := by
  rw [doSendWorkerReq, if_pos connected]

theorem AsksWorker.note (connected : tui.ipcOpen = true)
    (workerType : Nat) (op argsJson text : Bytes) :
    tui.AsksWorker
      ((tui.doSendWorkerReq workerType op argsJson).2.1.systemMsg text)
      (tui.doSendWorkerReq workerType op argsJson).2.2 := by
  rw [doSendWorkerReq_open connected]
  let asked : Tui := { tui with
    nextCorr := tui.nextCorr + 1
    inFlight := inflightAdd tui.inFlight tui.nextCorr tui.sessions.active op }
  have kept := systemMsg_quiet asked text
  exact {
    open_ := connected
    sessions := systemMsg_edit asked text
    inFlight := ⟨_, op, kept.inFlight⟩
    nextCorr := kept.nextCorr
    ipcOpen := kept.ipcOpen
    approval := kept.approval
    sent := ⟨workerType, op, argsJson, rfl⟩ }

theorem cmdFs_outcome (input : Bytes) (env : KeyEnv)
    (positive : 0 < tui.nextCorr) :
    tui.KeyOutcome asked ch (tui.cmdFs input env).1 (tui.cmdFs input env).2 := by
  rw [cmdFs]
  simp only
  split
  next => exact note_outcome _ _
  next =>
    split
    next => exact note_outcome _ _
    next op _ =>
      by_cases connected : tui.ipcOpen = true
      · have numbered : ¬(tui.doSendWorkerReq backendTypeFilesystem op
            env.argsJson).1 = 0 := by
          rw [doSendWorkerReq_open connected]
          exact Nat.ne_of_gt positive
        rw [if_neg numbered]
        exact .worker (.note connected _ _ _ _)
      · rw [doSendWorkerReq, if_neg connected]
        exact note_outcome _ _

theorem smRemove_inside {sm : SessionManager} {index : Int}
    (inside : ¬(index < 0 ∨ index ≥ sm.smCount)) :
    (sm.smRemove index).2.sessions = sm.sessions.eraseIdx index.toNat := by
  rw [SessionManager.smRemove, if_neg inside]

theorem refill_sessions (sm : SessionManager) (name : Bytes) :
    ∃ fresh, (∀ session ∈ fresh, session.chat = []) ∧
      (if sm.smCount = 0 then (sm.smNewSession name).2 else sm).sessions =
        sm.sessions ++ fresh := by
  split
  next empty =>
    refine ⟨[{ id := sm.nextId, name := name.take 63, chat := [] }], ?_, ?_⟩
    · simp
    · have room : ¬sm.smCount ≥ maxSessions := by
        rw [empty]
        decide
      rw [SessionManager.smNewSession, if_neg room]
  next => exact ⟨[], by simp, by simp⟩

theorem doDeleteSession_outcome (wanted : asked = some idx) :
    tui.KeyOutcome asked ch (tui.doDeleteSession idx) [] := by
  by_cases inside : idx < 0 ∨ idx ≥ tui.sessions.smCount
  · rw [doDeleteSession, if_pos inside]
    exact .quiet .refl .same
  · have same : (idx.toNat : Int) = idx := by omega
    refine .delete idx.toNat (same ▸ wanted) ?_
    rw [doDeleteSession, if_neg inside]
    obtain ⟨fresh, empty, refilled⟩ :=
      refill_sessions (tui.sessions.smRemove idx).2 (chatName 1)
    refine ⟨⟨rfl, rfl, rfl, rfl⟩, by omega, fresh, empty, ?_⟩
    rw [smSelect_sessions, refilled, smRemove_inside inside]

theorem cmdDispatch_outcome (input : Bytes) (env : KeyEnv)
    (positive : 0 < tui.nextCorr)
    (wanted : isCommand (ascii "/delete") input = true →
      asked = some tui.sessions.active) :
    tui.KeyOutcome asked ch (tui.cmdDispatch input env).1
      (tui.cmdDispatch input env).2 := by
  rw [cmdDispatch]
  split
  · exact note_outcome _ _
  split
  next deleting => exact doDeleteSession_outcome (wanted deleting)
  split
  · exact cmdClear_outcome
  split
  · exact openSession_outcome _
  split
  · exact cmdRename_outcome _
  split
  · exact cmdProvider_outcome _
  split
  · exact cmdModel_outcome _
  split
  · exact cmdFs_outcome _ _ positive
  · exact note_outcome _ _

theorem activeIndex_eq_some {sm : SessionManager}
    (found : sm.activeIndex = some idx) :
    idx < sm.smCount ∧ sm.active = idx := by
  rw [SessionManager.activeIndex] at found
  split at found
  next => contradiction
  next inside =>
    obtain rfl := Option.some.inj found
    omega

theorem submitChat_outcome (text : Bytes) (connected : tui.ipcOpen = true)
    (free : inflightSessionActive tui.inFlight tui.sessions.active = false) :
    tui.KeyOutcome asked ch (tui.submitChat text).1 (tui.submitChat text).2 := by
  rw [submitChat]
  split
  next => exact .quiet .refl .same
  next idx found =>
    obtain ⟨inside, active⟩ := activeIndex_eq_some found
    simp only [active] at free ⊢
    exact .submit idx text ⟨inside, active, connected, free, rfl, ⟨_, rfl⟩, rfl,
      rfl, rfl, ⟨_, _, _, rfl⟩⟩

theorem submitText_outcome (text : Bytes) :
    tui.KeyOutcome asked ch (tui.submitText text).1 (tui.submitText text).2 := by
  rw [submitText]
  split
  · exact .quiet .refl .same
  split
  · exact .quiet .refl .same
  split
  · exact .quiet .refl .same
  next connected =>
    split
    · exact .quiet .refl .same
    next free =>
      exact submitChat_outcome text (by simpa using connected) (by simpa using free)

theorem acceptChoice_outcome (idx : Int) :
    tui.KeyOutcome asked ch (tui.acceptChoice idx).1 (tui.acceptChoice idx).2 := by
  rw [acceptChoice]
  split
  next => exact .quiet .refl .same
  next pending _ =>
    split
    · exact .quiet .refl .same
    split
    · exact .quiet .refl .same
    · exact .of_quiet (submitText_outcome _) ⟨rfl, rfl, rfl, rfl⟩ rfl

theorem submitMessage_outcome (env : KeyEnv) (positive : 0 < tui.nextCorr)
    (wanted : isCommand (ascii "/delete") (tui.inputLine.take 255) = true →
      asked = some tui.sessions.active) :
    tui.KeyOutcome asked ch (tui.submitMessage env).1 (tui.submitMessage env).2 := by
  rw [submitMessage]
  split
  · exact .quiet .refl .same
  split
  · exact .of_quiet (cmdDispatch_outcome _ _ positive wanted)
      ⟨rfl, rfl, rfl, rfl⟩ rfl
  · simp only
    split
    · exact .quiet ⟨rfl, rfl, rfl, rfl⟩ .same
    next connected =>
      split
      · exact .quiet ⟨rfl, rfl, rfl, rfl⟩ .same
      next free =>
        exact .of_quiet
          (submitChat_outcome _ (by simpa using connected) (by simpa using free))
          ⟨rfl, rfl, rfl, rfl⟩ rfl

theorem sidebarKey_outcome (wanted : ch = 'd'.toNat → tui.sessions.smCount > 0 →
      asked = some tui.sidebarSel) :
    tui.KeyOutcome asked ch (tui.sidebarKey ch) [] := by
  rw [sidebarKey]
  split
  · exact openSession_outcome _
  split
  · exact .quiet ⟨rfl, rfl, rfl, rfl⟩ .same
  split
  next deleting => exact doDeleteSession_outcome (wanted deleting.1 deleting.2)
  split
  · exact .quiet ⟨rfl, rfl, rfl, rfl⟩ .same
  split
  · exact .quiet ⟨rfl, rfl, rfl, rfl⟩ .same
  split
  · refine .quiet ⟨rfl, rfl, rfl, rfl⟩ ?_
    rw [smSelect_sessions]
    exact .same
  · exact .quiet .refl .same

theorem choiceKey_cases (picked : tui.choiceKey ch = some result) :
    (∃ idx, result = tui.acceptChoice idx) ∨
      ∃ pending selected, tui.pendingChoices = some pending ∧
        result = ({ tui with pendingChoices := some { pending with selected } }, []) := by
  rw [choiceKey] at picked
  split at picked
  next => contradiction
  next pending offered =>
    split at picked
    · contradiction
    split at picked
    · exact .inl ⟨_, (Option.some.inj picked).symm⟩
    split at picked
    · exact .inr ⟨pending, _, offered, (Option.some.inj picked).symm⟩
    split at picked
    · exact .inr ⟨pending, _, offered, (Option.some.inj picked).symm⟩
    split at picked
    · exact .inl ⟨_, (Option.some.inj picked).symm⟩
    · contradiction

theorem choiceKey_outcome (picked : tui.choiceKey ch = some result) :
    tui.KeyOutcome asked ch result.1 result.2 := by
  rcases choiceKey_cases picked with ⟨idx, rfl⟩ | ⟨pending, selected, -, rfl⟩
  · exact acceptChoice_outcome idx
  · exact .quiet ⟨rfl, rfl, rfl, rfl⟩ .same

theorem inputKey_outcome (positive : 0 < tui.nextCorr)
    (wanted : (¬(ch = keyLeft ∨ ch = tab) ∧ tui.choiceKey ch = none ∧
        ¬(ch = keyPPage ∨ ch = keyNPage)) ∧ env.submitted = true ∧
        isCommand (ascii "/delete") (env.buffer.take 255) = true →
      asked = some tui.sessions.active) :
    tui.KeyOutcome asked ch (tui.inputKey ch env).1 (tui.inputKey ch env).2 := by
  rw [inputKey]
  split
  · exact .quiet ⟨rfl, rfl, rfl, rfl⟩ .same
  next stays =>
    split
    next result picked => exact choiceKey_outcome picked
    next unpicked =>
      split
      · exact .quiet .refl .same
      next paged =>
        simp only
        split
        next submitted =>
          refine .of_quiet (submitMessage_outcome env positive fun deleting => ?_)
            ⟨rfl, rfl, rfl, rfl⟩ rfl
          exact wanted ⟨⟨stays, unpicked, paged⟩, submitted, deleting⟩
        next => exact .quiet ⟨rfl, rfl, rfl, rfl⟩ .same

theorem answerApproval_outcome (prompted : tui.pendingApprovalCorr ≠ 0)
    (pressed : approvalKey ch = true) :
    tui.KeyOutcome asked ch (tui.answerApproval ch).1 (tui.answerApproval ch).2 := by
  refine .answer ⟨prompted, pressed, rfl, rfl, rfl, rfl, rfl, fun msg member => ?_⟩
  rw [answerApproval] at member
  split at member
  · obtain rfl := List.mem_singleton.1 member
    exact ⟨_, rfl, fun yes => by simpa using yes⟩
  · exact absurd member List.not_mem_nil

theorem mainKey_outcome (ch : Nat) (env : KeyEnv) (positive : 0 < tui.nextCorr) :
    tui.KeyOutcome (tui.deleteAsked ch env) ch (tui.mainKey ch env).1
      (tui.mainKey ch env).2 := by
  rw [mainKey]
  split
  · exact .quiet .refl .same
  next sized =>
    split
    next prompted => exact answerApproval_outcome prompted.1 prompted.2
    next unprompted =>
      split
      next sidebar =>
        refine sidebarKey_outcome fun deleting some => ?_
        rw [deleteAsked, if_pos ⟨sized, unprompted, sidebar⟩, if_pos ⟨deleting, some⟩]
      next inputs =>
        refine inputKey_outcome positive fun ⟨⟨stays, unpicked, paged⟩, asks⟩ => ?_
        have elsewhere : ¬(ch ≠ keyResize ∧
            ¬(tui.pendingApprovalCorr ≠ 0 ∧ approvalKey ch) ∧ tui.focus = 0) :=
          fun sidebar => inputs sidebar.2.2
        have reaches : tui.reachesEditor ch := by
          rw [not_or] at stays paged
          exact ⟨sized, unprompted, inputs, stays.1, stays.2, unpicked, paged⟩
        rw [deleteAsked, if_neg elsewhere, if_pos ⟨reaches, asks⟩]

theorem KeyOutcome.numbers (outcome : tui.KeyOutcome asked ch after sent) :
    (sent.filterMap ToBackend.requestId = [] ∧ after.nextCorr = tui.nextCorr) ∨
      (sent.filterMap ToBackend.requestId = [tui.nextCorr] ∧
        after.nextCorr = tui.nextCorr + 1) := by
  cases outcome with
  | quiet kept edit => exact .inl ⟨rfl, kept.nextCorr⟩
  | delete idx wanted deletes => exact .inl ⟨rfl, deletes.kept.nextCorr⟩
  | submit active text submits =>
      obtain ⟨_, _, _, rfl⟩ := submits.sent
      exact .inr ⟨rfl, submits.nextCorr⟩
  | worker asks =>
      obtain ⟨_, _, _, rfl⟩ := asks.sent
      exact .inr ⟨rfl, asks.nextCorr⟩
  | answer answers =>
      refine .inl ⟨?_, answers.nextCorr⟩
      rw [List.filterMap_eq_nil_iff]
      intro msg member
      obtain ⟨approved, rfl, _⟩ := answers.sent msg member
      rfl

theorem KeyOutcome.submits (outcome : tui.KeyOutcome asked ch after sent)
    (member : .reqSend c i msgs model provider ∈ sent) :
    c = tui.nextCorr ∧ ∃ text, tui.Submits after sent i text := by
  cases outcome with
  | quiet kept edit => exact absurd member List.not_mem_nil
  | delete idx wanted deletes => exact absurd member List.not_mem_nil
  | submit active text submits =>
      obtain ⟨_, _, _, only⟩ := submits.sent
      rw [only] at member
      cases List.mem_singleton.1 member
      exact ⟨rfl, text, submits⟩
  | worker asks =>
      obtain ⟨_, _, _, rfl⟩ := asks.sent
      simp at member
  | answer answers =>
      obtain ⟨_, same, _⟩ := answers.sent _ member
      cases same

theorem KeyOutcome.table (outcome : tui.KeyOutcome asked ch after sent) :
    after.inFlight = tui.inFlight ∨ (∃ active text, tui.Submits after sent active text) ∨
      tui.AsksWorker after sent := by
  cases outcome with
  | quiet kept edit => exact .inl kept.inFlight
  | delete idx wanted deletes => exact .inl deletes.kept.inFlight
  | submit active text submits => exact .inr (.inl ⟨active, text, submits⟩)
  | worker asks => exact .inr (.inr asks)
  | answer answers => exact .inl answers.inFlight

theorem KeyOutcome.sessions (outcome : tui.KeyOutcome asked ch after sent) :
    SessionEdit tui.sessions.sessions after.sessions.sessions ∨
      (∃ active text, tui.Submits after sent active text) ∨
      ∃ idx : Nat, asked = some (idx : Int) ∧ tui.Deletes after idx := by
  cases outcome with
  | quiet kept edit => exact .inl edit
  | delete idx wanted deletes => exact .inr (.inr ⟨idx, wanted, deletes⟩)
  | submit active text submits => exact .inr (.inl ⟨active, text, submits⟩)
  | worker asks => exact .inl asks.sessions
  | answer answers => exact .inl (answers.sessions ▸ .same)

theorem KeyOutcome.ipcOpen (outcome : tui.KeyOutcome asked ch after sent) :
    after.ipcOpen = tui.ipcOpen := by
  cases outcome with
  | quiet kept edit => exact kept.ipcOpen
  | delete idx wanted deletes => exact deletes.kept.ipcOpen
  | submit active text submits => exact submits.ipcOpen
  | worker asks => exact asks.ipcOpen
  | answer answers => exact answers.ipcOpen

theorem KeyOutcome.prompt (outcome : tui.KeyOutcome asked ch after sent) :
    after.pendingApprovalCorr = tui.pendingApprovalCorr ∨
      approvalKey ch = true ∧ after.pendingApprovalCorr = 0 := by
  cases outcome with
  | quiet kept edit => exact .inl kept.approval
  | delete idx wanted deletes => exact .inl deletes.kept.approval
  | submit active text submits => exact .inl submits.approval
  | worker asks => exact .inl asks.approval
  | answer answers => exact .inr ⟨answers.pressed, answers.approval⟩

theorem KeyOutcome.approval (outcome : tui.KeyOutcome asked ch after sent) :
    after.pendingApprovalCorr = tui.pendingApprovalCorr ∨
      after.pendingApprovalCorr = 0 :=
  outcome.prompt.imp id And.right

theorem KeyOutcome.approves (outcome : tui.KeyOutcome asked ch after sent)
    (member : .approvalRep corrId reqCorrId true ∈ sent) :
    tui.pendingApprovalCorr = reqCorrId ∧ reqCorrId ≠ 0 ∧
      (ch = 'y'.toNat ∨ ch = 'Y'.toNat) := by
  cases outcome with
  | quiet kept edit => exact absurd member List.not_mem_nil
  | delete idx wanted deletes => exact absurd member List.not_mem_nil
  | submit active text submits =>
      obtain ⟨_, _, _, rfl⟩ := submits.sent
      simp at member
  | worker asks =>
      obtain ⟨_, _, _, rfl⟩ := asks.sent
      simp at member
  | answer answers =>
      obtain ⟨approved, same, yes⟩ := answers.sent _ member
      injection same with _ corr pressed
      exact ⟨corr.symm, corr ▸ answers.asked, yes pressed.symm⟩

theorem mainKey_answers (env : KeyEnv) (asked : tui.pendingApprovalCorr ≠ 0)
    (answers : approvalKey ch = true) :
    (tui.mainKey ch env).1.pendingApprovalCorr = 0 := by
  have sized : ch ≠ keyResize := by
    rintro rfl
    contradiction
  rw [mainKey, if_neg sized, if_pos ⟨asked, answers⟩]
  rfl

end Tui

end FreeCli

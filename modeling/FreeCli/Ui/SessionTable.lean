import FreeCli.Ui.CheckOutcome
import FreeCli.Ui.Store

namespace FreeCli

open Words

/-! What each function of the TUI does to the session table and its cursors. -/

def SessionManager.ids (sm : SessionManager) : List Int := sm.sessions.map Session.id

def SessionManager.Inside (sm : SessionManager) (cursor : Int) : Prop :=
  0 ≤ cursor ∧ cursor < sm.smCount

/-- The table and the cursors `active` and `sidebar_sel`. -/
structure Tui.Tabled (tui : Tui) : Prop where
  some_ : 1 ≤ tui.sessions.smCount
  room : tui.sessions.smCount ≤ maxSessions
  active : tui.sessions.Inside tui.sessions.active
  sidebar : tui.sessions.Inside tui.sidebarSel

structure Opens (sm : SessionManager) (sm' : SessionManager) (sel' : Int) (name : Bytes) :
    Prop where
  room : sm.smCount < maxSessions
  sessions : sm'.sessions = sm.sessions ++ [{ id := sm.nextId, name := name.take 63, chat := [] }]
  nextId : sm'.nextId = sm.nextId + 1
  active : sm'.active = sm.smCount
  sidebar : sel' = sm.smCount

/-- Where `active` goes when the session at `idx` leaves a table that keeps one. -/
def SessionManager.activeAfter (sm : SessionManager) (idx : Nat) : Int :=
  if sm.active > idx then sm.active - 1
  else if sm.active = idx ∧ idx + 1 = sm.smCount then idx - 1
  else sm.active

/-- The session at `idx` is deleted, and "Chat 1" made when it was the last. -/
structure Removes (sm : SessionManager) (sel : Int) (sm' : SessionManager) (sel' : Int)
    (idx : Nat) : Prop where
  inside : idx < sm.smCount
  sessions : sm'.sessions = sm.sessions.eraseIdx idx ++
    if sm.smCount = 1 then [{ id := sm.nextId, name := Tui.chatName 1, chat := [] }] else []
  nextId : sm'.nextId = if sm.smCount = 1 then sm.nextId + 1 else sm.nextId
  active : sm'.active = if sm.smCount = 1 then 0 else sm.activeAfter idx
  sidebar : sel' = if sm.smCount = 1 then 0 else min sel ((sm.smCount : Int) - 2)

/-- What becomes of the table and the cursors, and what is saved then. -/
inductive TableStep (sm : SessionManager) (sel : Int) (sm' : SessionManager) (sel' : Int) :
    List Save → Prop
  | kept (ids : sm'.ids = sm.ids) (nextId : sm'.nextId = sm.nextId)
      (active : sm'.active = sm.active ∨ sm.Inside sm'.active)
      (sidebar : sel' = sel ∨ sm.Inside sel') (saves : List Save) :
      TableStep sm sel sm' sel' saves
  | opened (name : Bytes) (opens : Opens sm sm' sel' name) : TableStep sm sel sm' sel' [.all]
  | removed (idx : Nat) (id : Int) (removes : Removes sm sel sm' sel' idx) :
      TableStep sm sel sm' sel' [.delete id, .all]

theorem TableStep.same (sm : SessionManager) (sel : Int) (saves : List Save) :
    TableStep sm sel sm sel saves :=
  .kept rfl rfl (.inl rfl) (.inl rfl) saves

theorem ids_setSession {f : Session → Session}
    (keeps : ∀ session, (f session).id = session.id) (sm : SessionManager) (idx : Nat) :
    (sm.setSession idx f).ids = sm.ids := by
  apply List.ext_getElem?
  intro k
  rw [SessionManager.ids, SessionManager.ids, List.getElem?_map, List.getElem?_map,
    SessionManager.getElem?_setSession]
  split
  next =>
    cases sm.sessions[k]? with
    | none => rfl
    | some session => exact congrArg some (keeps session)
  next => rfl

theorem smSelect_inside {sm : SessionManager} {cursor : Int} (inside : sm.Inside cursor) :
    sm.smSelect cursor = { sm with active := cursor } :=
  if_pos inside

theorem TableStep.select (sm : SessionManager) (index sel : Int) (saves : List Save) :
    TableStep sm sel (sm.smSelect index) sel saves := by
  rw [SessionManager.smSelect]
  split
  next inside =>
    have active : sm.Inside ({ sm with active := index } : SessionManager).active := inside
    have ids : ({ sm with active := index } : SessionManager).ids = sm.ids := rfl
    exact .kept ids rfl (.inr active) (.inl rfl) saves
  next => exact .same sm sel saves

namespace Tui

variable {tui : Tui}

abbrev Steps (tui after : Tui) (saves : List Save) : Prop :=
  TableStep tui.sessions tui.sidebarSel after.sessions after.sidebarSel saves

structure Still (tui after : Tui) : Prop where
  ids : after.sessions.ids = tui.sessions.ids
  nextId : after.sessions.nextId = tui.sessions.nextId
  active : after.sessions.active = tui.sessions.active
  sidebar : after.sidebarSel = tui.sidebarSel

theorem Still.refl (tui : Tui) : tui.Still tui := ⟨rfl, rfl, rfl, rfl⟩

theorem Still.trans {middle after : Tui} (first : tui.Still middle)
    (second : middle.Still after) : tui.Still after where
  ids := second.ids.trans first.ids
  nextId := second.nextId.trans first.nextId
  active := second.active.trans first.active
  sidebar := second.sidebar.trans first.sidebar

theorem Still.steps {after : Tui} (still : tui.Still after) (saves : List Save) :
    tui.Steps after saves :=
  .kept still.ids still.nextId (.inl still.active) (.inl still.sidebar) saves

theorem Still.chat (tui : Tui) (idx : Nat) (f : ChatBuffer → ChatBuffer) :
    tui.Still { tui with sessions := tui.sessions.setChat idx f } := by
  refine ⟨ids_setSession ?_ tui.sessions idx, rfl, rfl, rfl⟩
  intro session
  rfl

theorem systemMsg_still (tui : Tui) (text : Bytes) : tui.Still (tui.systemMsg text) := by
  rw [systemMsg]
  split
  next idx _ => exact .chat tui idx _
  next => exact .refl tui

theorem openSession_full (full : maxSessions ≤ tui.sessions.smCount) (name : Bytes) :
    tui.openSession name = tui := by
  rw [openSession, SessionManager.smNewSession_full full]
  exact if_neg (by decide : ¬(-1 : Int) ≥ 0)

theorem openSession_opens (room : tui.sessions.smCount < maxSessions) (name : Bytes) :
    Opens tui.sessions (tui.openSession name).sessions (tui.openSession name).sidebarSel
      name := by
  have fits : (tui.sessions.smCount : Int) ≥ 0 := Int.natCast_nonneg _
  rw [openSession, SessionManager.smNewSession_opened room]
  simp only [if_pos fits]
  rw [smSelect_inside]
  · exact ⟨room, rfl, rfl, rfl, rfl⟩
  · refine ⟨fits, ?_⟩
    simp only [SessionManager.smCount, List.length_append, List.length_singleton]
    omega

theorem openSession_steps (tui : Tui) (name : Bytes) :
    tui.Steps (tui.openSession name) (tui.openSessionSaves name) := by
  rw [openSessionSaves]
  rcases Nat.lt_or_ge tui.sessions.smCount maxSessions with room | full
  · have fits : (tui.sessions.smCount : Int) ≥ 0 := Int.natCast_nonneg _
    rw [SessionManager.smNewSession_opened room, if_pos fits]
    exact .opened name (openSession_opens room name)
  · rw [openSession_full full]
    exact .same _ _ _

theorem smRemove_last {sm : SessionManager} (last : sm.smCount = 1) :
    sm.smRemove 0 = (-1, { sessions := [], active := -1, nextId := sm.nextId }) := by
  have empty : sm.sessions.eraseIdx 0 = [] := by
    apply List.length_eq_zero_iff.1
    rw [List.length_eraseIdx, ← SessionManager.smCount, last]
    rfl
  rw [SessionManager.smRemove, if_neg (by omega), Int.toNat_zero, empty]
  rfl

theorem smRemove_more {sm : SessionManager} (inside : idx < sm.smCount)
    (more : 1 < sm.smCount) :
    sm.smRemove idx = (sm.activeAfter idx,
      { sessions := sm.sessions.eraseIdx idx
        active := sm.activeAfter idx
        nextId := sm.nextId }) := by
  have left : ((sm.sessions.eraseIdx idx).length : Int) = sm.smCount - 1 := by
    rw [List.length_eraseIdx_of_lt inside]
    rw [SessionManager.smCount] at more ⊢
    omega
  have active : (if (sm.smCount : Int) - 1 = 0 then -1
      else if sm.active > idx then sm.active - 1
      else if sm.active = idx then
        if (idx : Int) < sm.smCount - 1 then (idx : Int) else sm.smCount - 1 - 1
      else sm.active) = sm.activeAfter idx := by
    rw [SessionManager.activeAfter]
    split_ifs <;> omega
  rw [SessionManager.smRemove, if_neg (by omega)]
  simp only [Int.toNat_natCast, left, active]

theorem SessionManager.activeAfter_inside {sm : SessionManager} (inside : idx < sm.smCount)
    (more : 1 < sm.smCount) (active : sm.Inside sm.active) :
    0 ≤ sm.activeAfter idx ∧ sm.activeAfter idx < (sm.smCount : Int) - 1 := by
  obtain ⟨activeFrom, activeTo⟩ := active
  rw [SessionManager.activeAfter]
  split_ifs <;> omega

theorem doDeleteSession_last (tabled : tui.Tabled) (last : tui.sessions.smCount = 1) :
    Removes tui.sessions tui.sidebarSel (tui.doDeleteSession (0 : Nat)).sessions
      (tui.doDeleteSession (0 : Nat)).sidebarSel 0 := by
  obtain ⟨sidebarFrom, sidebarTo⟩ := tabled.sidebar
  have here : ¬(((0 : Nat) : Int) < 0 ∨ ((0 : Nat) : Int) ≥ tui.sessions.smCount) := by omega
  have sidebar : tui.sidebarSel = 0 := by omega
  have empty : tui.sessions.sessions.eraseIdx 0 = [] := by
    apply List.length_eq_zero_iff.1
    rw [List.length_eraseIdx, ← SessionManager.smCount, last]
    rfl
  have removed : tui.sessions.smRemove (0 : Nat) = _ := smRemove_last last
  rw [doDeleteSession, if_neg here, removed, sidebar]
  refine ⟨by omega, ?_, ?_, ?_, ?_⟩
  · rw [if_pos last, empty]
    rfl
  · rw [if_pos last]
    rfl
  · rw [if_pos last]
    rfl
  · rw [if_pos last]
    rfl

theorem doDeleteSession_more (tabled : tui.Tabled) (inside : idx < tui.sessions.smCount)
    (more : 1 < tui.sessions.smCount) :
    Removes tui.sessions tui.sidebarSel (tui.doDeleteSession idx).sessions
      (tui.doDeleteSession idx).sidebarSel idx := by
  obtain ⟨sidebarFrom, sidebarTo⟩ := tabled.sidebar
  obtain ⟨activeFrom, activeTo⟩ :=
    SessionManager.activeAfter_inside inside more tabled.active
  have here : ¬((idx : Int) < 0 ∨ (idx : Int) ≥ tui.sessions.smCount) := by omega
  let removed : SessionManager :=
    { sessions := tui.sessions.sessions.eraseIdx idx
      active := tui.sessions.activeAfter idx
      nextId := tui.sessions.nextId }
  have left : removed.smCount = tui.sessions.smCount - 1 := List.length_eraseIdx_of_lt inside
  have some_ : ¬removed.smCount = 0 := by omega
  have only : ¬tui.sessions.smCount = 1 := by omega
  have selected : removed.Inside (tui.sessions.activeAfter idx) := ⟨activeFrom, by omega⟩
  rw [doDeleteSession, if_neg here, smRemove_more inside more]
  simp only
  rw [if_neg some_, if_pos activeFrom, smSelect_inside selected]
  refine ⟨inside, ?_, ?_, ?_, ?_⟩
  · rw [if_neg only, List.append_nil]
  · rw [if_neg only]
  · rw [if_neg only]
  · rw [if_neg only]
    change (if tui.sidebarSel ≥ (removed.smCount : Int) then (removed.smCount : Int) - 1
      else tui.sidebarSel) = _
    rw [left]
    split
    · omega
    · omega

theorem doDeleteSession_removes (tabled : tui.Tabled) (inside : idx < tui.sessions.smCount) :
    Removes tui.sessions tui.sidebarSel (tui.doDeleteSession idx).sessions
      (tui.doDeleteSession idx).sidebarSel idx := by
  rcases Nat.eq_or_lt_of_le tabled.some_ with last | more
  · obtain rfl : idx = 0 := by omega
    exact doDeleteSession_last tabled last.symm
  · exact doDeleteSession_more tabled inside more

theorem doDeleteSession_steps (tabled : tui.Tabled) (idx : Int) :
    tui.Steps (tui.doDeleteSession idx) (tui.doDeleteSessionSaves idx) := by
  by_cases outside : idx < 0 ∨ idx ≥ tui.sessions.smCount
  · rw [doDeleteSession, if_pos outside]
    exact .same _ _ _
  · obtain ⟨idx, rfl⟩ := Int.eq_ofNat_of_zero_le (by omega : 0 ≤ idx)
    have inside : idx < tui.sessions.smCount := by omega
    have removes := doDeleteSession_removes tabled inside
    have found := List.getElem?_eq_getElem inside
    rw [doDeleteSessionSaves, SessionManager.smGet, if_neg outside, Int.toNat_natCast, found]
    exact .removed idx _ removes

theorem cmdClear_still (tui : Tui) : tui.Still tui.cmdClear := by
  rw [cmdClear]
  split
  next idx _ => exact .chat tui idx _
  next => exact .refl tui

theorem cmdRename_still (tui : Tui) (input : Bytes) : tui.Still (tui.cmdRename input) := by
  rw [cmdRename]
  split
  next idx _ =>
    refine ⟨ids_setSession ?_ tui.sessions idx, rfl, rfl, rfl⟩
    intro session
    rfl
  next => exact .refl tui

theorem doSetModel_still (tui : Tui) (model : Bytes) : tui.Still (tui.doSetModel model) := by
  rw [doSetModel]
  split
  · exact ⟨rfl, rfl, rfl, rfl⟩
  · exact .refl tui

theorem doSetProvider_still (tui : Tui) (providerId : Bytes) :
    tui.Still (tui.doSetProvider providerId) := by
  rw [doSetProvider]
  split
  · exact ⟨rfl, rfl, rfl, rfl⟩
  · exact .refl tui

theorem cmdProvider_still (tui : Tui) (picked : Int) : tui.Still (tui.cmdProvider picked) := by
  rw [cmdProvider]
  split
  next info _ =>
    exact ((doSetProvider_still tui info.id).trans (doSetModel_still _ _)).trans
      (systemMsg_still _ _)
  next => exact .refl tui

theorem cmdModel_still (tui : Tui) (picked : Int) : tui.Still (tui.cmdModel picked) := by
  rw [cmdModel]
  split
  next model _ => exact (doSetModel_still tui model).trans (systemMsg_still _ _)
  next => exact .refl tui

theorem doSendWorkerReq_still (tui : Tui) (workerType : Nat) (op argsJson : Bytes) :
    tui.Still (tui.doSendWorkerReq workerType op argsJson).2.1 := by
  rw [doSendWorkerReq]
  split
  · exact ⟨rfl, rfl, rfl, rfl⟩
  · exact .refl tui

theorem cmdFs_still (tui : Tui) (input : Bytes) (env : KeyEnv) :
    tui.Still (tui.cmdFs input env).1 := by
  rw [cmdFs]
  simp only
  split
  next => exact systemMsg_still tui _
  next =>
    split
    next => exact systemMsg_still tui _
    next op _ =>
      have sent := doSendWorkerReq_still tui backendTypeFilesystem op env.argsJson
      split
      next => exact sent.trans (systemMsg_still _ _)
      next => exact sent.trans (systemMsg_still _ _)

theorem cmdDispatch_steps (tabled : tui.Tabled) (input : Bytes) (env : KeyEnv) :
    tui.Steps (tui.cmdDispatch input env).1 (tui.cmdDispatchSaves input) := by
  rw [cmdDispatch, cmdDispatchSaves]
  split
  · exact (systemMsg_still _ _).steps _
  split
  · exact doDeleteSession_steps tabled _
  split
  · exact (cmdClear_still _).steps _
  split
  · exact openSession_steps _ _
  split
  · exact (cmdRename_still _ _).steps _
  split
  · exact (cmdProvider_still _ _).steps _
  split
  · exact (cmdModel_still _ _).steps _
  split
  · exact (cmdFs_still _ _ _).steps _
  · exact (systemMsg_still _ _).steps _

theorem submitChat_still (tui : Tui) (text : Bytes) : tui.Still (tui.submitChat text).1 := by
  rw [submitChat]
  split
  next => exact .refl tui
  next idx _ =>
    have chats := Still.chat tui idx fun cb =>
      chatAddPlaceholder (chatAdd cb text true) tui.nextCorr
    exact ⟨chats.ids, rfl, rfl, rfl⟩

theorem submitText_still (tui : Tui) (text : Bytes) : tui.Still (tui.submitText text).1 := by
  rw [submitText]
  split
  · exact .refl tui
  split
  · exact .refl tui
  split
  · exact .refl tui
  split
  · exact .refl tui
  · exact submitChat_still tui text

theorem acceptChoice_steps (tui : Tui) (idx : Int) (saves : List Save) :
    tui.Steps (tui.acceptChoice idx).1 saves := by
  rw [acceptChoice]
  split
  next => exact (Still.refl tui).steps saves
  next pending _ =>
    split
    · exact (Still.refl tui).steps saves
    split
    · exact (Still.refl tui).steps saves
    next there =>
      have inside : tui.sessions.Inside pending.sessionIdx := by
        rw [SessionManager.Inside]
        omega
      let chosen : Tui := { tui with
        pendingChoices := none
        sessions := { tui.sessions with active := pending.sessionIdx } }
      have submits := submitText_still chosen (pending.choices.getD idx.toNat [])
      have active : tui.sessions.Inside
          (chosen.submitText (pending.choices.getD idx.toNat [])).1.sessions.active := by
        rw [submits.active]
        exact inside
      have ids : _ = tui.sessions.ids := submits.ids
      have nextId : _ = tui.sessions.nextId := submits.nextId
      have sidebar : _ = tui.sidebarSel := submits.sidebar
      exact .kept ids nextId (.inr active) (.inl sidebar) saves

theorem submitMessage_steps (tabled : tui.Tabled) (env : KeyEnv) :
    tui.Steps (tui.submitMessage env).1 tui.submitMessageSaves := by
  rw [submitMessage, submitMessageSaves]
  split
  · exact (Still.refl tui).steps _
  split
  · have same : Tui.Tabled { tui with inputLine := [] } :=
      ⟨tabled.some_, tabled.room, tabled.active, tabled.sidebar⟩
    have steps := cmdDispatch_steps same (tui.inputLine.take 255) env
    exact steps
  · simp only
    split
    · exact .kept rfl rfl (.inl rfl) (.inl rfl) _
    split
    · exact .kept rfl rfl (.inl rfl) (.inl rfl) _
    · have chats := submitChat_still
        { tui with pendingChoices := none, inputLine := [] } (tui.inputLine.take 1023)
      exact .kept chats.ids chats.nextId (.inl chats.active) (.inl chats.sidebar) _

theorem sidebarKey_steps (tabled : tui.Tabled) (ch : Nat) :
    tui.Steps (tui.sidebarKey ch) (tui.sidebarKeySaves ch) := by
  obtain ⟨sidebarFrom, sidebarTo⟩ := tabled.sidebar
  rw [sidebarKey, sidebarKeySaves]
  split
  · exact openSession_steps _ _
  split
  · exact .kept rfl rfl (.inl rfl) (.inl rfl) _
  split
  · exact doDeleteSession_steps tabled _
  split
  next up =>
    have inside : tui.sessions.Inside (tui.sidebarSel - 1) := ⟨by omega, by omega⟩
    exact .kept rfl rfl (.inl rfl) (.inr inside) _
  split
  next down =>
    have inside : tui.sessions.Inside (tui.sidebarSel + 1) := ⟨by omega, by omega⟩
    exact .kept rfl rfl (.inl rfl) (.inr inside) _
  split
  · exact .select tui.sessions tui.sidebarSel _ _
  · exact (Still.refl tui).steps _

theorem choiceKey_steps (picked : tui.choiceKey ch = some result) (saves : List Save) :
    tui.Steps result.1 saves := by
  rcases choiceKey_cases picked with ⟨idx, rfl⟩ | ⟨pending, selected, -, rfl⟩
  · exact acceptChoice_steps tui idx saves
  · exact .kept rfl rfl (.inl rfl) (.inl rfl) saves

theorem inputKey_steps (tabled : tui.Tabled) (ch : Nat) (env : KeyEnv) :
    tui.Steps (tui.inputKey ch env).1 (tui.inputKeySaves ch env) := by
  rw [inputKey, inputKeySaves]
  split
  · exact .kept rfl rfl (.inl rfl) (.inl rfl) _
  · cases picked : tui.choiceKey ch with
    | some result => exact choiceKey_steps picked _
    | none =>
        simp only [Option.isSome_none, Bool.false_eq_true, if_false]
        split
        · exact (Still.refl tui).steps _
        split
        · have same : Tui.Tabled { tui with inputLine := env.buffer } :=
            ⟨tabled.some_, tabled.room, tabled.active, tabled.sidebar⟩
          exact submitMessage_steps same env
        · exact .kept rfl rfl (.inl rfl) (.inl rfl) _

theorem mainKey_steps (tabled : tui.Tabled) (ch : Nat) (env : KeyEnv) :
    tui.Steps (tui.mainKey ch env).1 (tui.mainKeySaves ch env) := by
  rw [mainKey, mainKeySaves]
  split
  · exact (Still.refl tui).steps _
  split
  · exact .kept rfl rfl (.inl rfl) (.inl rfl) _
  split
  · exact sidebarKey_steps tabled ch
  · exact inputKey_steps tabled ch env

theorem offerChoices_still (tui : Tui) (sidx : Int) (choices : List Bytes) :
    tui.Still (tui.offerChoices sidx choices) := by
  rw [offerChoices]
  split
  · exact ⟨rfl, rfl, rfl, rfl⟩
  · exact .refl tui

theorem repFinal_still (tui : Tui) (corrId sessionIdx : Nat) (content : Bytes)
    (reasoning : Option Bytes) (choices : List Bytes) :
    tui.Still (tui.repFinal corrId sessionIdx content reasoning choices) := by
  rw [repFinal]
  split
  next => exact ⟨rfl, rfl, rfl, rfl⟩
  next idx _ =>
    have chats := Still.chat tui idx fun cb => chatAddR (chatRemoveLast cb)
      (if content ≠ [] then content else ascii "(no response)") false reasoning
    have offers := offerChoices_still
      ({ tui with inFlight := (inflightRemove tui.inFlight corrId).2 }.putReply idx fun cb =>
        chatAddR cb (if content ≠ [] then content else ascii "(no response)") false reasoning)
      (tui.finalIndex corrId sessionIdx) choices
    exact ⟨offers.ids.trans chats.ids, offers.nextId, offers.active, offers.sidebar⟩

theorem repError_still (tui : Tui) (corrId : Nat) (text beyond : Bytes) :
    tui.Still (tui.repError corrId text beyond) := by
  rw [repError]
  split
  next => exact ⟨rfl, rfl, rfl, rfl⟩
  next idx _ =>
    have chats := Still.chat tui idx fun cb => chatAdd (chatRemoveLast cb)
      (if text ≠ [] then terminated (text ++ beyond) else ascii "backend error") false
    exact ⟨chats.ids, rfl, rfl, rfl⟩

theorem sessionRename_still (tui : Tui) (sessionIdx : Nat) (topic : Bytes) :
    tui.Still (tui.sessionRename sessionIdx topic) := by
  rw [sessionRename]
  split
  · refine ⟨ids_setSession ?_ tui.sessions sessionIdx, rfl, rfl, rfl⟩
    intro session
    split
    · rfl
    · rfl
  · exact .refl tui

theorem checkIpc_still (tui : Tui) (msg : ToTui) (beyond : Bytes) (choices : List Bytes) :
    tui.Still (tui.checkIpc msg beyond choices) := by
  cases msg with
  | repFinal corrId sessionIdx content reasoning => exact repFinal_still tui _ _ _ _ _
  | repError corrId text => exact repError_still tui _ _ _
  | workerStart => exact ⟨rfl, rfl, rfl, rfl⟩
  | workerEnd => exact ⟨rfl, rfl, rfl, rfl⟩
  | workerRep corrId success result =>
      rw [checkIpc, workerRep]
      split
      · exact .refl tui
      · exact systemMsg_still tui _
  | approvalReq => exact ⟨rfl, rfl, rfl, rfl⟩
  | sessionRename corrId sessionIdx topic => exact sessionRename_still tui _ _

end Tui

end FreeCli

import FreeCli.Ui.Commands

namespace FreeCli

open Words Slots

/-! `main.c`: submitting, receiving and the event loop. -/

/-- `"Chat %d"` with the number it is printed for, in the range of `int`. -/
def defaultNumber (name : Bytes) : Option Int :=
  let digits := name.drop 5
  let negative := digits.head? = some 45
  let value := (if negative then digits.tail else digits).foldl
    (fun (value : Nat) digit => 10 * value + (digit.toNat - 48)) 0
  let n : Int := if negative then -value else value
  if -2 ^ 31 ≤ n ∧ n < 2 ^ 31 ∧ name = Tui.chatName n then some n else none

/-- The chat a reply goes to: that of session `sidx` if there is one, else the
active one. -/
def SessionManager.replyIndex (sm : SessionManager) (sidx : Int) : Option Nat :=
  if 0 ≤ sidx ∧ sidx < sm.smCount then some sidx.toNat else sm.activeIndex

namespace Tui

variable (tui : Tui)

/-- The end of `submit_text` and `submit_message`: the text and a placeholder
go into the active chat and the history to the backend. -/
def submitChat (text : Bytes) : Tui × List ToBackend :=
  match tui.sessions.activeIndex with
  | none => (tui, [])
  | some idx =>
      let corr := tui.nextCorr
      let history := chatAdd (tui.sessions.smActiveChat.getD []) text true
      let name := (tui.sessions.smActiveSession.map Session.name).getD (ascii "?")
      ({ tui with
          sessions := tui.sessions.setChat idx fun cb =>
            chatAddPlaceholder (chatAdd cb text true) corr
          nextCorr := corr + 1
          inFlight := inflightAdd tui.inFlight corr tui.sessions.active name },
        [.reqSend corr tui.sessions.active.toNat
          (history.map fun msg => (msg.isUser, msg.text)) tui.selectedModel
          tui.selectedProvider])

def submitText (text : Bytes) : Tui × List ToBackend :=
  if text = [] then (tui, [])
  else if tui.sessions.activeIndex = none then (tui, [])
  else if ¬tui.ipcOpen then (tui, [])
  else if inflightSessionActive tui.inFlight tui.sessions.active then (tui, [])
  else tui.submitChat text

def submitMessage (env : KeyEnv) : Tui × List ToBackend :=
  if tui.sessions.activeIndex = none ∨ tui.inputLine = [] then
    (tui, [])
  else if tui.inputLine.head? = some 47 then
    let cmdBuf := tui.inputLine.take 255
    { tui with inputLine := [] }.cmdDispatch cmdBuf env
  else
    let text := tui.inputLine.take 1023
    let tui := { tui with pendingChoices := none, inputLine := [] }
    if ¬tui.ipcOpen then (tui, [])
    else if inflightSessionActive tui.inFlight tui.sessions.active then (tui, [])
    else tui.submitChat text

def acceptChoice (idx : Int) : Tui × List ToBackend :=
  match tui.pendingChoices with
  | none => (tui, [])
  | some pending =>
      if idx < 0 ∨ idx ≥ pending.choices.length then (tui, [])
      else if pending.sessionIdx < 0 ∨ pending.sessionIdx ≥ tui.sessions.smCount then
        (tui, [])
      else
        let chosen := pending.choices.getD idx.toNat []
        { tui with
          pendingChoices := none
          sessions := { tui.sessions with active := pending.sessionIdx } }.submitText
            chosen

def newSession : Tui :=
  tui.openSession (chatName (tui.sessions.smCount + 1))

/-- `chat_remove_last`, then the reply -/
def putReply (idx : Nat) (reply : ChatBuffer → ChatBuffer) : Tui :=
  { tui with sessions :=
      tui.sessions.setChat idx fun cb => reply (chatRemoveLast cb) }

/-- Options found in a reply are offered, unless others still are. -/
def offerChoices (sidx : Int) (choices : List Bytes) : Tui :=
  if tui.pendingChoices = none ∧ 2 ≤ choices.length then
    { tui with pendingChoices := some ⟨sidx, choices, 0⟩ }
  else
    tui

def repFinal (corrId sessionIdx : Nat) (content : Bytes)
    (reasoning : Option Bytes) (choices : List Bytes) : Tui :=
  let removed := inflightRemove tui.inFlight corrId
  let realSidx := removed.1
  let sidx : Int := if realSidx ≥ 0 then realSidx else sessionIdx
  let tui := { tui with inFlight := removed.2 }
  match tui.sessions.replyIndex sidx with
  | none => tui
  | some idx =>
      let text := if content ≠ [] then content else ascii "(no response)"
      let tui := tui.putReply idx fun cb => chatAddR cb text false reasoning
      tui.offerChoices sidx choices

/-- The text is what a C string function finds at the payload, which has no
terminator; `beyond` follows it in memory. -/
def repError (corrId : Nat) (text beyond : Bytes) : Tui :=
  let removed := inflightRemove tui.inFlight corrId
  let sidx := removed.1
  let tui := { tui with inFlight := removed.2 }
  match tui.sessions.replyIndex sidx with
  | none => tui
  | some idx =>
      let err := if text ≠ [] then terminated (text ++ beyond) else ascii "backend error"
      tui.putReply idx fun cb => chatAdd cb err false

def workerStart (corrId parentCorrId : Nat) (model description : Bytes) : Tui :=
  let parentSidx := inflightFindSidx tui.inFlight parentCorrId
  let sidx := if parentSidx ≥ 0 then parentSidx else tui.sessions.active
  let model := if model ≠ [] then model else ascii "?"
  { tui with inFlight :=
      inflightAddSub tui.inFlight corrId parentCorrId sidx model description }

def workerEnd (corrId : Nat) : Tui :=
  { tui with inFlight := (inflightRemove tui.inFlight corrId).2 }

def workerRep (success : Bool) (result : Bytes) : Tui :=
  if result = [] then tui
  else
    tui.systemMsg (((if success then ascii "[worker] "
      else ascii "[worker error] ") ++ result).take 4095)

def approvalReq (reqCorrId : Nat) (description : Bytes) : Tui :=
  { tui with
    pendingApprovalCorr := reqCorrId
    pendingApprovalDesc :=
      (if description ≠ [] then description else ascii "unknown operation").take 511 }

def sessionRename (sessionIdx : Nat) (topic : Bytes) : Tui :=
  if topic ≠ [] ∧ sessionIdx < tui.sessions.smCount then
    { tui with sessions := tui.sessions.setSession sessionIdx fun session =>
        if (defaultNumber session.name).isSome then
          { session with name := (ascii "#" ++ decimal session.id ++ ascii " " ++
              topic).take 63 }
        else
          session }
  else
    tui

/-- `check_ipc` on a received message.  `beyond` are the bytes behind its payload
and `choices` what `detect_choices` finds in the reply. -/
def checkIpc (msg : ToTui) (beyond : Bytes) (choices : List Bytes) : Tui :=
  match msg with
  | .repFinal corrId sessionIdx content reasoning =>
      tui.repFinal corrId sessionIdx content reasoning choices
  | .repError corrId text => tui.repError corrId text beyond
  | .workerStart corrId parentCorrId model description =>
      tui.workerStart corrId parentCorrId model description
  | .workerEnd corrId => tui.workerEnd corrId
  | .workerRep _ success result => tui.workerRep success result
  | .approvalReq _ reqCorrId description => tui.approvalReq reqCorrId description
  | .sessionRename _ sessionIdx topic => tui.sessionRename sessionIdx topic

/-- `check_ipc` when `ipc_recv` returns -1 -/
def dropConnection : Tui :=
  { tui with ipcOpen := false, inFlight := tui.inFlight.map fun _ => none }

/-! Key codes of ncurses. -/

def keyDown : Nat := 258
def keyUp : Nat := 259
def keyLeft : Nat := 260
def keyRight : Nat := 261
def keyEnter : Nat := 343
def keyNPage : Nat := 338
def keyPPage : Nat := 339
def keyResize : Nat := 410
def tab : Nat := 9
def newline : Nat := 10

def approvalKey (ch : Nat) : Bool :=
  ch = 'y'.toNat ∨ ch = 'Y'.toNat ∨ ch = 'n'.toNat ∨ ch = 'N'.toNat

def answerApproval (ch : Nat) : Tui × List ToBackend :=
  let approved : Bool := ch = 'y'.toNat ∨ ch = 'Y'.toNat
  ({ tui with pendingApprovalCorr := 0, pendingApprovalDesc := [] },
    if tui.ipcOpen then
      [.approvalRep tui.pendingApprovalCorr tui.pendingApprovalCorr approved]
    else
      [])

def sidebarKey (ch : Nat) : Tui :=
  if ch = 'n'.toNat then tui.newSession
  else if ch = 'q'.toNat then { tui with running := false }
  else if ch = 'd'.toNat ∧ tui.sessions.smCount > 0 then
    tui.doDeleteSession tui.sidebarSel
  else if ch = keyUp ∧ tui.sidebarSel > 0 then
    { tui with sidebarSel := tui.sidebarSel - 1 }
  else if ch = keyDown ∧ tui.sidebarSel < (tui.sessions.smCount : Int) - 1 then
    { tui with sidebarSel := tui.sidebarSel + 1 }
  else if ch = newline ∨ ch = keyEnter ∨ ch = keyRight ∨ ch = tab then
    { tui with sessions := tui.sessions.smSelect tui.sidebarSel, focus := 2 }
  else
    tui

/-- The choice picker, where it intercepts the key. -/
def choiceKey (ch : Nat) : Option (Tui × List ToBackend) :=
  match tui.pendingChoices with
  | none => none
  | some pending =>
      if pending.sessionIdx ≠ tui.sessions.active then none
      else if '1'.toNat ≤ ch ∧ ch < '1'.toNat + pending.choices.length then
        some (tui.acceptChoice (ch - '1'.toNat : Nat))
      else if ch = keyUp ∧ pending.selected > 0 then
        let pending := { pending with selected := pending.selected - 1 }
        some ({ tui with pendingChoices := some pending }, [])
      else if ch = keyDown ∧ pending.selected + 1 < pending.choices.length then
        let pending := { pending with selected := pending.selected + 1 }
        some ({ tui with pendingChoices := some pending }, [])
      else if (ch = newline ∨ ch = keyEnter) ∧ tui.inputLine = [] then
        some (tui.acceptChoice pending.selected)
      else
        none

def inputKey (ch : Nat) (env : KeyEnv) : Tui × List ToBackend :=
  if ch = keyLeft ∨ ch = tab then
    ({ tui with pendingChoices := none, focus := 0 }, [])
  else
    match tui.choiceKey ch with
    | some result => result
    | none =>
        if ch = keyPPage ∨ ch = keyNPage then
          (tui, [])
        else
          let tui := { tui with inputLine := env.buffer }
          if env.submitted then tui.submitMessage env else (tui, [])

/-- One key of the event loop. -/
def mainKey (ch : Nat) (env : KeyEnv) : Tui × List ToBackend :=
  if ch = keyResize then
    (tui, [])
  else if tui.pendingApprovalCorr ≠ 0 ∧ approvalKey ch then
    tui.answerApproval ch
  else if tui.focus = 0 then
    (tui.sidebarKey ch, [])
  else
    tui.inputKey ch env

def fresh : Tui where
  sessions :=
    (SessionManager.smNewSession ⟨[], -1, 1⟩ (chatName 1)).2.smSelect 0
  inFlight := noneInFlight
  pendingChoices := none
  focus := 2
  sidebarSel := 0
  ipcOpen := true
  nextCorr := 1
  selectedModel := ascii "grok-3-fast"
  selectedProvider := ascii "xai"
  pendingApprovalCorr := 0
  pendingApprovalDesc := []
  inputLine := []
  running := true

end Tui

end FreeCli

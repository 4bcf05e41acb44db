import FreeCli.Ui.Main
import FreeCli.Ui.Persist

namespace FreeCli

open Words

/-! Where the TUI saves: the calls into `persist.c` that each function makes,
beside what the function does to the state.  Every call sees the sessions as the
function leaves them. -/

inductive Save where
  | all
  | session (idx : Int)
  | delete (sessionId : Int)
  deriving DecidableEq, Repr

def Save.run (cjson : CJson) (dir : Bytes) (sm : SessionManager) (files : Files) :
    Save → Files
  | .all => persistSaveAll cjson dir sm files
  | .session idx => persistSaveSession cjson dir sm idx files
  | .delete sessionId => persistDeleteSession dir sessionId files

def saveFiles (cjson : CJson) (dir : Bytes) (sm : SessionManager) (saves : List Save)
    (files : Files) : Files :=
  saves.foldl (Save.run cjson dir sm) files

namespace Tui

variable (tui : Tui)

def doDeleteSessionSaves (idx : Int) : List Save :=
  match tui.sessions.smGet idx with
  | none => []
  | some session => [.delete session.id, .all]

def openSessionSaves (name : Bytes) : List Save :=
  if (tui.sessions.smNewSession name).1 ≥ 0 then [.all] else []

def newSessionSaves : List Save :=
  tui.openSessionSaves (chatName (tui.sessions.smCount + 1))

def cmdNewSaves (input : Bytes) : List Save :=
  let given := input.drop 5
  tui.openSessionSaves
    (if given ≠ [] then given else chatName (tui.sessions.smCount + 1))

def cmdClearSaves : List Save :=
  match tui.sessions.smActiveSession with
  | some session => if session.id ≥ 0 then [.session tui.sessions.active] else []
  | none => []

def cmdRenameSaves : List Save :=
  if tui.sessions.smActiveSession.isSome then [.all] else []

def cmdDispatchSaves (input : Bytes) : List Save :=
  if isCommand (ascii "/help") input then []
  else if isCommand (ascii "/delete") input then
    tui.doDeleteSessionSaves tui.sessions.active
  else if isCommand (ascii "/clear") input then tui.cmdClearSaves
  else if isCommand (ascii "/new") input then tui.cmdNewSaves input
  else if (ascii "/rename ").isPrefixOf input ∧ input.drop 8 ≠ [] then
    tui.cmdRenameSaves
  else []

def submitMessageSaves : List Save :=
  if tui.sessions.activeIndex = none ∨ tui.inputLine = [] then []
  else if tui.inputLine.head? = some 47 then
    tui.cmdDispatchSaves (tui.inputLine.take 255)
  else []

def sidebarKeySaves (ch : Nat) : List Save :=
  if ch = 'n'.toNat then tui.newSessionSaves
  else if ch = 'q'.toNat then []
  else if ch = 'd'.toNat ∧ tui.sessions.smCount > 0 then
    tui.doDeleteSessionSaves tui.sidebarSel
  else []

def inputKeySaves (ch : Nat) (env : KeyEnv) : List Save :=
  if ch = keyLeft ∨ ch = tab then []
  else if (tui.choiceKey ch).isSome then []
  else if ch = keyPPage ∨ ch = keyNPage then []
  else if env.submitted then
    { tui with inputLine := env.buffer }.submitMessageSaves
  else []

def mainKeySaves (ch : Nat) (env : KeyEnv) : List Save :=
  if ch = keyResize then []
  else if tui.pendingApprovalCorr ≠ 0 ∧ approvalKey ch then []
  else if tui.focus = 0 then tui.sidebarKeySaves ch
  else tui.inputKeySaves ch env

/-- Nothing is saved by the index of a session that is not there. -/
def repFinalSaves (corrId sessionIdx : Nat) : List Save :=
  let realSidx := (inflightRemove tui.inFlight corrId).1
  let sidx : Int := if realSidx ≥ 0 then realSidx else sessionIdx
  match tui.sessions.replyIndex sidx with
  | none => []
  | some _ => [.session sidx]

def sessionRenameSaves (sessionIdx : Nat) (topic : Bytes) : List Save :=
  if topic ≠ [] ∧ sessionIdx < tui.sessions.smCount then
    match tui.sessions.sessions[sessionIdx]? with
    | some session => if (defaultNumber session.name).isSome then [.all] else []
    | none => []
  else []

def checkIpcSaves : ToTui → List Save
  | .repFinal corrId sessionIdx _ _ => tui.repFinalSaves corrId sessionIdx
  | .sessionRename _ sessionIdx topic => tui.sessionRenameSaves sessionIdx topic
  | _ => []

end Tui

/-- The start-up of `main` on the files that are there.  A session it makes
itself is not saved. -/
def startUp (cjson : CJson) (dir : Bytes) (files : Files) : Tui :=
  let loaded := persistLoad cjson dir files smInit
  let sessions :=
    if loaded.1 = 0 then (loaded.2.smNewSession (Tui.chatName 1)).2 else loaded.2
  { Tui.fresh with sessions := sessions.smSelect 0 }

end FreeCli

import FreeCli.Core.Messages
import FreeCli.Ui.InFlight
import FreeCli.Ui.Session

namespace FreeCli

open Words Slots

/-! The state of the TUI in `main.c` and the callbacks it hands to the slash
commands.  Drawing, files and time are left out. -/

structure PendingChoices where
  sessionIdx : Int
  choices : List Bytes
  selected : Nat
  deriving DecidableEq, Repr

structure Tui where
  sessions : SessionManager
  inFlight : InFlightTable
  pendingChoices : Option PendingChoices
  focus : Nat
  sidebarSel : Int
  /-- `ipc_fd != NET_INVALID` -/
  ipcOpen : Bool
  nextCorr : Nat
  selectedModel : Bytes
  selectedProvider : Bytes
  /-- 0 when no approval is asked for -/
  pendingApprovalCorr : Nat
  pendingApprovalDesc : Bytes
  /-- `input_line.buffer` -/
  inputLine : Bytes
  running : Bool
  deriving DecidableEq, Repr

/-- What a key press meets outside the modelled code: the line editor, the
overlay menu and the JSON printer. -/
structure KeyEnv where
  /-- the edited line, and whether Enter submitted it -/
  buffer : Bytes
  submitted : Bool
  /-- the menu entry picked, or -1 -/
  picked : Int
  argsJson : Bytes
  deriving DecidableEq, Repr

def decimal (n : Int) : Bytes := ascii (toString n)

namespace Tui

variable (tui : Tui)

/-- `"Chat %d"` -/
def chatName (n : Int) : Bytes := ascii "Chat " ++ decimal n

def doDeleteSession (idx : Int) : Tui :=
  if idx < 0 ∨ idx ≥ tui.sessions.smCount then
    tui
  else
    let removed := tui.sessions.smRemove idx
    let newActive := removed.1
    let sessions :=
      if removed.2.smCount = 0 then (removed.2.smNewSession (chatName 1)).2
      else removed.2
    let sidebarSel :=
      if tui.sidebarSel ≥ sessions.smCount then (sessions.smCount : Int) - 1
      else tui.sidebarSel
    { tui with
      sidebarSel
      sessions := sessions.smSelect (if newActive ≥ 0 then newActive else sidebarSel) }

/-- The end of `/new` and `new_session`: the new session is selected. -/
def openSession (name : Bytes) : Tui :=
  let opened := tui.sessions.smNewSession name
  let idx := opened.1
  if idx ≥ 0 then
    { tui with sessions := opened.2.smSelect idx, sidebarSel := idx, focus := 2 }
  else
    tui

def doSetModel (model : Bytes) : Tui :=
  if model ≠ [] then { tui with selectedModel := model.take 63 } else tui

def doSetProvider (providerId : Bytes) : Tui :=
  if providerId ≠ [] then { tui with selectedProvider := providerId.take 31 } else tui

/-- The id given to the request, 0 without a connection. -/
def doSendWorkerReq (workerType : Nat) (op argsJson : Bytes) :
    Nat × Tui × List ToBackend :=
  if tui.ipcOpen then
    let corr := tui.nextCorr
    (corr,
      { tui with
        nextCorr := corr + 1
        inFlight := inflightAdd tui.inFlight corr tui.sessions.active op },
      [.workerReq corr workerType op argsJson])
  else
    (0, tui, [])

def systemMsg (text : Bytes) : Tui :=
  match tui.sessions.activeIndex with
  | some idx =>
      { tui with sessions := tui.sessions.setChat idx fun cb => chatAdd cb text false }
  | none => tui

end Tui

end FreeCli

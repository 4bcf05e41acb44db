import FreeCli.Backend.Request
import FreeCli.Library.Transition
import FreeCli.Ui.Main
import FreeCli.Workers.FsWorker

namespace FreeCli

open Words FileTree Slots Transition

/-! TUI, backend, the two channels between them and the file tree as one
transition system.  Messages arrive whole and in order. -/

structure System where
  tui : Tui
  toBackend : List ToBackend
  bus : Bus
  workers : List WorkerThread
  chats : List ChatThread
  subCorrNext : Nat
  /-- the filesystem worker is in the registry -/
  fsRegistered : Bool

inductive Label where
  /-- `getch` returns a key -/
  | key (ch : Nat) (env : KeyEnv)
  /-- `check_ipc` takes the next message, if there is one -/
  | poll (beyond : Bytes) (choices : List Bytes)
  /-- `ipc_recv` fails in `check_ipc` -/
  | lost
  /-- the message loop of the backend takes the next message -/
  | recv
  | worker (i : Nat) (env : WorkerEnv)
  | chat (i : Nat) (env : ChatEnv)
  deriving DecidableEq, Repr

namespace System

variable (sys : System)

def key (ch : Nat) (env : KeyEnv) : Option System :=
  if sys.tui.running then
    let pressed := sys.tui.mainKey ch env
    some { sys with tui := pressed.1, toBackend := sys.toBackend ++ pressed.2 }
  else
    none

def poll (beyond : Bytes) (choices : List Bytes) : Option System :=
  if sys.tui.running ∧ sys.tui.ipcOpen then
    match sys.bus.toTui with
    | [] => some sys
    | msg :: rest =>
        some { sys with
          tui := sys.tui.checkIpc msg beyond choices
          bus := { sys.bus with toTui := rest } }
  else
    none

def lost : Option System :=
  if sys.tui.running ∧ sys.tui.ipcOpen then
    some { sys with tui := sys.tui.dropConnection }
  else
    none

/-- `bw_dispatch_msg`.  A request nobody can serve gets its two error messages
from a thread too. -/
def dispatch (corrId workerType : Nat) (op argsJson : Bytes) : WorkerThread :=
  { corrId, op, argsJson, abs := []
    phase :=
      if workerType = backendTypeFilesystem ∧ sys.fsRegistered then .start
      else .reply false (ascii "no worker registered for type") }

def handle : ToBackend → System
  | .reqSend corrId sessionIdx msgs model provider =>
      { sys with chats := sys.chats ++ [{
          corrId, sessionIdx, msgs, model, providerId := provider, phase := .start }] }
  | .workerReq corrId workerType op argsJson =>
      { sys with workers := sys.workers ++ [sys.dispatch corrId workerType op argsJson] }
  | .approvalRep _ reqCorrId approved =>
      { sys with bus := { sys.bus with
          approvals := bwNotifyApproval reqCorrId approved sys.bus.approvals } }

def recv : Option System :=
  match sys.toBackend with
  | [] => none
  | msg :: rest => some ({ sys with toBackend := rest }.handle msg)

def worker (priv : FsPriv) (i : Nat) (env : WorkerEnv) : Option System :=
  sys.workers[i]?.bind fun thread =>
    (thread.step priv env sys.bus).map fun next =>
      { sys with bus := next.2, workers := sys.workers.set i next.1 }

def chat (i : Nat) (env : ChatEnv) : Option System :=
  sys.chats[i]?.bind fun thread =>
    (thread.step env sys.subCorrNext).map fun next =>
      { sys with
        subCorrNext := next.2.1
        chats := sys.chats.set i next.1
        bus := { sys.bus with toTui := sys.bus.toTui ++ next.2.2 } }

def step (priv : FsPriv) (sys : System) : Label → Option System
  | .key ch env => sys.key ch env
  | .poll beyond choices => sys.poll beyond choices
  | .lost => sys.lost
  | .recv => sys.recv
  | .worker i env => sys.worker priv i env
  | .chat i env => sys.chat i env

def firstSubCorr : Nat := 0x8000000000000000

/-- After the start-up of both programs: sessions are loaded or one is new, and
the sandbox root is canonical. -/
structure Start (priv : FsPriv) (sys : System) : Prop where
  sessions : sys.tui.sessions.sessions ≠ []
  sessionCount : sys.tui.sessions.smCount ≤ maxSessions
  active : sys.tui.sessions.active = 0
  noPlaceholder : ∀ session ∈ sys.tui.sessions.sessions,
    ∀ msg ∈ session.chat, msg.placeholder = none
  sidebar : sys.tui.sidebarSel = 0
  focus : sys.tui.focus = 2
  inFlight : sys.tui.inFlight = noneInFlight
  noChoices : sys.tui.pendingChoices = none
  ipcOpen : sys.tui.ipcOpen = true
  nextCorr : sys.tui.nextCorr = 1
  noApproval : sys.tui.pendingApprovalCorr = 0
  toBackend : sys.toBackend = []
  toTui : sys.bus.toTui = []
  approvals : sys.bus.approvals = noApprovals
  workers : sys.workers = []
  chats : sys.chats = []
  subCorrNext : sys.subCorrNext = firstSubCorr
  canonical : Plain sys.bus.tree priv.rootLoc

def fresh (tree : Tree) : System where
  tui := .fresh
  toBackend := []
  bus := { approvals := noApprovals, toTui := [], tree }
  workers := []
  chats := []
  subCorrNext := firstSubCorr
  fsRegistered := true

theorem fresh_start {priv : FsPriv} {tree : Tree}
    (canonical : Plain tree priv.rootLoc) : Start priv (fresh tree) where
  sessions := (by decide : Tui.fresh.sessions.sessions ≠ [])
  sessionCount := (by decide : Tui.fresh.sessions.smCount ≤ maxSessions)
  active := (by decide : Tui.fresh.sessions.active = 0)
  noPlaceholder := (by decide : ∀ session ∈ Tui.fresh.sessions.sessions,
    ∀ msg ∈ session.chat, msg.placeholder = none)
  sidebar := rfl
  focus := rfl
  inFlight := rfl
  noChoices := rfl
  ipcOpen := rfl
  nextCorr := rfl
  noApproval := rfl
  toBackend := rfl
  toTui := rfl
  approvals := rfl
  workers := rfl
  chats := rfl
  subCorrNext := rfl
  canonical := canonical

/-! Labels for runs with values. -/

def line (text : String) : Label :=
  .key Tui.newline
    { buffer := ascii text, submitted := true, picked := -1, argsJson := [] }

def press (ch : Nat) : Label :=
  .key ch { buffer := [], submitted := false, picked := -1, argsJson := [] }

def workAs (i : Nat) (path content : String) : Label :=
  .worker i { path := some (ascii path), content := ascii content, fails := false
              timeout := false, text := [] }

def work (path content : String) : Label := workAs 0 path content

def provides (text : String) : ChatEnv where
  providerOk := true
  reply := some { content := some (ascii text), reasoning := none, toolCalls := [] }
  encodeFails := false

def asksAi : ChatEnv where
  providerOk := true
  reply := some {
    content := none
    reasoning := none
    toolCalls := [{ name := some (ascii "ask_ai"), askAiArgs := some ([], []) }] }
  encodeFails := false

/-- The backend takes the request of its thread `k`, and answers it. -/
def answered (k : Nat) : List Label := .recv :: List.replicate 3 (.chat k (provides "ok"))

end System

end FreeCli

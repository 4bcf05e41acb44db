import FreeCli.System.Step
import FreeCli.Ui.KeyOutcome
import FreeCli.Workers.WorkerMove

namespace FreeCli

open Words FileTree Slots Transition

namespace System

/-! What one step of the system can do, said once. -/

inductive Move (priv : FsPriv) (sys : System) : Label → System → Prop
  | key (ch : Nat) (env : KeyEnv) : Move priv sys (.key ch env) { sys with
      tui := (sys.tui.mainKey ch env).1
      toBackend := sys.toBackend ++ (sys.tui.mainKey ch env).2 }
  | idle (beyond : Bytes) (choices : List Bytes) (empty : sys.bus.toTui = []) :
      Move priv sys (.poll beyond choices) sys
  | poll (beyond : Bytes) (choices : List Bytes) (msg : ToTui) (rest : List ToTui)
      (waiting : sys.bus.toTui = msg :: rest) (open_ : sys.tui.ipcOpen = true) :
      Move priv sys (.poll beyond choices) { sys with
        tui := sys.tui.checkIpc msg beyond choices
        bus := { sys.bus with toTui := rest } }
  | lost : Move priv sys .lost { sys with tui := sys.tui.dropConnection }
  | recv (msg : ToBackend) (rest : List ToBackend)
      (waiting : sys.toBackend = msg :: rest) :
      Move priv sys .recv ({ sys with toBackend := rest }.handle msg)
  | worker (i : Nat) (env : WorkerEnv) (thread next : WorkerThread) (bus : Bus)
      (here : sys.workers[i]? = some thread)
      (moved : thread.Move priv env sys.bus next bus) :
      Move priv sys (.worker i env) { sys with
        bus, workers := sys.workers.set i next }
  | chat (i : Nat) (env : ChatEnv) (thread next : ChatThread) (subCorrNext : Nat)
      (sent : List ToTui) (here : sys.chats[i]? = some thread)
      (moved : thread.Move sys.subCorrNext next subCorrNext sent) :
      Move priv sys (.chat i env) { sys with
        subCorrNext
        chats := sys.chats.set i next
        bus := { sys.bus with toTui := sys.bus.toTui ++ sent } }

variable {priv : FsPriv} {sys dst : System} {label : Label}

theorem step_move (stepped : System.step priv sys label = some dst) :
    sys.Move priv label dst := by
  cases label with
  | key ch env =>
      rw [step, System.key] at stepped
      split at stepped
      · obtain rfl := Option.some.inj stepped
        exact .key ch env
      · contradiction
  | poll beyond choices =>
      rw [step, System.poll] at stepped
      split at stepped
      next able =>
        split at stepped
        next empty =>
          obtain rfl := Option.some.inj stepped
          exact .idle beyond choices empty
        next msg rest waiting =>
          obtain rfl := Option.some.inj stepped
          exact .poll beyond choices msg rest waiting able.2
      next => contradiction
  | lost =>
      rw [step, System.lost] at stepped
      split at stepped
      · obtain rfl := Option.some.inj stepped
        exact .lost
      · contradiction
  | recv =>
      rw [step, System.recv] at stepped
      split at stepped
      · contradiction
      next msg rest waiting =>
        obtain rfl := Option.some.inj stepped
        exact .recv msg rest waiting
  | worker i env =>
      rw [step, System.worker] at stepped
      obtain ⟨thread, here, stepped⟩ := Option.bind_eq_some_iff.1 stepped
      obtain ⟨next, moved, rfl⟩ := Option.map_eq_some_iff.1 stepped
      exact .worker i env thread next.1 next.2 here (WorkerThread.step_move moved)
  | chat i env =>
      rw [step, System.chat] at stepped
      obtain ⟨thread, here, stepped⟩ := Option.bind_eq_some_iff.1 stepped
      obtain ⟨next, moved, rfl⟩ := Option.map_eq_some_iff.1 stepped
      exact .chat i env thread next.1 next.2.1 next.2.2 here
        (ChatThread.step_move moved)

end System

end FreeCli

import FreeCli.Workers.FsWorker

namespace FreeCli

open Words FileTree Slots

/-! What one step of a worker thread can do, said once. -/

def WorkerPhase.Early (phase : WorkerPhase) : Prop :=
  phase = .start ∨ phase = .look ∨ phase = .stat ∨ phase = .claim ∨
    phase = .change

def WorkerPhase.Running (phase : WorkerPhase) : Prop :=
  phase ≠ .finish ∧ phase ≠ .done ∧
    ∀ success result, phase ≠ .reply success result

namespace WorkerThread

/-- The moves of a thread on the bus; `op` is what its operation dispatches
to. -/
inductive Move (priv : FsPriv) (thread : WorkerThread) (env : WorkerEnv)
    (bus : Bus) : WorkerThread → Bus → Prop
  /-- An error or a result is ready, and nothing else happened. -/
  | ends (success : Bool) (result : Bytes)
      (early : thread.phase.Early ∨ fsDispatch thread.op = none)
      (running : thread.phase.Running) :
      Move priv thread env bus (thread.goto (.reply success result)) bus
  | resolved (op : FsOp) (path abs : Bytes) (known : fsDispatch thread.op = some op)
      (at_ : thread.phase = .start)
      (found : fsResolve priv bus.tree path (op = .createFile) = some abs) :
      Move priv thread env bus { thread with abs, phase := afterResolve op } bus
  | progressed (description : Bytes) (at_ : thread.phase = .progress) :
      Move priv thread env bus (thread.goto .look) (bus.send
        (.workerStart thread.corrId 0 (ascii "filesystem") description))
  | missing (op : FsOp) (known : fsDispatch thread.op = some op)
      (at_ : thread.phase = .stat) (free : statOk bus.tree thread.abs = false) :
      Move priv thread env bus (thread.goto .claim) bus
  | claimed (slot : Nat) (at_ : thread.phase = .claim)
      (free : firstFree bus.approvals = some slot) :
      Move priv thread env bus (thread.goto (.ask slot)) { bus with
        approvals := bus.approvals.set slot (some ⟨thread.corrId, 0⟩) }
  | asked (op : FsOp) (slot : Nat) (known : fsDispatch thread.op = some op)
      (at_ : thread.phase = .ask slot) :
      Move priv thread env bus (thread.goto (.wait slot)) (bus.send
        (.approvalReq thread.corrId thread.corrId
          (approvalDesc priv op thread.abs)))
  | waits (slot : Nat) (at_ : thread.phase = .wait slot) :
      Move priv thread env bus (thread.goto (.blocked slot)) bus
  | decided (slot : Nat) (pending : PendingApproval)
      (at_ : thread.phase = .wait slot)
      (held : bus.approvals[slot]? = some (some pending)) :
      Move priv thread env bus
        (thread.goto (.release slot (pending.decided = 1))) bus
  | timedOut (slot : Nat) (pending : PendingApproval)
      (at_ : thread.phase = .blocked slot) (late : env.timeout = true)
      (held : bus.approvals[slot]? = some (some pending)) :
      Move priv thread env bus (thread.goto (.release slot false)) { bus with
        approvals := bus.approvals.set slot (some { pending with decided := -1 }) }
  | woken (slot : Nat) (at_ : thread.phase = .blocked slot)
      (early : env.timeout = false) :
      Move priv thread env bus (thread.goto (.wait slot)) bus
  | denied (slot : Nat) (result : Bytes) (at_ : thread.phase = .release slot false) :
      Move priv thread env bus (thread.goto (.reply false result)) { bus with
        approvals := bus.approvals.set slot none }
  | granted (slot : Nat) (at_ : thread.phase = .release slot true) :
      Move priv thread env bus (thread.goto .change) { bus with
        approvals := bus.approvals.set slot none }
  | removed (loc : Loc) (tree : Tree) (at_ : thread.phase = .change)
      (known : fsDispatch thread.op = some .deleteFile) (works : env.fails = false)
      (worked : bus.tree.remove thread.abs = some (loc, tree)) :
      Move priv thread env bus (thread.goto (.reply true env.text))
        { bus with tree }
  | opened (op : FsOp) (loc : Loc) (inode : Nat) (tree : Tree)
      (at_ : thread.phase = .change) (known : fsDispatch thread.op = some op)
      (writes : op ≠ .deleteFile) (works : env.fails = false)
      (worked : bus.tree.fopenWb thread.abs = some (loc, inode, tree)) :
      Move priv thread env bus (thread.goto (.write loc inode)) { bus with tree }
  | written (loc : Loc) (inode : Nat) (success : Bool) (result : Bytes)
      (at_ : thread.phase = .write loc inode) :
      Move priv thread env bus (thread.goto (.reply success result))
        { bus with tree := bus.tree.fwrite loc inode env.content }
  | replied (success : Bool) (result : Bytes)
      (at_ : thread.phase = .reply success result) :
      Move priv thread env bus (thread.goto .finish)
        (bus.send (.workerRep thread.corrId success result))
  | finished (at_ : thread.phase = .finish) :
      Move priv thread env bus (thread.goto .done)
        (bus.send (.workerEnd thread.corrId))

variable {priv : FsPriv} {thread : WorkerThread} {env : WorkerEnv} {bus : Bus}

theorem failed_move (text : Bytes)
    (early : thread.phase.Early ∨ fsDispatch thread.op = none)
    (running : thread.phase.Running) :
    Move priv thread env bus (thread.fail text) bus :=
  .ends false text early running

theorem resolve_move (op : FsOp) (known : fsDispatch thread.op = some op)
    (at_ : thread.phase = .start) :
    Move priv thread env bus (thread.resolve priv op env bus.tree) bus := by
  have early : thread.phase.Early := .inl at_
  have running : thread.phase.Running := by simp [WorkerPhase.Running, at_]
  rw [resolve]
  split
  next => exact failed_move _ (.inl early) running
  next path _ =>
    split
    next => exact failed_move _ (.inl early) running
    next abs found => exact .resolved op path abs known at_ found

theorem look_move (op : FsOp) (at_ : thread.phase = .look) :
    Move priv thread env bus (thread.look op env bus.tree) bus := by
  have early : thread.phase.Early := .inr (.inl at_)
  have running : thread.phase.Running := by simp [WorkerPhase.Running, at_]
  rw [look.eq_def]
  split
  · split
    · exact .ends true env.text (.inl early) running
    · exact failed_move _ (.inl early) running
  · split
    · exact .ends true env.text (.inl early) running
    split
    · exact failed_move _ (.inl early) running
    · exact failed_move _ (.inl early) running

theorem claim_move (op : FsOp) (at_ : thread.phase = .claim) :
    Move priv thread env bus (thread.claim op bus).1 (thread.claim op bus).2 := by
  have early : thread.phase.Early := .inr (.inr (.inr (.inl at_)))
  have running : thread.phase.Running := by simp [WorkerPhase.Running, at_]
  rw [claim]
  split
  next => exact failed_move _ (.inl early) running
  next slot free => exact .claimed slot at_ free

theorem wait_move (at_ : thread.phase = .wait slot)
    (stepped : thread.wait slot bus = some next) :
    Move priv thread env bus next.1 next.2 := by
  rw [wait] at stepped
  split at stepped
  next pending held =>
    split at stepped
    · obtain rfl := Option.some.inj stepped
      exact .waits slot at_
    · obtain rfl := Option.some.inj stepped
      exact .decided slot pending at_ held
  next => contradiction

theorem wake_move (at_ : thread.phase = .blocked slot)
    (stepped : thread.wake slot env bus = some next) :
    Move priv thread env bus next.1 next.2 := by
  rw [wake] at stepped
  split at stepped
  next pending held =>
    split at stepped
    next late =>
      obtain rfl := Option.some.inj stepped
      exact .timedOut slot pending at_ late held
    next early =>
      obtain rfl := Option.some.inj stepped
      exact .woken slot at_ (by simpa using early)
  next => contradiction

theorem release_move (op : FsOp) (at_ : thread.phase = .release slot approved) :
    Move priv thread env bus (thread.release op slot approved bus).1
      (thread.release op slot approved bus).2 := by
  rw [release]
  cases approved with
  | true => exact .granted slot at_
  | false => exact .denied slot _ at_

theorem change_move (op : FsOp) (known : fsDispatch thread.op = some op)
    (at_ : thread.phase = .change) :
    Move priv thread env bus (thread.change op env bus).1
      (thread.change op env bus).2 := by
  have early : thread.phase.Early := .inr (.inr (.inr (.inr at_)))
  have running : thread.phase.Running := by simp [WorkerPhase.Running, at_]
  rw [change.eq_def]
  split
  next =>
    split
    next loc tree worked =>
      split at worked
      · contradiction
      next works =>
        exact .removed loc tree at_ known (by simpa using works) worked
    next => exact failed_move _ (.inl early) running
  next writes =>
    split
    next loc inode tree worked =>
      split at worked
      · contradiction
      next works =>
        exact .opened op loc inode tree at_ known writes (by simpa using works) worked
    next => exact failed_move _ (.inl early) running

theorem write_move (op : FsOp) (at_ : thread.phase = .write loc inode) :
    Move priv thread env bus (thread.write op loc inode env bus).1
      (thread.write op loc inode env bus).2 := by
  rw [write]
  split
  · exact .written loc inode false _ at_
  · exact .written loc inode true _ at_

theorem stepOp_move (op : FsOp) (known : fsDispatch thread.op = some op)
    (stepped : thread.stepOp priv op env bus = some next) :
    Move priv thread env bus next.1 next.2 := by
  rw [stepOp] at stepped
  split at stepped
  next at_ =>
    obtain rfl := Option.some.inj stepped
    exact resolve_move op known at_
  next at_ =>
    obtain rfl := Option.some.inj stepped
    exact .progressed _ at_
  next at_ =>
    obtain rfl := Option.some.inj stepped
    exact look_move op at_
  next at_ =>
    obtain rfl := Option.some.inj stepped
    simp only
    split
    · exact failed_move _ (.inl (.inr (.inr (.inl at_))))
        (by simp [WorkerPhase.Running, at_])
    next free => exact .missing op known at_ (by simpa using free)
  next at_ =>
    obtain rfl := Option.some.inj stepped
    exact claim_move op at_
  next slot at_ =>
    obtain rfl := Option.some.inj stepped
    exact .asked op slot known at_
  next slot at_ => exact wait_move at_ stepped
  next slot at_ => exact wake_move at_ stepped
  next slot approved at_ =>
    obtain rfl := Option.some.inj stepped
    exact release_move op at_
  next at_ =>
    obtain rfl := Option.some.inj stepped
    exact change_move op known at_
  next loc inode at_ =>
    obtain rfl := Option.some.inj stepped
    exact write_move op at_
  next => contradiction

theorem step_move (stepped : thread.step priv env bus = some next) :
    Move priv thread env bus next.1 next.2 := by
  rw [step.eq_def] at stepped
  split at stepped
  next success result at_ =>
    obtain rfl := Option.some.inj stepped
    exact .replied success result at_
  next at_ =>
    obtain rfl := Option.some.inj stepped
    exact .finished at_
  next => contradiction
  next unreplied unfinished undone =>
    split at stepped
    next op known => exact stepOp_move op known stepped
    next unknown =>
      obtain rfl := Option.some.inj stepped
      exact failed_move _ (.inr unknown) ⟨unfinished, undone, unreplied⟩

/-- A thread keeps its request, and its path from the moment it has one. -/
theorem Move.keeps (moved : thread.Move priv env bus next after) :
    next.corrId = thread.corrId ∧ next.op = thread.op ∧
      (thread.phase ≠ .start → next.phase ≠ .start ∧ next.abs = thread.abs) := by
  cases moved with
  | resolved op path abs known at_ found =>
      exact ⟨rfl, rfl, fun started => absurd at_ started⟩
  | _ => exact ⟨rfl, rfl, fun _ => ⟨by simp [goto], rfl⟩⟩

inductive Sends (thread : WorkerThread) : ToTui → Prop
  | progress (description : Bytes) (at_ : thread.phase = .progress) :
      Sends thread (.workerStart thread.corrId 0 (ascii "filesystem") description)
  | approval (slot : Nat) (description : Bytes) (at_ : thread.phase = .ask slot) :
      Sends thread (.approvalReq thread.corrId thread.corrId description)
  | result (success : Bool) (result : Bytes)
      (at_ : thread.phase = .reply success result) :
      Sends thread (.workerRep thread.corrId success result)
  | ended (at_ : thread.phase = .finish) : Sends thread (.workerEnd thread.corrId)

theorem Move.sends (moved : thread.Move priv env bus next after) :
    after.toTui = bus.toTui ∨
      ∃ msg, after.toTui = bus.toTui ++ [msg] ∧ thread.Sends msg := by
  cases moved with
  | progressed description at_ => exact .inr ⟨_, rfl, .progress description at_⟩
  | asked op slot known at_ => exact .inr ⟨_, rfl, .approval slot _ at_⟩
  | replied success result at_ => exact .inr ⟨_, rfl, .result success result at_⟩
  | finished at_ => exact .inr ⟨_, rfl, .ended at_⟩
  | _ => exact .inl rfl

end WorkerThread

end FreeCli

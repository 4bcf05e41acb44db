import FreeCli.Core.BackendWorker
import FreeCli.Workers.FsResolve

namespace FreeCli

open Words FileTree Slots

/-! The operations of `fs_worker.c`, run on a thread of their own step by step.
What cJSON reads and prints, what a system call does beyond the path walk and
what is left of a string after `cJSON_Delete` come from outside. -/

inductive FsOp where
  | readFile
  | listDir
  | createFile
  | modifyFile
  | deleteFile
  deriving DecidableEq, Repr

def FsOp.name : FsOp → Bytes
  | .readFile => ascii "read_file"
  | .listDir => ascii "list_dir"
  | .createFile => ascii "create_file"
  | .modifyFile => ascii "modify_file"
  | .deleteFile => ascii "delete_file"

def fsDispatch (op : Bytes) : Option FsOp :=
  if op = FsOp.readFile.name then some .readFile
  else if op = FsOp.listDir.name then some .listDir
  else if op = FsOp.createFile.name then some .createFile
  else if op = FsOp.modifyFile.name then some .modifyFile
  else if op = FsOp.deleteFile.name then some .deleteFile
  else none

def FsOp.mutates : FsOp → Bool
  | .readFile | .listDir => false
  | .createFile | .modifyFile | .deleteFile => true

inductive WorkerPhase where
  | start
  | progress
  | look
  | stat
  | claim
  | ask (slot : Nat)
  /-- at the test of the wait loop -/
  | wait (slot : Nat)
  /-- in `pthread_cond_timedwait` -/
  | blocked (slot : Nat)
  | release (slot : Nat) (approved : Bool)
  /-- about to `fopen` or `remove` -/
  | change
  | write (loc : Loc) (inode : Nat)
  | reply (success : Bool) (result : Bytes)
  | finish
  | done
  deriving DecidableEq, Repr

structure WorkerThread where
  corrId : Nat
  op : Bytes
  argsJson : Bytes
  /-- the path `fs_resolve` returned -/
  abs : Bytes
  phase : WorkerPhase
  deriving DecidableEq, Repr

/-- What a step of a worker meets outside the modelled code. -/
structure WorkerEnv where
  /-- the `"path"` string of the arguments -/
  path : Option Bytes
  /-- the bytes that reach the file -/
  content : Bytes
  fails : Bool
  /-- the deadline of the wait has passed -/
  timeout : Bool
  /-- the printed JSON result, or the choice of an error text -/
  text : Bytes
  deriving DecidableEq, Repr

/-- Only `list_dir` has a default, the root. -/
def WorkerEnv.pathOf (env : WorkerEnv) : FsOp → Option Bytes
  | .listDir => some (env.path.getD [])
  | _ => env.path

/-- What the threads of the backend share. -/
structure Bus where
  approvals : ApprovalTable
  toTui : List ToTui
  tree : Tree

def Bus.send (bus : Bus) (msg : ToTui) : Bus :=
  { bus with toTui := bus.toTui ++ [msg] }

def approvalDesc (priv : FsPriv) (op : FsOp) (abs : Bytes) : Bytes :=
  let verb :=
    match op with
    | .createFile => ascii "Create file: "
    | .deleteFile => ascii "Delete file: "
    | _ => ascii "Modify file: "
  (verb ++ fsRel priv abs).take (fsPathMax + 63)

def fsMaxRead : Nat := 512 * 1024

def readFileContents (tree : Tree) (path : Bytes) : Option Bytes :=
  match walk tree true path with
  | .found loc =>
      match tree.node loc with
      | some (.file _ data) => if data.length > fsMaxRead then none else some data
      | _ => none
  | _ => none

def opendirOk (tree : Tree) (path : Bytes) : Bool :=
  match walk tree true path with
  | .found loc => tree.node loc = some .dir
  | _ => false

namespace WorkerThread

variable (thread : WorkerThread)

def goto (phase : WorkerPhase) : WorkerThread := { thread with phase }

def fail (text : Bytes) : WorkerThread := thread.goto (.reply false text)

def failOp (op : FsOp) (text : String) : WorkerThread :=
  thread.fail (op.name ++ ascii text)

def unresolvedText : FsOp → String
  | .readFile | .listDir => ": path outside sandbox or not found"
  | .createFile => ": invalid or unsafe path"
  | .modifyFile | .deleteFile => ": path outside sandbox or file not found"

def afterResolve : FsOp → WorkerPhase
  | .readFile | .listDir => .progress
  | .createFile => .stat
  | .modifyFile | .deleteFile => .claim

/-- Up to the result of `fs_resolve`. -/
def resolve (priv : FsPriv) (op : FsOp) (env : WorkerEnv) (tree : Tree) :
    WorkerThread :=
  match env.pathOf op with
  | none => thread.failOp op ": missing 'path' argument"
  | some path =>
      match fsResolve priv tree path (op = .createFile) with
      | none => thread.failOp op (unresolvedText op)
      | some abs => { thread with abs, phase := afterResolve op }

/-- `read_file_contents` tells a failure apart by a length it may not have set. -/
def look (op : FsOp) (env : WorkerEnv) (tree : Tree) : WorkerThread :=
  match op with
  | .listDir =>
      if opendirOk tree thread.abs ∧ env.fails = false then
        thread.goto (.reply true env.text)
      else
        thread.failOp op ": cannot open directory"
  | _ =>
      if (readFileContents tree thread.abs).isSome ∧ env.fails = false then
        thread.goto (.reply true env.text)
      else if env.text = [] then
        thread.failOp op ": file too large (> 512 KB)"
      else
        thread.failOp op ": could not read file"

/-- `bw_request_approval` up to the claimed slot. -/
def claim (op : FsOp) (bus : Bus) : WorkerThread × Bus :=
  match firstFree bus.approvals with
  | none => (thread.failOp op ": denied by user", bus)
  | some slot =>
      (thread.goto (.ask slot), { bus with
        approvals := bus.approvals.set slot (some ⟨thread.corrId, 0⟩) })

/-- `while (slot->decided == 0)` -/
def wait (slot : Nat) (bus : Bus) : Option (WorkerThread × Bus) :=
  match bus.approvals[slot]? with
  | some (some pending) =>
      if pending.decided = 0 then
        some (thread.goto (.blocked slot), bus)
      else
        some (thread.goto (.release slot (pending.decided = 1)), bus)
  | _ => none

/-- `pthread_cond_timedwait` returns. -/
def wake (slot : Nat) (env : WorkerEnv) (bus : Bus) :
    Option (WorkerThread × Bus) :=
  match bus.approvals[slot]? with
  | some (some pending) =>
      if env.timeout then
        some (thread.goto (.release slot false), { bus with
          approvals := bus.approvals.set slot (some { pending with decided := -1 }) })
      else
        some (thread.goto (.wait slot), bus)
  | _ => none

def release (op : FsOp) (slot : Nat) (approved : Bool) (bus : Bus) :
    WorkerThread × Bus :=
  (if approved then thread.goto .change else thread.failOp op ": denied by user",
    { bus with approvals := bus.approvals.set slot none })

def change (op : FsOp) (env : WorkerEnv) (bus : Bus) : WorkerThread × Bus :=
  match op with
  | .deleteFile =>
      match if env.fails then none else bus.tree.remove thread.abs with
      | some (_, tree) => (thread.goto (.reply true env.text), { bus with tree })
      | none => (thread.failOp op ": remove failed", bus)
  | _ =>
      match if env.fails then none else bus.tree.fopenWb thread.abs with
      | some (loc, inode, tree) => (thread.goto (.write loc inode), { bus with tree })
      | none => (thread.failOp op ": write failed", bus)

def write (op : FsOp) (loc : Loc) (inode : Nat) (env : WorkerEnv) (bus : Bus) :
    WorkerThread × Bus :=
  (if env.fails then thread.failOp op ": write failed"
    else thread.goto (.reply true env.text),
    { bus with tree := bus.tree.fwrite loc inode env.content })

def stepOp (priv : FsPriv) (op : FsOp) (env : WorkerEnv) (bus : Bus) :
    Option (WorkerThread × Bus) :=
  match thread.phase with
  | .start => some (thread.resolve priv op env bus.tree, bus)
  | .progress =>
      some (thread.goto .look, bus.send (.workerStart thread.corrId 0
        (ascii "filesystem")
        (ascii (if op = .readFile then "reading file…" else "listing directory…"))))
  | .look => some (thread.look op env bus.tree, bus)
  | .stat =>
      some (if statOk bus.tree thread.abs then
          thread.failOp op ": file already exists — use modify_file"
        else thread.goto .claim, bus)
  | .claim => some (thread.claim op bus)
  | .ask slot =>
      some (thread.goto (.wait slot), bus.send (.approvalReq thread.corrId
        thread.corrId (approvalDesc priv op thread.abs)))
  | .wait slot => thread.wait slot bus
  | .blocked slot => thread.wake slot env bus
  | .release slot approved => some (thread.release op slot approved bus)
  | .change => some (thread.change op env bus)
  | .write loc inode => some (thread.write op loc inode env bus)
  | _ => none

/-- `dispatch_thread`: the operation, then its two closing messages. -/
def step (priv : FsPriv) (env : WorkerEnv) (bus : Bus) :
    Option (WorkerThread × Bus) :=
  match thread.phase with
  | .reply success result =>
      some (thread.goto .finish,
        bus.send (.workerRep thread.corrId success result))
  | .finish => some (thread.goto .done, bus.send (.workerEnd thread.corrId))
  | .done => none
  | _ =>
      match fsDispatch thread.op with
      | some op => thread.stepOp priv op env bus
      | none =>
          some (thread.fail ((ascii "fs_worker: unknown operation '" ++
            thread.op ++ ascii "'").take 127), bus)

end WorkerThread

end FreeCli

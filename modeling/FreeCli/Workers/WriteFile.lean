import FreeCli.Library.Guarded
import FreeCli.Ui.SaveLoad
import FreeCli.Workers.FsWorker

namespace FreeCli

open Words FileTree JsonText Guarded

/-! `create_file` and `modify_file` with what they read and reply. -/

/-- A string from the arguments: one of the parsed tree, or the literal `""`. -/
inductive ArgString where
  | owned (text : CString)
  | literal

/-- What is read of it after `cJSON_Delete`, if that leaves `left` of a string. -/
def ArgString.afterDelete (left : CString → Option CString) : ArgString → Option CString
  | .owned text => left text
  | .literal => some (CString.of [])

def stringArg (args : Option Json) (name : String) : Option CString :=
  (args.bind (Json.getObjectItem (key name))).bind Json.asString

def contentArg (args : Option Json) : ArgString :=
  match stringArg args "content" with
  | some text => .owned text
  | none => .literal

/-- What the calls of one request meet, in their order. -/
structure WriteCalls where
  /-- the tree `fs_resolve` finds -/
  resolved : Tree
  /-- the tree `stat` finds -/
  checked : Tree
  approved : Bool
  /-- the tree `fopen` finds -/
  opened : Tree
  /-- `fopen` fails for a reason of its own -/
  fails : Bool
  /-- what `fwrite` accepts at most -/
  accepts : Nat
  /-- what of it is in the file after `fclose`, at most -/
  reaches : Nat

/-- `none` when the content cannot be read. -/
def writeFileContents (calls : WriteCalls) (path : Bytes) (content : Option CString) :
    Option (Bool × Tree) :=
  match if calls.fails then none else calls.opened.fopenWb path with
  | none => some (false, calls.opened)
  | some (loc, inode, tree) =>
      content.map fun text =>
        let len := text.bytes.length
        let accepted := min calls.accepts len
        (accepted = len,
          tree.fwrite loc inode (text.bytes.take (min accepted calls.reaches)))

structure WriteReply where
  success : Bool
  text : Bytes
  /-- the file tree at the reply -/
  tree : Tree

section WriteFile

variable (cjson : CJson) (priv : FsPriv)

def statusJson (abs : Bytes) : Bytes :=
  (cjson.printUnformatted (.obj [(key "status", jsonString (ascii "ok")),
    (key "path", jsonString (fsRel priv abs))])).bytes

def WriteCalls.fail (calls : WriteCalls) (op : FsOp) (text : String) : WriteReply where
  success := false
  text := op.name ++ ascii text
  tree := calls.opened

/-- From the request for approval on. -/
def writeApproved (op : FsOp) (calls : WriteCalls) (abs : Bytes)
    (content : Option CString) : Option WriteReply :=
  if calls.approved then
    (writeFileContents calls abs content).map fun (ok, tree) =>
      if ok then
        { success := true, text := statusJson cjson priv abs, tree }
      else
        { calls.fail op ": write failed" with tree }
  else
    some (calls.fail op ": denied by user")

/-- `left` is what `cJSON_Delete` leaves of the strings of a tree. -/
def opCreateFile (left : CString → Option CString) (args : Option Json)
    (calls : WriteCalls) : Option WriteReply :=
  let content := contentArg args
  match stringArg args "path" with
  | none => some (calls.fail .createFile ": missing 'path' argument")
  | some path =>
      match fsResolve priv calls.resolved path.bytes true with
      | none => some (calls.fail .createFile ": invalid or unsafe path")
      | some abs =>
          if statOk calls.checked abs then
            some (calls.fail .createFile ": file already exists — use modify_file")
          else
            writeApproved cjson priv .createFile calls abs (content.afterDelete left)

def opModifyFile (left : CString → Option CString) (args : Option Json)
    (calls : WriteCalls) : Option WriteReply :=
  let content := contentArg args
  match stringArg args "path" with
  | none => some (calls.fail .modifyFile ": missing 'path' argument")
  | some path =>
      match fsResolve priv calls.resolved path.bytes false with
      | none =>
          some (calls.fail .modifyFile ": path outside sandbox or file not found")
      | some abs =>
          writeApproved cjson priv .modifyFile calls abs (content.afterDelete left)

variable {cjson priv}

variable {op : FsOp} {calls : WriteCalls} {thread : WorkerThread} {env : WorkerEnv}
  {bus : Bus} {abs : Bytes}

theorem WorkerThread.change_writes (writes : op ≠ .deleteFile)
    (fails : env.fails = calls.fails) (tree : bus.tree = calls.opened) :
    thread.change op env bus =
      match if calls.fails then none else calls.opened.fopenWb thread.abs with
      | some (loc, inode, tree) => (thread.goto (.write loc inode), { bus with tree })
      | none => (thread.failOp op ": write failed", bus) := by
  rw [change.eq_def, fails, tree]
  cases op <;> trivial

/-- The steps of a worker from its approval on, when the content is `text`. -/
theorem WorkerThread.writeApproved_steps {text : CString} (writes : op ≠ .deleteFile)
    (approved : calls.approved = true) (fails : env.fails = calls.fails)
    (found : bus.tree = calls.opened)
    (writing : last.content = text.bytes.take
      (min (min calls.accepts text.bytes.length) calls.reaches))
    (short : last.fails = decide (min calls.accepts text.bytes.length ≠ text.bytes.length))
    (result : last.text = statusJson cjson priv thread.abs)
    (replied : writeApproved cjson priv op calls thread.abs (some text) = some reply) :
    thread.change op env bus =
        (thread.goto (.reply reply.success reply.text), { bus with tree := reply.tree }) ∨
      ∃ loc inode tree, thread.change op env bus =
          (thread.goto (.write loc inode), { bus with tree }) ∧
        (thread.goto (.write loc inode)).write op loc inode last { bus with tree } =
          (thread.goto (.reply reply.success reply.text),
            { bus with tree := reply.tree }) := by
  rw [writeApproved, if_pos approved, writeFileContents] at replied
  rw [change_writes writes fails found]
  cases opened : if calls.fails then none else calls.opened.fopenWb thread.abs with
  | none =>
      rw [opened] at replied
      obtain rfl := Option.some.inj replied
      left
      simp only [WriteCalls.fail, ← found]
      rfl
  | some result =>
      obtain ⟨loc, inode, tree⟩ := result
      rw [opened] at replied
      obtain rfl := Option.some.inj replied
      refine .inr ⟨loc, inode, tree, rfl, ?_⟩
      by_cases whole : min calls.accepts text.bytes.length = text.bytes.length
      · simp only [write, writing, short, result, whole, ne_eq,
          not_true_eq_false, decide_false, decide_true, if_true]
        rfl
      · simp only [write, writing, short, whole, ne_eq, not_false_eq_true,
          decide_false, decide_true, if_true]
        rfl

/-! ### The content that was requested -/

/-- The content is read before `cJSON_Delete`, and after a success it is what the file
at the resolved path holds. -/
def ContentWritten (resolved : Option Bytes) (content : CString) (run : Option WriteReply) :
    Prop :=
  Ensures run fun reply => reply.success = true → ∃ abs loc inode, resolved = some abs ∧
    walk reply.tree true abs = .found loc ∧
    reply.tree.node loc = some (.file inode content.bytes)

theorem contentWritten_fail {text : String} :
    ContentWritten resolved content (some (calls.fail op text)) :=
  .pure fun success => absurd success (by simp [WriteCalls.fail])

theorem contentWritten_writeApproved (approved : calls.approved = true) :
    ContentWritten resolved content (writeApproved cjson priv op calls abs none) ↔
      calls.fails = true ∨ calls.opened.fopenWb abs = none := by
  rw [writeApproved, if_pos approved, writeFileContents]
  cases opened : if calls.fails then none else calls.opened.fopenWb abs with
  | none =>
      have unopened : calls.fails = true ∨ calls.opened.fopenWb abs = none := by
        by_cases fails : calls.fails = true
        · exact .inl fails
        · rw [if_neg fails] at opened
          exact .inr opened
      exact iff_of_true contentWritten_fail unopened
  | some result =>
      have works : ¬calls.fails = true := by
        intro fails
        rw [if_pos fails] at opened
        contradiction
      rw [if_neg works] at opened
      refine iff_of_false ?_ (by simp [works, opened])
      rintro ⟨reply, ran, _⟩
      contradiction

/-- An approved request with string arguments uses no released string and writes what
it was given exactly if it ends before the content is used. -/
theorem written_content_requested {path content : CString}
    (named : stringArg args "path" = some path)
    (given : stringArg args "content" = some content) (approved : calls.approved = true) :
    (ContentWritten (fsResolve priv calls.resolved path.bytes true) content
        (opCreateFile cjson priv (fun _ => none) args calls) ↔
      ∀ abs, fsResolve priv calls.resolved path.bytes true = some abs →
        statOk calls.checked abs = true ∨ calls.fails = true ∨
          calls.opened.fopenWb abs = none) ∧
    (ContentWritten (fsResolve priv calls.resolved path.bytes false) content
        (opModifyFile cjson priv (fun _ => none) args calls) ↔
      ∀ abs, fsResolve priv calls.resolved path.bytes false = some abs →
        calls.fails = true ∨ calls.opened.fopenWb abs = none) := by
  have owned : contentArg args = .owned content := by rw [contentArg, given]
  constructor
  · simp only [opCreateFile, named, owned, ArgString.afterDelete]
    cases resolved : fsResolve priv calls.resolved path.bytes true with
    | none => exact iff_of_true contentWritten_fail (by simp)
    | some abs =>
        simp only [Option.some.injEq, forall_eq']
        by_cases there : statOk calls.checked abs = true
        · rw [if_pos there]
          exact iff_of_true contentWritten_fail (.inl there)
        · rw [if_neg there, contentWritten_writeApproved approved, or_iff_right there]
  · simp only [opModifyFile, named, owned, ArgString.afterDelete]
    cases resolved : fsResolve priv calls.resolved path.bytes false with
    | none => exact iff_of_true contentWritten_fail (by simp)
    | some abs =>
        simp only [Option.some.injEq, forall_eq']
        exact contentWritten_writeApproved approved

end WriteFile

/-! An approved request for the file `a` of a sandbox with the content "hi". -/

def hiArgs : Option Json :=
  some (.obj [(key "path", jsonString (ascii "a")), (key "content", jsonString (ascii "hi"))])

def hiCalls (tree : Tree) (accepts : Nat) : WriteCalls where
  resolved := tree
  checked := tree
  approved := true
  opened := tree
  fails := false
  accepts
  reaches := accepts

/-- The file is there, and `fopen` fails. -/
def failingCalls : WriteCalls :=
  { hiCalls (System.fileSandbox (ascii "hi")) 2 with fails := true }

theorem hiArgs_path : stringArg hiArgs "path" = some (CString.of (ascii "a")) := rfl

theorem hiArgs_content : stringArg hiArgs "content" = some (CString.of (ascii "hi")) := rfl

theorem written_content_requested_hi :
    ((ContentWritten (fsResolve System.sandboxPriv System.emptySandbox (ascii "a") true)
        (CString.of (ascii "hi")) (opCreateFile CJson.compact System.sandboxPriv
          (fun _ => none) hiArgs (hiCalls System.emptySandbox 2)) ↔
      ∀ abs, fsResolve System.sandboxPriv System.emptySandbox (ascii "a") true = some abs →
        statOk System.emptySandbox abs = true ∨ false = true ∨
          System.emptySandbox.fopenWb abs = none) ∧
    (ContentWritten (fsResolve System.sandboxPriv System.emptySandbox (ascii "a") false)
        (CString.of (ascii "hi")) (opModifyFile CJson.compact System.sandboxPriv
          (fun _ => none) hiArgs (hiCalls System.emptySandbox 2)) ↔
      ∀ abs, fsResolve System.sandboxPriv System.emptySandbox (ascii "a") false = some abs →
        false = true ∨ System.emptySandbox.fopenWb abs = none)) ∧
    ContentWritten (fsResolve System.sandboxPriv (System.fileSandbox (ascii "hi")) (ascii "a") true)
        (CString.of (ascii "hi")) (opCreateFile CJson.compact System.sandboxPriv
          (fun _ => none) hiArgs failingCalls) ∧
    ContentWritten (fsResolve System.sandboxPriv (System.fileSandbox (ascii "hi")) (ascii "a") false)
        (CString.of (ascii "hi")) (opModifyFile CJson.compact System.sandboxPriv
          (fun _ => none) hiArgs failingCalls) := by
  refine ⟨written_content_requested hiArgs_path hiArgs_content rfl, ?_⟩
  exact ⟨(written_content_requested hiArgs_path hiArgs_content rfl).1.2
      fun _ _ => .inr (.inl rfl),
    (written_content_requested hiArgs_path hiArgs_content rfl).2.2 fun _ _ => .inl rfl⟩

/-- An approved `create_file` measures a released string. -/
theorem created_content_released : ¬∀ (cjson : CJson) (priv : FsPriv) (args : Option Json)
    (calls : WriteCalls) (path content : CString), stringArg args "path" = some path →
    stringArg args "content" = some content → calls.approved = true →
    ContentWritten (fsResolve priv calls.resolved path.bytes true) content
        (opCreateFile cjson priv (fun _ => none) args calls) ∧
      ContentWritten (fsResolve priv calls.resolved path.bytes false) content
        (opModifyFile cjson priv (fun _ => none) args calls) := by
  intro written
  obtain ⟨⟨reply, ran, _⟩, _⟩ := written CJson.compact System.sandboxPriv hiArgs
    (hiCalls System.emptySandbox 2) _ _ hiArgs_path hiArgs_content rfl
  have released : opCreateFile CJson.compact System.sandboxPriv (fun _ => none) hiArgs
      (hiCalls System.emptySandbox 2) = none := rfl
  rw [released] at ran
  contradiction

section Leaves

variable {cjson : CJson} {priv : FsPriv} {op : FsOp} {calls : WriteCalls} {abs : Bytes}
  {loc : Loc} {inode : Nat}

/-! ### What is left of the file -/

/-- What `fwrite` accepted of a content so long is in the file after `fclose`. -/
def WriteCalls.Flushed (calls : WriteCalls) (length : Nat) : Prop :=
  min calls.accepts length ≤ calls.reaches

variable (cjson priv op) in
theorem writeApproved_file (content : CString) {old : Bytes}
    (approved : calls.approved = true) (works : calls.fails = false)
    (walked : walk calls.opened true abs = .found loc)
    (file : calls.opened.node loc = some (.file inode old)) :
    ∃ reply, writeApproved cjson priv op calls abs (some content) = some reply ∧
      (reply.success = true ↔ content.bytes.length ≤ calls.accepts) ∧
      reply.tree.node loc =
        some (.file inode (content.bytes.take (min calls.accepts calls.reaches))) := by
  have opened := Tree.fopenWb_found walked file
  have truncated : (calls.opened.setFile loc inode [] ⟨old, file⟩).node loc =
      some (.file inode []) := by
    rw [Tree.node_setFile, if_pos rfl]
  have written := Tree.node_fwrite truncated (content.bytes.take
    (min (min calls.accepts content.bytes.length) calls.reaches))
  -- taking more than there is takes all
  have part : content.bytes.take (min (min calls.accepts content.bytes.length)
      calls.reaches) = content.bytes.take (min calls.accepts calls.reaches) :=
    List.take_eq_take_iff.2 (by omega)
  rw [part] at written
  rw [writeApproved, if_pos approved, writeFileContents, works, if_neg (by simp), opened]
  simp only [Option.map_some, part]
  by_cases whole : min calls.accepts content.bytes.length = content.bytes.length
  · rw [decide_eq_true whole, if_pos rfl]
    exact ⟨_, rfl, iff_of_true rfl (by omega), written⟩
  · rw [decide_eq_false whole, if_neg (by simp)]
    exact ⟨_, rfl, iff_of_false (by simp [WriteCalls.fail]) (by omega), written⟩

/-- An error of `modify_file` leaves the old content when the file was not opened, and a
part of the new one when it was; the content is intact when it is written. -/
theorem modify_file_leaves {path content : CString} {old : Bytes}
    (named : stringArg args "path" = some path)
    (intact : (contentArg args).afterDelete left = some content)
    (resolved : fsResolve priv calls.resolved path.bytes false = some abs)
    (walked : walk calls.opened true abs = .found loc)
    (file : calls.opened.node loc = some (.file inode old)) :
    ∃ reply, opModifyFile cjson priv left args calls = some reply ∧
      (reply.success = true → calls.Flushed content.bytes.length →
        reply.tree.node loc = some (.file inode content.bytes)) ∧
      (reply.success = false →
        ((calls.approved = false ∨ calls.fails = true) ∧
          reply.tree.node loc = some (.file inode old)) ∨
        (calls.accepts < content.bytes.length ∧ reply.tree.node loc =
          some (.file inode (content.bytes.take (min calls.accepts calls.reaches))))) := by
  simp only [opModifyFile, named, resolved, intact]
  cases approved : calls.approved with
  | false =>
      refine ⟨calls.fail .modifyFile ": denied by user", ?_, by simp [WriteCalls.fail],
        fun _ => .inl ⟨.inl rfl, file⟩⟩
      rw [writeApproved, approved, if_neg (by simp)]
  | true =>
      cases fails : calls.fails with
      | true =>
          refine ⟨{ calls.fail .modifyFile ": write failed" with tree := calls.opened }, ?_,
            by simp [WriteCalls.fail], fun _ => .inl ⟨.inr rfl, file⟩⟩
          rw [writeApproved, if_pos approved, writeFileContents, if_pos fails]
          rfl
      | false =>
          obtain ⟨reply, ran, success, written⟩ :=
            writeApproved_file cjson priv .modifyFile content approved fails walked file
          refine ⟨reply, ran, fun succeeded flushed => ?_, fun failed => .inr ?_⟩
          · have accepted := success.1 succeeded
            rw [written, List.take_of_length_le]
            rw [WriteCalls.Flushed] at flushed
            omega
          · rw [failed] at success
            exact ⟨by simpa using success, written⟩

end Leaves

def shortWrite : WriteCalls := hiCalls (System.fileSandbox (ascii "old")) 1

theorem modify_file_leaves_short : ∃ reply, opModifyFile CJson.compact System.sandboxPriv
      some hiArgs shortWrite = some reply ∧
    (reply.success = true → shortWrite.Flushed 2 →
      reply.tree.node [ascii "s", ascii "a"] = some (.file 0 (ascii "hi"))) ∧
    (reply.success = false →
      ((shortWrite.approved = false ∨ shortWrite.fails = true) ∧
        reply.tree.node [ascii "s", ascii "a"] = some (.file 0 (ascii "old"))) ∨
      (1 < 2 ∧ reply.tree.node [ascii "s", ascii "a"] = some (.file 0 (ascii "h")))) := by
  have intact : (contentArg hiArgs).afterDelete some = some (CString.of (ascii "hi")) := rfl
  have file : shortWrite.opened.node [ascii "s", ascii "a"] =
      some (.file 0 (ascii "old")) := rfl
  exact modify_file_leaves hiArgs_path intact (System.fileSandbox_resolved (ascii "old"))
    (System.fileSandbox_walked (ascii "old")) file

/-- The write comes short, and the old content is gone. -/
theorem modify_file_loses : ¬∀ (cjson : CJson) (priv : FsPriv)
    (left : CString → Option CString) (args : Option Json) (calls : WriteCalls)
    (path content : CString) (abs old : Bytes) (loc : Loc) (inode : Nat),
    stringArg args "path" = some path →
    (contentArg args).afterDelete left = some content →
    fsResolve priv calls.resolved path.bytes false = some abs →
    walk calls.opened true abs = .found loc →
    calls.opened.node loc = some (.file inode old) →
    ∃ reply, opModifyFile cjson priv left args calls = some reply ∧
      (reply.success = true → reply.tree.node loc = some (.file inode content.bytes)) ∧
      (reply.success = false → reply.tree.node loc = some (.file inode old)) := by
  intro kept
  obtain ⟨reply, ran, _, failed⟩ := kept CJson.compact System.sandboxPriv some hiArgs
    shortWrite (CString.of (ascii "a")) (CString.of (ascii "hi")) (ascii "/s/a")
    (ascii "old") [ascii "s", ascii "a"] 0 hiArgs_path rfl
    (System.fileSandbox_resolved (ascii "old")) (System.fileSandbox_walked (ascii "old")) rfl
  have short : (opModifyFile CJson.compact System.sandboxPriv some hiArgs shortWrite).map
      (fun reply => (reply.success, reply.tree.node [ascii "s", ascii "a"])) =
    some (false, some (.file 0 (ascii "h"))) := rfl
  rw [ran] at short
  obtain ⟨unsuccessful, part⟩ := Prod.mk.inj (Option.some.inj short)
  rw [failed unsuccessful] at part
  exact absurd part (by decide)

end FreeCli

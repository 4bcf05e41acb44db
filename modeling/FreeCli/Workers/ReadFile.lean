import FreeCli.Ui.SaveLoad
import FreeCli.Workers.FsWorker

namespace FreeCli

open Words FileTree JsonText

/-! `read_file` with what it reads and replies. -/

/-- What the C library does while one file is read. -/
structure ReadIo where
  /-- `fopen` fails, or the size cannot be told -/
  fails : Bool
  /-- what `fread` returns at most -/
  got : Nat
  /-- `flen` before anything is written to it -/
  flen : Nat
  deriving DecidableEq, Repr

/-- The block of `read_file_contents`, with the NUL it puts behind what was read. -/
def readFileBlock (tree : Tree) (path : Bytes) (io : ReadIo) : Option Bytes :=
  if io.fails then none
  else (readFileContents tree path).map fun data => data.take io.got ++ [0]

section ReadFile

variable (cjson : CJson)

def contentJson (content : Bytes) : Bytes :=
  (cjson.printUnformatted (.obj [(key "content", jsonString content)])).bytes

/-- The success flag and the text of the reply.  The path is resolved in `tree`, and
the file is read in `later`. -/
def opReadFile (priv : FsPriv) (tree later : Tree) (reqPath : Option Bytes) (io : ReadIo) :
    Bool × Bytes :=
  match reqPath with
  | none => (false, ascii "read_file: missing 'path' argument")
  | some path =>
      match fsResolve priv tree path false with
      | none => (false, ascii "read_file: path outside sandbox or not found")
      | some abs =>
          match readFileBlock later abs io with
          | none =>
              (false, ascii (if io.flen = 0 then "read_file: file too large (> 512 KB)"
                else "read_file: could not read file"))
          | some content => (true, contentJson cjson content)

/-- What the worker meets: `text` is the reply, or tells whether `flen` is 0. -/
def ReadIo.env (io : ReadIo) (path block : Option Bytes) : WorkerEnv where
  path
  content := []
  fails := io.fails
  timeout := false
  text := (block.map (contentJson cjson)).getD (if io.flen = 0 then [] else [0])

def contentOf (text : Bytes) : Option Bytes :=
  (((cjson.parse (CString.of text)).bind (Json.getObjectItem (key "content"))).bind
    Json.asString).map CString.bytes

variable {cjson}

theorem contentOf_contentJson (laws : cjson.RoundTrips) (content : Bytes) :
    contentOf cjson (contentJson cjson content) = some (terminated content) := by
  have shallow : (Json.obj [(key "content", jsonString content)]).depth ≤
      Json.nestingLimit := by
    have one : (Json.obj [(key "content", jsonString content)]).depth ≤ 0 + 1 := by
      apply Json.depth_obj_le
      intro field member
      obtain rfl := List.mem_singleton.1 member
      exact Nat.le_refl 0
    exact one.trans (by decide)
  rw [contentOf, contentJson, CString.of_bytes, laws.undoes _ shallow, Option.bind_some,
    Json.getObjectItem_cons, if_pos rfl]
  rfl

/-- A C string carries a file to its end if the file was read to its end and has no
NUL. -/
theorem terminated_take_eq (data : Bytes) (got : Nat) :
    terminated (data.take got ++ [0]) = data ↔ data.length ≤ got ∧ 0 ∉ data := by
  constructor
  · intro whole
    have nulFree : 0 ∉ data := whole ▸ nulFree_terminated _
    have front : 0 ∉ data.take got := fun member => nulFree (List.mem_of_mem_take member)
    have read := terminated_append_nul ⟨data.take got, front⟩ []
    rw [whole] at read
    refine ⟨?_, nulFree⟩
    have length := congrArg List.length read
    rw [List.length_take] at length
    omega
  · rintro ⟨all, nulFree⟩
    rw [List.take_of_length_le all]
    exact terminated_append_nul ⟨data, nulFree⟩ []

variable {priv : FsPriv} {tree later : Tree} {path abs data : Bytes} {loc : Loc}
  {inode : Nat} {io : ReadIo}

theorem WorkerThread.resolve_readFile (thread : WorkerThread)
    (unresolved : ∀ path, reqPath = some path → fsResolve priv tree path false = none) :
    thread.resolve priv .readFile (io.env cjson reqPath block) tree =
      thread.goto (.reply (opReadFile cjson priv tree later reqPath io).1
        (opReadFile cjson priv tree later reqPath io).2) := by
  cases reqPath with
  | none => rfl
  | some path =>
      have unfound := unresolved path rfl
      simp only [resolve, WorkerEnv.pathOf, ReadIo.env, opReadFile, unfound, reduceCtorEq,
        decide_false]
      rfl

theorem readFileBlock_isSome (later : Tree) (abs : Bytes) (io : ReadIo) :
    (readFileBlock later abs io).isSome ↔
      (readFileContents later abs).isSome ∧ io.fails = false := by
  rw [readFileBlock]
  cases io.fails <;> simp

theorem WorkerThread.look_readFile (thread : WorkerThread)
    (resolved : fsResolve priv tree path false = some thread.abs) :
    thread.look .readFile
        (io.env cjson (some path) (readFileBlock later thread.abs io)) later =
      thread.goto (.reply (opReadFile cjson priv tree later (some path) io).1
        (opReadFile cjson priv tree later (some path) io).2) := by
  have reads := readFileBlock_isSome later thread.abs io
  simp only [look, opReadFile, resolved, ReadIo.env, ← reads]
  cases readFileBlock later thread.abs io with
  | some block => rfl
  | none => by_cases empty : io.flen = 0 <;> simp [empty, failOp, fail] <;> rfl

theorem readFileContents_file (walked : walk tree true abs = .found loc)
    (file : tree.node loc = some (.file inode data)) :
    readFileContents tree abs = if data.length > fsMaxRead then none else some data := by
  rw [readFileContents, walked]
  simp only [file]

/-- `read_file` replies with a whole file or an error exactly if the file cannot be
opened, is too large, or is read to its end and has no NUL. -/
theorem read_file_whole (laws : cjson.RoundTrips)
    (resolved : fsResolve priv tree path false = some abs)
    (walked : walk later true abs = .found loc)
    (file : later.node loc = some (.file inode data)) (io : ReadIo) :
    (∀ text, opReadFile cjson priv tree later (some path) io = (true, text) →
      contentOf cjson text = some data) ↔
    io.fails = true ∨ data.length > fsMaxRead ∨ (data.length ≤ io.got ∧ 0 ∉ data) := by
  have contents := readFileContents_file walked file
  by_cases fails : io.fails = true
  · have block : readFileBlock later abs io = none := if_pos fails
    simp [opReadFile, resolved, block, fails]
  by_cases large : data.length > fsMaxRead
  · have block : readFileBlock later abs io = none := by
      rw [readFileBlock, if_neg fails, contents, if_pos large]
      rfl
    simp [opReadFile, resolved, block, large]
  have block : readFileBlock later abs io = some (data.take io.got ++ [0]) := by
    rw [readFileBlock, if_neg fails, contents, if_neg large]
    rfl
  have replied : opReadFile cjson priv tree later (some path) io =
      (true, contentJson cjson (data.take io.got ++ [0])) := by
    simp only [opReadFile, resolved, block]
  rw [or_iff_right fails, or_iff_right large, ← terminated_take_eq, replied]
  simp only [Prod.mk.injEq, true_and, forall_eq', contentOf_contentJson laws,
    Option.some.injEq]

end ReadFile

def wholeRead : ReadIo where
  fails := false
  got := fsMaxRead
  flen := 0

theorem read_file_whole_hi :
    (∀ text, opReadFile CJson.compact System.sandboxPriv (System.fileSandbox (ascii "hi"))
        (System.fileSandbox (ascii "hi")) (some (ascii "a")) wholeRead = (true, text) →
      contentOf CJson.compact text = some (ascii "hi")) ↔
    wholeRead.fails = true ∨ (ascii "hi").length > fsMaxRead ∨
      ((ascii "hi").length ≤ wholeRead.got ∧ 0 ∉ ascii "hi") :=
  read_file_whole CJson.compact_roundTrips (System.fileSandbox_resolved (ascii "hi"))
    (System.fileSandbox_walked (ascii "hi")) rfl wholeRead

/-- A file of the one byte NUL is reported as empty. -/
theorem read_file_truncates : ¬∀ (cjson : CJson) (priv : FsPriv) (tree later : Tree)
    (path abs data : Bytes) (loc : Loc) (inode : Nat) (io : ReadIo), cjson.RoundTrips →
    fsResolve priv tree path false = some abs → walk later true abs = .found loc →
    later.node loc = some (.file inode data) →
    ∀ text, opReadFile cjson priv tree later (some path) io = (true, text) →
      contentOf cjson text = some data := by
  intro whole
  have reported := whole CJson.compact System.sandboxPriv (System.fileSandbox [0])
    (System.fileSandbox [0]) (ascii "a") (ascii "/s/a") [0] [ascii "s", ascii "a"] 0
    wholeRead CJson.compact_roundTrips (System.fileSandbox_resolved [0])
    (System.fileSandbox_walked [0]) rfl (contentJson CJson.compact [0, 0]) rfl
  rw [contentOf_contentJson CJson.compact_roundTrips] at reported
  exact absurd reported (by decide)

end FreeCli

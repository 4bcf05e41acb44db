import FreeCli.Ui.Input
import FreeCli.Ui.Main
import FreeCli.Ui.Persist
import FreeCli.Workers.FsWorker
import Mathlib.Data.List.TakeDrop

namespace FreeCli

open Words JsonText

/-! The requests typed as `/fs` lines. -/

theorem skipSpaces_take (count n : Nat) {rest : Bytes} (start : rest.head? ≠ some space) :
    skipSpaces ((List.replicate count space ++ rest).take n) = rest.take (n - count) := by
  rw [skipSpaces, List.take_append, List.length_replicate, List.take_replicate,
    List.dropWhile_append_of_pos fun byte member => by
      rw [List.eq_of_mem_replicate member]
      rfl]
  cases shape : rest.take (n - count) with
  | nil => rfl
  | cons byte behind =>
      have first : rest.head? = some byte := by
        have := congrArg List.head? shape
        rw [List.head?_take] at this
        split at this
        · contradiction
        · exact this
      have different : ¬ (byte == space) = true := fun same =>
        start (first.trans (congrArg some (eq_of_beq same)))
      exact List.dropWhile_cons_of_neg different

theorem untilSpace_take (n : Nat) {word rest : Bytes} (spaceless : space ∉ word)
    (behind : rest.head?.all (· == space) = true) :
    untilSpace ((word ++ rest).take n) = word.take n := by
  have kept : ∀ byte ∈ word.take n, (byte != space) = true := fun byte member =>
    bne_iff_ne.2 fun same => spaceless (same ▸ List.mem_of_mem_take member)
  rw [untilSpace, List.take_append, List.takeWhile_append_of_pos kept]
  have none : (rest.take (n - word.length)).takeWhile (· != space) = [] := by
    cases rest with
    | nil => rw [List.take_nil, List.takeWhile_nil]
    | cons byte rest =>
        cases n - word.length with
        | zero => rfl
        | succ m =>
            have same : byte = space := eq_of_beq behind
            rw [List.take_succ_cons, same]
            exact List.takeWhile_cons_of_neg (by decide)
  rw [none, List.append_nil]

theorem drop_take_append (n : Nat) (word rest : Bytes) :
    ((word ++ rest).take n).drop (word.take n).length = rest.take (n - word.length) := by
  rw [List.take_append, List.drop_left]

theorem jsonString_take_iff {whole part : Bytes} (nulFree : 0 ∉ whole)
    (same : part = whole.take n) :
    jsonString part = jsonString whole ↔ whole.length ≤ n := by
  rw [same, jsonString, jsonString, Json.str.injEq, ← List.take_eq_self_iff]
  constructor
  · intro equal
    have bytes : terminated (whole.take n) = terminated whole := congrArg CString.bytes equal
    have partNulFree : 0 ∉ whole.take n := fun member => nulFree (List.mem_of_mem_take member)
    rwa [terminated_of_nulFree nulFree, terminated_of_nulFree partNulFree] at bytes
  · exact congrArg CString.of

/-- The backend operation of a `/fs` line. -/
def fsOp (input : Bytes) : Option Bytes :=
  backendOp ((untilSpace (skipSpaces (input.drop 3))).take 31)

def fsAfterOp (input : Bytes) : Bytes :=
  let rest := skipSpaces (input.drop 3)
  skipSpaces (rest.drop (untilSpace rest).length)

/-- `char path[1024]` -/
def fsPath (input : Bytes) : Bytes := (untilSpace (fsAfterOp input)).take 1023

def fsContent (input : Bytes) : Bytes :=
  skipSpaces ((fsAfterOp input).drop (fsPath input).length)

/-- The arguments of the request: without a text the content is empty. -/
def fsArgs (input : Bytes) : Json :=
  .obj ((key "path", jsonString (fsPath input)) ::
    if fsOp input = some FsOp.createFile.name ∨ fsOp input = some FsOp.modifyFile.name then
      [(key "content", jsonString (fsContent input))]
    else
      [])

theorem depth_fsArgs (input : Bytes) : (fsArgs input).depth ≤ Json.nestingLimit := by
  have shallow : (fsArgs input).depth ≤ 0 + 1 := by
    apply Json.depth_obj_le
    intro field member
    rcases List.mem_cons.1 member with rfl | content
    · exact Nat.le_refl 0
    · split at content
      · rw [List.mem_singleton.1 content]
        exact Nat.le_refl 0
      · contradiction
  exact shallow.trans (by decide)

inductive FsWord where
  | list
  | read
  | delete
  | create
  | write
  deriving DecidableEq, Repr

namespace FsWord

def name : FsWord → Bytes
  | .list => ascii "list"
  | .read => ascii "read"
  | .delete => ascii "delete"
  | .create => ascii "create"
  | .write => ascii "write"

def op : FsWord → FsOp
  | .list => .listDir
  | .read => .readFile
  | .delete => .deleteFile
  | .create => .createFile
  | .write => .modifyFile

/-- Does a text follow the path? -/
def takesText : FsWord → Bool
  | .list | .read | .delete => false
  | .create | .write => true

variable (word : FsWord)

theorem length_name : word.name.length ≤ 6 := by cases word <;> decide

theorem space_notMem_name : space ∉ word.name := by cases word <;> decide

theorem head_name : word.name.head? ≠ some space := by cases word <;> decide

theorem backendOp_eq_iff (opName : Bytes) :
    backendOp opName = some word.op.name ↔ opName = word.name := by
  constructor
  · intro found
    unfold backendOp at found
    split_ifs at found with isList isRead isDelete isCreate isWrite
    all_goals
      have same := Option.some.inj found
      cases word <;> first | assumption | exact absurd same (by decide)
  · rintro rfl
    cases word <;> decide

theorem takesText_iff :
    (some word.op.name = some FsOp.createFile.name ∨
        some word.op.name = some FsOp.modifyFile.name) ↔ word.takesText = true := by
  cases word <;> decide

end FsWord

/-- A line `/fs word path text`, with the spaces between. -/
structure FsLine where
  word : FsWord
  before : Nat
  between : Nat
  path : Bytes
  behind : Nat
  text : Bytes
  pathFilled : path ≠ []
  pathWord : space ∉ path
  pathNulFree : 0 ∉ path
  textStart : text.head? ≠ some space
  textNulFree : 0 ∉ text
  separated : text ≠ [] → 0 < behind
  textless : word.takesText = false → text = []

namespace FsLine

variable (line : FsLine)

def afterPath : Bytes := List.replicate line.behind space ++ line.text

def afterWord : Bytes :=
  List.replicate (line.between + 1) space ++ (line.path ++ line.afterPath)

def bytes : Bytes :=
  ascii "/fs" ++
    (List.replicate (line.before + 1) space ++ (line.word.name ++ line.afterWord))

theorem length_bytes :
    line.bytes.length = 3 + (line.before + 1) + line.word.name.length + (line.between + 1) +
      line.path.length + (line.behind + line.text.length) := by
  have slash : (ascii "/fs").length = 3 := rfl
  rw [bytes, afterWord, afterPath]
  simp only [List.length_append, List.length_replicate, slash]
  omega

def args : Json :=
  .obj ((key "path", jsonString line.path) ::
    if line.word.takesText then [(key "content", jsonString line.text)] else [])

/-- How much of the line must be there: spaces at its end say nothing. -/
def needed : Nat :=
  3 + (line.before + 1) + line.word.name.length + (line.between + 1) + line.path.length +
    if line.text = [] then 0 else line.behind + line.text.length

/-- One request is sent, with the operation and the arguments that are typed. -/
def Carried (cjson : CJson) (corrId : Nat) (sent : List ToBackend) : Prop :=
  ∃ args, sent = [.workerReq corrId backendTypeFilesystem line.word.op.name args] ∧
    cjson.parse (CString.of args) = some line.args

section Cut

variable (n : Nat)

theorem rest_take :
    skipSpaces ((line.bytes.take n).drop 3) =
      (line.word.name ++ line.afterWord).take (n - 3 - (line.before + 1)) := by
  have start : (line.word.name ++ line.afterWord).head? ≠ some space := by
    rw [List.head?_append_of_ne_nil _ (by cases line.word <;> decide)]
    exact line.word.head_name
  have behind : line.bytes.drop 3 =
      List.replicate (line.before + 1) space ++ (line.word.name ++ line.afterWord) := rfl
  rw [List.drop_take, behind, skipSpaces_take _ _ start]

theorem untilSpace_rest_take :
    untilSpace (skipSpaces ((line.bytes.take n).drop 3)) =
      line.word.name.take (n - 3 - (line.before + 1)) := by
  rw [line.rest_take, untilSpace_take _ line.word.space_notMem_name rfl]

theorem fsOp_take :
    fsOp (line.bytes.take n) = some line.word.op.name ↔
      3 + (line.before + 1) + line.word.name.length ≤ n := by
  have short := line.word.length_name
  rw [fsOp, line.untilSpace_rest_take, line.word.backendOp_eq_iff, List.take_take,
    List.take_eq_self_iff]
  have filled : 0 < line.word.name.length := by cases line.word <;> decide
  omega

theorem fsAfterOp_take :
    fsAfterOp (line.bytes.take n) = (line.path ++ line.afterPath).take
      (n - 3 - (line.before + 1) - line.word.name.length - (line.between + 1)) := by
  have start : (line.path ++ line.afterPath).head? ≠ some space := by
    rw [List.head?_append_of_ne_nil _ line.pathFilled]
    exact fun first => line.pathWord (List.mem_of_mem_head? first)
  rw [fsAfterOp, line.untilSpace_rest_take, line.rest_take, drop_take_append, afterWord,
    skipSpaces_take _ _ start]

theorem space_afterPath : line.afterPath.head?.all (· == space) = true := by
  rw [afterPath]
  cases spaces : line.behind with
  | zero =>
      have textless : line.text = [] := by
        by_contra filled
        exact Nat.lt_irrefl 0 (spaces ▸ line.separated filled)
      rw [textless]
      rfl
  | succ count => rfl

theorem fsPath_take (sized : line.bytes.length < inputMax) :
    fsPath (line.bytes.take n) = line.path.take
      (n - 3 - (line.before + 1) - line.word.name.length - (line.between + 1)) := by
  have whole : line.path.length ≤ 1023 := by
    rw [line.length_bytes, inputMax] at sized
    omega
  rw [fsPath, line.fsAfterOp_take, untilSpace_take _ line.pathWord line.space_afterPath,
    List.take_of_length_le]
  exact (List.length_take_le' _ _).trans whole

theorem fsContent_take (sized : line.bytes.length < inputMax) :
    fsContent (line.bytes.take n) = line.text.take
      (n - 3 - (line.before + 1) - line.word.name.length - (line.between + 1) -
        line.path.length - line.behind) := by
  rw [fsContent, line.fsPath_take n sized, line.fsAfterOp_take, drop_take_append, afterPath,
    skipSpaces_take _ _ line.textStart]

theorem fsArgs_take_iff (sized : line.bytes.length < inputMax)
    (named : fsOp (line.bytes.take n) = some line.word.op.name) :
    fsArgs (line.bytes.take n) = line.args ↔ line.needed ≤ n := by
  have op := (line.fsOp_take n).1 named
  have path : jsonString (fsPath (line.bytes.take n)) = jsonString line.path ↔
      3 + (line.before + 1) + line.word.name.length + (line.between + 1) +
        line.path.length ≤ n := by
    rw [jsonString_take_iff line.pathNulFree (line.fsPath_take n sized)]
    have filled := List.length_pos_of_ne_nil line.pathFilled
    omega
  have content : jsonString (fsContent (line.bytes.take n)) = jsonString line.text ↔
      line.text.length ≤ n - 3 - (line.before + 1) - line.word.name.length -
        (line.between + 1) - line.path.length - line.behind :=
    jsonString_take_iff line.textNulFree (line.fsContent_take n sized)
  rw [fsArgs, named, args, needed]
  by_cases takes : line.word.takesText = true
  · rw [if_pos (line.word.takesText_iff.2 takes), if_pos takes]
    simp only [Json.obj.injEq, List.cons.injEq, Prod.mk.injEq, true_and, and_true]
    rw [path, content]
    split
    next empty =>
      rw [empty, List.length_nil]
      omega
    next filled =>
      have := List.length_pos_of_ne_nil filled
      omega
  · rw [if_neg (mt line.word.takesText_iff.1 takes), if_neg takes,
      if_pos (line.textless (by simpa using takes))]
    simp only [Json.obj.injEq, List.cons.injEq, Prod.mk.injEq, true_and, and_true]
    exact path

end Cut

end FsLine

namespace Tui

variable {tui : Tui}

theorem cmdFs_sent (opened : tui.ipcOpen = true) (input : Bytes) (env : KeyEnv) :
    (tui.cmdFs input env).2 = (fsOp input).toList.map fun op =>
      .workerReq tui.nextCorr backendTypeFilesystem op env.argsJson := by
  rw [cmdFs]
  simp only
  split
  next nothing =>
    have none : fsOp input = none := by
      rw [fsOp, nothing]
      rfl
    rw [none]
    rfl
  next =>
    rw [fsOp]
    cases backendOp ((untilSpace (skipSpaces (input.drop 3))).take 31) with
    | none => rfl
    | some op =>
        simp only [doSendWorkerReq, opened, if_true]
        split <;> rfl

theorem submitMessage_fs (active : tui.sessions.activeIndex ≠ none) {line : FsLine}
    (typed : tui.inputLine = line.bytes) (env : KeyEnv) :
    tui.submitMessage env =
      { tui with inputLine := [] }.cmdFs (tui.inputLine.take 255) env := by
  obtain ⟨rest, shape⟩ : ∃ rest, tui.inputLine = 47 :: 102 :: 115 :: space :: rest :=
    ⟨_, typed⟩
  have something : ¬ (tui.sessions.activeIndex = none ∨ tui.inputLine = []) := by
    rw [shape]
    exact not_or.2 ⟨active, nofun⟩
  have slash : tui.inputLine.head? = some 47 := by
    rw [shape]
    rfl
  rw [submitMessage, if_neg something, if_pos slash, shape]
  rfl

/-- Enter, with the arguments printed that are read from `cmd_buf[256]`. -/
def submitTyped (cjson : CJson) (tui : Tui) (env : KeyEnv) : Tui × List ToBackend :=
  tui.submitMessage { env with
    argsJson := (cjson.printUnformatted (fsArgs (tui.inputLine.take 255))).bytes }

/-- What is sent is as typed if the operation and the arguments are read right from
what is kept of the line. -/
theorem carried_iff {cjson : CJson} (trips : cjson.RoundTrips)
    (active : tui.sessions.activeIndex ≠ none) (opened : tui.ipcOpen = true)
    {line : FsLine} (typed : tui.inputLine = line.bytes) (env : KeyEnv) :
    line.Carried cjson tui.nextCorr (tui.submitTyped cjson env).2 ↔
      fsOp (line.bytes.take 255) = some line.word.op.name ∧
        fsArgs (line.bytes.take 255) = line.args := by
  let cleared : Tui := { tui with inputLine := [] }
  have still : cleared.ipcOpen = true := opened
  have sent := cmdFs_sent still (tui.inputLine.take 255)
  have read : cjson.parse (CString.of
      (cjson.printUnformatted (fsArgs (line.bytes.take 255))).bytes) =
        some (fsArgs (line.bytes.take 255)) := by
    rw [CString.of_bytes]
    exact trips.undoes _ (depth_fsArgs _)
  rw [submitTyped, submitMessage_fs active typed, FsLine.Carried, sent, typed]
  constructor
  · rintro ⟨args, same, parsed⟩
    cases op : fsOp (line.bytes.take 255) with
    | none =>
        rw [op] at same
        cases same
    | some op' =>
        rw [op] at same
        cases same
        exact ⟨rfl, Option.some.inj (read.symm.trans parsed)⟩
  · rintro ⟨op, args⟩
    refine ⟨_, ?_, read.trans (congrArg some args)⟩
    rw [op]
    rfl

end Tui

/-- A `/fs` line is sent as it is typed exactly if it fits into `cmd_buf[256]`, spaces
at its end left out. -/
theorem fs_carries_iff {cjson : CJson} (trips : cjson.RoundTrips) (tui : Tui)
    (active : tui.sessions.activeIndex ≠ none) (opened : tui.ipcOpen = true)
    (line : FsLine) (typed : tui.inputLine = line.bytes)
    (sized : line.bytes.length < inputMax) (env : KeyEnv) :
    line.Carried cjson tui.nextCorr (tui.submitTyped cjson env).2 ↔ line.needed ≤ 255 := by
  rw [Tui.carried_iff trips active opened typed env]
  constructor
  · rintro ⟨op, args⟩
    exact (line.fsArgs_take_iff 255 sized op).1 args
  · intro fits
    have op : fsOp (line.bytes.take 255) = some line.word.op.name := by
      rw [line.fsOp_take]
      rw [FsLine.needed] at fits
      omega
    exact ⟨op, (line.fsArgs_take_iff 255 sized op).2 fits⟩

def FsLine.write (text : CString) (start : text.bytes.head? ≠ some space) : FsLine where
  word := .write
  before := 0
  between := 0
  path := ascii "f"
  behind := 1
  text := text.bytes
  pathFilled := by decide
  pathWord := by decide
  pathNulFree := by decide
  textStart := start
  textNulFree := text.nulFree
  separated _ := Nat.one_pos
  textless := nofun

def FsLine.writeHi : FsLine := .write (CString.of (ascii "hi")) (by decide)

theorem fs_carries_writeHi :
    FsLine.writeHi.Carried CJson.compact 1
      ((Tui.submitTyped CJson.compact { Tui.fresh with inputLine := FsLine.writeHi.bytes }
        ⟨[], true, -1, []⟩).2) :=
  (fs_carries_iff CJson.compact_roundTrips
    { Tui.fresh with inputLine := FsLine.writeHi.bytes } (by decide) rfl
    FsLine.writeHi rfl (by decide) _).2 (by decide)

/-- 300 bytes to write, of which 243 are in `cmd_buf`. -/
def FsLine.writeLong : FsLine :=
  .write ⟨List.replicate 300 120, fun member => absurd (List.eq_of_mem_replicate member) nofun⟩
    (by decide)

theorem writeLong_cut :
    FsLine.writeLong.bytes.length < inputMax ∧
      ¬ FsLine.writeLong.Carried CJson.compact 1
        ((Tui.submitTyped CJson.compact
          { Tui.fresh with inputLine := FsLine.writeLong.bytes } ⟨[], true, -1, []⟩).2) := by
  have text : FsLine.writeLong.text.length = 300 := List.length_replicate
  have sized : FsLine.writeLong.bytes.length = 312 := by
    rw [FsLine.length_bytes, text]
    rfl
  have needed : FsLine.writeLong.needed = 312 := by
    rw [FsLine.needed, if_neg (List.ne_nil_of_length_pos (by omega)), text]
    rfl
  refine ⟨sized ▸ (by decide), fun carried => ?_⟩
  let tui : Tui := { Tui.fresh with inputLine := FsLine.writeLong.bytes }
  have opened : tui.ipcOpen = true := rfl
  have typed : tui.inputLine = FsLine.writeLong.bytes := rfl
  obtain ⟨op, args⟩ :=
    (Tui.carried_iff CJson.compact_roundTrips (by decide) opened typed _).1 carried
  have fits := (FsLine.writeLong.fsArgs_take_iff 255 (sized ▸ (by decide)) op).1 args
  exact absurd (needed ▸ fits) (by decide)

end FreeCli

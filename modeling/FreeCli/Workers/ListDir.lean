import FreeCli.Library.Lists
import FreeCli.Backend.Conversation
import FreeCli.Ui.VendoredJson
import FreeCli.Workers.FsWorker
import FreeCli.Workers.ResolveExact

namespace FreeCli

open Words FileTree JsonText JsonPrint JsonItem

/-! `list_dir` with the listing it replies. -/

/-- What the C library does while a directory is listed. -/
structure ListIo where
  /-- `opendir` fails -/
  fails : Bool
  /-- what `readdir` returns, in its order -/
  names : List Name
  deriving DecidableEq, Repr

/-- What `stat` tells of a path: the size of a file, none for a directory. -/
def statSize (tree : Tree) (path : Bytes) : Option (Option Nat) :=
  match walk tree true path with
  | .found loc =>
      match tree.node loc with
      | some .dir => some none
      | some (.file _ data) => some (some data.length)
      | _ => none
  | _ => none

section ListDir

-- `ofSize` is the conversion of `st_size` to `double`.
variable {lib : Doubles} (ofSize : Nat → lib.Double) (heap : Allocator)

/-- `snprintf(entry_path, sizeof(entry_path), "%s/%s", abs, d_name)` -/
def entryPath (abs : Bytes) (name : Name) : Bytes := (abs ++ slash :: name).take (fsPathMax - 1)

/-- The object of one entry, if `stat` succeeds -/
def entryItem (tree : Tree) (abs : Bytes) (name : Name) : Option (JsonItem lib) :=
  (statSize tree (entryPath abs name)).map fun size =>
    createObject
      ([("name", createString name),
          ("type", createString (ascii (if size = none then "dir" else "file")))] ++
        (size.map fun bytes =>
          ("size", number (lib.toInt (ofSize bytes)) (ofSize bytes))).toList)

def listing (tree : Tree) (abs : Bytes) (names : List Name) : JsonItem lib :=
  createObject [("entries", .array ((names.filter fun name => name ≠ dot ∧ name ≠ dotdot).filterMap
    (entryItem ofSize tree abs)))]

/-- Without memory for it the reply is empty. -/
def listingText (tree : Tree) (abs : Bytes) (names : List Name) : Bytes :=
  (((print heap (listing ofSize tree abs names) false).toOption).map terminated).getD []

/-- The success flag and the text of the reply.  The path is resolved in `tree`, and
the directory is read in `later`. -/
def opListDir (priv : FsPriv) (tree later : Tree) (reqPath : Option Bytes) (io : ListIo) :
    Bool × Bytes :=
  match fsResolve priv tree (reqPath.getD []) false with
  | none => (false, ascii "list_dir: path outside sandbox or not found")
  | some abs =>
      if opendirOk later abs ∧ io.fails = false then
        (true, listingText ofSize heap later abs io.names)
      else
        (false, ascii "list_dir: cannot open directory")

def ListIo.env (later : Tree) (abs : Bytes) (io : ListIo) (path : Option Bytes) : WorkerEnv where
  path
  content := []
  fails := io.fails
  timeout := false
  text := listingText ofSize heap later abs io.names

variable {priv : FsPriv} {tree later : Tree} {path : Option Bytes} {io : ListIo}

theorem WorkerThread.resolve_listDir (thread : WorkerThread) (abs : Bytes)
    (unresolved : fsResolve priv tree (path.getD []) false = none) :
    thread.resolve priv .listDir (io.env ofSize heap later abs path) tree =
      thread.goto (.reply (opListDir ofSize heap priv tree later path io).1
        (opListDir ofSize heap priv tree later path io).2) := by
  simp only [resolve, WorkerEnv.pathOf, ListIo.env, opListDir, unresolved, reduceCtorEq,
    decide_false]
  rfl

theorem WorkerThread.look_listDir (thread : WorkerThread)
    (resolved : fsResolve priv tree (path.getD []) false = some thread.abs) :
    thread.look .listDir (io.env ofSize heap later thread.abs path) later =
      thread.goto (.reply (opListDir ofSize heap priv tree later path io).1
        (opListDir ofSize heap priv tree later path io).2) := by
  let env := io.env ofSize heap later thread.abs path
  simp only [look, opListDir, resolved]
  by_cases opens : opendirOk later thread.abs = true ∧ io.fails = false
  · have same : opendirOk later thread.abs = true ∧ env.fails = false := opens
    rw [if_pos same, if_pos opens]
    rfl
  · have same : ¬(opendirOk later thread.abs = true ∧ env.fails = false) := opens
    rw [if_neg same, if_neg opens]
    rfl

/-! ### What a listing says -/

/-- `valuedouble`, where `cJSON_IsNumber` holds -/
def valuedouble : Option (JsonItem lib) → Option lib.Double
  | some (.number _ value) => some value
  | _ => none

def entryOf (item : JsonItem lib) : Option Bytes × Option Bytes × Option lib.Double :=
  (valuestring (getObjectItem "name" (some item)), valuestring (getObjectItem "type" (some item)),
    valuedouble (getObjectItem "size" (some item)))

def entriesOf (root : JsonItem lib) : List (Option Bytes × Option Bytes × Option lib.Double) :=
  (elements (getObjectItem "entries" (some root))).map entryOf

/-- The names in a directory, as POSIX has them: two of its own and each entry once. -/
structure Reads (tree : Tree) (dir : Loc) (names : List Name) : Prop where
  once : names.Nodup
  entries : ∀ name, name ∈ names ↔
    name = dot ∨ name = dotdot ∨ (tree.node (dir ++ [name])).isSome
  proper : ∀ name, (tree.node (dir ++ [name])).isSome → Proper name ∧ 0 ∉ name

/-- The entry is the node, or a link that leads to it from `abs`. -/
inductive Leads (tree : Tree) (abs : Bytes) (dir : Loc) (name : Name) (node : Node) : Prop where
  | here (at_ : tree.node (dir ++ [name]) = some node) (noLink : ¬node.IsLink)
  | link (target : Bytes) (far : Loc) (at_ : tree.node (dir ++ [name]) = some (.link target))
      (walked : walk tree true (abs ++ slash :: name) = .found far)
      (there : tree.node far = some node) (noLink : ¬node.IsLink)

/-- `"%1.15g"` shows a whole number below this with all its digits. -/
def shownBound : Nat := 10 ^ 15

/-- What the C standard says of the sizes. -/
structure Sizes (ofSize : Nat → lib.Double) : Prop where
  finite : ∀ bytes, lib.finite (ofSize bytes) = true
  equal : ∀ bytes n, lib.equal (ofSize bytes) (lib.ofInt n) = true → ofSize bytes = lib.ofInt n
  same : ∀ bytes, lib.compareDouble (ofSize bytes) (ofSize bytes) = true
  digits : ∀ bytes < shownBound, lib.strtod (lib.digits15 (ofSize bytes)) =
    some (ofSize bytes, (lib.digits15 (ofSize bytes)).length)

inductive Shows : Node → Option Bytes × Option lib.Double → Prop where
  | dir : Shows .dir (some (ascii "dir"), none)
  | file {inode : Nat} {data : Bytes} {size : Option lib.Double}
      (shown : data.length < shownBound → size = some (ofSize data.length)) :
      Shows (.file inode data) (some (ascii "file"), size)

/-- Each entry that leads somewhere is listed once, as what it leads to, and nothing else is. -/
structure ListsDir (tree : Tree) (abs : Bytes) (dir : Loc)
    (entries : List (Option Bytes × Option Bytes × Option lib.Double)) : Prop where
  once : (entries.map Prod.fst).Nodup
  all : ∀ name node, Leads tree abs dir name node → some name ∈ entries.map Prod.fst
  only : ∀ entry ∈ entries, ∃ name node, entry.1 = some name ∧ Leads tree abs dir name node ∧
    Shows ofSize node entry.2

/-! ### What `stat` tells -/

theorem opendirOk_eq_true {abs : Bytes} (opens : opendirOk tree abs = true) :
    ∃ dir, walk tree true abs = .found dir ∧ tree.node dir = some .dir := by
  rw [opendirOk] at opens
  split at opens
  next dir walked => exact ⟨dir, walked, of_decide_eq_true opens⟩
  next => contradiction

def fileSize : Node → Option Nat
  | .file _ data => some data.length
  | _ => none

theorem statSize_found {far : Loc} {node : Node} {abs : Bytes}
    (walked : walk tree true abs = .found far) (there : tree.node far = some node)
    (noLink : ¬node.IsLink) : statSize tree abs = some (fileSize node) := by
  rw [statSize, walked]
  simp only [there]
  cases node with
  | dir => rfl
  | file inode data => rfl
  | link target => exact absurd ⟨target, rfl⟩ noLink

theorem statSize_eq_some {abs : Bytes} {size : Option Nat} (found : statSize tree abs = some size) :
    ∃ far node, walk tree true abs = .found far ∧ tree.node far = some node ∧ ¬node.IsLink ∧
      size = fileSize node := by
  rw [statSize] at found
  split at found
  next far walked =>
    split at found
    next there =>
      refine ⟨far, .dir, walked, there, ?_, (Option.some.inj found).symm⟩
      rintro ⟨target, link⟩
      cases link
    next inode data there =>
      refine ⟨far, .file inode data, walked, there, ?_, (Option.some.inj found).symm⟩
      rintro ⟨target, link⟩
      cases link
    next => contradiction
  next => contradiction

theorem leads_iff {abs : Bytes} {dir : Loc} {name : Name} {node : Node}
    (opened : walk tree true abs = .found dir) (entry : (tree.node (dir ++ [name])).isSome)
    (own : Proper name) :
    (∃ far, walk tree true (abs ++ slash :: name) = .found far ∧ tree.node far = some node ∧
      ¬node.IsLink) ↔ Leads tree abs dir name node := by
  constructor
  · rintro ⟨far, walked, there, noLink⟩
    obtain ⟨other, at_⟩ := Option.isSome_iff_exists.1 entry
    by_cases link : other.IsLink
    · obtain ⟨target, rfl⟩ := link
      exact .link target far at_ walked there noLink
    · rw [walk_below own at_ link opened] at walked
      cases walked
      exact .here there noLink
  · intro leads
    cases leads with
    | here at_ noLink => exact ⟨_, walk_below own at_ noLink opened, at_, noLink⟩
    | link target far at_ walked there noLink => exact ⟨far, walked, there, noLink⟩

/-! ### The reply as it is read -/

theorem reread_createString (text : Bytes) :
    (createString text : JsonItem lib).reread = createString text := rfl

theorem entryOf_item {abs : Bytes} {name : Name} {item : JsonItem lib} (plain : 0 ∉ name)
    (made : entryItem ofSize tree abs name = some item) :
    ∃ size, statSize tree (entryPath abs name) = some size ∧
      entryOf item.reread = (some name, some (ascii (if size = none then "dir" else "file")),
        valuedouble (size.map fun bytes =>
          (number (lib.toInt (ofSize bytes)) (ofSize bytes) : JsonItem lib).reread)) := by
  obtain ⟨size, told, rfl⟩ := Option.map_eq_some_iff.1 made
  refine ⟨size, told, ?_⟩
  have text : terminated name = name := terminated_of_nulFree plain
  rw [reread_createObject]
  cases size with
  | none =>
      simp (disch := decide) [entryOf, getObjectItem_cons, reread_createString, text]
      rfl
  | some bytes =>
      simp (disch := decide) [entryOf, getObjectItem_cons, reread_createString, text]
      decide

theorem entriesOf_listing (tree : Tree) (abs : Bytes) (names : List Name) :
    entriesOf (listing ofSize tree abs names).reread =
      ((names.filter fun name => name ≠ dot ∧ name ≠ dotdot).filterMap
        (entryItem ofSize tree abs)).map fun item => entryOf item.reread := by
  rw [entriesOf, listing, reread_createObject]
  simp only [List.map_cons, List.map_nil, reread, rereadElements_map]
  rw [getObjectItem_cons _ _ _ _ (by decide), if_pos rfl, elements_array, List.map_map]
  rfl

theorem valuedouble_size (laws : lib.Lawful) (sizes : Sizes ofSize) {bytes : Nat}
    (small : bytes < shownBound) :
    valuedouble (some (number (lib.toInt (ofSize bytes)) (ofSize bytes) : JsonItem lib).reread) =
      some (ofSize bytes) := by
  have read : ∃ used, lib.strtod (lib.numberText (lib.toInt (ofSize bytes)) (ofSize bytes)) =
      some (ofSize bytes, used) := by
    rw [Doubles.numberText, sizes.finite, Bool.not_true, if_neg Bool.false_ne_true]
    split
    next int =>
      rw [laws.strtod_int, ← sizes.equal bytes _ int]
      exact ⟨_, rfl⟩
    next =>
      rw [sizes.digits bytes small]
      simp only [sizes.same, if_true]
      exact ⟨_, sizes.digits bytes small⟩
  obtain ⟨used, read⟩ := read
  rw [reread, Doubles.reread, if_pos (sizes.finite bytes), read]
  rfl

theorem shows_node (laws : lib.Lawful) (sizes : Sizes ofSize) {node : Node}
    (noLink : ¬node.IsLink) :
    Shows ofSize node (some (ascii (if fileSize node = none then "dir" else "file")),
      valuedouble ((fileSize node).map fun bytes =>
        (number (lib.toInt (ofSize bytes)) (ofSize bytes) : JsonItem lib).reread)) := by
  cases node with
  | dir => exact .dir
  | file inode data => exact .file fun small => valuedouble_size ofSize laws sizes small
  | link target => exact absurd ⟨target, rfl⟩ noLink

theorem listing_lists (laws : lib.Lawful) (sizes : Sizes ofSize) {abs : Bytes} {dir : Loc}
    {names : List Name} (opened : walk tree true abs = .found dir) (reads : Reads tree dir names)
    (short : ∀ name ∈ names, abs.length + 1 + name.length < fsPathMax) :
    ListsDir ofSize tree abs dir (entriesOf (listing ofSize tree abs names).reread) := by
  have path {name : Name} (member : name ∈ names) :
      entryPath abs name = abs ++ slash :: name := by
    have fits := short name member
    apply List.take_of_length_le
    rw [List.length_append, List.length_cons]
    omega
  have entry {name : Name} (member : name ∈ names) (other : name ≠ dot ∧ name ≠ dotdot) :
      (tree.node (dir ++ [name])).isSome := by
    rcases (reads.entries name).1 member with rfl | rfl | there
    · exact absurd rfl other.1
    · exact absurd rfl other.2
    · exact there
  have made {name : Name} (inside : name ∈ names.filter fun name => name ≠ dot ∧ name ≠ dotdot) :
      name ∈ names ∧ name ≠ dot ∧ name ≠ dotdot := by
    obtain ⟨member, other⟩ := List.mem_filter.1 inside
    exact ⟨member, of_decide_eq_true other⟩
  have named : ∀ name ∈ names.filter fun name => name ≠ dot ∧ name ≠ dotdot, ∀ item,
      entryItem ofSize tree abs name = some item →
        (entryOf item.reread).1 = some name := by
    intro name inside item is_
    obtain ⟨member, other⟩ := made inside
    obtain ⟨_, -, read⟩ := entryOf_item ofSize (reads.proper name (entry member other)).2 is_
    rw [read]
  have firsts : (entriesOf (listing ofSize tree abs names).reread).map Prod.fst =
      ((names.filter fun name => name ≠ dot ∧ name ≠ dotdot).filter fun name =>
        (entryItem ofSize tree abs name).isSome).map some := by
    rw [entriesOf_listing, List.map_map]
    exact Lists.map_filterMap_of_some (fun item : JsonItem lib => (entryOf item.reread).1) some named
  refine ⟨?_, fun name node leads => ?_, fun listed inside => ?_⟩
  · rw [firsts]
    exact (reads.once.filter _ |>.filter _).map (Option.some_injective _)
  · have there : (tree.node (dir ++ [name])).isSome := by
      cases leads with
      | here at_ _ => rw [at_]; rfl
      | link target far at_ => rw [at_]; rfl
    obtain ⟨own, nulFree⟩ := reads.proper name there
    have member : name ∈ names := (reads.entries name).2 (.inr (.inr there))
    obtain ⟨far, walked, node_, noLink⟩ := (leads_iff opened there own).2 leads
    have told : statSize tree (entryPath abs name) = some (fileSize node) := by
      rw [path member]
      exact statSize_found walked node_ noLink
    rw [firsts]
    apply List.mem_map_of_mem
    refine List.mem_filter.2 ⟨List.mem_filter.2 ⟨member, ?_⟩, ?_⟩
    · exact decide_eq_true ⟨own.notDot, own.notDotdot⟩
    · rw [entryItem, told]
      rfl
  · rw [entriesOf_listing] at inside
    obtain ⟨item, among, rfl⟩ := List.mem_map.1 inside
    obtain ⟨name, kept, is_⟩ := List.mem_filterMap.1 among
    obtain ⟨member, other⟩ := made kept
    have there := entry member other
    obtain ⟨own, nulFree⟩ := reads.proper name there
    obtain ⟨size, told, read⟩ := entryOf_item ofSize nulFree is_
    rw [path member] at told
    obtain ⟨far, node, walked, node_, noLink, rfl⟩ := statSize_eq_some told
    refine ⟨name, node, by rw [read],
      (leads_iff opened there own).1 ⟨far, walked, node_, noLink⟩, ?_⟩
    rw [read]
    exact shows_node ofSize laws sizes noLink

/-- `list_dir` lists a directory as it is: what it replies parses back to each entry that
leads somewhere, once, with the type and the size of what it leads to. -/
theorem list_dir_lists (laws : lib.Lawful) (sizes : Sizes ofSize) {abs text : Bytes}
    (resolved : fsResolve priv tree (path.getD []) false = some abs)
    (reads : ∀ dir, walk later true abs = .found dir → Reads later dir io.names)
    (short : ∀ name ∈ io.names, abs.length + 1 + name.length < fsPathMax)
    (replied : opListDir ofSize heap priv tree later path io = (true, text))
    (memory : text ≠ []) :
    ∃ root dir, JsonParse.parse lib (CString.of text) = .ok root ∧
      walk later true abs = .found dir ∧ later.node dir = some .dir ∧
      ListsDir ofSize later abs dir (entriesOf root) := by
  simp only [opListDir, resolved] at replied
  split at replied
  next opens =>
    obtain ⟨dir, opened, there⟩ := opendirOk_eq_true opens.1
    refine ⟨(listing ofSize later abs io.names).reread, dir, ?_, opened, there,
      listing_lists ofSize laws sizes opened (reads dir opened) short⟩
    obtain ⟨-, rfl⟩ := Prod.mk.inj replied
    rw [listingText] at memory ⊢
    cases ran : print heap (listing ofSize later abs io.names) false with
    | error stop =>
        rw [ran] at memory
        exact absurd rfl memory
    | ok block => exact Providers.parse_terminated laws ran
  next => cases replied

end ListDir

theorem fileSandbox_reads (data : Bytes) :
    Reads (System.fileSandbox data) [ascii "s"] [dot, dotdot, ascii "a"] := by
  have only (name : Name)
      (there : ((System.fileSandbox data).node ([ascii "s"] ++ [name])).isSome) :
      name = ascii "a" := by
    have among := AList.lookup_isSome.1 there
    rw [AList.mem_keys] at among
    have keys : (System.fileSandbox data).nodes.keys =
      [[ascii "s", ascii "a"], [ascii "s"], []] := rfl
    rw [keys] at among
    simpa using among
  refine ⟨by decide, fun name => ⟨fun among => ?_, ?_⟩, fun name there => ?_⟩
  · simp only [List.mem_cons, List.not_mem_nil, or_false] at among
    rcases among with rfl | rfl | rfl
    · exact .inl rfl
    · exact .inr (.inl rfl)
    · exact .inr (.inr rfl)
  · rintro (rfl | rfl | there)
    · decide
    · decide
    · rw [only name there]
      decide
  · rw [only name there]
    exact ⟨⟨by decide, by decide, by decide, by decide⟩, by decide⟩

def dotsAndA : ListIo := ⟨false, [dot, dotdot, ascii "a"]⟩

def intSize (bytes : Nat) : Doubles.integers.Double := Int32.ofNat bytes

theorem intSize_sizes : Sizes intSize where
  finite _ := rfl
  equal bytes n same := of_decide_eq_true (p := Int32.ofNat bytes = n) same
  same bytes := decide_eq_true (p := Int32.ofNat bytes = Int32.ofNat bytes) rfl
  digits bytes _ := Doubles.integers_lawful.strtod_int (Int32.ofNat bytes)

theorem list_dir_lists_file :
    let tree := System.fileSandbox (ascii "hi")
    let reply := (opListDir intSize ⟨fun _ => true, fun _ _ => 0⟩ System.sandboxPriv tree tree none
      dotsAndA).2
    ∃ root dir, JsonParse.parse Doubles.integers (CString.of reply) = .ok root ∧
      walk tree true (ascii "/s") = .found dir ∧ tree.node dir = some .dir ∧
      ListsDir intSize tree (ascii "/s") dir (entriesOf root) := by
  intro tree reply
  have succeeded {result : Bool × Bytes} (success : result.1 = true) :
      result = (true, result.2) := Prod.ext success rfl
  have memory : reply ≠ [] := by
    decide +kernel
  have reads : ∀ dir, walk tree true (ascii "/s") = .found dir → Reads tree dir dotsAndA.names := by
    intro dir walked
    obtain rfl := Walk.found.inj ((show walk tree true (ascii "/s") = .found [ascii "s"] from
      rfl).symm.trans walked)
    exact fileSandbox_reads (ascii "hi")
  exact list_dir_lists intSize _ Doubles.integers_lawful intSize_sizes rfl reads (by decide)
    (succeeded (by decide +kernel)) memory

end FreeCli

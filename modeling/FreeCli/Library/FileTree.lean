import Mathlib.Data.List.AList
import FreeCli.Library.Words

namespace FileTree

open Words

/-! A file tree of directories, regular files and symbolic links, and the path
walk that POSIX prescribes for it. -/

abbrev Name := Bytes

/-- The names from the root of the tree down to a node. -/
abbrev Loc := List Name

inductive Node where
  | dir
  | file (inode : Nat) (data : Bytes)
  | link (target : Bytes)
  deriving DecidableEq, Repr

def Node.IsLink (node : Node) : Prop := ∃ target, node = .link target

/-- Nodes hang in directories, and inode numbers are not used twice. -/
structure Tree where
  nodes : AList fun _ : Loc => Node
  nextInode : Nat
  root : nodes.lookup [] = some .dir
  parents : ∀ loc name, loc ++ [name] ∈ nodes → nodes.lookup loc = some .dir
  fresh : ∀ loc inode data, nodes.lookup loc = some (.file inode data) →
    inode < nextInode

def Tree.node (tree : Tree) (loc : Loc) : Option Node := tree.nodes.lookup loc

def slash : UInt8 := 47

def dot : Name := [46]

def dotdot : Name := [46, 46]

def components (path : Bytes) : List Name := path.splitOn slash

def render (loc : Loc) : Bytes :=
  if loc = [] then [slash] else loc.flatMap fun name => slash :: name

structure Proper (name : Name) : Prop where
  nonempty : name ≠ []
  notDot : name ≠ dot
  notDotdot : name ≠ dotdot
  noSlash : slash ∉ name

inductive Walk where
  | found (loc : Loc)
  /-- everything but the last name is there -/
  | absent (parent : Loc) (name : Name)
  | failed
  deriving DecidableEq, Repr

/-- Where the target of a link in the directory `current` starts. -/
def linkBase (current : Loc) (target : Bytes) : Loc :=
  if target.head? = some slash then [] else current

/-- Walks the names from the directory `current`; `jump` goes on at a link. -/
def enter (tree : Tree) (follow : Bool) (jump : Loc → List Name → Walk) :
    Loc → List Name → Walk
  | current, [] => .found current
  | current, name :: rest =>
      if tree.node current = some .dir then
        if name = [] ∨ name = dot then
          enter tree follow jump current rest
        else if name = dotdot then
          enter tree follow jump current.dropLast rest
        else
          match tree.node (current ++ [name]) with
          | none => if rest = [] then .absent current name else .failed
          | some (.link target) =>
              if rest = [] ∧ follow = false then
                .found (current ++ [name])
              else
                jump (linkBase current target) (components target ++ rest)
          | some _ => enter tree follow jump (current ++ [name]) rest
      else
        .failed

/-- The walk with so many links left to follow. -/
def walkFrom (tree : Tree) (follow : Bool) : Nat → Loc → List Name → Walk
  | 0 => enter tree follow fun _ _ => .failed
  | links + 1 => enter tree follow (walkFrom tree follow links)

def maxLinks : Nat := 40

/-- The walk of an absolute path; `follow` says whether a link in the last place
is followed. -/
def walk (tree : Tree) (follow : Bool) (path : Bytes) : Walk :=
  if path.head? = some slash then
    walkFrom tree follow maxLinks [] (components path)
  else
    .failed

def pathMax : Nat := 4096

def realpath (tree : Tree) (path : Bytes) : Option Bytes :=
  match walk tree true path with
  | .found loc => if (render loc).length < pathMax then some (render loc) else none
  | _ => none

def statOk (tree : Tree) (path : Bytes) : Bool :=
  match walk tree true path with
  | .found _ => true
  | _ => false

namespace Tree

variable (tree : Tree)

def setFile (loc : Loc) (inode : Nat) (data : Bytes)
    (file : ∃ before, tree.node loc = some (.file inode before)) : Tree where
  nodes := tree.nodes.insert loc (.file inode data)
  nextInode := tree.nextInode
  root := by
    obtain ⟨before, found⟩ := file
    have different : [] ≠ loc := by
      rintro rfl
      rw [node, tree.root] at found
      cases found
    rw [AList.lookup_insert_ne different, tree.root]
  parents child name member := by
    obtain ⟨before, found⟩ := file
    have there : child ++ [name] ∈ tree.nodes := by
      rcases (AList.mem_insert _).1 member with same | member
      · rw [same]
        exact AList.lookup_isSome.1 (by rw [← node, found]; rfl)
      · exact member
    have parent := tree.parents child name there
    have different : child ≠ loc := by
      rintro rfl
      rw [node, parent] at found
      cases found
    rw [AList.lookup_insert_ne different, parent]
  fresh other number after found := by
    obtain ⟨before, old⟩ := file
    by_cases same : other = loc
    · subst same
      rw [AList.lookup_insert] at found
      cases found
      exact tree.fresh _ _ _ old
    · rw [AList.lookup_insert_ne same] at found
      exact tree.fresh _ _ _ found

theorem root_insert {parent : Loc} {name : Name} {new : Node} :
    (tree.nodes.insert (parent ++ [name]) new).lookup [] = some .dir := by
  have different : [] ≠ parent ++ [name] := by simp
  rw [AList.lookup_insert_ne different, tree.root]

theorem parents_insert {parent : Loc} {name : Name} {new : Node}
    (dir : tree.node parent = some .dir) (absent : tree.node (parent ++ [name]) = none)
    {child : Loc} {other : Name}
    (member : child ++ [other] ∈ tree.nodes.insert (parent ++ [name]) new) :
    (tree.nodes.insert (parent ++ [name]) new).lookup child = some .dir := by
  have different : child ≠ parent ++ [name] := by
    rintro rfl
    rcases (AList.mem_insert _).1 member with same | member
    · have lengths := congrArg List.length same
      simp at lengths
    · have parent := tree.parents _ _ member
      rw [← node, absent] at parent
      contradiction
  rw [AList.lookup_insert_ne different]
  rcases (AList.mem_insert _).1 member with same | member
  · rw [(List.append_inj' same rfl).1]
    exact dir
  · exact tree.parents _ _ member

def newFile (parent : Loc) (name : Name) (dir : tree.node parent = some .dir)
    (absent : tree.node (parent ++ [name]) = none) : Tree where
  nodes := tree.nodes.insert (parent ++ [name]) (.file tree.nextInode [])
  nextInode := tree.nextInode + 1
  root := tree.root_insert
  parents _ _ := tree.parents_insert dir absent
  fresh other number data found := by
    by_cases same : other = parent ++ [name]
    · subst same
      rw [AList.lookup_insert] at found
      cases found
      exact Nat.lt_succ_self _
    · rw [AList.lookup_insert_ne same] at found
      exact Nat.lt_succ_of_lt (tree.fresh _ _ _ found)

def bare : Tree where
  nodes := (∅ : AList fun _ : Loc => Node).insert [] .dir
  nextInode := 0
  root := AList.lookup_insert _
  parents loc name member := by
    rcases (AList.mem_insert _).1 member with same | member
    · simp at same
    · exact absurd member (AList.notMem_empty _)
  fresh loc inode data found := by
    by_cases same : loc = []
    · subst same
      rw [AList.lookup_insert] at found
      cases found
    · rw [AList.lookup_insert_ne same, AList.lookup_empty] at found
      contradiction

/-- `mkdir` or `symlink` for a name that is free. -/
def place (parent : Loc) (name : Name) (node : Node)
    (noFile : ∀ inode data, node ≠ .file inode data)
    (dir : tree.node parent = some .dir)
    (absent : tree.node (parent ++ [name]) = none) : Tree where
  nodes := tree.nodes.insert (parent ++ [name]) node
  nextInode := tree.nextInode
  root := tree.root_insert
  parents _ _ := tree.parents_insert dir absent
  fresh other number data found := by
    by_cases same : other = parent ++ [name]
    · subst same
      rw [AList.lookup_insert] at found
      exact absurd (Option.some.inj found) (noFile number data)
    · rw [AList.lookup_insert_ne same] at found
      exact tree.fresh _ _ _ found

def Leaf (loc : Loc) : Prop := ∀ name, loc ++ [name] ∉ tree.nodes

def erase (loc : Loc) (inside : loc ≠ []) (leaf : tree.Leaf loc) : Tree where
  nodes := tree.nodes.erase loc
  nextInode := tree.nextInode
  root := by rw [AList.lookup_erase_ne inside.symm, tree.root]
  parents child name member := by
    obtain ⟨_, there⟩ := AList.mem_erase.1 member
    have different : child ≠ loc := by
      rintro rfl
      exact leaf name there
    rw [AList.lookup_erase_ne different]
    exact tree.parents _ _ there
  fresh other number data found := by
    by_cases same : other = loc
    · subst same
      rw [AList.lookup_erase] at found
      contradiction
    · rw [AList.lookup_erase_ne same] at found
      exact tree.fresh _ _ _ found

instance (loc : Loc) : Decidable (tree.Leaf loc) :=
  decidable_of_iff (∀ key ∈ tree.nodes.keys, key = [] ∨ key.dropLast ≠ loc) (by
    constructor
    · intro apart name member
      rcases apart _ (AList.mem_keys.1 member) with empty | differs
      · simp at empty
      · simp at differs
    · intro leaf key member
      rcases List.eq_nil_or_concat key with rfl | ⟨front, name, rfl⟩
      · exact .inl rfl
      · right
        rintro rfl
        apply leaf name
        simpa using AList.mem_keys.2 member)

@[simp] theorem node_nil : tree.node [] = some .dir := tree.root

theorem node_setFile {loc : Loc} {inode : Nat} {data : Bytes}
    (file : ∃ before, tree.node loc = some (.file inode before))
    (other : Loc) : (tree.setFile loc inode data file).node other =
      if other = loc then some (.file inode data) else tree.node other := by
  split
  next same =>
    subst same
    exact AList.lookup_insert _
  next differs => exact AList.lookup_insert_ne differs

theorem node_newFile {parent : Loc} {name : Name}
    (dir : tree.node parent = some .dir)
    (absent : tree.node (parent ++ [name]) = none) (other : Loc) :
    (tree.newFile parent name dir absent).node other =
      if other = parent ++ [name] then
        some (.file tree.nextInode [])
      else
        tree.node other := by
  split
  next same =>
    subst same
    exact AList.lookup_insert _
  next differs => exact AList.lookup_insert_ne differs

theorem node_erase {loc : Loc} (inside : loc ≠ []) (leaf : tree.Leaf loc)
    (other : Loc) : (tree.erase loc inside leaf).node other =
      if other = loc then none else tree.node other := by
  split
  next same =>
    subst same
    exact AList.lookup_erase _ _
  next differs => exact AList.lookup_erase_ne differs

/-- `fopen(path, "wb")`: the file it opens, truncated or new. -/
def fopenWb (path : Bytes) : Option (Loc × Nat × Tree) :=
  match walk tree true path with
  | .found loc =>
      match found : tree.node loc with
      | some (.file inode data) =>
          some (loc, inode, tree.setFile loc inode [] ⟨data, found⟩)
      | _ => none
  | .absent parent name =>
      if dir : tree.node parent = some .dir then
        if absent : tree.node (parent ++ [name]) = none then
          some (parent ++ [name], tree.nextInode,
            tree.newFile parent name dir absent)
        else
          none
      else
        none
  | .failed => none

/-- What a file holds after its stream was written and closed; a file that was
removed in the meantime is gone with its inode. -/
def fwrite (loc : Loc) (inode : Nat) (data : Bytes) : Tree :=
  match found : tree.node loc with
  | some (.file other before) =>
      if same : other = inode then
        tree.setFile loc inode data ⟨before, same ▸ found⟩
      else
        tree
  | _ => tree

/-- `remove(path)`: `unlink`, or `rmdir` for an empty directory. -/
def remove (path : Bytes) : Option (Loc × Tree) :=
  match walk tree false path with
  | .found loc =>
      if gone : loc ≠ [] ∧ tree.Leaf loc then
        some (loc, tree.erase loc gone.1 gone.2)
      else
        none
  | _ => none

end Tree

/-- Only `loc` is changed, and it does not become a link. -/
structure ChangesOnly (loc : Loc) (tree after : Tree) : Prop where
  others : ∀ other, other ≠ loc → after.node other = tree.node other
  noLink : ∀ target, after.node loc ≠ some (.link target)

theorem changesOnly_setFile {tree : Tree}
    (file : ∃ before, tree.node loc = some (.file inode before)) :
    ChangesOnly loc tree (tree.setFile loc inode data file) where
  others other differs := by rw [Tree.node_setFile, if_neg differs]
  noLink target link := by
    rw [Tree.node_setFile, if_pos rfl] at link
    cases link

theorem changesOnly_newFile {tree : Tree} (dir : tree.node parent = some .dir)
    (absent : tree.node (parent ++ [name]) = none) :
    ChangesOnly (parent ++ [name]) tree (tree.newFile parent name dir absent) where
  others other differs := by rw [Tree.node_newFile, if_neg differs]
  noLink target link := by
    rw [Tree.node_newFile, if_pos rfl] at link
    cases link

theorem changesOnly_erase {tree : Tree} (inside : loc ≠ []) (leaf : tree.Leaf loc) :
    ChangesOnly loc tree (tree.erase loc inside leaf) where
  others other differs := by rw [Tree.node_erase, if_neg differs]
  noLink target link := by
    rw [Tree.node_erase, if_pos rfl] at link
    cases link

/-- A file is truncated, or a new one takes a free name. -/
theorem fopenWb_cases {tree after : Tree}
    (opened : tree.fopenWb path = some (loc, inode, after)) :
    (walk tree true path = .found loc ∧
      ∃ file : ∃ before, tree.node loc = some (.file inode before),
        after = tree.setFile loc inode [] file) ∨
    ∃ parent name, walk tree true path = .absent parent name ∧ loc = parent ++ [name] ∧
      inode = tree.nextInode ∧ ∃ (dir : tree.node parent = some .dir)
        (absent : tree.node (parent ++ [name]) = none),
          after = tree.newFile parent name dir absent := by
  rw [Tree.fopenWb] at opened
  split at opened
  next there walked =>
    split at opened
    next number data found =>
      cases opened
      exact .inl ⟨walked, ⟨data, found⟩, rfl⟩
    next => contradiction
  next parent name walked =>
    split at opened
    next dir =>
      split at opened
      next absent =>
        cases opened
        exact .inr ⟨parent, name, walked, rfl, rfl, dir, absent, rfl⟩
      next => contradiction
    next => contradiction
  next => contradiction

theorem fopenWb_eq_some {tree after : Tree}
    (opened : tree.fopenWb path = some (loc, inode, after)) :
    ChangesOnly loc tree after ∧
      (walk tree true path = .found loc ∨
        ∃ parent name, walk tree true path = .absent parent name ∧
          loc = parent ++ [name]) := by
  rcases fopenWb_cases opened with ⟨walked, file, rfl⟩ |
    ⟨parent, name, walked, rfl, -, dir, absent, rfl⟩
  · exact ⟨changesOnly_setFile file, .inl walked⟩
  · exact ⟨changesOnly_newFile dir absent, .inr ⟨parent, name, walked, rfl⟩⟩

theorem Tree.fopenWb_found {tree : Tree} (walked : walk tree true path = .found loc)
    (file : tree.node loc = some (.file inode data)) :
    tree.fopenWb path = some (loc, inode, tree.setFile loc inode [] ⟨data, file⟩) := by
  rw [fopenWb]
  split
  next there found =>
    obtain rfl := Walk.found.inj (walked.symm.trans found)
    split
    next number before same =>
      obtain ⟨rfl, rfl⟩ := Node.file.inj (Option.some.inj (file.symm.trans same))
      rfl
    next other => exact absurd file (other inode data)
  next parent name absent =>
    rw [walked] at absent
    contradiction
  next failed =>
    rw [walked] at failed
    contradiction

theorem Tree.node_fwrite {tree : Tree} (file : tree.node loc = some (.file inode before))
    (data : Bytes) : (tree.fwrite loc inode data).node loc = some (.file inode data) := by
  rw [fwrite]
  split
  next number old same =>
    obtain ⟨rfl, rfl⟩ := Node.file.inj (Option.some.inj (file.symm.trans same))
    rw [dif_pos rfl, node_setFile, if_pos rfl]
  next other => exact absurd file (other inode before)

theorem fwrite_cases (tree : Tree) (loc : Loc) (inode : Nat) (data : Bytes) :
    tree.fwrite loc inode data = tree ∨
      ∃ file, tree.fwrite loc inode data = tree.setFile loc inode data file := by
  rw [Tree.fwrite]
  split
  next number before found =>
    split
    next same => exact .inr ⟨⟨before, same ▸ found⟩, rfl⟩
    next => exact .inl rfl
  next => exact .inl rfl

theorem fwrite_others (tree : Tree) (loc : Loc) (inode : Nat) (data : Bytes)
    {other : Loc} (differs : other ≠ loc) :
    (tree.fwrite loc inode data).node other = tree.node other := by
  rcases fwrite_cases tree loc inode data with same | ⟨file, written⟩
  · rw [same]
  · rw [written, (changesOnly_setFile file).others other differs]

theorem fwrite_noLink (tree : Tree) (loc : Loc) (inode : Nat) (data : Bytes)
    {target : Bytes}
    (link : (tree.fwrite loc inode data).node loc = some (.link target)) :
    tree.node loc = some (.link target) := by
  rcases fwrite_cases tree loc inode data with same | ⟨file, written⟩
  · rwa [same] at link
  · rw [written] at link
    exact absurd link ((changesOnly_setFile file).noLink target)

theorem remove_cases {tree after : Tree} (removed : tree.remove path = some (loc, after)) :
    walk tree false path = .found loc ∧ ∃ (inside : loc ≠ []) (leaf : tree.Leaf loc),
      after = tree.erase loc inside leaf := by
  rw [Tree.remove] at removed
  split at removed
  next there walked =>
    split at removed
    next gone =>
      cases removed
      exact ⟨walked, gone.1, gone.2, rfl⟩
    next => contradiction
  next => contradiction

theorem remove_eq_some {tree after : Tree}
    (removed : tree.remove path = some (loc, after)) :
    ChangesOnly loc tree after ∧ walk tree false path = .found loc := by
  obtain ⟨walked, inside, leaf, rfl⟩ := remove_cases removed
  exact ⟨changesOnly_erase inside leaf, walked⟩

/-! Directories. -/

theorem fopenWb_dir {tree after : Tree}
    (opened : tree.fopenWb path = some (loc, inode, after))
    (dir : tree.node other = some .dir) : after.node other = some .dir := by
  have differs : other ≠ loc := by
    rintro rfl
    rcases fopenWb_cases opened with ⟨-, ⟨before, file⟩, -⟩ |
      ⟨parent, name, -, rfl, -, -, absent, -⟩
    · rw [dir] at file
      cases file
    · rw [dir] at absent
      cases absent
  rw [(fopenWb_eq_some opened).1.others other differs, dir]

theorem fwrite_dir {tree : Tree} (dir : tree.node other = some .dir) :
    (tree.fwrite loc inode data).node other = some .dir := by
  rcases fwrite_cases tree loc inode data with same | ⟨⟨before, file⟩, written⟩
  · rw [same, dir]
  · have differs : other ≠ loc := by
      rintro rfl
      rw [dir] at file
      cases file
    rw [written, (changesOnly_setFile ⟨before, file⟩).others other differs, dir]

theorem remove_leaf {tree after : Tree} (removed : tree.remove path = some (loc, after)) :
    loc ≠ [] ∧ tree.Leaf loc := by
  obtain ⟨-, inside, leaf, -⟩ := remove_cases removed
  exact ⟨inside, leaf⟩

def RemovableDir (tree : Tree) (path : Bytes) : Prop :=
  ∃ loc, walk tree false path = .found loc ∧ loc ≠ [] ∧ tree.Leaf loc ∧
    tree.node loc = some .dir

theorem remove_dir {tree after : Tree} (removed : tree.remove path = some (loc, after))
    (kept : ¬RemovableDir tree path) (dir : tree.node other = some .dir) :
    after.node other = some .dir := by
  obtain ⟨change, walked⟩ := remove_eq_some removed
  by_cases same : other = loc
  · subst same
    obtain ⟨below, leaf⟩ := remove_leaf removed
    exact absurd ⟨other, walked, below, leaf, dir⟩ kept
  · rw [change.others other same, dir]

theorem RemovableDir.removed {tree : Tree} (removable : RemovableDir tree path) :
    ∃ loc after, tree.remove path = some (loc, after) ∧ tree.node loc = some .dir ∧
      after.node loc = none := by
  obtain ⟨loc, walked, below, leaf, dir⟩ := removable
  refine ⟨loc, tree.erase loc below leaf, ?_, dir, ?_⟩
  · rw [Tree.remove, walked]
    exact dif_pos ⟨below, leaf⟩
  · rw [Tree.node_erase, if_pos rfl]

end FileTree

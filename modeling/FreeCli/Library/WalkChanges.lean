import FreeCli.Library.PathWalk

namespace FileTree

open Words

/-! How the walk of a path changes with the tree. -/

/-- A walk cannot tell the nodes apart. -/
inductive Node.Like : Node → Node → Prop
  | dir : Node.Like .dir .dir
  | file (inode other : Nat) (data text : Bytes) :
      Node.Like (.file inode data) (.file other text)
  | link (target : Bytes) : Node.Like (.link target) (.link target)

theorem Node.Like.refl (node : Node) : node.Like node := by
  cases node with
  | dir => exact .dir
  | file inode data => exact .file inode inode data data
  | link target => exact .link target

/-- For a walk, everything in `small` is in `big`. -/
def Within (small big : Tree) : Prop :=
  ∀ loc node, small.node loc = some node → ∃ other, big.node loc = some other ∧ node.Like other

theorem Within.refl (tree : Tree) : Within tree tree :=
  fun _ node here => ⟨node, here, .refl node⟩

theorem Within.dir (within : Within small big) (dir : small.node loc = some .dir) :
    big.node loc = some .dir := by
  obtain ⟨other, there, like⟩ := within loc .dir dir
  cases like
  exact there

/-! ### One path in two trees -/

/-- How two walks go on at a name that both have reached. -/
inductive Related.Child (first second : Tree) (Rel : Walk → Walk → Prop) (current : Loc)
    (name : Name) : Prop
  /-- they cannot tell the trees apart -/
  | like (node other : Node) (here : first.node (current ++ [name]) = some node)
      (there : second.node (current ++ [name]) = some other) (like : node.Like other)
  | missing (here : first.node (current ++ [name]) = none)
      (any : ∀ other, Rel (.absent current name) other)
  | made (inode : Nat) (data : Bytes) (here : first.node (current ++ [name]) = none)
      (there : second.node (current ++ [name]) = some (.file inode data))
      (ends : Rel (.absent current name) (.found (current ++ [name])))
  | unmade (inode : Nat) (data : Bytes)
      (here : first.node (current ++ [name]) = some (.file inode data))
      (there : second.node (current ++ [name]) = none)
      (ends : Rel (.found (current ++ [name])) (.absent current name))

/-- `Rel` holds of the ends of two walks wherever the trees let them part. -/
structure Related (first second : Tree) (Rel : Walk → Walk → Prop) : Prop where
  found : ∀ loc, Rel (.found loc) (.found loc)
  failed : ∀ other, Rel .failed other
  dir : ∀ loc, first.node loc = some .dir → second.node loc = some .dir
  child : ∀ current name, first.node current = some .dir →
    Related.Child first second Rel current name

section Related

variable {first second : Tree} {Rel : Walk → Walk → Prop}
  {jump next : Loc → List Name → Walk}

theorem enter_related (related : Related first second Rel) (follow : Bool)
    (jumps : ∀ current names, Rel (jump current names) (next current names))
    (names : List Name) (current : Loc) :
    Rel (enter first follow jump current names) (enter second follow next current names) := by
  induction names generalizing current with
  | nil => exact related.found current
  | cons name rest ih =>
      rw [enter, enter]
      by_cases dir : first.node current = some .dir
      · rw [if_pos dir, if_pos (related.dir current dir)]
        split
        next => exact ih current
        next =>
          split
          next => exact ih current.dropLast
          next =>
            cases related.child current name dir with
            | like node other here there like =>
                rw [here, there]
                cases like with
                | dir => exact ih _
                | file => exact ih _
                | link target =>
                    simp only
                    split
                    next => exact related.found _
                    next => exact jumps _ _
            | missing here any =>
                rw [here]
                cases rest with
                | nil => exact any _
                | cons => exact related.failed _
            | made inode data here there ends =>
                rw [here, there]
                cases rest with
                | nil => exact ends
                | cons => exact related.failed _
            | unmade inode data here there ends =>
                rw [here, there]
                cases rest with
                | nil => exact ends
                | cons more rest =>
                    -- nothing is below a file
                    have ended : enter first follow jump (current ++ [name]) (more :: rest) =
                        .failed := by
                      rw [enter, if_neg (by simp [here])]
                    simp only [ended]
                    exact related.failed _
      · rw [if_neg dir]
        exact related.failed _

theorem walkFrom_related (related : Related first second Rel) (follow : Bool) (links : Nat)
    (names : List Name) (current : Loc) :
    Rel (walkFrom first follow links current names)
      (walkFrom second follow links current names) := by
  induction links generalizing names current with
  | zero => exact enter_related related follow (fun _ _ => related.failed _) names current
  | succ links ih =>
      exact enter_related related follow (fun current names => ih names current) names current

theorem walk_related (related : Related first second Rel) (follow : Bool) (path : Bytes) :
    Rel (walk first follow path) (walk second follow path) := by
  rw [walk, walk]
  split
  · exact walkFrom_related related follow _ _ _
  · exact related.failed _

end Related

theorem Within.related {small big : Tree} (within : Within small big) :
    Related small big fun one two => ∀ loc, one = .found loc → two = .found loc where
  found _ _ same := same
  failed _ _ same := by contradiction
  dir _ dir := within.dir dir
  child current name _ := by
    cases here : small.node (current ++ [name]) with
    | none => exact .missing here fun _ _ same => by contradiction
    | some node =>
        obtain ⟨other, there, like⟩ := within _ node here
        exact .like node other here there like

theorem walk_within {small big : Tree} (within : Within small big)
    (found : walk small follow path = .found loc) : walk big follow path = .found loc :=
  walk_related within.related follow path loc found

theorem statOk_iff {tree : Tree} :
    statOk tree path = true ↔ ∃ loc, walk tree true path = .found loc := by
  rw [statOk]
  cases walk tree true path with
  | found loc => simp
  | absent parent name => simp
  | failed => simp

theorem statOk_within {small big : Tree} (within : Within small big)
    (there : statOk small path = true) : statOk big path = true := by
  obtain ⟨loc, found⟩ := statOk_iff.1 there
  exact statOk_iff.2 ⟨loc, walk_within within found⟩

section Changes

variable {tree : Tree} {loc parent : Loc} {name : Name} {inode : Nat} {data : Bytes}

theorem within_setFile (file : ∃ before, tree.node loc = some (.file inode before)) :
    Within tree (tree.setFile loc inode data file) := by
  intro other node here
  rw [Tree.node_setFile]
  by_cases same : other = loc
  · obtain ⟨before, there⟩ := file
    subst same
    rw [if_pos rfl]
    obtain rfl := Option.some.inj (there.symm.trans here)
    exact ⟨_, rfl, .file ..⟩
  · rw [if_neg same]
    exact ⟨node, here, .refl node⟩

theorem setFile_within (file : ∃ before, tree.node loc = some (.file inode before)) :
    Within (tree.setFile loc inode data file) tree := by
  intro other node here
  rw [Tree.node_setFile] at here
  by_cases same : other = loc
  · obtain ⟨before, there⟩ := file
    subst same
    rw [if_pos rfl] at here
    obtain rfl := Option.some.inj here
    exact ⟨_, there, .file ..⟩
  · rw [if_neg same] at here
    exact ⟨node, here, .refl node⟩

theorem within_fwrite : Within tree (tree.fwrite loc inode data) := by
  rcases fwrite_cases tree loc inode data with same | ⟨file, written⟩
  · rw [same]
    exact .refl tree
  · rw [written]
    exact within_setFile file

theorem fwrite_within : Within (tree.fwrite loc inode data) tree := by
  rcases fwrite_cases tree loc inode data with same | ⟨file, written⟩
  · rw [same]
    exact .refl tree
  · rw [written]
    exact setFile_within file

theorem erase_within (below : loc ≠ []) (leaf : tree.Leaf loc) :
    Within (tree.erase loc below leaf) tree := by
  intro other node here
  rw [Tree.node_erase] at here
  split at here
  · contradiction
  · exact ⟨node, here, .refl node⟩

theorem newFile_other (dir : tree.node parent = some .dir)
    (absent : tree.node (parent ++ [name]) = none) (here : tree.node loc = some node) :
    (tree.newFile parent name dir absent).node loc = some node := by
  rw [Tree.node_newFile, if_neg]
  · exact here
  · rintro rfl
    rw [absent] at here
    contradiction

theorem within_newFile (dir : tree.node parent = some .dir)
    (absent : tree.node (parent ++ [name]) = none) :
    Within tree (tree.newFile parent name dir absent) :=
  fun _ node here => ⟨node, newFile_other dir absent here, .refl node⟩

end Changes

/-! ### A new file -/

section NewFile

variable {tree : Tree} {parent : Loc} {name : Name}

theorem newFile_related (dir : tree.node parent = some .dir)
    (absent : tree.node (parent ++ [name]) = none) :
    Related (tree.newFile parent name dir absent) tree fun one two =>
      ∀ loc, one = .found loc → two = .found loc ∨ two = .absent parent name where
  found _ _ same := .inl same
  failed _ _ same := by contradiction
  dir loc there := by
    rw [Tree.node_newFile] at there
    split at there
    · cases there
    · exact there
  child current child _ := by
    by_cases made : current ++ [child] = parent ++ [name]
    · obtain ⟨rfl, last⟩ := List.append_inj' made rfl
      obtain rfl := List.singleton_inj.1 last
      exact .unmade _ _ ((Tree.node_newFile ..).trans (if_pos rfl)) absent
        fun _ _ => .inr rfl
    · have same := Tree.node_newFile tree dir absent (current ++ [child])
      rw [if_neg made] at same
      cases at_ : tree.node (current ++ [child]) with
      | none => exact .missing (same.trans at_) fun _ _ ends => by contradiction
      | some node => exact .like node node (same.trans at_) at_ (.refl node)

theorem statOk_newFile (dir : tree.node parent = some .dir)
    (absent : tree.node (parent ++ [name]) = none)
    (there : statOk (tree.newFile parent name dir absent) path = true) :
    statOk tree path = true ∨ walk tree true path = .absent parent name := by
  obtain ⟨loc, found⟩ := statOk_iff.1 there
  rcases walk_related (newFile_related dir absent) true path loc found with before | before
  · exact .inl (statOk_iff.2 ⟨loc, before⟩)
  · exact .inr before

theorem made_related (dir : tree.node parent = some .dir)
    (absent : tree.node (parent ++ [name]) = none) :
    Related tree (tree.newFile parent name dir absent) fun one two =>
      one = .absent parent name → two = .found (parent ++ [name]) where
  found _ same := by contradiction
  failed _ same := by contradiction
  dir _ there := (within_newFile dir absent).dir there
  child current child _ := by
    cases at_ : tree.node (current ++ [child]) with
    | some node => exact .like node node at_ (newFile_other dir absent at_) (.refl node)
    | none =>
        by_cases made : current ++ [child] = parent ++ [name]
        · obtain ⟨rfl, last⟩ := List.append_inj' made rfl
          obtain rfl := List.singleton_inj.1 last
          exact .made _ _ absent ((Tree.node_newFile ..).trans (if_pos rfl)) fun _ => rfl
        · refine .missing at_ fun _ ends => absurd ?_ made
          obtain ⟨rfl, rfl⟩ := Walk.absent.inj ends
          rfl

theorem statOk_made (dir : tree.node parent = some .dir)
    (absent : tree.node (parent ++ [name]) = none)
    (missing : walk tree true path = .absent parent name) :
    statOk (tree.newFile parent name dir absent) path = true :=
  statOk_iff.2 ⟨parent ++ [name], walk_related (made_related dir absent) true path missing⟩

end NewFile

/-! ### The operations -/

section Operations

variable {tree after : Tree} {path other : Bytes} {loc : Loc} {inode : Nat}

theorem statOk_fopenWb (opened : tree.fopenWb path = some (loc, inode, after)) :
    statOk after path = true := by
  rcases fopenWb_cases opened with ⟨walked, file, rfl⟩ |
    ⟨parent, name, walked, rfl, _, dir, absent, rfl⟩
  · exact statOk_within (within_setFile file) (statOk_iff.2 ⟨loc, walked⟩)
  · exact statOk_made dir absent walked

theorem within_fopenWb (opened : tree.fopenWb path = some (loc, inode, after)) :
    Within tree after := by
  rcases fopenWb_cases opened with ⟨_, file, rfl⟩ | ⟨parent, name, _, rfl, _, dir, absent, rfl⟩
  · exact within_setFile file
  · exact within_newFile dir absent

/-- Opening one path brings another into being only if both lead to the same place. -/
theorem fopenWb_appears (opened : tree.fopenWb path = some (loc, inode, after))
    (there : statOk after other = true) :
    statOk tree other = true ∨ ∃ parent name, walk tree true path = .absent parent name ∧
      walk tree true other = .absent parent name := by
  rcases fopenWb_cases opened with ⟨_, file, rfl⟩ | ⟨parent, name, walked, rfl, _, dir, absent, rfl⟩
  · exact .inl (statOk_within (setFile_within file) there)
  · rcases statOk_newFile dir absent there with before | before
    · exact .inl before
    · exact .inr ⟨parent, name, walked, before⟩

theorem remove_within (removed : tree.remove path = some (loc, after)) : Within after tree := by
  obtain ⟨-, inside, leaf, rfl⟩ := remove_cases removed
  exact erase_within inside leaf

end Operations

end FileTree

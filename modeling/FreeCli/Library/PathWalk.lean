import Mathlib.Data.List.Induction
import FreeCli.Library.FileTree

namespace FileTree

open Words

/-! Where a path walk can end, and the locations a canonical path stands for. -/

/-- No node on the way down to `loc`, or at it, is a link. -/
def Plain (tree : Tree) (loc : Loc) : Prop :=
  ∀ above, above <+: loc → ∀ target, tree.node above ≠ some (.link target)

theorem Plain.nil (tree : Tree) : Plain tree [] := by
  intro above starts target link
  obtain rfl := List.prefix_nil.1 starts
  rw [Tree.node_nil] at link
  cases link

theorem Plain.of_prefix (plain : Plain tree loc) (starts : above <+: loc) :
    Plain tree above := fun _ shorter => plain _ (shorter.trans starts)

theorem Plain.append (plain : Plain tree loc)
    (here : ∀ target, tree.node (loc ++ [name]) ≠ some (.link target)) :
    Plain tree (loc ++ [name]) := by
  intro above starts
  rcases List.prefix_concat_iff.1 starts with rfl | shorter
  · exact here
  · exact plain above shorter

theorem Plain.changesOnly (plain : Plain tree loc)
    (change : ChangesOnly other tree after) : Plain after loc := by
  intro above starts target link
  by_cases same : above = other
  · subst same
    exact change.noLink target link
  · rw [change.others above same] at link
    exact plain above starts target link

theorem Plain.fwrite (plain : Plain tree loc) :
    Plain (tree.fwrite other inode data) loc := by
  intro above starts target link
  apply plain above starts target
  by_cases same : above = other
  · subst same
    exact fwrite_noLink tree above inode data link
  · rwa [fwrite_others tree other inode data same] at link

theorem slash_notMem_components (path : Bytes) :
    ∀ name ∈ components path, slash ∉ name := by
  induction path with
  | nil => simp [components]
  | cons byte path ih =>
      rw [components, List.splitOn_cons_eq_if_modifyHead]
      have parts : List.splitOn slash path ≠ [] := List.splitOn_ne_nil _ _
      split
      next =>
        rw [components] at ih
        simpa using ih
      next differs =>
        obtain ⟨first, rest, eq⟩ := List.exists_cons_of_ne_nil parts
        rw [components, eq] at ih
        rw [eq]
        have different : slash ≠ byte := by
          rintro rfl
          simp at differs
        intro name member
        rcases List.mem_cons.1 member with rfl | later
        · have apart := ih first (by simp)
          simp [different, apart]
        · exact ih name (List.mem_cons_of_mem _ later)

theorem components_names (name : Name) (loc : Loc)
    (noSlash : ∀ other ∈ name :: loc, slash ∉ other) :
    components (name ++ loc.flatMap fun other => slash :: other) =
      name :: loc := by
  induction loc generalizing name with
  | nil =>
      have apart : slash ∉ name := noSlash name (by simp)
      simpa [components] using List.splitOn_eq_singleton apart
  | cons next loc ih =>
      have apart : slash ∉ name := noSlash name (by simp)
      have later := ih next fun other member =>
        noSlash other (List.mem_cons_of_mem _ member)
      rw [components] at later ⊢
      rw [List.flatMap_cons, List.cons_append, List.splitOn_append_cons_self,
        List.splitOn_eq_singleton apart, later]
      rfl

theorem components_append_slash (front back : Bytes) :
    components (front ++ slash :: back) = components front ++ components back :=
  List.splitOn_append_cons_self _ _

/-! ### Paths without links -/

/-- `path` is an absolute path whose names, apart from empty ones at its start,
are those of `loc`. -/
structure Spells (path : Bytes) (loc : Loc) : Prop where
  absolute : path.head? = some slash
  names : ∃ blanks, components path = List.replicate (blanks + 1) [] ++ loc
  proper : ∀ name ∈ loc, Proper name

theorem components_render {loc : Loc} (proper : ∀ name ∈ loc, Proper name)
    (below : loc ≠ []) : components (FileTree.render loc) = [] :: loc := by
  rw [FileTree.render, if_neg below]
  apply components_names []
  intro name member
  rcases List.mem_cons.1 member with rfl | member
  · simp
  · exact (proper name member).noSlash

theorem Spells.render {loc : Loc} (proper : ∀ name ∈ loc, Proper name) :
    Spells (FileTree.render loc) loc := by
  by_cases empty : loc = []
  · subst empty
    exact ⟨rfl, ⟨1, by decide⟩, proper⟩
  · refine ⟨?_, ⟨0, components_render proper empty⟩, proper⟩
    obtain ⟨first, rest, rfl⟩ := List.exists_cons_of_ne_nil empty
    simp [FileTree.render]

theorem Spells.append {path : Bytes} (spells : Spells path parent)
    (proper : Proper name) :
    Spells (path ++ slash :: name) (parent ++ [name]) := by
  obtain ⟨absolute, ⟨blanks, names⟩, above⟩ := spells
  refine ⟨by simp [absolute], ⟨blanks, ?_⟩, ?_⟩
  · rw [components_append_slash, names]
    have single : components name = [name] :=
      List.splitOn_eq_singleton proper.noSlash
    rw [single, List.append_assoc]
  · intro other member
    rcases List.mem_append.1 member with member | member
    · exact above other member
    · obtain rfl := List.mem_singleton.1 member
      exact proper

theorem eq_of_blanks {blanks : Nat} {loc : Loc} {first : Name} {rest : List Name}
    (same : List.replicate (blanks + 1) [] ++ loc = [] :: first :: rest)
    (nonempty : first ≠ []) : loc = first :: rest := by
  cases blanks with
  | zero => simpa using same
  | succ blanks =>
      have second := congrArg (fun parts => parts[1]?) same
      simp [List.replicate_succ] at second
      exact absurd second nonempty

theorem Spells.split {root loc : Loc} {rest : Bytes} (proper : ∀ name ∈ root, Proper name)
    (inside : root ≠ []) (spells : Spells (FileTree.render root ++ slash :: rest) loc) :
    loc = root ++ components rest := by
  obtain ⟨first, names, rfl⟩ := List.exists_cons_of_ne_nil inside
  obtain ⟨_, ⟨blanks, split⟩, _⟩ := spells
  rw [components_append_slash, components_render proper inside] at split
  exact eq_of_blanks split.symm (proper first (by simp)).nonempty

/-- A string that starts with a canonical directory path, up to a separator or
its end, spells a location below that directory. -/
theorem Spells.below {path : Bytes} (spells : Spells path loc)
    (proper : ∀ name ∈ root, Proper name)
    (starts : FileTree.render root <+: path)
    (boundary : path.drop (FileTree.render root).length = [] ∨
      (path.drop (FileTree.render root).length).head? = some slash) :
    root <+: loc := by
  by_cases top : root = []
  · rw [top]
    exact List.nil_prefix
  obtain ⟨rest, rfl⟩ := starts
  rw [List.drop_left] at boundary
  cases rest with
  | nil =>
      obtain ⟨first, names, rfl⟩ := List.exists_cons_of_ne_nil top
      obtain ⟨_, ⟨blanks, split⟩, _⟩ := spells
      rw [List.append_nil, components_render proper top] at split
      obtain rfl := eq_of_blanks split.symm (proper first (by simp)).nonempty
      exact List.prefix_rfl
  | cons byte rest =>
      obtain rfl : byte = slash := by simpa using boundary
      rw [spells.split proper top]
      exact List.prefix_append _ _

/-! ### Ends of a walk -/

def Clean (tree : Tree) : Walk → Prop
  | .found loc => Plain tree loc ∧ ∀ name ∈ loc, Proper name
  | .absent parent name => Plain tree parent ∧
      (∀ other ∈ parent, Proper other) ∧ Proper name
  | .failed => True

theorem enter_clean {tree : Tree} {jump : Loc → List Name → Walk}
    (jumps : ∀ current names, Plain tree current →
      (∀ name ∈ current, Proper name) → (∀ name ∈ names, slash ∉ name) →
      Clean tree (jump current names))
    (names : List Name) (current : Loc) (plain : Plain tree current)
    (proper : ∀ name ∈ current, Proper name)
    (noSlash : ∀ name ∈ names, slash ∉ name) :
    Clean tree (enter tree true jump current names) := by
  induction names generalizing current with
  | nil => exact ⟨plain, proper⟩
  | cons name rest ih =>
      have later : ∀ other ∈ rest, slash ∉ other := fun other member =>
        noSlash other (List.mem_cons_of_mem _ member)
      rw [enter]
      split
      next dir =>
        split
        next => exact ih current plain proper later
        next notDot =>
          split
          next =>
            exact ih _ (plain.of_prefix (List.dropLast_prefix _))
              (fun other member => proper other (List.dropLast_subset _ member))
              later
          next notDotdot =>
            have good : Proper name :=
              ⟨fun empty => notDot (.inl empty), fun same => notDot (.inr same),
                notDotdot, noSlash name (by simp)⟩
            have down : ∀ other ∈ current ++ [name], Proper other := by
              intro other member
              rcases List.mem_append.1 member with member | member
              · exact proper other member
              · obtain rfl := List.mem_singleton.1 member
                exact good
            split
            next missing =>
              split
              next => exact ⟨plain, proper, good⟩
              next => trivial
            next target link =>
              rw [if_neg (by simp)]
              apply jumps
              · rw [linkBase]
                split
                · exact Plain.nil tree
                · exact plain
              · rw [linkBase]
                split
                · simp
                · exact proper
              · intro other member
                rcases List.mem_append.1 member with member | member
                · exact slash_notMem_components target other member
                · exact later other member
            next node notLink found =>
              refine ih _ (plain.append ?_) down later
              intro target link
              rw [found] at link
              exact notLink target (Option.some.inj link)
      next => trivial

theorem walkFrom_clean (tree : Tree) (links : Nat) (names : List Name)
    (current : Loc) (plain : Plain tree current)
    (proper : ∀ name ∈ current, Proper name)
    (noSlash : ∀ name ∈ names, slash ∉ name) :
    Clean tree (walkFrom tree true links current names) := by
  induction links generalizing current names with
  | zero =>
      refine enter_clean ?_ names current plain proper noSlash
      intro _ _ _ _ _
      trivial
  | succ links ih =>
      exact enter_clean (fun current names => ih names current) names current
        plain proper noSlash

theorem walk_clean (tree : Tree) (path : Bytes) :
    Clean tree (walk tree true path) := by
  rw [walk]
  split
  · exact walkFrom_clean tree _ _ _ (Plain.nil tree) (by simp)
      (slash_notMem_components path)
  · trivial

theorem realpath_eq_some (resolved : realpath tree path = some canonical) :
    ∃ loc, canonical = render loc ∧ Plain tree loc ∧
      ∀ name ∈ loc, Proper name := by
  have clean := walk_clean tree path
  rw [realpath] at resolved
  split at resolved
  next loc walked =>
    rw [walked] at clean
    split at resolved
    next => exact ⟨loc, (Option.some.inj resolved).symm, clean⟩
    next => contradiction
  next => contradiction

theorem enter_blanks {tree : Tree} {jump : Loc → List Name → Walk} (count : Nat)
    (names : List Name) : enter tree follow jump [] (List.replicate count [] ++ names) =
      enter tree follow jump [] names := by
  induction count with
  | zero => rfl
  | succ count ih =>
      rw [List.replicate_succ, List.cons_append, enter,
        if_pos (Tree.node_nil tree), if_pos (.inl rfl), ih]

theorem enter_front {tree : Tree} (follow : Bool) (jump : Loc → List Name → Walk)
    (front : List Name) (last : Name) (current : Loc)
    (proper : ∀ name ∈ front, Proper name)
    (plain : Plain tree (current ++ front)) :
    enter tree follow jump current (front ++ [last]) = .failed ∨
      enter tree follow jump current (front ++ [last]) =
        enter tree follow jump (current ++ front) [last] := by
  induction front generalizing current with
  | nil => simp
  | cons name front ih =>
      obtain ⟨nonempty, notDot, notDotdot, _⟩ := proper name (by simp)
      have below : current ++ name :: front = current ++ [name] ++ front := by
        simp
      rw [below] at plain ⊢
      have rest := ih (current ++ [name])
        (fun other member => proper other (List.mem_cons_of_mem _ member)) plain
      rw [List.cons_append, enter]
      split
      next =>
        rw [if_neg (by simp [nonempty, notDot])]
        split
        next => simp
        next target link =>
          exact absurd link (plain _ (List.prefix_append _ _) target)
        next => exact rest
      next => exact .inl rfl

theorem walk_spells {tree : Tree} (follow : Bool)
    (spells : Spells path (parent ++ [name]))
    (plain : Plain tree parent) :
    walk tree follow path = .failed ∨
      (walk tree follow path = .absent parent name ∧
        tree.node (parent ++ [name]) = none) ∨
      (walk tree follow path = .found (parent ++ [name]) ∧
        (follow = true → ∀ target,
          tree.node (parent ++ [name]) ≠ some (.link target))) ∨
      (follow = true ∧
        ∃ target, tree.node (parent ++ [name]) = some (.link target)) := by
  obtain ⟨absolute, ⟨blanks, names⟩, proper⟩ := spells
  obtain ⟨nonempty, notDot, notDotdot, _⟩ := proper name (by simp)
  have above : ∀ other ∈ parent, Proper other := fun other member =>
    proper other (List.mem_append_left _ member)
  rw [walk, if_pos absolute, names, maxLinks, walkFrom, enter_blanks]
  rcases enter_front follow (walkFrom tree follow 39) parent name [] above plain
    with failed | same
  · exact .inl failed
  · rw [same, List.nil_append, enter]
    split
    next =>
      rw [if_neg (by simp [nonempty, notDot])]
      split
      next missing => exact .inr (.inl ⟨by simp, missing⟩)
      next target link =>
        cases follow with
        | true => exact .inr (.inr (.inr ⟨rfl, target, link⟩))
        | false =>
            rw [if_pos ⟨rfl, rfl⟩]
            exact .inr (.inr (.inl ⟨rfl, by simp⟩))
      next node notLink found =>
        refine .inr (.inr (.inl ⟨by rw [enter], ?_⟩))
        intro _ target link
        rw [found] at link
        exact notLink target (Option.some.inj link)
    next => exact .inl rfl

theorem walk_spells_root {tree : Tree} (spells : Spells path []) :
    walk tree follow path = .found [] := by
  obtain ⟨absolute, ⟨blanks, names⟩, _⟩ := spells
  rw [walk, if_pos absolute, names, maxLinks, walkFrom, enter_blanks, enter]

/-! ### Walks along a location that is there -/

theorem Tree.dir_above {tree : Tree} (below : List Name) (loc : Loc) (name : Name)
    (there : (tree.node (loc ++ name :: below)).isSome) : tree.node loc = some .dir := by
  induction below using List.reverseRecOn with
  | nil => exact tree.parents loc name (AList.lookup_isSome.1 there)
  | append_singleton below last ih =>
      have member : (loc ++ name :: below) ++ [last] ∈ tree.nodes := by
        rw [List.append_assoc]
        exact AList.lookup_isSome.1 there
      have above : tree.node (loc ++ name :: below) = some .dir :=
        tree.parents (loc ++ name :: below) last member
      exact ih (by rw [above]; rfl)

theorem enter_down {tree : Tree} (follow : Bool) (jump : Loc → List Name → Walk)
    (front rest : List Name) (current : Loc) (proper : ∀ name ∈ front, Proper name)
    (plain : Plain tree (current ++ front)) (there : (tree.node (current ++ front)).isSome) :
    enter tree follow jump current (front ++ rest) =
      enter tree follow jump (current ++ front) rest := by
  induction front generalizing current with
  | nil => simp
  | cons name front ih =>
      obtain ⟨nonempty, notDot, notDotdot, _⟩ := proper name (by simp)
      have dir := Tree.dir_above front current name there
      have below : current ++ name :: front = current ++ [name] ++ front := by simp
      rw [below] at plain there ⊢
      have down := ih (current ++ [name])
        (fun other member => proper other (List.mem_cons_of_mem _ member)) plain there
      rw [List.cons_append, enter, if_pos dir, if_neg (by simp [nonempty, notDot]),
        if_neg notDotdot]
      split
      next missing =>
        -- every name on the way is there
        cases front with
        | nil =>
            rw [List.append_nil, missing] at there
            contradiction
        | cons next front =>
            rw [Tree.dir_above front (current ++ [name]) next there] at missing
            contradiction
      next target link => exact absurd link (plain _ (List.prefix_append _ _) target)
      next => exact down

theorem enter_there {tree : Tree} {follow : Bool} {jump : Loc → List Name → Walk}
    (jumps : ∀ current names loc, (tree.node current).isSome →
      jump current names = .found loc → (tree.node loc).isSome)
    (names : List Name) (current loc : Loc) (there : (tree.node current).isSome)
    (found : enter tree follow jump current names = .found loc) :
    (tree.node loc).isSome := by
  induction names generalizing current with
  | nil =>
      obtain rfl := Walk.found.inj found
      exact there
  | cons name rest ih =>
      rw [enter] at found
      split at found
      next dir =>
        split at found
        next => exact ih current there found
        next =>
          split at found
          next =>
            refine ih current.dropLast ?_ found
            rcases List.eq_nil_or_concat current with rfl | ⟨above, last, rfl⟩
            · exact there
            · have parent := Tree.dir_above [] above last (by simpa using there)
              simp [parent]
          next =>
            split at found
            next =>
              split at found
              next => contradiction
              next => contradiction
            next target link =>
              split at found
              next =>
                obtain rfl := Walk.found.inj found
                rw [link]
                rfl
              next =>
                refine jumps _ _ loc ?_ found
                rw [linkBase]
                split
                · rw [Tree.node_nil]
                  rfl
                · exact there
            next node _ here => exact ih _ (by rw [here]; rfl) found
      next => contradiction

theorem walkFrom_there {tree : Tree} {follow : Bool} (links : Nat) (names : List Name)
    (current loc : Loc) (there : (tree.node current).isSome)
    (found : walkFrom tree follow links current names = .found loc) :
    (tree.node loc).isSome := by
  induction links generalizing current names loc with
  | zero => exact enter_there (fun _ _ _ _ failed => by contradiction) _ _ _ there found
  | succ links ih =>
      exact enter_there (fun current names loc there found =>
        ih names current loc there found) _ _ _ there found

theorem walk_there {tree : Tree} (found : walk tree follow path = .found loc) :
    (tree.node loc).isSome := by
  rw [walk] at found
  split at found
  · exact walkFrom_there _ _ _ _ (by rw [Tree.node_nil]; rfl) found
  · contradiction

section Canonical

variable {tree : Tree} {path : Bytes} {loc : Loc}

theorem walk_down (follow : Bool) (spells : Spells path loc) (plain : Plain tree loc)
    (there : (tree.node loc).isSome) (rest : Bytes) :
    walk tree follow (path ++ slash :: rest) =
      enter tree follow (walkFrom tree follow 39) loc (components rest) := by
  obtain ⟨absolute, ⟨blanks, names⟩, proper⟩ := spells
  have head : (path ++ slash :: rest).head? = some slash := by simp [absolute]
  rw [walk, if_pos head, components_append_slash, names, maxLinks, walkFrom,
    List.append_assoc, enter_blanks, enter_down follow _ loc _ [] proper plain there,
    List.nil_append]

theorem walk_spelled (follow : Bool) (spells : Spells path loc) (plain : Plain tree loc)
    (there : (tree.node loc).isSome) : walk tree follow path = .found loc := by
  obtain ⟨absolute, ⟨blanks, names⟩, proper⟩ := spells
  rw [walk, if_pos absolute, names, maxLinks, walkFrom, enter_blanks,
    ← List.append_nil loc, enter_down follow _ loc [] [] proper (by simpa using plain)
      (by simpa using there), enter]
  simp

theorem realpath_render (proper : ∀ name ∈ loc, Proper name) (plain : Plain tree loc)
    (there : (tree.node loc).isSome) (short : (render loc).length < pathMax) :
    realpath tree (render loc) = some (render loc) := by
  rw [realpath, walk_spelled true (Spells.render proper) plain there]
  simp only [short, if_true]

theorem realpath_found (resolved : realpath tree path = some canonical) :
    ∃ loc, canonical = render loc ∧ Plain tree loc ∧ (∀ name ∈ loc, Proper name) ∧
      (tree.node loc).isSome ∧ (render loc).length < pathMax := by
  have clean := walk_clean tree path
  rw [realpath] at resolved
  cases walked : walk tree true path with
  | found loc =>
      rw [walked] at clean resolved
      simp only at resolved
      split at resolved
      next short =>
        exact ⟨loc, (Option.some.inj resolved).symm, clean.1, clean.2, walk_there walked,
          short⟩
      next => contradiction
  | absent parent name =>
      rw [walked] at resolved
      contradiction
  | failed =>
      rw [walked] at resolved
      contradiction

end Canonical

section Below

variable {tree : Tree} {loc : Loc} {name : Name} {node : Node}

theorem enter_below {jump : Loc → List Name → Walk} (proper : Proper name)
    (there : tree.node (loc ++ [name]) = some node) (noLink : ¬node.IsLink)
    (jumps : ∀ current names, jump current names = .found loc →
      jump current (names ++ [name]) = .found (loc ++ [name]))
    (names : List Name) (current : Loc) (found : enter tree true jump current names = .found loc) :
    enter tree true jump current (names ++ [name]) = .found (loc ++ [name]) := by
  induction names generalizing current with
  | nil =>
      obtain rfl := Walk.found.inj found
      have dir : tree.node current = some .dir :=
        Tree.dir_above [] current name (by rw [there]; rfl)
      have shown : ¬(name = [] ∨ name = dot) := by
        rintro (empty | stays)
        · exact proper.nonempty empty
        · exact proper.notDot stays
      rw [List.nil_append, enter, if_pos dir, if_neg shown, if_neg proper.notDotdot]
      cases node with
      | dir => simp only [there, enter]
      | file inode data => simp only [there, enter]
      | link target => exact absurd ⟨target, rfl⟩ noLink
  | cons next rest ih =>
      rw [enter] at found
      rw [List.cons_append, enter]
      split at found
      next dir =>
        rw [if_pos dir]
        split at found
        next blank =>
          rw [if_pos blank]
          exact ih current found
        next shown =>
          rw [if_neg shown]
          split at found
          next up =>
            rw [if_pos up]
            exact ih _ found
          next down =>
            rw [if_neg down]
            split at found
            next => split at found <;> contradiction
            next target link =>
              rw [if_neg (by simp)] at found
              simp only [Bool.true_eq_false, and_false, if_false]
              rw [← List.append_assoc]
              exact jumps _ _ found
            next other plain here =>
              cases other with
              | dir => simpa only [here] using ih _ found
              | file inode data => simpa only [here] using ih _ found
              | link target => exact absurd rfl (plain target)
      next => contradiction

theorem walkFrom_below (proper : Proper name) (there : tree.node (loc ++ [name]) = some node)
    (noLink : ¬node.IsLink) (links : Nat) (names : List Name) (current : Loc)
    (found : walkFrom tree true links current names = .found loc) :
    walkFrom tree true links current (names ++ [name]) = .found (loc ++ [name]) := by
  induction links generalizing current names with
  | zero => exact enter_below proper there noLink (fun _ _ failed => by contradiction) _ _ found
  | succ links ih =>
      exact enter_below proper there noLink (fun current names => ih names current) _ _ found

theorem walk_below {path : Bytes} (proper : Proper name)
    (there : tree.node (loc ++ [name]) = some node) (noLink : ¬node.IsLink)
    (found : walk tree true path = .found loc) :
    walk tree true (path ++ slash :: name) = .found (loc ++ [name]) := by
  rw [walk] at found
  split at found
  next absolute =>
    have head : (path ++ slash :: name).head? = some slash := by simp [absolute]
    have own : components name = [name] := by
      simpa [components] using List.splitOn_eq_singleton proper.noSlash
    rw [walk, if_pos head, components_append_slash, own]
    exact walkFrom_below proper there noLink _ _ _ found
  next => contradiction

end Below

end FileTree

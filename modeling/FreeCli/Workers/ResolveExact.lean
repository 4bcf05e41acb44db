import FreeCli.Workers.FsResolve

namespace FreeCli

open Words FileTree

/-! Which paths `fs_resolve` accepts, and what `fs_rel` makes of them. -/

/-- The root as `fs_init` leaves it in a file tree. -/
structure FsPriv.Canonical (priv : FsPriv) (tree : Tree) : Prop where
  plain : Plain tree priv.rootLoc
  dir : tree.node priv.rootLoc = some .dir
  short : priv.root.length < pathMax

def relative (requested : Bytes) : Bytes := requested.dropWhile fun byte => byte == slash

def joined (priv : FsPriv) (requested : Bytes) : Bytes :=
  priv.root ++ slash :: relative requested

def names (path : Bytes) : List Name := (components path).filter fun name => name ≠ []

/-- The path is the root, or below it component by component. -/
def Inside (root path : Bytes) : Prop :=
  path = root ∨ (names root <+: names path ∧ names root ≠ names path)

/-- The path a request stands for, wherever that is. -/
def LeadsTo (priv : FsPriv) (tree : Tree) (requested : Bytes) : Bool → Bytes → Prop
  | false, path => realpath tree (joined priv requested) = some path
  | true, path => ∃ dirPart base par, joined priv requested = dirPart ++ slash :: base ∧
      Proper base ∧ realpath tree dirPart = some par ∧ path = par ++ slash :: base ∧
      path.length < fsPathMax

variable {priv : FsPriv} {tree : Tree} {requested path : Bytes} {loc : Loc}

theorem names_spells (spells : Spells path loc) : names path = loc := by
  obtain ⟨_, ⟨blanks, parts⟩, proper⟩ := spells
  have kept : loc.filter (fun name => name ≠ []) = loc :=
    List.filter_eq_self.2 fun name member => by simpa using (proper name member).nonempty
  rw [names, parts, List.filter_append, kept]
  simp

/-! ### The steps of `fs_resolve` -/

theorem strrchrSlash_eq_none (noSlash : slash ∉ path) : strrchrSlash path = none := by
  induction path with
  | nil => rfl
  | cons byte rest ih =>
      rw [List.mem_cons, not_or] at noSlash
      rw [strrchrSlash, ih noSlash.2]
      exact if_neg (Ne.symm noSlash.1)

theorem strrchrSlash_append (front : Bytes) (noSlash : slash ∉ base) :
    strrchrSlash (front ++ slash :: base) = some (front, base) := by
  induction front with
  | nil => rw [List.nil_append, strrchrSlash, strrchrSlash_eq_none noSlash]; rfl
  | cons byte front ih => rw [List.cons_append, strrchrSlash, ih]

theorem fsResolveParent_iff : fsResolveParent tree cand = some path ↔
    ∃ dirPart base par, cand = dirPart ++ slash :: base ∧ Proper base ∧
      realpath tree dirPart = some par ∧ path = par ++ slash :: base ∧
      path.length < fsPathMax := by
  constructor
  · intro resolved
    obtain ⟨⟨dirPart, base⟩, split, rest⟩ := Option.bind_eq_some_iff.1 resolved
    obtain ⟨same, _⟩ := strrchrSlash_eq_some split
    simp only at rest
    split at rest
    next => contradiction
    next good =>
      simp only [not_or] at good
      obtain ⟨nonempty, notDot, notDotdot, noSlash⟩ := good
      obtain ⟨par, canonical, rest⟩ := Option.bind_eq_some_iff.1 rest
      split at rest
      next => contradiction
      next short =>
        obtain rfl := Option.some.inj rest
        exact ⟨dirPart, base, par, same, ⟨nonempty, notDot, notDotdot, noSlash⟩, canonical,
          rfl, by omega⟩
  · rintro ⟨dirPart, base, par, rfl, proper, canonical, rfl, short⟩
    obtain ⟨nonempty, notDot, notDotdot, noSlash⟩ := proper
    have good : ¬(base = [] ∨ base = dot ∨ base = dotdot ∨ slash ∈ base) := by
      simp [nonempty, notDot, notDotdot, noSlash]
    simp only [fsResolveParent, strrchrSlash_append dirPart noSlash, Option.bind_eq_bind,
      Option.bind_some, if_neg good, canonical, if_neg (Nat.not_le.2 short)]

theorem realpath_stays (canonical : priv.Canonical tree) (stays : name = [] ∨ name = dot) :
    realpath tree (priv.root ++ slash :: name) = some priv.root := by
  have there : (tree.node priv.rootLoc).isSome := by
    rw [canonical.dir]
    rfl
  have single : components name = [name] := by
    rcases stays with rfl | rfl
    · rfl
    · rfl
  have walked : walk tree true (priv.root ++ slash :: name) = .found priv.rootLoc := by
    rw [FsPriv.root, walk_down true (Spells.render priv.proper) canonical.plain there,
      single, enter, if_pos canonical.dir, if_pos stays, enter]
  have short := canonical.short
  rw [FsPriv.root] at short
  rw [realpath, walked]
  simp only [short, if_true, FsPriv.root]

theorem withinRoot_root (priv : FsPriv) : withinRoot priv.root priv.root :=
  ⟨List.prefix_rfl, .inl (List.drop_length ..)⟩

theorem withinRoot_append (priv : FsPriv) (rest : Bytes) :
    withinRoot priv.root (priv.root ++ slash :: rest) :=
  ⟨List.prefix_append _ _, .inr (by rw [List.drop_left]; rfl)⟩

theorem leadsTo_iff (tree : Tree) (forCreate : Bool) :
    (if forCreate then fsResolveParent tree (joined priv requested)
      else realpath tree (joined priv requested)) = some path ↔
        LeadsTo priv tree requested forCreate path := by
  cases forCreate with
  | true => exact fsResolveParent_iff
  | false => exact Iff.rfl

theorem fsResolve_relative (root : relative requested = []) :
    fsResolve priv tree requested forCreate = some priv.root := by
  rw [fsResolve]
  exact if_pos root

theorem fsResolve_named (named : relative requested ≠ []) :
    fsResolve priv tree requested forCreate = some path ↔
      (joined priv requested).length < fsPathMax ∧
        LeadsTo priv tree requested forCreate path ∧ withinRoot priv.root path := by
  have resolved : fsResolve priv tree requested forCreate =
      if (joined priv requested).length ≥ fsPathMax then none
      else (if forCreate then fsResolveParent tree (joined priv requested)
        else realpath tree (joined priv requested)).bind fun resolved =>
          if withinRoot priv.root resolved then some resolved else none := by
    rw [fsResolve]
    exact if_neg named
  rw [resolved, ← leadsTo_iff]
  by_cases long : (joined priv requested).length ≥ fsPathMax
  · rw [if_pos long]
    exact iff_of_false (by simp) fun held => absurd held.1 (Nat.not_lt.2 long)
  rw [if_neg long, Option.bind_eq_some_iff, and_iff_right (Nat.not_le.1 long)]
  constructor
  · rintro ⟨found, reached, kept⟩
    split at kept
    next within =>
      obtain rfl := Option.some.inj kept
      exact ⟨reached, within⟩
    next => contradiction
  · rintro ⟨reached, within⟩
    exact ⟨path, reached, if_pos within⟩

theorem fsResolve_cases (resolved : fsResolve priv tree requested forCreate = some path) :
    path = priv.root ∨
      (LeadsTo priv tree requested forCreate path ∧ withinRoot priv.root path) := by
  by_cases root : relative requested = []
  · rw [fsResolve_relative root] at resolved
    exact .inl (Option.some.inj resolved).symm
  · exact .inr ((fsResolve_named root).1 resolved).2

theorem fsResolve_within (resolved : fsResolve priv tree requested forCreate = some path) :
    withinRoot priv.root path := by
  rcases fsResolve_cases resolved with rfl | ⟨_, within⟩
  · exact withinRoot_root priv
  · exact within

theorem fsResolve_iff (canonical : priv.Canonical tree)
    (short : (joined priv requested).length < fsPathMax)
    (named : forCreate = true → relative requested ≠ []) :
    fsResolve priv tree requested forCreate = some path ↔
      LeadsTo priv tree requested forCreate path ∧ withinRoot priv.root path := by
  by_cases root : relative requested = []
  · have reads : forCreate = false := by
      cases forCreate with
      | true => exact absurd root (named rfl)
      | false => rfl
    subst reads
    rw [fsResolve_relative root, LeadsTo, joined, root, realpath_stays canonical (.inl rfl)]
    constructor
    · intro same
      obtain rfl := Option.some.inj same
      exact ⟨rfl, withinRoot_root priv⟩
    · exact And.left
  · rw [fsResolve_named root, and_iff_right short]

/-! ### Containment -/

/-- A canonical path, or a name directly below `/` with the slash doubled. -/
def Canonically (path : Bytes) (loc : Loc) : Prop :=
  path = render loc ∨ ∃ name, path = slash :: slash :: name ∧ loc = [name]

theorem render_append (front : Loc) (back : Loc) (below : front ≠ []) :
    render (front ++ back) = render front ++ back.flatMap fun name => slash :: name := by
  rw [render, render, if_neg below, if_neg (by simp [below]), List.flatMap_append]

theorem LeadsTo.spells (leads : LeadsTo priv tree requested forCreate path) :
    ∃ loc, Spells path loc ∧ Canonically path loc := by
  cases forCreate with
  | false =>
      obtain ⟨loc, rfl, _, proper⟩ := realpath_eq_some leads
      exact ⟨loc, Spells.render proper, .inl rfl⟩
  | true =>
      obtain ⟨dirPart, base, par, _, proper, resolved, rfl, _⟩ := leads
      obtain ⟨parent, rfl, _, above⟩ := realpath_eq_some resolved
      refine ⟨parent ++ [base], (Spells.render above).append proper, ?_⟩
      by_cases top : parent = []
      · subst top
        exact .inr ⟨base, rfl, rfl⟩
      · rw [Canonically, render_append parent [base] top]
        exact .inl (by simp)

theorem names_root (priv : FsPriv) : names priv.root = priv.rootLoc :=
  names_spells (Spells.render priv.proper)

theorem root_eq_slash (priv : FsPriv) : priv.root = [slash] ↔ priv.rootLoc = [] := by
  constructor
  · intro same
    rw [← names_root, same]
    rfl
  · intro empty
    rw [FsPriv.root, empty]
    rfl

theorem withinRoot_iff (below : priv.rootLoc ≠ []) (spells : Spells path loc)
    (form : Canonically path loc) :
    withinRoot priv.root path ↔ Inside priv.root path := by
  rw [Inside, names_root, names_spells spells]
  constructor
  · rintro ⟨⟨rest, rfl⟩, boundary⟩
    rw [List.drop_left] at boundary
    cases rest with
    | nil => exact .inl (List.append_nil _)
    | cons byte rest =>
        obtain rfl : byte = slash := by simpa using boundary
        have split := spells.split priv.proper below
        refine .inr ⟨⟨_, split.symm⟩, fun same => ?_⟩
        have parts : components rest ≠ [] := List.splitOn_ne_nil _ _
        rw [split] at same
        exact parts (List.self_eq_append_right.1 same)
  · rintro (rfl | ⟨⟨rest, rfl⟩, strict⟩)
    · exact withinRoot_root priv
    · have more : rest ≠ [] := by
        rintro rfl
        exact strict (List.append_nil _).symm
      rcases form with rfl | ⟨name, rfl, single⟩
      · obtain ⟨first, others, rfl⟩ := List.exists_cons_of_ne_nil more
        rw [render_append _ _ below, FsPriv.root]
        exact ⟨List.prefix_append _ _, .inr (by rw [List.drop_left]; rfl)⟩
      · have lengths := congrArg List.length single
        have one := List.length_pos_of_ne_nil below
        have two := List.length_pos_of_ne_nil more
        simp at lengths
        omega

/-- Below `/`, only `/` itself and a doubled slash pass the test. -/
theorem withinRoot_top (top : priv.rootLoc = []) (spells : Spells path loc)
    (form : Canonically path loc) :
    (withinRoot priv.root path ↔ Inside priv.root path) ↔
      path = [slash] ∨ [slash, slash] <+: path := by
  have root : priv.root = [slash] := by rw [FsPriv.root, top]; rfl
  have inside : Inside priv.root path := by
    rw [Inside, names_root, names_spells spells, top, root]
    by_cases empty : loc = []
    · rcases form with rfl | ⟨name, _, single⟩
      · rw [empty]
        exact .inl rfl
      · rw [single] at empty
        contradiction
    · exact .inr ⟨List.nil_prefix, Ne.symm empty⟩
  obtain ⟨absolute, _, _⟩ := spells
  rw [iff_true_right inside, withinRoot, root]
  cases path with
  | nil => contradiction
  | cons byte rest =>
      obtain rfl : byte = slash := by simpa using absolute
      cases rest with
      | nil => simp
      | cons next rest => simp [List.cons_prefix_cons, eq_comm]

/-- `fs_resolve` accepts exactly what is inside the root, unless the root is `/` and the
path is neither `/` nor, for a new file, directly below it; a sibling of the root is never
accepted. -/
theorem fs_resolve_exact (canonical : priv.Canonical tree)
    (short : (joined priv requested).length < fsPathMax)
    (named : forCreate = true → relative requested ≠ []) :
    ((∀ path, fsResolve priv tree requested forCreate = some path ↔
        LeadsTo priv tree requested forCreate path ∧ Inside priv.root path) ↔
      priv.root ≠ [slash] ∨ ∀ path, LeadsTo priv tree requested forCreate path →
        path = [slash] ∨ [slash, slash] <+: path) ∧
    (priv.root ≠ [slash] → ∀ suffix, suffix ≠ [] → slash ∉ suffix →
      fsResolve priv tree requested forCreate ≠ some (priv.root ++ suffix)) := by
  have top := root_eq_slash priv
  simp only [fsResolve_iff canonical short named, and_congr_right_iff]
  constructor
  · by_cases empty : priv.rootLoc = []
    · rw [or_iff_right (not_not.2 (top.2 empty))]
      refine forall_congr' fun path => imp_congr_right fun leads => ?_
      obtain ⟨loc, spells, form⟩ := leads.spells
      exact withinRoot_top empty spells form
    · refine iff_of_true (fun path leads => ?_) (.inl (mt top.1 empty))
      obtain ⟨loc, spells, form⟩ := leads.spells
      exact withinRoot_iff empty spells form
  · intro _ suffix nonempty apart resolved
    have boundary := (fsResolve_within resolved).2
    rw [List.drop_left] at boundary
    rcases boundary with empty | first
    · exact nonempty empty
    · exact apart (List.mem_of_mem_head? first)

/-! The sandbox `/s`, and `/` with the directory `s`. -/

theorem fileSandbox_canonical (data : Bytes) :
    System.sandboxPriv.Canonical (System.fileSandbox data) where
  plain := by
    refine Plain.append (Plain.nil _) fun target link => ?_
    rw [show (System.fileSandbox data).node ([] ++ [ascii "s"]) = some .dir from rfl] at link
    cases link
  dir := rfl
  short := by decide

theorem fs_resolve_exact_b :
    ((∀ path, fsResolve System.sandboxPriv (System.fileSandbox []) (ascii "b") true =
        some path ↔ LeadsTo System.sandboxPriv (System.fileSandbox []) (ascii "b") true path ∧
          Inside System.sandboxPriv.root path) ↔
      System.sandboxPriv.root ≠ [slash] ∨ ∀ path,
        LeadsTo System.sandboxPriv (System.fileSandbox []) (ascii "b") true path →
          path = [slash] ∨ [slash, slash] <+: path) ∧
    (System.sandboxPriv.root ≠ [slash] → ∀ suffix, suffix ≠ [] → slash ∉ suffix →
      fsResolve System.sandboxPriv (System.fileSandbox []) (ascii "b") true ≠
        some (System.sandboxPriv.root ++ suffix)) :=
  fs_resolve_exact (fileSandbox_canonical []) (by decide) (by decide)

def topPriv : FsPriv where
  rootLoc := []
  proper := by simp

/-- With the root `/`, the directory `/s` is not found. -/
theorem fs_resolve_rejects : ¬∀ (priv : FsPriv) (tree : Tree) (requested : Bytes)
    (forCreate : Bool), priv.Canonical tree →
    (joined priv requested).length < fsPathMax →
    (forCreate = true → relative requested ≠ []) →
    ∀ path, fsResolve priv tree requested forCreate = some path ↔
      LeadsTo priv tree requested forCreate path ∧ Inside priv.root path := by
  intro exactly
  have canonical : topPriv.Canonical System.emptySandbox :=
    ⟨Plain.nil _, Tree.node_nil _, by decide⟩
  have accepted := (exactly topPriv System.emptySandbox (ascii "s") false canonical
    (by decide) (by decide) (ascii "/s")).2 ⟨rfl, .inr (by decide)⟩
  have rejected : fsResolve topPriv System.emptySandbox (ascii "s") false = none := rfl
  rw [rejected] at accepted
  contradiction

theorem fsResolve_found (canonical : priv.Canonical tree)
    (resolved : fsResolve priv tree requested false = some path) :
    ∃ loc, path = render loc ∧ Plain tree loc ∧ (∀ name ∈ loc, Proper name) ∧
      (tree.node loc).isSome ∧ (render loc).length < pathMax := by
  rcases fsResolve_cases resolved with rfl | ⟨leads, _⟩
  · exact ⟨priv.rootLoc, rfl, canonical.plain, priv.proper, by rw [canonical.dir]; rfl,
      canonical.short⟩
  · exact realpath_found leads

/-! ### The path that is shown -/

theorem fsRel_root (priv : FsPriv) : fsRel priv priv.root = dot := by
  rw [fsRel, if_pos List.prefix_rfl, List.drop_length]
  rfl

theorem fsRel_below (priv : FsPriv) (nonempty : shown ≠ []) :
    fsRel priv (priv.root ++ slash :: shown) = shown := by
  rw [fsRel, if_pos (List.prefix_append _ _), List.drop_left]
  exact if_neg nonempty

theorem fsResolve_dot (canonical : priv.Canonical tree) (short : priv.root.length < 4094) :
    fsResolve priv tree dot false = some priv.root := by
  have shown : joined priv dot = priv.root ++ slash :: dot := rfl
  refine (fsResolve_iff canonical ?_ (by simp)).2
    ⟨realpath_stays canonical (.inr rfl), withinRoot_root priv⟩
  rw [shown, List.length_append, List.length_cons, show dot.length = 1 from rfl, fsPathMax]
  omega

theorem fsResolve_shown (canonical : priv.Canonical tree) (below : priv.rootLoc ≠ [])
    (same : priv.root ++ slash :: shown = render loc) (plain : Plain tree loc)
    (proper : ∀ name ∈ loc, Proper name) (there : (tree.node loc).isSome)
    (short : (render loc).length < pathMax) :
    shown ≠ [] ∧ fsResolve priv tree shown false = some (render loc) := by
  have spells := Spells.render proper
  rw [← same] at spells
  have split := spells.split priv.proper below
  have first : ∀ name ∈ components shown, Proper name := by
    rw [split] at proper
    exact fun name member => proper name (List.mem_append_right _ member)
  have start : shown ≠ [] ∧ relative shown = shown := by
    cases shown with
    | nil => exact absurd rfl (first [] (by decide)).nonempty
    | cons byte rest =>
        refine ⟨List.cons_ne_nil byte rest, ?_⟩
        rw [relative, List.dropWhile_cons, if_neg]
        intro leads
        obtain rfl : byte = slash := by simpa using leads
        have parts := components_append_slash [] rest
        have blank : ([] : Name) ∈ components (slash :: rest) := by
          rw [List.nil_append] at parts
          rw [parts]
          exact List.mem_append_left _ (by decide)
        exact (first [] blank).nonempty rfl
  have whole : joined priv shown = render loc := by rw [joined, start.2, same]
  refine ⟨start.1, (fsResolve_iff canonical (by rw [whole]; exact short) (by simp)).2 ⟨?_, ?_⟩⟩
  · rw [LeadsTo, whole]
    exact realpath_render proper plain there short
  · rw [← same]
    exact withinRoot_append priv shown

theorem fsResolve_fsRel (canonical : priv.Canonical tree) (below : priv.rootLoc ≠ [])
    (short : priv.root.length < 4094)
    (resolved : fsResolve priv tree requested false = some path) :
    fsResolve priv tree (fsRel priv path) false = some path := by
  obtain ⟨⟨rest, rfl⟩, boundary⟩ := fsResolve_within resolved
  rw [List.drop_left] at boundary
  cases rest with
  | nil => rw [List.append_nil, fsRel_root, fsResolve_dot canonical short]
  | cons byte shown =>
      obtain rfl : byte = slash := by simpa using boundary
      obtain ⟨loc, same, plain, proper, there, fits⟩ := fsResolve_found canonical resolved
      obtain ⟨nonempty, back⟩ := fsResolve_shown canonical below same plain proper there fits
      rw [fsRel_below priv nonempty, back, same]

/-- What `fs_rel` shows leads back to the file, and no other file is shown as it. -/
theorem fs_rel_names_file (canonical : priv.Canonical tree) (below : priv.root ≠ [slash])
    (short : priv.root.length < 4094) :
    (∀ requested path, fsResolve priv tree requested false = some path →
      fsResolve priv tree (fsRel priv path) false = some path) ∧
    ∀ requested path other shown, fsResolve priv tree requested false = some path →
      fsResolve priv tree other false = some shown → fsRel priv path = fsRel priv shown →
      path = shown := by
  have back : ∀ requested path, fsResolve priv tree requested false = some path →
      fsResolve priv tree (fsRel priv path) false = some path :=
    fun requested path => fsResolve_fsRel canonical (mt (root_eq_slash priv).2 below) short
  refine ⟨back, fun requested path other shown first second same => ?_⟩
  have one := back requested path first
  rw [same, back other shown second] at one
  exact (Option.some.inj one).symm

theorem fs_rel_names_file_a :
    fsResolve System.sandboxPriv (System.fileSandbox []) (ascii "./a") false =
        some (ascii "/s/a") ∧
      fsResolve System.sandboxPriv (System.fileSandbox [])
        (fsRel System.sandboxPriv (ascii "/s/a")) false = some (ascii "/s/a") ∧
    ∀ requested path other shown,
      fsResolve System.sandboxPriv (System.fileSandbox []) requested false = some path →
      fsResolve System.sandboxPriv (System.fileSandbox []) other false = some shown →
      fsRel System.sandboxPriv path = fsRel System.sandboxPriv shown → path = shown := by
  have accepted : fsResolve System.sandboxPriv (System.fileSandbox []) (ascii "./a") false =
      some (ascii "/s/a") := by
    decide +kernel
  obtain ⟨names, apart⟩ :=
    fs_rel_names_file (fileSandbox_canonical []) (by decide) (by decide)
  exact ⟨accepted, names _ _ accepted, apart⟩

end FreeCli

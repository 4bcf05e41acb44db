import FreeCli.Library.PathWalk

namespace FreeCli

open Words FileTree

/-! Path safety of `fs_worker.c`. -/

def fsPathMax : Nat := 4096

/-- `root` as `fs_init` leaves it: the output of `realpath`. -/
structure FsPriv where
  rootLoc : Loc
  proper : ∀ name ∈ rootLoc, Proper name

def FsPriv.root (priv : FsPriv) : Bytes := render priv.rootLoc

/-- `strrchr(path, '/')`: the bytes before the last slash and after it -/
def strrchrSlash : Bytes → Option (Bytes × Bytes)
  | [] => none
  | byte :: rest =>
      match strrchrSlash rest with
      | some (front, base) => some (byte :: front, base)
      | none => if byte = slash then some ([], rest) else none

/-- The `for_create` branch. -/
def fsResolveParent (tree : Tree) (cand : Bytes) : Option Bytes := do
  let (dirPart, base) ← strrchrSlash cand
  if base = [] ∨ base = dot ∨ base = dotdot ∨ slash ∈ base then
    none
  else do
    let par ← realpath tree dirPart
    let resolved := par ++ slash :: base
    if resolved.length ≥ fsPathMax then none else some resolved

/-- `strncmp` with the root, and the byte after it -/
def withinRoot (root resolved : Bytes) : Prop :=
  root <+: resolved ∧
    (resolved.drop root.length = [] ∨
      (resolved.drop root.length).head? = some slash)

instance (root resolved : Bytes) : Decidable (withinRoot root resolved) :=
  inferInstanceAs (Decidable (_ ∧ _))

def fsResolve (priv : FsPriv) (tree : Tree) (requested : Bytes)
    (forCreate : Bool) : Option Bytes :=
  let requested := requested.dropWhile fun byte => byte == slash
  if requested = [] then
    some priv.root
  else
    let cand := priv.root ++ slash :: requested
    if cand.length ≥ fsPathMax then
      none
    else
      let found :=
        if forCreate then fsResolveParent tree cand else realpath tree cand
      found.bind fun resolved =>
        if withinRoot priv.root resolved then some resolved else none

/-- The part of a sandbox path that is shown. -/
def fsRel (priv : FsPriv) (absPath : Bytes) : Bytes :=
  if priv.root <+: absPath then
    let rel := absPath.drop priv.root.length
    let rel := if rel.head? = some slash then rel.tail else rel
    if rel = [] then ascii "." else rel
  else
    absPath

/-- What the string `fs_resolve` returns says about the file tree. -/
structure Resolved (priv : FsPriv) (tree : Tree) (forCreate : Bool)
    (abs : Bytes) (loc : Loc) : Prop where
  spells : Spells abs loc
  inside : priv.rootLoc <+: loc
  above : Plain tree loc.dropLast
  plain : forCreate = false → Plain tree loc

theorem strrchrSlash_eq_some (found : strrchrSlash path = some (front, base)) :
    path = front ++ slash :: base ∧ slash ∉ base := by
  induction path generalizing front with
  | nil => simp [strrchrSlash] at found
  | cons byte rest ih =>
      rw [strrchrSlash] at found
      split at found
      next before after later =>
        obtain ⟨rfl, rfl⟩ := Prod.ext_iff.1 (Option.some.inj found)
        obtain ⟨same, apart⟩ := ih later
        exact ⟨by rw [same]; rfl, apart⟩
      next none_later =>
        split at found
        next same =>
          obtain ⟨rfl, rfl⟩ := Prod.ext_iff.1 (Option.some.inj found)
          refine ⟨by rw [same]; rfl, ?_⟩
          clear ih found
          induction rest with
          | nil => simp
          | cons other rest ih =>
              rw [strrchrSlash] at none_later
              split at none_later
              next => contradiction
              next deeper =>
                split at none_later
                next => contradiction
                next differs =>
                  have apart := ih deeper
                  simp [apart, Ne.symm differs]
        next => contradiction

theorem fsResolveParent_eq_some {abs : Bytes}
    (resolved : fsResolveParent tree cand = some abs) :
    ∃ parent name, Spells abs (parent ++ [name]) ∧ Plain tree parent := by
  obtain ⟨⟨dirPart, base⟩, split, rest⟩ := Option.bind_eq_some_iff.1 resolved
  simp only at rest
  split at rest
  next => contradiction
  next good =>
    obtain ⟨par, canonical, rest⟩ := Option.bind_eq_some_iff.1 rest
    split at rest
    next => contradiction
    next =>
      obtain rfl := Option.some.inj rest
      obtain ⟨parent, rfl, plain, proper⟩ := realpath_eq_some canonical
      simp only [not_or] at good
      obtain ⟨nonempty, notDot, notDotdot, noSlash⟩ := good
      exact ⟨parent, base, (Spells.render proper).append
        ⟨nonempty, notDot, notDotdot, noSlash⟩, plain⟩

theorem fsResolve_eq_some {priv : FsPriv} {tree : Tree} {abs : Bytes}
    (canonical : Plain tree priv.rootLoc)
    (resolved : fsResolve priv tree requested forCreate = some abs) :
    ∃ loc, Resolved priv tree forCreate abs loc := by
  rw [fsResolve] at resolved
  split at resolved
  next =>
    obtain rfl := Option.some.inj resolved
    exact ⟨priv.rootLoc, Spells.render priv.proper, List.prefix_rfl,
      canonical.of_prefix (List.dropLast_prefix _), fun _ => canonical⟩
  next =>
    simp only at resolved
    split at resolved
    next => contradiction
    next =>
      obtain ⟨found, resolves, rest⟩ := Option.bind_eq_some_iff.1 resolved
      split at rest
      next within =>
        obtain rfl := Option.some.inj rest
        cases forCreate with
        | true =>
            rw [if_pos rfl] at resolves
            obtain ⟨parent, name, spells, plain⟩ :=
              fsResolveParent_eq_some resolves
            refine ⟨parent ++ [name], spells,
              spells.below priv.proper within.1 within.2, ?_, by simp⟩
            rwa [List.dropLast_concat]
        | false =>
            rw [if_neg (by simp)] at resolves
            obtain ⟨loc, rfl, plain, proper⟩ := realpath_eq_some resolves
            have spells := Spells.render proper
            exact ⟨loc, spells, spells.below priv.proper within.1 within.2,
              plain.of_prefix (List.dropLast_prefix _), fun _ => plain⟩
      next => contradiction

/-! Sandboxes for runs with values. -/

namespace System

def sandboxPriv : FsPriv where
  rootLoc := [ascii "s"]
  proper name member := by
    obtain rfl := List.mem_singleton.1 member
    exact ⟨by decide, by decide, by decide, by decide⟩

def emptySandbox : Tree :=
  Tree.bare.place [] (ascii "s") .dir (by simp) rfl rfl

theorem emptySandbox_plain : Plain emptySandbox sandboxPriv.rootLoc := by
  refine Plain.append (Plain.nil _) fun target link => ?_
  rw [show emptySandbox.node ([] ++ [ascii "s"]) = some .dir from rfl] at link
  cases link

theorem emptySandbox_dir : emptySandbox.node [ascii "s"] = some .dir := rfl

def fileSandbox (data : Bytes) : Tree :=
  (emptySandbox.newFile [ascii "s"] (ascii "a") emptySandbox_dir rfl).fwrite
    [ascii "s", ascii "a"] 0 data

theorem fileSandbox_resolved (data : Bytes) :
    fsResolve sandboxPriv (fileSandbox data) (ascii "a") false = some (ascii "/s/a") := rfl

theorem fileSandbox_walked (data : Bytes) :
    walk (fileSandbox data) true (ascii "/s/a") = .found [ascii "s", ascii "a"] := rfl

end System

end FreeCli

import FreeCli.Workers.ApprovalSlots

namespace FreeCli

open Words FileTree Slots

/-! Where the file operations of a worker end up. -/

variable {abs : Bytes} {loc : Loc}

theorem Resolved.stable {priv : FsPriv} {tree after : Tree}
    (resolved : Resolved priv tree forCreate abs loc)
    (plain : ∀ other, Plain tree other → Plain after other) :
    Resolved priv after forCreate abs loc where
  spells := resolved.spells
  inside := resolved.inside
  above := plain _ resolved.above
  plain existing := plain _ (resolved.plain existing)

/-- Removing goes by the directory part of the path and follows no link in its
last place. -/
theorem Resolved.remove_inside {priv : FsPriv} {tree after : Tree}
    (resolved : Resolved priv tree forCreate abs loc)
    (removed : tree.remove abs = some (gone, after)) :
    priv.rootLoc <+: gone := by
  obtain ⟨spells, inside, above, _⟩ := resolved
  have walked := (remove_eq_some removed).2
  rcases List.eq_nil_or_concat loc with rfl | ⟨parent, name, rfl⟩
  · rw [walk_spells_root spells] at walked
    cases walked
    exact inside
  · rw [List.concat_eq_append] at *
    rw [List.dropLast_concat] at above
    rcases walk_spells false spells above with failed | ⟨absent, _⟩ |
      ⟨found, _⟩ | ⟨follows, _⟩
    · rw [failed] at walked
      cases walked
    · rw [absent] at walked
      cases walked
    · rw [found] at walked
      cases walked
      exact inside
    · contradiction

/-- Opening for writing ends inside the sandbox unless the path names a link. -/
theorem Resolved.open_inside {priv : FsPriv} {tree after : Tree}
    (resolved : Resolved priv tree forCreate abs loc)
    (opened : tree.fopenWb abs = some (dest, inode, after)) :
    priv.rootLoc <+: dest ∨ (forCreate = true ∧
      ∃ target, tree.node loc = some (.link target)) := by
  obtain ⟨spells, inside, above, plain⟩ := resolved
  have walked := (fopenWb_eq_some opened).2
  rcases List.eq_nil_or_concat loc with rfl | ⟨parent, name, rfl⟩
  · rw [walk_spells_root spells] at walked
    rcases walked with found | ⟨_, _, absent, _⟩
    · cases found
      exact .inl inside
    · cases absent
  · rw [List.concat_eq_append] at *
    rw [List.dropLast_concat] at above
    rcases walk_spells true spells above with failed | ⟨absent, _⟩ |
      ⟨found, _⟩ | ⟨_, target, link⟩
    · rw [failed] at walked
      rcases walked with found | ⟨_, _, absent, _⟩
      · cases found
      · cases absent
    · rw [absent] at walked
      rcases walked with found | ⟨_, _, same, rfl⟩
      · cases found
      · cases same
        exact .inl inside
    · rw [found] at walked
      rcases walked with same | ⟨_, _, absent, _⟩
      · cases same
        exact .inl inside
      · cases absent
    · cases forCreate with
      | true => exact .inr ⟨rfl, target, link⟩
      | false => exact absurd link (plain rfl _ List.prefix_rfl target)

namespace WorkerThread

variable {priv : FsPriv} {thread next : WorkerThread} {env : WorkerEnv}
  {bus after : Bus}

/-- The step opens, removes or writes the file at `loc`. -/
inductive Touches (thread : WorkerThread) (env : WorkerEnv) (tree : Tree)
    (loc : Loc) : Prop
  | opens (op : FsOp) (inode : Nat) (after : Tree) (at_ : thread.phase = .change)
      (known : fsDispatch thread.op = some op) (writes : op ≠ .deleteFile)
      (works : env.fails = false)
      (opened : tree.fopenWb thread.abs = some (loc, inode, after))
  | removes (after : Tree) (at_ : thread.phase = .change)
      (known : fsDispatch thread.op = some .deleteFile) (works : env.fails = false)
      (removed : tree.remove thread.abs = some (loc, after))
  | writes (inode : Nat) (at_ : thread.phase = .write loc inode)

/-- `create_file` opens a name that is a link and leads out of the sandbox. -/
def Escapes (priv : FsPriv) (thread : WorkerThread) (env : WorkerEnv)
    (tree : Tree) : Prop :=
  thread.phase = .change ∧ fsDispatch thread.op = some .createFile ∧
    env.fails = false ∧ ∃ loc target dest inode after, Spells thread.abs loc ∧
      tree.node loc = some (.link target) ∧
      tree.fopenWb thread.abs = some (dest, inode, after) ∧ ¬priv.rootLoc <+: dest

/-- What the path and the open file of a thread are good for. -/
structure Confined (priv : FsPriv) (thread : WorkerThread) (tree : Tree) : Prop where
  path : ∀ op, thread.phase.gated = true → fsDispatch thread.op = some op →
    ∃ loc, Resolved priv tree (op = .createFile) thread.abs loc
  handle : ∀ loc inode, thread.phase = .write loc inode → priv.rootLoc <+: loc

theorem Confined.idle (ungated : thread.phase.gated = false) (tree : Tree) :
    thread.Confined priv tree where
  path op gated := by
    rw [ungated] at gated
    contradiction
  handle loc inode writing := by
    rw [writing] at ungated
    contradiction

theorem Confined.touches (confined : thread.Confined priv tree)
    (stays : ¬thread.Escapes priv env tree) (touches : thread.Touches env tree loc) :
    priv.rootLoc <+: loc := by
  cases touches with
  | opens op inode after at_ known writes works opened =>
      obtain ⟨named, resolved⟩ := confined.path op (by rw [at_]; rfl) known
      rcases resolved.open_inside opened with inside | ⟨create, target, link⟩
      · exact inside
      · by_contra outside
        obtain rfl : op = .createFile := by simpa using create
        exact stays ⟨at_, known, works, named, target, loc, inode, after,
          resolved.spells, link, opened, outside⟩
  | removes after at_ known works removed =>
      obtain ⟨named, resolved⟩ := confined.path _ (by rw [at_]; rfl) known
      exact resolved.remove_inside removed
  | writes inode at_ => exact confined.handle loc inode at_

theorem Move.plain (moved : thread.Move priv env bus next after) (loc : Loc)
    (plain : Plain bus.tree loc) : Plain after.tree loc := by
  rcases moved.tree with same | ⟨_, gone, removed⟩ | ⟨_, dest, inode, opened⟩ |
    ⟨dest, inode, _, written⟩
  · rwa [same]
  · exact plain.changesOnly (remove_eq_some removed).1
  · exact plain.changesOnly (fopenWb_eq_some opened).1
  · rw [written]
    exact plain.fwrite

theorem Confined.stable (confined : thread.Confined priv tree)
    (plain : ∀ loc, Plain tree loc → Plain other loc) :
    thread.Confined priv other where
  path op gated known := by
    obtain ⟨loc, resolved⟩ := confined.path op gated known
    exact ⟨loc, resolved.stable plain⟩
  handle := confined.handle

theorem Move.confined (moved : thread.Move priv env bus next after)
    (canonical : Plain bus.tree priv.rootLoc)
    (before : thread.Confined priv bus.tree)
    (stays : ¬thread.Escapes priv env bus.tree) :
    next.Confined priv after.tree := by
  have kept : ∀ phase : WorkerPhase, thread.phase.gated = true →
      (∀ loc inode, phase ≠ .write loc inode) →
      (thread.goto phase).Confined priv after.tree := by
    intro phase gated closed
    have stable := before.stable moved.plain
    exact ⟨fun op _ known => stable.path op gated known,
      fun loc inode writing => absurd writing (closed loc inode)⟩
  cases moved with
  | resolved op path abs known at_ found =>
      refine ⟨fun other _ same => ?_, fun loc inode writing => ?_⟩
      · obtain rfl := Option.some.inj (known.symm.trans same)
        exact fsResolve_eq_some canonical found
      · cases op <;> cases writing
  | missing op known at_ free => exact kept _ (by rw [at_]; rfl) (by simp)
  | claimed slot at_ free => exact kept _ (by rw [at_]; rfl) (by simp)
  | asked op slot known at_ => exact kept _ (by rw [at_]; rfl) (by simp)
  | waits slot at_ => exact kept _ (by rw [at_]; rfl) (by simp)
  | decided slot pending at_ held => exact kept _ (by rw [at_]; rfl) (by simp)
  | timedOut slot pending at_ late held => exact kept _ (by rw [at_]; rfl) (by simp)
  | woken slot at_ early => exact kept _ (by rw [at_]; rfl) (by simp)
  | granted slot at_ => exact kept _ (by rw [at_]; rfl) (by simp)
  | opened op loc inode tree at_ known writes works worked =>
      have inside := before.touches stays
        (.opens op inode tree at_ known writes works worked)
      refine ⟨fun other _ same => ?_, fun dest number writing => ?_⟩
      · obtain ⟨named, resolved⟩ := before.path other (by rw [at_]; rfl) same
        exact ⟨named, resolved.stable fun _ plain =>
          plain.changesOnly (fopenWb_eq_some worked).1⟩
      · cases writing
        exact inside
  | _ => exact .idle rfl _

theorem Move.touches (moved : thread.Move priv env bus next after) (loc : Loc)
    (changed : after.tree.node loc ≠ bus.tree.node loc) :
    thread.Touches env bus.tree loc := by
  cases moved with
  | removed gone tree at_ known works worked =>
      obtain rfl : loc = gone := by
        by_contra differs
        exact changed ((remove_eq_some worked).1.others loc differs)
      exact .removes tree at_ known works worked
  | opened op dest inode tree at_ known writes works worked =>
      obtain rfl : loc = dest := by
        by_contra differs
        exact changed ((fopenWb_eq_some worked).1.others loc differs)
      exact .opens op inode tree at_ known writes works worked
  | written dest inode success result at_ =>
      obtain rfl : loc = dest := by
        by_contra differs
        exact changed (fwrite_others _ _ _ _ differs)
      exact .writes inode at_
  | _ => exact absurd rfl changed

end WorkerThread

end FreeCli

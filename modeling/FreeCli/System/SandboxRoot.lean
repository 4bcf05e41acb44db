import FreeCli.System.Sandbox

namespace FreeCli

open Words FileTree Transition

/-! The directories of the sandbox.  Only `delete_file` can remove one. -/

namespace WorkerThread

variable {priv : FsPriv} {thread next : WorkerThread} {env : WorkerEnv} {bus after : Bus}
  {loc : Loc}

/-- `delete_file` is about to call `remove` on an empty directory. -/
def RemovesDir (thread : WorkerThread) (env : WorkerEnv) (tree : Tree) : Prop :=
  thread.phase = .change ∧ fsDispatch thread.op = some .deleteFile ∧ env.fails = false ∧
    RemovableDir tree thread.abs

theorem Move.keeps_dir (moved : thread.Move priv env bus next after)
    (kept : ¬thread.RemovesDir env bus.tree) (dir : bus.tree.node loc = some .dir) :
    after.tree.node loc = some .dir := by
  cases moved with
  | removed gone tree at_ known works worked =>
      exact remove_dir worked (fun removable => kept ⟨at_, known, works, removable⟩) dir
  | opened op dest inode tree at_ known writes works worked => exact fopenWb_dir worked dir
  | written dest inode success result at_ => exact fwrite_dir dir
  | _ => exact dir

theorem RemovesDir.step (removes : thread.RemovesDir env bus.tree)
    (stepped : thread.step priv env bus = some (next, after)) :
    ∃ loc, bus.tree.node loc = some .dir ∧ after.tree.node loc = none := by
  obtain ⟨at_, known, works, removable⟩ := removes
  obtain ⟨loc, tree, removed, dir, gone⟩ := removable.removed
  rw [WorkerThread.step.eq_def, at_] at stepped
  simp only [known, stepOp, at_, change, works, Bool.false_eq_true, if_false, removed,
    Option.some.injEq, Prod.mk.injEq] at stepped
  obtain ⟨_, rfl⟩ := stepped
  exact ⟨loc, dir, gone⟩

end WorkerThread

namespace System

variable {priv : FsPriv} {sys dst : System} {label : Label}
  {trace : List (Taken System Label)}

/-- `fs_init` has succeeded: the root is a directory. -/
def Ready (priv : FsPriv) (sys : System) : Prop :=
  Start priv sys ∧ sys.bus.tree.node priv.rootLoc = some .dir

def RemovesDir (taken : Taken System Label) : Prop :=
  ∃ (i : Nat) (env : WorkerEnv) (thread : WorkerThread),
    taken.label = .worker i env ∧ taken.src.workers[i]? = some thread ∧
      thread.RemovesDir env taken.src.bus.tree

def KeepsDirs (taken : Taken System Label) : Prop :=
  ∀ loc, taken.src.bus.tree.node loc = some .dir → taken.dst.bus.tree.node loc = some .dir

theorem Move.keepsDirs (moved : sys.Move priv label dst)
    (kept : ¬RemovesDir ⟨sys, label, dst⟩) : KeepsDirs ⟨sys, label, dst⟩ := by
  intro loc dir
  cases moved with
  | worker i env thread next bus here moved =>
      exact moved.keeps_dir (fun removes => kept ⟨i, env, thread, rfl, here, removes⟩) dir
  | recv msg rest waiting => cases msg <;> exact dir
  | _ => exact dir

theorem RemovesDir.not_keepsDirs (removes : RemovesDir ⟨sys, label, dst⟩)
    (stepped : System.step priv sys label = some dst) : ¬KeepsDirs ⟨sys, label, dst⟩ := by
  obtain ⟨i, env, thread, same, here, removes⟩ := removes
  obtain rfl : label = .worker i env := same
  obtain ⟨other, there, worked⟩ := Option.bind_eq_some_iff.1 stepped
  obtain rfl := Option.some.inj (here.symm.trans there)
  obtain ⟨⟨next, after⟩, ran, rfl⟩ := Option.map_eq_some_iff.1 worked
  obtain ⟨loc, dir, gone⟩ := removes.step ran
  intro keeps
  have kept : after.tree.node loc = some .dir := keeps loc dir
  rw [gone] at kept
  contradiction

/-- In every run the root stays and no step removes a directory, just when no
`delete_file` calls `remove` on an empty directory. -/
theorem sandbox_root_survives (run : Run (System.step priv) (Ready priv) trace sys) :
    (sys.bus.tree.node priv.rootLoc = some .dir ∧ ∀ taken ∈ trace, KeepsDirs taken) ↔
      ∀ taken ∈ trace, ¬RemovesDir taken := by
  constructor
  · rintro ⟨_, keeps⟩ taken member removes
    obtain ⟨_, _, _, _, stepped⟩ := run.prefix_of_mem member
    exact removes.not_keepsDirs stepped (keeps taken member)
  · intro kept
    refine ⟨run.invariant (fun taken => ¬RemovesDir taken)
      (fun sys => sys.bus.tree.node priv.rootLoc = some .dir) (fun sys ready => ready.2)
      (fun src label dst root stepped kept => (step_move stepped).keepsDirs kept _ root) kept,
      fun taken member => ?_⟩
    obtain ⟨_, _, _, _, stepped⟩ := run.prefix_of_mem member
    exact (step_move stepped).keepsDirs (kept taken member)

theorem fresh_ready : Ready sandboxPriv (fresh emptySandbox) :=
  ⟨fresh_start emptySandbox_plain, rfl⟩

def createDeleteLabels : List Label :=
  createLabels ++ [line "/fs delete a", .recv] ++ List.replicate 4 (workAs 1 "a" "") ++
    [.poll [] [], press 'y'.toNat, .recv] ++ List.replicate 4 (workAs 1 "a" "")

theorem sandbox_root_survives_create : ∃ (trace : List (Taken System Label)) (sys : System),
    (∃ taken ∈ trace, taken.src.bus.tree.node [ascii "s", ascii "a"] ≠ none ∧
      taken.dst.bus.tree.node [ascii "s", ascii "a"] = none) ∧
    ((sys.bus.tree.node sandboxPriv.rootLoc = some .dir ∧ ∀ taken ∈ trace, KeepsDirs taken) ↔
      ∀ taken ∈ trace, ¬RemovesDir taken) := by
  have deletes : ∃ taken ∈ execTrace (System.step sandboxPriv) createDeleteLabels
      (fresh emptySandbox), taken.src.bus.tree.node [ascii "s", ascii "a"] ≠ none ∧
        taken.dst.bus.tree.node [ascii "s", ascii "a"] = none := by
    decide +kernel
  have ends : (exec (System.step sandboxPriv) createDeleteLabels (fresh emptySandbox)).isSome := by
    decide +kernel
  obtain ⟨sys, ran⟩ := Option.isSome_iff_exists.1 ends
  have run := Run.of_exec fresh_ready ran
  exact ⟨_, sys, deletes, sandbox_root_survives run⟩

def deleteRootLabels : List Label :=
  [line "/fs delete .", .recv] ++ List.replicate 4 (work "." "") ++
    [.poll [] [], press 'y'.toNat, .recv] ++ List.replicate 4 (work "." "")

/-- The empty sandbox itself is removed. -/
theorem sandbox_root_deleted : ¬∀ (priv : FsPriv) (trace : List (Taken System Label))
    (sys : System), Run (System.step priv) (Ready priv) trace sys →
      sys.bus.tree.node priv.rootLoc = some .dir ∧ ∀ taken ∈ trace, KeepsDirs taken := by
  intro survives
  have deleted : (exec (System.step sandboxPriv) deleteRootLabels
      (fresh emptySandbox)).map (fun sys => sys.bus.tree.node sandboxPriv.rootLoc) =
        some none := by decide +kernel
  obtain ⟨sys, ran, gone⟩ := Option.map_eq_some_iff.1 deleted
  have run := Run.of_exec fresh_ready ran
  have root := (survives _ _ _ run).1
  rw [gone] at root
  exact absurd root (by simp)

end System

end FreeCli

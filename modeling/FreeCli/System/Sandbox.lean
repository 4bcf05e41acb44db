import FreeCli.System.Approval
import FreeCli.Workers.Confinement

namespace FreeCli

open Words FileTree Slots Transition

/-! The sandbox.  What is created, truncated, written or removed is below its
root, except for what `create_file` reaches through a link. -/

namespace System

variable {priv : FsPriv} {sys dst : System} {label : Label}
  {trace : List (Taken System Label)}

def Touches (taken : Taken System Label) (loc : Loc) : Prop :=
  ∃ (i : Nat) (env : WorkerEnv) (thread : WorkerThread),
    taken.label = .worker i env ∧ taken.src.workers[i]? = some thread ∧
      thread.Touches env taken.src.bus.tree loc

/-- A worker's `create_file` opens a link that leads out of the sandbox. -/
def Escapes (priv : FsPriv) (taken : Taken System Label) : Prop :=
  ∃ (i : Nat) (env : WorkerEnv) (thread : WorkerThread),
    taken.label = .worker i env ∧ taken.src.workers[i]? = some thread ∧
      thread.Escapes priv env taken.src.bus.tree

structure Sandboxed (priv : FsPriv) (sys : System) : Prop where
  canonical : Plain sys.bus.tree priv.rootLoc
  confined : ∀ (i : Nat) (thread : WorkerThread), sys.workers[i]? = some thread →
    thread.Confined priv sys.bus.tree

theorem Move.plain (moved : sys.Move priv label dst) (loc : Loc)
    (plain : Plain sys.bus.tree loc) : Plain dst.bus.tree loc := by
  cases moved with
  | worker i env thread next bus here moved => exact moved.plain loc plain
  | recv msg rest waiting => cases msg <;> exact plain
  | _ => exact plain

theorem Sandboxed.move (sandboxed : Sandboxed priv sys)
    (moved : sys.Move priv label dst) (stays : ¬Escapes priv ⟨sys, label, dst⟩) :
    Sandboxed priv dst where
  canonical := moved.plain _ sandboxed.canonical
  confined i after here := by
    rcases moved.worker_from here with ⟨same, _⟩ | ⟨env, thread, step, there, move⟩ |
      ⟨_, fresh⟩
    · exact (sandboxed.confined i after same).stable moved.plain
    · exact move.confined sandboxed.canonical (sandboxed.confined i thread there)
        fun escapes => stays ⟨i, env, thread, step, there, escapes⟩
    · rcases fresh with at_ | ⟨result, at_⟩
      · exact .idle (by rw [at_]; rfl) _
      · exact .idle (by rw [at_]; rfl) _

theorem run_sandboxed (run : Run (System.step priv) (Start priv) trace sys)
    (stays : ∀ taken ∈ trace, ¬Escapes priv taken) : Sandboxed priv sys := by
  refine run.invariant (fun taken => ¬Escapes priv taken) (Sandboxed priv) ?_
    (fun _ _ _ sandboxed stepped stays => sandboxed.move (step_move stepped) stays)
    stays
  intro sys started
  refine ⟨started.canonical, fun i thread here => ?_⟩
  rw [started.workers] at here
  contradiction

theorem Move.touches (moved : sys.Move priv label dst) (loc : Loc)
    (changed : dst.bus.tree.node loc ≠ sys.bus.tree.node loc) :
    Touches ⟨sys, label, dst⟩ loc := by
  cases moved with
  | worker i env thread next bus here moved =>
      exact ⟨i, env, thread, rfl, here, moved.touches loc changed⟩
  | recv msg rest waiting => cases msg <;> exact absurd rfl changed
  | _ => exact absurd rfl changed

theorem Escapes.touches (escapes : Escapes priv taken) :
    ∃ loc, Touches taken loc ∧ ¬priv.rootLoc <+: loc := by
  obtain ⟨i, env, thread, step, here, at_, known, works, _, _, dest, inode, after, _,
    _, opened, outside⟩ := escapes
  exact ⟨dest, ⟨i, env, thread, step, here, .opens _ inode after at_ known
    (by simp) works opened⟩, outside⟩

/-- Every change is one of a file that is touched, and all files touched in a run
are in the sandbox just when no `create_file` goes out of it through a link. -/
theorem sandbox_contained (run : Run (System.step priv) (Start priv) trace sys) :
    (∀ taken ∈ trace, ∀ loc,
      taken.dst.bus.tree.node loc ≠ taken.src.bus.tree.node loc →
        Touches taken loc) ∧
    ((∀ taken ∈ trace, ∀ loc, Touches taken loc → priv.rootLoc <+: loc) ↔
      ∀ taken ∈ trace, ¬Escapes priv taken) := by
  refine ⟨fun taken member loc changed => ?_, fun inside taken member escapes => ?_,
    fun stays taken member loc touches => ?_⟩
  · obtain ⟨_, _, _, _, stepped⟩ := run.prefix_of_mem member
    exact (step_move stepped).touches loc changed
  · obtain ⟨loc, touches, outside⟩ := escapes.touches
    exact outside (inside taken member loc touches)
  · obtain ⟨earlier, later, rfl, before, _⟩ := run.prefix_of_mem member
    have sandboxed := run_sandboxed before fun other earlier =>
      stays other (List.mem_append_left _ earlier)
    obtain ⟨i, env, thread, step, here, touched⟩ := touches
    refine (sandboxed.confined i thread here).touches ?_ touched
    exact fun escapes => stays taken member ⟨i, env, thread, step, here, escapes⟩

theorem sandbox_contained_create : ∃ (trace : List (Taken System Label))
    (sys : System),
    sys.bus.tree.node [ascii "s", ascii "a"] = some (.file 0 (ascii "hi")) ∧
    (∀ taken ∈ trace, ∀ loc,
      taken.dst.bus.tree.node loc ≠ taken.src.bus.tree.node loc →
        Touches taken loc) ∧
    ((∀ taken ∈ trace, ∀ loc, Touches taken loc → sandboxPriv.rootLoc <+: loc) ↔
      ∀ taken ∈ trace, ¬Escapes sandboxPriv taken) := by
  obtain ⟨sys, ran, file⟩ := createLabels_run
  have run := Run.of_exec (fresh_start emptySandbox_plain) ran
  exact ⟨_, sys, file, sandbox_contained run⟩

def linkSandbox : Tree :=
  emptySandbox.place [ascii "s"] (ascii "l") (.link (ascii "/out")) (by simp) rfl rfl

theorem linkSandbox_plain : Plain linkSandbox sandboxPriv.rootLoc := by
  refine Plain.append (Plain.nil _) fun target link => ?_
  rw [show linkSandbox.node ([] ++ [ascii "s"]) = some .dir from rfl] at link
  cases link

def escapeLabels : List Label :=
  [line "/fs create l", .recv] ++ List.replicate 5 (work "l" "hi") ++
    [.poll [] [], press 'y'.toNat, .recv] ++ List.replicate 3 (work "l" "hi")

/-- `create_file` creates `/out`. -/
theorem sandbox_not_contained : ¬∀ (priv : FsPriv) (trace : List (Taken System Label))
    (sys : System), Run (System.step priv) (Start priv) trace sys →
      ∀ taken ∈ trace, ∀ loc, Touches taken loc → priv.rootLoc <+: loc := by
  intro contained
  have escapes : (exec (System.step sandboxPriv) escapeLabels
      (fresh linkSandbox)).bind (fun sys =>
        (System.step sandboxPriv sys (work "l" "hi")).map fun dst =>
          (sys.bus.tree.node [ascii "out"], dst.bus.tree.node [ascii "out"])) =
      some (none, some (.file 0 [])) := by decide +kernel
  obtain ⟨sys, ran, stepped⟩ := Option.bind_eq_some_iff.1 escapes
  obtain ⟨dst, stepped, changes⟩ := Option.map_eq_some_iff.1 stepped
  obtain ⟨before, after⟩ := Prod.mk.inj changes
  have run := Run.of_exec (fresh_start linkSandbox_plain) ran
  have touches := (step_move stepped).touches [ascii "out"] (by
    rw [before, after]
    simp)
  have inside := contained _ _ _ (run.snoc stepped) _ (by simp) _ touches
  exact absurd inside (by decide)

end System

end FreeCli

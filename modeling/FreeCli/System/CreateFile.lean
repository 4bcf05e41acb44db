import FreeCli.Library.WalkChanges
import FreeCli.System.Approval

namespace FreeCli

open Words FileTree Transition

/-! `create_file` between its check that nothing is there and its `fopen`. -/

def WorkerPhase.checked : WorkerPhase → Bool
  | .claim | .ask _ | .wait _ | .blocked _ | .release .. | .change => true
  | _ => false

namespace WorkerThread

variable {priv : FsPriv} {thread next : WorkerThread} {env : WorkerEnv} {bus after : Bus}

def Creates (thread : WorkerThread) : Prop := fsDispatch thread.op = some .createFile

/-- It has found nothing at its path, and has not opened it. -/
def Pending (thread : WorkerThread) : Prop := thread.Creates ∧ thread.phase.checked = true

/-- Its `fopen` is about to make the file `name` in the directory `parent`. -/
def Makes (thread : WorkerThread) (env : WorkerEnv) (tree : Tree) (parent : Loc)
    (name : Name) : Prop :=
  thread.phase = .change ∧ fsDispatch thread.op ≠ some .deleteFile ∧ env.fails = false ∧
    walk tree true thread.abs = .absent parent name

theorem Move.pending_from (moved : thread.Move priv env bus next after)
    (pending : next.Pending) : after.tree = bus.tree ∧ next.abs = thread.abs ∧
      (thread.Pending ∨ statOk bus.tree thread.abs = false) := by
  obtain ⟨creates, checked⟩ := pending
  cases moved with
  | resolved op path abs known at_ found =>
      obtain rfl := Option.some.inj (known.symm.trans creates)
      contradiction
  | missing op known at_ free => exact ⟨rfl, rfl, .inr free⟩
  | claimed slot at_ free => exact ⟨rfl, rfl, .inl ⟨creates, by rw [at_]; rfl⟩⟩
  | asked op slot known at_ => exact ⟨rfl, rfl, .inl ⟨creates, by rw [at_]; rfl⟩⟩
  | waits slot at_ => exact ⟨rfl, rfl, .inl ⟨creates, by rw [at_]; rfl⟩⟩
  | decided slot pending at_ held => exact ⟨rfl, rfl, .inl ⟨creates, by rw [at_]; rfl⟩⟩
  | timedOut slot pending at_ late held =>
      exact ⟨rfl, rfl, .inl ⟨creates, by rw [at_]; rfl⟩⟩
  | woken slot at_ early => exact ⟨rfl, rfl, .inl ⟨creates, by rw [at_]; rfl⟩⟩
  | granted slot at_ => exact ⟨rfl, rfl, .inl ⟨creates, by rw [at_]; rfl⟩⟩
  | _ => contradiction

/-- A path comes into being only where a file is made. -/
theorem Move.appears (moved : thread.Move priv env bus next after)
    (there : statOk after.tree path = true) : statOk bus.tree path = true ∨
      ∃ parent name, thread.Makes env bus.tree parent name ∧
        walk bus.tree true path = .absent parent name := by
  cases moved with
  | removed loc tree at_ known works worked =>
      exact .inl (statOk_within (remove_within worked) there)
  | opened op loc inode tree at_ known writes works worked =>
      rcases fopenWb_appears worked there with before | ⟨parent, name, own, other⟩
      · exact .inl before
      · refine .inr ⟨parent, name, ⟨at_, ?_, works, own⟩, other⟩
        rw [known]
        exact fun same => writes (Option.some.inj same)
  | written loc inode success result at_ => exact .inl (statOk_within fwrite_within there)
  | _ => exact .inl there

theorem Move.disappears (moved : thread.Move priv env bus next after)
    (there : statOk bus.tree path = true) (gone : statOk after.tree path = false) :
    fsDispatch thread.op = some .deleteFile ∧
      ∃ loc, bus.tree.remove thread.abs = some (loc, after.tree) := by
  have stays : ¬Within bus.tree after.tree := by
    intro within
    rw [statOk_within within there] at gone
    contradiction
  cases moved with
  | removed loc tree at_ known works worked => exact ⟨known, loc, worked⟩
  | opened op loc inode tree at_ known writes works worked =>
      exact absurd (within_fopenWb worked) stays
  | written loc inode success result at_ => exact absurd within_fwrite stays
  | _ => exact absurd (Within.refl bus.tree) stays

theorem step_opens (creates : thread.Creates) (at_ : thread.phase = .change)
    (works : env.fails = false)
    (opened : bus.tree.fopenWb thread.abs = some (loc, inode, tree)) :
    thread.step priv env bus = some (thread.goto (.write loc inode), { bus with tree }) := by
  rw [Creates] at creates
  rw [step.eq_def, at_]
  simp only [creates, stepOp, at_, change, works, Bool.false_eq_true, if_false, opened]

theorem Move.unread (moved : thread.Move priv env bus next after) (creates : thread.Creates)
    (unread : thread.phase ≠ .progress) : next.phase ≠ .progress ∧ next.phase ≠ .look := by
  cases moved with
  | resolved op path abs known at_ found =>
      obtain rfl := Option.some.inj (known.symm.trans creates)
      simp [afterResolve]
  | progressed description at_ => exact absurd at_ unread
  | _ => simp [goto]

theorem Move.success_from {text : Bytes} (moved : thread.Move priv env bus next after)
    (creates : thread.Creates) (success : next.phase = .reply true text) :
    thread.phase.Early ∨ ∃ loc inode, thread.phase = .write loc inode := by
  rw [Creates] at creates
  cases moved with
  | ends ok result early running =>
      rcases early with early | unknown
      · exact .inl early
      · rw [creates] at unknown
        contradiction
  | written loc inode ok result at_ => exact .inr ⟨loc, inode, at_⟩
  | removed loc tree at_ known works worked =>
      rw [creates] at known
      contradiction
  | resolved op path abs known at_ found => cases op <;> contradiction
  | denied slot result at_ => cases success
  | _ => contradiction

theorem step_success {text : Bytes} (stepped : thread.step priv env bus = some (next, after))
    (creates : thread.Creates) (unread : thread.phase ≠ .look)
    (success : next.phase = .reply true text) :
    ∃ loc inode, thread.phase = .write loc inode := by
  rcases (step_move stepped).success_from creates success with early | wrote
  swap
  · exact wrote
  rw [Creates] at creates
  rw [step.eq_def] at stepped
  -- before the write every reply is an error
  rcases early with at_ | at_ | at_ | at_ | at_
  · simp only [at_, creates, stepOp, Option.some.injEq, Prod.mk.injEq] at stepped
    obtain ⟨rfl, _⟩ := stepped
    rw [resolve] at success
    split at success
    next => cases success
    next =>
      split at success
      next => cases success
      next => cases success
  · exact absurd at_ unread
  · simp only [at_, creates, stepOp, Option.some.injEq, Prod.mk.injEq] at stepped
    obtain ⟨rfl, _⟩ := stepped
    split at success
    next => cases success
    next => cases success
  · simp only [at_, creates, stepOp, claim, Option.some.injEq] at stepped
    split at stepped
    next => cases stepped; cases success
    next => cases stepped; cases success
  · simp only [at_, creates, stepOp, change, Option.some.injEq] at stepped
    split at stepped
    next => cases stepped; cases success
    next => cases stepped; cases success

end WorkerThread

namespace System

variable {priv : FsPriv} {sys dst : System} {label : Label}
  {trace : List (Taken System Label)} {abs : Bytes} {c : Nat}

/-! ### What is to be said of a run -/

/-- The `create_file` request `c` opens its path `abs`. -/
def CreateOpens (c : Nat) (abs : Bytes) (loc : Loc) (inode : Nat)
    (taken : Taken System Label) : Prop :=
  ∃ thread, Works thread taken ∧ thread.Creates ∧ thread.phase = .change ∧
    thread.corrId = c ∧ thread.abs = abs ∧
    taken.src.bus.tree.fopenWb abs = some (loc, inode, taken.dst.bus.tree)

def CreateWrites (c : Nat) (abs : Bytes) (loc : Loc) (inode : Nat)
    (taken : Taken System Label) : Prop :=
  ∃ thread, Works thread taken ∧ thread.Creates ∧ thread.phase = .write loc inode ∧
    thread.corrId = c ∧ thread.abs = abs

/-- The `create_file` request `c` replies success. -/
def CreateSucceeds (c : Nat) (abs : Bytes) (taken : Taken System Label) : Prop :=
  ∃ thread text, Works thread taken ∧ thread.Creates ∧ thread.phase = .reply true text ∧
    thread.corrId = c ∧ thread.abs = abs

def DeletesFile (taken : Taken System Label) : Prop :=
  ∃ thread loc, Works thread taken ∧ fsDispatch thread.op = some .deleteFile ∧
    taken.src.bus.tree.remove thread.abs = some (loc, taken.dst.bus.tree)

/-- A file is made where the path of another `create_file` leads that has passed its
check. -/
def Collides (taken : Taken System Label) : Prop :=
  ∃ (i : Nat) (env : WorkerEnv) (thread : WorkerThread) (j : Nat) (other : WorkerThread),
    taken.label = .worker i env ∧ taken.src.workers[i]? = some thread ∧ j ≠ i ∧
      taken.src.workers[j]? = some other ∧ other.Pending ∧
      ∃ parent name, thread.Makes env taken.src.bus.tree parent name ∧
        walk taken.src.bus.tree true other.abs = .absent parent name

/-- No `create_file` of a run truncates or overwrites a file that was there when it
opened its path. -/
structure NeverOverwrites (trace : List (Taken System Label)) : Prop where
  /-- `fopen` finds nothing, and makes a file with a number of its own -/
  opens : ∀ taken ∈ trace, ∀ c abs loc inode, CreateOpens c abs loc inode taken →
    taken.src.bus.tree.node loc = none ∧
      ∀ other data, taken.src.bus.tree.node other ≠ some (.file inode data)
  /-- only that file is written -/
  writes : ∀ earlier taken later, trace = earlier ++ taken :: later →
    ∀ c abs loc inode, CreateWrites c abs loc inode taken →
      ∃ opened ∈ earlier, CreateOpens c abs loc inode opened
  /-- a success was such an `fopen` -/
  succeeds : ∀ earlier taken later, trace = earlier ++ taken :: later →
    ∀ c abs, CreateSucceeds c abs taken →
      ∃ opened ∈ earlier, ∃ loc inode, CreateOpens c abs loc inode opened
  /-- between two for one path, what was there was deleted -/
  once : ∀ earlier first middle second later,
    trace = earlier ++ first :: (middle ++ second :: later) →
    ∀ c other abs loc place inode number, CreateOpens c abs loc inode first →
      CreateOpens other abs place number second → ∃ taken ∈ middle, DeletesFile taken ∧
        statOk taken.src.bus.tree abs = true ∧ statOk taken.dst.bus.tree abs = false

/-! ### Nothing is at the path of a pending request -/

def PendingAbsent (sys : System) : Prop :=
  ∀ (i : Nat) (thread : WorkerThread), sys.workers[i]? = some thread → thread.Pending →
    statOk sys.bus.tree thread.abs = false

theorem Move.tree_worker (moved : sys.Move priv label dst) :
    dst.bus.tree = sys.bus.tree ∨ ∃ i env thread next, label = .worker i env ∧
      sys.workers[i]? = some thread ∧ thread.Move priv env sys.bus next dst.bus := by
  cases moved with
  | worker i env thread next bus here moved =>
      exact .inr ⟨i, env, thread, next, rfl, here, moved⟩
  | recv msg rest waiting => cases msg <;> exact .inl rfl
  | _ => exact .inl rfl

theorem Move.pendingAbsent (moved : sys.Move priv label dst) (before : sys.PendingAbsent)
    (apart : ¬Collides ⟨sys, label, dst⟩) : dst.PendingAbsent := by
  intro i after here pending
  rcases moved.worker_from here with ⟨same, idle⟩ | ⟨env, thread, _, there, move⟩ |
    ⟨_, fresh⟩
  · -- another thread moves, if any
    have absent := before i after same pending
    rcases moved.tree_worker with unchanged | ⟨k, env, other, next, active, there, move⟩
    · rw [unchanged, absent]
    · by_contra appeared
      rcases move.appears (by simpa using appeared) with was | ⟨parent, name, makes, leads⟩
      · rw [absent] at was
        contradiction
      · have differs : i ≠ k := fun equal => idle env (equal ▸ active)
        exact apart ⟨k, env, other, i, after, active, there, differs, same, pending, parent,
          name, makes, leads⟩
  · obtain ⟨tree, path, from_⟩ := move.pending_from pending
    rw [tree, path]
    rcases from_ with was | absent
    · exact before i thread there was
    · exact absent
  · obtain ⟨_, checked⟩ := pending
    rcases fresh with at_ | ⟨result, at_⟩
    · rw [at_] at checked
      contradiction
    · rw [at_] at checked
      contradiction

theorem run_pendingAbsent (run : Run (System.step priv) (Start priv) trace sys)
    (apart : ∀ taken ∈ trace, ¬Collides taken) : sys.PendingAbsent := by
  refine run.invariant (fun taken => ¬Collides taken) PendingAbsent ?_
    (fun _ _ _ before stepped apart => (step_move stepped).pendingAbsent before apart) apart
  intro sys started i thread here
  rw [started.workers] at here
  contradiction

theorem PendingAbsent.opens (absent : sys.PendingAbsent)
    (opens : CreateOpens c abs loc inode ⟨sys, label, dst⟩) :
    statOk sys.bus.tree abs = false ∧ sys.bus.tree.node loc = none ∧
      ∀ other data, sys.bus.tree.node other ≠ some (.file inode data) := by
  obtain ⟨thread, ⟨i, env, _, here⟩, creates, at_, _, rfl, opened⟩ := opens
  have missing := absent i thread here ⟨creates, by rw [at_]; rfl⟩
  rcases fopenWb_cases opened with ⟨walked, _⟩ | ⟨parent, name, _, rfl, rfl, _, nothing, _⟩
  · rw [statOk_iff.2 ⟨loc, walked⟩] at missing
    contradiction
  · refine ⟨missing, nothing, fun other data file => ?_⟩
    exact absurd (sys.bus.tree.fresh other _ data file) (Nat.lt_irrefl _)

/-! ### The open of a request that writes or succeeds -/

/-- What a thread of a `create_file` that far has done. -/
structure Opened (trace : List (Taken System Label)) (thread : WorkerThread) : Prop where
  unread : thread.phase ≠ .progress ∧ thread.phase ≠ .look
  writing : ∀ loc inode, thread.phase = .write loc inode →
    ∃ taken ∈ trace, CreateOpens thread.corrId thread.abs loc inode taken
  success : ∀ text, thread.phase = .reply true text →
    ∃ taken ∈ trace, ∃ loc inode, CreateOpens thread.corrId thread.abs loc inode taken

theorem Opened.more (opened : Opened trace thread) (taken : Taken System Label) :
    Opened (trace ++ [taken]) thread where
  unread := opened.unread
  writing loc inode at_ := by
    obtain ⟨open_, member, opens⟩ := opened.writing loc inode at_
    exact ⟨open_, List.mem_append_left _ member, opens⟩
  success text at_ := by
    obtain ⟨open_, member, opens⟩ := opened.success text at_
    exact ⟨open_, List.mem_append_left _ member, opens⟩

theorem Opened.fresh {thread : WorkerThread}
    (fresh : thread.phase = .start ∨ ∃ result, thread.phase = .reply false result) :
    Opened trace thread := by
  rcases fresh with at_ | ⟨result, at_⟩
  · exact ⟨by simp [at_], by simp [at_], by simp [at_]⟩
  · exact ⟨by simp [at_], by simp [at_], by simp [at_]⟩

theorem worker_step (stepped : System.step priv sys (.worker i env) = some dst)
    {thread after : WorkerThread} (there : sys.workers[i]? = some thread)
    (here : dst.workers[i]? = some after) :
    thread.step priv env sys.bus = some (after, dst.bus) := by
  obtain ⟨other, found, worked⟩ := Option.bind_eq_some_iff.1 stepped
  obtain rfl := Option.some.inj (there.symm.trans found)
  obtain ⟨⟨next, bus⟩, ran, rfl⟩ := Option.map_eq_some_iff.1 worked
  obtain ⟨bound, _⟩ := List.getElem?_eq_some_iff.1 there
  obtain rfl := Option.some.inj ((List.getElem?_set_self bound).symm.trans here)
  exact ran

theorem Opened.step {thread after : WorkerThread} (opened : Opened trace thread)
    (creates : thread.Creates) (there : sys.workers[i]? = some thread)
    (stepped : thread.step priv env sys.bus = some (after, dst.bus)) :
    Opened (trace ++ [⟨sys, .worker i env, dst⟩]) after := by
  have moved := WorkerThread.step_move stepped
  obtain ⟨corr, _, keeps⟩ := moved.keeps
  refine ⟨moved.unread creates opened.unread.1, fun loc inode at_ => ?_,
    fun text at_ => ?_⟩
  · obtain ⟨change, worked⟩ := moved.write_from at_
    obtain ⟨_, path⟩ := keeps (by simp [change])
    rw [corr, path]
    exact ⟨_, List.mem_append_right _ (List.mem_singleton.2 rfl), thread,
      ⟨i, env, rfl, there⟩, creates, change, rfl, rfl, worked⟩
  · obtain ⟨loc, inode, writing⟩ :=
      WorkerThread.step_success stepped creates opened.unread.2 at_
    obtain ⟨_, path⟩ := keeps (by simp [writing])
    obtain ⟨open_, member, opens⟩ := opened.writing loc inode writing
    rw [corr, path]
    exact ⟨open_, List.mem_append_left _ member, loc, inode, opens⟩

theorem run_opened (run : Run (System.step priv) (Start priv) trace sys) :
    ∀ (i : Nat) (thread : WorkerThread), sys.workers[i]? = some thread → thread.Creates →
      Opened trace thread := by
  refine run.invariant_trace (fun _ => True) (fun trace sys => ∀ (i : Nat)
    (thread : WorkerThread), sys.workers[i]? = some thread → thread.Creates →
      Opened trace thread) ?_ ?_ (by simp)
  · intro sys started i thread here
    rw [started.workers] at here
    contradiction
  · intro trace src label dst _ _ before stepped _ i after here creates
    rcases (step_move stepped).worker_from here with ⟨same, _⟩ |
      ⟨env, thread, rfl, there, moved⟩ | ⟨_, fresh⟩
    · exact (before i after same creates).more _
    · have creator : thread.Creates := by
        rw [WorkerThread.Creates, ← moved.keeps.2.1]
        exact creates
      exact (before i thread there creator).step creator there (worker_step stepped there here)
    · exact .fresh fresh

/-- A run in which no file is made at the path of a pending `create_file` overwrites
nothing by `create_file`. -/
theorem create_never_overwrites (run : Run (System.step priv) (Start priv) trace sys)
    (apart : ∀ taken ∈ trace, ¬Collides taken) : NeverOverwrites trace where
  opens taken member c abs loc inode opens := by
    obtain ⟨earlier, later, rfl, before, _⟩ := run.prefix_of_mem member
    have absent := run_pendingAbsent before fun other earlier =>
      apart other (List.mem_append_left _ earlier)
    exact (absent.opens opens).2
  writes earlier taken later whole c abs loc inode writes := by
    subst whole
    obtain ⟨thread, ⟨i, env, _, here⟩, creates, at_, rfl, rfl⟩ := writes
    exact (run_opened run.split.1 i thread here creates).writing loc inode at_
  succeeds earlier taken later whole c abs succeeds := by
    subst whole
    obtain ⟨thread, text, ⟨i, env, _, here⟩, creates, at_, rfl, rfl⟩ := succeeds
    exact (run_opened run.split.1 i thread here creates).success text at_
  once earlier first middle second later whole c other abs loc place inode number opens
      again := by
    subst whole
    rw [← List.cons_append, ← List.append_assoc] at run apart
    have before := run.split.1
    have absent := run_pendingAbsent before fun taken member =>
      apart taken (List.mem_append_left _ member)
    -- there after the first, gone before the second
    have made : statOk first.dst.bus.tree abs = true := by
      obtain ⟨_, _, _, _, _, _, opened⟩ := opens
      exact statOk_fopenWb opened
    have missing : ¬statOk second.src.bus.tree abs = true := by
      rw [(absent.opens again).1]
      simp
    obtain ⟨taken, member, there, gone⟩ :=
      before.ended (fun sys => statOk sys.bus.tree abs = true) made missing
    refine ⟨taken, member, ?_⟩
    obtain ⟨_, _, _, _, stepped⟩ :=
      before.prefix_of_mem (List.mem_append_right earlier (List.mem_cons_of_mem first member))
    rcases (step_move stepped).tree_worker with same | ⟨i, env, thread, next, active, here, moved⟩
    · rw [same] at gone
      contradiction
    · have absent : statOk taken.dst.bus.tree abs = false := by simpa using gone
      obtain ⟨deletes, loc, removed⟩ := moved.disappears there absent
      exact ⟨⟨thread, loc, ⟨i, env, active, here⟩, deletes, removed⟩, there, absent⟩

/-! ### Several requests at once -/

theorem step_opens {thread : WorkerThread} (here : sys.workers[i]? = some thread)
    (creates : thread.Creates) (at_ : thread.phase = .change) (works : env.fails = false)
    (opened : sys.bus.tree.fopenWb thread.abs = some (loc, inode, tree)) :
    System.step priv sys (.worker i env) = some { sys with
      bus := { sys.bus with tree }
      workers := sys.workers.set i (thread.goto (.write loc inode)) } := by
  rw [System.step, System.worker, here, Option.bind_some,
    WorkerThread.step_opens creates at_ works opened, Option.map_some]

def activeWorker (taken : Taken System Label) : Option (Nat × WorkerThread) :=
  match taken.label with
  | .worker i _ => taken.src.workers[i]?.map fun thread => (i, thread)
  | _ => none

/-- No other `create_file` that has passed its check has the path of a thread that opens. -/
def Apart (taken : Taken System Label) : Prop :=
  ∀ active ∈ activeWorker taken, active.2.phase = .change → ∀ other ∈ taken.src.workers.zipIdx,
    other.2 ≠ active.1 → other.1.phase.checked = true →
      fsDispatch other.1.op = some .createFile →
        walk taken.src.bus.tree true other.1.abs ≠ walk taken.src.bus.tree true active.2.abs

instance (taken : Taken System Label) : Decidable (Apart taken) :=
  inferInstanceAs (Decidable (∀ active ∈ activeWorker taken, _))

theorem not_collides_of_apart {taken : Taken System Label} (clear : Apart taken) :
    ¬Collides taken := by
  rintro ⟨i, env, thread, j, other, active, here, differs, there, ⟨creates, checked⟩, parent,
    name, ⟨opens, _, _, makes⟩, leads⟩
  have acts : (i, thread) ∈ activeWorker taken := by
    rw [activeWorker, active]
    simp only [here, Option.map_some, Option.mem_some_iff]
  refine clear (i, thread) acts opens (other, j) (List.mem_zipIdx_iff_getElem?.2 there) differs
    checked creates ?_
  rw [leads, makes]

/-- `/fs create a` twice and `/fs create b`.  All three check, the first is refused, and the
others are approved and write. -/
def threeLabels : List Label :=
  [line "/fs create a", line "/fs create a", line "/fs create b", .recv, .recv, .recv] ++
    List.replicate 2 (workAs 0 "a" "one") ++ List.replicate 2 (workAs 1 "a" "two") ++
    List.replicate 2 (workAs 2 "b" "three") ++ List.replicate 3 (workAs 0 "a" "one") ++
    [.poll [] [], press 'n'.toNat, .recv] ++ List.replicate 3 (workAs 0 "a" "one") ++
    List.replicate 3 (workAs 1 "a" "two") ++ [.poll [] [], press 'y'.toNat, .recv] ++
    List.replicate 5 (workAs 1 "a" "two") ++ List.replicate 3 (workAs 2 "b" "three") ++
    [.poll [] [], press 'y'.toNat, .recv] ++ List.replicate 5 (workAs 2 "b" "three")

theorem create_never_overwrites_three : ∃ (trace : List (Taken System Label))
    (sys : System), sys.workers.length = 3 ∧
      sys.bus.tree.node [ascii "s", ascii "a"] = some (.file 0 (ascii "two")) ∧
      sys.bus.tree.node [ascii "s", ascii "b"] = some (.file 1 (ascii "three")) ∧
      NeverOverwrites trace := by
  have clear : ∀ taken ∈ execTrace (System.step sandboxPriv) threeLabels
      (fresh emptySandbox), Apart taken := by decide +kernel
  have ends : (exec (System.step sandboxPriv) threeLabels (fresh emptySandbox)).any
      fun sys => sys.workers.length = 3 ∧
        sys.bus.tree.node [ascii "s", ascii "a"] = some (.file 0 (ascii "two")) ∧
        sys.bus.tree.node [ascii "s", ascii "b"] = some (.file 1 (ascii "three")) := by
    decide +kernel
  obtain ⟨sys, ran, state⟩ := (Option.any_eq_true _ _).1 ends
  obtain ⟨three, first, second⟩ := of_decide_eq_true state
  have run := Run.of_exec (fresh_start emptySandbox_plain) ran
  exact ⟨_, sys, three, first, second, create_never_overwrites run fun taken member =>
    not_collides_of_apart (clear taken member)⟩

/-- `/fs create a` twice.  Both check, the first is approved and writes, and the second
is approved. -/
def raceLabels : List Label :=
  [line "/fs create a", line "/fs create a", .recv, .recv] ++
    List.replicate 2 (workAs 0 "a" "one") ++ List.replicate 2 (workAs 1 "a" "two") ++
    List.replicate 3 (workAs 0 "a" "one") ++ [.poll [] [], press 'y'.toNat, .recv] ++
    List.replicate 5 (workAs 0 "a" "one") ++ List.replicate 3 (workAs 1 "a" "two") ++
    [.poll [] [], press 'y'.toNat, .recv] ++ List.replicate 3 (workAs 1 "a" "two")

/-- The second request truncates the file of the first. -/
theorem create_overwrites : ¬∀ (priv : FsPriv) (trace : List (Taken System Label))
    (sys : System), Run (System.step priv) (Start priv) trace sys → NeverOverwrites trace := by
  intro never
  have raced : (exec (System.step sandboxPriv) raceLabels (fresh emptySandbox)).map
      (fun sys => (sys.workers[1]?.map fun thread => (thread.op, thread.abs, thread.phase),
        sys.bus.tree.node [ascii "s", ascii "a"], walk sys.bus.tree true (ascii "/s/a"))) =
      some (some (FsOp.createFile.name, ascii "/s/a", .change),
        some (.file 0 (ascii "one")), .found [ascii "s", ascii "a"]) := by decide +kernel
  obtain ⟨sys, ran, state⟩ := Option.map_eq_some_iff.1 raced
  have run := Run.of_exec (fresh_start emptySandbox_plain) ran
  clear ran raced
  obtain ⟨active, state⟩ := Prod.mk.inj state
  obtain ⟨file, walked⟩ := Prod.mk.inj state
  obtain ⟨thread, here, fields⟩ := Option.map_eq_some_iff.1 active
  obtain ⟨op, fields⟩ := Prod.mk.inj fields
  obtain ⟨abs, at_⟩ := Prod.mk.inj fields
  have creates : thread.Creates := by
    rw [WorkerThread.Creates, op]
    decide
  have opened := Tree.fopenWb_found walked file
  rw [← abs] at opened
  have stepped : System.step sandboxPriv sys (workAs 1 "a" "two") = some _ :=
    step_opens here creates at_ rfl opened
  have found := ((never _ _ _ (run.snoc stepped)).opens _
    (List.mem_append_right _ (List.mem_singleton.2 rfl)) _ _ _ _
    ⟨thread, ⟨1, _, rfl, here⟩, creates, at_, rfl, rfl, opened⟩).1
  rw [file] at found
  exact absurd found (by simp)

end System

end FreeCli

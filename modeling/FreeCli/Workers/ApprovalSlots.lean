import FreeCli.Library.Lists
import FreeCli.Workers.WorkerMove

namespace FreeCli

open Words FileTree Slots Lists

/-! The approval slots and the phases of the threads that hold them. -/

/-- An operation that changes the file tree and has its path. -/
def WorkerPhase.gated : WorkerPhase → Bool
  | .stat | .claim | .ask _ | .wait _ | .blocked _ | .release .. | .change
  | .write .. => true
  | _ => false

def WorkerPhase.slot : WorkerPhase → Option Nat
  | .ask slot | .wait slot | .blocked slot | .release slot _ => some slot
  | _ => none

def WorkerPhase.asked : WorkerPhase → Bool
  | .start | .progress | .look | .stat | .claim | .ask _ => false
  | _ => true

def WorkerPhase.granted : WorkerPhase → Bool
  | .release _ approved => approved
  | .change | .write .. => true
  | _ => false

/-- The next step opens for writing, writes or removes. -/
def WorkerPhase.changing : WorkerPhase → Bool
  | .change | .write .. => true
  | _ => false

theorem WorkerPhase.gated_of_changing {phase : WorkerPhase}
    (changing : phase.changing = true) : phase.gated = true := by
  cases phase <;> first | contradiction | rfl

theorem WorkerPhase.granted_of_changing {phase : WorkerPhase}
    (changing : phase.changing = true) : phase.granted = true := by
  cases phase <;> first | contradiction | rfl

/-- No change comes any more. -/
def WorkerPhase.shut : WorkerPhase → Bool
  | .release _ approved => !approved
  | .reply .. | .finish | .done => true
  | _ => false

/-- No refusal comes any more. -/
def WorkerPhase.passed : WorkerPhase → Bool
  | .release _ approved => approved
  | .change | .write .. | .reply .. | .finish | .done => true
  | _ => false

theorem WorkerPhase.passed_of_changing {phase : WorkerPhase}
    (changing : phase.changing = true) : phase.passed = true := by
  cases phase <;> first | contradiction | rfl

theorem WorkerPhase.unshut_of_changing {phase : WorkerPhase}
    (changing : phase.changing = true) : phase.shut = false := by
  cases phase <;> first | contradiction | rfl

namespace WorkerThread

variable {priv : FsPriv} {thread next : WorkerThread} {env : WorkerEnv}
  {bus after : Bus}

def Mutates (thread : WorkerThread) : Prop :=
  ∃ op, fsDispatch thread.op = some op ∧ op.mutates = true

theorem Move.mutates (moved : thread.Move priv env bus next after)
    (before : thread.phase.gated = true → thread.Mutates)
    (gated : next.phase.gated = true) : next.Mutates := by
  cases moved with
  | resolved op path abs known at_ found =>
      refine ⟨op, known, ?_⟩
      cases op with
      | readFile => contradiction
      | listDir => contradiction
      | _ => rfl
  | missing op known at_ free => exact before (by rw [at_]; rfl)
  | claimed slot at_ free => exact before (by rw [at_]; rfl)
  | asked op slot known at_ => exact before (by rw [at_]; rfl)
  | waits slot at_ => exact before (by rw [at_]; rfl)
  | decided slot pending at_ held => exact before (by rw [at_]; rfl)
  | timedOut slot pending at_ late held => exact before (by rw [at_]; rfl)
  | woken slot at_ early => exact before (by rw [at_]; rfl)
  | granted slot at_ => exact before (by rw [at_]; rfl)
  | opened op loc inode tree at_ known writes works worked =>
      exact before (by rw [at_]; rfl)
  | _ => contradiction

theorem Move.approvals (moved : thread.Move priv env bus next after) (k : Nat) :
    after.approvals[k]? = bus.approvals[k]? ∨ bus.approvals[k]? = some none ∨
      thread.phase.slot = some k := by
  cases moved with
  | claimed slot at_ free =>
      by_cases same : slot = k
      · exact .inr (.inl (same ▸ firstFree_eq_some free))
      · exact .inl (List.getElem?_set_ne same)
  | timedOut slot pending at_ late held =>
      by_cases same : slot = k
      · exact .inr (.inr (by rw [at_, ← same]; rfl))
      · exact .inl (List.getElem?_set_ne same)
  | denied slot result at_ =>
      by_cases same : slot = k
      · exact .inr (.inr (by rw [at_, ← same]; rfl))
      · exact .inl (List.getElem?_set_ne same)
  | granted slot at_ =>
      by_cases same : slot = k
      · exact .inr (.inr (by rw [at_, ← same]; rfl))
      · exact .inl (List.getElem?_set_ne same)
  | _ => exact .inl rfl

def Holds (thread : WorkerThread) (approvals : ApprovalTable) : Prop :=
  ∀ slot, thread.phase.slot = some slot → ∃ pending : PendingApproval,
    approvals[slot]? = some (some pending) ∧ pending.corrId = thread.corrId

theorem Holds.idle (thread : WorkerThread) (approvals : ApprovalTable)
    (none : thread.phase.slot = none) : thread.Holds approvals := by
  intro slot holds
  rw [none] at holds
  contradiction

theorem Move.holds (moved : thread.Move priv env bus next after)
    (before : thread.Holds bus.approvals) : next.Holds after.approvals := by
  cases moved with
  | claimed slot at_ free =>
      intro k same
      obtain rfl := Option.some.inj same
      have there := firstFree_eq_some free
      obtain ⟨bound, _⟩ := List.getElem?_eq_some_iff.1 there
      exact ⟨_, List.getElem?_set_self bound, rfl⟩
  | asked op slot known at_ => exact fun k same => before k (by rw [at_]; exact same)
  | waits slot at_ => exact fun k same => before k (by rw [at_]; exact same)
  | decided slot pending at_ held =>
      exact fun k same => before k (by rw [at_]; exact same)
  | timedOut slot pending at_ late held =>
      intro k same
      obtain rfl := Option.some.inj same
      obtain ⟨bound, _⟩ := List.getElem?_eq_some_iff.1 held
      obtain ⟨holder, there, mine⟩ := before slot (by rw [at_]; rfl)
      rw [held] at there
      cases there
      exact ⟨_, List.getElem?_set_self bound, mine⟩
  | woken slot at_ early => exact fun k same => before k (by rw [at_]; exact same)
  | resolved op path abs known at_ found =>
      refine .idle _ _ ?_
      cases op <;> rfl
  | _ => exact .idle _ _ rfl

theorem Move.holds_other (moved : thread.Move priv env bus next after)
    {other : WorkerThread} (mine : thread.Holds bus.approvals)
    (different : other.corrId ≠ thread.corrId) (before : other.Holds bus.approvals) :
    other.Holds after.approvals := by
  intro slot at_
  obtain ⟨pending, there, same⟩ := before slot at_
  rcases moved.approvals slot with unchanged | free | own
  · exact ⟨pending, unchanged.trans there, same⟩
  · rw [free] at there
    cases there
  · obtain ⟨holder, here, its⟩ := mine slot own
    rw [here] at there
    cases there
    exact absurd (same.symm.trans its) different

theorem Holds.notified {approvals : ApprovalTable} (before : thread.Holds approvals)
    (corrId : Nat) (approved : Bool) :
    thread.Holds (bwNotifyApproval corrId approved approvals) := by
  intro slot at_
  obtain ⟨pending, there, same⟩ := before slot at_
  rcases bwNotifyApproval_getElem? corrId approved approvals slot with
    unchanged | ⟨old, here, _, decided⟩
  · exact ⟨pending, unchanged.trans there, same⟩
  · rw [there] at here
    cases here
    exact ⟨_, decided, same⟩

theorem Move.decided_from (moved : thread.Move priv env bus next after) {k : Nat}
    {pending : PendingApproval} (here : after.approvals[k]? = some (some pending))
    (approved : pending.decided = 1) :
    bus.approvals[k]? = some (some pending) := by
  cases moved with
  | claimed slot at_ free =>
      rcases getElem?_set_cases here with same | before
      · obtain rfl := Option.some.inj same
        simp at approved
      · exact before
  | timedOut slot other at_ late held =>
      rcases getElem?_set_cases here with same | before
      · obtain rfl := Option.some.inj same
        simp at approved
      · exact before
  | denied slot result at_ =>
      rcases getElem?_set_cases here with same | before
      · cases same
      · exact before
  | granted slot at_ =>
      rcases getElem?_set_cases here with same | before
      · cases same
      · exact before
  | _ => exact here

theorem Move.granted_from (moved : thread.Move priv env bus next after)
    (approved : next.phase.granted = true) :
    thread.phase.granted = true ∨ ∃ slot pending, thread.phase = .wait slot ∧
      bus.approvals[slot]? = some (some pending) ∧ pending.decided = 1 := by
  cases moved with
  | resolved op path abs known at_ found =>
      cases op <;> contradiction
  | decided slot pending at_ held =>
      exact .inr ⟨slot, pending, at_, held, by simpa [goto, WorkerPhase.granted]
        using approved⟩
  | granted slot at_ => exact .inl (by rw [at_]; rfl)
  | opened op loc inode tree at_ known writes works worked =>
      exact .inl (by rw [at_]; rfl)
  | _ => contradiction

theorem Move.asked_stays (moved : thread.Move priv env bus next after)
    (before : thread.phase.asked = true) : next.phase.asked = true := by
  cases moved with
  | resolved op path abs known at_ found => rw [at_] at before; contradiction
  | progressed description at_ => rw [at_] at before; contradiction
  | missing op known at_ free => rw [at_] at before; contradiction
  | claimed slot at_ free => rw [at_] at before; contradiction
  | _ => rfl

theorem Move.shut_stays (moved : thread.Move priv env bus next after)
    (before : thread.phase.shut = true) : next.phase.shut = true := by
  cases moved with
  | ends success result early running => rfl
  | timedOut slot pending at_ late held => rfl
  | denied slot result at_ => rfl
  | removed loc tree at_ known works worked => rfl
  | written loc inode success result at_ => rfl
  | replied success result at_ => rfl
  | finished at_ => rfl
  | resolved _ _ _ _ at_ | progressed _ at_ | missing _ _ at_ | claimed _ at_
  | asked _ _ _ at_ | waits _ at_ | decided _ _ at_ | woken _ at_
  | granted _ at_ | opened _ _ _ _ at_ =>
      rw [at_] at before
      contradiction

theorem Move.passed_stays (moved : thread.Move priv env bus next after)
    (before : thread.phase.passed = true) : next.phase.passed = true := by
  cases moved with
  | ends success result early running => rfl
  | denied slot result at_ => rfl
  | granted slot at_ => rfl
  | removed loc tree at_ known works worked => rfl
  | opened op loc inode tree at_ known writes works worked => rfl
  | written loc inode success result at_ => rfl
  | replied success result at_ => rfl
  | finished at_ => rfl
  | resolved _ _ _ _ at_ | progressed _ at_ | missing _ _ at_ | claimed _ at_
  | asked _ _ _ at_ | waits _ at_ | decided _ _ at_ | timedOut _ _ at_
  | woken _ at_ =>
      rw [at_] at before
      contradiction

theorem Move.write_from (moved : thread.Move priv env bus next after)
    (writing : next.phase = .write loc inode) :
    thread.phase = .change ∧
      bus.tree.fopenWb thread.abs = some (loc, inode, after.tree) := by
  cases moved with
  | opened op place number tree at_ known writes works worked =>
      cases writing
      exact ⟨at_, worked⟩
  | resolved op path abs known at_ found =>
      cases op <;> cases writing
  | _ => cases writing

theorem Move.tree (moved : thread.Move priv env bus next after) :
    after.tree = bus.tree ∨
      (thread.phase = .change ∧ ∃ loc,
        bus.tree.remove thread.abs = some (loc, after.tree)) ∨
      (thread.phase = .change ∧ ∃ loc inode,
        bus.tree.fopenWb thread.abs = some (loc, inode, after.tree)) ∨
      ∃ loc inode, thread.phase = .write loc inode ∧
        after.tree = bus.tree.fwrite loc inode env.content := by
  cases moved with
  | removed loc tree at_ known works worked => exact .inr (.inl ⟨at_, loc, worked⟩)
  | opened op loc inode tree at_ known writes works worked =>
      exact .inr (.inr (.inl ⟨at_, loc, inode, worked⟩))
  | written loc inode success result at_ =>
      exact .inr (.inr (.inr ⟨loc, inode, at_, rfl⟩))
  | _ => exact .inl rfl

/-- `bw_request_approval` is about to return 0: the table is full, the time is
up, or the request was denied. -/
def GivesUp (thread : WorkerThread) (env : WorkerEnv) (bus : Bus) : Prop :=
  (thread.phase = .claim ∧ firstFree bus.approvals = none) ∨
    (∃ slot, thread.phase = .blocked slot ∧ env.timeout = true) ∨
    ∃ slot, thread.phase = .release slot false

theorem GivesUp.unpassed (givesUp : thread.GivesUp env bus) :
    thread.phase.passed = false := by
  rcases givesUp with ⟨at_, _⟩ | ⟨slot, at_, _⟩ | ⟨slot, at_⟩
  · rw [at_]
    rfl
  · rw [at_]
    rfl
  · rw [at_]
    rfl

theorem GivesUp.shuts (givesUp : thread.GivesUp env bus)
    (moved : thread.Move priv env bus next after) : next.phase.shut = true := by
  cases moved with
  | claimed slot at_ free => simp [GivesUp, at_, free] at givesUp
  | woken slot at_ early => simp [GivesUp, at_, early] at givesUp
  | resolved _ _ _ _ at_ | progressed _ at_ | missing _ _ at_ | asked _ _ _ at_
  | waits _ at_ | decided _ _ at_ | granted _ at_ | opened _ _ _ _ at_ =>
      simp [GivesUp, at_] at givesUp
  | _ => rfl

end WorkerThread

end FreeCli

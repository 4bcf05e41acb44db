import FreeCli.System.Requests
import FreeCli.Workers.ApprovalSlots

namespace FreeCli

open Words FileTree Slots Transition

/-! The approval gate.  A change of the file tree is traced back through the
thread that makes it, the slot it waits on, the reply and the key press to the
request for approval it sent. -/

namespace System

variable {priv : FsPriv} {sys dst : System} {label : Label}
  {trace : List (Taken System Label)}

/-! ### What is to be traced -/

def Works (thread : WorkerThread) (taken : Taken System Label) : Prop :=
  ∃ (i : Nat) (env : WorkerEnv), taken.label = .worker i env ∧
    taken.src.workers[i]? = some thread

/-- It opens for writing, writes or removes. -/
def Changes (thread : WorkerThread) (taken : Taken System Label) : Prop :=
  Works thread taken ∧ thread.phase.changing = true

/-- The thread of request `c`, which has the path `abs`, asks for approval in
words made from it. -/
def Asks (priv : FsPriv) (c : Nat) (abs : Bytes) (taken : Taken System Label) :
    Prop :=
  ∃ thread op, Works thread taken ∧ thread.corrId = c ∧ thread.abs = abs ∧
    fsDispatch thread.op = some op ∧ taken.dst.bus.toTui =
      taken.src.bus.toTui ++ [.approvalReq c c (approvalDesc priv op abs)]

def PressesYes (c : Nat) (taken : Taken System Label) : Prop :=
  ∃ ch env, taken.label = .key ch env ∧ (ch = 'y'.toNat ∨ ch = 'Y'.toNat) ∧
    taken.src.tui.pendingApprovalCorr = c

def PressesNo (c : Nat) (taken : Taken System Label) : Prop :=
  ∃ ch env, taken.label = .key ch env ∧ (ch = 'n'.toNat ∨ ch = 'N'.toNat) ∧
    taken.src.tui.pendingApprovalCorr = c

/-- The user was asked about `abs` for request `c`, and then pressed yes while
prompted for it. -/
def Approved (priv : FsPriv) (c : Nat) (abs : Bytes)
    (trace : List (Taken System Label)) : Prop :=
  ∃ before yes after, trace = before ++ yes :: after ∧ PressesYes c yes ∧
    ∃ ask ∈ before, Asks priv c abs ask

/-- `bw_request_approval` turns request `c` down: no free slot, no answer in time,
or denied. -/
def TurnsDown (c : Nat) (taken : Taken System Label) : Prop :=
  ∃ (i : Nat) (env : WorkerEnv) (thread : WorkerThread),
    taken.label = .worker i env ∧ taken.src.workers[i]? = some thread ∧
      thread.corrId = c ∧ thread.GivesUp env taken.src.bus

def Refused (c : Nat) (taken : Taken System Label) : Prop :=
  (c ≠ 0 ∧ PressesNo c taken) ∨ TurnsDown c taken

/-- The file at `loc` is opened for writing for request `c` by its path `abs`. -/
def Opens (c : Nat) (abs : Bytes) (loc : Loc) (inode : Nat)
    (taken : Taken System Label) : Prop :=
  ∃ thread, Works thread taken ∧ thread.corrId = c ∧ thread.abs = abs ∧
    taken.src.bus.tree.fopenWb abs = some (loc, inode, taken.dst.bus.tree)

theorem Approved.more {abs : Bytes} (approved : Approved priv c abs trace)
    (taken : Taken System Label) : Approved priv c abs (trace ++ [taken]) := by
  obtain ⟨before, yes, after, rfl, pressed, asked⟩ := approved
  exact ⟨before, yes, after ++ [taken], by simp, pressed, asked⟩

/-- An operation that changes the file tree is one that is to. -/
def MutatesGated (sys : System) : Prop :=
  ∀ (i : Nat) (thread : WorkerThread), sys.workers[i]? = some thread →
    thread.phase.gated = true →
    thread.Mutates

theorem Move.mutatesGated (moved : sys.Move priv label dst)
    (before : sys.MutatesGated) : dst.MutatesGated := by
  intro i thread here gated
  rcases moved.worker_from here with ⟨same, _⟩ | ⟨env, old, _, there, move⟩ |
    ⟨_, fresh⟩
  · exact before i thread same gated
  · exact move.mutates (before i old there) gated
  · rcases fresh with at_ | ⟨result, at_⟩
    · rw [at_] at gated
      contradiction
    · rw [at_] at gated
      contradiction

theorem run_mutatesGated (run : Run (System.step priv) (Start priv) trace sys) :
    sys.MutatesGated := by
  refine run.always MutatesGated ?_ fun _ _ _ before stepped =>
    (step_move stepped).mutatesGated before
  intro sys started i thread here
  rw [started.workers] at here
  contradiction

def SlotsHeld (sys : System) : Prop :=
  ∀ (i : Nat) (thread : WorkerThread), sys.workers[i]? = some thread →
    thread.Holds sys.bus.approvals

theorem Move.approvals (moved : sys.Move priv label dst) :
    dst.bus.approvals = sys.bus.approvals ∨
      (∃ reqCorrId approved rest corrId, label = .recv ∧
        sys.toBackend = .approvalRep corrId reqCorrId approved :: rest ∧
        dst.bus.approvals =
          bwNotifyApproval reqCorrId approved sys.bus.approvals) ∨
      ∃ i env thread next, label = .worker i env ∧ sys.workers[i]? = some thread ∧
        thread.Move priv env sys.bus next dst.bus := by
  cases moved with
  | recv msg rest waiting =>
      cases msg with
      | approvalRep corrId reqCorrId approved =>
          exact .inr (.inl ⟨reqCorrId, approved, rest, corrId, rfl, waiting, rfl⟩)
      | _ => exact .inl rfl
  | worker i env thread next bus here moved =>
      exact .inr (.inr ⟨i, env, thread, next, rfl, here, moved⟩)
  | _ => exact .inl rfl

theorem Move.slotsHeld (moved : sys.Move priv label dst)
    (numbered : Numbered sys) (before : sys.SlotsHeld) : dst.SlotsHeld := by
  intro i thread here
  rcases moved.worker_from here with ⟨same, idle⟩ | ⟨env, old, _, there, move⟩ |
    ⟨_, fresh⟩
  · rcases moved.approvals with unchanged | ⟨c, approved, _, _, _, _, notified⟩ |
      ⟨j, env, other, next, active, there, move⟩
    · rw [unchanged]
      exact before i thread same
    · rw [notified]
      exact (before i thread same).notified c approved
    · have apart : thread.corrId ≠ other.corrId := by
        intro equal
        have index := numbered.worker_unique there same equal
        exact idle env (index ▸ active)
      exact move.holds_other (before j other there) apart (before i thread same)
  · exact move.holds (before i old there)
  · refine .idle _ _ ?_
    rcases fresh with at_ | ⟨result, at_⟩
    · rw [at_]
      rfl
    · rw [at_]
      rfl

theorem run_slotsHeld (run : Run (System.step priv) (Start priv) trace sys) :
    sys.SlotsHeld := by
  refine run.invariant_trace (fun _ => True) (fun _ => SlotsHeld) ?_
    (fun _ _ _ _ before _ held stepped _ =>
      (step_move stepped).slotsHeld (run_numbered before) held) (by simp)
  intro sys started i thread here
  rw [started.workers] at here
  contradiction

/-! ### From the request for approval to the change -/

def Concerns (sys : System) (c : Nat) (P : Bytes → Prop) : Prop :=
  ∃ (i : Nat) (thread : WorkerThread), sys.workers[i]? = some thread ∧
    thread.corrId = c ∧ thread.phase ≠ .start ∧ P thread.abs

theorem Concerns.move {P Q : Bytes → Prop} (concerns : sys.Concerns c P)
    (moved : sys.Move priv label dst) (implies : ∀ abs, P abs → Q abs) :
    dst.Concerns c Q := by
  obtain ⟨i, thread, here, rfl, started, holds⟩ := concerns
  obtain ⟨after, there, corr, _, path⟩ := moved.worker_stays here
  obtain ⟨going, abs⟩ := path started
  exact ⟨i, after, there, corr, going, implies _ (abs ▸ holds)⟩

def Prompted (priv : FsPriv) (trace : List (Taken System Label)) (sys : System)
    (c : Nat) : Prop :=
  sys.Concerns c fun abs => ∃ ask ∈ trace, Asks priv c abs ask

def Granted (priv : FsPriv) (trace : List (Taken System Label)) (sys : System)
    (c : Nat) : Prop :=
  sys.Concerns c fun abs => Approved priv c abs trace

theorem Prompted.move (prompted : Prompted priv trace sys c)
    (moved : sys.Move priv label dst) (taken : Taken System Label) :
    Prompted priv (trace ++ [taken]) dst c :=
  Concerns.move prompted moved fun _ ⟨ask, member, asks⟩ =>
    ⟨ask, List.mem_append_left _ member, asks⟩

theorem Granted.move (granted : Granted priv trace sys c)
    (moved : sys.Move priv label dst) (taken : Taken System Label) :
    Granted priv (trace ++ [taken]) dst c :=
  Concerns.move granted moved fun _ approved => approved.more taken

/-- Along the way from the request for approval to the change, everything goes
back to the user. -/
structure Gate (priv : FsPriv) (trace : List (Taken System Label))
    (sys : System) : Prop where
  requested : ∀ corrId reqCorrId description,
    .approvalReq corrId reqCorrId description ∈ sys.bus.toTui →
      Prompted priv trace sys reqCorrId
  prompted : sys.tui.pendingApprovalCorr ≠ 0 →
    Prompted priv trace sys sys.tui.pendingApprovalCorr
  answered : ∀ corrId reqCorrId, .approvalRep corrId reqCorrId true ∈ sys.toBackend →
    Granted priv trace sys reqCorrId
  decided : ∀ (k : Nat) (pending : PendingApproval),
    sys.bus.approvals[k]? = some (some pending) → pending.decided = 1 →
      Granted priv trace sys pending.corrId
  granted : ∀ (i : Nat) (thread : WorkerThread), sys.workers[i]? = some thread →
    thread.phase.granted = true → Approved priv thread.corrId thread.abs trace
  opened : ∀ (i : Nat) (thread : WorkerThread) (loc : Loc) (inode : Nat),
    sys.workers[i]? = some thread → thread.phase = .write loc inode →
      ∃ taken ∈ trace, Opens thread.corrId thread.abs loc inode taken

theorem Move.requested_from (moved : sys.Move priv label dst)
    (member : .approvalReq corrId reqCorrId description ∈ dst.bus.toTui) :
    .approvalReq corrId reqCorrId description ∈ sys.bus.toTui ∨
      dst.Concerns reqCorrId fun abs =>
        Asks priv reqCorrId abs ⟨sys, label, dst⟩ := by
  cases moved with
  | poll beyond choices msg rest waiting =>
      exact .inl (waiting ▸ List.mem_cons_of_mem _ member)
  | recv msg rest waiting => cases msg <;> exact .inl member
  | chat i env thread next subCorrNext sent here moved =>
      rcases List.mem_append.1 member with member | member
      · exact .inl member
      · exact absurd member (moved.sends_noApproval _ _ _)
  | worker i env thread next bus here moved =>
      obtain ⟨bound, _⟩ := List.getElem?_eq_some_iff.1 here
      cases moved with
      | asked op slot known at_ =>
          rcases List.mem_append.1 member with member | member
          · exact .inl member
          · obtain ⟨_, rfl, _⟩ := ToTui.approvalReq.inj (List.mem_singleton.1 member)
            exact .inr ⟨i, _, List.getElem?_set_self bound, rfl, by
              simp [WorkerThread.goto], thread, op, ⟨i, env, rfl, here⟩, rfl, rfl,
              known, rfl⟩
      | progressed description at_ =>
          rcases List.mem_append.1 member with member | member
          · exact .inl member
          · simp at member
      | replied success result at_ =>
          rcases List.mem_append.1 member with member | member
          · exact .inl member
          · simp at member
      | finished at_ =>
          rcases List.mem_append.1 member with member | member
          · exact .inl member
          · simp at member
      | _ => exact .inl member
  | _ => exact .inl member

theorem Gate.requested_move (gate : Gate priv trace sys)
    (moved : sys.Move priv label dst)
    (member : .approvalReq corrId reqCorrId description ∈ dst.bus.toTui) :
    Prompted priv (trace ++ [⟨sys, label, dst⟩]) dst reqCorrId := by
  rcases moved.requested_from member with before | ⟨i, thread, here, same, going, asks⟩
  · exact (gate.requested _ _ _ before).move moved _
  · exact ⟨i, thread, here, same, going, _, by simp, asks⟩

theorem Gate.prompted_move (gate : Gate priv trace sys)
    (positive : 0 < sys.tui.nextCorr) (moved : sys.Move priv label dst)
    (prompt : dst.tui.pendingApprovalCorr ≠ 0) :
    Prompted priv (trace ++ [⟨sys, label, dst⟩]) dst
      dst.tui.pendingApprovalCorr := by
  have same : dst.tui.pendingApprovalCorr = sys.tui.pendingApprovalCorr →
      Prompted priv (trace ++ [⟨sys, label, dst⟩]) dst
        dst.tui.pendingApprovalCorr := by
    intro equal
    rw [equal] at prompt ⊢
    exact (gate.prompted prompt).move moved _
  have whole := moved
  cases moved with
  | key ch env =>
      rcases (Tui.mainKey_outcome ch env positive).approval with equal | gone
      · exact same equal
      · exact absurd gone prompt
  | poll beyond choices msg rest waiting =>
      rcases Tui.checkIpc_approval sys.tui msg beyond choices with
        ⟨corrId, reqCorrId, description, rfl, shown⟩ | equal
      · have there : .approvalReq corrId reqCorrId description ∈ sys.bus.toTui := by
          rw [waiting]
          exact List.mem_cons_self
        simp only [shown]
        exact (gate.requested _ _ _ there).move whole _
      · exact same equal
  | recv msg rest waiting => cases msg <;> exact same rfl
  | _ => exact same rfl

theorem Move.answered_from (moved : sys.Move priv label dst)
    (positive : 0 < sys.tui.nextCorr)
    (member : .approvalRep corrId reqCorrId true ∈ dst.toBackend) :
    .approvalRep corrId reqCorrId true ∈ sys.toBackend ∨
      (sys.tui.pendingApprovalCorr = reqCorrId ∧ reqCorrId ≠ 0 ∧
        PressesYes reqCorrId ⟨sys, label, dst⟩) := by
  cases moved with
  | key ch env =>
      rcases List.mem_append.1 member with member | member
      · exact .inl member
      · obtain ⟨prompt, some, yes⟩ :=
          (Tui.mainKey_outcome ch env positive).approves member
        exact .inr ⟨prompt, some, ch, env, rfl, yes, prompt⟩
  | recv msg rest waiting =>
      have there : .approvalRep corrId reqCorrId true ∈ rest := by
        cases msg <;> exact member
      exact .inl (waiting ▸ List.mem_cons_of_mem _ there)
  | _ => exact .inl member

theorem Gate.answered_move (gate : Gate priv trace sys)
    (positive : 0 < sys.tui.nextCorr) (moved : sys.Move priv label dst)
    (member : .approvalRep corrId reqCorrId true ∈ dst.toBackend) :
    Granted priv (trace ++ [⟨sys, label, dst⟩]) dst reqCorrId := by
  rcases moved.answered_from positive member with before | ⟨prompt, some, yes⟩
  · exact (gate.answered _ _ before).move moved _
  · have prompted := gate.prompted (by rwa [prompt])
    rw [prompt] at prompted
    exact Concerns.move prompted moved fun abs asked =>
      ⟨trace, _, [], rfl, yes, asked⟩

theorem Gate.decided_move (gate : Gate priv trace sys)
    (moved : sys.Move priv label dst) {k : Nat} {pending : PendingApproval}
    (here : dst.bus.approvals[k]? = some (some pending))
    (approved : pending.decided = 1) :
    Granted priv (trace ++ [⟨sys, label, dst⟩]) dst pending.corrId := by
  rcases moved.approvals with same | ⟨c, answer, rest, corrId, _, waiting, notified⟩ |
    ⟨i, env, thread, next, _, _, move⟩
  · rw [same] at here
    exact (gate.decided k pending here approved).move moved _
  · rw [notified] at here
    rcases bwNotifyApproval_getElem? c answer sys.bus.approvals k with
      same | ⟨slot, _, corr, changed⟩
    · rw [same] at here
      exact (gate.decided k pending here approved).move moved _
    · rw [changed] at here
      cases here
      cases answer with
      | false => contradiction
      | true =>
          have there : .approvalRep corrId c true ∈ sys.toBackend := by
            rw [waiting]
            exact List.mem_cons_self
          simp only [corr]
          exact (gate.answered _ _ there).move moved _
  · exact (gate.decided k pending (move.decided_from here approved) approved).move
      moved _

theorem Gate.granted_move (gate : Gate priv trace sys) (numbered : Numbered sys)
    (held : sys.SlotsHeld) (moved : sys.Move priv label dst) {i : Nat}
    {after : WorkerThread} (here : dst.workers[i]? = some after)
    (granted : after.phase.granted = true) :
    Approved priv after.corrId after.abs (trace ++ [⟨sys, label, dst⟩]) := by
  rcases moved.worker_from here with ⟨same, _⟩ | ⟨env, thread, _, there, move⟩ |
    ⟨_, fresh⟩
  · exact (gate.granted i after same granted).more _
  · obtain ⟨corr, _, keeps⟩ := move.keeps
    rcases move.granted_from granted with before | ⟨slot, pending, at_, found, yes⟩
    · have started : thread.phase ≠ .start := by
        intro at_
        rw [at_] at before
        contradiction
      rw [corr, (keeps started).2]
      exact (gate.granted i thread there before).more _
    · obtain ⟨other, holds, mine⟩ := held i thread there slot (by rw [at_]; rfl)
      rw [found] at holds
      cases holds
      -- the slot is the thread's own, so the approval is for its path
      obtain ⟨j, holder, place, same, _, approved⟩ := gate.decided slot pending found yes
      have index := numbered.worker_unique there place (same.trans mine)
      subst index
      rw [there] at place
      cases place
      rw [corr, (keeps (by simp [at_])).2, ← mine]
      exact approved.more _
  · rcases fresh with at_ | ⟨result, at_⟩
    · rw [at_] at granted
      contradiction
    · rw [at_] at granted
      contradiction

theorem Gate.opened_move (gate : Gate priv trace sys)
    (moved : sys.Move priv label dst) {i : Nat} {after : WorkerThread} {loc : Loc}
    {inode : Nat} (here : dst.workers[i]? = some after)
    (writing : after.phase = .write loc inode) :
    ∃ taken ∈ trace ++ [⟨sys, label, dst⟩],
      Opens after.corrId after.abs loc inode taken := by
  rcases moved.worker_from here with ⟨same, _⟩ | ⟨env, thread, step, there, move⟩ |
    ⟨_, fresh⟩
  · obtain ⟨taken, member, opens⟩ := gate.opened i after loc inode same writing
    exact ⟨taken, List.mem_append_left _ member, opens⟩
  · obtain ⟨at_, opened⟩ := move.write_from writing
    obtain ⟨corr, _, keeps⟩ := move.keeps
    have abs := (keeps (by simp [at_])).2
    exact ⟨⟨sys, label, dst⟩, by simp, thread, ⟨i, env, step, there⟩, corr.symm,
      abs.symm, abs ▸ opened⟩
  · rcases fresh with at_ | ⟨result, at_⟩
    · rw [at_] at writing
      contradiction
    · rw [at_] at writing
      contradiction

theorem Gate.start (started : Start priv sys) : Gate priv [] sys where
  requested _ _ _ member := by
    rw [started.toTui] at member
    exact absurd member List.not_mem_nil
  prompted prompt := absurd started.noApproval prompt
  answered _ _ member := by
    rw [started.toBackend] at member
    exact absurd member List.not_mem_nil
  decided k pending here _ := by
    have there := List.mem_of_getElem? here
    rw [started.approvals] at there
    cases List.eq_of_mem_replicate there
  granted i thread here _ := by
    rw [started.workers] at here
    contradiction
  opened i thread loc inode here _ := by
    rw [started.workers] at here
    contradiction

theorem run_gate (run : Run (System.step priv) (Start priv) trace sys) :
    Gate priv trace sys := by
  refine run.invariant_trace (fun _ => True) (Gate priv)
    (fun _ started => .start started) ?_ (by simp)
  intro trace src label dst before _ gate stepped _
  have moved := step_move stepped
  have numbered := run_numbered before
  have held := run_slotsHeld before
  exact {
    requested := fun _ _ _ => gate.requested_move moved
    prompted := gate.prompted_move numbered.positive moved
    answered := fun _ _ => gate.answered_move numbered.positive moved
    decided := fun _ _ => gate.decided_move moved
    granted := fun _ _ => gate.granted_move numbered held moved
    opened := fun _ _ _ _ => gate.opened_move moved }

/-- What a step does to the file tree, if anything, it does to the file that the
path of its thread leads to. -/
inductive ChangeOf (earlier : List (Taken System Label)) (thread : WorkerThread)
    (taken : Taken System Label) : Prop
  | nothing (same : taken.dst.bus.tree = taken.src.bus.tree)
  | removed (loc : Loc)
      (worked : taken.src.bus.tree.remove thread.abs =
        some (loc, taken.dst.bus.tree))
  | opened (loc : Loc) (inode : Nat)
      (worked : taken.src.bus.tree.fopenWb thread.abs =
        some (loc, inode, taken.dst.bus.tree))
  | written (loc : Loc) (inode : Nat) (content : Bytes)
      (worked : taken.dst.bus.tree = taken.src.bus.tree.fwrite loc inode content)
      (handle : ∃ opened ∈ earlier, Opens thread.corrId thread.abs loc inode opened)

theorem Move.tree (moved : sys.Move priv label dst) :
    dst.bus.tree = sys.bus.tree ∨ ∃ thread, Changes thread ⟨sys, label, dst⟩ := by
  cases moved with
  | worker i env thread next bus here moved =>
      rcases moved.tree with same | ⟨at_, _⟩ | ⟨at_, _⟩ | ⟨loc, inode, at_, _⟩
      · exact .inl same
      · exact .inr ⟨thread, ⟨i, env, rfl, here⟩, by rw [at_]; rfl⟩
      · exact .inr ⟨thread, ⟨i, env, rfl, here⟩, by rw [at_]; rfl⟩
      · exact .inr ⟨thread, ⟨i, env, rfl, here⟩, by rw [at_]; rfl⟩
  | recv msg rest waiting => cases msg <;> exact .inl rfl
  | _ => exact .inl rfl

theorem Works.move (works : Works thread ⟨sys, label, dst⟩)
    (moved : sys.Move priv label dst) : ∃ (i : Nat) (env : WorkerEnv)
      (next : WorkerThread), sys.workers[i]? = some thread ∧
        dst.workers[i]? = some next ∧ label = .worker i env ∧
        thread.Move priv env sys.bus next dst.bus := by
  obtain ⟨i, env, step, here⟩ := works
  cases moved with
  | worker k other active next bus there moved =>
      cases step
      obtain rfl := Option.some.inj (there.symm.trans here)
      obtain ⟨bound, _⟩ := List.getElem?_eq_some_iff.1 here
      exact ⟨i, env, next, here, List.getElem?_set_self bound, rfl, moved⟩
  | _ => cases step

theorem Gate.changeOf (gate : Gate priv trace sys) (moved : sys.Move priv label dst)
    (works : Works thread ⟨sys, label, dst⟩) :
    ChangeOf trace thread ⟨sys, label, dst⟩ := by
  obtain ⟨i, env, next, here, _, _, move⟩ := works.move moved
  rcases move.tree with same | ⟨_, loc, worked⟩ | ⟨_, loc, inode, worked⟩ |
    ⟨loc, inode, at_, worked⟩
  · exact .nothing same
  · exact .removed loc worked
  · exact .opened loc inode worked
  · exact .written loc inode env.content worked (gate.opened i thread loc inode here at_)

def Reached (sys : System) (c : Nat) (phases : WorkerPhase → Bool) : Prop :=
  ∃ (i : Nat) (thread : WorkerThread), sys.workers[i]? = some thread ∧
    thread.corrId = c ∧ phases thread.phase = true

theorem Reached.move {phases : WorkerPhase → Bool} (reached : sys.Reached c phases)
    (stays : ∀ {thread next : WorkerThread} {env : WorkerEnv} {bus after : Bus},
      thread.Move priv env bus next after → phases thread.phase = true →
        phases next.phase = true)
    (moved : sys.Move priv label dst) : dst.Reached c phases := by
  obtain ⟨i, thread, here, rfl, before⟩ := reached
  obtain ⟨after, there, corr, _⟩ := moved.worker_stays here
  refine ⟨i, after, there, corr, ?_⟩
  rcases moved.worker_from there with ⟨same, _⟩ | ⟨env, old, _, place, move⟩ |
    ⟨fresh, _⟩
  · rw [here] at same
    cases same
    exact before
  · rw [here] at place
    cases place
    exact stays move before
  · rw [here] at fresh
    contradiction

theorem Reached.phase {phases : WorkerPhase → Bool} (reached : sys.Reached c phases)
    (numbered : Numbered sys) {i : Nat} {thread : WorkerThread}
    (here : sys.workers[i]? = some thread) (same : thread.corrId = c) :
    phases thread.phase = true := by
  obtain ⟨j, other, there, corr, before⟩ := reached
  obtain rfl := numbered.worker_unique here there (corr.trans same.symm)
  rw [here] at there
  cases there
  exact before

def isPrompt (c : Nat) : ToTui → Bool
  | .approvalReq _ reqCorrId _ => reqCorrId == c
  | _ => false

def answersPrompt (c : Nat) (taken : Taken System Label) : Bool :=
  match taken.label with
  | .key ch _ => Tui.approvalKey ch && taken.src.tui.pendingApprovalCorr == c
  | _ => false

def prompts (c : Nat) (trace : List (Taken System Label)) (sys : System) : Nat :=
  sys.bus.toTui.countP (isPrompt c) +
    (if sys.tui.pendingApprovalCorr = c then 1 else 0) +
    trace.countP (answersPrompt c)

theorem worker_prompts {thread next : WorkerThread} {bus after : Bus}
    (moved : thread.Move priv env bus next after) (c : Nat) :
    after.toTui.countP (isPrompt c) = bus.toTui.countP (isPrompt c) ∨
      (thread.corrId = c ∧ thread.phase.asked = false ∧ next.phase.asked = true ∧
        after.toTui.countP (isPrompt c) = bus.toTui.countP (isPrompt c) + 1) := by
  cases moved with
  | asked op slot known at_ =>
      by_cases same : thread.corrId = c
      · refine .inr ⟨same, by rw [at_]; rfl, rfl, ?_⟩
        simp [Bus.send, isPrompt, same]
      · refine .inl ?_
        simp [Bus.send, isPrompt, same]
  | progressed description at_ => exact .inl (by simp [Bus.send, isPrompt])
  | replied success result at_ => exact .inl (by simp [Bus.send, isPrompt])
  | finished at_ => exact .inl (by simp [Bus.send, isPrompt])
  | _ => exact .inl rfl

theorem key_prompts (dst : System) (ch : Nat) (env : KeyEnv) (positive : 0 < sys.tui.nextCorr)
    (real : c ≠ 0) :
    (if (sys.tui.mainKey ch env).1.pendingApprovalCorr = c then 1 else 0) +
        (if answersPrompt c ⟨sys, .key ch env, dst⟩ then 1 else 0) ≤
      if sys.tui.pendingApprovalCorr = c then 1 else 0 := by
  by_cases answers : answersPrompt c ⟨sys, .key ch env, dst⟩ = true
  · obtain ⟨key, prompt⟩ : Tui.approvalKey ch = true ∧
        sys.tui.pendingApprovalCorr = c := by
      simpa [answersPrompt] using answers
    have gone := Tui.mainKey_answers env (by rwa [prompt]) key
    rw [if_pos answers, if_pos prompt, gone, if_neg (Ne.symm real)]
  · rw [if_neg answers]
    rcases (Tui.mainKey_outcome ch env positive).approval with same | gone
    · rw [same]
      exact Nat.le_refl _
    · rw [gone, if_neg (Ne.symm real)]
      exact Nat.zero_le _

theorem step_prompts (trace : List (Taken System Label))
    (moved : sys.Move priv label dst)
    (positive : 0 < sys.tui.nextCorr) (real : c ≠ 0) :
    prompts c (trace ++ [⟨sys, label, dst⟩]) dst ≤ prompts c trace sys ∨
      (∃ (i : Nat) (thread : WorkerThread), sys.workers[i]? = some thread ∧
        thread.corrId = c ∧ thread.phase.asked = false ∧
        dst.Reached c WorkerPhase.asked ∧
        prompts c (trace ++ [⟨sys, label, dst⟩]) dst = prompts c trace sys + 1) := by
  simp only [prompts, List.countP_append, List.countP_singleton]
  cases moved with
  | key ch env =>
      have bound := key_prompts { sys with
        tui := (sys.tui.mainKey ch env).1
        toBackend := sys.toBackend ++ (sys.tui.mainKey ch env).2 } ch env positive real
      exact .inl (by simp only at bound ⊢; omega)
  | idle beyond choices => exact .inl (Nat.le_refl _)
  | poll beyond choices msg rest waiting =>
      refine .inl ?_
      simp only [waiting, List.countP_cons, answersPrompt]
      rcases Tui.checkIpc_approval sys.tui msg beyond choices with
        ⟨corrId, reqCorrId, description, rfl, shown⟩ | same
      · rw [shown]
        by_cases mine : reqCorrId = c
        · simp [isPrompt, mine]
        · simp [isPrompt, mine]
      · rw [same]
        simp
  | lost => exact .inl (Nat.le_refl _)
  | recv msg rest waiting => cases msg <;> exact .inl (Nat.le_refl _)
  | worker i env thread next bus here moved =>
      rcases worker_prompts moved c with same | ⟨mine, before, after, one⟩
      · exact .inl (by simp [answersPrompt, same])
      · obtain ⟨bound, _⟩ := List.getElem?_eq_some_iff.1 here
        refine .inr ⟨i, thread, here, mine, before, ⟨i, next,
          List.getElem?_set_self bound, moved.keeps.1.trans mine, after⟩, ?_⟩
        simp only [answersPrompt, one]
        simp
        omega
  | chat i env thread next subCorrNext sent here moved =>
      refine .inl ?_
      have none : sent.countP (isPrompt c) = 0 := by
        rw [List.countP_eq_zero]
        intro msg member
        cases msg with
        | approvalReq corrId reqCorrId description =>
            exact absurd member (moved.sends_noApproval _ _ _)
        | _ => simp [isPrompt]
      simp [answersPrompt, none]

/-- A request is prompted for once, by a thread that has asked. -/
def Once (trace : List (Taken System Label)) (sys : System) : Prop :=
  ∀ c ≠ 0, prompts c trace sys ≤ 1 ∧
    (0 < prompts c trace sys → sys.Reached c WorkerPhase.asked)

theorem Once.move (once : Once trace sys) (numbered : Numbered sys)
    (moved : sys.Move priv label dst) : Once (trace ++ [⟨sys, label, dst⟩]) dst := by
  intro c real
  obtain ⟨most, asked⟩ := once c real
  rcases step_prompts trace moved numbered.positive real with less |
    ⟨i, thread, here, mine, unasked, reached, one⟩
  · exact ⟨less.trans most, fun some =>
      (asked (some.trans_le less)).move WorkerThread.Move.asked_stays moved⟩
  · have first : prompts c trace sys = 0 := by
      by_contra some
      have phase := (asked (Nat.pos_of_ne_zero some)).phase numbered here mine
      rw [unasked] at phase
      contradiction
    exact ⟨by omega, fun _ => reached⟩

theorem run_once (run : Run (System.step priv) (Start priv) trace sys) :
    Once trace sys := by
  refine run.invariant_trace (fun _ => True) Once ?_
    (fun _ _ _ _ before _ once stepped _ =>
      once.move (run_numbered before) (step_move stepped)) (by simp)
  intro sys started c real
  have none : prompts c [] sys = 0 := by
    simp [prompts, started.toTui, started.noApproval, real.symm]
  exact ⟨by omega, fun some => by omega⟩

theorem TurnsDown.move (turnsDown : TurnsDown c ⟨sys, label, dst⟩)
    (moved : sys.Move priv label dst) :
    (∃ (i : Nat) (thread : WorkerThread), sys.workers[i]? = some thread ∧
      thread.corrId = c ∧ thread.phase.passed = false) ∧
    dst.Reached c WorkerPhase.shut := by
  obtain ⟨i, env, thread, step, here, same, givesUp⟩ := turnsDown
  refine ⟨⟨i, thread, here, same, givesUp.unpassed⟩, ?_⟩
  cases moved with
  | worker k other active next bus there move =>
      cases step
      obtain rfl := Option.some.inj (there.symm.trans here)
      obtain ⟨bound, _⟩ := List.getElem?_eq_some_iff.1 here
      exact ⟨i, next, List.getElem?_set_self bound, move.keeps.1.trans same,
        givesUp.shuts move⟩
  | _ => cases step

theorem Changes.move (changes : Changes thread ⟨sys, label, dst⟩)
    (moved : sys.Move priv label dst) :
    (∃ i : Nat, sys.workers[i]? = some thread) ∧
      dst.Reached thread.corrId WorkerPhase.passed := by
  obtain ⟨i, env, next, here, there, _, move⟩ := changes.1.move moved
  exact ⟨⟨i, here⟩, i, next, there, move.keeps.1,
    move.passed_stays (WorkerPhase.passed_of_changing changes.2)⟩

/-- No request is both turned down and carried out. -/
structure Exclusive (trace : List (Taken System Label)) (sys : System) : Prop where
  turnedDown : ∀ c, ∀ taken ∈ trace, TurnsDown c taken →
    sys.Reached c WorkerPhase.shut
  changed : ∀ thread, ∀ taken ∈ trace, Changes thread taken →
    sys.Reached thread.corrId WorkerPhase.passed
  never : ∀ thread, ∀ change ∈ trace, Changes thread change →
    ∀ other ∈ trace, ¬TurnsDown thread.corrId other

theorem Exclusive.move (exclusive : Exclusive trace sys) (numbered : Numbered sys)
    (moved : sys.Move priv label dst) :
    Exclusive (trace ++ [⟨sys, label, dst⟩]) dst where
  turnedDown c taken member turnsDown := by
    rcases List.mem_append.1 member with member | member
    · exact (exclusive.turnedDown c taken member turnsDown).move
        WorkerThread.Move.shut_stays moved
    · obtain rfl := List.mem_singleton.1 member
      exact (turnsDown.move moved).2
  changed thread taken member changes := by
    rcases List.mem_append.1 member with member | member
    · exact (exclusive.changed thread taken member changes).move
        WorkerThread.Move.passed_stays moved
    · obtain rfl := List.mem_singleton.1 member
      exact (changes.move moved).2
  never thread change member changes other another turnsDown := by
    have last : ¬TurnsDown thread.corrId ⟨sys, label, dst⟩ ∨
        ¬sys.Reached thread.corrId WorkerPhase.passed := by
      by_contra! both
      obtain ⟨⟨i, holder, here, same, unpassed⟩, _⟩ := both.1.move moved
      have passed := both.2.phase numbered here same
      rw [unpassed] at passed
      contradiction
    rcases List.mem_append.1 member with member | member
    · rcases List.mem_append.1 another with another | another
      · exact exclusive.never thread change member changes other another turnsDown
      · obtain rfl := List.mem_singleton.1 another
        exact last.elim (· turnsDown)
          (· (exclusive.changed thread change member changes))
    · obtain rfl := List.mem_singleton.1 member
      obtain ⟨i, here⟩ := (changes.move moved).1
      rcases List.mem_append.1 another with another | another
      · have shut := (exclusive.turnedDown _ other another turnsDown).phase numbered
          here rfl
        rw [WorkerPhase.unshut_of_changing changes.2] at shut
        contradiction
      · obtain rfl := List.mem_singleton.1 another
        exact last.elim (· turnsDown)
          (· ⟨i, thread, here, rfl, WorkerPhase.passed_of_changing changes.2⟩)

theorem run_exclusive (run : Run (System.step priv) (Start priv) trace sys) :
    Exclusive trace sys :=
  run.invariant_trace (fun _ => True) Exclusive
    (fun _ _ => ⟨by simp, by simp, by simp⟩)
    (fun _ _ _ _ before _ exclusive stepped _ =>
      exclusive.move (run_numbered before) (step_move stepped)) (by simp)

theorem run_answers (run : Run (System.step priv) (Start priv) trace sys)
    (real : c ≠ 0) (member : yes ∈ trace) (pressed : PressesYes c yes)
    (other : no ∈ trace) (denied : PressesNo c no) : False := by
  have one : trace.countP (answersPrompt c) ≤ 1 := by
    have most := (run_once run c real).1
    simp only [prompts] at most
    omega
  obtain ⟨ch, env, key, sure, prompt⟩ := pressed
  obtain ⟨ch', env', key', refuses, prompt'⟩ := denied
  have first : answersPrompt c yes = true := by
    rcases sure with rfl | rfl <;> simp [answersPrompt, key, prompt] <;> rfl
  have second : answersPrompt c no = true := by
    rcases refuses with rfl | rfl <;> simp [answersPrompt, key', prompt'] <;> rfl
  have differs : no ≠ yes := by
    rintro rfl
    rw [key] at key'
    cases key'
    rcases sure with rfl | rfl <;> simp at refuses
  obtain ⟨before, after, rfl⟩ := List.append_of_mem member
  have more : 0 < before.countP (answersPrompt c) + after.countP (answersPrompt c) := by
    rcases List.mem_append.1 other with there | there
    · have counted := List.countP_pos_iff.2 ⟨no, there, second⟩
      omega
    · rcases List.mem_cons.1 there with same | there
      · exact absurd same differs
      · have counted := List.countP_pos_iff.2 ⟨no, there, second⟩
        omega
  rw [List.countP_append, List.countP_cons, first, if_pos rfl] at one
  omega

theorem Works.unique (first : Works thread taken) (second : Works other taken) :
    thread = other := by
  obtain ⟨i, env, step, here⟩ := first
  obtain ⟨j, env', step', here'⟩ := second
  rw [step] at step'
  cases step'
  exact Option.some.inj (here.symm.trans here')

/-- What the step `taken` of the run `trace` may do to the file tree, after the
steps `earlier`. -/
structure Guarded (priv : FsPriv) (trace earlier : List (Taken System Label))
    (taken : Taken System Label) : Prop where
  byWorker : taken.dst.bus.tree ≠ taken.src.bus.tree →
    ∃ thread, Changes thread taken
  onPath : ∀ thread, Works thread taken → ChangeOf earlier thread taken
  approved : ∀ thread, Changes thread taken →
    thread.Mutates ∧ Approved priv thread.corrId thread.abs earlier
  /-- Other operations, and requests that are refused at any time of the run,
  change nothing. -/
  otherwise : ∀ thread, Works thread taken →
    (¬thread.Mutates ∨ ∃ other ∈ trace, Refused thread.corrId other) →
      ¬Changes thread taken ∧ taken.dst.bus.tree = taken.src.bus.tree

theorem Guarded.of_run
    (run : Run (System.step priv) (Start priv) (earlier ++ taken :: later) sys) :
    Guarded priv (earlier ++ taken :: later) earlier taken := by
  obtain ⟨before, stepped⟩ := run.split
  have gate := run_gate before
  have moved := step_move stepped
  have inTrace : taken ∈ earlier ++ taken :: later := by simp
  have byWorker : taken.dst.bus.tree ≠ taken.src.bus.tree →
      ∃ thread, Changes thread taken := moved.tree.resolve_left
  have approved : ∀ thread, Changes thread taken →
      thread.Mutates ∧ Approved priv thread.corrId thread.abs earlier := by
    intro thread changes
    obtain ⟨i, here⟩ := (changes.move moved).1
    exact ⟨run_mutatesGated before i thread here
        (WorkerPhase.gated_of_changing changes.2),
      gate.granted i thread here (WorkerPhase.granted_of_changing changes.2)⟩
  have unchanging : ∀ thread,
      (¬thread.Mutates ∨ ∃ other ∈ earlier ++ taken :: later,
        Refused thread.corrId other) → ¬Changes thread taken := by
    intro thread reason changes
    rcases reason with idle | ⟨other, member, ⟨real, no⟩ | turnsDown⟩
    · exact idle (approved thread changes).1
    · obtain ⟨start, yes, rest, rfl, pressed, _⟩ := (approved thread changes).2
      exact run_answers run real (by simp) pressed member no
    · exact (run_exclusive run).never thread taken inTrace changes other member
        turnsDown
  refine ⟨byWorker, fun thread works => gate.changeOf moved works, approved,
    fun thread works reason => ⟨unchanging thread reason, ?_⟩⟩
  by_contra differs
  obtain ⟨other, changes⟩ := byWorker differs
  obtain rfl := works.unique changes.1
  exact unchanging thread reason changes

theorem approval_gate (run : Run (System.step priv) (Start priv) trace sys) :
    (sys.requestIds.Nodup ∧ ∀ c ∈ sys.requestIds, 0 < c ∧ c < sys.tui.nextCorr) ∧
    ∀ earlier taken later, trace = earlier ++ taken :: later →
      Guarded priv trace earlier taken := by
  have numbered := run_numbered run
  refine ⟨⟨numbered.different, numbered.given⟩, ?_⟩
  rintro earlier taken later rfl
  exact .of_run run

def createLabels : List Label :=
  [line "/fs create a", .recv] ++ List.replicate 5 (work "a" "hi") ++
    [.poll [] [], press 'y'.toNat, .recv] ++ List.replicate 5 (work "a" "hi")

theorem createLabels_run : ∃ sys,
    exec (System.step sandboxPriv) createLabels (fresh emptySandbox) = some sys ∧
      sys.bus.tree.node [ascii "s", ascii "a"] = some (.file 0 (ascii "hi")) := by
  have created : (exec (System.step sandboxPriv) createLabels
      (fresh emptySandbox)).map (fun sys =>
        sys.bus.tree.node [ascii "s", ascii "a"]) =
          some (some (.file 0 (ascii "hi"))) := by decide +kernel
  exact Option.map_eq_some_iff.1 created

theorem approval_gate_create : ∃ (trace : List (Taken System Label)) (sys : System),
    sys.bus.tree.node [ascii "s", ascii "a"] = some (.file 0 (ascii "hi")) ∧
    (sys.requestIds.Nodup ∧ ∀ c ∈ sys.requestIds, 0 < c ∧ c < sys.tui.nextCorr) ∧
    ∀ earlier taken later, trace = earlier ++ taken :: later →
      Guarded sandboxPriv trace earlier taken := by
  obtain ⟨sys, ran, file⟩ := createLabels_run
  have run := Run.of_exec (fresh_start emptySandbox_plain) ran
  exact ⟨_, sys, file, approval_gate run⟩

end System

end FreeCli

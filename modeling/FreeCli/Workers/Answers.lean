import FreeCli.Workers.ApprovalSlots

namespace FreeCli

open Words Slots

/-! The messages of a worker request in the order they are sent, and that every
operation gets to its two closing messages. -/

/-- What request `c` sends before its result: progress, a question, or nothing. -/
def Announces (c : Nat) (sent : List ToTui) : Prop :=
  sent = [] ∨ (∃ description, sent = [.workerStart c 0 (ascii "filesystem") description]) ∨
    ∃ description, sent = [.approvalReq c c description]

inductive WorkerAnswered (c : Nat) : List ToTui → Prop
  | replied (before : List ToTui) (success : Bool) (result : Bytes)
      (announces : Announces c before) :
      WorkerAnswered c (before ++ [.workerRep c success result, .workerEnd c])

namespace WorkerThread

/-- What a thread has sent when it has reached its phase. -/
def Sent (thread : WorkerThread) (sent : List ToTui) : Prop :=
  match thread.phase with
  | .start | .progress | .stat | .claim | .ask _ => sent = []
  | .look => ∃ description,
      sent = [.workerStart thread.corrId 0 (ascii "filesystem") description]
  | .wait _ | .blocked _ | .release _ _ | .change | .write _ _ =>
      ∃ description, sent = [.approvalReq thread.corrId thread.corrId description]
  | .reply _ _ => Announces thread.corrId sent
  | .finish => ∃ before success result, Announces thread.corrId before ∧
      sent = before ++ [.workerRep thread.corrId success result]
  | .done => WorkerAnswered thread.corrId sent

variable {priv : FsPriv} {thread next : WorkerThread} {env : WorkerEnv}
  {bus after : Bus} {sent new : List ToTui}

theorem Sent.announces (soFar : thread.Sent sent) (running : thread.phase.Running) :
    Announces thread.corrId sent := by
  obtain ⟨unfinished, undone, unreplied⟩ := running
  cases at_ : thread.phase with
  | reply success result => exact absurd at_ (unreplied success result)
  | finish => exact absurd at_ unfinished
  | done => exact absurd at_ undone
  | look =>
      simp only [Sent, at_] at soFar
      exact .inr (.inl soFar)
  | start | progress | stat | claim | ask slot =>
      simp only [Sent, at_] at soFar
      exact .inl soFar
  | _ =>
      simp only [Sent, at_] at soFar
      exact .inr (.inr soFar)

theorem afterResolve_sent (op : FsOp) (at_ : thread.phase = afterResolve op) :
    thread.Sent [] := by
  cases op <;> simp [Sent, at_, afterResolve]

theorem Sent.move (soFar : thread.Sent sent)
    (moved : thread.Move priv env bus next after)
    (posted : after.toTui = bus.toTui ++ new) : next.Sent (sent ++ new) := by
  have quiet : after.toTui = bus.toTui → sent ++ new = sent := by
    intro same
    rw [List.self_eq_append_right.1 (same.symm.trans posted), List.append_nil]
  have sends : ∀ msg, after.toTui = bus.toTui ++ [msg] → sent ++ new = sent ++ [msg] := by
    intro msg same
    rw [List.append_cancel_left (posted.symm.trans same)]
  cases moved with
  | ends success result early running =>
      rw [quiet rfl]
      exact soFar.announces running
  | resolved op path abs known at_ found =>
      simp only [Sent, at_] at soFar
      rw [quiet rfl, soFar]
      exact afterResolve_sent op rfl
  | progressed description at_ =>
      simp only [Sent, at_] at soFar
      rw [sends _ rfl, soFar]
      exact ⟨description, rfl⟩
  | missing op known at_ free =>
      simp only [Sent, at_] at soFar
      rw [quiet rfl, soFar]
      exact rfl
  | claimed slot at_ free =>
      simp only [Sent, at_] at soFar
      rw [quiet rfl, soFar]
      exact rfl
  | asked op slot known at_ =>
      simp only [Sent, at_] at soFar
      rw [sends _ rfl, soFar]
      exact ⟨_, rfl⟩
  | denied slot result at_ =>
      simp only [Sent, at_] at soFar
      rw [quiet rfl]
      exact .inr (.inr soFar)
  | removed loc tree at_ known works worked =>
      simp only [Sent, at_] at soFar
      rw [quiet rfl]
      exact .inr (.inr soFar)
  | written loc inode success result at_ =>
      simp only [Sent, at_] at soFar
      rw [quiet rfl]
      exact .inr (.inr soFar)
  | replied success result at_ =>
      simp only [Sent, at_] at soFar
      rw [sends _ rfl]
      exact ⟨sent, success, result, soFar, rfl⟩
  | finished at_ =>
      simp only [Sent, at_] at soFar
      obtain ⟨before, success, result, announces, rfl⟩ := soFar
      rw [sends _ rfl, List.append_assoc]
      exact WorkerAnswered.replied before success result announces
  | waits slot at_ | decided slot pending at_ held | timedOut slot pending at_ late held
  | woken slot at_ early | granted slot at_
  | opened op loc inode tree at_ known writes works worked =>
      simp only [Sent, at_] at soFar
      rw [quiet rfl]
      exact soFar

/-- What was sent can be completed, and a thread that is done has. -/
theorem Sent.completes (soFar : thread.Sent sent) :
    ∃ rest, WorkerAnswered thread.corrId (sent ++ rest) ∧
      (thread.phase = .done → rest = []) := by
  cases at_ : thread.phase with
  | finish =>
      simp only [Sent, at_] at soFar
      obtain ⟨before, success, result, announces, rfl⟩ := soFar
      refine ⟨[.workerEnd thread.corrId], ?_, by simp⟩
      rw [List.append_assoc]
      exact .replied before success result announces
  | done =>
      simp only [Sent, at_] at soFar
      exact ⟨[], by rwa [List.append_nil], fun _ => rfl⟩
  | reply success result =>
      simp only [Sent, at_] at soFar
      exact ⟨_, .replied sent success result soFar, by simp⟩
  | _ =>
      have announces := soFar.announces (by simp [WorkerPhase.Running, at_])
      exact ⟨_, .replied sent false [] announces, by simp⟩

/-! An operation comes to an end. -/

/-- Steps left when no wait is woken before its time. -/
def rank (thread : WorkerThread) : Nat :=
  match thread.phase with
  | .start => 11
  | .progress | .stat => 10
  | .look | .claim => 9
  | .ask _ => 8
  | .wait _ => 7
  | .blocked _ => 6
  | .release _ _ => 5
  | .change => 4
  | .write _ _ => 3
  | .reply _ _ => 2
  | .finish => 1
  | .done => 0

/-- Only a wait that is woken before its deadline repeats a step. -/
theorem Move.rank_lt (moved : thread.Move priv env bus next after) :
    next.rank < thread.rank ∨
      env.timeout = false ∧ ∃ slot, thread.phase = .blocked slot := by
  cases moved with
  | woken slot at_ early => exact .inr ⟨early, slot, at_⟩
  | ends success result early running =>
      left
      obtain ⟨unfinished, undone, unreplied⟩ := running
      cases at_ : thread.phase with
      | reply success result => exact absurd at_ (unreplied success result)
      | finish => exact absurd at_ unfinished
      | done => exact absurd at_ undone
      | _ => simp [rank, goto, at_]
  | resolved op path abs known at_ found =>
      left
      cases op <;> simp [rank, at_, afterResolve]
  | _ =>
      left
      simp [rank, goto, *]

theorem step_isSome (holds : thread.Holds bus.approvals)
    (live : thread.phase ≠ .done) (priv : FsPriv) (env : WorkerEnv) :
    (thread.step priv env bus).isSome := by
  have held : ∀ slot, thread.phase.slot = some slot →
      ∃ pending, bus.approvals[slot]? = some (some pending) := by
    intro slot has
    obtain ⟨pending, here, _⟩ := holds slot has
    exact ⟨pending, here⟩
  cases at_ : thread.phase with
  | done => exact absurd at_ live
  | reply success result => rw [step, at_]; rfl
  | finish => rw [step, at_]; rfl
  | wait slot =>
      obtain ⟨pending, here⟩ := held slot (by rw [at_]; rfl)
      simp only [step, at_]
      split
      · simp only [stepOp, at_, wait, here]
        split
        · rfl
        · rfl
      · rfl
  | blocked slot =>
      obtain ⟨pending, here⟩ := held slot (by rw [at_]; rfl)
      simp only [step, at_]
      split
      · simp only [stepOp, at_, wake, here]
        split
        · rfl
        · rfl
      · rfl
  | _ =>
      simp only [step, at_]
      split
      · simp only [stepOp, at_]
        rfl
      · rfl

end WorkerThread

end FreeCli

import Mathlib.Order.WellFounded
import FreeCli.Backend.Request
import FreeCli.Library.Transition

namespace FreeCli

open Words Transition

/-! The messages of a chat request in the order they are sent: a pair for every
sub-query, the answer, the name of the session. -/

structure SubQuery where
  corrId : Nat
  model : Bytes
  description : Bytes
  deriving DecidableEq, Repr

def SubQuery.start (parent : Nat) (sub : SubQuery) : ToTui :=
  .workerStart sub.corrId parent sub.model sub.description

def SubQuery.messages (parent : Nat) (sub : SubQuery) : List ToTui :=
  [sub.start parent, .workerEnd sub.corrId]

def pairs (parent : Nat) (subs : List SubQuery) : List ToTui :=
  subs.flatMap (SubQuery.messages parent)

/-- All the messages of request `c`, with `n` messages from session index `i`. -/
inductive Answered (c i n : Nat) : List ToTui → Prop
  | failed (text : Bytes) : Answered c i n [.repError c text]
  | replied (subs : List SubQuery) (content : Bytes) (reasoning : Option Bytes)
      (topic : Option Bytes)
      (named : topic ≠ none → n = 1 ∧ content ≠ []) :
      Answered c i n
        (pairs c subs ++ .repFinal c i content reasoning ::
          topic.toList.map (.sessionRename c i))

namespace ChatThread

/-- What a thread has sent when it has reached its phase. -/
def Sent (thread : ChatThread) (sent : List ToTui) : Prop :=
  match thread.phase with
  | .start => sent = []
  | .loop _ | .tools _ _ | .subStart _ _ _ _ _ | .final _ _ =>
      ∃ subs, sent = pairs thread.corrId subs
  | .subEnd _ _ subCorr => ∃ (subs : List SubQuery) (sub : SubQuery),
      sub.corrId = subCorr ∧ sent = pairs thread.corrId subs ++ [sub.start thread.corrId]
  | .naming content => thread.msgs.length = 1 ∧ content ≠ [] ∧ ∃ subs reasoning,
      sent = pairs thread.corrId subs ++
        [.repFinal thread.corrId thread.sessionIdx content reasoning]
  | .rename _ => thread.msgs.length = 1 ∧ ∃ subs content reasoning, content ≠ [] ∧
      sent = pairs thread.corrId subs ++
        [.repFinal thread.corrId thread.sessionIdx content reasoning]
  | .done => Answered thread.corrId thread.sessionIdx thread.msgs.length sent

variable {thread next : ChatThread} {sent new : List ToTui} {env : ChatEnv}

theorem pairs_concat (parent : Nat) (subs : List SubQuery) (sub : SubQuery) :
    pairs parent subs ++ [sub.start parent] ++ [.workerEnd sub.corrId] =
      pairs parent (subs ++ [sub]) := by
  simp [pairs, SubQuery.messages]

theorem loopReply_sent (iters : Nat) (reply : Option ProviderReply)
    (subs : List SubQuery) :
    (thread.loopReply iters reply).Sent (pairs thread.corrId subs) := by
  rw [loopReply.eq_def]
  split
  · exact ⟨subs, rfl⟩
  · split
    · exact ⟨subs, rfl⟩
    · exact ⟨subs, rfl⟩

theorem tool_sent (iters : Nat) (call : ToolCall) (left : List ToolCall)
    (number : Nat) (subs : List SubQuery) :
    (thread.tool iters call left number).1.Sent (pairs thread.corrId subs) := by
  rw [tool]
  split
  · exact ⟨subs, rfl⟩
  · exact ⟨subs, rfl⟩

theorem afterFinal_sent (content : Bytes) (reasoning : Option Bytes)
    (subs : List SubQuery) :
    (thread.afterFinal content).Sent (pairs thread.corrId subs ++
      [.repFinal thread.corrId thread.sessionIdx content reasoning]) := by
  rw [afterFinal]
  split
  next first => exact ⟨first.1, first.2.1, subs, reasoning, rfl⟩
  next => exact Answered.replied subs content reasoning none (absurd rfl)

theorem name_sent (env : ChatEnv) (first : thread.msgs.length = 1)
    (said : content ≠ []) (subs : List SubQuery) (reasoning : Option Bytes) :
    (thread.name env).Sent (pairs thread.corrId subs ++
      [.repFinal thread.corrId thread.sessionIdx content reasoning]) := by
  have unnamed : Answered thread.corrId thread.sessionIdx thread.msgs.length
      (pairs thread.corrId subs ++
        [.repFinal thread.corrId thread.sessionIdx content reasoning]) :=
    .replied subs content reasoning none (absurd rfl)
  rw [name]
  split
  · simp only
    split
    · exact unnamed
    · exact ⟨first, subs, content, reasoning, said, rfl⟩
  · exact unnamed

theorem Sent.step (soFar : thread.Sent sent)
    (stepped : thread.step env number = some (next, after, new))
    (encodes : env.encodeFails = false) : next.Sent (sent ++ new) := by
  rw [ChatThread.step.eq_def] at stepped
  split at stepped
  next at_ =>
    simp only [Sent, at_] at soFar
    subst soFar
    split at stepped
    · cases stepped
      exact ⟨[], rfl⟩
    · cases stepped
      exact .failed _
  next iters at_ =>
    simp only [Sent, at_] at soFar
    obtain ⟨subs, rfl⟩ := soFar
    split at stepped
    · cases stepped
      rw [List.append_nil]
      exact loopReply_sent iters env.reply subs
    · cases stepped
      exact ⟨subs, List.append_nil _⟩
  next iters at_ =>
    simp only [Sent, at_] at soFar
    obtain ⟨subs, rfl⟩ := soFar
    cases stepped
    exact ⟨subs, List.append_nil _⟩
  next iters call left at_ =>
    simp only [Sent, at_] at soFar
    obtain ⟨subs, rfl⟩ := soFar
    cases stepped
    rw [List.append_nil]
    exact tool_sent iters call left number subs
  next iters left subCorr model prompt at_ =>
    simp only [Sent, at_] at soFar
    obtain ⟨subs, rfl⟩ := soFar
    cases stepped
    exact ⟨subs, ⟨subCorr, model, prompt.take 40⟩, rfl, rfl⟩
  next iters left subCorr at_ =>
    simp only [Sent, at_] at soFar
    obtain ⟨subs, sub, rfl, rfl⟩ := soFar
    cases stepped
    exact ⟨subs ++ [sub], pairs_concat _ subs sub⟩
  next content reasoning at_ =>
    simp only [Sent, at_] at soFar
    obtain ⟨subs, rfl⟩ := soFar
    rw [encodes] at stepped
    cases stepped
    exact afterFinal_sent content reasoning subs
  next content at_ =>
    simp only [Sent, at_] at soFar
    obtain ⟨first, said, subs, reasoning, rfl⟩ := soFar
    cases stepped
    rw [List.append_nil]
    exact name_sent env first said subs reasoning
  next topic at_ =>
    simp only [Sent, at_] at soFar
    obtain ⟨first, subs, content, reasoning, said, rfl⟩ := soFar
    cases stepped
    have named := Answered.replied (c := thread.corrId)
      (i := thread.sessionIdx) (n := thread.msgs.length) subs content reasoning
      (some topic) fun _ => ⟨first, said⟩
    simpa [Sent, goto] using named
  next => contradiction

theorem Sent.completes (soFar : thread.Sent sent) :
    ∃ rest, Answered thread.corrId thread.sessionIdx thread.msgs.length
      (sent ++ rest) ∧ (thread.phase = .done → rest = []) := by
  cases at_ : thread.phase with
  | start =>
      simp only [Sent, at_] at soFar
      subst soFar
      exact ⟨_, .failed [], nofun⟩
  | subEnd iters left subCorr =>
      simp only [Sent, at_] at soFar
      obtain ⟨subs, sub, rfl, rfl⟩ := soFar
      refine ⟨[.workerEnd sub.corrId, .repFinal thread.corrId thread.sessionIdx [] none],
        ?_, nofun⟩
      have answered := Answered.replied (c := thread.corrId)
        (i := thread.sessionIdx) (n := thread.msgs.length) (subs ++ [sub]) [] none
        none (absurd rfl)
      rw [← pairs_concat] at answered
      simpa using answered
  | naming content =>
      simp only [Sent, at_] at soFar
      obtain ⟨first, said, subs, reasoning, rfl⟩ := soFar
      refine ⟨[], ?_, fun _ => rfl⟩
      rw [List.append_nil]
      exact .replied subs content reasoning none (absurd rfl)
  | rename topic =>
      simp only [Sent, at_] at soFar
      obtain ⟨first, subs, content, reasoning, said, rfl⟩ := soFar
      refine ⟨[], ?_, fun _ => rfl⟩
      rw [List.append_nil]
      exact .replied subs content reasoning none (absurd rfl)
  | done =>
      simp only [Sent, at_] at soFar
      exact ⟨[], by rwa [List.append_nil], fun _ => rfl⟩
  | _ =>
      simp only [Sent, at_] at soFar
      obtain ⟨subs, rfl⟩ := soFar
      exact ⟨_, .replied subs [] none none (absurd rfl), nofun⟩

/-! A request comes to an end. -/

/-- Rounds of the loop left, then work left in a round. -/
def rank (thread : ChatThread) : Nat × Nat :=
  match thread.phase with
  | .start => (maxToolIters + 5, 0)
  | .loop iters => (maxToolIters - iters + 4, 0)
  | .tools iters left => (maxToolIters - iters + 4, 3 * left.length + 1)
  | .subStart iters left _ _ _ => (maxToolIters - iters + 4, 3 * left.length + 3)
  | .subEnd iters left _ => (maxToolIters - iters + 4, 3 * left.length + 2)
  | .final _ _ => (3, 0)
  | .naming _ => (2, 0)
  | .rename _ => (1, 0)
  | .done => (0, 0)

def Below (next thread : ChatThread) : Prop :=
  Prod.Lex (· < ·) (· < ·) next.rank thread.rank

theorem below_wf : WellFounded Below :=
  InvImage.wf rank (WellFounded.prod_lex Nat.lt_wfRel.wf Nat.lt_wfRel.wf)

theorem step_below
    (stepped : thread.step env number = some (next, after, new)) :
    next.Below thread := by
  rw [Below, Prod.lex_def]
  rw [ChatThread.step.eq_def] at stepped
  split at stepped
  next at_ =>
    split at stepped
    · cases stepped
      simp [rank, goto, at_]
    · cases stepped
      simp [rank, goto, at_]
  next iters at_ =>
    split at stepped
    next more =>
      cases stepped
      rw [loopReply.eq_def]
      split
      · simp [rank, goto, at_]
      · split
        · simp [rank, goto, at_]
        · simp only [rank, goto, at_]
          omega
    · cases stepped
      simp [rank, goto, at_]
  next iters at_ =>
    cases stepped
    simp [rank, goto, at_]
  next iters call left at_ =>
    cases stepped
    rw [tool]
    split
    · simp only [rank, goto, at_, List.length_cons, true_and]
      omega
    · simp only [rank, goto, at_, List.length_cons, true_and]
      omega
  next iters left subCorr model prompt at_ =>
    cases stepped
    simp [rank, goto, at_]
  next iters left subCorr at_ =>
    cases stepped
    simp [rank, goto, at_]
  next content reasoning at_ =>
    cases stepped
    rw [afterFinal]
    split
    · simp [rank, goto, at_]
    · simp [rank, goto, at_]
  next content at_ =>
    cases stepped
    rw [name]
    split
    · simp only
      split
      · simp [rank, goto, at_]
      · simp [rank, goto, at_]
    · simp [rank, goto, at_]
  next topic at_ =>
    cases stepped
    simp [rank, goto, at_]
  next => contradiction

theorem step_isSome (live : thread.phase ≠ .done) (env : ChatEnv) (number : Nat) :
    (thread.step env number).isSome := by
  rw [ChatThread.step.eq_def]
  split
  · split
    · rfl
    · rfl
  · split
    · rfl
    · rfl
  all_goals first | rfl | contradiction

/-- The thread alone: what the providers do and the numbers it is given come from
outside. -/
def advance (input : ChatEnv × Nat) (thread : ChatThread) : Option ChatThread :=
  (thread.step input.1 input.2).map Prod.fst

theorem comes_to_end (thread : ChatThread) (inputs : Nat → ChatEnv × Nat) :
    ∃ n, (drive advance inputs n thread).phase = .done := by
  have descends : ∀ input thread next, advance input thread = some next →
      next.Below thread := by
    intro input thread next stepped
    obtain ⟨result, ran, rfl⟩ := Option.map_eq_some_iff.1 stepped
    exact step_below ran
  obtain ⟨n, input, ended⟩ := drive_ends below_wf descends inputs thread
  refine ⟨n, ?_⟩
  by_contra live
  have some_ := step_isSome live input.1 input.2
  rw [Option.map_eq_none_iff.1 ended] at some_
  contradiction

end ChatThread

end FreeCli

import Mathlib.Data.List.DropRight
import FreeCli.Core.Messages

namespace FreeCli

open Words

/-! `handle_request` of `backend.c`, one provider call or message at a time.
The providers' replies come from outside, and so does what cJSON reads in the
arguments of a tool call. -/

def maxToolIters : Nat := 5

structure ToolCall where
  name : Option Bytes
  /-- model and prompt, when `parse_ask_ai_args` succeeds -/
  askAiArgs : Option (Bytes × Bytes)
  deriving DecidableEq, Repr

structure ProviderReply where
  content : Option Bytes
  reasoning : Option Bytes
  toolCalls : List ToolCall
  deriving DecidableEq, Repr

inductive ChatPhase where
  | start
  /-- at the head of the agentic loop after so many rounds -/
  | loop (iters : Nat)
  | tools (iters : Nat) (left : List ToolCall)
  | subStart (iters : Nat) (left : List ToolCall) (subCorr : Nat)
      (model prompt : Bytes)
  | subEnd (iters : Nat) (left : List ToolCall) (subCorr : Nat)
  | final (content : Bytes) (reasoning : Option Bytes)
  | naming (content : Bytes)
  | rename (topic : Bytes)
  | done
  deriving DecidableEq, Repr

structure ChatThread where
  corrId : Nat
  sessionIdx : Nat
  /-- `is_user` and text of the messages of the request -/
  msgs : List (Bool × Bytes)
  model : Bytes
  providerId : Bytes
  phase : ChatPhase
  deriving DecidableEq, Repr

/-- What a step of a request meets outside the modelled code. -/
structure ChatEnv where
  providerOk : Bool
  /-- what `send` returns -/
  reply : Option ProviderReply
  encodeFails : Bool
  deriving DecidableEq, Repr

def isBlank (byte : UInt8) : Bool :=
  byte == 32 || byte == 10 || byte == 13 || byte == 9

/-- The topic without blanks around it and dots behind it; its first byte
stays. -/
def trimTopic (content : Bytes) : Bytes :=
  match content.dropWhile isBlank with
  | [] => []
  | first :: rest =>
      first :: rest.rdropWhile fun byte => isBlank byte || byte == 46

namespace ChatThread

variable (thread : ChatThread)

def goto (phase : ChatPhase) : ChatThread := { thread with phase }

/-- `n_tool_calls == 0` ends the loop with the reply. -/
def loopReply (iters : Nat) : Option ProviderReply → ChatThread
  | none => thread.goto (.final [] none)
  | some reply =>
      if reply.toolCalls = [] then
        thread.goto (.final (reply.content.getD []) reply.reasoning)
      else
        thread.goto (.tools (iters + 1) reply.toolCalls)

/-- The next tool call; only `ask_ai` with arguments that can be read starts a
sub-query, whose id `alloc_sub_corr` takes from `subCorrNext`. -/
def tool (iters : Nat) (call : ToolCall) (left : List ToolCall)
    (subCorrNext : Nat) : ChatThread × Nat :=
  match if call.name = some (ascii "ask_ai") then call.askAiArgs else none with
  | some (model, prompt) =>
      (thread.goto (.subStart iters left subCorrNext model prompt), subCorrNext + 1)
  | none => (thread.goto (.tools iters left), subCorrNext)

def afterFinal (content : Bytes) : ChatThread :=
  if thread.msgs.length = 1 ∧ content ≠ [] ∧ (thread.msgs.head?.map Prod.fst) = some true then
    thread.goto (.naming content)
  else
    thread.goto .done

def name (env : ChatEnv) : ChatThread :=
  match if env.providerOk then env.reply else none with
  | some reply =>
      let topic := trimTopic (reply.content.getD [])
      if topic = [] then thread.goto .done else thread.goto (.rename topic)
  | none => thread.goto .done

def step (env : ChatEnv) (subCorrNext : Nat) :
    Option (ChatThread × Nat × List ToTui) :=
  match thread.phase with
  | .start =>
      if env.providerOk then
        some (thread.goto (.loop 0), subCorrNext, [])
      else
        some (thread.goto .done, subCorrNext, [.repError thread.corrId
          (ascii "provider unavailable (check API keys)")])
  | .loop iters =>
      if iters < maxToolIters then
        some (thread.loopReply iters env.reply, subCorrNext, [])
      else
        some (thread.goto (.final [] none), subCorrNext, [])
  | .tools iters [] => some (thread.goto (.loop iters), subCorrNext, [])
  | .tools iters (call :: left) =>
      let next := thread.tool iters call left subCorrNext
      some (next.1, next.2, [])
  | .subStart iters left subCorr model prompt =>
      some (thread.goto (.subEnd iters left subCorr), subCorrNext,
        [.workerStart subCorr thread.corrId model (prompt.take 40)])
  | .subEnd iters left subCorr =>
      some (thread.goto (.tools iters left), subCorrNext, [.workerEnd subCorr])
  | .final content reasoning =>
      some (thread.afterFinal content, subCorrNext,
        if env.encodeFails then
          [.repError thread.corrId (ascii "internal encode error")]
        else
          [.repFinal thread.corrId thread.sessionIdx content reasoning])
  | .naming _ => some (thread.name env, subCorrNext, [])
  | .rename topic =>
      some (thread.goto .done, subCorrNext,
        [.sessionRename thread.corrId thread.sessionIdx topic])
  | .done => none

end ChatThread

/-! What one step of a request can do, said once. -/

def ChatPhase.answered : ChatPhase → Bool
  | .naming _ | .rename _ | .done => true
  | _ => false

def ChatPhase.subCorr : ChatPhase → Option Nat
  | .subStart _ _ subCorr _ _ => some subCorr
  | .subEnd _ _ subCorr => some subCorr
  | _ => none

namespace ChatThread

inductive Move (thread : ChatThread) (subCorrNext : Nat) :
    ChatThread → Nat → List ToTui → Prop
  | quiet (phase : ChatPhase) (before : thread.phase.subCorr = none)
      (after : phase.subCorr = none)
      (same : phase.answered = thread.phase.answered) (live : thread.phase ≠ .done) :
      Move thread subCorrNext (thread.goto phase) subCorrNext []
  | called (iters : Nat) (left : List ToolCall) (model prompt : Bytes)
      (before : thread.phase.subCorr = none)
      (open_ : thread.phase.answered = false) :
      Move thread subCorrNext
        (thread.goto (.subStart iters left subCorrNext model prompt))
        (subCorrNext + 1) []
  | started (iters : Nat) (left : List ToolCall) (subCorr : Nat)
      (model prompt : Bytes)
      (at_ : thread.phase = .subStart iters left subCorr model prompt) :
      Move thread subCorrNext (thread.goto (.subEnd iters left subCorr)) subCorrNext
        [.workerStart subCorr thread.corrId model (prompt.take 40)]
  | ended (iters : Nat) (left : List ToolCall) (subCorr : Nat)
      (at_ : thread.phase = .subEnd iters left subCorr) :
      Move thread subCorrNext (thread.goto (.tools iters left)) subCorrNext
        [.workerEnd subCorr]
  | failed (phase : ChatPhase) (text : Bytes)
      (before : thread.phase.subCorr = none)
      (open_ : thread.phase.answered = false) (after : phase.subCorr = none)
      (closed : phase.answered = true) :
      Move thread subCorrNext (thread.goto phase) subCorrNext
        [.repError thread.corrId text]
  | replied (phase : ChatPhase) (content : Bytes) (reasoning : Option Bytes)
      (at_ : thread.phase = .final content reasoning)
      (after : phase.subCorr = none) (closed : phase.answered = true) :
      Move thread subCorrNext (thread.goto phase) subCorrNext
        [.repFinal thread.corrId thread.sessionIdx content reasoning]
  | renamed (topic : Bytes) (at_ : thread.phase = .rename topic) :
      Move thread subCorrNext (thread.goto .done) subCorrNext
        [.sessionRename thread.corrId thread.sessionIdx topic]

variable {thread next : ChatThread} {env : ChatEnv} {subCorrNext : Nat}

theorem loopReply_move (reply : Option ProviderReply)
    (at_ : thread.phase = .loop iters) :
    Move thread subCorrNext (thread.loopReply iters reply) subCorrNext [] := by
  rw [loopReply.eq_def]
  split
  · exact .quiet _ (by rw [at_]; rfl) rfl (by rw [at_]; rfl) (by simp [at_])
  · split
    · exact .quiet _ (by rw [at_]; rfl) rfl (by rw [at_]; rfl) (by simp [at_])
    · exact .quiet _ (by rw [at_]; rfl) rfl (by rw [at_]; rfl) (by simp [at_])

theorem tool_move (call : ToolCall) (at_ : thread.phase = .tools iters (call :: left)) :
    Move thread subCorrNext (thread.tool iters call left subCorrNext).1
      (thread.tool iters call left subCorrNext).2 [] := by
  rw [tool]
  split
  next model prompt _ =>
    exact .called iters left model prompt (by rw [at_]; rfl) (by rw [at_]; rfl)
  next => exact .quiet _ (by rw [at_]; rfl) rfl (by rw [at_]; rfl) (by simp [at_])

theorem name_move (env : ChatEnv) (at_ : thread.phase = .naming content) :
    Move thread subCorrNext (thread.name env) subCorrNext [] := by
  have unsub : thread.phase.subCorr = none := by rw [at_]; rfl
  have answered : true = thread.phase.answered := by rw [at_]; rfl
  have live : thread.phase ≠ .done := by simp [at_]
  rw [name]
  split
  · simp only
    split
    · exact .quiet _ unsub rfl answered live
    · exact .quiet _ unsub rfl answered live
  · exact .quiet _ unsub rfl answered live

theorem final_move (env : ChatEnv) (at_ : thread.phase = .final content reasoning) :
    Move thread subCorrNext (thread.afterFinal content) subCorrNext
      (if env.encodeFails then
        [.repError thread.corrId (ascii "internal encode error")]
      else
        [.repFinal thread.corrId thread.sessionIdx content reasoning]) := by
  have after : ∃ phase, thread.afterFinal content = thread.goto phase ∧
      phase.subCorr = none ∧ phase.answered = true := by
    rw [afterFinal]
    split
    · exact ⟨_, rfl, rfl, rfl⟩
    · exact ⟨_, rfl, rfl, rfl⟩
  obtain ⟨phase, same, unsub, answered⟩ := after
  rw [same]
  split
  · exact .failed phase _ (by rw [at_]; rfl) (by rw [at_]; rfl) unsub answered
  · exact .replied phase content reasoning at_ unsub answered

theorem step_move
    (stepped : thread.step env subCorrNext = some (next, subNext, sent)) :
    Move thread subCorrNext next subNext sent := by
  rw [step.eq_def] at stepped
  split at stepped
  next at_ =>
    split at stepped
    · cases stepped
      exact .quiet _ (by rw [at_]; rfl) rfl (by rw [at_]; rfl) (by simp [at_])
    · cases stepped
      exact .failed _ _ (by rw [at_]; rfl) (by rw [at_]; rfl) rfl rfl
  next iters at_ =>
    split at stepped
    · cases stepped
      exact loopReply_move _ at_
    · cases stepped
      exact .quiet _ (by rw [at_]; rfl) rfl (by rw [at_]; rfl) (by simp [at_])
  next iters at_ =>
    cases stepped
    exact .quiet _ (by rw [at_]; rfl) rfl (by rw [at_]; rfl) (by simp [at_])
  next iters call left at_ =>
    cases stepped
    exact tool_move call at_
  next iters left subCorr model prompt at_ =>
    cases stepped
    exact .started iters left subCorr model prompt at_
  next iters left subCorr at_ =>
    cases stepped
    exact .ended iters left subCorr at_
  next content reasoning at_ =>
    cases stepped
    exact final_move env at_
  next at_ =>
    cases stepped
    exact name_move env at_
  next topic at_ =>
    cases stepped
    exact .renamed topic at_
  next => contradiction

theorem Move.live (moved : Move thread subCorrNext next subNext sent) :
    thread.phase ≠ .done := by
  intro ended
  cases moved with
  | quiet phase before after same live => exact live ended
  | called iters left model prompt before open_ =>
      rw [ended] at open_
      contradiction
  | started iters left subCorr model prompt at_ => cases at_.symm.trans ended
  | ended iters left subCorr at_ => cases at_.symm.trans ended
  | failed phase text before open_ =>
      rw [ended] at open_
      contradiction
  | replied phase content reasoning at_ => cases at_.symm.trans ended
  | renamed topic at_ => cases at_.symm.trans ended

theorem Move.keeps (moved : Move thread subCorrNext next subNext sent) :
    next.corrId = thread.corrId ∧ next.sessionIdx = thread.sessionIdx := by
  cases moved <;> exact ⟨rfl, rfl⟩

theorem Move.sends_noApproval (moved : Move thread subCorrNext next subNext sent)
    (corrId reqCorrId : Nat) (description : Bytes) :
    .approvalReq corrId reqCorrId description ∉ sent := by
  cases moved <;> simp

end ChatThread

end FreeCli

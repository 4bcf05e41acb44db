import Mathlib.Data.List.Basic
import FreeCli.Backend.Agent

namespace FreeCli

open Words Transition

/-! The tool history of the agentic loop stays well formed: every call of a tool
has its result before the provider is asked again. -/

structure ResultOf (call : AgentCall) (msg : AgentMessage) : Prop where
  id : msg.toolCallId = some (call.id.getD [])
  notUser : msg.isUser = false
  noCalls : msg.toolCalls = []
  text : msg.text.isSome

structure Asks (reply : AgentReply) (msg : AgentMessage) : Prop where
  content : msg.text.getD [] = reply.content.getD []
  notUser : msg.isUser = false
  calls : msg.toolCalls = reply.toolCalls
  noResult : msg.toolCallId = none

/-- One round: what was asked for, and one result for every call in its order. -/
def ToolRound (before : History) (reply : AgentReply) (after : History) : Prop :=
  reply.toolCalls ≠ [] ∧ ∃ asked results, after = before ++ asked :: results ∧
    Asks reply asked ∧ List.Forall₂ ResultOf reply.toolCalls results

abbrev MainCall := ProviderRequest × Option AgentReply

/-- The calls of `send` in at most `left` rounds from a history on, and the reply
the loop ends with. -/
inductive Rounds : (left : Nat) → History → List MainCall → Option AgentReply → Prop
  | capped (cb : History) : Rounds 0 cb [] none
  | failed (left : Nat) (req : ProviderRequest) :
      Rounds (left + 1) req.history [(req, none)] none
  | plain (left : Nat) (req : ProviderRequest) (reply : AgentReply)
      (noCalls : reply.toolCalls = []) :
      Rounds (left + 1) req.history [(req, some reply)] (some reply)
  | tools (left : Nat) (req : ProviderRequest) (reply : AgentReply) (after : History)
      (calls : List MainCall) (final : Option AgentReply)
      (round : ToolRound req.history reply after) (rest : Rounds left after calls final) :
      Rounds (left + 1) req.history ((req, some reply) :: calls) final

theorem Rounds.length_le (rounds : Rounds left cb calls final) :
    calls.length ≤ left := by
  induction rounds with
  | capped => exact Nat.le_refl _
  | failed | plain => simp
  | tools left req reply after calls final round rest ih =>
      rw [List.length_cons]
      omega

theorem Rounds.first (rounds : Rounds left cb calls final)
    (here : calls[0]? = some call) : call.1.history = cb := by
  cases rounds with
  | capped => contradiction
  | _ =>
      obtain rfl := Option.some.inj here
      rfl

theorem Rounds.next (rounds : Rounds left cb calls final)
    (here : calls[k]? = some call) (there : calls[k + 1]? = some later) :
    ∃ reply, call.2 = some reply ∧ ToolRound call.1.history reply later.1.history := by
  induction rounds generalizing k with
  | capped => contradiction
  | failed | plain => simp at there
  | tools left req reply after calls final round rest ih =>
      rw [List.getElem?_cons_succ] at there
      cases k with
      | zero =>
          obtain rfl := Option.some.inj here
          exact ⟨reply, rfl, rest.first there ▸ round⟩
      | succ k => exact ih here there

/-- The content of the reply that carried no tool calls. -/
def plainContent (calls : List MainCall) : Bytes :=
  let plain := (calls.filterMap Prod.snd).find? fun reply => reply.toolCalls = []
  (plain.bind AgentReply.content).getD []

theorem Rounds.plainContent (rounds : Rounds left cb calls final) :
    FreeCli.plainContent calls = (final.bind AgentReply.content).getD [] := by
  induction rounds with
  | capped => rfl
  | failed left req => rfl
  | plain left req reply noCalls => simp [FreeCli.plainContent, noCalls]
  | tools left req reply after calls final round rest ih =>
      rw [← ih]
      simp [FreeCli.plainContent, round.1]

namespace Agent

variable {World Provider : Type} (outside : Outside World Provider)
  (ra : RequestArg) (agent : Agent World)

theorem toolCall_result (call : AgentCall) :
    (toolCall outside ra agent call).calls = agent.calls ∧
      ∃ msg, (toolCall outside ra agent call).cb = agent.cb ++ [msg] ∧
        ResultOf call msg := by
  rw [toolCall]
  split
  · exact ⟨rfl, _, rfl, rfl, rfl, rfl, rfl⟩
  · split
    · exact ⟨rfl, _, rfl, rfl, rfl, rfl, rfl⟩
    · exact ⟨rfl, _, rfl, rfl, rfl, rfl, rfl⟩

theorem toolCalls_results (calls : List AgentCall) :
    (calls.foldl (toolCall outside ra) agent).calls = agent.calls ∧
      ∃ results, (calls.foldl (toolCall outside ra) agent).cb = agent.cb ++ results ∧
        List.Forall₂ ResultOf calls results := by
  induction calls generalizing agent with
  | nil => exact ⟨rfl, [], (List.append_nil _).symm, .nil⟩
  | cons call calls ih =>
      obtain ⟨same, msg, grown, result⟩ :=
        toolCall_result outside ra agent call
      obtain ⟨kept, results, more, all⟩ := ih (toolCall outside ra agent call)
      rw [List.foldl_cons]
      refine ⟨kept.trans same, msg :: results, ?_, .cons result all⟩
      rw [more, grown, List.append_assoc, List.singleton_append]

theorem chatAddToolCalls_asks {reply : AgentReply} :
    Asks reply
      { text := reply.content.filter fun bytes => bytes ≠ []
        isUser := false
        reasoning := reply.reasoning.filter fun bytes => bytes ≠ []
        toolCalls := reply.toolCalls
        toolCallId := none } where
  content := by
    cases reply.content with
    | none => rfl
    | some content => by_cases empty : content = [] <;> simp [Option.filter, empty]
  notUser := rfl
  calls := rfl
  noResult := rfl

/-- The agent after one more call of `send`. -/
def heard (pr : Option AgentReply) (world : World) : Agent World :=
  { agent with
    world
    calls := agent.calls ++ [(⟨agent.cb, ra.model, supportsTools ra⟩, pr)] }

def toolsAsked (reply : AgentReply) (world : World) : Agent World :=
  { heard ra agent (some reply) world with
    cb := agent.cb.chatAddToolCalls reply.content reply.reasoning reply.toolCalls }

/-- What a round of the loop comes to, with `left` rounds behind it. -/
inductive LoopRound (prov : Provider) (left : Nat) : Option AgentReply × Agent World → Prop
  | failed {world : World}
      (sent : outside.send prov ⟨agent.cb, ra.model, supportsTools ra⟩ agent.world =
        (none, world)) :
      LoopRound prov left (none, heard ra agent none world)
  | plain {world : World} {reply : AgentReply}
      (sent : outside.send prov ⟨agent.cb, ra.model, supportsTools ra⟩ agent.world =
        (some reply, world))
      (noCalls : reply.toolCalls = []) :
      LoopRound prov left (some reply, heard ra agent (some reply) world)
  | tools {world : World} {reply : AgentReply}
      (sent : outside.send prov ⟨agent.cb, ra.model, supportsTools ra⟩ agent.world =
        (some reply, world))
      (asks : reply.toolCalls ≠ []) :
      LoopRound prov left (agenticLoop outside ra prov left
        (reply.toolCalls.foldl (toolCall outside ra) (toolsAsked ra agent reply world)))

theorem agenticLoop_round (prov : Provider) (left : Nat) :
    LoopRound outside ra agent prov left (agenticLoop outside ra prov (left + 1) agent) := by
  rw [agenticLoop]
  cases got : outside.send prov ⟨agent.cb, ra.model, supportsTools ra⟩ agent.world with
  | mk pr world =>
    cases pr with
    | none => exact .failed got
    | some reply =>
        by_cases noCalls : reply.toolCalls = []
        · simp only [noCalls, if_true]
          exact .plain got noCalls
        · simp only [noCalls, if_false]
          exact .tools got noCalls

theorem agenticLoop_rounds (prov : Provider) (left : Nat) :
    ∃ calls, (agenticLoop outside ra prov left agent).2.calls = agent.calls ++ calls ∧
      Rounds left agent.cb calls (agenticLoop outside ra prov left agent).1 ∧
      agent.cb <+: (agenticLoop outside ra prov left agent).2.cb := by
  induction left generalizing agent with
  | zero => exact ⟨[], (List.append_nil _).symm, .capped _, List.prefix_rfl⟩
  | succ left ih =>
      have round := agenticLoop_round outside ra agent prov left
      generalize agenticLoop outside ra prov (left + 1) agent = after at round ⊢
      cases round with
      | failed =>
          exact ⟨_, rfl, .failed left ⟨agent.cb, ra.model, supportsTools ra⟩,
            List.prefix_rfl⟩
      | @plain _ reply _ noCalls =>
          exact ⟨_, rfl, .plain left ⟨agent.cb, ra.model, supportsTools ra⟩ reply noCalls,
            List.prefix_rfl⟩
      | @tools world reply _ asks =>
          obtain ⟨made, results, grown, all⟩ :=
            toolCalls_results outside ra (toolsAsked ra agent reply world) reply.toolCalls
          obtain ⟨calls, same, rounds, kept⟩ := ih (reply.toolCalls.foldl (toolCall outside ra)
            (toolsAsked ra agent reply world))
          refine ⟨_ :: calls, ?_,
            .tools left ⟨agent.cb, ra.model, supportsTools ra⟩ reply _ calls _ ?_ rounds, ?_⟩
          · rw [same, made]
            exact List.append_assoc ..
          · rw [grown]
            exact ⟨asks, _, results, List.append_assoc .., chatAddToolCalls_asks, all⟩
          · rw [grown] at kept
            exact ((List.prefix_append ..).trans (List.prefix_append ..)).trans kept

/-! What is sent of the final reply. -/

def finalContent : ToTui → Option Bytes
  | .repFinal _ _ content _ => some content
  | _ => none

theorem toolCall_finals (call : AgentCall) :
    (toolCall outside ra agent call).sent.filterMap finalContent =
      agent.sent.filterMap finalContent := by
  rw [toolCall]
  split
  · rfl
  · split
    · simp [runSubquery, addResult, finalContent]
    · rfl

theorem agenticLoop_finals (prov : Provider) (left : Nat) :
    (agenticLoop outside ra prov left agent).2.sent.filterMap finalContent =
      agent.sent.filterMap finalContent := by
  have toolCalls_finals : ∀ (calls : List AgentCall) (agent : Agent World),
      (calls.foldl (toolCall outside ra) agent).sent.filterMap finalContent =
        agent.sent.filterMap finalContent := by
    intro calls
    induction calls with
    | nil => exact fun _ => rfl
    | cons call calls ih => exact fun agent => (ih _).trans (toolCall_finals outside ra agent call)
  induction left generalizing agent with
  | zero => rfl
  | succ left ih =>
      have round := agenticLoop_round outside ra agent prov left
      generalize agenticLoop outside ra prov (left + 1) agent = after at round ⊢
      cases round with
      | failed => rfl
      | plain => rfl
      | tools => exact (ih _).trans (toolCalls_finals _ _)

theorem nameSession_keeps (content : Bytes) :
    (nameSession outside ra content agent).calls = agent.calls ∧
      (nameSession outside ra content agent).sent.filterMap finalContent =
        agent.sent.filterMap finalContent := by
  rw [nameSession]
  simp only
  split
  · exact ⟨rfl, rfl⟩
  · split
    · exact ⟨rfl, rfl⟩
    · split
      · exact ⟨rfl, rfl⟩
      · simp [finalContent]

def requestMessage (msg : UInt8 × Bytes) : AgentMessage :=
  { text := some msg.2, isUser := decide (msg.1 ≠ 0), reasoning := none
    toolCalls := [], toolCallId := none }

theorem chatAdd_foldl (msgs : List (UInt8 × Bytes)) (cb : History) :
    msgs.foldl (fun cb msg => History.chatAdd cb msg.2 (msg.1 ≠ 0)) cb =
      cb ++ msgs.map requestMessage := by
  induction msgs generalizing cb with
  | nil => exact (List.append_nil _).symm
  | cons msg msgs ih =>
      rw [List.foldl_cons, ih, History.chatAdd, List.append_assoc]
      rfl

theorem agentic_history (outside : Outside World Provider) (ra : RequestArg)
    (world : World) :
    let agent := handleRequest outside ra world
    agent.calls.length ≤ maxToolIters ∧
      (∀ call, agent.calls[0]? = some call →
        call.1.history = ra.msgs.map requestMessage) ∧
      (∀ (k : Nat) (call later : MainCall), agent.calls[k]? = some call →
        agent.calls[k + 1]? = some later →
        ∃ reply, call.2 = some reply ∧
          ToolRound call.1.history reply later.1.history) ∧
      agent.sent.filterMap finalContent =
        if (outside.getProvider ra.providerId world).1.isSome then
          [plainContent agent.calls]
        else
          [] := by
  rw [handleRequest]
  generalize outside.getProvider ra.providerId world = got
  obtain ⟨prov, world⟩ := got
  cases prov with
  | none => exact ⟨Nat.zero_le _, nofun, nofun, rfl⟩
  | some prov =>
      simp only [chatAdd_foldl, List.nil_append, Option.isSome_some, if_true]
      let before : Agent World :=
        { world, cb := ra.msgs.map requestMessage, calls := [], sent := [] }
      obtain ⟨calls, made, rounds, -⟩ := agenticLoop_rounds outside ra before prov maxToolIters
      have unsaid := agenticLoop_finals outside ra before prov maxToolIters
      generalize agenticLoop outside ra prov maxToolIters before = ended at *
      obtain ⟨pr, agent⟩ := ended
      obtain rfl : agent.calls = calls := made
      simp only [nameSession_keeps]
      refine ⟨rounds.length_le, fun _ => rounds.first, fun _ _ _ => rounds.next, ?_⟩
      rw [List.filterMap_append, unsaid, rounds.plainContent]
      rfl

/-- A provider that gives these replies, one after another. -/
def scripted : Outside (List AgentReply) Unit where
  getProvider _ replies := (some (), replies)
  send _ _ replies := (replies.head?, replies.tail)
  allocSubCorr replies := (0, replies)
  askAi _ := none

example :
    let lookUp : AgentCall := ⟨some (ascii "c1"), some (ascii "look_up"), none⟩
    (handleRequest scripted ⟨1, 0, [(1, ascii "hi")], none, none⟩
        [⟨none, none, [lookUp]⟩, ⟨some (ascii "ok"), none, []⟩]).calls.map
          (fun call => call.1.history.map AgentMessage.text) =
      [[some (ascii "hi")], [some (ascii "hi"), none, some (ascii "(tool not available)")]] := by
  decide

end Agent

end FreeCli

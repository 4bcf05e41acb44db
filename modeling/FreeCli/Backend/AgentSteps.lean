import FreeCli.Backend.AgentHistory

namespace FreeCli

open Words Transition

/-! `handle_request` as a whole takes the steps of a `ChatThread`, hence its
messages are those of the grammar. -/

def ChatThread.Makes (thread : ChatThread) (sent : List ToTui) (next : ChatThread) :
    Prop :=
  ∃ env number after, env.encodeFails = false ∧
    thread.step env number = some (next, after, sent)

abbrev ChatThread.Steps : ChatThread → List ToTui → ChatThread → Prop :=
  Emits ChatThread.Makes

namespace Agent

variable {World Provider : Type} (outside : Outside World Provider)
  {ra : RequestArg} (agent : Agent World) {thread : ChatThread}

def stepCall (outside : Outside World Provider) (call : AgentCall) : ToolCall where
  name := call.name
  askAiArgs := parseAskAiArgs outside call.arguments

def stepReply (outside : Outside World Provider) (reply : AgentReply) :
    ProviderReply where
  content := reply.content
  reasoning := reply.reasoning
  toolCalls := reply.toolCalls.map (stepCall outside)

/-- What a request meets where the providers answer like this. -/
def envOf (outside : Outside World Provider) (reply : Option AgentReply) : ChatEnv where
  providerOk := true
  reply := reply.map (stepReply outside)
  encodeFails := false

def threadOf (ra : RequestArg) : ChatThread where
  corrId := ra.corrId
  sessionIdx := ra.sessionIdx
  msgs := ra.msgs.map fun msg => (decide (msg.1 ≠ 0), msg.2)
  model := ra.model.getD []
  providerId := ra.providerId.getD []
  phase := .start

theorem toolCall_steps (iters : Nat) (call : AgentCall) (left : List ToolCall)
    (same : thread.corrId = ra.corrId) :
    ∃ sent, (toolCall outside ra agent call).sent = agent.sent ++ sent ∧
      (thread.goto (.tools iters (stepCall outside call :: left))).Steps sent
        (thread.goto (.tools iters left)) := by
  by_cases named : call.name = some (ascii "ask_ai")
  · cases parsed : parseAskAiArgs outside call.arguments with
    | none =>
        refine ⟨[], ?_, .single ⟨envOf outside none, 0, 0, rfl, ?_⟩⟩
        · simp [toolCall, named, parsed, addResult]
        · simp [ChatThread.step, ChatThread.goto, ChatThread.tool, stepCall, named, parsed]
    | some args =>
        obtain ⟨model, prompt⟩ := args
        let subCorr := (outside.allocSubCorr agent.world).1
        have called : ChatThread.Makes
            (thread.goto (.tools iters (stepCall outside call :: left))) []
            (thread.goto (.subStart iters left subCorr model prompt)) :=
          ⟨envOf outside none, subCorr, subCorr + 1, rfl, by
            simp [ChatThread.step, ChatThread.goto, ChatThread.tool, stepCall, named,
              parsed]⟩
        have started : ChatThread.Makes
            (thread.goto (.subStart iters left subCorr model prompt))
            [.workerStart subCorr ra.corrId model (prompt.take 40)]
            (thread.goto (.subEnd iters left subCorr)) :=
          ⟨envOf outside none, 0, 0, rfl, by rw [← same]; rfl⟩
        have ended : ChatThread.Makes (thread.goto (.subEnd iters left subCorr))
            [.workerEnd subCorr] (thread.goto (.tools iters left)) :=
          ⟨envOf outside none, 0, 0, rfl, rfl⟩
        refine ⟨_, ?_, .step called (.step started (.single ended))⟩
        simp [toolCall, named, parsed, runSubquery, addResult, subCorr]
  · refine ⟨[], ?_, .single ⟨envOf outside none, 0, 0, rfl, ?_⟩⟩
    · simp [toolCall, named, addResult]
    · simp [ChatThread.step, ChatThread.goto, ChatThread.tool, stepCall, named]

theorem toolCalls_steps (iters : Nat) (calls : List AgentCall)
    (same : thread.corrId = ra.corrId) :
    ∃ sent, (calls.foldl (toolCall outside ra) agent).sent = agent.sent ++ sent ∧
      (thread.goto (.tools iters (calls.map (stepCall outside)))).Steps sent
        (thread.goto (.loop iters)) := by
  induction calls generalizing agent with
  | nil =>
      exact ⟨[], (List.append_nil _).symm, .single ⟨envOf outside none, 0, 0, rfl, rfl⟩⟩
  | cons call calls ih =>
      obtain ⟨first, sentFirst, one⟩ :=
        toolCall_steps outside agent iters call (calls.map (stepCall outside)) same
      obtain ⟨rest, sentRest, others⟩ := ih (toolCall outside ra agent call)
      refine ⟨first ++ rest, ?_, one.trans others⟩
      rw [List.foldl_cons, sentRest, sentFirst, List.append_assoc]

def finalPhase (pr : Option AgentReply) : ChatPhase :=
  .final ((pr.bind AgentReply.content).getD []) (pr.bind AgentReply.reasoning)

theorem agenticLoop_steps (prov : Provider) (left iters : Nat)
    (total : iters + left = maxToolIters) (same : thread.corrId = ra.corrId) :
    ∃ sent, (agenticLoop outside ra prov left agent).2.sent = agent.sent ++ sent ∧
      (thread.goto (.loop iters)).Steps sent
        (thread.goto (finalPhase (agenticLoop outside ra prov left agent).1)) := by
  induction left generalizing agent iters with
  | zero =>
      refine ⟨[], (List.append_nil _).symm, .single ⟨envOf outside none, 0, 0, rfl, ?_⟩⟩
      simp [ChatThread.step, ChatThread.goto, agenticLoop, finalPhase,
        show ¬iters < maxToolIters by omega]
  | succ left ih =>
      have more : iters < maxToolIters := by omega
      have round := agenticLoop_round outside ra agent prov left
      generalize agenticLoop outside ra prov (left + 1) agent = after at round ⊢
      cases round with
      | failed =>
          refine ⟨[], (List.append_nil _).symm, .single ⟨envOf outside none, 0, 0, rfl, ?_⟩⟩
          simp [ChatThread.step, ChatThread.goto, ChatThread.loopReply, envOf, more,
            finalPhase]
      | @plain _ reply _ noCalls =>
          refine ⟨[], (List.append_nil _).symm,
            .single ⟨envOf outside (some reply), 0, 0, rfl, ?_⟩⟩
          simp [ChatThread.step, ChatThread.goto, ChatThread.loopReply, envOf, more,
            finalPhase, stepReply, noCalls]
      | @tools world reply _ asks =>
          have asked : ChatThread.Makes (thread.goto (.loop iters)) []
              (thread.goto (.tools (iters + 1)
                (reply.toolCalls.map (stepCall outside)))) := by
            refine ⟨envOf outside (some reply), 0, 0, rfl, ?_⟩
            simp [ChatThread.step, ChatThread.goto, ChatThread.loopReply, envOf, more,
              stepReply, asks]
          obtain ⟨sent, grown, tools⟩ := toolCalls_steps outside
            (toolsAsked ra agent reply world) (iters + 1) reply.toolCalls same
          obtain ⟨rest, sentRest, others⟩ :=
            ih (reply.toolCalls.foldl (toolCall outside ra) (toolsAsked ra agent reply world))
              (iters + 1) (by omega)
          refine ⟨_, ?_, .step asked (tools.trans others)⟩
          rw [sentRest, grown, List.append_assoc, List.nil_append]
          rfl

def nameReply (outside : Outside World Provider) (userQ content : Bytes)
    (world : World) : Option AgentReply :=
  let (prov, world) := outside.getProvider (some (ascii "xai")) world
  prov.bind fun prov => (outside.send prov
    { history := History.chatAdd [] (namingPrompt userQ content) true
      model := some (ascii "grok-3-mini-fast"), enableTools := false } world).1

/-- The question the conversation is named after, on its first turn. -/
def userQuestion (ra : RequestArg) (content : Bytes) (cb : History) : Option Bytes :=
  if ra.msgs.length = 1 ∧ content ≠ [] then
    cb.head?.bind fun msg => if msg.isUser then msg.text else none
  else
    none

def topicSent (outside : Outside World Provider) (ra : RequestArg) (content : Bytes)
    (agent : Agent World) : List ToTui :=
  match userQuestion ra content agent.cb with
  | none => []
  | some userQ =>
      let topic := trimTopic
        (((nameReply outside userQ content agent.world).bind AgentReply.content).getD [])
      if topic = [] then [] else [.sessionRename ra.corrId ra.sessionIdx topic]

theorem nameSession_sent (content : Bytes) :
    (nameSession outside ra content agent).sent =
      agent.sent ++ topicSent outside ra content agent := by
  rw [topicSent, userQuestion, nameSession]
  generalize ite (ra.msgs.length = 1 ∧ content ≠ []) _ _ = question
  cases question with
  | none => exact (List.append_nil _).symm
  | some userQ =>
      cases got : outside.getProvider (some (ascii "xai")) agent.world with
      | mk prov world =>
          cases prov with
          | none => simp [nameReply, got, trimTopic]
          | some prov =>
              simp only [nameReply, got, Option.bind_some]
              split
              · exact (List.append_nil _).symm
              · rfl

theorem userQuestion_isSome (content : Bytes)
    (grown : agent.cb = ra.msgs.map requestMessage ++ more) :
    (userQuestion ra content agent.cb).isSome ↔
      (threadOf ra).msgs.length = 1 ∧ content ≠ [] ∧
        (threadOf ra).msgs.head?.map Prod.fst = some true := by
  rw [userQuestion, grown, threadOf]
  simp only [List.length_map]
  by_cases first : ra.msgs.length = 1
  · obtain ⟨msg, only⟩ := List.length_eq_one_iff.1 first
    by_cases said : content = [] <;> by_cases user : msg.1 = 0 <;>
      simp [only, said, user, requestMessage]
  · simp [first]

def topicPhase (reply : Option AgentReply) : ChatPhase :=
  let topic := trimTopic ((reply.bind AgentReply.content).getD [])
  if topic = [] then .done else .rename topic

theorem name_phase (reply : Option AgentReply) :
    thread.name (envOf outside reply) = thread.goto (topicPhase reply) := by
  cases reply with
  | none => rfl
  | some said =>
      change (if trimTopic (said.content.getD []) = [] then _ else _) = _
      rw [topicPhase, Option.bind_some]
      split
      · rfl
      · rfl

theorem nameSession_steps (content : Bytes)
    (grown : agent.cb = ra.msgs.map requestMessage ++ more) :
    ((threadOf ra).afterFinal content).Steps (topicSent outside ra content agent)
      ((threadOf ra).goto .done) := by
  have asks := userQuestion_isSome agent content grown
  rw [ChatThread.afterFinal, topicSent]
  cases question : userQuestion ra content agent.cb with
  | none =>
      rw [question] at asks
      rw [if_neg fun first => Bool.false_ne_true (asks.2 first)]
      exact .refl _
  | some userQ =>
      rw [question] at asks
      rw [if_pos (asks.1 rfl)]
      let reply := nameReply outside userQ content agent.world
      have named : ChatThread.Makes ((threadOf ra).goto (.naming content)) []
          ((threadOf ra).goto (topicPhase reply)) :=
        ⟨envOf outside reply, 0, 0, rfl,
          congrArg (fun next => some (next, 0, [])) (name_phase outside reply)⟩
      rw [topicPhase] at named
      simp only at named ⊢
      split
      next empty =>
        rw [if_pos empty] at named
        exact .single named
      next topic =>
        rw [if_neg topic] at named
        exact .step named (.single ⟨envOf outside reply, 0, 0, rfl, rfl⟩)

theorem handleRequest_steps (outside : Outside World Provider) (ra : RequestArg)
    (world : World) :
    (threadOf ra).Steps (handleRequest outside ra world).sent
      ((threadOf ra).goto .done) := by
  rw [handleRequest]
  generalize outside.getProvider ra.providerId world = got
  obtain ⟨prov, world⟩ := got
  cases prov with
  | none =>
      exact .single ⟨{ envOf outside none with providerOk := false }, 0, 0, rfl, rfl⟩
  | some prov =>
      simp only [chatAdd_foldl, List.nil_append]
      let before : Agent World :=
        { world, cb := ra.msgs.map requestMessage, calls := [], sent := [] }
      obtain ⟨-, -, -, more, grown⟩ := agenticLoop_rounds outside ra before prov maxToolIters
      obtain ⟨sent, made, looped⟩ := agenticLoop_steps outside before prov maxToolIters 0 rfl
        (rfl : (threadOf ra).corrId = ra.corrId)
      generalize agenticLoop outside ra prov maxToolIters before = ended at *
      obtain ⟨pr, agent⟩ := ended
      simp only at grown made looped ⊢
      obtain rfl : agent.sent = sent := made
      have started : ChatThread.Makes (threadOf ra) [] ((threadOf ra).goto (.loop 0)) :=
        ⟨envOf outside none, 0, 0, rfl, rfl⟩
      have replied : ChatThread.Makes ((threadOf ra).goto (finalPhase pr))
          [.repFinal ra.corrId ra.sessionIdx ((pr.bind AgentReply.content).getD [])
            (pr.bind AgentReply.reasoning)]
          ((threadOf ra).afterFinal ((pr.bind AgentReply.content).getD [])) :=
        ⟨envOf outside none, 0, 0, rfl, rfl⟩
      have named := nameSession_steps outside
        ({ agent with
          sent := agent.sent ++ [.repFinal ra.corrId ra.sessionIdx
            ((pr.bind AgentReply.content).getD []) (pr.bind AgentReply.reasoning)] } : Agent World)
        ((pr.bind AgentReply.content).getD []) grown.symm
      rw [nameSession_sent, List.append_assoc]
      have whole := Emits.step started (looped.trans (.step replied named))
      rwa [List.nil_append] at whole

/-- Whatever the providers do, the messages are those of the grammar. -/
theorem handleRequest_answered (outside : Outside World Provider) (ra : RequestArg)
    (world : World) :
    Answered ra.corrId ra.sessionIdx ra.msgs.length (handleRequest outside ra world).sent := by
  have unsent : ChatThread.Sent (threadOf ra) [] := rfl
  have answered := (handleRequest_steps outside ra world).carries ChatThread.Sent
    (fun _ _ _ _ soFar ⟨_, _, _, encodes, stepped⟩ => soFar.step stepped encodes) unsent
  rw [List.nil_append] at answered
  have counted : (threadOf ra).msgs.length = ra.msgs.length := List.length_map ..
  rw [← counted]
  exact answered

end Agent

end FreeCli

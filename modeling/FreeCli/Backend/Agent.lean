import FreeCli.Backend.Grammar

namespace FreeCli

open Words Transition

/-! `handle_request` of `backend.c` with the histories it passes to the providers.
The providers, the counter of the sub-queries and what cJSON reads in the
arguments of a tool call come from outside. -/

/-- `ToolCall` of `chat.h` -/
structure AgentCall where
  id : Option Bytes
  name : Option Bytes
  arguments : Option Bytes
  deriving DecidableEq, Repr

/-- `Message` of `chat.h` -/
structure AgentMessage where
  text : Option Bytes
  isUser : Bool
  reasoning : Option Bytes
  toolCalls : List AgentCall
  /-- set in a tool result -/
  toolCallId : Option Bytes
  deriving DecidableEq, Repr

abbrev History := List AgentMessage

namespace History

variable (cb : History)

def chatAdd (text : Bytes) (isUser : Bool) : History :=
  cb ++ [{ text := some text, isUser, reasoning := none, toolCalls := []
           toolCallId := none }]

def chatAddToolCalls (content reasoning : Option Bytes) (calls : List AgentCall) :
    History :=
  cb ++ [{ text := content.filter fun bytes => bytes ≠ []
           isUser := false
           reasoning := reasoning.filter fun bytes => bytes ≠ []
           toolCalls := calls
           toolCallId := none }]

def chatAddToolResult (toolCallId result : Bytes) : History :=
  cb ++ [{ text := some result, isUser := false, reasoning := none, toolCalls := []
           toolCallId := some toolCallId }]

end History

structure ProviderRequest where
  history : History
  model : Option Bytes
  enableTools : Bool
  deriving DecidableEq, Repr

/-- `ProviderReply` -/
structure AgentReply where
  content : Option Bytes
  reasoning : Option Bytes
  toolCalls : List AgentCall
  deriving DecidableEq, Repr

/-- What `handle_request` calls, over the state of everything else. -/
structure Outside (World Provider : Type) where
  /-- `get_provider` -/
  getProvider : Option Bytes → World → Option Provider × World
  /-- `prov->send` -/
  send : Provider → ProviderRequest → World → Option AgentReply × World
  /-- `alloc_sub_corr` -/
  allocSubCorr : World → Nat × World
  /-- the strings `"model"` and `"prompt"` of a JSON object -/
  askAi : Bytes → Option (Option Bytes × Option Bytes)

structure RequestArg where
  corrId : Nat
  sessionIdx : Nat
  /-- `is_user[i]` and `texts[i]` -/
  msgs : List (UInt8 × Bytes)
  model : Option Bytes
  providerId : Option Bytes
  deriving DecidableEq, Repr

/-- The conversation, the calls of `send` it was passed to with their replies, and
the messages to the TUI. -/
structure Agent (World : Type) where
  world : World
  cb : History
  calls : List (ProviderRequest × Option AgentReply)
  sent : List ToTui

namespace Agent

variable {World Provider : Type} (outside : Outside World Provider)

def parseAskAiArgs (args : Option Bytes) : Option (Bytes × Bytes) := do
  let json ← args
  let (model, prompt) ← outside.askAi json
  let model ← model
  let prompt ← prompt
  some (model, prompt)

def subProviderId (model : Bytes) : Bytes :=
  if (ascii "claude").isPrefixOf model then ascii "anthropic"
  else if (ascii "gemini").isPrefixOf model then ascii "google"
  else if (ascii "ibm/").isPrefixOf model ∨ (ascii "meta-").isPrefixOf model then
    ascii "ibm"
  else ascii "xai"

def runSubquery (ra : RequestArg) (model prompt : Bytes) (agent : Agent World) :
    Bytes × Agent World :=
  let (subCorr, world) := outside.allocSubCorr agent.world
  let sent := agent.sent ++ [.workerStart subCorr ra.corrId model (prompt.take 40)]
  let (prov, world) := outside.getProvider (some (subProviderId model)) world
  let (prov, world) :=
    match prov with
    | some prov => (some prov, world)
    | none => outside.getProvider (some (ascii "xai")) world
  let (pr, world) :=
    match prov with
    | some prov =>
        outside.send prov
          { history := History.chatAdd [] prompt true, model := some model
            enableTools := false } world
    | none => (none, world)
  let content := (pr.bind AgentReply.content).getD []
  let result := if content ≠ [] then content else ascii "(no response from sub-model)"
  (result, { agent with world, sent := sent ++ [.workerEnd subCorr] })

/-- `chat_add_tool_result` -/
def addResult (call : AgentCall) (result : Bytes) (agent : Agent World) :
    Agent World :=
  { agent with cb := agent.cb.chatAddToolResult (call.id.getD []) result }

def toolCall (ra : RequestArg) (agent : Agent World) (call : AgentCall) :
    Agent World :=
  if call.name ≠ some (ascii "ask_ai") then
    addResult call (ascii "(tool not available)") agent
  else
    match parseAskAiArgs outside call.arguments with
    | some (model, prompt) =>
        let (result, agent) := runSubquery outside ra model prompt agent
        addResult call result agent
    | none => addResult call (ascii "(could not parse ask_ai arguments)") agent

def supportsTools (ra : RequestArg) : Bool :=
  ra.providerId = none ∨ ra.providerId = some (ascii "xai")

/-- The agentic loop with `left` rounds left: the reply it ends with, if any. -/
def agenticLoop (ra : RequestArg) (prov : Provider) :
    (left : Nat) → Agent World → Option AgentReply × Agent World
  | 0, agent => (none, agent)
  | left + 1, agent =>
      let req : ProviderRequest :=
        { history := agent.cb, model := ra.model, enableTools := supportsTools ra }
      let (pr, world) := outside.send prov req agent.world
      let agent := { agent with world, calls := agent.calls ++ [(req, pr)] }
      match pr with
      | none => (none, agent)
      | some reply =>
          if reply.toolCalls = [] then
            (some reply, agent)
          else
            let agent := { agent with
              cb := agent.cb.chatAddToolCalls reply.content reply.reasoning
                reply.toolCalls }
            agenticLoop ra prov left (reply.toolCalls.foldl (toolCall outside ra) agent)

def namingPrompt (userQ content : Bytes) : Bytes :=
  (ascii "Summarise the following conversation in 2-4 words as a concise " ++
    ascii "topic label. Reply with ONLY those words, no punctuation, no " ++
    ascii "quotes, no explanation.\n\nUser: " ++ userQ.take 500 ++
    ascii "\nAssistant: " ++ content.take 500).take 2047

def nameSession (ra : RequestArg) (content : Bytes) (agent : Agent World) :
    Agent World :=
  let userQ := agent.cb.head?.bind fun msg => if msg.isUser then msg.text else none
  match if ra.msgs.length = 1 ∧ content ≠ [] then userQ else none with
  | none => agent
  | some userQ =>
      let (prov, world) := outside.getProvider (some (ascii "xai")) agent.world
      match prov with
      | none => { agent with world }
      | some prov =>
          let (pr, world) := outside.send prov
            { history := History.chatAdd [] (namingPrompt userQ content) true
              model := some (ascii "grok-3-mini-fast"), enableTools := false } world
          let topic := trimTopic ((pr.bind AgentReply.content).getD [])
          if topic = [] then
            { agent with world }
          else
            { agent with
              world
              sent := agent.sent ++ [.sessionRename ra.corrId ra.sessionIdx topic] }

def handleRequest (ra : RequestArg) (world : World) : Agent World :=
  let (prov, world) := outside.getProvider ra.providerId world
  match prov with
  | none =>
      { world, cb := [], calls := []
        sent := [.repError ra.corrId (ascii "provider unavailable (check API keys)")] }
  | some prov =>
      let cb := ra.msgs.foldl (fun cb msg => History.chatAdd cb msg.2 (msg.1 ≠ 0)) []
      let (pr, agent) :=
        agenticLoop outside ra prov maxToolIters { world, cb, calls := [], sent := [] }
      let content := (pr.bind AgentReply.content).getD []
      let agent := { agent with
        sent := agent.sent ++ [.repFinal ra.corrId ra.sessionIdx content
          (pr.bind AgentReply.reasoning)] }
      nameSession outside ra content agent

end Agent

end FreeCli

import Mathlib.Data.List.Forall2
import FreeCli.Backend.AgentHistory
import FreeCli.Backend.Sends

namespace FreeCli

open Words JsonText JsonPrint

/-! Whatever the backend posts to a provider, the provider reads a conversation in which
every call of a tool has its result. -/

/-- A history in which the results follow the calls. -/
inductive Settled : History → Prop where
  | nil : Settled []
  | said {msg : AgentMessage} {rest : History} (noCalls : msg.toolCalls = [])
      (noResult : msg.toolCallId = none) (settled : Settled rest) : Settled (msg :: rest)
  | round {asked : AgentMessage} {results rest : History} (calls : asked.toolCalls ≠ [])
      (notUser : asked.isUser = false) (noResult : asked.toolCallId = none)
      (answers : List.Forall₂ ResultOf asked.toolCalls results) (settled : Settled rest) :
      Settled (asked :: (results ++ rest))

theorem Settled.append {first second : History} (one : Settled first) (two : Settled second) :
    Settled (first ++ second) := by
  induction one with
  | nil => exact two
  | said noCalls noResult _ ih => exact .said noCalls noResult ih
  | round calls notUser noResult answers _ ih =>
      rw [List.cons_append, List.append_assoc]
      exact .round calls notUser noResult answers ih

theorem ToolRound.settled {before after : History} {reply : AgentReply}
    (round : ToolRound before reply after) (settled : Settled before) : Settled after := by
  obtain ⟨calls, asked, results, rfl, asks, answers⟩ := round
  refine settled.append ?_
  have last : Settled (asked :: (results ++ [])) :=
    .round (by rw [asks.calls]; exact calls) asks.notUser asks.noResult
      (by rw [asks.calls]; exact answers) .nil
  rwa [List.append_nil] at last

theorem settled_requestMessages (msgs : List (UInt8 × Bytes)) :
    Settled (msgs.map Agent.requestMessage) := by
  induction msgs with
  | nil => exact .nil
  | cons msg msgs ih => exact .said rfl rfl ih

theorem settled_prompt (prompt : Bytes) : Settled (History.chatAdd [] prompt true) :=
  .said rfl rfl .nil

namespace Agent

/-! ### What every call of a provider keeps -/

section

variable {World Provider : Type} {outside : Outside World Provider} (ra : RequestArg)

/-- Kept by everything that `handle_request` calls; conversations are settled. -/
structure Kept (outside : Outside World Provider) (Good : World → Prop) : Prop where
  getProvider : ∀ id world, Good world → Good (outside.getProvider id world).2
  send : ∀ prov req world, Settled req.history → Good world → Good (outside.send prov req world).2
  allocSubCorr : ∀ world, Good world → Good (outside.allocSubCorr world).2

variable {Good : World → Prop}

theorem runSubquery_keeps (kept : Kept outside Good) (model prompt : Bytes) {agent : Agent World}
    (good : Good agent.world) :
    Good (runSubquery outside ra model prompt agent).2.world := by
  have ask : ∀ (prov : Provider) (world : World), Good world →
      Good (outside.send prov ⟨History.chatAdd [] prompt true, some model, false⟩ world).2 :=
    fun prov world good => kept.send prov _ world (settled_prompt prompt) good
  have allocated := kept.allocSubCorr agent.world good
  cases sub : outside.allocSubCorr agent.world with
  | mk subCorr world =>
    rw [sub] at allocated
    have found := kept.getProvider (some (subProviderId model)) world allocated
    cases named : outside.getProvider (some (subProviderId model)) world with
    | mk prov world =>
      rw [named] at found
      cases prov with
      | some prov =>
          simp only [runSubquery, sub, named]
          exact ask prov world found
      | none =>
          have other := kept.getProvider (some (ascii "xai")) world found
          cases default : outside.getProvider (some (ascii "xai")) world with
          | mk prov world =>
            rw [default] at other
            cases prov with
            | some prov =>
                simp only [runSubquery, sub, named, default]
                exact ask prov world other
            | none =>
                simp only [runSubquery, sub, named, default]
                exact other

theorem toolCall_keeps (kept : Kept outside Good) (call : AgentCall) {agent : Agent World}
    (good : Good agent.world) : Good (toolCall outside ra agent call).world := by
  rw [toolCall]
  split
  · exact good
  · split
    next model prompt _ =>
      exact runSubquery_keeps ra kept model prompt good
    next => exact good

theorem toolCalls_keep (kept : Kept outside Good) (calls : List AgentCall) {agent : Agent World}
    (good : Good agent.world) : Good (calls.foldl (toolCall outside ra) agent).world := by
  induction calls generalizing agent with
  | nil => exact good
  | cons call calls ih => exact ih (toolCall_keeps ra kept call good)

theorem agenticLoop_keeps_after (kept : Kept outside Good) (prov : Provider) {left : Nat}
    (later : ∀ agent : Agent World, Settled agent.cb → Good agent.world →
      Good (agenticLoop outside ra prov left agent).2.world)
    {agent : Agent World} (settled : Settled agent.cb)
    (sent : Good (outside.send prov ⟨agent.cb, ra.model, supportsTools ra⟩ agent.world).2) :
    Good (agenticLoop outside ra prov (left + 1) agent).2.world := by
  have round := agenticLoop_round outside ra agent prov left
  generalize agenticLoop outside ra prov (left + 1) agent = after at round ⊢
  cases round with
  | failed answered =>
      rw [answered] at sent
      exact sent
  | plain answered =>
      rw [answered] at sent
      exact sent
  | @tools world reply answered asks =>
      rw [answered] at sent
      obtain ⟨-, results, grown, answers⟩ :=
        toolCalls_results outside ra (toolsAsked ra agent reply world) reply.toolCalls
      have round : ToolRound agent.cb reply
          (reply.toolCalls.foldl (toolCall outside ra) (toolsAsked ra agent reply world)).cb := by
        rw [grown]
        exact ⟨asks, _, results, List.append_assoc .., chatAddToolCalls_asks, answers⟩
      exact later _ (round.settled settled) (toolCalls_keep ra kept reply.toolCalls sent)

theorem agenticLoop_keeps (kept : Kept outside Good) (prov : Provider) (left : Nat)
    {agent : Agent World} (settled : Settled agent.cb) (good : Good agent.world) :
    Good (agenticLoop outside ra prov left agent).2.world := by
  induction left generalizing agent with
  | zero => exact good
  | succ left ih =>
      exact agenticLoop_keeps_after ra kept prov (fun _ => ih) settled
        (kept.send prov _ agent.world settled good)

theorem nameSession_keeps_world (kept : Kept outside Good) (content : Bytes) {agent : Agent World}
    (good : Good agent.world) : Good (nameSession outside ra content agent).world := by
  have found := kept.getProvider (some (ascii "xai")) agent.world good
  rw [nameSession]
  simp only
  split
  · exact good
  · cases named : outside.getProvider (some (ascii "xai")) agent.world with
    | mk prov world =>
      rw [named] at found
      cases prov with
      | none =>
          simp only [named]
          exact found
      | some prov =>
          simp only [named]
          split <;> exact kept.send prov _ world (settled_prompt _) found

theorem handleRequest_keeps (kept : Kept outside Good) {world : World}
    (good : Good world) : Good (handleRequest outside ra world).world := by
  have found := kept.getProvider ra.providerId world good
  rw [handleRequest]
  generalize outside.getProvider ra.providerId world = got at found
  obtain ⟨prov, world⟩ := got
  cases prov with
  | none => exact found
  | some prov =>
      have settled : Settled (ra.msgs.foldl
          (fun cb msg => History.chatAdd cb msg.2 (msg.1 ≠ 0)) []) := by
        rw [chatAdd_foldl]
        exact settled_requestMessages ra.msgs
      exact nameSession_keeps_world ra kept _
        (agenticLoop_keeps ra kept prov maxToolIters settled found)

/-- `outside` with a log of what `send` was given and replied. -/
def recording (outside : Outside World Provider) : Outside (World × List MainCall) Provider where
  getProvider id world :=
    let (prov, outer) := outside.getProvider id world.1
    (prov, outer, world.2)
  send prov req world :=
    let (pr, outer) := outside.send prov req world.1
    (pr, outer, world.2 ++ [(req, pr)])
  allocSubCorr world :=
    let (subCorr, outer) := outside.allocSubCorr world.1
    (subCorr, outer, world.2)
  askAi := outside.askAi

theorem recording_kept (log : List MainCall) :
    Kept (recording outside) fun world => log <+: world.2 where
  getProvider _ _ kept := kept
  send _ _ _ _ kept := kept.trans (List.prefix_append ..)
  allocSubCorr _ kept := kept

theorem agenticLoop_recorded (prov : Provider) (left : Nat)
    {agent : Agent (World × List MainCall)} (recorded : agent.calls.Sublist agent.world.2) :
    let after := (agenticLoop (recording outside) ra prov left agent).2
    after.calls.Sublist after.world.2 := by
  induction left generalizing agent with
  | zero => exact recorded
  | succ left ih =>
      let req : ProviderRequest := ⟨agent.cb, ra.model, supportsTools ra⟩
      have sent : (agent.calls ++ [(req, ((recording outside).send prov req agent.world).1)]).Sublist
          ((recording outside).send prov req agent.world).2.2 :=
        recorded.append (List.Sublist.refl _)
      have round := agenticLoop_round (recording outside) ra agent prov left
      generalize agenticLoop (recording outside) ra prov (left + 1) agent = after at round ⊢
      cases round with
      | failed answered =>
          rw [answered] at sent
          exact sent
      | plain answered =>
          rw [answered] at sent
          exact sent
      | @tools world reply answered asks =>
          rw [answered] at sent
          have made := (toolCalls_results (recording outside) ra
            (toolsAsked ra agent reply world) reply.toolCalls).1
          have grown : world.2 <+: (reply.toolCalls.foldl (toolCall (recording outside) ra)
              (toolsAsked ra agent reply world)).world.2 :=
            toolCalls_keep ra (recording_kept world.2) reply.toolCalls List.prefix_rfl
          refine ih ?_
          rw [made]
          exact sent.trans grown.sublist

def forget (agent : Agent (World × List MainCall)) : Agent World :=
  { world := agent.world.1, cb := agent.cb, calls := agent.calls, sent := agent.sent }

variable (outside) in
theorem runSubquery_forget (model prompt : Bytes) (agent : Agent (World × List MainCall)) :
    runSubquery outside ra model prompt agent.forget =
      ((runSubquery (recording outside) ra model prompt agent).1,
        (runSubquery (recording outside) ra model prompt agent).2.forget) := by
  cases sub : outside.allocSubCorr agent.world.1 with
  | mk subCorr world =>
    cases named : outside.getProvider (some (subProviderId model)) world with
    | mk prov world =>
      cases prov with
      | some prov => simp only [runSubquery, recording, forget, sub, named]
      | none =>
          cases default : outside.getProvider (some (ascii "xai")) world with
          | mk prov world =>
            cases prov <;> simp only [runSubquery, recording, forget, sub, named, default]

variable (outside) in
theorem toolCall_forget (call : AgentCall) (agent : Agent (World × List MainCall)) :
    toolCall outside ra agent.forget call =
      (toolCall (recording outside) ra agent call).forget := by
  rw [toolCall, toolCall]
  split
  · rfl
  · rw [show parseAskAiArgs (recording outside) = parseAskAiArgs outside from rfl]
    cases parseAskAiArgs outside call.arguments with
    | none => rfl
    | some args =>
        simp only [runSubquery_forget]
        rfl

variable (outside) in
theorem toolCalls_forget (calls : List AgentCall) (agent : Agent (World × List MainCall)) :
    calls.foldl (toolCall outside ra) agent.forget =
      (calls.foldl (toolCall (recording outside) ra) agent).forget := by
  induction calls generalizing agent with
  | nil => rfl
  | cons call calls ih =>
      rw [List.foldl_cons, List.foldl_cons, toolCall_forget]
      exact ih _

variable (outside) in
theorem agenticLoop_forget (prov : Provider) (left : Nat) (agent : Agent (World × List MainCall)) :
    agenticLoop outside ra prov left agent.forget =
      ((agenticLoop (recording outside) ra prov left agent).1,
        (agenticLoop (recording outside) ra prov left agent).2.forget) := by
  induction left generalizing agent with
  | zero => rfl
  | succ left ih =>
      let req : ProviderRequest := ⟨agent.cb, ra.model, supportsTools ra⟩
      cases got : outside.send prov req agent.world.1 with
      | mk pr world =>
        have logged : (recording outside).send prov req agent.world =
            (pr, world, agent.world.2 ++ [(req, pr)]) := by
          simp only [recording, got]
        simp only [req] at got logged
        simp only [agenticLoop, forget, got, logged]
        cases pr with
        | none => rfl
        | some reply =>
            by_cases noCalls : reply.toolCalls = []
            · simp only [noCalls, if_true]
            · simp only [noCalls, if_false]
              refine Eq.trans ?_ (ih _)
              exact congrArg (agenticLoop outside ra prov left)
                (toolCalls_forget outside ra reply.toolCalls
                  (toolsAsked ra agent reply (world, agent.world.2 ++ [(req, some reply)])))

/-- The calls that `handle_request` counts as its own are calls of `send` as the provider gets
them, in that order. -/
theorem handleRequest_recorded (world : World) :
    (handleRequest outside ra world).calls.Sublist
      (handleRequest (recording outside) ra (world, [])).world.2 := by
  cases got : outside.getProvider ra.providerId world with
  | mk prov after =>
    cases prov with
    | none =>
        have none_ : (handleRequest outside ra world).calls = [] := by
          simp only [handleRequest, got]
        rw [none_]
        exact List.nil_sublist _
    | some prov =>
        have logged : (recording outside).getProvider ra.providerId (world, []) =
            (some prov, after, []) := by
          simp only [recording, got]
        let before : Agent (World × List MainCall) :=
          { world := (after, [])
            cb := ra.msgs.foldl (fun cb msg => History.chatAdd cb msg.2 (msg.1 ≠ 0)) []
            calls := []
            sent := [] }
        have own : (handleRequest outside ra world).calls =
            (agenticLoop outside ra prov maxToolIters before.forget).2.calls := by
          simp only [handleRequest, got]
          exact (nameSession_keeps ..).1
        have looped : let after := (agenticLoop (recording outside) ra prov maxToolIters before).2
            after.calls.Sublist after.world.2 :=
          agenticLoop_recorded ra prov maxToolIters (List.nil_sublist _)
        have grown : (agenticLoop (recording outside) ra prov maxToolIters before).2.world.2 <+:
            (handleRequest (recording outside) ra (world, [])).world.2 := by
          simp only [handleRequest, logged]
          exact nameSession_keeps_world ra (recording_kept _) _ List.prefix_rfl
        rw [own, agenticLoop_forget]
        exact looped.trans grown.sublist

end

end Agent

namespace JsonItem

variable {lib : Doubles}

theorem rereadMembers_map (members : List (CString × JsonItem lib)) :
    rereadMembers members = members.map fun member => (member.1, member.2.reread) := by
  induction members with
  | nil => rfl
  | cons member members ih =>
      rw [rereadMembers, List.map_cons, ih]

theorem rereadElements_map (items : List (JsonItem lib)) :
    rereadElements items = items.map reread := by
  induction items with
  | nil => rfl
  | cons item items ih => rw [rereadElements, List.map_cons, ih]

theorem reread_createObject (members : List (String × JsonItem lib)) :
    (createObject members).reread =
      createObject (members.map fun member => (member.1, member.2.reread)) := by
  rw [createObject, reread, rereadMembers_map, createObject, List.map_map, List.map_map]
  rfl

@[simp] theorem getObjectItem_nil (name : String) :
    getObjectItem name (some (createObject [] : JsonItem lib)) = none := rfl

theorem getObjectItem_cons (name other : String) (item : JsonItem lib)
    (members : List (String × JsonItem lib)) (plain : 0 ∉ ascii other) :
    getObjectItem name (some (createObject ((other, item) :: members))) =
      if other = name then some item else getObjectItem name (some (createObject members)) := by
  have bytes : (CString.of (ascii other)).bytes = ascii other := terminated_of_nulFree plain
  by_cases same : other = name
  · subst same
    rw [if_pos rfl]
    simp only [getObjectItem, createObject, List.map_cons, List.find?_cons, bytes, decide_true,
      Option.map_some]
  · have differs : ¬ascii other = ascii name := fun equal => same (ascii_injective equal)
    rw [if_neg same]
    simp only [getObjectItem, createObject, List.map_cons, List.find?_cons, bytes, differs,
      decide_false]

@[simp] theorem valuestring_createString {text : Bytes} :
    valuestring (some (createString text : JsonItem lib)) = some (terminated text) := rfl

@[simp] theorem elements_array (items : List (JsonItem lib)) :
    elements (some (array items)) = items := rfl

theorem reread_array {items : List (JsonItem lib)} (same : ∀ item ∈ items, item.reread = item) :
    (array items).reread = array items := by
  rw [reread, rereadElements_map, List.map_congr_left same, List.map_id']

end JsonItem

namespace Providers

open JsonItem

variable {lib : Doubles}

/-! ### What the provider reads -/

def role (msg : JsonItem lib) : Option Bytes := valuestring (getObjectItem "role" (some msg))

def content (msg : JsonItem lib) : Option Bytes :=
  valuestring (getObjectItem "content" (some msg))

def toolCalls (msg : JsonItem lib) : List (JsonItem lib) :=
  elements (getObjectItem "tool_calls" (some msg))

/-- The result of a call names it. -/
structure Answers (call result : JsonItem lib) : Prop where
  role : role result = some (ascii "tool")
  id : valuestring (getObjectItem "tool_call_id" (some result)) =
    valuestring (getObjectItem "id" (some call))
  named : (valuestring (getObjectItem "id" (some call))).isSome
  content : (content result).isSome

/-- Every message of the assistant with calls of tools is followed by their results, one for
each call and in the order of the calls. -/
inductive Conversation : List (JsonItem lib) → Prop where
  | nil : Conversation []
  | said {msg : JsonItem lib} {rest : List (JsonItem lib)}
      (speaker : role msg ∈ [some (ascii "system"), some (ascii "user"), some (ascii "assistant")])
      (said : (content msg).isSome) (noCalls : getObjectItem "tool_calls" (some msg) = none)
      (conversation : Conversation rest) : Conversation (msg :: rest)
  | round {asked : JsonItem lib} {results rest : List (JsonItem lib)}
      (speaker : role asked = some (ascii "assistant")) (calls : toolCalls asked ≠ [])
      (answers : List.Forall₂ Answers (toolCalls asked) results)
      (conversation : Conversation rest) : Conversation (asked :: (results ++ rest))

theorem xaiMessage_said {msg : AgentMessage} (noCalls : msg.toolCalls = [])
    (noResult : msg.toolCallId = none) :
    (xaiMessage msg : JsonItem lib) =
      plainMessage (if msg.isUser then "user" else "assistant") (msg.text.getD []) := by
  rw [xaiMessage, noResult]
  simp only
  rw [if_neg fun asks => asks.2 noCalls]

theorem xaiMessage_asked (lib : Doubles) {msg : AgentMessage} (calls : msg.toolCalls ≠ [])
    (notUser : msg.isUser = false) (noResult : msg.toolCallId = none) :
    role (xaiMessage msg : JsonItem lib) = some (ascii "assistant") ∧
      toolCalls (xaiMessage msg : JsonItem lib) = msg.toolCalls.map xaiToolCall := by
  rw [xaiMessage, noResult]
  simp only
  rw [if_pos ⟨notUser, calls⟩, role, toolCalls]
  simp (disch := decide) [getObjectItem_cons]
  decide

theorem resultOf_answers {call : AgentCall} {msg : AgentMessage} (result : ResultOf call msg) :
    Answers (xaiToolCall call : JsonItem lib) (xaiMessage msg) := by
  rw [xaiMessage, result.id, xaiToolCall]
  refine ⟨?_, ?_, ?_, ?_⟩ <;> simp (disch := decide) [role, content, getObjectItem_cons]
  decide

theorem plainMessage_reads (lib : Doubles) (speaker : String) (text : Bytes) :
    role (plainMessage speaker text : JsonItem lib) = some (terminated (ascii speaker)) ∧
      content (plainMessage speaker text : JsonItem lib) = some (terminated text) ∧
      getObjectItem "tool_calls" (some (plainMessage speaker text : JsonItem lib)) = none := by
  rw [role, content, plainMessage]
  simp (disch := decide) [getObjectItem_cons]

theorem conversation_said (speaker : String) (text : Bytes)
    (known : speaker ∈ ["system", "user", "assistant"]) {rest : List (JsonItem lib)}
    (conversation : Conversation rest) : Conversation (plainMessage speaker text :: rest) := by
  obtain ⟨named, said, noCalls⟩ := plainMessage_reads lib speaker text
  refine .said ?_ (by rw [said]; rfl) noCalls conversation
  rw [named]
  simp only [List.mem_cons, List.not_mem_nil, or_false] at known
  rcases known with rfl | rfl | rfl <;> decide

theorem settled_conversation {history : History} (settled : Settled history) :
    Conversation (history.map xaiMessage : List (JsonItem lib)) := by
  induction settled with
  | nil => exact .nil
  | @said msg rest noCalls noResult _ ih =>
      rw [List.map_cons, xaiMessage_said noCalls noResult]
      refine conversation_said _ _ ?_ ih
      cases msg.isUser <;> simp
  | @round asked results rest calls notUser noResult answers _ ih =>
      obtain ⟨speaker, made⟩ := xaiMessage_asked lib calls notUser noResult
      rw [List.map_cons, List.map_append]
      refine .round speaker ?_ ?_ ih
      · rw [made]
        simpa using calls
      · rw [made, List.forall₂_map_left_iff, List.forall₂_map_right_iff]
        exact answers.imp fun call msg result => resultOf_answers result

/-! ### The bodies as they are read -/

theorem reread_plainMessage (speaker : String) (text : Bytes) :
    (plainMessage speaker text : JsonItem lib).reread = plainMessage speaker text := by
  rw [plainMessage, reread_createObject]
  rfl

theorem reread_xaiMessage (msg : AgentMessage) :
    (xaiMessage msg : JsonItem lib).reread = xaiMessage msg := by
  rw [xaiMessage]
  split
  · rw [reread_createObject]
    rfl
  · split
    · have calls : (array (msg.toolCalls.map xaiToolCall) : JsonItem lib).reread =
          array (msg.toolCalls.map xaiToolCall) := by
        refine reread_array fun item inside => ?_
        obtain ⟨call, -, rfl⟩ := List.mem_map.1 inside
        rw [xaiToolCall, reread_createObject]
        simp only [List.map_cons, List.map_nil, reread_createObject]
        rfl
      rw [reread_createObject]
      simp only [List.map_cons, List.map_nil, calls]
      split <;> rfl
    · exact reread_plainMessage _ _

/-- The messages of a request, as the provider counts them. -/
def posted (provider : ProviderId) (req : ProviderRequest) : List (JsonItem lib) :=
  match provider with
  | .xai => xaiMessages req
  | .anthropic | .ibm => (untooled req.history).map fun msg =>
      plainMessage (if msg.isUser then "user" else "assistant") (msg.text.getD [])
  | .google => (untooled req.history).map googleEntry

def messages (provider : ProviderId) (root : JsonItem lib) : List (JsonItem lib) :=
  elements (getObjectItem (if provider = .google then "contents" else "messages") (some root))

theorem reread_posted (lib : Doubles) (provider : ProviderId) (req : ProviderRequest) :
    ∀ msg ∈ (posted provider req : List (JsonItem lib)), msg.reread = msg := by
  intro msg inside
  have plain : ∀ (history : History) (speaker : AgentMessage → String),
      msg ∈ (history.map fun msg => plainMessage (speaker msg) (msg.text.getD []) :
        List (JsonItem lib)) → msg.reread = msg := by
    intro history speaker inside
    obtain ⟨one, -, rfl⟩ := List.mem_map.1 inside
    exact reread_plainMessage _ _
  cases provider with
  | xai =>
      rcases List.mem_append.1 inside with system | said
      · split at system
        · obtain rfl := List.mem_singleton.1 system
          exact reread_plainMessage _ _
        · contradiction
      · obtain ⟨one, -, rfl⟩ := List.mem_map.1 said
        exact reread_xaiMessage one
  | anthropic | ibm => exact plain _ _ inside
  | google =>
      obtain ⟨one, -, rfl⟩ := List.mem_map.1 inside
      rw [googleEntry, reread_createObject]
      rfl

theorem parse_terminated (laws : lib.Lawful) {heap : Allocator} {root : JsonItem lib}
    {block : Bytes} (ran : print heap root false = .ok block) :
    JsonParse.parse lib (CString.of (terminated block)) = .ok root.reread := by
  obtain ⟨rfl, shallow⟩ := print_ok laws ran
  have text : terminated (root.text false 0 ++ [0]) = root.text false 0 :=
    terminated_append_nul ⟨root.text false 0, root.nulFree_text laws false 0⟩ []
  have same : (CString.of (terminated (root.text false 0 ++ [0]))).bytes =
      root.text false 0 := by
    show terminated (terminated (root.text false 0 ++ [0])) = _
    rw [text, terminated_of_nulFree (root.nulFree_text laws false 0)]
  exact JsonParse.parse_text laws shallow same

theorem parse_printed_body {World : Type} (laws : lib.Lawful) {platform : Platform lib World}
    {root : JsonItem lib} {body : Bytes} (made : printed platform root = some body) :
    JsonParse.parse lib (CString.of body) = .ok root.reread := by
  rw [printed] at made
  cases ran : print platform.heap root false with
  | error stop =>
      rw [ran] at made
      contradiction
  | ok block =>
      rw [ran] at made
      obtain rfl := Option.some.inj made
      exact parse_terminated laws ran

theorem Built.messages {req : ProviderRequest} {provider : ProviderId} {root : JsonItem lib}
    (built : Built req provider root) :
    messages provider root.reread = posted provider req := by
  have whole := reread_array (reread_posted lib provider req)
  cases built with
  | xai temperature =>
      rw [xaiBody, reread_createObject, List.map_append]
      simp only [List.map_cons, List.map_nil, List.cons_append, List.nil_append]
      rw [show (array (xaiMessages req) : JsonItem lib).reread = array (posted .xai req) from whole]
      simp (disch := decide) [Providers.messages, getObjectItem_cons]
  | anthropic =>
      simp only [posted] at whole
      rw [anthropicBody, reread_createObject]
      simp only [List.map_cons, List.map_nil, whole]
      simp (disch := decide) [Providers.messages, getObjectItem_cons, posted]
  | google =>
      simp only [posted] at whole
      rw [googleBody, reread_createObject]
      simp only [List.map_cons, List.map_nil, whole]
      simp (disch := decide) [Providers.messages, getObjectItem_cons, posted]
  | ibm projectId =>
      simp only [posted] at whole
      rw [ibmBody, reread_createObject]
      simp only [List.map_cons, List.map_nil, whole]
      simp (disch := decide) [Providers.messages, getObjectItem_cons, posted]

structure Turn (speakers : List String) (said : Option Bytes) (msg : JsonItem lib) : Prop where
  speaker : ∃ speaker ∈ speakers, role msg = some (ascii speaker)
  said : said.isSome
  noCalls : getObjectItem "tool_calls" (some msg) = none

def part (entry : JsonItem lib) : Option Bytes :=
  valuestring (getObjectItem "text" (elements (getObjectItem "parts" (some entry)))[0]?)

/-- What the API of the provider asks of the messages. -/
def Speaks (provider : ProviderId) (msgs : List (JsonItem lib)) : Prop :=
  match provider with
  | .xai => Conversation msgs
  | .anthropic | .ibm => ∀ msg ∈ msgs, Turn ["user", "assistant"] (content msg) msg
  | .google => ∀ msg ∈ msgs, Turn ["user", "model"] (part msg) msg

theorem plainMessage_turn (user : Bool) (text : Bytes) :
    let msg : JsonItem lib := plainMessage (if user then "user" else "assistant") text
    Turn ["user", "assistant"] (content msg) msg := by
  obtain ⟨named, said, noCalls⟩ :=
    plainMessage_reads lib (if user then "user" else "assistant") text
  refine ⟨⟨if user then "user" else "assistant", ?_, ?_⟩, by rw [said]; rfl, noCalls⟩
  · cases user <;> simp
  · rw [named]
    cases user <;> decide

theorem googleEntry_turn (msg : AgentMessage) :
    Turn ["user", "model"] (part (googleEntry msg : JsonItem lib))
      (googleEntry msg : JsonItem lib) := by
  have parts : getObjectItem "parts" (some (googleEntry msg : JsonItem lib)) =
      some (array [createObject [("text", createString (msg.text.getD []))]]) := by
    rw [googleEntry]
    simp (disch := decide) [getObjectItem_cons]
  refine ⟨⟨if msg.isUser then "user" else "model", ?_, ?_⟩, ?_, ?_⟩
  · cases msg.isUser <;> simp
  · cases user : msg.isUser <;>
      simp (disch := decide) [role, googleEntry, getObjectItem_cons, user] <;> decide
  · rw [part, parts]
    show (valuestring (getObjectItem "text" (some (createObject _)))).isSome
    simp (disch := decide) [getObjectItem_cons]
  · rw [googleEntry]
    simp (disch := decide) [getObjectItem_cons]

theorem settled_speaks (provider : ProviderId) {req : ProviderRequest}
    (settled : Settled req.history) : Speaks provider (posted provider req : List (JsonItem lib)) := by
  have turns : ∀ msg ∈ ((untooled req.history).map fun msg =>
      plainMessage (if msg.isUser then "user" else "assistant") (msg.text.getD []) :
        List (JsonItem lib)), Turn ["user", "assistant"] (content msg) msg := by
    intro msg inside
    obtain ⟨one, -, rfl⟩ := List.mem_map.1 inside
    exact plainMessage_turn one.isUser _
  cases provider with
  | xai =>
      have said : Conversation (req.history.map xaiMessage : List (JsonItem lib)) :=
        settled_conversation settled
      show Conversation (xaiMessages req)
      rw [xaiMessages]
      split
      · exact conversation_said "system" sysprompt (by simp) said
      · exact said
  | anthropic | ibm => exact turns
  | google =>
      intro msg inside
      obtain ⟨one, -, rfl⟩ := List.mem_map.1 inside
      exact googleEntry_turn one

section

variable {World : Type} {platform : Platform lib World} {backend : Backend World}

theorem initProvider_log (provider : ProviderId) :
    (initProvider platform backend provider).2.log = backend.log := by
  cases provider <;> (rw [initProvider.eq_def]; simp only; split <;> rfl)

theorem getProvider_log (id : Option Bytes) :
    (getProvider platform backend id).2.log = backend.log := by
  rw [getProvider]
  simp only
  split
  · exact initProvider_log _
  · rfl

end

/-- A server that always says `ok`; the world counts its responses. -/
def okPlatform : Platform Doubles.integers Nat where
  getenv name := if name = "GEMINI_API_KEY" then some (ascii "k") else none
  pwDir := none
  fopen _ _ := none
  perform _ n :=
    (⟨true, 200, [ascii "\x7b\"candidates\":[\x7b\"content\":\x7b\"parts\":",
      ascii "[\x7b\"text\":\"ok\"\x7d]\x7d\x7d]\x7d"]⟩, n + 1)
  time n := (0, n)
  heap := ⟨fun _ => true, fun _ _ => 0⟩
  temperature := (1 : Int32)

def freshBackend : Backend Nat where
  outer := 0
  initialized _ := .notTried
  apiKey _ := none
  ibm := none
  subCorrNext := 0
  log := []

def hello : RequestArg where
  corrId := 1
  sessionIdx := 0
  msgs := [(1, ascii "hi")]
  model := none
  providerId := some (ascii "google")

end Providers

end FreeCli

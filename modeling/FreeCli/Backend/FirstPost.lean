import FreeCli.Backend.Conversation

namespace FreeCli

open Words JsonText JsonPrint

/-! The first thing a request says to a model. -/

namespace Agent

section

variable {World Provider : Type} {outside : Outside World Provider} {Good : World → Prop}
  (ra : RequestArg) {world between : World} {prov : Provider}

def firstRequest (ra : RequestArg) : ProviderRequest where
  history := ra.msgs.map requestMessage
  model := ra.model
  enableTools := supportsTools ra

theorem handleRequest_unfound
    (named : outside.getProvider ra.providerId world = (none, between)) :
    (handleRequest outside ra world).world = between := by
  rw [handleRequest, named]

theorem handleRequest_keeps_after (kept : Kept outside Good) {reply : Option AgentReply}
    {after : World} (named : outside.getProvider ra.providerId world = (some prov, between))
    (answered : outside.send prov (firstRequest ra) between = (reply, after))
    (good : Good after) : Good (handleRequest outside ra world).world := by
  have sent : Good (outside.send prov (firstRequest ra) between).2 := by
    rw [answered]
    exact good
  have later : ∀ agent : Agent World, Settled agent.cb → Good agent.world →
      Good (agenticLoop outside ra prov 4 agent).2.world :=
    fun agent => agenticLoop_keeps ra kept prov 4
  rw [handleRequest, named]
  simp only [chatAdd_foldl, List.nil_append]
  apply nameSession_keeps_world ra kept
  exact agenticLoop_keeps_after ra kept prov later (settled_requestMessages ra.msgs) sent

/-- Without a reply to the first call, or with an empty one, there is no other. -/
theorem handleRequest_silent {reply : Option AgentReply} {after : World}
    (named : outside.getProvider ra.providerId world = (some prov, between))
    (answered : outside.send prov (firstRequest ra) between = (reply, after))
    (silent : reply = none ∨ reply = some (Providers.contentOnly none)) :
    (handleRequest outside ra world).world = after := by
  rw [firstRequest] at answered
  rw [handleRequest, named]
  simp only [chatAdd_foldl, List.nil_append, maxToolIters, agenticLoop, answered]
  rcases silent with rfl | rfl <;> simp [nameSession, Providers.contentOnly]

end

end Agent

namespace Providers

open JsonItem

variable {lib : Doubles}

/-- What is said to which model -/
def Act.chat : Act → Option (ProviderId × Post)
  | .post (.chat provider) said _ => some (provider, said)
  | _ => none

def firstChat (acts : List Act) : Option (ProviderId × Post) := acts.findSome? Act.chat

theorem Act.chat_eq_none {act : Act} (aside : ¬act.IsChat) : act.chat = none := by
  cases act with
  | post service post response =>
      cases service with
      | chat provider => exact absurd trivial aside
      | iam => rfl
  | time now => rfl

theorem firstChat_append {acts : List Act} (aside : ∀ act ∈ acts, ¬act.IsChat)
    (rest : List Act) : firstChat (acts ++ rest) = firstChat rest := by
  have none_ : acts.findSome? Act.chat = none :=
    List.findSome?_eq_none_iff.2 fun act inside => Act.chat_eq_none (aside act inside)
  rw [firstChat, List.findSome?_append, none_, Option.none_or, firstChat]

/-! ### What a post says -/

/-- The model a request asks for: Gemini has it in the URL. -/
def NamesModel (provider : ProviderId) (post : Post) (root : JsonItem lib) (model : Bytes) : Prop :=
  match provider with
  | .xai | .anthropic => valuestring (getObjectItem "model" (some root)) = some model
  | .ibm => valuestring (getObjectItem "model_id" (some root)) = some model
  | .google => post.url =
      (ascii "https://generativelanguage.googleapis.com/v1beta/models/" ++ model ++
        ascii ":generateContent").take 511

def said (provider : ProviderId) (msg : JsonItem lib) : Option Bytes × Option Bytes :=
  (role msg, if provider = .google then part msg else content msg)

def speaker (provider : ProviderId) (isUser : Bool) : Bytes :=
  if isUser then ascii "user" else if provider = .google then ascii "model"
  else ascii "assistant"

theorem said_plainMessage {provider : ProviderId} (other : provider ≠ .google) (user : Bool)
    (text : Bytes) :
    said provider (plainMessage (if user then "user" else "assistant") text : JsonItem lib) =
      (some (speaker provider user), some (terminated text)) := by
  obtain ⟨named, has, -⟩ :=
    plainMessage_reads lib (if user then "user" else "assistant") text
  rw [said, if_neg other, named, has, speaker, if_neg other]
  cases user <;> rfl

theorem said_googleEntry (msg : AgentMessage) :
    said .google (googleEntry msg : JsonItem lib) =
      (some (speaker .google msg.isUser), some (terminated (msg.text.getD []))) := by
  have parts : getObjectItem "parts" (some (googleEntry msg : JsonItem lib)) =
      some (array [createObject [("text", createString (msg.text.getD []))]]) := by
    rw [googleEntry]
    simp (disch := decide) [getObjectItem_cons]
  have named : role (googleEntry msg : JsonItem lib) =
      some (terminated (ascii (if msg.isUser then "user" else "model"))) := by
    rw [role, googleEntry]
    simp (disch := decide) [getObjectItem_cons]
  have text : part (googleEntry msg : JsonItem lib) = some (terminated (msg.text.getD [])) := by
    rw [part, parts]
    show valuestring (getObjectItem "text" (some (createObject _))) = _
    simp (disch := decide) [getObjectItem_cons]
  rw [said, if_pos rfl, named, text, speaker, if_pos rfl]
  cases msg.isUser <;> rfl

theorem untooled_requestMessages (msgs : List (UInt8 × Bytes)) :
    untooled (msgs.map Agent.requestMessage) = msgs.map Agent.requestMessage := by
  apply List.filter_eq_self.2
  intro msg inside
  obtain ⟨one, -, rfl⟩ := List.mem_map.1 inside
  simp [Agent.requestMessage]

theorem posted_said (lib : Doubles) (provider : ProviderId) (msgs : List (UInt8 × Bytes))
    (model : Option Bytes) (tools : Bool) :
    (posted provider ⟨msgs.map Agent.requestMessage, model, tools⟩ : List (JsonItem lib)).map
        (said provider) =
      (if provider = .xai ∧ tools then [(some (ascii "system"), some (terminated sysprompt))]
        else []) ++
        msgs.map fun msg =>
          (some (speaker provider (msg.1 ≠ 0)), some (terminated msg.2)) := by
  have plain (other : provider ≠ .google) (msg : UInt8 × Bytes) :
      said provider (plainMessage (if decide (msg.1 ≠ 0) then "user" else "assistant") msg.2 :
        JsonItem lib) = (some (speaker provider (msg.1 ≠ 0)), some (terminated msg.2)) :=
    said_plainMessage other (decide (msg.1 ≠ 0)) msg.2
  cases provider with
  | xai =>
      have system : said .xai (plainMessage "system" sysprompt : JsonItem lib) =
          (some (ascii "system"), some (terminated sysprompt)) := by
        obtain ⟨named, has, -⟩ := plainMessage_reads lib "system" sysprompt
        rw [said, if_neg (by decide), named, has]
        rfl
      have spoken : ∀ msg ∈ msgs, said .xai (xaiMessage (Agent.requestMessage msg) : JsonItem lib) =
          (some (speaker .xai (msg.1 ≠ 0)), some (terminated msg.2)) := by
        intro msg _
        rw [xaiMessage_said rfl rfl]
        exact plain (by decide) msg
      rw [posted, xaiMessages, List.map_append, List.map_map, List.map_map]
      simp only [true_and]
      congr 1
      · cases tools
        · rfl
        · exact congrArg (fun entry => [entry]) system
      · exact List.map_congr_left spoken
  | anthropic | ibm =>
      rw [posted, untooled_requestMessages, List.map_map, List.map_map, if_neg (by simp),
        List.nil_append]
      exact List.map_congr_left fun msg _ => plain (by decide) msg
  | google =>
      rw [posted, untooled_requestMessages, List.map_map, List.map_map, if_neg (by simp),
        List.nil_append]
      exact List.map_congr_left fun msg _ => said_googleEntry (Agent.requestMessage msg)

theorem Built.namesModel {req : ProviderRequest} {provider : ProviderId} {root : JsonItem lib}
    (built : Built req provider root) {model : Bytes} (asked : req.model = some model)
    (nonempty : model ≠ []) (plain : 0 ∉ model) {post : Post}
    (url : provider = .google → post.url =
      (ascii "https://generativelanguage.googleapis.com/v1beta/models/" ++
        modelOr "gemini-2.5-flash" req.model ++ ascii ":generateContent").take 511) :
    NamesModel provider post root.reread model := by
  have named (default : String) : modelOr default req.model = model := by
    rw [asked, modelOr, if_pos nonempty]
  have text : terminated model = model := terminated_of_nulFree plain
  cases built with
  | xai temperature =>
      rw [NamesModel, xaiBody, reread_createObject, List.map_append, named]
      simp only [List.map_cons, List.cons_append]
      rw [getObjectItem_cons _ _ _ _ (by decide), if_pos rfl]
      exact congrArg some text
  | anthropic =>
      rw [NamesModel, anthropicBody, reread_createObject, named]
      simp only [List.map_cons]
      rw [getObjectItem_cons _ _ _ _ (by decide), if_pos rfl]
      exact congrArg some text
  | google =>
      rw [NamesModel, url rfl, named]
  | ibm projectId =>
      rw [NamesModel, ibmBody, reread_createObject, named]
      simp only [List.map_cons]
      rw [getObjectItem_cons _ _ _ _ (by decide), if_pos rfl]
      exact congrArg some text

/-! ### What `send` adds to the log -/

section

variable {World : Type} (platform : Platform lib World) (backend : Backend World)

theorem Aside.grows {before after : Backend World} (aside : Aside before after) :
    before.log <+: after.log := by
  obtain ⟨acts, grown, -⟩ := aside
  exact ⟨acts, grown.symm⟩

theorem send_grows (provider : ProviderId) (req : ProviderRequest) :
    backend.log <+: (send platform backend provider req).2.log := by
  have sent := send_cases platform backend provider req
  generalize (send platform backend provider req).1 = reply at sent
  generalize (send platform backend provider req).2 = after at sent
  cases sent with
  | unsent => exact List.prefix_rfl
  | noToken _ ensured => exact ensured.aside.grows
  | posted ready built made =>
      exact ready.aside.grows.trans (List.prefix_append _ _)

theorem grows_kept (base : Backend World) :
    Agent.Kept (backendOutside platform) fun world => base.log <+: world.log where
  getProvider id world grown := by
    show base.log <+: (getProvider platform world id).2.log
    rwa [getProvider_log]
  send provider req world _ grown := grown.trans (send_grows platform world provider req)
  allocSubCorr _ grown := grown

theorem googleSend_url {req : ProviderRequest} (acts : List Act) {service : Service} {post : Post}
    {response : Response}
    (grown : (send platform backend .google req).2.log =
      acts ++ [.post service post response])
    (new : backend.log ≠ acts ++ [.post service post response]) :
    post.url = (ascii "https://generativelanguage.googleapis.com/v1beta/models/" ++
      modelOr "gemini-2.5-flash" req.model ++ ascii ":generateContent").take 511 := by
  have sent : (send platform backend .google req) = googleSend platform backend req := rfl
  rw [sent, googleSend] at grown
  split at grown
  next =>
    obtain ⟨-, last⟩ := List.append_inj' grown rfl
    cases List.singleton_inj.1 last
    rfl
  next => exact absurd grown new

/-- A call of a provider that says this to its model, and nothing to another one. -/
inductive Says (req : ProviderRequest) (provider : ProviderId) :
    Option AgentReply → Backend World → Prop where
  | nothing {reply : Option AgentReply} {after : Backend World}
      (silent : reply = none ∨ reply = some (contentOnly none))
      (aside : Aside backend after) : Says req provider reply after
  | post {reply : Option AgentReply} {after : Backend World} (acts : List Act) (post : Post)
      (response : Response) (root : JsonItem lib) (aside : ∀ act ∈ acts, ¬act.IsChat)
      (log : after.log = backend.log ++ acts ++ [.post (.chat provider) post response])
      (built : Built req provider root) (made : printed platform root = some post.body) :
      Says req provider reply after

theorem send_says (provider : ProviderId) (req : ProviderRequest) :
    Says platform backend req provider (send platform backend provider req).1
      (send platform backend provider req).2 := by
  have sent := send_cases platform backend provider req
  generalize (send platform backend provider req).1 = reply at sent
  generalize (send platform backend provider req).2 = after at sent
  cases sent with
  | unsent silent => exact .nothing silent (.refl backend)
  | noToken _ ensured => exact .nothing (.inl rfl) ensured.aside
  | @posted _ ready root post stands built made =>
      obtain ⟨acts, log, aside⟩ := stands.aside
      refine .post acts post (platform.perform post ready.outer).1 root aside ?_ built made
      rw [← log]
      rfl

/-- What a request has said to a model first. -/
structure Opens (lib : Doubles) (ra : RequestArg) (model : Bytes) (chat : ProviderId × Post) : Prop where
  named : chat.1 = providerNamed ra.providerId
  body : ∃ root, JsonParse.parse lib (CString.of chat.2.body) = .ok root ∧
    NamesModel chat.1 chat.2 root model ∧
    (messages chat.1 root).map (said chat.1) =
      (if chat.1 = .xai ∧ Agent.supportsTools ra then
        [(some (ascii "system"), some (terminated sysprompt))] else []) ++
        ra.msgs.map fun msg => (some (speaker chat.1 (msg.1 ≠ 0)), some (terminated msg.2))

variable {platform backend} in
theorem getProvider_named {id : Option Bytes} {prov : ProviderId} {after : Backend World}
    (named : getProvider platform backend id = (some prov, after)) : prov = providerNamed id := by
  rw [getProvider] at named
  obtain ⟨-, same⟩ := Option.ite_none_right_eq_some.1 (congrArg Prod.fst named)
  exact (Option.some.inj same).symm

/-- The first thing a request says, if it says any: the provider, the model and the
messages are those of the request. -/
theorem handleRequest_opens (laws : lib.Lawful) (ra : RequestArg) {model : Bytes}
    (asked : ra.model = some model) (nonempty : model ≠ []) (plain : 0 ∉ model) :
    ∃ acts, (Agent.handleRequest (backendOutside platform) ra backend).world.log =
        backend.log ++ acts ∧
      ∀ chat ∈ firstChat acts, Opens lib ra model chat := by
  have log : (getProvider platform backend ra.providerId).2.log = backend.log :=
    getProvider_log ra.providerId
  cases named : getProvider platform backend ra.providerId with
  | mk found between =>
    rw [named] at log
    cases found with
    | none =>
        refine ⟨[], ?_, fun chat member => by cases member⟩
        rw [Agent.handleRequest_unfound ra named, List.append_nil]
        exact log
    | some prov =>
        have spoken := send_says platform between prov (Agent.firstRequest ra)
        generalize answered : send platform between prov (Agent.firstRequest ra) = result at spoken
        obtain ⟨reply, after⟩ := result
        cases spoken with
        | nothing silent aside =>
            obtain ⟨acts, grown, quiet⟩ := aside
            refine ⟨acts, ?_, fun chat member => ?_⟩
            · rw [Agent.handleRequest_silent ra named answered silent, grown, log]
            · rw [← List.append_nil acts, firstChat_append quiet] at member
              cases member
        | post acts post response root aside grown built made =>
            have more : after.log <+:
                (Agent.handleRequest (backendOutside platform) ra backend).world.log :=
              Agent.handleRequest_keeps_after ra (grows_kept platform after) named answered
                List.prefix_rfl
            obtain ⟨rest, whole⟩ := more
            refine ⟨acts ++ .post (.chat prov) post response :: rest, ?_, fun chat member => ?_⟩
            · rw [← whole, grown, log, List.append_assoc, List.append_assoc]
              rfl
            rw [firstChat_append aside] at member
            obtain rfl := Option.some.inj member
            refine ⟨getProvider_named named, root.reread, parse_printed_body laws made, ?_, ?_⟩
            · apply built.namesModel asked nonempty plain
              rintro rfl
              apply googleSend_url platform between (between.log ++ acts)
              · rw [answered, grown]
              · intro same
                have lengths := congrArg List.length same
                simp only [List.length_append, List.length_singleton] at lengths
                omega
            · rw [built.messages]
              exact posted_said lib prov ra.msgs ra.model (Agent.supportsTools ra)

end

end Providers

end FreeCli

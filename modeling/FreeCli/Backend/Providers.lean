import FreeCli.Core.JsonReread
import FreeCli.Backend.Agent

namespace FreeCli

open Words JsonText JsonPrint

/-! The providers: the request each of them posts for a conversation, and the reply it reads
in the response.  `curl`, the environment, the files and the clock come from outside; the
C library has memory for everything but the printed request. -/

variable {lib : Doubles}

namespace JsonItem

/-- `cJSON_GetObjectItemCaseSensitive`; the elements of an array have no names. -/
def getObjectItem (name : String) : Option (JsonItem lib) → Option (JsonItem lib)
  | some (.object child) =>
      (child.find? fun member => member.1.bytes = ascii name).map Prod.snd
  | _ => none

/-- The elements, where `cJSON_IsArray` holds. -/
def elements : Option (JsonItem lib) → List (JsonItem lib)
  | some (.array child) => child
  | _ => []

/-- The string, where `cJSON_IsString` holds. -/
def valuestring : Option (JsonItem lib) → Option Bytes
  | some (.string text) => some text.bytes
  | _ => none

/-- `cJSON_CreateString` -/
def createString (text : Bytes) : JsonItem lib := .string (CString.of text)

/-- `cJSON_CreateNumber` with an `int` -/
def createInt (number : Int32) : JsonItem lib := .number number (lib.ofInt number)

/-- `cJSON_CreateObject` and `cJSON_AddItemToObject` -/
def createObject (members : List (String × JsonItem lib)) : JsonItem lib :=
  .object (members.map fun member => (CString.of (ascii member.1), member.2))

end JsonItem

namespace Providers

open JsonItem

def xaiModels : List String :=
  ["grok-3-fast", "grok-3", "grok-3-mini-fast", "grok-3-mini", "grok-2-1212"]

/-- `(model && *model) ? model : default` -/
def modelOr (default : String) (model : Option Bytes) : Bytes :=
  match model with
  | some model => if model ≠ [] then model else ascii default
  | none => ascii default

/-- `strncat(text, more, size - strlen(text) - 1)` -/
def strncat (size : Nat) (text more : Bytes) : Bytes :=
  text ++ more.take (size - text.length - 1)

def modelsList : Bytes :=
  xaiModels.zipIdx.foldl
    (fun list model =>
      strncat 256 (if 0 < model.2 then strncat 256 list (ascii ", ") else list) (ascii model.1))
    []

def sysprompt : Bytes :=
  (ascii "You are a helpful AI assistant with access to inter-AI collaboration " ++
    ascii "via the ask_ai tool. Use it when querying another model adds genuine " ++
    ascii "value: e.g. for a second opinion, specialized knowledge, or delegating " ++
    ascii "a sub-task. Available models: " ++ modelsList ++ ascii ". " ++
    ascii "Use tools thoughtfully — not for every question.").take 1023

/-- `add_ask_ai_tool` -/
def askAiTool : JsonItem lib :=
  let property (text : String) (more : List (String × JsonItem lib)) : JsonItem lib :=
    createObject (("type", createString (ascii "string")) ::
      ("description", createString (ascii text)) :: more)
  createObject
    [("type", createString (ascii "function")),
      ("function", createObject
        [("name", createString (ascii "ask_ai")),
          ("description", createString
            (ascii "Query another AI model for specialized knowledge, a second opinion, " ++
              ascii "or to delegate a sub-task. The result will be returned to you as a " ++
              ascii "tool response so you can incorporate it into your final answer.")),
          ("parameters", createObject
            [("type", createString (ascii "object")),
              ("properties", createObject
                [("model", property
                    ("The AI model to query (e.g. 'grok-3' for deeper reasoning, " ++
                      "'grok-3-mini' for quick facts)")
                    [("enum", .array (xaiModels.map fun model => createString (ascii model)))]),
                  ("prompt", property "The question or task to send to the other AI" [])]),
              ("required", .array
                [createString (ascii "model"), createString (ascii "prompt")])])])]

/-- A message with nothing but a role and a text -/
def plainMessage (role : String) (text : Bytes) : JsonItem lib :=
  createObject [("role", createString (ascii role)), ("content", createString text)]

def xaiToolCall (call : AgentCall) : JsonItem lib :=
  createObject
    [("id", createString (call.id.getD [])), ("type", createString (ascii "function")),
      ("function", createObject
        [("name", createString (call.name.getD [])),
          ("arguments", createString (call.arguments.getD (ascii "\x7b\x7d")))])]

/-- The body of the loop over the history in `build_body` of xAI -/
def xaiMessage (msg : AgentMessage) : JsonItem lib :=
  match msg.toolCallId with
  | some id =>
      createObject
        [("role", createString (ascii "tool")), ("tool_call_id", createString id),
          ("content", createString (msg.text.getD []))]
  | none =>
      if msg.isUser = false ∧ msg.toolCalls ≠ [] then
        createObject
          [("role", createString (ascii "assistant")),
            ("content", if msg.text.getD [] ≠ [] then createString (msg.text.getD []) else .null),
            ("tool_calls", .array (msg.toolCalls.map xaiToolCall))]
      else
        plainMessage (if msg.isUser then "user" else "assistant") (msg.text.getD [])

def xaiMessages (req : ProviderRequest) : List (JsonItem lib) :=
  (if req.enableTools then [plainMessage "system" sysprompt] else []) ++
    req.history.map xaiMessage

/-- `build_body` of xAI; `temperature` is `0.7`. -/
def xaiBody (temperature : lib.Double) (req : ProviderRequest) : JsonItem lib :=
  createObject
    ([("model", createString (modelOr "grok-3-fast" req.model)),
        ("temperature", .number (lib.toInt temperature) temperature),
        ("messages", .array (xaiMessages req))] ++
      if req.enableTools then
        [("tools", .array [askAiTool]), ("tool_choice", createString (ascii "auto"))]
      else [])

/-- The other providers leave out what belongs to a tool call. -/
def untooled (history : History) : History :=
  history.filter fun msg =>
    msg.toolCallId = none ∧ ¬(msg.toolCalls ≠ [] ∧ msg.text = none)

def anthropicBody (req : ProviderRequest) : JsonItem lib :=
  createObject
    [("model", createString (modelOr "claude-opus-4-5" req.model)), ("max_tokens", createInt 4096),
      ("system", createString (ascii "You are a helpful AI assistant.")),
      ("messages", .array ((untooled req.history).map fun msg =>
        plainMessage (if msg.isUser then "user" else "assistant") (msg.text.getD [])))]

def googleEntry (msg : AgentMessage) : JsonItem lib :=
  createObject
    [("role", createString (ascii (if msg.isUser then "user" else "model"))),
      ("parts", .array [createObject [("text", createString (msg.text.getD []))]])]

def googleBody (req : ProviderRequest) : JsonItem lib :=
  createObject
    [("contents", .array ((untooled req.history).map googleEntry)),
      ("generationConfig", createObject [("maxOutputTokens", createInt 4096)])]

def ibmBody (projectId : Bytes) (req : ProviderRequest) : JsonItem lib :=
  createObject
    [("model_id", createString (modelOr "ibm/granite-3-8b-instruct" req.model)),
      ("project_id", createString projectId),
      ("messages", .array ((untooled req.history).map fun msg =>
        plainMessage (if msg.isUser then "user" else "assistant") (msg.text.getD []))),
      ("parameters", createObject [("max_new_tokens", createInt 2048)])]

/-- `choices[0].message` -/
def choiceMessage (root : Option (JsonItem lib)) : Option (JsonItem lib) :=
  getObjectItem "message" (elements (getObjectItem "choices" root))[0]?

def xaiReplyCall (call : JsonItem lib) : AgentCall :=
  let function := getObjectItem "function" (some call)
  { id := valuestring (getObjectItem "id" (some call))
    name := valuestring (getObjectItem "name" function)
    arguments := valuestring (getObjectItem "arguments" function) }

/-- What `xai_send` takes from the parsed response -/
def xaiReply (root : Option (JsonItem lib)) : AgentReply :=
  let message := choiceMessage root
  { content := valuestring (getObjectItem "content" message)
    reasoning := valuestring (getObjectItem "reasoning_content" message)
    toolCalls := (elements (getObjectItem "tool_calls" message)).map xaiReplyCall }

def contentOnly (content : Option Bytes) : AgentReply :=
  { content, reasoning := none, toolCalls := [] }

def ibmReply (root : Option (JsonItem lib)) : AgentReply :=
  contentOnly (valuestring (getObjectItem "content" (choiceMessage root)))

/-- `candidates[0].content.parts[0].text` -/
def googleReply (root : Option (JsonItem lib)) : AgentReply :=
  let candidate := (elements (getObjectItem "candidates" root))[0]?
  let parts := elements (getObjectItem "parts" (getObjectItem "content" candidate))
  contentOnly (valuestring (getObjectItem "text" parts[0]?))

/-- `content[0].text` -/
def anthropicReply (root : Option (JsonItem lib)) : AgentReply :=
  contentOnly (valuestring (getObjectItem "text" (elements (getObjectItem "content" root))[0]?))

structure Post where
  url : Bytes
  headers : List Bytes
  body : Bytes
  deriving DecidableEq, Repr

/-- What comes of `curl_easy_perform`: whether it returns `CURLE_OK`, the response code and
the pieces it calls `write_cb` with. -/
structure Response where
  ok : Bool
  httpCode : Nat
  pieces : List Bytes
  deriving DecidableEq, Repr

structure RespBuf where
  data : Option Bytes
  len : Nat
  deriving DecidableEq, Repr

def writeCb (rb : RespBuf) (contents : Bytes) : RespBuf where
  data := some ((rb.data.getD []).take rb.len ++ contents ++ [0])
  len := rb.len + contents.length

/-- The bytes received, if the transfer succeeds with code 200 and there are any. -/
def received (response : Response) : Option Bytes :=
  if response.ok ∧ response.httpCode = 200 then
    (response.pieces.foldl writeCb ⟨none, 0⟩).data
  else
    none

/-- What the providers use of the system, over the state of everything else. -/
structure Platform (lib : Doubles) (World : Type) where
  getenv : String → Option Bytes
  /-- `getpwuid(getuid())->pw_dir` -/
  pwDir : Option Bytes
  /-- the content of the file that `fopen` opens -/
  fopen : Bytes → World → Option Bytes
  perform : Post → World → Response × World
  time : World → Int × World
  heap : Allocator
  temperature : lib.Double

inductive ProviderId where
  | xai
  | anthropic
  | google
  | ibm
  deriving DecidableEq, Repr

inductive Initialized where
  | notTried
  | ok
  | failed
  deriving DecidableEq, Repr

structure IbmPriv where
  apiKey : Bytes
  projectId : Bytes
  region : Bytes
  iamToken : Option Bytes
  tokenExpiry : Int
  deriving DecidableEq, Repr

inductive Service where
  | chat (provider : ProviderId)
  | iam
  deriving DecidableEq, Repr

/-- An exchange with a server, or a look at the clock. -/
inductive Act where
  | post (service : Service) (post : Post) (response : Response)
  | time (now : Int)
  deriving DecidableEq, Repr

/-- The global state of the backend, and what it has done so far. -/
structure Backend (World : Type) where
  outer : World
  initialized : ProviderId → Initialized
  /-- `priv` of the providers but IBM -/
  apiKey : ProviderId → Option Bytes
  ibm : Option IbmPriv
  subCorrNext : Nat
  log : List Act

/-- `cJSON_Parse` on a block -/
def parseBlock (lib : Doubles) (block : Bytes) : Option (JsonItem lib) :=
  (JsonParse.parse lib (CString.of block)).toOption

section

variable {World : Type} (platform : Platform lib World) (backend : Backend World)

/-- `cJSON_PrintUnformatted` -/
def printed (root : JsonItem lib) : Option Bytes :=
  (print platform.heap root false).toOption.map terminated

def transfer (service : Service) (post : Post) : Option Bytes × Backend World :=
  let (response, outer) := platform.perform post backend.outer
  (received response,
    { backend with outer, log := backend.log ++ [.post service post response] })

/-- `time(NULL)` -/
def clock : Int × Backend World :=
  let (now, outer) := platform.time backend.outer
  (now, { backend with outer, log := backend.log ++ [.time now] })

def xaiSend (req : ProviderRequest) : Option AgentReply × Backend World :=
  match backend.apiKey .xai, printed platform (xaiBody platform.temperature req) with
  | some apiKey, some body =>
      let (data, backend) := transfer platform backend (.chat .xai)
        { url := ascii "https://api.x.ai/v1/chat/completions"
          headers := [(ascii "Authorization: Bearer " ++ apiKey).take 511,
            ascii "Content-Type: application/json"]
          body }
      (data.map fun data => xaiReply (parseBlock lib data), backend)
  | _, _ => (none, backend)

/-- A transfer that fails leaves a reply without content. -/
def anthropicSend (req : ProviderRequest) : Option AgentReply × Backend World :=
  match backend.apiKey .anthropic with
  | none => (none, backend)
  | some apiKey =>
      match printed platform (anthropicBody req) with
      | none => (some (contentOnly none), backend)
      | some body =>
          let (data, backend) := transfer platform backend (.chat .anthropic)
            { url := ascii "https://api.anthropic.com/v1/messages"
              headers := [(ascii "x-api-key: " ++ apiKey).take 511,
                ascii "anthropic-version: 2023-06-01", ascii "content-type: application/json"]
              body }
          (some (anthropicReply (data.bind (parseBlock lib))), backend)

def googleSend (req : ProviderRequest) : Option AgentReply × Backend World :=
  match backend.apiKey .google, printed platform (googleBody req) with
  | some apiKey, some body =>
      let (data, backend) := transfer platform backend (.chat .google)
        { url := (ascii "https://generativelanguage.googleapis.com/v1beta/models/" ++
            modelOr "gemini-2.5-flash" req.model ++ ascii ":generateContent").take 511
          headers := [(ascii "x-goog-api-key: " ++ apiKey).take 511,
            ascii "content-type: application/json"]
          body }
      (data.map fun data => googleReply (parseBlock lib data), backend)
  | _, _ => (none, backend)

def iamPost (apiKey : Bytes) : Post where
  url := ascii "https://iam.cloud.ibm.com/identity/token"
  headers := [ascii "Content-Type: application/x-www-form-urlencoded",
    ascii "Accept: application/json"]
  body := (ascii "grant_type=urn%3Aibm%3Aparams%3Aoauth%3Agrant-type%3Aapikey" ++
    ascii "&apikey=" ++ apiKey).take 511

def accessToken (lib : Doubles) (data : Option Bytes) : Option Bytes :=
  valuestring (getObjectItem "access_token" (data.bind (parseBlock lib)))

def iamExchange (apiKey : Bytes) : Option Bytes × Backend World :=
  let (data, backend) := transfer platform backend .iam (iamPost apiKey)
  (accessToken lib data, backend)

def ibmTokenTtlSec : Int := 3300

/-- `ensure_token` from the release of the old token on -/
def renewToken (priv : IbmPriv) : Option IbmPriv × Backend World :=
  match iamExchange platform backend priv.apiKey with
  | (none, backend) => (none, { backend with ibm := some { priv with iamToken := none } })
  | (some token, backend) =>
      let (now, backend) := clock platform backend
      let priv := { priv with iamToken := some token, tokenExpiry := now + ibmTokenTtlSec }
      (some priv, { backend with ibm := some priv })

/-- `ensure_token`: the state with a token, if there is one. -/
def ensureToken (priv : IbmPriv) : Option IbmPriv × Backend World :=
  let (fresh, backend) :=
    match priv.iamToken with
    | none => (false, backend)
    | some _ =>
        let (now, backend) := clock platform backend
        (decide (now < priv.tokenExpiry), backend)
  if fresh then (some priv, backend) else renewToken platform backend priv

def ibmPost (priv : IbmPriv) (body : Bytes) : Post where
  url := (ascii "https://" ++ priv.region ++
    ascii ".ml.cloud.ibm.com/ml/v1/text/chat?version=2023-05-29").take 255
  headers := [(ascii "Authorization: Bearer " ++ priv.iamToken.getD []).take 1023,
    ascii "Content-Type: application/json", ascii "Accept: application/json"]
  body

def ibmSend (req : ProviderRequest) : Option AgentReply × Backend World :=
  match backend.ibm with
  | none => (none, backend)
  | some priv =>
      match ensureToken platform backend priv with
      | (none, backend) => (none, backend)
      | (some priv, backend) =>
          match printed platform (ibmBody priv.projectId req) with
          | none => (none, backend)
          | some body =>
              let (data, backend) := transfer platform backend (.chat .ibm) (ibmPost priv body)
              (data.map fun data => ibmReply (parseBlock lib data), backend)

/-- `snprintf(path, sizeof(path), "%s...", home)` and `fopen` -/
def homeFile (home : Option Bytes) (name : String) : Option Bytes :=
  home.bind fun home => platform.fopen ((home ++ ascii name).take 511) backend.outer

/-- `read_api_key` of xAI -/
def xaiReadApiKey : Option Bytes :=
  (homeFile platform backend ((platform.getenv "HOME").or platform.pwDir)
    "/.grok/user-settings.json").bind fun content =>
      valuestring (getObjectItem "apiKey" (parseBlock lib content))

/-- `fgets` into 256 zeroed bytes, and the line without its end -/
def firstLine (content : Bytes) : Option Bytes :=
  let line := terminated ((content.take 255).takeWhile fun byte => byte ≠ 10)
  if line ≠ [] then some line else none

def nonempty (text : Option Bytes) : Option Bytes := text.filter fun text => text ≠ []

def anthropicReadApiKey : Option Bytes :=
  (nonempty (platform.getenv "ANTHROPIC_API_KEY")).or
    ((homeFile platform backend (platform.getenv "HOME") "/.anthropic/api_key").bind firstLine)

def googleReadApiKey : Option Bytes :=
  (nonempty (platform.getenv "GEMINI_API_KEY")).or
    ((nonempty (platform.getenv "GOOGLE_API_KEY")).or
      ((homeFile platform backend (platform.getenv "HOME") "/.google/gemini_api_key").bind
        firstLine))

/-- `read_config` of IBM: the file fills the gaps, and is not read when there are none but
the region. -/
def ibmReadConfig : Option IbmPriv := do
  let key := nonempty (platform.getenv "WATSONX_API_KEY")
  let project := nonempty (platform.getenv "WATSONX_PROJECT_ID")
  let region := nonempty (platform.getenv "WATSONX_REGION")
  let config :=
    if key = none ∨ project = none then
      (homeFile platform backend (platform.getenv "HOME") "/.ibm/watsonx.json").bind (parseBlock lib)
    else
      none
  let apiKey ← key.or (valuestring (getObjectItem "apiKey" config))
  let projectId ← project.or (valuestring (getObjectItem "projectId" config))
  let region := (region.or (valuestring (getObjectItem "region" config))).getD (ascii "us-south")
  some { apiKey, projectId, region, iamToken := none, tokenExpiry := 0 }

/-- `init` of the provider, with its return value. -/
def initProvider : ProviderId → Bool × Backend World
  | .ibm =>
      match ibmReadConfig platform backend with
      | some priv => (true, { backend with ibm := some priv })
      | none => (false, backend)
  | provider =>
      let key :=
        match provider with
        | .anthropic => anthropicReadApiKey platform backend
        | .google => googleReadApiKey platform backend
        | _ => xaiReadApiKey platform backend
      match key with
      | some key =>
          (true, { backend with apiKey := Function.update backend.apiKey provider (some key) })
      | none => (false, backend)

/-! ### The dispatch table of `backend.c` -/

/-- The entry of `backend_providers` that `get_provider` takes. -/
def providerNamed (id : Option Bytes) : ProviderId :=
  match id with
  | none => .xai
  | some id =>
      if id = ascii "anthropic" then .anthropic
      else if id = ascii "google" then .google
      else if id = ascii "ibm" then .ibm
      else .xai

def getProvider (id : Option Bytes) : Option ProviderId × Backend World :=
  let provider := providerNamed id
  let backend :=
    if backend.initialized provider = .notTried then
      let (ok, backend) := initProvider platform backend provider
      let tried : Initialized := if ok then .ok else .failed
      { backend with initialized := Function.update backend.initialized provider tried }
    else
      backend
  (if backend.initialized provider = .ok then some provider else none, backend)

def send (provider : ProviderId) (req : ProviderRequest) : Option AgentReply × Backend World :=
  match provider with
  | .xai => xaiSend platform backend req
  | .anthropic => anthropicSend platform backend req
  | .google => googleSend platform backend req
  | .ibm => ibmSend platform backend req

/-- What `handle_request` calls. -/
def backendOutside : Outside (Backend World) ProviderId where
  getProvider id backend := getProvider platform backend id
  send provider req backend := send platform backend provider req
  allocSubCorr backend :=
    (backend.subCorrNext, { backend with subCorrNext := backend.subCorrNext + 1 })
  askAi json :=
    (parseBlock lib json).map fun root =>
      (valuestring (getObjectItem "model" (some root)),
        valuestring (getObjectItem "prompt" (some root)))

end

end Providers

end FreeCli

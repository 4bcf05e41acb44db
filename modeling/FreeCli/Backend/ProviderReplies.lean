import FreeCli.Core.JsonGrammar
import FreeCli.Backend.Conversation

namespace FreeCli.Providers

open Words JsonText JsonPrint JsonParse JsonItem

/-! What a provider says reaches the agent, however its server writes it and the network cuts
it. -/

variable {lib : Doubles}

theorem writeCb_pieces (pieces : List Bytes) (soFar : Bytes) :
    pieces.foldl writeCb ⟨some (soFar ++ [0]), soFar.length⟩ =
      ⟨some (soFar ++ pieces.flatten ++ [0]), (soFar ++ pieces.flatten).length⟩ := by
  induction pieces generalizing soFar with
  | nil => rw [List.flatten_nil, List.append_nil, List.foldl_nil]
  | cons piece pieces ih =>
      have next : writeCb ⟨some (soFar ++ [0]), soFar.length⟩ piece =
          ⟨some (soFar ++ piece ++ [0]), (soFar ++ piece).length⟩ := by
        rw [writeCb, Option.getD_some, List.take_left, List.length_append]
      rw [List.foldl_cons, next, ih, List.flatten_cons, List.append_assoc soFar]

theorem writeCb_received {pieces : List Bytes} (some_ : pieces ≠ []) :
    (pieces.foldl writeCb ⟨none, 0⟩).data = some (pieces.flatten ++ [0]) := by
  cases pieces with
  | nil => contradiction
  | cons piece pieces =>
      have first : writeCb ⟨none, 0⟩ piece = ⟨some (piece ++ [0]), piece.length⟩ := by
        rw [writeCb, Option.getD_none, List.take_nil, List.nil_append, Nat.zero_add]
      rw [List.foldl_cons, first, writeCb_pieces, List.flatten_cons]

/-- The member of an object that stands first under a name. -/
def Found (object : JsonItem lib) (name : String) (item : JsonItem lib) : Prop :=
  ∃ before after, object = .object (before ++ (CString.of (ascii name), item) :: after) ∧
    ∀ member ∈ before, member.1.bytes ≠ ascii name

def Missing (object : JsonItem lib) (name : String) : Prop :=
  ∃ members, object = .object members ∧ ∀ member ∈ members, member.1.bytes ≠ ascii name

/-- A text, or `null`, or nothing. -/
inductive TextIn (object : JsonItem lib) (name : String) : Option Bytes → Prop where
  | said {text : Bytes} : 0 ∉ text → Found object name (createString text) →
      TextIn object name (some text)
  | null : Found object name .null → TextIn object name none
  | missing : Missing object name → TextIn object name none

structure CallIn (item : JsonItem lib) (call : AgentCall) : Prop where
  id : TextIn item "id" call.id
  function : ∃ function, Found item "function" function ∧ TextIn function "name" call.name ∧
    TextIn function "arguments" call.arguments

inductive CallsIn (message : JsonItem lib) : List AgentCall → Prop where
  | made {items : List (JsonItem lib)} {calls : List AgentCall} :
      Found message "tool_calls" (.array items) → List.Forall₂ CallIn items calls →
      CallsIn message calls
  | missing : Missing message "tool_calls" → CallsIn message []

/-- A reply as the API of each provider gives it, with whatever else, in whatever order. -/
inductive ReplyIn : ProviderId → JsonItem lib → AgentReply → Prop where
  | xai {root choice message : JsonItem lib} {choices : List (JsonItem lib)}
      {reply : AgentReply} :
      Found root "choices" (.array (choice :: choices)) → Found choice "message" message →
      TextIn message "content" reply.content →
      TextIn message "reasoning_content" reply.reasoning →
      CallsIn message reply.toolCalls → ReplyIn .xai root reply
  | anthropic {root block : JsonItem lib} {blocks : List (JsonItem lib)} {text : Option Bytes} :
      Found root "content" (.array (block :: blocks)) → TextIn block "text" text →
      ReplyIn .anthropic root (contentOnly text)
  | google {root candidate content part : JsonItem lib} {candidates parts : List (JsonItem lib)}
      {text : Option Bytes} :
      Found root "candidates" (.array (candidate :: candidates)) →
      Found candidate "content" content → Found content "parts" (.array (part :: parts)) →
      TextIn part "text" text → ReplyIn .google root (contentOnly text)
  | ibm {root choice message : JsonItem lib} {choices : List (JsonItem lib)}
      {text : Option Bytes} :
      Found root "choices" (.array (choice :: choices)) → Found choice "message" message →
      TextIn message "content" text → ReplyIn .ibm root (contentOnly text)

theorem Found.lookup {object item : JsonItem lib} {name : String} (plain : 0 ∉ ascii name)
    (found : Found object name item) : getObjectItem name (some object) = some item := by
  obtain ⟨before, after, rfl, early⟩ := found
  have skipped : before.find? (fun member => member.1.bytes = ascii name) = none := by
    rw [List.find?_eq_none]
    intro member inside
    simpa using early member inside
  have bytes : (CString.of (ascii name)).bytes = ascii name := terminated_of_nulFree plain
  simp only [getObjectItem, List.find?_append, skipped, Option.none_or, List.find?_cons, bytes,
    decide_true, Option.map_some]

theorem Missing.lookup {object : JsonItem lib} {name : String} (missing : Missing object name) :
    getObjectItem name (some object) = none := by
  obtain ⟨members, rfl, other⟩ := missing
  rw [getObjectItem, Option.map_eq_none_iff, List.find?_eq_none]
  intro member inside
  simpa using other member inside

theorem TextIn.read {object : JsonItem lib} {name : String} {text : Option Bytes}
    (plain : 0 ∉ ascii name) (textIn : TextIn object name text) :
    valuestring (getObjectItem name (some object)) = text := by
  cases textIn with
  | said nulFree found =>
      rw [found.lookup plain]
      exact congrArg some (terminated_of_nulFree nulFree)
  | null found =>
      rw [found.lookup plain]
      rfl
  | missing missing =>
      rw [missing.lookup]
      rfl

theorem CallIn.read {item : JsonItem lib} {call : AgentCall} (callIn : CallIn item call) :
    xaiReplyCall item = call := by
  obtain ⟨function, found, name, arguments⟩ := callIn.function
  rw [xaiReplyCall, found.lookup (by decide), callIn.id.read (by decide), name.read (by decide),
    arguments.read (by decide)]

theorem callsIn_read {items : List (JsonItem lib)} {calls : List AgentCall}
    (each : List.Forall₂ CallIn items calls) : items.map xaiReplyCall = calls := by
  induction each with
  | nil => rfl
  | cons callIn _ ih => rw [List.map_cons, callIn.read, ih]

theorem CallsIn.read {message : JsonItem lib} {calls : List AgentCall}
    (callsIn : CallsIn message calls) :
    (elements (getObjectItem "tool_calls" (some message))).map xaiReplyCall = calls := by
  cases callsIn with
  | made found each =>
      rw [found.lookup (by decide), elements]
      exact callsIn_read each
  | missing missing =>
      rw [missing.lookup]
      rfl

theorem ReplyIn.read {provider : ProviderId} {root : JsonItem lib} {reply : AgentReply}
    (replyIn : ReplyIn provider root reply) : replyOf provider (some root) = reply := by
  cases replyIn with
  | xai choices message content reasoning calls =>
      rw [replyOf, xaiReply, choiceMessage, choices.lookup (by decide), elements,
        List.getElem?_cons_zero, message.lookup (by decide), content.read (by decide),
        reasoning.read (by decide), calls.read]
  | anthropic content text =>
      rw [replyOf, anthropicReply, content.lookup (by decide), elements,
        List.getElem?_cons_zero, text.read (by decide)]
  | google candidates content parts text =>
      rw [replyOf, googleReply, candidates.lookup (by decide), elements]
      simp only [List.getElem?_cons_zero]
      rw [content.lookup (by decide), parts.lookup (by decide), elements,
        List.getElem?_cons_zero, text.read (by decide)]
  | ibm choices message text =>
      rw [replyOf, ibmReply, choiceMessage, choices.lookup (by decide), elements,
        List.getElem?_cons_zero, message.lookup (by decide), text.read (by decide)]

/-- A response that gives a reply, however its text is written and cut. -/
structure Gives (lib : Doubles) (provider : ProviderId) (reply : AgentReply)
    (response : Response) : Prop where
  ok : response.ok = true
  code : response.httpCode = 200
  plain : 0 ∉ response.pieces.flatten
  text : ∃ (root : JsonItem lib) (mark front text rest : Bytes), ReplyIn provider root reply ∧
    Written root text ∧ root.depth ≤ nestingLimit ∧ (mark = [] ∨ mark = byteOrderMark) ∧
    Blank front ∧ Stops rest ∧ response.pieces.flatten = mark ++ (front ++ (text ++ rest))

theorem Gives.understood {provider : ProviderId} {reply : AgentReply} {response : Response}
    (gives : Gives lib provider reply response) :
    understood lib provider (received response) = some reply := by
  obtain ⟨root, mark, front, text, rest, replyIn, written, shallow, marked, blank, stops, tiles⟩ :=
    gives.text
  have some_ : response.pieces ≠ [] := by
    intro none
    obtain ⟨byte, tail, first, -⟩ := written.cons
    rw [none, first] at tiles
    simp at tiles
  have block : parseBlock lib (response.pieces.flatten ++ [0]) = some root := by
    have same : (CString.of (response.pieces.flatten ++ [0])).bytes ++ [0] =
        mark ++ (front ++ (text ++ (rest ++ [0]))) := by
      have whole : (CString.of (response.pieces.flatten ++ [0])).bytes =
          response.pieces.flatten := terminated_append_nul ⟨_, gives.plain⟩ []
      rw [whole, tiles]
      simp only [List.append_assoc]
    rw [parseBlock, parse, same, parseWithLength_written written shallow marked blank stops]
    rfl
  rw [received, if_pos ⟨gives.ok, gives.code⟩, writeCb_received some_]
  have read : replyOf provider (parseBlock lib (response.pieces.flatten ++ [0])) = reply := by
    rw [block, replyIn.read]
  cases provider <;> exact congrArg some read

/-- Once its request was posted, `send` returns the reply that the response gives. -/
theorem send_understands {World : Type} (platform : Platform lib World)
    (backend : Backend World) (provider : ProviderId) (req : ProviderRequest) {more : List Act}
    {post : Post} {response : Response} {reply : AgentReply}
    (log : (send platform backend provider req).2.log = backend.log ++ more)
    (posted : Act.post (.chat provider) post response ∈ more)
    (gives : Gives lib provider reply response) :
    (send platform backend provider req).1 = some reply := by
  have aside {after : Backend World} (log : after.log = backend.log ++ more) :
      ¬Aside backend after := by
    rintro ⟨acts, same, aside⟩
    obtain rfl := List.append_cancel_left (log.symm.trans same)
    exact aside _ posted trivial
  have sent := send_cases platform backend provider req
  generalize (send platform backend provider req).2 = after at sent log
  generalize (send platform backend provider req).1 = answer at sent
  cases sent with
  | unsent => exact absurd (.refl backend) (aside log)
  | noToken _ ensured => exact absurd ensured.aside (aside log)
  | posted ready built made =>
      obtain ⟨acts, before, quiet⟩ := ready.aside
      have last := log
      rw [show (transfer platform _ (.chat provider) _).2.log = _ ++ [_] from rfl, before,
        List.append_assoc] at last
      obtain rfl := List.append_cancel_left last
      rcases List.mem_append.1 posted with earlier | here
      · exact absurd trivial (quiet _ earlier)
      · obtain ⟨-, -, rfl⟩ := Act.post.inj (List.mem_singleton.1 here)
        exact gives.understood

def unescaped (bytes : Bytes) : Bool := bytes.all fun byte => byte != 34 && byte != 92

theorem spelled_unescaped {bytes : Bytes} (plain : unescaped bytes = true) :
    Spelled bytes bytes := by
  apply spelled_plain
  intro byte inside
  have checked := List.all_eq_true.1 plain byte inside
  rwa [Bool.and_eq_true, bne_iff_ne, bne_iff_ne] at checked

theorem written_member {name : String} {item : JsonItem lib} {text : Bytes}
    (plain : unescaped (ascii name) = true) (written : Written item text) :
    Written (createObject [(name, item)])
      (123 :: 34 :: (ascii name ++ 34 :: 58 :: (text ++ [125]))) := by
  let member : Member lib := ⟨[], ascii name, ascii name, [], [], item, text, []⟩
  have none : Blank [] := fun _ inside => absurd inside List.not_mem_nil
  have one : Written (.object ([member].map Member.pair)) _ :=
    .object (by simp) (by simpa [member] using none) (by simpa [member] using spelled_unescaped plain)
      (by simpa [member] using written)
  simpa [member, Member.pair, Member.written, Element.written, separated, createObject] using one

theorem written_element {item : JsonItem lib} {text : Bytes} (written : Written item text) :
    Written (.array [item]) (91 :: (text ++ [93])) := by
  let element : Element lib := ⟨[], item, text, []⟩
  have none : Blank [] := fun _ inside => absurd inside List.not_mem_nil
  have one : Written (.array ([element].map Element.item)) _ :=
    .array (by simp) (by simpa [element] using none) (by simpa [element] using written)
  simpa [element, Element.written, separated] using one

theorem found_member (name : String) (item : JsonItem lib) :
    Found (createObject [(name, item)]) name item :=
  ⟨[], [], rfl, fun _ inside => absurd inside List.not_mem_nil⟩

def okText : Bytes := ascii "\x7b\"content\":[\x7b\"text\":\"ok\"\x7d]\x7d"

def okResponse : Response := ⟨true, 200, [okText.take 9, okText.drop 9]⟩

theorem okResponse_gives :
    Gives Doubles.integers .anthropic (contentOnly (some (ascii "ok"))) okResponse := by
  have none : Blank [] := fun _ inside => absurd inside List.not_mem_nil
  have ends : Stops [] := fun byte inside => absurd inside (Option.not_mem_none byte)
  have said : Written (createString (ascii "ok") : JsonItem Doubles.integers) _ :=
    .string (spelled_unescaped (by decide))
  have block : Written (createObject [("text", createString (ascii "ok"))]) _ :=
    written_member (by decide) said
  have root : Written (createObject [("content", _)]) _ :=
    written_member (by decide) (written_element block)
  refine ⟨rfl, rfl, by decide, _, [], [], _, [], ?_, root, by decide, .inl rfl, none, ends, ?_⟩
  · exact .anthropic (found_member _ _) (.said (by decide) (found_member _ _))
  · decide

def okServer : Platform Doubles.integers Nat :=
  { okPlatform with perform := fun _ n => (okResponse, n + 1) }

def keyed : Backend Nat := { freshBackend with apiKey := fun _ => some (ascii "k") }

def hi : ProviderRequest where
  history := History.chatAdd [] (ascii "hi") true
  model := none
  enableTools := false

def hiPost : Post where
  url := ascii "https://api.anthropic.com/v1/messages"
  headers := [ascii "x-api-key: k", ascii "anthropic-version: 2023-06-01",
    ascii "content-type: application/json"]
  body := ascii "\x7b\"model\":\"claude-opus-4-5\",\"max_tokens\":4096," ++
    ascii "\"system\":\"You are a helpful AI assistant.\"," ++
    ascii "\"messages\":[\x7b\"role\":\"user\",\"content\":\"hi\"\x7d]\x7d"

theorem send_understands_ok :
    (send okServer keyed .anthropic hi).1 = some (contentOnly (some (ascii "ok"))) := by
  have log : (send okServer keyed .anthropic hi).2.log =
      keyed.log ++ [.post (.chat .anthropic) hiPost okResponse] := by decide +kernel
  exact send_understands okServer keyed .anthropic hi log List.mem_cons_self okResponse_gives

end FreeCli.Providers

import FreeCli.Backend.Providers

namespace FreeCli.Providers

open Words JsonText JsonPrint JsonItem

/-! What a `send` can do: the token it sees to, the request it posts, and what it takes from
the response. -/

variable {lib : Doubles} {World : Type} (platform : Platform lib World) (backend : Backend World)

variable {platform backend} in
theorem ibmReadConfig_token {priv : IbmPriv} (read : ibmReadConfig platform backend = some priv) :
    priv.iamToken = none := by
  simp only [ibmReadConfig, Option.bind_eq_bind, Option.bind_eq_some_iff] at read
  obtain ⟨_, _, _, _, same⟩ := read
  obtain rfl := Option.some.inj same
  rfl

theorem initProvider_cases (provider : ProviderId) :
    (∃ apiKey, (initProvider platform backend provider).2 = { backend with apiKey }) ∨
      provider = .ibm ∧ ∃ priv, priv.iamToken = none ∧
        (initProvider platform backend provider).2 = { backend with ibm := some priv } := by
  cases provider with
  | ibm =>
      rw [initProvider.eq_def]
      simp only
      split
      next priv read => exact .inr ⟨trivial, priv, ibmReadConfig_token read, rfl⟩
      next => exact .inl ⟨backend.apiKey, rfl⟩
  | xai | anthropic | google =>
      rw [initProvider.eq_def]
      simp only
      split
      · exact .inl ⟨_, rfl⟩
      · exact .inl ⟨backend.apiKey, rfl⟩

/-- The cached token is none, or found out of date. -/
inductive Stale (priv : IbmPriv) : Backend World → Prop where
  | none : priv.iamToken = none → Stale priv backend
  | expired {token : Bytes} : priv.iamToken = some token →
      priv.tokenExpiry ≤ (clock platform backend).1 → Stale priv (clock platform backend).2

inductive Ensured (priv : IbmPriv) : Option IbmPriv → Backend World → Prop where
  | fresh {token : Bytes} : priv.iamToken = some token →
      (clock platform backend).1 < priv.tokenExpiry →
      Ensured priv (some priv) (clock platform backend).2
  | refused {before after : Backend World} : Stale platform backend priv before →
      iamExchange platform before priv.apiKey = (none, after) →
      Ensured priv none { after with ibm := some { priv with iamToken := none } }
  | renewed {before after : Backend World} {token : Bytes} {renewed : IbmPriv} :
      Stale platform backend priv before →
      iamExchange platform before priv.apiKey = (some token, after) →
      renewed = { priv with
        iamToken := some token, tokenExpiry := (clock platform after).1 + ibmTokenTtlSec } →
      Ensured priv (some renewed) { (clock platform after).2 with ibm := some renewed }

variable {platform backend} in
theorem renewToken_cases {priv : IbmPriv} {before : Backend World}
    (stale : Stale platform backend priv before) :
    Ensured platform backend priv (renewToken platform before priv).1
      (renewToken platform before priv).2 := by
  rw [renewToken]
  cases given : iamExchange platform before priv.apiKey with
  | mk token after =>
      cases token with
      | none => exact .refused stale given
      | some token => exact .renewed stale given rfl

theorem ensureToken_cases (priv : IbmPriv) :
    Ensured platform backend priv (ensureToken platform backend priv).1
      (ensureToken platform backend priv).2 := by
  rw [ensureToken]
  cases cached : priv.iamToken with
  | none => exact renewToken_cases (.none cached)
  | some token =>
      simp only [decide_eq_true_eq]
      split
      next inTime => exact .fresh cached inTime
      next late => exact renewToken_cases (.expired cached (by omega))

def Act.IsChat : Act → Prop
  | .post (.chat _) _ _ => True
  | _ => False

/-- Nothing was said to a model in between. -/
def Aside (before after : Backend World) : Prop :=
  ∃ acts, after.log = before.log ++ acts ∧ ∀ act ∈ acts, ¬act.IsChat

theorem Aside.trans {before between after : Backend World} (first : Aside before between)
    (second : Aside between after) : Aside before after := by
  obtain ⟨acts, log, aside⟩ := first
  obtain ⟨acts', log', aside'⟩ := second
  refine ⟨acts ++ acts', by rw [log', log, List.append_assoc], fun act inside => ?_⟩
  rcases List.mem_append.1 inside with earlier | later
  · exact aside act earlier
  · exact aside' act later

theorem Aside.refl : Aside backend backend := ⟨[], (List.append_nil _).symm, by simp⟩

theorem Aside.last {before after : Backend World} {act : Act}
    (log : after.log = before.log ++ [act]) (aside : ¬act.IsChat) : Aside before after :=
  ⟨[act], log, fun _ inside => by rwa [List.mem_singleton.1 inside]⟩

theorem clock_aside : Aside backend (clock platform backend).2 :=
  .last rfl (show ¬(Act.time _).IsChat from id)

variable {platform backend} in
theorem Stale.aside {priv : IbmPriv} {before : Backend World}
    (stale : Stale platform backend priv before) : Aside backend before := by
  cases stale with
  | none => exact .refl backend
  | expired => exact clock_aside platform backend

variable {platform backend} in
theorem Ensured.aside {priv : IbmPriv} {renewed : Option IbmPriv} {after : Backend World}
    (ensured : Ensured platform backend priv renewed after) : Aside backend after := by
  have exchanged {before after : Backend World} {token : Option Bytes}
      (given : iamExchange platform before priv.apiKey = (token, after)) :
      Aside before after := by
    obtain rfl := congrArg Prod.snd given
    exact .last rfl (show ¬(Act.post .iam _ _).IsChat from id)
  cases ensured with
  | fresh => exact clock_aside platform backend
  | refused stale given =>
      have asked := stale.aside.trans (exchanged given)
      exact asked
  | renewed stale given =>
      have asked := (stale.aside.trans (exchanged given)).trans (clock_aside platform _)
      exact asked

/-- What `build_body` of the provider may make of a request. -/
inductive Built (req : ProviderRequest) : ProviderId → JsonItem lib → Prop where
  | xai (temperature : lib.Double) : Built req .xai (xaiBody temperature req)
  | anthropic : Built req .anthropic (anthropicBody req)
  | google : Built req .google (googleBody req)
  | ibm (projectId : Bytes) : Built req .ibm (ibmBody projectId req)

/-- The state that a request is posted from. -/
inductive Ready : ProviderId → Post → Backend World → Prop where
  | keyed {provider : ProviderId} {post : Post} : provider ≠ .ibm → Ready provider post backend
  | token {priv renewed : IbmPriv} {body : Bytes} {ready : Backend World} :
      backend.ibm = some priv → Ensured platform backend priv (some renewed) ready →
      Ready .ibm (ibmPost renewed body) ready

variable {platform backend} in
theorem Ready.aside {provider : ProviderId} {post : Post} {ready : Backend World}
    (stands : Ready platform backend provider post ready) : Aside backend ready := by
  cases stands with
  | keyed => exact .refl backend
  | token _ ensured => exact ensured.aside

def replyOf : ProviderId → Option (JsonItem lib) → AgentReply
  | .xai => xaiReply
  | .anthropic => anthropicReply
  | .google => googleReply
  | .ibm => ibmReply

/-- What is taken from a response; without data, only Anthropic gives a reply. -/
def understood (lib : Doubles) (provider : ProviderId) (data : Option Bytes) :
    Option AgentReply :=
  match provider with
  | .anthropic => some (anthropicReply (data.bind (parseBlock lib)))
  | provider => data.map fun data => replyOf provider (parseBlock lib data)

inductive Sent (req : ProviderRequest) :
    ProviderId → Option AgentReply → Backend World → Prop where
  | unsent {provider : ProviderId} {reply : Option AgentReply} :
      reply = none ∨ reply = some (contentOnly none) → Sent req provider reply backend
  | noToken {priv : IbmPriv} {ensured : Option IbmPriv} {after : Backend World} :
      backend.ibm = some priv → Ensured platform backend priv ensured after →
      Sent req .ibm none after
  | posted {provider : ProviderId} {ready : Backend World} {root : JsonItem lib} {post : Post} :
      Ready platform backend provider post ready → Built req provider root →
      printed platform root = some post.body →
      Sent req provider
        (understood lib provider (transfer platform ready (.chat provider) post).1)
        (transfer platform ready (.chat provider) post).2

theorem send_cases (provider : ProviderId) (req : ProviderRequest) :
    Sent platform backend req provider (send platform backend provider req).1
      (send platform backend provider req).2 := by
  cases provider with
  | xai =>
      show Sent platform backend req .xai (xaiSend platform backend req).1
        (xaiSend platform backend req).2
      rw [xaiSend]
      split
      next made => exact .posted (.keyed (by decide)) (.xai platform.temperature) made
      next => exact .unsent (.inl rfl)
  | anthropic =>
      show Sent platform backend req .anthropic (anthropicSend platform backend req).1
        (anthropicSend platform backend req).2
      rw [anthropicSend]
      split
      next => exact .unsent (.inl rfl)
      next =>
        split
        next => exact .unsent (.inr rfl)
        next made => exact .posted (.keyed (by decide)) .anthropic made
  | google =>
      show Sent platform backend req .google (googleSend platform backend req).1
        (googleSend platform backend req).2
      rw [googleSend]
      split
      next made => exact .posted (.keyed (by decide)) .google made
      next => exact .unsent (.inl rfl)
  | ibm =>
      show Sent platform backend req .ibm (ibmSend platform backend req).1
        (ibmSend platform backend req).2
      rw [ibmSend]
      cases configured : backend.ibm with
      | none => exact .unsent (.inl rfl)
      | some priv =>
          have ensured := ensureToken_cases platform backend priv
          simp only
          generalize ensureToken platform backend priv = result at ensured
          obtain ⟨renewed, ready⟩ := result
          cases renewed with
          | none => exact .noToken configured ensured
          | some renewed =>
              simp only
              split
              next => exact .noToken configured ensured
              next body made =>
                have printed : printed platform (ibmBody renewed.projectId req) =
                    some (ibmPost renewed body).body := made
                exact .posted (.token configured ensured) (.ibm renewed.projectId) printed

end FreeCli.Providers

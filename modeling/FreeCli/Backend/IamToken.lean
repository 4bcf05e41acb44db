import FreeCli.Library.Justified
import FreeCli.Backend.RequestThreads

namespace FreeCli.Providers

open Words Transition JsonText JsonPrint JsonItem

/-! IBM is only asked with a token that IAM gave last, and not too long ago; and IAM is only asked
when there is no such token. -/

variable {lib : Doubles}

def Act.IsIam : Act → Prop
  | .post .iam _ _ => True
  | _ => False

/-- The last answer of IAM was a token, and the clock was read then. -/
def Issued (lib : Doubles) (log : List Act) (token : Bytes) (issued : Int) : Prop :=
  ∃ before post response since,
    Latest Act.IsIam log before (.post .iam post response) (.time issued :: since) ∧
    accessToken lib (received response) = some token

/-- The last answer of IAM, if there is one, was no token. -/
def Unissued (lib : Doubles) (log : List Act) : Prop :=
  ∀ before post response since,
    Latest Act.IsIam log before (.post .iam post response) since →
    accessToken lib (received response) = none

def LastTime (log : List Act) (now : Int) : Prop := ∃ before, log = before ++ [.time now]

/-- What must have happened before an act. -/
def Justified (lib : Doubles) (earlier : List Act) : Act → Prop
  | .post (.chat .ibm) post _ => ∃ token issued now, Issued lib earlier token issued ∧
      LastTime earlier now ∧ now < issued + ibmTokenTtlSec ∧
      post.headers.head? = some ((ascii "Authorization: Bearer " ++ token).take 1023)
  | .post .iam _ _ => Unissued lib earlier ∨ ∃ token issued now, Issued lib earlier token issued ∧
      LastTime earlier now ∧ issued + ibmTokenTtlSec ≤ now
  | _ => True

def Cached (lib : Doubles) (log : List Act) (priv : IbmPriv) : Prop :=
  match priv.iamToken with
  | some token => ∃ issued, priv.tokenExpiry = issued + ibmTokenTtlSec ∧
      Issued lib log token issued
  | none => Unissued lib log

structure TokenInv (lib : Doubles) {World : Type} (backend : Backend World) : Prop where
  justified : EachAfter (Justified lib) backend.log
  untried : backend.initialized .ibm = .notTried → backend.ibm = none
  idle : backend.ibm = none → Unissued lib backend.log
  cached : ∀ priv ∈ backend.ibm, Cached lib backend.log priv

/-! ### The log grows -/

theorem Issued.concat {log : List Act} {token : Bytes} {issued : Int} {act : Act}
    (given : Issued lib log token issued) (aside : ¬act.IsIam) :
    Issued lib (log ++ [act]) token issued := by
  obtain ⟨before, post, response, since, latest, answer⟩ := given
  exact ⟨before, post, response, _, latest.concat aside, answer⟩

theorem Unissued.concat {log : List Act} {act : Act} (none : Unissued lib log)
    (aside : ¬act.IsIam) : Unissued lib (log ++ [act]) := by
  intro before post response since latest
  obtain ⟨earlier, latest⟩ := latest.of_concat aside
  exact none before post response earlier latest

theorem Unissued.refused {log : List Act} {post : Post} {response : Response}
    (refused : accessToken lib (received response) = none) :
    Unissued lib (log ++ [.post .iam post response]) := by
  intro before other answer since latest
  rcases concat_split latest.split with ⟨-, same, -⟩ | ⟨earlier, -, rfl⟩
  · obtain ⟨-, -, rfl⟩ := Act.post.inj same
    exact refused
  · exact absurd trivial (latest.other _ (List.mem_append_right _ List.mem_cons_self))

theorem Issued.given {log : List Act} {post : Post} {response : Response} {token : Bytes}
    (answer : accessToken lib (received response) = some token) (now : Int) :
    Issued lib (log ++ [.post .iam post response] ++ [.time now]) token now := by
  refine ⟨log, post, response, [], ⟨by rw [List.append_assoc]; rfl, trivial, ?_⟩, answer⟩
  intro later inside
  rw [List.mem_singleton.1 inside]
  exact id

theorem Cached.concat {log : List Act} {priv : IbmPriv} {act : Act} (cached : Cached lib log priv)
    (aside : ¬act.IsIam) : Cached lib (log ++ [act]) priv := by
  rw [Cached] at cached ⊢
  cases held : priv.iamToken with
  | some token =>
      rw [held] at cached
      obtain ⟨issued, expiry, given⟩ := cached
      exact ⟨issued, expiry, given.concat aside⟩
  | none =>
      rw [held] at cached
      exact Unissued.concat cached aside

section

variable {World : Type} {platform : Platform lib World} {backend : Backend World}

/-- An act that has nothing to do with IAM. -/
theorem TokenInv.concat {after : Backend World} {act : Act} (inv : TokenInv lib backend)
    (log : after.log = backend.log ++ [act]) (ibm : after.ibm = backend.ibm)
    (initialized : after.initialized = backend.initialized) (aside : ¬act.IsIam)
    (justified : Justified lib backend.log act) : TokenInv lib after where
  justified := by
    rw [log]
    exact inv.justified.concat justified
  untried := by
    rw [initialized, ibm]
    exact inv.untried
  idle none := by
    rw [log]
    exact (inv.idle (ibm ▸ none)).concat aside
  cached priv held := by
    rw [log]
    exact (inv.cached priv (ibm ▸ held)).concat aside

theorem TokenInv.clock (inv : TokenInv lib backend) : TokenInv lib (clock platform backend).2 :=
  inv.concat rfl rfl rfl (show ¬(Act.time _).IsIam from id)
    (show Justified lib _ (.time _) from trivial)

theorem Stale.justified {priv : IbmPriv} {before : Backend World} (inv : TokenInv lib backend)
    (held : backend.ibm = some priv) (stale : Stale platform backend priv before) :
    EachAfter (Justified lib) before.log ∧ before.initialized = backend.initialized ∧
      ∀ post response, Justified lib before.log (.post .iam post response) := by
  have cached := inv.cached priv held
  cases stale with
  | none empty =>
      rw [Cached, empty] at cached
      exact ⟨inv.justified, rfl, fun _ _ => .inl cached⟩
  | expired token late =>
      rw [Cached, token] at cached
      obtain ⟨issued, expiry, given⟩ := cached
      have read := given.concat (show ¬(Act.time (clock platform backend).1).IsIam from id)
      refine ⟨inv.clock.justified, rfl, fun _ _ => .inr ⟨_, issued, _, read, ⟨_, rfl⟩, ?_⟩⟩
      rwa [expiry] at late

theorem iamExchange_log {before after : Backend World} {apiKey : Bytes} {token : Option Bytes}
    (given : iamExchange platform before apiKey = (token, after)) :
    ∃ response, after.log = before.log ++ [.post .iam (iamPost apiKey) response] ∧
      accessToken lib (received response) = token ∧ after.initialized = before.initialized := by
  obtain rfl := congrArg Prod.fst given
  obtain rfl := congrArg Prod.snd given
  exact ⟨_, rfl, rfl, rfl⟩

/-- The token that a request carries was issued last, and in time. -/
def Carriable (lib : Doubles) (log : List Act) (priv : IbmPriv) : Prop :=
  ∃ token issued now, priv.iamToken = some token ∧ Issued lib log token issued ∧
    LastTime log now ∧ now < issued + ibmTokenTtlSec

theorem Ensured.token {priv : IbmPriv} {ensured : Option IbmPriv} {after : Backend World}
    (inv : TokenInv lib backend) (held : backend.ibm = some priv)
    (did : Ensured platform backend priv ensured after) :
    TokenInv lib after ∧ ∀ renewed ∈ ensured, Carriable lib after.log renewed := by
  have tried : backend.initialized .ibm ≠ .notTried := fun untried => by
    rw [inv.untried untried] at held
    contradiction
  cases did with
  | fresh token inTime =>
      have read : TokenInv lib (Providers.clock platform backend).2 := inv.clock
      refine ⟨read, fun renewed same => ?_⟩
      obtain rfl := Option.some.inj same
      have cached := read.cached priv held
      rw [Cached, token] at cached
      obtain ⟨issued, expiry, given⟩ := cached
      exact ⟨_, issued, _, token, given, ⟨_, rfl⟩, expiry ▸ inTime⟩
  | @refused before mid stale exchanged =>
      obtain ⟨each, same, justified⟩ := stale.justified inv held
      obtain ⟨response, log, answer, untouched⟩ := iamExchange_log exchanged
      refine ⟨⟨?_, fun untried => ?_, nofun, ?_⟩, nofun⟩
      · show EachAfter _ mid.log
        rw [log]
        exact each.concat (justified _ _)
      · exact absurd (same ▸ untouched ▸ untried) tried
      · intro renewed here
        obtain rfl := Option.some.inj here
        show Unissued lib mid.log
        rw [log]
        exact .refused answer
  | @renewed before mid token renewed stale exchanged is_ =>
      obtain ⟨each, same, justified⟩ := stale.justified inv held
      obtain ⟨response, log, answer, untouched⟩ := iamExchange_log exchanged
      have given : Issued lib (mid.log ++ [.time (clock platform mid).1]) token
          (clock platform mid).1 := by
        rw [log]
        exact .given answer _
      subst is_
      refine ⟨⟨?_, fun untried => ?_, nofun, ?_⟩, ?_⟩
      · show EachAfter _ (mid.log ++ [.time _])
        rw [log]
        exact (each.concat (justified _ _)).concat trivial
      · exact absurd (same ▸ untouched ▸ untried) tried
      · intro renewed here
        obtain rfl := Option.some.inj here
        exact ⟨_, rfl, given⟩
      · intro renewed here
        obtain rfl := Option.some.inj here
        exact ⟨token, _, _, rfl, given, ⟨_, rfl⟩, Int.lt_add_of_pos_right _ (by decide)⟩

theorem TokenInv.getProvider (inv : TokenInv lib backend) (id : Option Bytes) :
    TokenInv lib (getProvider platform backend id).2 := by
  rw [Providers.getProvider]
  simp only
  split
  next untried =>
    have did := initProvider_cases platform backend (providerNamed id)
    generalize initProvider platform backend (providerNamed id) = result at did ⊢
    obtain ⟨ok, after⟩ := result
    generalize providerNamed id = provider at untried did ⊢
    have given : (if ok then Initialized.ok else .failed) ≠ .notTried := by cases ok <;> decide
    generalize (if ok then Initialized.ok else Initialized.failed) = tried at given ⊢
    rcases did with ⟨apiKey, rfl⟩ | ⟨rfl, priv, empty, rfl⟩
    · refine ⟨inv.justified, fun still => ?_, inv.idle, inv.cached⟩
      refine inv.untried ?_
      by_cases here : provider = .ibm
      · exact here ▸ untried
      · simpa [Function.update_of_ne (Ne.symm here)] using still
    · have idle := inv.idle (inv.untried untried)
      refine ⟨inv.justified, fun still => absurd ?_ given,
        fun none => absurd none (Option.some_ne_none _), fun other here => ?_⟩
      · simpa using still
      · obtain rfl := Option.some.inj here
        rw [Cached, empty]
        exact idle
  next => exact inv

theorem TokenInv.send (inv : TokenInv lib backend) (provider : ProviderId)
    (req : ProviderRequest) : TokenInv lib (send platform backend provider req).2 := by
  have sent := send_cases platform backend provider req
  generalize (Providers.send platform backend provider req).1 = reply at sent
  generalize (Providers.send platform backend provider req).2 = after at sent
  cases sent with
  | unsent => exact inv
  | noToken held did => exact (did.token inv held).1
  | @posted _ before root post ready built made =>
      cases ready with
      | keyed other =>
          refine inv.concat rfl rfl rfl (show ¬(Act.post (.chat _) _ _).IsIam from id) ?_
          cases provider with
          | ibm => contradiction
          | _ => trivial
      | token held did =>
          obtain ⟨kept, carriable⟩ := did.token inv held
          obtain ⟨token, issued, now, has, given, last, inTime⟩ := carriable _ rfl
          refine kept.concat rfl rfl rfl (show ¬(Act.post (.chat _) _ _).IsIam from id) ?_
          refine ⟨token, issued, now, given, last, inTime, ?_⟩
          rw [ibmPost, has]
          rfl

theorem TokenInv.kept (platform : Platform lib World) :
    Agent.Kept (backendOutside platform) (TokenInv lib) where
  getProvider id _ inv := inv.getProvider id
  send prov req _ _ inv := inv.send prov req
  allocSubCorr _ inv := ⟨inv.justified, inv.untried, inv.idle, inv.cached⟩

theorem TokenInv.start (unset : backend.ibm = none) (quiet : backend.log = []) :
    TokenInv lib backend where
  justified := by
    rw [quiet]
    exact .nil
  untried _ := unset
  idle _ before post response since latest := by
    have split := latest.split
    rw [quiet] at split
    simp at split
  cached priv held := by
    rw [unset] at held
    contradiction

/-- However the request threads take turns at their calls, a request goes to watsonx only with
the token that IAM gave last, less than `IBM_TOKEN_TTL_SEC` before the clock was last read; and IAM
is asked again only when it gave none or the clock has just shown that its token is older.  No two
threads are in a call of `send` at once: `ensure_token` has no lock. -/
theorem served_justified {serving : Serving World}
    {trace : List (Taken (Serving World) (ServingLabel World))}
    (run : Run (Serving.step platform) Serving.Start trace serving) :
    EachAfter (Justified lib) serving.backend.log :=
  (Serving.keeps (fun _ unset quiet => TokenInv.start unset quiet) (TokenInv.kept platform)
    (fun _ _ inv => ⟨inv.justified, inv.untried, inv.idle, inv.cached⟩) run).justified

end

/-- IAM gives a token, watsonx says `ok`, and the clock, like the world, goes on by the
hour. -/
def ibmPlatform : Platform Doubles.integers Nat :=
  { okPlatform with
    getenv := fun name =>
      if name = "WATSONX_API_KEY" ∨ name = "WATSONX_PROJECT_ID" then some (ascii "k") else none
    perform := fun post hours =>
      (⟨true, 200, [if post = iamPost (ascii "k") then ascii "\x7b\"access_token\":\"t\"\x7d"
        else ascii "\x7b\"choices\":[\x7b\"message\":\x7b\"content\":\"ok\"\x7d\x7d]\x7d"]⟩,
        hours + 1)
    time := fun hours => (3600 * hours, hours) }

def ibmRequest : RequestArg := { hello with providerId := some (ascii "ibm") }

/-- The second request has its provider before the first one asks it, and when it asks the token
is out of date. -/
def ibmTurns : List (ServingLabel Nat) :=
  [.request ibmRequest, .request { ibmRequest with corrId := 2 }, .call 0, .call 1, .call 0,
    .call 1]

theorem served_justified_twice : ∃ trace serving,
    Run (Serving.step ibmPlatform) Serving.Start trace serving ∧
      serving.backend.log.map serviceOf =
        [some .iam, none, some (.chat .ibm), none, some .iam, none, some (.chat .ibm)] ∧
      EachAfter (Justified Doubles.integers) serving.backend.log := by
  have outcome : (exec (Serving.step ibmPlatform) ibmTurns ⟨freshBackend, []⟩).any fun serving =>
      serving.backend.log.map serviceOf =
        [some .iam, none, some (.chat .ibm), none, some .iam, none, some (.chat .ibm)] := by
    decide +kernel
  obtain ⟨serving, ran, posts⟩ := (Option.any_eq_true _ _).1 outcome
  have run : Run (Serving.step ibmPlatform) Serving.Start _ serving :=
    .of_exec ⟨rfl, rfl, rfl⟩ ran
  exact ⟨_, serving, run, of_decide_eq_true posts, served_justified run⟩

end FreeCli.Providers

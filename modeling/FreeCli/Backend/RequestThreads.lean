import FreeCli.Library.Transition
import FreeCli.Backend.FirstPost

namespace FreeCli

open Words Transition JsonItem

/-! The threads of the backend, one for each request, which take turns at what
`handle_request` calls. -/

namespace Agent

inductive OutsideCall (Provider : Type) where
  | getProvider (id : Option Bytes)
  | send (prov : Provider) (req : ProviderRequest)
  | allocSubCorr

inductive OutsideAnswer (Provider : Type) where
  | provider (given : Option Provider)
  | reply (reply : Option AgentReply)
  | subCorr (allocated : Nat)

/-- The answers that are still to be given to a request, and its first call that has none. -/
structure Replay (Provider : Type) where
  answers : List (OutsideAnswer Provider)
  asks : Option (OutsideCall Provider)

variable {Provider : Type}

def Replay.answer (replay : Replay Provider) (call : OutsideCall Provider) :
    Option (OutsideAnswer Provider) × Replay Provider :=
  match replay.asks, replay.answers with
  | none, answer :: rest => (some answer, ⟨rest, none⟩)
  | none, [] => (none, ⟨[], some call⟩)
  | some first, rest => (none, ⟨rest, some first⟩)

variable (askAi : Bytes → Option (Option Bytes × Option Bytes))

/-- What `handle_request` calls, with answers that are there beforehand. -/
def replaying : Outside (Replay Provider) Provider where
  getProvider id replay :=
    match replay.answer (.getProvider id) with
    | (some (.provider given), replay) => (given, replay)
    | (_, replay) => (none, replay)
  send prov req replay :=
    match replay.answer (.send prov req) with
    | (some (.reply reply), replay) => (reply, replay)
    | (_, replay) => (none, replay)
  allocSubCorr replay :=
    match replay.answer .allocSubCorr with
    | (some (.subCorr subCorr), replay) => (subCorr, replay)
    | (_, replay) => (0, replay)
  askAi

/-- What a request calls when its calls so far have had these answers. -/
def nextCall (ra : RequestArg) (answers : List (OutsideAnswer Provider)) :
    Option (OutsideCall Provider) :=
  (handleRequest (replaying askAi) ra ⟨answers, none⟩).world.asks

/-- If a model is to be asked, then with a settled conversation. -/
def Replay.SettledAsk (replay : Replay Provider) : Prop :=
  ∀ prov req, replay.asks = some (.send prov req) → Settled req.history

theorem Replay.SettledAsk.answer {replay : Replay Provider} (settled : replay.SettledAsk)
    (call : OutsideCall Provider)
    (own : ∀ prov req, call = .send prov req → Settled req.history) :
    (replay.answer call).2.SettledAsk := by
  obtain ⟨answers, asks⟩ := replay
  cases asks with
  | some first => exact settled
  | none =>
      cases answers with
      | cons answer rest => exact nofun
      | nil => exact fun prov req same => own prov req (Option.some.inj same)

theorem replaying_kept :
    Kept (replaying askAi : Outside (Replay Provider) Provider) Replay.SettledAsk where
  getProvider id replay settled := by
    have after := settled.answer (.getProvider id) nofun
    rw [replaying]
    simp only
    split
    next same => exact congrArg Prod.snd same ▸ after
    next same => exact congrArg Prod.snd same ▸ after
  send prov req replay own settled := by
    have after := settled.answer (.send prov req) fun other again same => by
      cases same
      exact own
    rw [replaying]
    simp only
    split
    next same => exact congrArg Prod.snd same ▸ after
    next same => exact congrArg Prod.snd same ▸ after
  allocSubCorr replay settled := by
    have after := settled.answer .allocSubCorr nofun
    rw [replaying]
    simp only
    split
    next same => exact congrArg Prod.snd same ▸ after
    next same => exact congrArg Prod.snd same ▸ after

/-- A request asks with settled conversations only, whatever answers it gets. -/
theorem nextCall_settled {ra : RequestArg} {answers : List (OutsideAnswer Provider)}
    {prov : Provider} {req : ProviderRequest}
    (next : nextCall askAi ra answers = some (.send prov req)) : Settled req.history :=
  have fresh : (⟨answers, none⟩ : Replay Provider).SettledAsk := nofun
  handleRequest_keeps ra (replaying_kept askAi) fresh prov req next

end Agent

namespace Providers

open Agent

variable {lib : Doubles} {World : Type} (platform : Platform lib World)

structure RequestThread where
  ra : RequestArg
  answers : List (OutsideAnswer ProviderId)

def RequestThread.next (thread : RequestThread) : Option (OutsideCall ProviderId) :=
  nextCall (backendOutside platform).askAi thread.ra thread.answers

structure Serving (World : Type) where
  backend : Backend World
  threads : List RequestThread

inductive ServingLabel (World : Type) where
  /-- a request comes in, and gets a thread -/
  | request (ra : RequestArg)
  /-- a thread makes its next call -/
  | call (i : Nat)
  /-- time passes outside -/
  | elapse (outer : World)

def perform (backend : Backend World) :
    OutsideCall ProviderId → OutsideAnswer ProviderId × Backend World
  | .getProvider id =>
      let (given, backend) := (backendOutside platform).getProvider id backend
      (.provider given, backend)
  | .send provider req =>
      let (reply, backend) := (backendOutside platform).send provider req backend
      (.reply reply, backend)
  | .allocSubCorr =>
      let (subCorr, backend) := (backendOutside platform).allocSubCorr backend
      (.subCorr subCorr, backend)

def Serving.step (serving : Serving World) : ServingLabel World → Option (Serving World)
  | .request ra => some { serving with threads := serving.threads ++ [⟨ra, []⟩] }
  | .call i => do
      let thread ← serving.threads[i]?
      let call ← thread.next platform
      let (answer, backend) := perform platform serving.backend call
      some { backend
             threads := serving.threads.set i { thread with answers := thread.answers ++ [answer] } }
  | .elapse outer => some { serving with backend := { serving.backend with outer } }

def Serving.Start (serving : Serving World) : Prop :=
  serving.backend.ibm = none ∧ serving.backend.log = [] ∧ serving.threads = []

/-- The body parses back to the messages of the request, as its provider counts them, and the
provider can read them. -/
def ReadAs (lib : Doubles) (provider : ProviderId) (req : ProviderRequest) (body : Bytes) : Prop :=
  ∃ root : JsonItem lib, JsonParse.parse lib (CString.of body) = .ok root ∧
    messages provider root = posted provider req ∧ Speaks provider (messages provider root)

/-- What a step posts to a model is the request of the thread that goes on. -/
def PostsOwn (taken : Taken (Serving World) (ServingLabel World)) : Prop :=
  ∃ acts, taken.dst.backend.log = taken.src.backend.log ++ acts ∧
    ∀ provider post response, .post (.chat provider) post response ∈ acts →
      ∃ i thread req, taken.label = .call i ∧ taken.src.threads[i]? = some thread ∧
        thread.next platform = some (.send provider req) ∧ Settled req.history ∧
        ReadAs lib provider req post.body

variable {platform}

theorem PostsOwn.quiet {taken : Taken (Serving World) (ServingLabel World)}
    (same : taken.dst.backend.log = taken.src.backend.log) : PostsOwn platform taken :=
  ⟨[], by rw [same, List.append_nil], fun _ _ _ inside => by cases inside⟩

theorem send_posts (laws : lib.Lawful) (backend : Backend World) (provider : ProviderId)
    {req : ProviderRequest} (settled : Settled req.history) :
    ∃ acts, (send platform backend provider req).2.log = backend.log ++ acts ∧
      ∀ other post response, .post (.chat other) post response ∈ acts →
        other = provider ∧ ReadAs lib provider req post.body := by
  have said := send_says platform backend provider req
  generalize (send platform backend provider req).1 = reply at said
  generalize (send platform backend provider req).2 = after at said
  cases said with
  | nothing _ aside =>
      obtain ⟨acts, log, aside⟩ := aside
      exact ⟨acts, log, fun other post response inside => absurd trivial (aside _ inside)⟩
  | post acts post response root aside log built made =>
      refine ⟨acts ++ [.post (.chat provider) post response], by rw [log, List.append_assoc],
        fun other asked answer inside => ?_⟩
      rcases List.mem_append.1 inside with earlier | last
      · exact absurd trivial (aside _ earlier)
      · cases List.mem_singleton.1 last
        refine ⟨rfl, root.reread, parse_printed_body laws made, built.messages, ?_⟩
        rw [built.messages]
        exact settled_speaks provider settled

theorem Serving.step_call {src dst : Serving World} {i : Nat}
    (stepped : src.step platform (.call i) = some dst) :
    ∃ thread call, src.threads[i]? = some thread ∧ thread.next platform = some call ∧
      dst.backend = (perform platform src.backend call).2 := by
  obtain ⟨thread, here, stepped⟩ := Option.bind_eq_some_iff.1 stepped
  obtain ⟨call, next, stepped⟩ := Option.bind_eq_some_iff.1 stepped
  cases stepped
  exact ⟨thread, call, here, next, rfl⟩

theorem step_postsOwn (laws : lib.Lawful) {src dst : Serving World} {label : ServingLabel World}
    (stepped : src.step platform label = some dst) : PostsOwn platform ⟨src, label, dst⟩ := by
  cases label with
  | request ra =>
      cases stepped
      exact .quiet rfl
  | elapse outer =>
      cases stepped
      exact .quiet rfl
  | call i =>
      obtain ⟨thread, call, here, next, moved⟩ := Serving.step_call stepped
      have performed : dst.backend.log = (perform platform src.backend call).2.log := by rw [moved]
      cases call with
      | getProvider id => exact .quiet (performed.trans (getProvider_log id))
      | allocSubCorr => exact .quiet performed
      | send provider req =>
          have settled := nextCall_settled _ next
          obtain ⟨acts, log, own⟩ := send_posts laws src.backend provider settled
          refine ⟨acts, performed.trans log, fun other post response inside => ?_⟩
          obtain ⟨rfl, read⟩ := own other post response inside
          exact ⟨i, thread, req, rfl, here, next, settled, read⟩

variable {serving : Serving World} {trace : List (Taken (Serving World) (ServingLabel World))}

theorem Serving.keeps {Good : Backend World → Prop}
    (starts : ∀ backend : Backend World, backend.ibm = none → backend.log = [] → Good backend)
    (kept : Kept (backendOutside platform) Good)
    (elapses : ∀ (backend : Backend World) (outer : World), Good backend →
      Good { backend with outer })
    (run : Run (Serving.step platform) Serving.Start trace serving) : Good serving.backend := by
  refine run.always (fun serving => Good serving.backend)
    (fun serving start => starts _ start.1 start.2.1) fun src label dst good stepped => ?_
  cases label with
  | request ra =>
      cases stepped
      exact good
  | elapse outer =>
      cases stepped
      exact elapses _ outer good
  | call i =>
      obtain ⟨thread, call, here, next, moved⟩ := Serving.step_call stepped
      rw [moved]
      cases call with
      | getProvider id => exact kept.getProvider id _ good
      | allocSubCorr => exact kept.allocSubCorr _ good
      | send provider req =>
          exact kept.send provider req _ (nextCall_settled _ next) good

/-- However the request threads take turns, whatever one of them posts to a model is the request
it was about to send, its messages parsed back as they were built and fit to be read there. -/
theorem posted_readable (laws : lib.Lawful)
    (run : Run (Serving.step platform) Serving.Start trace serving) :
    ∀ taken ∈ trace, PostsOwn platform taken := by
  intro taken member
  obtain ⟨_, _, _, _, stepped⟩ := run.prefix_of_mem member
  exact step_postsOwn laws stepped

def twoKeys : Platform Doubles.integers Nat :=
  { okPlatform with
    getenv := fun name =>
      if name = "GEMINI_API_KEY" ∨ name = "ANTHROPIC_API_KEY" then some (ascii "k") else none }

/-- Both requests have their provider before one of them asks it, and the second asks first. -/
def turns : List (ServingLabel Nat) :=
  [.request hello, .request { hello with corrId := 2, providerId := some (ascii "anthropic") },
    .call 0, .call 1, .call 1, .call 0]

def serviceOf : Act → Option Service
  | .post service _ _ => some service
  | .time _ => none

theorem posted_readable_turns : ∃ trace serving,
    Run (Serving.step twoKeys) Serving.Start trace serving ∧
      serving.backend.log.map serviceOf = [some (.chat .anthropic), some (.chat .google)] ∧
      ∀ taken ∈ trace, PostsOwn twoKeys taken := by
  have outcome : (exec (Serving.step twoKeys) turns ⟨freshBackend, []⟩).any fun serving =>
      serving.backend.log.map serviceOf = [some (.chat .anthropic), some (.chat .google)] := by
    decide +kernel
  obtain ⟨serving, ran, posts⟩ := (Option.any_eq_true _ _).1 outcome
  have run : Run (Serving.step twoKeys) Serving.Start _ serving :=
    .of_exec ⟨rfl, rfl, rfl⟩ ran
  exact ⟨_, serving, run, of_decide_eq_true posts, posted_readable Doubles.integers_lawful run⟩

end Providers

end FreeCli

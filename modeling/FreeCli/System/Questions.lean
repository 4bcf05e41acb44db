import FreeCli.Backend.AgentSteps
import FreeCli.Backend.FirstPost
import FreeCli.System.Move
import FreeCli.System.Wire
import FreeCli.Ui.Selection

namespace FreeCli

open Words FileTree Transition

/-! A question from the screen to its provider: what a chat request says was on the screen
when it was submitted, and it is what the provider is asked. -/

namespace System

variable {priv : FsPriv} {sys dst : System} {label : Label}
  {trace : List (Taken System Label)} {msgs : List (Bool × Bytes)} {model provider : Bytes}

/-- A chat request that waits for the backend, or has a thread of it. -/
inductive Asked (sys : System) (c i : Nat) (msgs : List (Bool × Bytes)) (model provider : Bytes) :
    Prop
  | waiting (there : .reqSend c i msgs model provider ∈ sys.toBackend)
  | served (phase : ChatPhase) (member : ⟨c, i, msgs, model, provider, phase⟩ ∈ sys.chats)

/-- The request carries what was selected, and the chat of its session with a new text. -/
structure Submitted (taken : Taken System Label) (c i : Nat) (msgs : List (Bool × Bytes))
    (model provider : Bytes) : Prop where
  key : ∃ ch env, taken.label = .key ch env
  corrId : c = taken.src.tui.nextCorr
  provider : provider = taken.src.tui.selectedProvider
  model : model = taken.src.tui.selectedModel
  msgs : ∃ session text, taken.src.tui.sessions.sessions[i]? = some session ∧
    msgs = (chatAdd session.chat text true).map fun msg => (msg.isUser, msg.text)

theorem Submitted.of_sent {ch : Nat} {env : KeyEnv} {dst : System}
    (sent : .reqSend c i msgs model provider ∈ (sys.tui.mainKey ch env).2) :
    Submitted ⟨sys, .key ch env, dst⟩ c i msgs model provider := by
  have selects := Tui.mainKey_selects sys.tui ch env
  generalize (sys.tui.mainKey ch env).1 = after at selects
  generalize (sys.tui.mainKey ch env).2 = messages at selects sent
  cases selects with
  | same _ _ noChat => exact absurd sent (noChat _ _ _ _ _)
  | picked _ => contradiction
  | asked _ _ _ sends =>
      obtain ⟨k, session, -, here, -, rfl⟩ := sends
      cases List.mem_singleton.1 sent
      exact ⟨⟨ch, env, rfl⟩, rfl, rfl, rfl, session, _, here, rfl⟩

theorem Asked.from (asked : dst.Asked c i msgs model provider)
    (moved : sys.Move priv label dst) :
    sys.Asked c i msgs model provider ∨
      Submitted ⟨sys, label, dst⟩ c i msgs model provider := by
  cases moved with
  | key ch env =>
      cases asked with
      | waiting there =>
          rcases List.mem_append.1 there with before | sent
          · exact .inl (.waiting before)
          · exact .inr (.of_sent sent)
      | served phase member => exact .inl (.served phase member)
  | recv msg rest waiting =>
      left
      have waits : .reqSend c i msgs model provider ∈ rest →
          sys.Asked c i msgs model provider := fun member =>
        .waiting (waiting ▸ List.mem_cons_of_mem _ member)
      cases msg with
      | reqSend corrId sessionIdx texts named id =>
          cases asked with
          | waiting there => exact waits there
          | served phase member =>
              rcases List.mem_append.1 member with before | fresh
              · exact .served phase before
              · cases List.mem_singleton.1 fresh
                exact .waiting (waiting ▸ List.mem_cons_self)
      | _ =>
          cases asked with
          | waiting there => exact waits there
          | served phase member => exact .served phase member
  | chat k env thread next subCorrNext sent here moved =>
      left
      cases asked with
      | waiting there => exact .waiting there
      | served phase member =>
          rcases List.mem_or_eq_of_mem_set member with before | same
          · exact .served phase before
          · obtain ⟨goes, rfl⟩ : ∃ goes, next = thread.goto goes := by
              cases moved <;> exact ⟨_, rfl⟩
            cases same
            exact .served thread.phase (List.mem_of_getElem? here)
  | _ =>
      left
      cases asked with
      | waiting there => exact .waiting there
      | served phase member => exact .served phase member

structure StartSelected (priv : FsPriv) (sys : System) : Prop where
  start : Start priv sys
  provider : sys.tui.selectedProvider = ascii "xai"
  model : sys.tui.selectedModel = ascii "grok-3-fast"

theorem offered_move (moved : sys.Move priv label dst)
    (offered : Offered sys.tui.selectedProvider sys.tui.selectedModel) :
    Offered dst.tui.selectedProvider dst.tui.selectedModel := by
  cases moved with
  | key ch env => exact (Tui.mainKey_selects sys.tui ch env).offered offered
  | poll beyond choices msg rest waiting open_ =>
      obtain ⟨provider, model⟩ := Tui.checkIpc_selection sys.tui msg beyond choices
      simp only
      rwa [provider, model]
  | recv msg rest waiting => cases msg <;> exact offered
  | _ => exact offered

/-- Every request was submitted by a key, with a pair of the registry. -/
def Chosen (trace : List (Taken System Label)) (sys : System) : Prop :=
  Offered sys.tui.selectedProvider sys.tui.selectedModel ∧
    ∀ c i msgs model provider, sys.Asked c i msgs model provider →
      Offered provider model ∧
        ∃ taken ∈ trace, Submitted taken c i msgs model provider

theorem Chosen.start (started : StartSelected priv sys) : Chosen [] sys := by
  refine ⟨?_, fun c i msgs model provider asked => ?_⟩
  · rw [started.provider, started.model]
    decide +kernel
  · cases asked with
    | waiting there =>
        rw [started.start.toBackend] at there
        contradiction
    | served phase member =>
        rw [started.start.chats] at member
        contradiction

theorem Chosen.move (chosen : Chosen trace sys) (moved : sys.Move priv label dst) :
    Chosen (trace ++ [⟨sys, label, dst⟩]) dst := by
  obtain ⟨offered, requests⟩ := chosen
  refine ⟨offered_move moved offered, fun c i msgs model provider asked => ?_⟩
  rcases asked.from moved with before | submitted
  · obtain ⟨pair, taken, member, submitted⟩ := requests c i msgs model provider before
    exact ⟨pair, taken, List.mem_append_left _ member, submitted⟩
  · refine ⟨?_, _, List.mem_append_right _ (List.mem_singleton_self _), submitted⟩
    rw [submitted.provider, submitted.model]
    exact offered

theorem run_chosen (run : Run (System.step priv) (StartSelected priv) trace sys) :
    Chosen trace sys :=
  run.invariant_trace (fun _ => True) Chosen (fun _ started => .start started)
    (fun _ _ _ _ _ _ chosen stepped _ => chosen.move (step_move stepped))
    (fun _ _ => trivial)

/-- Whatever is pressed and received, a request goes to the provider and the model that were
selected when it was submitted, and both processes mean the same provider by it. -/
theorem requests_as_selected
    (run : Run (System.step priv) (StartSelected priv) trace sys)
    (asked : sys.Asked c i msgs model provider) :
    (∃ info ∈ providers, info.id = provider ∧ model ∈ info.models) ∧
      (Providers.providerNamed (some provider)).id = provider ∧
      Agent.subProviderId model = provider ∧
      ∃ taken ∈ trace, Submitted taken c i msgs model provider := by
  obtain ⟨offered, submitted⟩ := (run_chosen run).2 c i msgs model provider asked
  obtain ⟨named, sub, -, -⟩ := offered.named
  exact ⟨offered, named, sub, submitted⟩

def asksAnthropic : List Label :=
  [.key Tui.newline
      { buffer := ascii "/provider", submitted := true, picked := 1, argsJson := [] },
    line "hi", .recv]

theorem requests_as_selected_anthropic : ∃ trace sys,
    Run (System.step sandboxPriv) (StartSelected sandboxPriv) trace sys ∧
      ((∃ info ∈ providers, info.id = ascii "anthropic" ∧
          ascii "claude-opus-4-5" ∈ info.models) ∧
        (Providers.providerNamed (some (ascii "anthropic"))).id = ascii "anthropic" ∧
        Agent.subProviderId (ascii "claude-opus-4-5") = ascii "anthropic" ∧
        ∃ taken ∈ trace, Submitted taken 1 0
          [(false, ascii "Provider: Anthropic (Claude)  Model: claude-opus-4-5"),
            (true, ascii "hi")] (ascii "claude-opus-4-5") (ascii "anthropic")) := by
  have reaches : (exec (System.step sandboxPriv) asksAnthropic (fresh emptySandbox)).any
      fun sys => sys.chats = [⟨1, 0,
        [(false, ascii "Provider: Anthropic (Claude)  Model: claude-opus-4-5"),
          (true, ascii "hi")], ascii "claude-opus-4-5", ascii "anthropic", .start⟩] := by
    decide +kernel
  obtain ⟨sys, ran, chats⟩ := (Option.any_eq_true _ _).1 reaches
  have served := of_decide_eq_true chats
  have started : StartSelected sandboxPriv (fresh emptySandbox) :=
    ⟨fresh_start emptySandbox_plain, rfl, rfl⟩
  have run := Run.of_exec started ran
  refine ⟨_, sys, run, requests_as_selected run (.served .start ?_)⟩
  rw [served]
  exact List.mem_singleton_self _

/-! ### At the provider -/

/-- What `main` of the backend hands to `handle_request`. -/
def requestArg : ToBackend → Option RequestArg
  | .reqSend corrId sessionIdx msgs model provider =>
      some {
        corrId, sessionIdx
        msgs := msgs.map fun msg => (if msg.1 then 1 else 0, msg.2)
        model := some model, providerId := some provider }
  | _ => none

theorem requestMsgs_flags (msgs : List (Bool × Bytes)) :
    (msgs.map fun msg => ((if msg.1 then 1 else 0 : UInt8), msg.2)).map
        (fun msg => (decide (msg.1 ≠ 0), msg.2)) = msgs := by
  rw [List.map_map]
  conv_rhs => rw [← List.map_id msgs]
  apply List.map_congr_left
  rintro ⟨isUser, said⟩ -
  cases isUser <;> rfl

/-- The thread that the system starts for a request is that of `handle_request`. -/
theorem handle_requestArg {msg : ToBackend} {ra : RequestArg} (taken : requestArg msg = some ra) :
    (sys.handle msg).chats = sys.chats ++ [Agent.threadOf ra] := by
  cases msg with
  | reqSend corrId sessionIdx msgs model provider =>
      obtain rfl := Option.some.inj taken
      rw [handle, Agent.threadOf]
      simp only [requestMsgs_flags, Option.getD_some]
  | _ => contradiction

/-- Of the frame of a request, the backend makes the request. -/
def backendRequest (msg : IpcMsg) : Option RequestArg := (backendReceive msg).join.bind requestArg

section

open Providers

variable {lib : Doubles} {World : Type}

/-- The provider is asked for the model, in these words. -/
structure PutsQuestion (lib : Doubles) (msgs : List (Bool × Bytes)) (model provider : Bytes)
    (chat : ProviderId × Post) : Prop where
  named : chat.1.id = provider
  body : ∃ root, JsonParse.parse lib (CString.of chat.2.body) = .ok root ∧
    NamesModel chat.1 chat.2 root model ∧
    (messages chat.1 root).map (said chat.1) =
      (if provider = ascii "xai" then [(some (ascii "system"), some (terminated sysprompt))]
        else []) ++
        msgs.map fun msg => (some (speaker chat.1 msg.1), some msg.2)

/-- A question that waits or is answered was put to the screen as it is, and what the backend
makes of its frame asks the provider selected for the model selected, in the words of the
session, before anything else is said to a model. -/
theorem question_asked (laws : lib.Lawful) (platform : Platform lib World)
    (backend : Backend World) (run : Run (System.step priv) (StartSelected priv) trace sys)
    (asked : sys.Asked c i msgs model provider)
    (sendable : (ToBackend.reqSend c i msgs model provider).Sendable) :
    (∃ taken ∈ trace, Submitted taken c i msgs model provider) ∧
      ∃ ra, backendRequest (ToBackend.reqSend c i msgs model provider).wire = some ra ∧
      ∃ acts, (Agent.handleRequest (backendOutside platform) ra backend).world.log =
          backend.log ++ acts ∧
        ∀ chat ∈ firstChat acts, PutsQuestion lib msgs model provider chat := by
  obtain ⟨offered, submitted⟩ := (run_chosen run).2 c i msgs model provider asked
  obtain ⟨named, -, nonempty, plain⟩ := offered.named
  refine ⟨submitted, ?_⟩
  have received : backendRequest (ToBackend.reqSend c i msgs model provider).wire =
      requestArg (.reqSend c i msgs model provider) := by
    rw [backendRequest, (backendReceive_wire sendable).1]
    rfl
  obtain ⟨-, -, texts, -⟩ := sendable
  rw [received]
  refine ⟨_, rfl, ?_⟩
  obtain ⟨acts, log, opens⟩ := handleRequest_opens platform backend laws
    ⟨c, i, msgs.map fun msg => (if msg.1 then 1 else 0, msg.2), some model, some provider⟩
    rfl nonempty plain
  refine ⟨acts, log, fun chat member => ?_⟩
  obtain ⟨same, root, parsed, model_, spoken⟩ := opens chat member
  simp only at same spoken
  refine ⟨by rw [same, named], root, parsed, model_, ?_⟩
  have system : (chat.1 = .xai ∧ Agent.supportsTools
      ⟨c, i, msgs.map fun msg => (if msg.1 then 1 else 0, msg.2), some model, some provider⟩ =
        true) ↔ provider = ascii "xai" := by
    rw [same]
    constructor
    · rintro ⟨is, -⟩
      rw [is] at named
      exact named.symm
    · rintro rfl
      exact ⟨by decide, by simp [Agent.supportsTools]⟩
  rw [spoken]
  simp only [system, List.map_map]
  congr 1
  apply List.map_congr_left
  intro msg inside
  have text : terminated msg.2 = msg.2 := terminated_of_nulFree (texts msg inside)
  obtain ⟨isUser, words⟩ := msg
  simp only [Function.comp_apply] at text ⊢
  rw [text]
  cases isUser <;> rfl

end

def asksGoogle : List Label :=
  [.key Tui.newline
      { buffer := ascii "/provider", submitted := true, picked := 2, argsJson := [] },
    line "hi", .recv]

def googleChat : List (Bool × Bytes) :=
  [(false, ascii "Provider: Google (Gemini)  Model: gemini-2.5-flash"), (true, ascii "hi")]

theorem question_asked_google : ∃ trace sys,
    Run (System.step sandboxPriv) (StartSelected sandboxPriv) trace sys ∧
      (∃ taken ∈ trace, Submitted taken 1 0 googleChat (ascii "gemini-2.5-flash")
        (ascii "google")) ∧
      ∃ ra, backendRequest (ToBackend.reqSend 1 0 googleChat (ascii "gemini-2.5-flash")
          (ascii "google")).wire = some ra ∧
      ∃ acts, (Agent.handleRequest (Providers.backendOutside Providers.okPlatform) ra
          Providers.freshBackend).world.log = Providers.freshBackend.log ++ acts ∧
        ∀ chat ∈ Providers.firstChat acts, PutsQuestion Doubles.integers googleChat
          (ascii "gemini-2.5-flash") (ascii "google") chat := by
  have reaches : (exec (System.step sandboxPriv) asksGoogle (fresh emptySandbox)).any
      fun sys => sys.chats =
        [⟨1, 0, googleChat, ascii "gemini-2.5-flash", ascii "google", .start⟩] := by
    decide +kernel
  obtain ⟨sys, ran, chats⟩ := (Option.any_eq_true _ _).1 reaches
  have served := of_decide_eq_true chats
  have started : StartSelected sandboxPriv (fresh emptySandbox) :=
    ⟨fresh_start emptySandbox_plain, rfl, rfl⟩
  have run := Run.of_exec started ran
  refine ⟨_, sys, run, question_asked Doubles.integers_lawful Providers.okPlatform
    Providers.freshBackend run (.served .start ?_) ?_⟩
  · rw [served]
    exact List.mem_singleton_self _
  · simp [ToBackend.Sendable, googleChat]
    decide

end System

end FreeCli

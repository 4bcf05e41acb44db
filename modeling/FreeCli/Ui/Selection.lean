import FreeCli.Backend.Agent
import FreeCli.Backend.Providers
import FreeCli.Ui.Submitting

namespace FreeCli

open Words

/-! The provider and the model selected are a pair of the registry. -/

/-- A provider of the registry, and one of its models. -/
def Offered (providerId model : Bytes) : Prop :=
  ∃ info ∈ providers, info.id = providerId ∧ model ∈ info.models

instance (providerId model : Bytes) : Decidable (Offered providerId model) :=
  inferInstanceAs (Decidable (∃ info ∈ providers, _))

/-! ### The registry -/

/-- `id` of the entry of `backend_providers` -/
def Providers.ProviderId.id : Providers.ProviderId → Bytes
  | .xai => ascii "xai"
  | .anthropic => ascii "anthropic"
  | .google => ascii "google"
  | .ibm => ascii "ibm"

/-- The ids and the models fit their buffers, the ids differ, and both processes know a
provider by its id and by its models. -/
theorem registry :
    ∀ info ∈ providers, providerRegistryFind info.id = some info ∧ info.models ≠ [] ∧
      info.id ≠ [] ∧ info.id.take 31 = info.id ∧
      (Providers.providerNamed (some info.id)).id = info.id ∧
      ∀ model ∈ info.models, model ≠ [] ∧ model.take 63 = model ∧ 0 ∉ model ∧
        Agent.subProviderId model = info.id := by
  decide +kernel

theorem Offered.named (offered : Offered providerId model) :
    (Providers.providerNamed (some providerId)).id = providerId ∧
      Agent.subProviderId model = providerId ∧ model ≠ [] ∧ 0 ∉ model := by
  obtain ⟨info, listed, rfl, member⟩ := offered
  obtain ⟨-, -, -, -, named, models⟩ := registry info listed
  obtain ⟨nonempty, -, plain, sub⟩ := models model member
  exact ⟨named, sub, nonempty, plain⟩

namespace Tui

variable {tui : Tui}

/-- The selection is kept or stays in the registry, and a chat request carries it. -/
inductive Selects (tui after : Tui) : List ToBackend → Prop
  | same (provider : after.selectedProvider = tui.selectedProvider)
      (model : after.selectedModel = tui.selectedModel)
      (noChat : ∀ c i msgs model provider, .reqSend c i msgs model provider ∉ sent) :
      Selects tui after sent
  | picked (offered : Offered tui.selectedProvider tui.selectedModel →
      Offered after.selectedProvider after.selectedModel) : Selects tui after []
  | asked (text : Bytes) (provider : after.selectedProvider = tui.selectedProvider)
      (model : after.selectedModel = tui.selectedModel)
      (sends : tui.SendsChat after sent text) : Selects tui after sent

theorem Selects.silent {after : Tui} (provider : after.selectedProvider = tui.selectedProvider)
    (model : after.selectedModel = tui.selectedModel) : tui.Selects after [] :=
  .same provider model (by simp)

theorem Selects.refl (tui : Tui) : tui.Selects tui [] := .silent rfl rfl

theorem Selects.offered {after : Tui} (selects : tui.Selects after sent)
    (offered : Offered tui.selectedProvider tui.selectedModel) :
    Offered after.selectedProvider after.selectedModel := by
  cases selects with
  | same provider model _ => rwa [provider, model]
  | picked kept => exact kept offered
  | asked text provider model _ => rwa [provider, model]

theorem selection_systemMsg (tui : Tui) (text : Bytes) :
    (tui.systemMsg text).selectedProvider = tui.selectedProvider ∧
      (tui.systemMsg text).selectedModel = tui.selectedModel := by
  rw [systemMsg]
  split <;> exact ⟨rfl, rfl⟩

theorem systemMsg_selects (tui : Tui) (text : Bytes) : tui.Selects (tui.systemMsg text) [] :=
  .silent (selection_systemMsg tui text).1 (selection_systemMsg tui text).2

theorem openSession_selects (tui : Tui) (name : Bytes) :
    tui.Selects (tui.openSession name) [] := by
  rw [openSession]
  split <;> exact .silent rfl rfl

theorem doDeleteSession_selects (tui : Tui) (idx : Int) :
    tui.Selects (tui.doDeleteSession idx) [] := by
  rw [doDeleteSession]
  split <;> exact .silent rfl rfl

theorem cmdClear_selects (tui : Tui) : tui.Selects tui.cmdClear [] := by
  rw [cmdClear]
  split <;> exact .silent rfl rfl

theorem cmdRename_selects (tui : Tui) (input : Bytes) :
    tui.Selects (tui.cmdRename input) [] := by
  rw [cmdRename]
  split <;> exact .silent rfl rfl

theorem cmdProvider_selects (tui : Tui) (picked : Int) :
    tui.Selects (tui.cmdProvider picked) [] := by
  rw [cmdProvider]
  split
  next info found =>
    refine .picked fun _ => ?_
    have listed : info ∈ providers := by
      split at found
      · contradiction
      · exact List.mem_of_getElem? found
    obtain ⟨-, models, named, fits, -, each⟩ := registry info listed
    obtain ⟨model, rest, split⟩ := List.exists_cons_of_ne_nil models
    have first : model ∈ info.models := split ▸ List.mem_cons_self
    obtain ⟨nonempty, modelFits, -, -⟩ := each model first
    obtain ⟨provider, model_⟩ := selection_systemMsg
      ((tui.doSetProvider info.id).doSetModel (info.models.headD []))
      ((ascii "Provider: " ++ info.displayName ++ ascii "  Model: " ++
        info.models.headD []).take 127)
    simp only at provider model_ ⊢
    rw [provider, model_, doSetProvider, if_pos named, split, List.headD_cons, doSetModel,
      if_pos nonempty]
    exact ⟨info, listed, fits.symm, by rwa [modelFits]⟩
  next => exact .refl tui

theorem cmdModel_selects (tui : Tui) (picked : Int) : tui.Selects (tui.cmdModel picked) [] := by
  rw [cmdModel]
  split
  next model found =>
    apply Selects.picked
    rintro ⟨info, listed, same, -⟩
    obtain ⟨find, -, -, -, -, each⟩ := registry info listed
    rw [← same, find, Option.getD_some] at found
    have member : model ∈ info.models := by
      split at found
      · contradiction
      · exact List.mem_of_getElem? found
    obtain ⟨nonempty, fits, -, -⟩ := each model member
    obtain ⟨provider, model_⟩ := selection_systemMsg (tui.doSetModel model)
      ((ascii "Model set to: " ++ model).take 127)
    rw [provider, model_, doSetModel, if_pos nonempty]
    exact ⟨info, listed, same, by rwa [fits]⟩
  next => exact .refl tui

theorem cmdFs_selects (tui : Tui) (input : Bytes) (env : KeyEnv) :
    tui.Selects (tui.cmdFs input env).1 (tui.cmdFs input env).2 := by
  rw [cmdFs]
  simp only
  split
  next => exact systemMsg_selects tui _
  next =>
    split
    next => exact systemMsg_selects tui _
    next op _ =>
      rw [doSendWorkerReq]
      split
      all_goals
        split
        all_goals
          obtain ⟨provider, model⟩ := selection_systemMsg _ _
          exact .same provider model (by simp)

theorem cmdDispatch_selects (tui : Tui) (input : Bytes) (env : KeyEnv) :
    tui.Selects (tui.cmdDispatch input env).1 (tui.cmdDispatch input env).2 := by
  rw [cmdDispatch]
  split
  · exact systemMsg_selects _ _
  split
  · exact doDeleteSession_selects _ _
  split
  · exact cmdClear_selects _
  split
  · exact openSession_selects _ _
  split
  · exact cmdRename_selects _ _
  split
  · exact cmdProvider_selects _ _
  split
  · exact cmdModel_selects _ _
  split
  · exact cmdFs_selects _ _ _
  · exact systemMsg_selects _ _

theorem submitChat_selects (tui : Tui) (text : Bytes) :
    tui.Selects (tui.submitChat text).1 (tui.submitChat text).2 := by
  cases active : tui.sessions.activeIndex with
  | none =>
      rw [submitChat, active]
      exact .refl tui
  | some k =>
      have sends := submitChat_sends active text
      refine .asked text ?_ ?_ sends
      all_goals
        rw [submitChat, active]

theorem submitText_selects (tui : Tui) (text : Bytes) :
    tui.Selects (tui.submitText text).1 (tui.submitText text).2 := by
  rw [submitText]
  split
  · exact .refl tui
  split
  · exact .refl tui
  split
  · exact .refl tui
  split
  · exact .refl tui
  · exact submitChat_selects tui text

theorem Selects.of_base {base after : Tui} (selects : base.Selects after sent)
    (provider : base.selectedProvider = tui.selectedProvider)
    (model : base.selectedModel = tui.selectedModel) (corr : base.nextCorr = tui.nextCorr)
    (sessions : base.sessions.sessions = tui.sessions.sessions) :
    tui.Selects after sent := by
  cases selects with
  | same sameProvider sameModel noChat =>
      exact .same (sameProvider.trans provider) (sameModel.trans model) noChat
  | picked kept =>
      rw [provider, model] at kept
      exact .picked kept
  | asked text sameProvider sameModel sends =>
      rw [SendsChat, corr, sessions, provider, model] at sends
      exact .asked text (sameProvider.trans provider) (sameModel.trans model) sends

theorem acceptChoice_selects (tui : Tui) (idx : Int) :
    tui.Selects (tui.acceptChoice idx).1 (tui.acceptChoice idx).2 := by
  rw [acceptChoice]
  split
  next => exact .refl tui
  next pending _ =>
    split
    · exact .refl tui
    split
    · exact .refl tui
    · exact .of_base (submitText_selects _ _) rfl rfl rfl rfl

theorem submitMessage_selects (tui : Tui) (env : KeyEnv) :
    tui.Selects (tui.submitMessage env).1 (tui.submitMessage env).2 := by
  rw [submitMessage]
  split
  · exact .refl tui
  split
  · exact .of_base (cmdDispatch_selects _ _ env) rfl rfl rfl rfl
  · simp only
    split
    · exact .silent rfl rfl
    split
    · exact .silent rfl rfl
    · exact .of_base (submitChat_selects _ _) rfl rfl rfl rfl

theorem sidebarKey_selects (tui : Tui) (ch : Nat) : tui.Selects (tui.sidebarKey ch) [] := by
  rw [sidebarKey]
  split
  · exact openSession_selects _ _
  split
  · exact .silent rfl rfl
  split
  · exact doDeleteSession_selects _ _
  split
  · exact .silent rfl rfl
  split
  · exact .silent rfl rfl
  split <;> exact .silent rfl rfl

theorem choiceKey_selects {result : Tui × List ToBackend}
    (picked : tui.choiceKey ch = some result) : tui.Selects result.1 result.2 := by
  rcases choiceKey_cases picked with ⟨idx, rfl⟩ | ⟨pending, selected, -, rfl⟩
  · exact acceptChoice_selects tui idx
  · exact .silent rfl rfl

theorem answerApproval_selects (tui : Tui) (ch : Nat) :
    tui.Selects (tui.answerApproval ch).1 (tui.answerApproval ch).2 := by
  rw [answerApproval]
  refine Selects.same rfl rfl fun c i msgs model provider member => ?_
  split at member
  · cases List.mem_singleton.1 member
  · contradiction

theorem mainKey_selects (tui : Tui) (ch : Nat) (env : KeyEnv) :
    tui.Selects (tui.mainKey ch env).1 (tui.mainKey ch env).2 := by
  rw [mainKey]
  split
  · exact .refl tui
  split
  · exact answerApproval_selects tui ch
  split
  · exact sidebarKey_selects tui ch
  rw [inputKey]
  split
  · exact .silent rfl rfl
  split
  next result picked => exact choiceKey_selects picked
  next =>
    split
    · exact .refl tui
    · simp only
      split
      · exact .of_base (submitMessage_selects _ env) rfl rfl rfl rfl
      · exact .silent rfl rfl

theorem offerChoices_selection (tui : Tui) (sidx : Int) (choices : List Bytes) :
    (tui.offerChoices sidx choices).selectedProvider = tui.selectedProvider ∧
      (tui.offerChoices sidx choices).selectedModel = tui.selectedModel := by
  rw [offerChoices]
  split <;> exact ⟨rfl, rfl⟩

theorem checkIpc_selection (tui : Tui) (msg : ToTui) (beyond : Bytes) (choices : List Bytes) :
    (tui.checkIpc msg beyond choices).selectedProvider = tui.selectedProvider ∧
      (tui.checkIpc msg beyond choices).selectedModel = tui.selectedModel := by
  cases msg with
  | repFinal corrId sessionIdx content reasoning =>
      let sidx : Int :=
        if (inflightRemove tui.inFlight corrId).1 ≥ 0 then (inflightRemove tui.inFlight corrId).1
        else sessionIdx
      rw [checkIpc, repFinal]
      simp only
      split
      · exact ⟨rfl, rfl⟩
      · exact offerChoices_selection _ sidx choices
  | repError corrId text =>
      rw [checkIpc, repError]
      simp only
      split <;> exact ⟨rfl, rfl⟩
  | workerStart corrId parentCorrId model description => exact ⟨rfl, rfl⟩
  | workerEnd corrId => exact ⟨rfl, rfl⟩
  | workerRep corrId success result =>
      rw [checkIpc, workerRep]
      split
      · exact ⟨rfl, rfl⟩
      · exact selection_systemMsg tui _
  | approvalReq corrId reqCorrId description => exact ⟨rfl, rfl⟩
  | sessionRename corrId sessionIdx topic =>
      rw [checkIpc, sessionRename]
      split <;> exact ⟨rfl, rfl⟩

end Tui

end FreeCli

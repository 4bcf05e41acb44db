import FreeCli.Ui.Input
import FreeCli.Ui.KeyOutcome

namespace FreeCli

open Words

/-! What submitting a text does, and what is lost when it is refused. -/

/-- The ways to submit: Enter in the input line, or an option picked. -/
inductive Submission where
  | enter (env : KeyEnv)
  | pick (idx : Int)

namespace Submission

def run (tui : Tui) : Submission → Tui × List ToBackend
  | .enter env => tui.submitMessage env
  | .pick idx => tui.acceptChoice idx

def text (tui : Tui) : Submission → Bytes
  | .enter _ => tui.inputLine
  | .pick idx => (tui.pendingChoices.bind fun pending => pending.choices[idx.toNat]?).getD []

/-- There is a line or an option to submit, but no connection, or a request of the
session is still under way. -/
def Refused (tui : Tui) : Submission → Prop
  | .enter _ => tui.sessions.activeIndex ≠ none ∧ tui.inputLine ≠ [] ∧
      (tui.ipcOpen = false ∨ inflightSessionActive tui.inFlight tui.sessions.active = true)
  | .pick idx => ∃ pending, tui.pendingChoices = some pending ∧
      (0 ≤ idx ∧ idx < pending.choices.length) ∧
      (0 ≤ pending.sessionIdx ∧ pending.sessionIdx < tui.sessions.smCount) ∧
      (pending.choices[idx.toNat]? = some [] ∨ tui.ipcOpen = false ∨
        inflightSessionActive tui.inFlight pending.sessionIdx = true)

end Submission

namespace Tui

/-- The text and a placeholder are in the active chat, and the chat before the
placeholder is on its way. -/
def SendsChat (tui after : Tui) (sent : List ToBackend) (text : Bytes) : Prop :=
  ∃ k session, after.sessions.activeIndex = some k ∧
    tui.sessions.sessions[k]? = some session ∧
    after.sessions.sessions = tui.sessions.sessions.modify k (fun session => { session with
      chat := chatAddPlaceholder (chatAdd session.chat text true) tui.nextCorr }) ∧
    sent = [.reqSend tui.nextCorr k
      ((chatAdd session.chat text true).map fun msg => (msg.isUser, msg.text))
      tui.selectedModel tui.selectedProvider]

structure LosesNothing (tui after : Tui) (sent : List ToBackend) : Prop where
  chats : after.sessions.sessions = tui.sessions.sessions
  inputLine : after.inputLine = tui.inputLine
  pendingChoices : after.pendingChoices = tui.pendingChoices
  silent : sent = []

variable {tui : Tui} {text : Bytes}

theorem LosesNothing.refl (tui : Tui) : tui.LosesNothing tui [] := ⟨rfl, rfl, rfl, rfl⟩

theorem submitChat_sends {k : Nat} (active : tui.sessions.activeIndex = some k) (text : Bytes) :
    tui.SendsChat (tui.submitChat text).1 (tui.submitChat text).2 text := by
  have inside := SessionManager.activeIndex_lt active
  have here : tui.sessions.sessions[k]? = some tui.sessions.sessions[k] :=
    List.getElem?_eq_getElem inside
  have same : tui.sessions.active = k := (activeIndex_eq_some active).2
  have chat : tui.sessions.smActiveChat = some tui.sessions.sessions[k].chat := by
    rw [SessionManager.smActiveChat, SessionManager.smActiveSession, active, Option.bind_some,
      here, Option.map_some]
  refine ⟨k, tui.sessions.sessions[k], ?_, here, ?_, ?_⟩
  · rw [submitChat, active]
    simp only
    rw [SessionManager.activeIndex, SessionManager.smCount_setChat, SessionManager.active_setChat]
    exact active
  · rw [submitChat, active]
    rfl
  · rw [submitChat, active]
    simp only [chat, Option.getD_some, same, Int.toNat_natCast]

theorem not_whole_of_lost {after : Tui}
    (lost : after.inputLine ≠ tui.inputLine ∨ after.pendingChoices ≠ tui.pendingChoices) :
    ¬ (tui.SendsChat after [] text ∨ tui.LosesNothing after []) := by
  rintro (⟨k, session, -, -, -, sent⟩ | kept)
  · cases sent
  · rcases lost with line | choices
    · exact line kept.inputLine
    · exact choices kept.pendingChoices

theorem submitMessage_whole_iff (env : KeyEnv) (sized : tui.inputLine.length < inputMax)
    (plain : tui.inputLine.head? ≠ some 47) :
    (tui.SendsChat (tui.submitMessage env).1 (tui.submitMessage env).2 tui.inputLine ∨
        tui.LosesNothing (tui.submitMessage env).1 (tui.submitMessage env).2) ↔
      ¬ (Submission.enter env).Refused tui := by
  rw [submitMessage, if_neg plain]
  split
  next nothing =>
    refine ⟨fun _ refused => ?_, fun _ => .inr (.refl tui)⟩
    exact nothing.elim refused.1 refused.2.1
  next something =>
    rw [not_or] at something
    have whole : tui.inputLine.take 1023 = tui.inputLine :=
      List.take_of_length_le (Nat.le_of_lt_succ sized)
    rw [whole]
    simp only
    have lost : ([] : Bytes) ≠ tui.inputLine := Ne.symm something.2
    split
    next closed =>
      have closed : tui.ipcOpen = false := by simpa using closed
      exact iff_of_false (not_whole_of_lost (.inl lost))
        (not_not.2 ⟨something.1, something.2, .inl closed⟩)
    next opened =>
      split
      next busy =>
        exact iff_of_false (not_whole_of_lost (.inl lost))
          (not_not.2 ⟨something.1, something.2, .inr busy⟩)
      next free =>
        obtain ⟨k, active⟩ := Option.ne_none_iff_exists'.1 something.1
        let cleared : Tui := { tui with pendingChoices := none, inputLine := [] }
        have same : cleared.sessions.activeIndex = some k := active
        refine iff_of_true (.inl (submitChat_sends same tui.inputLine)) fun refused => ?_
        · exact refused.2.2.elim (fun closed => opened (by simp [closed])) free

theorem acceptChoice_whole_iff (idx : Int) :
    (tui.SendsChat (tui.acceptChoice idx).1 (tui.acceptChoice idx).2
          ((Submission.pick idx).text tui) ∨
        tui.LosesNothing (tui.acceptChoice idx).1 (tui.acceptChoice idx).2) ↔
      ¬ (Submission.pick idx).Refused tui := by
  rw [acceptChoice, Submission.text, Submission.Refused]
  cases pends : tui.pendingChoices with
  | none =>
      refine ⟨fun _ => ?_, fun _ => .inr (.refl tui)⟩
      rintro ⟨pending, same, -⟩
      cases same
  | some pending =>
      simp only [Option.bind_some, Option.some.injEq, exists_eq_left']
      split
      next outside => exact iff_of_true (.inr (.refl tui)) fun refused => by omega
      next offered =>
        split
        next gone => exact iff_of_true (.inr (.refl tui)) fun refused => by omega
        next there =>
          have inside : idx.toNat < pending.choices.length := by omega
          have here := List.getElem?_eq_getElem inside
          rw [List.getD_eq_getElem?_getD, here, Option.getD_some]
          have bounds : (0 ≤ idx ∧ idx < pending.choices.length) ∧
              (0 ≤ pending.sessionIdx ∧ pending.sessionIdx < tui.sessions.smCount) := by omega
          have active : { tui.sessions with active := pending.sessionIdx : SessionManager
              }.activeIndex = some pending.sessionIdx.toNat := if_neg there
          have lost : (none : Option PendingChoices) ≠ tui.pendingChoices := by
            rw [pends]
            exact (Option.some_ne_none pending).symm
          rw [submitText]
          split
          next empty =>
            exact iff_of_false (not_whole_of_lost (.inr lost))
              (not_not.2 ⟨bounds.1, bounds.2, .inl (by rw [empty])⟩)
          next filled =>
            simp only [active, reduceCtorEq, if_false]
            split
            next closed =>
              have closed : tui.ipcOpen = false := by simpa using closed
              exact iff_of_false (not_whole_of_lost (.inr lost))
                (not_not.2 ⟨bounds.1, bounds.2, .inr (.inl closed)⟩)
            next opened =>
              split
              next busy =>
                exact iff_of_false (not_whole_of_lost (.inr lost))
                  (not_not.2 ⟨bounds.1, bounds.2, .inr (.inr busy)⟩)
              next free =>
                let chosen : Tui := { tui with
                  pendingChoices := none
                  sessions := { tui.sessions with active := pending.sessionIdx } }
                have same : chosen.sessions.activeIndex = some pending.sessionIdx.toNat := active
                refine iff_of_true (.inl (submitChat_sends same _)) fun refused => ?_
                · rcases refused.2.2 with empty | closed | busy
                  · exact filled (Option.some.inj empty)
                  · exact opened (by simp [closed])
                  · exact free busy

end Tui

/-- Submitting a text that is no command sends it or loses nothing, exactly if it is not
refused after the line or the options are gone. -/
theorem submission_whole_iff (tui : Tui) (way : Submission)
    (sized : tui.inputLine.length < inputMax)
    (plain : ∀ env, way = .enter env → tui.inputLine.head? ≠ some 47) :
    (tui.SendsChat (way.run tui).1 (way.run tui).2 (way.text tui) ∨
        tui.LosesNothing (way.run tui).1 (way.run tui).2) ↔
      ¬ way.Refused tui := by
  cases way with
  | enter env => exact tui.submitMessage_whole_iff env sized (plain env rfl)
  | pick idx => exact tui.acceptChoice_whole_iff idx

def typedHi : Tui := { Tui.fresh with inputLine := ascii "hi" }

theorem submission_whole_typedHi :
    (typedHi.SendsChat (typedHi.submitMessage ⟨[], true, -1, []⟩).1
          (typedHi.submitMessage ⟨[], true, -1, []⟩).2 (ascii "hi") ∨
        typedHi.LosesNothing (typedHi.submitMessage ⟨[], true, -1, []⟩).1
          (typedHi.submitMessage ⟨[], true, -1, []⟩).2) ↔
      ¬ (Submission.enter ⟨[], true, -1, []⟩).Refused typedHi :=
  submission_whole_iff typedHi (.enter ⟨[], true, -1, []⟩) (by decide) fun _ _ => by decide

def unconnectedHi : Tui :=
  { Tui.fresh with
    inputLine := ascii "hi"
    pendingChoices := some ⟨0, [ascii "yes", ascii "no"], 0⟩
    ipcOpen := false }

/-- Neither is the text sent nor is everything kept. -/
def Submission.Loses (way : Submission) (tui : Tui) : Prop :=
  ¬ (tui.SendsChat (way.run tui).1 (way.run tui).2 (way.text tui) ∨
    tui.LosesNothing (way.run tui).1 (way.run tui).2)

theorem unconnected_loses :
    (Submission.enter ⟨[], true, -1, []⟩).Loses unconnectedHi ∧
      (Submission.pick 0).Loses unconnectedHi := by
  have lost : (none : Option PendingChoices) ≠ unconnectedHi.pendingChoices := nofun
  exact ⟨Tui.not_whole_of_lost (.inr lost), Tui.not_whole_of_lost (.inr lost)⟩

end FreeCli

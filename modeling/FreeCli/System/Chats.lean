import FreeCli.System.Outstanding

namespace FreeCli

open Words FileTree Slots Transition Lists

/-! What a step of the system does to the sessions and their chats. -/

theorem reply_placeholder {msg : ToTui} (found : msg.reply beyond = some (c, reply)) :
    reply.placeholder = none := by
  cases msg with
  | repFinal | repError =>
      cases found
      rfl
  | _ => contradiction

theorem reply_replies {msg : ToTui} (found : msg.reply beyond = some (c, reply)) :
    msg.replies = some c := by
  cases msg with
  | repFinal | repError =>
      cases found
      rfl
  | _ => contradiction

namespace System

variable {priv : FsPriv} {sys dst : System} {label : Label} {c : Nat}
  {trace : List (Taken System Label)}

/-- The request a step processes a reply to, and what the chat shows for it. -/
def replyTo (taken : Taken System Label) : Option (Nat × Message) :=
  match taken.label with
  | .poll beyond _ => (received taken).bind (ToTui.reply beyond)
  | _ => none

theorem replyTo_replies (taken : Taken System Label) :
    (received taken).bind ToTui.replies = (replyTo taken).map Prod.fst := by
  rw [replyTo]
  split
  next =>
    cases received taken with
    | none => rfl
    | some msg => cases msg <;> rfl
  next other =>
    rw [received]
    split
    next step => exact absurd step (other _ _)
    next => rfl

theorem Move.sessions (moved : sys.Move priv label dst)
    (positive : 0 < sys.tui.nextCorr) :
    (SessionEdit sys.tui.sessions.sessions dst.tui.sessions.sessions ∧
        replyTo ⟨sys, label, dst⟩ = none) ∨
      (∃ ch env active text, label = .key ch env ∧
        sys.tui.Submits dst.tui (sys.tui.mainKey ch env).2 active text) ∨
      (∃ msg rest c reply, sys.bus.toTui = msg :: rest ∧ sys.tui.ipcOpen = true ∧
        msg.replies = some c ∧ reply.placeholder = none ∧
        replyTo ⟨sys, label, dst⟩ = some (c, reply) ∧
        dst.tui.sessions = sys.tui.sessions.settle (sys.tui.replySidx msg) reply) ∨
      ∃ idx : Nat, deletion ⟨sys, label, dst⟩ = some (idx : Int) ∧
        sys.tui.Deletes dst.tui idx := by
  cases moved with
  | key ch env =>
      rcases (Tui.mainKey_outcome ch env positive).sessions with edit |
        ⟨active, text, submits⟩ | ⟨idx, wanted, deletes⟩
      · exact .inl ⟨edit, rfl⟩
      · exact .inr (.inl ⟨ch, env, active, text, rfl, submits⟩)
      · exact .inr (.inr (.inr ⟨idx, wanted, deletes⟩))
  | poll beyond choices msg rest waiting open_ =>
      have outcome := Tui.checkIpc_sessions sys.tui msg beyond choices
      have arrives : ∀ dst, replyTo ⟨sys, .poll beyond choices, dst⟩ =
          msg.reply beyond := fun dst => by simp [replyTo, received, waiting]
      dsimp only
      generalize (sys.tui.checkIpc msg beyond choices).sessions = after at outcome ⊢
      cases outcome with
      | replies c reply found =>
          exact .inr (.inr (.inl ⟨msg, rest, c, reply, waiting, open_,
            reply_replies found, reply_placeholder found, (arrives _).trans found,
            rfl⟩))
      | edits _ other edit => exact .inl ⟨edit, (arrives _).trans other⟩
  | idle beyond choices empty => exact .inl ⟨.same, by simp [replyTo, received, empty]⟩
  | recv msg rest waiting => cases msg <;> exact .inl ⟨.same, rfl⟩
  | _ => exact .inl ⟨.same, rfl⟩

theorem smCount_settle (sm : SessionManager) (sidx : Int) (reply : Message) :
    (sm.settle sidx reply).smCount = sm.smCount := by
  cases found : sm.replyIndex sidx with
  | none => rw [SessionManager.settle_none found]
  | some idx => rw [SessionManager.settle_some found, SessionManager.smCount_setChat]

end System

end FreeCli

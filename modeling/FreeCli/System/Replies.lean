import FreeCli.System.Awaited
import FreeCli.System.Chats

namespace FreeCli

open Words FileTree Slots Transition Lists

/-! Replies and new names reach the session that asked. -/

def ToTui.chatRequest : ToTui → Option Nat
  | .repFinal corrId .. => some corrId
  | .repError corrId _ => some corrId
  | .sessionRename corrId .. => some corrId
  | _ => none

def ToTui.failure : ToTui → Option Nat
  | .repError corrId _ => some corrId
  | _ => none

theorem WorkerThread.Sends.not_chat {thread : WorkerThread} (sends : thread.Sends msg) :
    msg.chatRequest = none := by
  cases sends <;> rfl

theorem ChatThread.Move.own {thread next : ChatThread}
    (moved : thread.Move number next after sent) (member : msg ∈ sent)
    (about : msg.chatRequest = some c) : c = thread.corrId := by
  cases moved with
  | quiet | called => exact absurd member List.not_mem_nil
  | started | ended =>
      obtain rfl := List.mem_singleton.1 member
      contradiction
  | failed | replied | renamed =>
      obtain rfl := List.mem_singleton.1 member
      exact (Option.some.inj about).symm

namespace System

variable {priv : FsPriv} {sys dst : System} {label : Label}
  {trace : List (Taken System Label)} {c i k : Nat}

/-- The chat requests that messages are still to come for, with their session
indices. -/
def liveRequests (sys : System) : List (Nat × Nat) :=
  sys.toBackend.filterMap ToBackend.submission ++
    (sys.chats.filter fun thread => thread.phase ≠ .done ∨
      ∃ msg ∈ sys.bus.toTui, msg.chatRequest = some thread.corrId).map
        fun thread => (thread.corrId, thread.sessionIdx)

theorem mem_liveRequests (sys : System) {request : Nat × Nat} : request ∈ liveRequests sys ↔
    request ∈ sys.toBackend.filterMap ToBackend.submission ∨
      ∃ thread ∈ sys.chats, (thread.phase ≠ .done ∨
        ∃ msg ∈ sys.bus.toTui, msg.chatRequest = some thread.corrId) ∧
        (thread.corrId, thread.sessionIdx) = request := by
  simp only [liveRequests, List.mem_append, List.mem_map, List.mem_filter,
    decide_eq_true_eq, and_assoc]

theorem Move.live_from (moved : sys.Move priv label dst) (numbered : Numbered sys)
    {request : Nat × Nat} (live : request ∈ liveRequests dst) :
    request ∈ liveRequests sys ∨ request ∈ submissions ⟨sys, label, dst⟩ := by
  rw [mem_liveRequests] at live
  simp only [mem_liveRequests sys]
  cases moved with
  | key ch env =>
      rcases live with waits | served
      · rw [List.filterMap_append] at waits
        rcases List.mem_append.1 waits with before | sent
        · exact .inl (.inl before)
        · exact .inr sent
      · exact .inl (.inr served)
  | poll beyond choices msg rest waiting open_ =>
      left
      rcases live with waits | ⟨thread, member, awake | ⟨other, later, about⟩, same⟩
      · exact .inl waits
      · exact .inr ⟨thread, member, .inl awake, same⟩
      · exact .inr ⟨thread, member,
          .inr ⟨other, waiting ▸ List.mem_cons_of_mem _ later, about⟩, same⟩
  | recv msg rest waiting =>
      left
      rw [waiting]
      cases msg with
      | reqSend corrId sessionIdx msgs model provider =>
          rcases live with waits | ⟨thread, member, awake, same⟩
          · exact .inl (List.mem_cons_of_mem _ waits)
          · rcases List.mem_append.1 member with before | fresh
            · exact .inr ⟨thread, before, awake, same⟩
            · obtain rfl := List.mem_singleton.1 fresh
              exact .inl (same ▸ List.mem_cons_self)
      | _ => exact live
  | worker j env thread next bus here moved =>
      left
      refine live.imp_right fun ⟨other, member, awake, same⟩ =>
        ⟨other, member, awake.imp_right ?_, same⟩
      rintro ⟨msg, there, about⟩
      rcases moved.sends with kept | ⟨sent, kept, sends⟩
      · exact ⟨msg, kept ▸ there, about⟩
      · simp only [kept] at there
        rcases List.mem_append.1 there with before | now
        · exact ⟨msg, before, about⟩
        · obtain rfl := List.mem_singleton.1 now
          cases sends.not_chat.symm.trans about
  | chat j env thread next subCorrNext sent here moved =>
      left
      have member := List.mem_of_getElem? here
      rcases live with waits | ⟨other, there, awake, same⟩
      · exact .inl waits
      · have own : ∀ other : ChatThread, other ∈ sys.chats →
            other.corrId = thread.corrId → (other.corrId, other.sessionIdx) =
              (thread.corrId, thread.sessionIdx) := by
          intro other before equal
          rw [equal, ChatRequest.unique (.inr ⟨other, before, equal, rfl⟩)
            (.inr ⟨thread, member, rfl, rfl⟩) numbered]
        rcases List.mem_or_eq_of_mem_set there with before | rfl
        · by_cases mine : other.corrId = thread.corrId
          · exact .inr ⟨thread, member, .inl moved.live, (own other before mine).symm.trans same⟩
          · refine .inr ⟨other, before, awake.imp_right ?_, same⟩
            rintro ⟨msg, there, about⟩
            rcases List.mem_append.1 there with old | now
            · exact ⟨msg, old, about⟩
            · exact absurd (moved.own now about) mine
        · refine .inr ⟨thread, member, .inl moved.live, ?_⟩
          rw [← same, moved.keeps.1, moved.keeps.2]
  | _ => exact .inl live

/-- The session with this id was the active one when `c` was submitted. -/
def SubmittedFrom (trace : List (Taken System Label)) (c : Nat) (id : Int) : Prop :=
  ∃ taken ∈ trace, c ∈ (submissions taken).map Prod.fst ∧
    taken.dst.tui.sessions.smActiveSession.map Session.id = some id

instance (trace : List (Taken System Label)) (c : Nat) (id : Int) :
    Decidable (SubmittedFrom trace c id) :=
  inferInstanceAs (Decidable (∃ _ ∈ trace, _ ∧ _))

/-- While messages can come, every live request finds the session it was
submitted from. -/
def Homed (trace : List (Taken System Label)) (sys : System) : Prop :=
  sys.tui.ipcOpen = true → ∀ request ∈ liveRequests sys, ∃ session,
    sys.tui.sessions.sessions[request.2]? = some session ∧
      SubmittedFrom trace request.1 session.id

/-- Only sessions above those of the live requests are deleted, unless the
connection is lost. -/
def DeletesAbove (taken : Taken System Label) : Prop :=
  ∀ idx ∈ deletion taken, taken.src.tui.ipcOpen = true →
    ∀ request ∈ liveRequests taken.src, (request.2 : Int) < idx

instance (taken : Taken System Label) : Decidable (DeletesAbove taken) :=
  inferInstanceAs (Decidable (∀ _ ∈ _, _ → ∀ _ ∈ _, _))

/-- An error finds the entry of its request. -/
def ErrorTracked (taken : Taken System Label) : Prop :=
  ∀ c ∈ (received taken).bind ToTui.failure, c ∈ taken.src.inflightIds

instance (taken : Taken System Label) : Decidable (ErrorTracked taken) :=
  inferInstanceAs (Decidable (∀ _ ∈ _, _))

theorem Move.session_stays (moved : sys.Move priv label dst)
    (positive : 0 < sys.tui.nextCorr)
    (above : ∀ idx ∈ deletion ⟨sys, label, dst⟩, (i : Int) < idx)
    (here : sys.tui.sessions.sessions[i]? = some session) :
    ∃ after, dst.tui.sessions.sessions[i]? = some after ∧ after.id = session.id := by
  rcases moved.sessions positive with ⟨edit, _⟩ | ⟨_, _, active, _, _, submits⟩ |
    ⟨_, _, _, reply, _, _, _, _, _, settles⟩ | ⟨idx, wanted, deletes⟩
  · exact edit.stays here
  · refine ⟨_, by rw [submits.sessions, List.getElem?_modify, here]; rfl, ?_⟩
    simp only
    split <;> rfl
  · rw [settles]
    cases found : sys.tui.sessions.replyIndex (sys.tui.replySidx _) with
    | none => exact ⟨session, by rw [SessionManager.settle_none found, here], rfl⟩
    | some place =>
        refine ⟨_, by rw [SessionManager.settle_some found, SessionManager.setChat,
          SessionManager.setSession, List.getElem?_modify, here]; rfl, ?_⟩
        simp only
        split <;> rfl
  · obtain ⟨fresh, _, sessions⟩ := deletes.sessions
    have below := above idx wanted
    have kept : (sys.tui.sessions.sessions.eraseIdx idx)[i]? = some session := by
      rw [List.getElem?_eraseIdx_of_lt (by omega), here]
    obtain ⟨bound, _⟩ := List.getElem?_eq_some_iff.1 kept
    exact ⟨session, by rw [sessions, List.getElem?_append_left bound, kept], rfl⟩

theorem Move.submission_active (moved : sys.Move priv label dst)
    (positive : 0 < sys.tui.nextCorr)
    (member : request ∈ submissions ⟨sys, label, dst⟩) : ∃ session,
      dst.tui.sessions.sessions[request.2]? = some session ∧
        dst.tui.sessions.smActiveSession = some session := by
  obtain ⟨msgs, model, provider, sent⟩ := mem_submissions member
  cases moved with
  | key ch env =>
      obtain ⟨_, text, submits⟩ := (Tui.mainKey_outcome ch env positive).submits sent
      have inside := submits.inside
      have bound : request.2 < (sys.tui.mainKey ch env).1.sessions.smCount := by
        rwa [SessionManager.smCount, submits.sessions, List.length_modify]
      have active : (sys.tui.mainKey ch env).1.sessions.activeIndex = some request.2 := by
        rw [SessionManager.activeIndex, submits.here, if_neg (by omega)]
        rfl
      refine ⟨_, List.getElem?_eq_getElem bound, ?_⟩
      rw [SessionManager.smActiveSession, active, Option.bind_some]
      exact List.getElem?_eq_getElem bound
  | _ => exact absurd sent List.not_mem_nil

theorem SubmittedFrom.later {id : Int} (from_ : SubmittedFrom trace c id)
    (more : List (Taken System Label)) : SubmittedFrom (trace ++ more) c id := by
  obtain ⟨taken, member, submitted⟩ := from_
  exact ⟨taken, List.mem_append_left _ member, submitted⟩

theorem Homed.move (homed : Homed trace sys) (numbered : Numbered sys)
    (moved : sys.Move priv label dst) (above : DeletesAbove ⟨sys, label, dst⟩) :
    Homed (trace ++ [⟨sys, label, dst⟩]) dst := by
  intro open_ request live
  have wasOpen := moved.ipcOpen numbered.positive open_
  rcases moved.live_from numbered live with old | submitted
  · obtain ⟨session, here, from_⟩ := homed wasOpen request old
    obtain ⟨after, there, same⟩ := moved.session_stays numbered.positive
      (fun idx wanted => above idx wanted wasOpen request old) here
    exact ⟨after, there, same ▸ from_.later _⟩
  · obtain ⟨session, here, active⟩ :=
      moved.submission_active numbered.positive submitted
    exact ⟨session, here, _, List.mem_append_right _ (List.mem_singleton_self _),
      List.mem_map_of_mem submitted, by rw [active]; rfl⟩

theorem run_homed (run : Run (System.step priv) (Start priv) trace sys)
    (above : ∀ taken ∈ trace, DeletesAbove taken) : Homed trace sys := by
  refine run.invariant_trace DeletesAbove Homed ?_
    (fun _ _ _ _ before _ homed stepped above =>
      homed.move (run_numbered before) (step_move stepped) above) above
  intro sys started _ request live
  simp [liveRequests, started.toBackend, started.chats] at live

/-- Only the session at `i` differs, and it keeps its id. -/
structure OnlyAt (before after : List Session) (i : Nat) : Prop where
  others : ∀ k, k ≠ i → after[k]? = before[k]?
  own : ∀ session, before[i]? = some session →
    ∃ next, after[i]? = some next ∧ next.id = session.id

theorem OnlyAt.modify (sessions : List Session) (i : Nat) (f : Session → Session)
    (keeps : ∀ session, (f session).id = session.id) :
    OnlyAt sessions (sessions.modify i f) i where
  others k differs := by
    rw [List.getElem?_modify_ne _ _ differs.symm]
  own session here := ⟨f session, by rw [List.getElem?_modify_eq, here]; rfl, keeps session⟩

theorem OnlyAt.settle {sm : SessionManager} {i : Nat} (inside : i < sm.smCount)
    (reply : Message) : OnlyAt sm.sessions (sm.settle i reply).sessions i := by
  rw [SessionManager.settle_some (SessionManager.replyIndex_of_lt inside)]
  exact .modify _ _ _ fun _ => rfl

theorem poll_onlyAt (beyond : Bytes) (choices : List Bytes)
    (waiting : sys.bus.toTui = msg :: rest) (about : msg.chatRequest = some c)
    (origins : Origins sys) (own : OwnEntries sys)
    (inside : ∀ i, Served sys c i → i < sys.tui.sessions.smCount)
    (tracked : msg.failure = some c → c ∈ sys.inflightIds) :
    ∃ i, Served sys c i ∧ OnlyAt sys.tui.sessions.sessions
      (sys.tui.checkIpc msg beyond choices).sessions.sessions i := by
  have origin := origins.messages msg (waiting ▸ List.mem_cons_self)
  have mine : ∀ i, Served sys c i → ∀ entry ∈ occupied sys.tui.inFlight,
      entry.corrId = c → entry.sessionIdx = i :=
    fun i served entry member same => (own.own c i (.inr served) entry member same).1
  cases msg with
  | repFinal corrId sessionIdx content reasoning =>
      cases about
      refine ⟨sessionIdx, origin, ?_⟩
      rw [Tui.checkIpc, (Tui.repFinal_settles _ _ _ _ _).sessions,
        finalIndex_own (mine sessionIdx origin)]
      exact .settle (inside sessionIdx origin) _
  | repError corrId text =>
      cases about
      obtain ⟨i, served⟩ := origin
      obtain ⟨entry, member, same⟩ := List.mem_map.1 (tracked rfl)
      refine ⟨i, served, ?_⟩
      rw [Tui.checkIpc, (Tui.repError_settles _ _ _).sessions,
        inflightRemove_fst member same (mine i served)]
      exact .settle (inside i served) _
  | sessionRename corrId sessionIdx topic =>
      cases about
      refine ⟨sessionIdx, origin, ?_⟩
      rw [Tui.checkIpc]
      rcases (Tui.sessionRename_quiet sessionIdx topic).2 with same | ⟨name, renames⟩
      · rw [same]
        exact ⟨fun _ _ => rfl, fun session here => ⟨session, here, rfl⟩⟩
      · rw [renames]
        exact .modify _ _ _ fun _ => rfl
  | _ => contradiction

theorem SubmittedFrom.unique {id other : Int}
    (run : Run (System.step priv) (Start priv) trace sys) :
    (∀ taken ∈ trace, ∀ c ∈ (submissions taken).map Prod.fst, c < sys.tui.nextCorr) ∧
      (SubmittedFrom trace c id → SubmittedFrom trace c other → id = other) := by
  induction run with
  | start started =>
      refine ⟨by simp, ?_⟩
      rintro ⟨_, member, _⟩
      exact absurd member List.not_mem_nil
  | snoc before stepped ih =>
      rename_i trace src label dst
      obtain ⟨given, unique⟩ := ih
      have moved := step_move stepped
      have numbered := run_numbered before
      have grows := moved.nextCorr_le numbered
      have next : ∀ c ∈ (submissions ⟨src, label, dst⟩).map Prod.fst,
          c = src.tui.nextCorr ∧ c < dst.tui.nextCorr := by
        intro c member
        obtain ⟨request, sent, rfl⟩ := List.mem_map.1 member
        have some_ : 0 < (submissions ⟨src, label, dst⟩).countP fun other =>
            other.1 = request.1 := List.countP_pos_iff.2 ⟨request, sent, by simp⟩
        have none := (submissions_count (c := request.1) moved numbered).2
        by_cases same : request.1 = src.tui.nextCorr
        · refine ⟨same, ?_⟩
          by_contra beyond
          have zero := none (.inr (by omega))
          omega
        · have zero := none (.inl same)
          omega
      refine ⟨fun taken member c sent => ?_, ?_⟩
      · rcases List.mem_append.1 member with old | now
        · exact (given taken old c sent).trans_le grows
        · obtain rfl := List.mem_singleton.1 now
          exact (next c sent).2
      · rintro ⟨one, oneIn, oneSent, oneId⟩ ⟨two, twoIn, twoSent, twoId⟩
        rcases List.mem_append.1 oneIn with oneOld | oneNow
        · rcases List.mem_append.1 twoIn with twoOld | twoNow
          · exact unique ⟨one, oneOld, oneSent, oneId⟩ ⟨two, twoOld, twoSent, twoId⟩
          · obtain rfl := List.mem_singleton.1 twoNow
            have early := given one oneOld c oneSent
            have late := (next c twoSent).1
            omega
        · obtain rfl := List.mem_singleton.1 oneNow
          rcases List.mem_append.1 twoIn with twoOld | twoNow
          · have early := given two twoOld c twoSent
            have late := (next c oneSent).1
            omega
          · obtain rfl := List.mem_singleton.1 twoNow
            exact Option.some.inj (oneId.symm.trans twoId)

structure ReachesHome (earlier : List (Taken System Label)) (taken : Taken System Label) :
    Prop where
  /-- Only the session that the request was submitted from changes. -/
  only : ∀ c ∈ (received taken).bind ToTui.chatRequest, ∀ k : Nat,
    taken.dst.tui.sessions.sessions[k]? = taken.src.tui.sessions.sessions[k]? ∨
      ∃ session after, taken.src.tui.sessions.sessions[k]? = some session ∧
        taken.dst.tui.sessions.sessions[k]? = some after ∧ after.id = session.id ∧
        SubmittedFrom earlier c session.id
  /-- If it is gone, none does. -/
  gone : ∀ c ∈ (received taken).bind ToTui.chatRequest, ∀ id,
    SubmittedFrom earlier c id →
      (∀ session ∈ taken.src.tui.sessions.sessions, session.id ≠ id) →
      taken.dst.tui.sessions.sessions = taken.src.tui.sessions.sessions

theorem Homed.only (homed : Homed trace sys) (origins : Origins sys)
    (own : OwnEntries sys) (moved : sys.Move priv label dst)
    (tracked : ErrorTracked ⟨sys, label, dst⟩)
    (about : (received ⟨sys, label, dst⟩).bind ToTui.chatRequest = some c) (k : Nat) :
    dst.tui.sessions.sessions[k]? = sys.tui.sessions.sessions[k]? ∨
      ∃ session after, sys.tui.sessions.sessions[k]? = some session ∧
        dst.tui.sessions.sessions[k]? = some after ∧ after.id = session.id ∧
        SubmittedFrom trace c session.id := by
  cases moved with
  | poll beyond choices msg rest waiting open_ =>
      have arrives : ∀ dst, received ⟨sys, .poll beyond choices, dst⟩ = some msg :=
        fun dst => by simp [received, waiting]
      rw [arrives, Option.bind_some] at about
      have home : ∀ i, Served sys c i → ∃ session,
          sys.tui.sessions.sessions[i]? = some session ∧
            SubmittedFrom trace c session.id := by
        rintro i ⟨thread, member, rfl, rfl⟩
        refine homed open_ (thread.corrId, thread.sessionIdx) ((mem_liveRequests sys).2 (.inr
          ⟨thread, member, .inr ⟨msg, waiting ▸ List.mem_cons_self, about⟩, rfl⟩))
      obtain ⟨i, served, only⟩ := poll_onlyAt beyond choices waiting about origins own
        (fun i served => by
          obtain ⟨session, here, _⟩ := home i served
          exact (List.getElem?_eq_some_iff.1 here).1)
        fun fails => tracked c (by rw [arrives, Option.bind_some, fails]; rfl)
      by_cases same : k = i
      · subst same
        obtain ⟨session, here, from_⟩ := home k served
        obtain ⟨after, there, keeps⟩ := only.own session here
        exact .inr ⟨session, after, here, there, keeps, from_⟩
      · exact .inl (only.others k same)
  | idle beyond choices empty => exact .inl rfl
  | _ => contradiction

theorem replies_reach_session (run : Run (System.step priv) (Start priv) trace sys)
    (few : ∀ taken ∈ trace, Few taken) (above : ∀ taken ∈ trace, DeletesAbove taken)
    (tracked : ∀ taken ∈ trace, ErrorTracked taken) :
    ∀ earlier taken later, trace = earlier ++ taken :: later →
      ReachesHome earlier taken := by
  rintro earlier taken later rfl
  obtain ⟨before, stepped⟩ := run.split
  have within : ∀ other ∈ earlier, other ∈ earlier ++ taken :: later :=
    fun other member => List.mem_append_left _ member
  have homed := run_homed before fun other member => above other (within other member)
  have own := run_ownEntries before fun other member => few other (within other member)
  have only := fun c about k => homed.only (c := c) (run_origins before) own
    (step_move stepped) (tracked taken (by simp)) about k
  refine ⟨only, fun c about id submitted gone => List.ext_getElem? fun k => ?_⟩
  rcases only c about k with same | ⟨session, after, here, _, _, from_⟩
  · exact same
  · exact absurd ((SubmittedFrom.unique before).2 from_ submitted)
      (gone session (List.mem_of_getElem? here))

def deleteAboveLabels : List Label :=
  [line "hi", line "/new", line "/delete"] ++ answered 0 ++
    List.replicate 2 (.chat 0 (provides "ok")) ++ List.replicate 2 (.poll [] [])

theorem replies_reach_session_above : ∃ (trace : List (Taken System Label))
    (sys : System), sys.tui.sessions.sessions.map Session.name = [ascii "#1 ok"] ∧
      ∀ earlier taken later, trace = earlier ++ taken :: later →
        ReachesHome earlier taken := by
  have ends : (exec (System.step sandboxPriv) deleteAboveLabels
      (fresh emptySandbox)).any fun sys =>
        sys.tui.sessions.sessions.map Session.name = [ascii "#1 ok"] := by
    decide +kernel
  have meets : ∀ taken ∈ execTrace (System.step sandboxPriv) deleteAboveLabels
      (fresh emptySandbox), Few taken ∧ DeletesAbove taken ∧ ErrorTracked taken := by
    decide +kernel
  obtain ⟨sys, ran, named⟩ := (Option.any_eq_true _ _).1 ends
  have run := Run.of_exec (fresh_start emptySandbox_plain) ran
  exact ⟨_, sys, of_decide_eq_true named, replies_reach_session run
    (fun taken member => (meets taken member).1)
    (fun taken member => (meets taken member).2.1)
    (fun taken member => (meets taken member).2.2)⟩

def deleteLabels : List Label := [line "hi", line "/delete"] ++ answered 0

theorem replies_reach_other : ¬∀ (priv : FsPriv) (trace : List (Taken System Label))
    (sys : System), Run (System.step priv) (Start priv) trace sys →
      ∀ earlier taken later, trace = earlier ++ taken :: later →
        ReachesHome earlier taken := by
  intro claimed
  have deleted : (exec (System.step sandboxPriv) deleteLabels (fresh emptySandbox)).any
      fun src => (System.step sandboxPriv src (.poll [] [])).any
        fun dst => (received ⟨src, .poll [] [], dst⟩).bind ToTui.chatRequest = some 1 ∧
          (∀ session ∈ src.tui.sessions.sessions, session.id ≠ 1) ∧
          dst.tui.sessions.sessions ≠ src.tui.sessions.sessions := by decide +kernel
  have submitted : SubmittedFrom (execTrace (System.step sandboxPriv) deleteLabels
      (fresh emptySandbox)) 1 1 := by decide +kernel
  obtain ⟨src, ran, last⟩ := (Option.any_eq_true _ _).1 deleted
  obtain ⟨dst, stepped, final⟩ := (Option.any_eq_true _ _).1 last
  obtain ⟨about, gone, changed⟩ := of_decide_eq_true final
  have run := (Run.of_exec (fresh_start emptySandbox_plain) ran).snoc stepped
  exact changed ((claimed sandboxPriv _ dst run _ _ [] rfl).gone 1 about 1 submitted gone)

end System

end FreeCli

import FreeCli.System.Awaited
import FreeCli.System.Chats

namespace FreeCli

open Words FileTree Slots Transition Lists

/-! A reply takes the place of the "..." of its request. -/

def placeholders (chat : ChatBuffer) : List Nat := chat.filterMap Message.placeholder

@[simp] theorem placeholders_append (chat more : ChatBuffer) :
    placeholders (chat ++ more) = placeholders chat ++ placeholders more :=
  List.filterMap_append

@[simp] theorem placeholders_chatAdd (chat : ChatBuffer) (text : Bytes)
    (isUser : Bool) : placeholders (chatAdd chat text isUser) = placeholders chat := by
  rw [chatAdd, placeholders_append]
  exact List.append_nil _

@[simp] theorem placeholders_chatAddPlaceholder (chat : ChatBuffer) (corr : Nat) :
    placeholders (chatAddPlaceholder chat corr) = placeholders chat ++ [corr] :=
  placeholders_append _ _

theorem ChatEdit.placeholders {chat after : ChatBuffer} (edit : ChatEdit chat after) :
    (placeholders after).Sublist (placeholders chat) := by
  cases edit with
  | same => exact .refl _
  | cleared => exact List.nil_sublist _
  | note text => rw [placeholders_chatAdd]

theorem chatRemoveLast_eq_filter {chat : ChatBuffer}
    (different : (placeholders chat).Nodup)
    (last : ∀ msg ∈ chat.getLast?, msg.placeholder = some c) :
    chatRemoveLast chat = chat.filter (fun msg => msg.placeholder ≠ some c) ∧
      placeholders (chatRemoveLast chat) = (placeholders chat).erase c ∧
      c ∉ placeholders (chatRemoveLast chat) := by
  rcases List.eq_nil_or_concat chat with rfl | ⟨front, msg, rfl⟩
  · exact ⟨rfl, rfl, List.not_mem_nil⟩
  · rw [List.concat_eq_append] at different last ⊢
    have own : msg.placeholder = some c := last msg (by simp)
    have split : placeholders (front ++ [msg]) = placeholders front ++ [c] := by
      rw [placeholders_append]
      simp [placeholders, own]
    rw [split, List.nodup_append] at different
    have absent : c ∉ placeholders front := fun member =>
      different.2.2 c member c (List.mem_singleton_self c) rfl
    refine ⟨?_, ?_, ?_⟩
    · have keeps : front.filter (fun msg => msg.placeholder ≠ some c) = front := by
        rw [List.filter_eq_self]
        intro other member
        simp only [decide_eq_true_eq]
        intro same
        exact absent (List.mem_filterMap.2 ⟨other, member, same⟩)
      rw [chatRemoveLast, List.dropLast_concat, List.filter_append, keeps]
      simp [own]
    · rw [chatRemoveLast, List.dropLast_concat, split, List.erase_append_right _ absent]
      simp
    · rwa [chatRemoveLast, List.dropLast_concat]

namespace System

variable {priv : FsPriv} {sys dst : System} {label : Label}
  {trace : List (Taken System Label)}

/-- The placeholders of the chat at index `k` are of requests that are tracked
for it, one for each. -/
structure ChatPlaced (sys : System) (k : Nat) (chat : ChatBuffer) : Prop where
  once : (placeholders chat).Nodup
  tracked : ∀ c ∈ placeholders chat, Tracked sys (c, k)

def Placed (sys : System) : Prop :=
  ∀ (k : Nat) (session : Session), sys.tui.sessions.sessions[k]? = some session →
    ChatPlaced sys k session.chat

theorem ChatPlaced.sublist {chat after : ChatBuffer} (placed : ChatPlaced sys k chat)
    (fewer : (placeholders after).Sublist (placeholders chat))
    (stays : ∀ c ∈ placeholders after, Tracked sys (c, k) → Tracked dst (c, k)) :
    ChatPlaced dst k after where
  once := fewer.nodup placed.once
  tracked c member := stays c member (placed.tracked c (fewer.subset member))

theorem Placed.edit (placed : Placed sys)
    (edit : SessionEdit sys.tui.sessions.sessions dst.tui.sessions.sessions)
    (stays : ∀ c k, Tracked sys (c, k) → Tracked dst (c, k)) : Placed dst := by
  intro k session here
  rcases edit.from here with ⟨old, there, _, edit⟩ | ⟨_, empty⟩
  · exact (placed k old there).sublist edit.placeholders fun c _ => stays c k
  · rw [empty]
    exact ⟨List.nodup_nil, fun c member => absurd member List.not_mem_nil⟩

def Inside (sys : System) : Prop :=
  ∀ c i, ChatRequest sys c i → i < sys.tui.sessions.smCount

theorem Inside.move (inside : Inside sys) (moved : sys.Move priv label dst)
    (positive : 0 < sys.tui.nextCorr) (kept : deletion ⟨sys, label, dst⟩ = none) :
    Inside dst := by
  have count : sys.tui.sessions.smCount ≤ dst.tui.sessions.smCount := by
    rcases moved.sessions positive with ⟨edit, _⟩ | ⟨_, _, _, _, _, submits⟩ |
      ⟨_, _, _, _, _, _, _, _, _, settles⟩ | ⟨_, wanted, _⟩
    · exact edit.length_le
    · rw [SessionManager.smCount, SessionManager.smCount, submits.sessions,
        List.length_modify]
    · rw [settles, smCount_settle]
    · cases kept.symm.trans wanted
  intro c i request
  rcases request.from moved positive with old | ⟨_, _, _, _, _, submits⟩
  · exact (inside c i old).trans_le count
  · exact submits.inside.trans_le count

theorem run_inside (run : Run (System.step priv) (Start priv) trace sys)
    (kept : ∀ taken ∈ trace, deletion taken = none) : Inside sys := by
  refine run.invariant_trace (fun taken => deletion taken = none) (fun _ => Inside) ?_
    (fun _ _ _ _ before _ inside stepped kept => inside.move (step_move stepped)
      (run_numbered before).positive kept) kept
  rintro sys started c i (⟨_, _, _, member⟩ | ⟨_, member, _⟩)
  · rw [started.toBackend] at member
    exact absurd member List.not_mem_nil
  · rw [started.chats] at member
    exact absurd member List.not_mem_nil

theorem replyIndex_own (waiting : sys.bus.toTui = msg :: rest)
    (replies : msg.replies = some c) (numbered : Numbered sys) (origins : Origins sys)
    (own : OwnEntries sys) (inside : Inside sys) (tracked : ∃ entry ∈ occupied sys.tui.inFlight,
      entry.corrId = c) :
    ∃ thread ∈ sys.chats, thread.corrId = c ∧
      thread.sessionIdx < sys.tui.sessions.smCount ∧
      sys.tui.sessions.replyIndex (sys.tui.replySidx msg) = some thread.sessionIdx := by
  have origin := origins.messages msg (waiting ▸ List.mem_cons_self)
  obtain ⟨entry, member, same⟩ := tracked
  have goes : ∀ i, Served sys c i → sys.tui.replySidx msg = (i : Int) := by
    intro i served
    have mine : ∀ entry ∈ occupied sys.tui.inFlight, entry.corrId = c →
        entry.sessionIdx = i :=
      fun other there equal => (own.own c i (.inr served) other there equal).1
    cases msg with
    | repFinal corrId sessionIdx content reasoning =>
        cases replies
        obtain rfl := ChatRequest.unique (.inr origin) (.inr served) numbered
        exact finalIndex_own mine
    | repError corrId text =>
        cases replies
        exact inflightRemove_fst member same mine
    | _ => contradiction
  obtain ⟨i, served⟩ : ∃ i, Served sys c i := by
    cases msg with
    | repFinal corrId sessionIdx content reasoning =>
        cases replies
        exact ⟨_, origin⟩
    | repError corrId text =>
        cases replies
        exact origin
    | _ => contradiction
  have within := inside c i (.inr served)
  have place := goes i served
  obtain ⟨thread, there, corr, rfl⟩ := served
  refine ⟨thread, there, corr, within, ?_⟩
  rw [place]
  exact SessionManager.replyIndex_of_lt within

/-- A reply finds the chat of its request empty, or with its placeholder last. -/
def PlaceholderLast (taken : Taken System Label) : Prop :=
  ∀ request ∈ replyTo taken, ∀ thread ∈ taken.src.chats, thread.corrId = request.1 →
    ∀ session ∈ taken.src.tui.sessions.sessions[thread.sessionIdx]?,
      ∀ last ∈ session.chat.getLast?, last.placeholder = some request.1

instance (taken : Taken System Label) : Decidable (PlaceholderLast taken) :=
  inferInstanceAs (Decidable (∀ _ ∈ _, ∀ _ ∈ _, _ → ∀ _ ∈ _, ∀ _ ∈ _, _))

/-- The connection is lost only while no placeholder is shown. -/
def LostUnshown (taken : Taken System Label) : Prop :=
  taken.label = .lost → ∀ session ∈ taken.src.tui.sessions.sessions,
    placeholders session.chat = []

instance (taken : Taken System Label) : Decidable (LostUnshown taken) :=
  inferInstanceAs (Decidable (_ → ∀ _ ∈ _, _))

/-- The placeholder of the request, and no other message, makes room for the
reply in the chat of the request. -/
def Replaces (taken : Taken System Label) : Prop :=
  ∀ c reply, replyTo taken = some (c, reply) → ∃ thread ∈ taken.src.chats,
    thread.corrId = c ∧ thread.sessionIdx < taken.src.tui.sessions.smCount ∧
      taken.dst.tui.sessions.sessions =
        taken.src.tui.sessions.sessions.modify thread.sessionIdx fun session =>
          { session with chat :=
              session.chat.filter (fun msg => msg.placeholder ≠ some c) ++ [reply] }

theorem Placed.submit {text : Bytes} (placed : Placed sys) (numbered : Numbered sys)
    (moved : sys.Move priv label dst) (step : label = .key ch env)
    (submits : sys.tui.Submits dst.tui (sys.tui.mainKey ch env).2 active text)
    (free : FreeSlot ⟨sys, label, dst⟩)
    (stays : ∀ c k, Tracked sys (c, k) → Tracked dst (c, k)) : Placed dst := by
  subst step
  have fresh : Tracked dst (sys.tui.nextCorr, active) := by
    obtain ⟨msgs, model, provider, sent⟩ := submits.sent
    refine .of_submission moved numbered free ?_
    simp [submissions, sentBy, sent, ToBackend.submission]
  intro k session here
  rw [submits.sessions, List.getElem?_modify] at here
  obtain ⟨old, there, rfl⟩ := Option.map_eq_some_iff.1 here
  have before := placed k old there
  split
  next same =>
    subst same
    refine ⟨?_, fun c member => ?_⟩
    · rw [placeholders_chatAddPlaceholder, placeholders_chatAdd, List.nodup_append]
      refine ⟨before.once, List.nodup_singleton _, ?_⟩
      rintro c member d last rfl
      obtain rfl := List.mem_singleton.1 last
      have given := numbered.given _ (before.tracked _ member).1.mem_requestIds
      omega
    · rw [placeholders_chatAddPlaceholder, placeholders_chatAdd] at member
      rcases List.mem_append.1 member with member | last
      · exact stays c _ (before.tracked c member)
      · obtain rfl := List.mem_singleton.1 last
        exact fresh
  next => exact before.sublist (.refl _) fun c _ => stays c k

theorem Placed.reply (placed : Placed sys) (numbered : Numbered sys)
    {thread : ChatThread} {reply : Message} (there : thread ∈ sys.chats)
    (last : ∀ session ∈ sys.tui.sessions.sessions[thread.sessionIdx]?,
      ∀ msg ∈ session.chat.getLast?, msg.placeholder = some thread.corrId)
    (found : sys.tui.sessions.replyIndex sidx = some thread.sessionIdx)
    (settles : dst.tui.sessions = sys.tui.sessions.settle sidx reply)
    (plain : reply.placeholder = none)
    (stays : ∀ c k, Tracked sys (c, k) → c ≠ thread.corrId → Tracked dst (c, k)) :
    Placed dst ∧ dst.tui.sessions.sessions =
      sys.tui.sessions.sessions.modify thread.sessionIdx fun session =>
        { session with chat := session.chat.filter
                         (fun msg => msg.placeholder ≠ some thread.corrId) ++ [reply] } := by
  rw [SessionManager.settle_some found] at settles
  constructor
  · intro k session here
    rw [settles, SessionManager.setChat, SessionManager.setSession,
      List.getElem?_modify] at here
    obtain ⟨old, at_, rfl⟩ := Option.map_eq_some_iff.1 here
    have before := placed k old at_
    split
    next same =>
      subst same
      obtain ⟨_, fewer, absent⟩ := chatRemoveLast_eq_filter before.once (last old at_)
      have shown : placeholders (chatRemoveLast old.chat ++ [reply]) =
          placeholders (chatRemoveLast old.chat) := by
        rw [placeholders_append]
        simp [placeholders, plain]
      refine before.sublist ?_ fun c member tracked => stays c _ tracked ?_
      · rw [shown, fewer]
        exact List.erase_sublist
      · rintro rfl
        exact absent (shown ▸ member)
    next differs =>
      refine before.sublist (.refl _) fun c member tracked => stays c k tracked ?_
      rintro rfl
      exact differs (ChatRequest.unique (.inr ⟨thread, there, rfl, rfl⟩) tracked.1
        numbered)
  · rw [settles]
    refine modify_congr fun session at_ => ?_
    have before := placed thread.sessionIdx session at_
    simp only [(chatRemoveLast_eq_filter before.once (last session at_)).1]

/-- The steps at which every placeholder stays where it belongs. -/
structure Tidy (taken : Taken System Label) : Prop where
  few : Few taken
  free : FreeSlot taken
  last : PlaceholderLast taken
  unshown : LostUnshown taken

theorem Placed.move (placed : Placed sys) (moved : sys.Move priv label dst)
    (numbered : Numbered sys) (origins : Origins sys) (own : OwnEntries sys)
    (inside : Inside sys) (few : sys.tui.nextCorr ≤ firstSubCorr)
    (awaited : ∀ c, sys.tui.ipcOpen = true → 0 < sys.awaits c →
      ∃ entry ∈ occupied sys.tui.inFlight, entry.corrId = c)
    (kept : deletion ⟨sys, label, dst⟩ = none) (tidy : Tidy ⟨sys, label, dst⟩) :
    Placed dst ∧ Replaces ⟨sys, label, dst⟩ := by
  by_cases lost : label = .lost
  · subst lost
    refine ⟨?_, fun c reply found => by contradiction⟩
    have unshown := tidy.unshown rfl
    cases moved
    intro k session here
    have none := unshown session (List.mem_of_getElem? here)
    exact ⟨by simp [none], by simp [none]⟩
  · have stays : ∀ c k, (replyTo ⟨sys, label, dst⟩).map Prod.fst ≠ some c →
        Tracked sys (c, k) → Tracked dst (c, k) := fun c k unreplied tracked =>
      tracked.move moved numbered origins few lost (replyTo_replies _ ▸ unreplied)
    rcases moved.sessions numbered.positive with ⟨edit, unreplied⟩ |
      ⟨ch, env, active, text, step, submits⟩ |
      ⟨msg, rest, c, reply, waiting, open_, replies, plain, found, settles⟩ |
      ⟨_, wanted, _⟩
    · refine ⟨placed.edit edit fun c k => stays c k (by simp [unreplied]), ?_⟩
      intro c reply found
      cases unreplied.symm.trans found
    · have unreplied : replyTo ⟨sys, label, dst⟩ = none := by simp [replyTo, step]
      refine ⟨placed.submit numbered moved step submits tidy.free
        fun c k => stays c k (by simp [unreplied]), ?_⟩
      intro c reply found
      cases unreplied.symm.trans found
    · have waits : 0 < sys.awaits c := by
        have replied : 0 < sys.bus.toTui.countP fun msg => msg.replies = some c :=
          List.countP_pos_iff.2 ⟨msg, waiting ▸ List.mem_cons_self, decide_eq_true replies⟩
        rw [System.awaits]
        omega
      obtain ⟨thread, there, rfl, within, goes⟩ := replyIndex_own waiting replies numbered
        origins own inside (awaited c open_ waits)
      obtain ⟨placed, replaced⟩ := placed.reply numbered there
        (tidy.last _ found thread there rfl) goes settles plain
        fun c k tracked differs => stays c k (by simp [found, differs.symm]) tracked
      refine ⟨placed, fun c other again => ?_⟩
      cases found.symm.trans again
      exact ⟨thread, there, rfl, within, replaced⟩
    · cases kept.symm.trans wanted

theorem run_placed (run : Run (System.step priv) (Start priv) trace sys)
    (kept : ∀ taken ∈ trace, deletion taken = none) (tidy : ∀ taken ∈ trace, Tidy taken) :
    Placed sys ∧ ∀ taken ∈ trace, Replaces taken := by
  refine run.invariant_trace (fun taken => deletion taken = none ∧ Tidy taken)
    (fun trace sys => Placed sys ∧ ∀ taken ∈ trace, Replaces taken) ?_ ?_
    fun taken member => ⟨kept taken member, tidy taken member⟩
  · refine fun sys started => ⟨fun k session here => ?_, by simp⟩
    have none : placeholders session.chat = [] :=
      List.filterMap_eq_nil_iff.2
        (started.noPlaceholder session (List.mem_of_getElem? here))
    exact ⟨by simp [none], by simp [none]⟩
  · intro trace src label dst before earlier ⟨placed, replaces⟩ stepped last
    have few : ∀ taken ∈ trace, Few taken := fun taken member =>
      (earlier taken member).2.few
    obtain ⟨after, now⟩ := placed.move (step_move stepped) (run_numbered before)
      (run_origins before) (run_ownEntries before few)
      (run_inside before fun taken member => (earlier taken member).1)
      (run_few before few)
      (fun c => run_awaited before few fun taken member => (earlier taken member).2.free)
      last.1 last.2
    refine ⟨after, fun taken member => ?_⟩
    rcases List.mem_append.1 member with old | new
    · exact replaces taken old
    · obtain rfl := List.mem_singleton.1 new
      exact now

/-- A placeholder is shown only while its request has an entry. -/
def ShownTracked (sys : System) : Prop :=
  ∀ (k : Nat) (session : Session), sys.tui.sessions.sessions[k]? = some session →
    ∀ c ∈ placeholders session.chat, ∃ entry ∈ occupied sys.tui.inFlight,
      entry.corrId = c ∧ entry.sessionIdx = k ∧ entry.depth = 0

theorem reply_replaces_placeholder
    (run : Run (System.step priv) (Start priv) trace sys)
    (kept : ∀ taken ∈ trace, deletion taken = none)
    (tidy : ∀ taken ∈ trace, Tidy taken) :
    (∀ taken ∈ trace, Replaces taken) ∧ ShownTracked sys := by
  obtain ⟨placed, replaces⟩ := run_placed run kept tidy
  exact ⟨replaces, fun k session here c member => ((placed k session here).tracked c member).2⟩

def shows (sys : System) (texts : List String) : Bool :=
  sys.tui.sessions.sessions.map (fun session => session.chat.map Message.text) =
    [texts.map ascii]

theorem reply_replaces_placeholder_hi : ∃ (trace : List (Taken System Label))
    (sys : System), shows sys ["hi", "ok", "again", "..."] ∧
      (∀ taken ∈ trace, Replaces taken) ∧ ShownTracked sys := by
  have ends : (exec (System.step sandboxPriv) againLabels (fresh emptySandbox)).any
      fun sys => shows sys ["hi", "ok", "again", "..."] := by decide +kernel
  have meets : ∀ taken ∈ execTrace (System.step sandboxPriv) againLabels
      (fresh emptySandbox), deletion taken = none ∧ Few taken ∧ FreeSlot taken ∧
        PlaceholderLast taken ∧ LostUnshown taken := by decide +kernel
  obtain ⟨sys, ran, shown⟩ := (Option.any_eq_true _ _).1 ends
  have run := Run.of_exec (fresh_start emptySandbox_plain) ran
  exact ⟨_, sys, shown, reply_replaces_placeholder run
    (fun taken member => (meets taken member).1)
    (fun taken member =>
      have ⟨few, free, last, unshown⟩ := (meets taken member).2
      ⟨few, free, last, unshown⟩)⟩

def helpLabels : List Label := [line "hi", line "/help"] ++ answered 0

/-- The reply takes the place of the help text, and the placeholder stays. -/
theorem reply_replaces_help : ¬∀ (priv : FsPriv) (trace : List (Taken System Label))
    (sys : System), Run (System.step priv) (Start priv) trace sys →
      (∀ taken ∈ trace, deletion taken = none) →
      (∀ taken ∈ trace, Replaces taken) ∧ ShownTracked sys := by
  intro claimed
  have helped : (exec (System.step sandboxPriv) helpLabels (fresh emptySandbox)).any
      fun src => (System.step sandboxPriv src (.poll [] [])).any
        fun dst => shows dst ["hi", "...", "ok"] ∧ occupied dst.tui.inFlight = [] ∧
          (dst.tui.sessions.sessions[0]?).any fun session =>
            1 ∈ placeholders session.chat := by decide +kernel
  have undeleted : ∀ taken ∈ execTrace (System.step sandboxPriv) helpLabels
      (fresh emptySandbox), deletion taken = none := by decide +kernel
  obtain ⟨src, ran, last⟩ := (Option.any_eq_true _ _).1 helped
  obtain ⟨dst, stepped, final⟩ := (Option.any_eq_true _ _).1 last
  obtain ⟨_, none, still⟩ := of_decide_eq_true final
  obtain ⟨session, here, member⟩ := (Option.any_eq_true _ _).1 still
  have run := (Run.of_exec (fresh_start emptySandbox_plain) ran).snoc stepped
  obtain ⟨entry, there, _⟩ := (claimed sandboxPriv _ dst run fun taken inside => by
    rcases List.mem_append.1 inside with before | now
    · exact undeleted taken before
    · obtain rfl := List.mem_singleton.1 now
      rfl).2 0 session here 1 (of_decide_eq_true member)
  rw [none] at there
  exact absurd there List.not_mem_nil

end System

end FreeCli

import FreeCli.System.Outstanding

namespace FreeCli

open Words FileTree Slots Transition Lists

/-! Every chat request is replied to once, and has its entry until then. -/

namespace Tui

variable {tui : Tui} {asked : Option Int}

theorem KeyOutcome.submission (outcome : tui.KeyOutcome asked ch after sent) :
    sent.filterMap ToBackend.submission = [] ∨ ∃ active text,
      sent.filterMap ToBackend.submission = [(tui.nextCorr, active)] ∧
        tui.Submits after sent active text := by
  cases outcome with
  | quiet kept edit => exact .inl rfl
  | delete idx wanted deletes => exact .inl rfl
  | submit active text submits =>
      obtain ⟨_, _, _, only⟩ := submits.sent
      exact .inr ⟨active, text, by rw [only]; rfl, submits⟩
  | worker asks =>
      obtain ⟨_, _, _, rfl⟩ := asks.sent
      exact .inl rfl
  | answer answers =>
      left
      rw [List.filterMap_eq_nil_iff]
      intro msg member
      obtain ⟨approved, rfl, _⟩ := answers.sent msg member
      rfl

end Tui

namespace System

variable {priv : FsPriv} {sys dst : System} {label : Label} {c : Nat}
  {trace : List (Taken System Label)}

theorem Move.ipcOpen (moved : sys.Move priv label dst)
    (positive : 0 < sys.tui.nextCorr) (open_ : dst.tui.ipcOpen = true) :
    sys.tui.ipcOpen = true := by
  cases moved with
  | key ch env => exact (Tui.mainKey_outcome ch env positive).ipcOpen ▸ open_
  | poll beyond choices msg rest waiting connected => exact connected
  | lost => contradiction
  | recv msg rest waiting => cases msg <;> exact open_
  | _ => exact open_

/-- How often chat request `c` waits for the backend, is served, or is replied
to. -/
def awaits (sys : System) (c : Nat) : Nat :=
  (sys.toBackend.filterMap ToBackend.submission).countP (fun request => request.1 = c) +
    sys.chats.countP (fun thread => thread.corrId = c ∧ thread.phase.answered = false) +
    sys.bus.toTui.countP fun msg => msg.replies = some c

theorem awaits_request (origins : Origins sys) (waits : 0 < sys.awaits c) :
    ∃ i, ChatRequest sys c i := by
  by_cases replied : 0 < sys.bus.toTui.countP fun msg => msg.replies = some c
  · obtain ⟨msg, member, replies⟩ := List.countP_pos_iff.1 replied
    have origin := origins.messages msg member
    have same : msg.replies = some c := of_decide_eq_true replies
    cases msg with
    | repFinal corrId i content reasoning =>
        obtain rfl := Option.some.inj same
        exact ⟨i, .inr origin⟩
    | repError corrId text =>
        obtain rfl := Option.some.inj same
        obtain ⟨i, served⟩ := origin
        exact ⟨i, .inr served⟩
    | _ => contradiction
  · by_cases served : 0 < sys.chats.countP fun thread =>
        thread.corrId = c ∧ thread.phase.answered = false
    · obtain ⟨thread, member, own⟩ := List.countP_pos_iff.1 served
      exact ⟨_, .inr ⟨thread, member, (of_decide_eq_true own).1, rfl⟩⟩
    · have waiting : 0 < (sys.toBackend.filterMap ToBackend.submission).countP
          fun request => request.1 = c := by
        rw [awaits] at waits
        omega
      obtain ⟨⟨d, i⟩, member, same⟩ := List.countP_pos_iff.1 waiting
      obtain rfl : d = c := of_decide_eq_true same
      obtain ⟨msg, there, submits⟩ := List.mem_filterMap.1 member
      cases msg with
      | reqSend corrId sessionIdx msgs model provider =>
          cases submits
          exact ⟨_, .inl ⟨msgs, model, provider, there⟩⟩
      | _ => contradiction

theorem chat_awaits {thread next : ChatThread} {number after : Nat} {sent : List ToTui}
    (moved : thread.Move number next after sent) :
    (if next.corrId = c ∧ next.phase.answered = false then 1 else 0) +
        sent.countP (fun msg => msg.replies = some c) =
      if thread.corrId = c ∧ thread.phase.answered = false then 1 else 0 := by
  cases moved with
  | quiet phase before unsub same => simp [ChatThread.goto, same]
  | called iters left model prompt before open_ =>
      rw [open_]
      simp [ChatThread.goto, ChatPhase.answered]
  | started iters left subCorr model prompt at_ =>
      simp [ChatThread.goto, ChatPhase.answered, at_, ToTui.replies]
  | ended iters left subCorr at_ =>
      simp [ChatThread.goto, ChatPhase.answered, at_, ToTui.replies]
  | failed phase text before open_ unsub closed =>
      simp [ChatThread.goto, open_, closed, ToTui.replies, List.countP_cons]
  | replied phase content reasoning at_ unsub closed =>
      have open_ : thread.phase.answered = false := by rw [at_]; rfl
      simp [ChatThread.goto, open_, closed, ToTui.replies, List.countP_cons]
  | renamed topic at_ => simp [ChatThread.goto, ChatPhase.answered, at_, ToTui.replies]

theorem Move.awaits (moved : sys.Move priv label dst) :
    dst.awaits c + (if (received ⟨sys, label, dst⟩).bind ToTui.replies = some c
        then 1 else 0) =
      sys.awaits c + (submissions ⟨sys, label, dst⟩).countP fun request =>
        request.1 = c := by
  cases moved with
  | key ch env =>
      simp only [System.awaits, List.filterMap_append, List.countP_append, submissions,
        sentBy, received, Option.bind_none, reduceCtorEq, if_false]
      omega
  | poll beyond choices msg rest waiting open_ =>
      simp [System.awaits, waiting, received, submissions, sentBy, List.countP_cons]
      omega
  | recv msg rest waiting =>
      cases msg with
      | reqSend corrId sessionIdx msgs model provider =>
          simp [System.awaits, handle, waiting, received, submissions, sentBy,
            ToBackend.submission, ChatPhase.answered, List.countP_cons,
            List.countP_append]
          omega
      | _ =>
          simp [System.awaits, handle, waiting, received, submissions, sentBy,
            ToBackend.submission, List.filterMap_cons]
  | worker i env thread next bus here moved =>
      rcases moved.sends with same | ⟨msg, same, sends⟩
      · simp [System.awaits, same, received, submissions, sentBy]
      · have none : msg.replies = Option.none := by cases sends <;> rfl
        simp [System.awaits, same, received, submissions, sentBy, none]
  | chat i env thread next subCorrNext sent here moved =>
      have count := countP_set (fun thread : ChatThread =>
        thread.corrId = c ∧ thread.phase.answered = false) here next
      have balance := chat_awaits (c := c) moved
      simp only [System.awaits, List.countP_append, decide_eq_true_eq, received,
        submissions, sentBy, List.filterMap_nil, List.countP_nil, Option.bind_none,
        reduceCtorEq, if_false] at count ⊢
      omega
  | idle beyond choices empty =>
      simp [received, empty, submissions, sentBy]
  | lost => simp [System.awaits, received, submissions, sentBy]

theorem submissions_count (moved : sys.Move priv label dst) (numbered : Numbered sys) :
    (submissions ⟨sys, label, dst⟩).countP (fun request => request.1 = c) ≤ 1 ∧
      (c ≠ sys.tui.nextCorr ∨ dst.tui.nextCorr = sys.tui.nextCorr →
        (submissions ⟨sys, label, dst⟩).countP (fun request => request.1 = c) = 0) := by
  cases moved with
  | key ch env =>
      simp only [submissions, sentBy]
      rcases (Tui.mainKey_outcome ch env numbered.positive).submission with none |
        ⟨active, text, one, submits⟩
      · simp [none]
      · have next := submits.nextCorr
        rw [one, List.countP_singleton]
        refine ⟨by split <;> omega, fun other => if_neg fun same => ?_⟩
        have equal : sys.tui.nextCorr = c := of_decide_eq_true same
        rcases other with differs | kept
        · exact differs equal.symm
        · omega
  | _ => exact ⟨Nat.zero_le _, fun _ => rfl⟩

theorem run_awaits (run : Run (System.step priv) (Start priv) trace sys) :
    sys.awaits c ≤ 1 ∧ (sys.tui.nextCorr ≤ c → sys.awaits c = 0) := by
  refine run.invariant_trace (fun _ => True) (fun _ sys => sys.awaits c ≤ 1 ∧
    (sys.tui.nextCorr ≤ c → sys.awaits c = 0)) ?_ ?_ fun _ _ => trivial
  · intro sys started
    have none : sys.awaits c = 0 := by
      rw [System.awaits, started.toBackend, started.chats, started.toTui]
      rfl
    exact ⟨by omega, fun _ => none⟩
  · intro trace src label dst before _ ⟨once, unused⟩ stepped _
    have moved := step_move stepped
    have numbered := run_numbered before
    have balance := moved.awaits (c := c)
    have grows := moved.nextCorr_le numbered
    obtain ⟨most, other⟩ := submissions_count (c := c) moved numbered
    by_cases fresh : c = src.tui.nextCorr
    · have none := unused (by omega)
      exact ⟨by omega, fun beyond => by have same := other (.inr (by omega)); omega⟩
    · have same := other (.inl fresh)
      exact ⟨by omega, fun beyond => by have none := unused (by omega); omega⟩

theorem run_awaited (run : Run (System.step priv) (Start priv) trace sys)
    (few : ∀ taken ∈ trace, Few taken) (free : ∀ taken ∈ trace, FreeSlot taken) :
    sys.tui.ipcOpen = true → 0 < sys.awaits c →
      ∃ entry ∈ occupied sys.tui.inFlight, entry.corrId = c := by
  refine run.invariant_trace (fun taken => Few taken ∧ FreeSlot taken)
    (fun _ sys => sys.tui.ipcOpen = true → 0 < sys.awaits c →
      ∃ entry ∈ occupied sys.tui.inFlight, entry.corrId = c) ?_ ?_
    fun taken member => ⟨few taken member, free taken member⟩
  · intro sys started _ waits
    rw [System.awaits, started.toBackend, started.chats, started.toTui] at waits
    contradiction
  · intro trace src label dst before earlier kept stepped last open_ waits
    have moved := step_move stepped
    have numbered := run_numbered before
    have balance := moved.awaits (c := c)
    by_cases now : 0 < (submissions ⟨src, label, dst⟩).countP fun request =>
        request.1 = c
    · obtain ⟨⟨d, i⟩, member, same⟩ := List.countP_pos_iff.1 now
      obtain rfl : d = c := of_decide_eq_true same
      obtain ⟨_, entry, there, own, _⟩ :=
        Tracked.of_submission moved numbered last.2 member
      exact ⟨entry, there, own⟩
    · have once := (run_awaits (c := c) before).1
      have origins := run_origins before
      obtain ⟨entry, there, rfl⟩ :=
        kept (moved.ipcOpen numbered.positive open_) (by omega)
      obtain ⟨i, request⟩ := awaits_request (c := entry.corrId) origins (by omega)
      have soFar := run_few before fun taken member => (earlier taken member).1
      rcases moved.entry_stays numbered origins soFar there request with stays | lost |
        ⟨msg, rest, arrives, _, replies⟩
      · exact ⟨entry, stays, rfl⟩
      · subst lost
        cases moved
        contradiction
      · rw [arrives, Option.bind_some, if_pos replies] at balance
        omega

end System

end FreeCli

import FreeCli.System.Entries

namespace FreeCli

open Words FileTree Slots Transition Lists

/-! The sub-queries of the chat requests: whose they are, and that each is
announced once. -/

def ChatPhase.starting : ChatPhase → Option Nat
  | .subStart _ _ subCorr _ _ => some subCorr
  | _ => none

theorem ChatPhase.starting_none {phase : ChatPhase} (none_ : phase.subCorr = none) :
    phase.starting = none := by
  cases phase with
  | subStart => contradiction
  | _ => rfl

def ToTui.starts : ToTui → Option Nat
  | .workerStart corrId .. => some corrId
  | _ => none

namespace System

variable {priv : FsPriv} {sys dst : System} {label : Label} {s : Nat}
  {thread : ChatThread} {trace : List (Taken System Label)}

/-- Request `c` has made the sub-query `s`. -/
def SubOf (trace : List (Taken System Label)) (c s : Nat) : Prop :=
  ∃ taken ∈ trace, ∃ thread ∈ taken.dst.chats,
    thread.corrId = c ∧ thread.phase.subCorr = some s

instance (trace : List (Taken System Label)) (c s : Nat) : Decidable (SubOf trace c s) :=
  inferInstanceAs (Decidable (∃ taken ∈ trace, ∃ thread ∈ taken.dst.chats, _ ∧ _))

theorem Move.sub_from (moved : sys.Move priv label dst) (member : thread ∈ dst.chats)
    (at_ : thread.phase.subCorr = some s) :
    (∃ old ∈ sys.chats, old.corrId = thread.corrId ∧ old.phase.subCorr = some s) ∨
      (s = sys.subCorrNext ∧ dst.subCorrNext = s + 1 ∧ ∃ i env old,
        label = .chat i env ∧ sys.chats[i]? = some old ∧
          old.corrId = thread.corrId) := by
  cases moved with
  | recv msg rest waiting =>
      cases msg with
      | reqSend corrId sessionIdx msgs model provider =>
          rcases List.mem_append.1 member with before | fresh
          · exact .inl ⟨thread, before, rfl, at_⟩
          · obtain rfl := List.mem_singleton.1 fresh
            contradiction
      | _ => exact .inl ⟨thread, member, rfl, at_⟩
  | chat i env old next subCorrNext sent here moved =>
      rcases List.mem_or_eq_of_mem_set member with before | rfl
      · exact .inl ⟨thread, before, rfl, at_⟩
      · have there := List.mem_of_getElem? here
        have same := moved.keeps.1
        cases moved with
        | quiet phase before after => exact absurd (after.symm.trans at_) (by simp)
        | called iters left model prompt before open_ =>
            obtain rfl := Option.some.inj at_
            exact .inr ⟨rfl, rfl, i, env, old, rfl, here, same.symm⟩
        | started iters left subCorr model prompt step =>
            obtain rfl := Option.some.inj at_
            exact .inl ⟨old, there, same.symm, by rw [step]; rfl⟩
        | ended => contradiction
        | failed phase text before open_ after =>
            exact absurd (after.symm.trans at_) (by simp)
        | replied phase content reasoning step after =>
            exact absurd (after.symm.trans at_) (by simp)
        | renamed => contradiction
  | _ => exact .inl ⟨thread, member, rfl, at_⟩

theorem Move.subCorrNext_le (moved : sys.Move priv label dst) :
    sys.subCorrNext ≤ dst.subCorrNext := by
  cases moved with
  | recv msg rest waiting => cases msg <;> exact Nat.le_refl _
  | chat i env old next subCorrNext sent here moved =>
      cases moved with
      | called => exact Nat.le_succ _
      | _ => exact Nat.le_refl _
  | _ => exact Nat.le_refl _

/-- Every sub-query has one request. -/
structure SubsKnown (trace : List (Taken System Label)) (sys : System) : Prop where
  current : ∀ thread ∈ sys.chats, ∀ s, thread.phase.subCorr = some s →
    SubOf trace thread.corrId s
  kept : ∀ c s, SubOf trace c s → firstSubCorr ≤ s ∧ s < sys.subCorrNext ∧
    ∀ thread ∈ sys.chats, thread.phase.subCorr = some s → thread.corrId = c

theorem SubsKnown.move (known : SubsKnown trace sys) (origins : Origins sys)
    (moved : sys.Move priv label dst) :
    SubsKnown (trace ++ [⟨sys, label, dst⟩]) dst := by
  have later := moved.subCorrNext_le
  -- A sub-query of an earlier state keeps its request: the new number is higher.
  have old : ∀ c s, SubOf trace c s → firstSubCorr ≤ s ∧ s < dst.subCorrNext ∧
      ∀ thread ∈ dst.chats, thread.phase.subCorr = some s → thread.corrId = c := by
    intro c s sub
    obtain ⟨first, bound, own⟩ := known.kept c s sub
    refine ⟨first, by omega, fun thread member at_ => ?_⟩
    rcases moved.sub_from member at_ with ⟨before, there, same, at_⟩ | ⟨next, _⟩
    · exact same ▸ own before there at_
    · omega
  refine ⟨fun thread member s at_ =>
    ⟨_, List.mem_append_right _ (List.mem_singleton_self _), thread, member, rfl, at_⟩,
    ?_⟩
  rintro c s ⟨taken, step, thread, member, rfl, at_⟩
  rcases List.mem_append.1 step with earlier | now
  · exact old _ s ⟨taken, earlier, thread, member, rfl, at_⟩
  · obtain rfl := List.mem_singleton.1 now
    rcases moved.sub_from member at_ with ⟨before, there, same, at_⟩ |
      ⟨rfl, next, i, env, before, step, here, same⟩
    · exact old _ s (same ▸ known.current before there s at_)
    · have first := origins.next
      refine ⟨first, by omega, fun other there at_ => ?_⟩
      rcases moved.sub_from there at_ with ⟨past, there, _, at_⟩ |
        ⟨_, _, j, env', twin, step', here', same'⟩
      · have bound := (origins.subs past there _ at_).2
        omega
      · cases step.symm.trans step'
        cases here.symm.trans here'
        exact same'.symm.trans same

theorem run_subsKnown (run : Run (System.step priv) (Start priv) trace sys) :
    SubsKnown trace sys := by
  refine run.invariant_trace (fun _ => True) SubsKnown ?_
    (fun _ _ _ _ before _ known stepped _ =>
      known.move (run_origins before) (step_move stepped)) (fun _ _ => trivial)
  intro sys started
  refine ⟨by simp [started.chats], ?_⟩
  rintro c s ⟨taken, step, _⟩
  exact absurd step List.not_mem_nil

/-- How often the sub-query `s` is about to be announced, is announced, or has an
entry. -/
def tickets (sys : System) (s : Nat) : Nat :=
  sys.chats.countP (fun thread => thread.phase.starting = some s) +
    sys.bus.toTui.countP (fun msg => msg.starts = some s) +
    (occupied sys.tui.inFlight).countP fun entry => entry.corrId = s

theorem key_tickets (ch : Nat) (env : KeyEnv) (numbered : Numbered sys)
    (few : (sys.tui.mainKey ch env).1.nextCorr ≤ firstSubCorr)
    (sub : firstSubCorr ≤ s) :
    (occupied (sys.tui.mainKey ch env).1.inFlight).countP
        (fun entry => entry.corrId = s) ≤
      (occupied sys.tui.inFlight).countP fun entry => entry.corrId = s := by
  rcases (Tui.mainKey_outcome ch env numbered.positive).table with same |
    ⟨active, text, submits⟩ | asks
  · rw [same]
  · have next := submits.nextCorr
    obtain ⟨name, table⟩ := submits.inFlight
    have count := countP_add (fun entry : InFlight => entry.corrId = s)
      (.request sys.tui.nextCorr active name) sys.tui.inFlight
    have other : ¬sys.tui.nextCorr = s := by omega
    rw [table, inflightAdd]
    simpa [InFlight.request, other] using count
  · have next := asks.nextCorr
    obtain ⟨sidx, op, table⟩ := asks.inFlight
    have count := countP_add (fun entry : InFlight => entry.corrId = s)
      (.request sys.tui.nextCorr sidx op) sys.tui.inFlight
    have other : ¬sys.tui.nextCorr = s := by omega
    rw [table, inflightAdd]
    simpa [InFlight.request, other] using count

theorem worker_tickets {worker next : WorkerThread} {after : Bus}
    (moved : worker.Move priv env sys.bus next after) (small : worker.corrId < s) :
    after.toTui.countP (fun msg => msg.starts = some s) =
      sys.bus.toTui.countP fun msg => msg.starts = some s := by
  rcases moved.sends with same | ⟨msg, same, sends⟩
  · rw [same]
  · rw [same, List.countP_append]
    have other : msg.starts ≠ some s := by
      cases sends with
      | progress description at_ =>
          intro same
          have equal := Option.some.inj same
          omega
      | _ => simp [ToTui.starts]
    simp [other]

theorem chat_tickets {next : ChatThread} {number after : Nat} {sent : List ToTui}
    (moved : thread.Move number next after sent) :
    (if next.phase.starting = some s then 1 else 0) +
        sent.countP (fun msg => msg.starts = some s) ≤
      (if thread.phase.starting = some s then 1 else 0) +
        if s = number ∧ after = s + 1 then 1 else 0 := by
  cases moved with
  | quiet phase before after =>
      simp [ChatThread.goto, ChatPhase.starting_none after]
  | called iters left model prompt before open_ =>
      rw [ChatPhase.starting_none before]
      by_cases same : number = s
      · simp [ChatThread.goto, ChatPhase.starting, same]
      · simp [ChatThread.goto, ChatPhase.starting, same]
  | started iters left subCorr model prompt at_ =>
      rw [at_]
      simp [ChatThread.goto, ChatPhase.starting, ToTui.starts]
  | ended iters left subCorr at_ =>
      simp [ChatThread.goto, ChatPhase.starting, ToTui.starts]
  | failed phase text before open_ after closed =>
      simp [ChatThread.goto, ChatPhase.starting_none after, ToTui.starts]
  | replied phase content reasoning at_ after closed =>
      simp [ChatThread.goto, ChatPhase.starting_none after, ToTui.starts]
  | renamed topic at_ => simp [ChatThread.goto, ChatPhase.starting, ToTui.starts]

theorem poll_tickets (beyond : Bytes) (choices : List Bytes)
    (waiting : sys.bus.toTui = msg :: rest) :
    rest.countP (fun msg => msg.starts = some s) +
        (occupied (sys.tui.checkIpc msg beyond choices).inFlight).countP
          (fun entry => entry.corrId = s) ≤
      sys.bus.toTui.countP (fun msg => msg.starts = some s) +
        (occupied sys.tui.inFlight).countP fun entry => entry.corrId = s := by
  have table := Tui.checkIpc_table sys.tui msg beyond choices
  generalize (sys.tui.checkIpc msg beyond choices).inFlight = after at table ⊢
  rw [waiting, List.countP_cons]
  cases table with
  | removes corrId settles =>
      have count := countP_remove (fun entry : InFlight => entry.corrId = s)
        (hasCorr corrId) sys.tui.inFlight
      simp only [inflightRemove]
      omega
  | adds corrId parent sidx model shown description starts =>
      have count := countP_add (fun entry : InFlight => entry.corrId = s)
        (.sub corrId parent sidx shown description) sys.tui.inFlight
      rw [inflightAddSub]
      by_cases announced : corrId = s
      · have own : msg.starts = some s := by rw [starts, ToTui.starts, announced]
        simp only [own, InFlight.sub, announced, decide_true, if_true] at count ⊢
        omega
      · have other : msg.starts ≠ some s := by simpa [starts, ToTui.starts] using announced
        simp only [other, InFlight.sub, announced, decide_false, Bool.false_eq_true,
          if_false] at count ⊢
        omega
  | keeps settles => omega

theorem Move.tickets_le (moved : sys.Move priv label dst) (numbered : Numbered sys)
    (few : dst.tui.nextCorr ≤ firstSubCorr) (sub : firstSubCorr ≤ s) :
    dst.tickets s ≤ sys.tickets s +
      if s = sys.subCorrNext ∧ dst.subCorrNext = s + 1 then 1 else 0 := by
  have grows := moved.nextCorr_le numbered
  cases moved with
  | key ch env =>
      have table := key_tickets ch env numbered few sub
      simp only [tickets]
      omega
  | idle beyond choices => exact Nat.le_add_right _ _
  | poll beyond choices msg rest waiting =>
      have count := poll_tickets (s := s) beyond choices waiting
      simp only [tickets]
      omega
  | lost =>
      simp only [tickets, occupied_dropped, List.countP_nil]
      omega
  | recv msg rest waiting =>
      cases msg with
      | reqSend corrId sessionIdx msgs model provider =>
          simp [tickets, handle, List.countP_append, ChatPhase.starting]
      | _ => exact Nat.le_add_right _ _
  | worker i env worker next bus here moved =>
      have small := Few.lt numbered (grows.trans few)
        (List.mem_append_right _ (List.mem_append_left _
          (List.mem_map_of_mem (List.mem_of_getElem? here))))
      simp only [tickets, worker_tickets moved (small.trans_le sub)]
      omega
  | chat i env thread next subCorrNext sent here moved =>
      have count := countP_set
        (fun thread : ChatThread => thread.phase.starting = some s) here next
      have balance := chat_tickets (s := s) moved
      simp only [tickets, List.countP_append, decide_eq_true_eq] at count ⊢
      omega

/-- Every sub-query is announced once, so it has one entry at most. -/
theorem run_tickets (run : Run (System.step priv) (Start priv) trace sys)
    (few : ∀ taken ∈ trace, Few taken) (sub : firstSubCorr ≤ s) :
    sys.tickets s ≤ 1 ∧ (sys.subCorrNext ≤ s → sys.tickets s = 0) := by
  refine run.invariant_trace Few (fun _ sys => sys.tickets s ≤ 1 ∧
    (sys.subCorrNext ≤ s → sys.tickets s = 0)) ?_ ?_ few
  · intro sys started
    have none : sys.tickets s = 0 := by
      rw [tickets, started.chats, started.toTui, started.inFlight, noneInFlight,
        occupied_replicate]
      rfl
    exact ⟨by omega, fun _ => none⟩
  · intro trace src label dst before _ ⟨once, unused⟩ stepped few
    have moved := step_move stepped
    have step := moved.tickets_le (run_numbered before) few sub
    have later := moved.subCorrNext_le
    split at step
    next called =>
      obtain ⟨rfl, next⟩ := called
      have none := unused (Nat.le_refl _)
      exact ⟨by omega, fun beyond => by omega⟩
    next => exact ⟨by omega, fun beyond => by have none := unused (by omega); omega⟩

end System

end FreeCli

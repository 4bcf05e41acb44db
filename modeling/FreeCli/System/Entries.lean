import FreeCli.System.Origins

namespace FreeCli

open Words FileTree Slots Transition

/-! The entries of the in-flight table: whose they are, and what keeps them. -/

theorem mem_inflightAdd (free : none ∈ table) (corrId : Nat) (sidx : Int)
    (name : Bytes) : .request corrId sidx name ∈
      occupied (inflightAdd table corrId sidx name) :=
  (occupied_add _ free).symm.subset List.mem_cons_self

theorem mem_inflightRemove {table : InFlightTable} (member : entry ∈ occupied table)
    (other : entry.corrId ≠ corrId) :
    entry ∈ occupied (inflightRemove table corrId).2 :=
  mem_occupied_remove member (by simpa [hasCorr] using other)

theorem inflightRemove_fst {table : InFlightTable} {c : Nat} {i : Int}
    (member : entry ∈ occupied table) (same : entry.corrId = c)
    (own : ∀ entry ∈ occupied table, entry.corrId = c → entry.sessionIdx = i) :
    (inflightRemove table c).1 = i := by
  obtain ⟨found, outcome⟩ : ∃ found, (remove (hasCorr c) table).1 = some found :=
    remove_isSome member (beq_iff_eq.2 same)
  obtain ⟨matched, split⟩ := remove_eq_some outcome
  simp only [inflightRemove, outcome]
  exact own found (split.symm.subset List.mem_cons_self) (beq_iff_eq.1 matched)

theorem finalIndex_own {tui : Tui} {c i : Nat}
    (own : ∀ entry ∈ occupied tui.inFlight, entry.corrId = c → entry.sessionIdx = i) :
    tui.finalIndex c i = i := by
  rw [Tui.finalIndex]
  cases outcome : (remove (hasCorr c) tui.inFlight).1 with
  | none =>
      have missing : (inflightRemove tui.inFlight c).1 = -1 := by
        simp only [inflightRemove, outcome]
      rw [missing, if_neg (by decide)]
  | some entry =>
      obtain ⟨matched, split⟩ := remove_eq_some outcome
      rw [inflightRemove_fst (split.symm.subset List.mem_cons_self)
        (beq_iff_eq.1 matched) own, if_pos (Int.natCast_nonneg i)]

theorem occupied_dropped (tui : Tui) : occupied tui.dropConnection.inFlight = [] := by
  rw [Tui.dropConnection, List.map_const']
  exact occupied_replicate _

def ToTui.replies : ToTui → Option Nat
  | .repFinal corrId .. => some corrId
  | .repError corrId _ => some corrId
  | _ => none

namespace System

variable {priv : FsPriv} {sys dst : System} {label : Label} {entry : InFlight}
  {trace : List (Taken System Label)}

def inflightIds (sys : System) : List Nat :=
  (occupied sys.tui.inFlight).map InFlight.corrId

/-- Where an entry comes from: it was there, or is made for a chat request, a
worker request or a sub-query. -/
inductive EntryFrom (sys dst : System) (label : Label) (entry : InFlight) : Prop
  | before (member : entry ∈ occupied sys.tui.inFlight)
  | chat (ch : Nat) (env : KeyEnv) (active : Nat) (text : Bytes)
      (step : label = .key ch env)
      (submits : sys.tui.Submits dst.tui (sys.tui.mainKey ch env).2 active text)
      (corr : entry.corrId = sys.tui.nextCorr) (place : entry.sessionIdx = active)
      (top : entry.depth = 0)
  | worker (ch : Nat) (env : KeyEnv) (step : label = .key ch env)
      (asks : sys.tui.AsksWorker dst.tui (sys.tui.mainKey ch env).2)
      (corr : entry.corrId = sys.tui.nextCorr)
  | sub (beyond : Bytes) (choices : List Bytes) (parent : Nat)
      (model description : Bytes) (rest : List ToTui)
      (step : label = .poll beyond choices)
      (waiting : sys.bus.toTui =
        .workerStart entry.corrId parent model description :: rest)

theorem Move.entry_from (moved : sys.Move priv label dst)
    (positive : 0 < sys.tui.nextCorr)
    (member : entry ∈ occupied dst.tui.inFlight) : EntryFrom sys dst label entry := by
  cases moved with
  | key ch env =>
      rcases (Tui.mainKey_outcome ch env positive).table with same |
        ⟨active, text, submits⟩ | asks
      · exact .before (same ▸ member)
      · obtain ⟨name, table⟩ := submits.inFlight
        simp only [table] at member
        rcases mem_occupied_add member with rfl | member
        · exact .chat ch env active text rfl submits rfl rfl rfl
        · exact .before member
      · obtain ⟨sidx, op, table⟩ := asks.inFlight
        simp only [table] at member
        rcases mem_occupied_add member with rfl | member
        · exact .worker ch env rfl asks rfl
        · exact .before member
  | poll beyond choices msg rest waiting =>
      have table := Tui.checkIpc_table sys.tui msg beyond choices
      generalize (sys.tui.checkIpc msg beyond choices).inFlight = after at table member
      cases table with
      | removes corrId settles => exact .before (mem_occupied_of_remove member)
      | adds corrId parent sidx model shown description starts =>
          rcases mem_occupied_add member with rfl | member
          · exact .sub beyond choices parent model description rest rfl
              (starts ▸ waiting)
          · exact .before member
      | keeps settles => exact .before member
  | lost =>
      have none : occupied sys.tui.dropConnection.inFlight = [] := occupied_dropped _
      exact absurd (none ▸ member) List.not_mem_nil
  | recv msg rest waiting => cases msg <;> exact .before member
  | _ => exact .before member

/-- The entry of a chat request says which session it was made for. -/
structure OwnEntries (sys : System) : Prop where
  numbered : ∀ entry ∈ occupied sys.tui.inFlight,
    entry.corrId < sys.tui.nextCorr ∨ firstSubCorr ≤ entry.corrId
  own : ∀ c i, ChatRequest sys c i → ∀ entry ∈ occupied sys.tui.inFlight,
    entry.corrId = c → entry.sessionIdx = i ∧ entry.depth = 0

theorem Move.nextCorr_le (moved : sys.Move priv label dst)
    (numbered : Numbered sys) : sys.tui.nextCorr ≤ dst.tui.nextCorr := by
  rcases moved.numbers numbered.positive with ⟨_, same⟩ | ⟨_, next⟩ <;> omega

theorem Origins.start_other (origins : Origins sys) (numbered : Numbered sys)
    (few : sys.tui.nextCorr ≤ firstSubCorr)
    (member : .workerStart c parent model description ∈ sys.bus.toTui)
    (request : ChatRequest sys d i) : c ≠ d := by
  rintro rfl
  rcases origins.messages _ member with ⟨works, _⟩ | ⟨sub, _⟩
  · exact request.not_worker numbered works
  · have small := Few.lt numbered few request.mem_requestIds
    omega

theorem Origins.end_other (origins : Origins sys) (numbered : Numbered sys)
    (few : sys.tui.nextCorr ≤ firstSubCorr)
    (member : .workerEnd c ∈ sys.bus.toTui) (request : ChatRequest sys d i) :
    c ≠ d := by
  rintro rfl
  rcases origins.messages _ member with works | sub
  · exact request.not_worker numbered works
  · have small := Few.lt numbered few request.mem_requestIds
    omega

theorem OwnEntries.move (own : OwnEntries sys) (numbered : Numbered sys)
    (origins : Origins sys) (moved : sys.Move priv label dst)
    (few : dst.tui.nextCorr ≤ firstSubCorr) : OwnEntries dst := by
  have grows := moved.nextCorr_le numbered
  refine ⟨fun entry member => ?_, fun c i request entry member same => ?_⟩
  · cases moved.entry_from numbered.positive member with
    | before member =>
        have bound := own.numbered entry member
        omega
    | chat ch env active text step submits corr place top =>
        have next := submits.nextCorr
        omega
    | worker ch env step asks corr =>
        have next := asks.nextCorr
        omega
    | sub beyond choices parent model description rest step waiting =>
        rcases origins.messages _ (waiting ▸ List.mem_cons_self) with ⟨works, _⟩ |
          ⟨sub, _⟩
        · have given := (numbered.given _ (List.mem_append_right _
            (List.mem_append_left _ works))).2
          omega
        · exact .inr sub
  · subst same
    cases moved.entry_from numbered.positive member with
    | before member =>
        rcases request.from moved numbered.positive with old |
          ⟨ch, env, text, _, fresh, submits⟩
        · exact own.own _ i old entry member rfl
        · have next := submits.nextCorr
          have bound := own.numbered entry member
          omega
    | chat ch env active text step submits corr place top =>
        rcases request.from moved numbered.positive with old |
          ⟨ch', env', text', step', _, again⟩
        · have given := (numbered.given _ old.mem_requestIds).2
          omega
        · cases step.symm.trans step'
          obtain ⟨_, _, _, one⟩ := submits.sent
          obtain ⟨_, _, _, two⟩ := again.sent
          have same := List.singleton_inj.1 (one.symm.trans two)
          injection same with _ places
          exact ⟨places ▸ place, top⟩
    | worker ch env step asks corr =>
        rcases request.from moved numbered.positive with old |
          ⟨ch', env', text', step', _, again⟩
        · have given := (numbered.given _ old.mem_requestIds).2
          omega
        · cases step.symm.trans step'
          obtain ⟨_, _, _, one⟩ := asks.sent
          obtain ⟨_, _, _, two⟩ := again.sent
          cases one.symm.trans two
    | sub beyond choices parent model description rest step waiting =>
        rcases request.from moved numbered.positive with old |
          ⟨ch', env', text', step', _, again⟩
        · exact absurd rfl (origins.start_other numbered (grows.trans few)
            (waiting ▸ List.mem_cons_self) old)
        · cases step.symm.trans step'

theorem run_ownEntries (run : Run (System.step priv) (Start priv) trace sys)
    (few : ∀ taken ∈ trace, Few taken) : OwnEntries sys := by
  refine run.invariant_trace Few (fun _ => OwnEntries) ?_
    (fun _ _ _ _ before _ own stepped few => own.move (run_numbered before)
      (run_origins before) (step_move stepped) few) few
  intro sys started
  have none : occupied sys.tui.inFlight = [] := by
    rw [started.inFlight]
    exact occupied_replicate _
  exact ⟨by simp [none], by simp [none]⟩

theorem run_few (run : Run (System.step priv) (Start priv) trace sys)
    (few : ∀ taken ∈ trace, Few taken) : sys.tui.nextCorr ≤ firstSubCorr := by
  refine run.invariant Few (fun sys => sys.tui.nextCorr ≤ firstSubCorr) ?_
    (fun _ _ _ _ _ few => few) few
  intro sys started
  rw [started.nextCorr]
  decide

/-- The entry of a chat request stays until its reply comes or the connection is
lost. -/
theorem Move.entry_stays (moved : sys.Move priv label dst) (numbered : Numbered sys)
    (origins : Origins sys) (few : sys.tui.nextCorr ≤ firstSubCorr)
    (member : entry ∈ occupied sys.tui.inFlight)
    (request : ChatRequest sys entry.corrId i) :
    entry ∈ occupied dst.tui.inFlight ∨ label = .lost ∨
      ∃ msg rest, received ⟨sys, label, dst⟩ = some msg ∧
        sys.bus.toTui = msg :: rest ∧ msg.replies = some entry.corrId := by
  cases moved with
  | key ch env =>
      left
      rcases (Tui.mainKey_outcome ch env numbered.positive).table with same |
        ⟨active, text, submits⟩ | asks
      · exact same ▸ member
      · obtain ⟨name, table⟩ := submits.inFlight
        exact table ▸ mem_occupied_add_of_mem _ member
      · obtain ⟨sidx, op, table⟩ := asks.inFlight
        exact table ▸ mem_occupied_add_of_mem _ member
  | poll beyond choices msg rest waiting =>
      have arrives : received ⟨sys, .poll beyond choices, { sys with
          tui := sys.tui.checkIpc msg beyond choices
          bus := { sys.bus with toTui := rest } }⟩ = some msg := by
        simp [received, waiting]
      have table := Tui.checkIpc_table sys.tui msg beyond choices
      generalize (sys.tui.checkIpc msg beyond choices).inFlight = after at table ⊢
      cases table with
      | removes corrId settles =>
          by_cases mine : entry.corrId = corrId
          · refine .inr (.inr ⟨msg, rest, arrives, waiting, ?_⟩)
            rw [mine, ← settles]
            cases msg with
            | workerEnd c =>
                cases settles
                exact absurd mine.symm (origins.end_other numbered few
                  (waiting ▸ List.mem_cons_self) request)
            | _ => rfl
          · exact .inl (mem_inflightRemove member mine)
      | adds corrId parent sidx model shown description starts =>
          exact .inl (mem_occupied_add_of_mem _ member)
      | keeps settles => exact .inl member
  | lost => exact .inr (.inl rfl)
  | recv msg rest waiting => cases msg <;> exact .inl member
  | _ => exact .inl member

end System

end FreeCli

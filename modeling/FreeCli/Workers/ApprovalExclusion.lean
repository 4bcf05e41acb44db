import FreeCli.Workers.ApprovalCalls

namespace FreeCli

open Words Slots Lists Transition

/-! No two calls of `bw_request_approval` hold one slot, and a call reads what was
decided for its own request while it held its slot. -/

def ApprovalTable.holder (table : ApprovalTable) (k : Nat) : Option Nat :=
  table[k]?.join.map PendingApproval.corrId

def ApprovalTable.decidedAt (table : ApprovalTable) (k : Nat) : Option Int :=
  table[k]?.join.map PendingApproval.decided

def ApprovalTable.inUse (table : ApprovalTable) : Nat := table.countP Option.isSome

theorem holder_eq {table : ApprovalTable} (held : table[k]? = some entry) :
    table.holder k = entry.map PendingApproval.corrId := by
  rw [ApprovalTable.holder, held]
  rfl

theorem holder_set_self {table : ApprovalTable} (there : table[k]? = some old)
    (entry : Option PendingApproval) :
    ApprovalTable.holder (table.set k entry) k = entry.map PendingApproval.corrId := by
  obtain ⟨bound, _⟩ := List.getElem?_eq_some_iff.1 there
  exact holder_eq (List.getElem?_set_self bound)

theorem holder_set_ne {table : ApprovalTable} (other : slot ≠ k)
    (entry : Option PendingApproval) :
    ApprovalTable.holder (table.set slot entry) k = table.holder k := by
  rw [ApprovalTable.holder, List.getElem?_set_ne other]
  rfl

theorem held_of_holder {table : ApprovalTable} (holds : table.holder k = some corrId) :
    ∃ pending : PendingApproval, table[k]? = some (some pending) ∧
      pending.corrId = corrId := by
  obtain ⟨pending, here, mine⟩ := Option.map_eq_some_iff.1 holds
  exact ⟨pending, Option.join_eq_some_iff.1 here, mine⟩

section Notify

variable (corrId : Nat) (approved : Bool) (table : ApprovalTable) (k : Nat)

theorem holder_notify :
    (bwNotifyApproval corrId approved table).holder k = table.holder k := by
  rw [ApprovalTable.holder, ApprovalTable.holder]
  rcases bwNotifyApproval_getElem? corrId approved table k with
    same | ⟨slot, here, _, decided⟩
  · rw [same]
  · rw [here, decided]
    rfl

theorem length_notify :
    (bwNotifyApproval corrId approved table).length = table.length := by
  induction table with
  | nil => rfl
  | cons entry table ih =>
      cases entry with
      | none => exact congrArg Nat.succ ih
      | some slot =>
          rw [bwNotifyApproval]
          split
          · rfl
          · exact congrArg Nat.succ ih

theorem inUse_notify :
    (bwNotifyApproval corrId approved table).inUse = table.inUse := by
  induction table with
  | nil => rfl
  | cons entry table ih =>
      rw [ApprovalTable.inUse, ApprovalTable.inUse] at *
      cases entry with
      | none => simpa [bwNotifyApproval] using ih
      | some slot =>
          rw [bwNotifyApproval]
          split
          · simp
          · simpa using ih

variable {corrId approved table k}

theorem decidedAt_notify_other (other : table.holder k ≠ some corrId) :
    (bwNotifyApproval corrId approved table).decidedAt k = table.decidedAt k := by
  rw [ApprovalTable.decidedAt, ApprovalTable.decidedAt]
  rcases bwNotifyApproval_getElem? corrId approved table k with
    same | ⟨slot, here, mine, _⟩
  · rw [same]
  · refine absurd ?_ other
    rw [ApprovalTable.holder, here, ← mine]
    rfl

theorem decidedAt_notify_self (held : table.holder k = some corrId)
    (only : ∀ j, table.holder j = some corrId → j = k) :
    (bwNotifyApproval corrId approved table).decidedAt k =
      some (if approved then 1 else -1) := by
  induction table generalizing k with
  | nil => contradiction
  | cons entry table ih =>
      have later : ∀ j, ApprovalTable.holder table j = some corrId → j + 1 = k := fun j =>
        only (j + 1)
      cases k with
      | zero =>
          cases entry with
          | none => contradiction
          | some slot =>
              have mine : slot.corrId = corrId := Option.some.inj held
              rw [bwNotifyApproval, if_pos mine]
              rfl
      | succ k =>
          have rest := ih held fun j there => Nat.succ.inj (later j there)
          cases entry with
          | none => exact rest
          | some slot =>
              have other : slot.corrId ≠ corrId := fun mine =>
                absurd (only 0 (congrArg some mine)) (Nat.succ_ne_zero k).symm
              rw [bwNotifyApproval, if_neg other]
              exact rest

end Notify

namespace ApprovalCall.Move

variable {call next : ApprovalCall} {late : Bool} {table after : ApprovalTable}

theorem holder (moved : Move call late table next after)
    (mine : ∀ k, call.phase.slot = some k → table.holder k = some call.corrId)
    (k : Nat) :
    after.holder k =
      if next.phase.slot = some k then some call.corrId
      else if call.phase.slot = some k then none
      else table.holder k := by
  have kept : ∀ phase, phase.slot = call.phase.slot →
      after.holder k = table.holder k → after.holder k =
        if (call.goto phase).phase.slot = some k then some call.corrId
        else if call.phase.slot = some k then none
        else table.holder k := by
    intro phase same unchanged
    rw [unchanged, goto, same]
    split
    next holds => exact mine k holds
    next => rfl
  cases moved with
  | full at_ full => exact kept _ (by rw [at_]; rfl) rfl
  | claimed slot at_ free =>
      by_cases same : slot = k
      · subst same
        rw [holder_set_self free]
        simp [goto, ApprovalPhase.slot]
      · rw [holder_set_ne same]
        simp [goto, ApprovalPhase.slot, at_, same]
  | asked slot at_ => exact kept _ (by rw [at_]; rfl) rfl
  | blocks slot at_ => exact kept _ at_.phase.1.symm rfl
  | reads slot pending at_ held => exact kept _ at_.phase.1.symm rfl
  | expires slot pending at_ late held =>
      refine kept _ (by rw [at_]; rfl) ?_
      by_cases same : slot = k
      · subst same
        rw [holder_set_self held, holder_eq held]
        rfl
      · exact holder_set_ne same _
  | releases slot approved at_ =>
      by_cases same : slot = k
      · subst same
        obtain ⟨pending, held, _⟩ := held_of_holder (mine slot (by rw [at_]; rfl))
        rw [holder_set_self held]
        simp [goto, ApprovalPhase.slot, at_]
      · rw [holder_set_ne same]
        simp [goto, ApprovalPhase.slot, at_, same]

theorem slot_from (moved : Move call late table next after)
    (holds : next.phase.slot = some k) :
    call.phase.slot = some k ∨ table.holder k = none := by
  cases moved with
  | full at_ full => contradiction
  | claimed slot at_ free =>
      obtain rfl := Option.some.inj holds
      exact .inr (by rw [ApprovalTable.holder, free]; rfl)
  | asked slot at_ => exact .inl (by rw [at_]; exact holds)
  | blocks slot at_ => exact .inl (at_.phase.1.trans holds)
  | reads slot pending at_ held => exact .inl (at_.phase.1.trans holds)
  | expires slot pending at_ late held => exact .inl (by rw [at_]; exact holds)
  | releases slot approved at_ => contradiction

theorem entry_other (moved : Move call late table next after)
    (used : table.holder k ≠ none) (other : call.phase.slot ≠ some k) :
    after[k]? = table[k]? := by
  cases moved with
  | claimed slot at_ free =>
      refine List.getElem?_set_ne fun same => used ?_
      rw [← same, ApprovalTable.holder, free]
      rfl
  | expires slot pending at_ late held =>
      exact List.getElem?_set_ne fun same => other (by rw [at_, same]; rfl)
  | releases slot approved at_ =>
      exact List.getElem?_set_ne fun same => other (by rw [at_, same]; rfl)
  | _ => rfl

theorem inUse (moved : Move call late table next after)
    (mine : ∀ k, call.phase.slot = some k → table.holder k = some call.corrId) :
    after.inUse + (if call.phase.slot.isSome then 1 else 0) =
      table.inUse + if next.phase.slot.isSome then 1 else 0 := by
  cases moved with
  | full at_ full => rw [at_]; rfl
  | claimed slot at_ free =>
      rw [at_]
      exact countP_set Option.isSome free _
  | asked slot at_ => rw [at_]; rfl
  | blocks slot at_ => rw [at_.phase.1]; rfl
  | reads slot pending at_ held => rw [at_.phase.1]; rfl
  | expires slot pending at_ late held =>
      rw [at_]
      exact countP_set Option.isSome held _
  | releases slot approved at_ =>
      obtain ⟨pending, held, _⟩ := held_of_holder (mine slot (by rw [at_]; rfl))
      rw [at_]
      exact countP_set Option.isSome held _

theorem length (moved : Move call late table next after) :
    after.length = table.length := by
  cases moved with
  | claimed slot at_ free => exact List.length_set
  | expires slot pending at_ late held => exact List.length_set
  | releases slot approved at_ => exact List.length_set
  | _ => rfl

end ApprovalCall.Move

namespace Approvals

variable {state next : Approvals} {trace : Trace} {label : ApprovalLabel}

/-- Every slot in use is held by one call, for its request. -/
structure Owned (state : Approvals) : Prop where
  size : state.table.length = maxPendingApprovals
  held : ∀ (i : Nat) (call : ApprovalCall) (k : Nat), state.calls[i]? = some call →
    call.phase.slot = some k → state.table.holder k = some call.corrId
  owner : ∀ (k corrId : Nat), state.table.holder k = some corrId →
    ∃ (i : Nat) (call : ApprovalCall), state.calls[i]? = some call ∧
      call.phase.slot = some k
  distinct : ∀ (i j : Nat) (call other : ApprovalCall), state.calls[i]? = some call →
    state.calls[j]? = some other → call.phase.inProgress = true →
    other.phase.inProgress = true → call.corrId = other.corrId → i = j
  counted : state.table.inUse = state.calls.countP fun call => call.phase.slot.isSome

theorem Owned.exclusive {i j : Nat} (owned : state.Owned) {call other : ApprovalCall}
    (here : state.calls[i]? = some call) (there : state.calls[j]? = some other)
    (holds : call.phase.slot = some k) (also : other.phase.slot = some k) : i = j := by
  have mine := owned.held i call k here holds
  have its := owned.held j other k there also
  exact owned.distinct i j call other here there
    (ApprovalPhase.inProgress_of_slot holds) (ApprovalPhase.inProgress_of_slot also)
    (Option.some.inj (mine.symm.trans its))

theorem Owned.only (owned : state.Owned) (one : state.table.holder k = some corrId)
    (two : state.table.holder k' = some corrId) : k' = k := by
  obtain ⟨i, call, here, holds⟩ := owned.owner k corrId one
  obtain ⟨j, other, there, also⟩ := owned.owner k' corrId two
  have mine := (owned.held i call k here holds).symm.trans one
  have its := (owned.held j other k' there also).symm.trans two
  obtain rfl := owned.distinct i j call other here there
    (ApprovalPhase.inProgress_of_slot holds) (ApprovalPhase.inProgress_of_slot also)
    (Option.some.inj (mine.trans its.symm))
  rw [here] at there
  obtain rfl := Option.some.inj there
  exact Option.some.inj (also.symm.trans holds)

theorem Owned.called (owned : state.Owned) (fresh : state.busy corrId = false) :
    Owned { state with calls := state.calls ++ [⟨corrId, .claim⟩] } where
  size := owned.size
  held i call k here holds := by
    rcases getElem?_concat_cases here with before | ⟨_, rfl⟩
    · exact owned.held i call k before holds
    · contradiction
  owner k other used := by
    obtain ⟨i, call, here, holds⟩ := owned.owner k other used
    obtain ⟨bound, _⟩ := List.getElem?_eq_some_iff.1 here
    exact ⟨i, call, (List.getElem?_append_left bound).trans here, holds⟩
  distinct i j call other here there running also same := by
    have apart : ∀ (k : Nat) (busy : ApprovalCall), state.calls[k]? = some busy →
        busy.phase.inProgress = true → busy.corrId ≠ corrId := by
      intro k busy at_ running
      have free := List.any_eq_false.1 fresh busy (List.mem_of_getElem? at_)
      simpa [running] using free
    rcases getElem?_concat_cases here with one | ⟨rfl, rfl⟩
    · rcases getElem?_concat_cases there with two | ⟨rfl, rfl⟩
      · exact owned.distinct i j call other one two running also same
      · exact absurd same (apart i call one running)
    · rcases getElem?_concat_cases there with two | ⟨rfl, rfl⟩
      · exact absurd same.symm (apart j other two also)
      · rfl
  counted := by
    rw [List.countP_append]
    exact owned.counted

theorem Owned.notified (owned : state.Owned) (corrId : Nat) (approved : Bool) :
    Owned { state with table := bwNotifyApproval corrId approved state.table } where
  size := (length_notify corrId approved state.table).trans owned.size
  held i call k here holds := by
    rw [holder_notify]
    exact owned.held i call k here holds
  owner k other used := by
    rw [holder_notify] at used
    exact owned.owner k other used
  distinct := owned.distinct
  counted := (inUse_notify corrId approved state.table).trans owned.counted

theorem Owned.ran (owned : state.Owned) {call after : ApprovalCall}
    {table : ApprovalTable} (here : state.calls[i]? = some call)
    (running : call.phase.inProgress = true)
    (moved : call.Move late state.table after table) :
    Owned { table, calls := state.calls.set i after } := by
  obtain ⟨bound, _⟩ := List.getElem?_eq_some_iff.1 here
  have mine := fun k => owned.held i call k here
  have before : ∀ (j : Nat) (other : ApprovalCall),
      (state.calls.set i after)[j]? = some other → ∃ old : ApprovalCall,
        state.calls[j]? = some old ∧ old.corrId = other.corrId ∧
          (other.phase.inProgress = true → old.phase.inProgress = true) := by
    intro j other there
    by_cases same : i = j
    · subst same
      rw [List.getElem?_set_self bound] at there
      obtain rfl := Option.some.inj there
      exact ⟨call, here, moved.corrId.symm, fun _ => running⟩
    · rw [List.getElem?_set_ne same] at there
      exact ⟨other, there, rfl, id⟩
  constructor
  case size => exact moved.length.trans owned.size
  case held =>
    intro j other k there holds
    rw [moved.holder mine]
    by_cases same : i = j
    · subst same
      rw [List.getElem?_set_self bound] at there
      obtain rfl := Option.some.inj there
      rw [if_pos holds, moved.corrId]
    · rw [List.getElem?_set_ne same] at there
      have its := owned.held j other k there holds
      have notMine : call.phase.slot ≠ some k := fun also =>
        same (owned.exclusive here there also holds)
      have notTaken : after.phase.slot ≠ some k := by
        intro taken
        rcases moved.slot_from taken with also | free
        · exact notMine also
        · rw [its] at free
          contradiction
      rw [if_neg notTaken, if_neg notMine, its]
  case owner =>
    intro k corrId used
    rw [moved.holder mine] at used
    split at used
    next holds => exact ⟨i, after, List.getElem?_set_self bound, holds⟩
    next =>
      split at used
      · contradiction
      next notMine =>
        obtain ⟨j, other, there, holds⟩ := owned.owner k corrId used
        have apart : i ≠ j := by
          rintro rfl
          rw [here] at there
          obtain rfl := Option.some.inj there
          exact notMine holds
        exact ⟨j, other, (List.getElem?_set_ne apart).trans there, holds⟩
  case distinct =>
    intro j l one two at_ there going also same
    obtain ⟨old, was, oldId, oldGoing⟩ := before j one at_
    obtain ⟨old', was', oldId', oldGoing'⟩ := before l two there
    exact owned.distinct j l old old' was was' (oldGoing going) (oldGoing' also)
      (oldId.trans (same.trans oldId'.symm))
  case counted =>
    have slots := moved.inUse mine
    have calls := countP_set (fun call : ApprovalCall => call.phase.slot.isSome) here after
    have counted := owned.counted
    simp only at slots calls counted ⊢
    omega

/-- What a step is: a new call, a section of a call, or a notification. -/
theorem step_cases (stepped : state.step label = some next) :
    (∃ corrId, label = .call corrId ∧ state.busy corrId = false ∧
      next = { state with calls := state.calls ++ [⟨corrId, .claim⟩] }) ∨
    (∃ (i : Nat) (late : Bool) (call after : ApprovalCall) (table : ApprovalTable),
      label = .run i late ∧ state.calls[i]? = some call ∧ call.phase.inProgress = true ∧
      call.Move late state.table after table ∧
      next = { table, calls := state.calls.set i after }) ∨
    ∃ corrId approved, label = .notify corrId approved ∧
      next = { state with table := bwNotifyApproval corrId approved state.table } := by
  cases label with
  | call corrId =>
      rw [Approvals.step] at stepped
      split at stepped
      · contradiction
      next fresh =>
        cases stepped
        exact .inl ⟨corrId, rfl, by simpa using fresh, rfl⟩
  | run i late =>
      obtain ⟨call, here, stepped⟩ := Option.bind_eq_some_iff.1 stepped
      obtain ⟨⟨after, table⟩, ran, stepped⟩ := Option.bind_eq_some_iff.1 stepped
      cases stepped
      exact .inr (.inl ⟨i, late, call, after, table, rfl, here,
        ApprovalCall.inProgress_of_section ran, ApprovalCall.move_of_section ran, rfl⟩)
  | notify corrId approved =>
      cases stepped
      exact .inr (.inr ⟨corrId, approved, rfl, rfl⟩)

theorem Owned.step (owned : state.Owned) (stepped : state.step label = some next) :
    next.Owned := by
  rcases step_cases stepped with ⟨corrId, rfl, fresh, rfl⟩ |
    ⟨i, late, call, after, table, rfl, here, running, moved, rfl⟩ | ⟨corrId, approved, rfl, rfl⟩
  · exact owned.called fresh
  · exact owned.ran here running moved
  · exact owned.notified corrId approved

/-! What a call reads is what it heard. -/

section Trace

variable {i j : Nat} {corrId other : Nat} {approved late : Bool} {src dst : Approvals}

@[simp] theorem heard_call :
    heard i corrId (trace ++ [⟨src, .call other, dst⟩]) = heard i corrId trace := by
  simp [heard]

@[simp] theorem heard_run :
    heard i corrId (trace ++ [⟨src, .run j late, dst⟩]) = heard i corrId trace := by
  simp [heard]

theorem heard_notify :
    heard i corrId (trace ++ [⟨src, .notify other approved, dst⟩]) =
      heard i corrId trace ++ if other = corrId ∧ listens i src then [approved] else [] := by
  rw [heard, List.filterMap_append]
  congr 1
  by_cases mine : other = corrId ∧ listens i src = true
  · simp [mine]
  · simp [mine]

@[simp] theorem timedOut_call :
    timedOut i (trace ++ [⟨src, .call other, dst⟩]) = timedOut i trace := by
  simp [timedOut]

@[simp] theorem timedOut_notify :
    timedOut i (trace ++ [⟨src, .notify other approved, dst⟩]) = timedOut i trace := by
  simp [timedOut]

theorem timedOut_run :
    timedOut i (trace ++ [⟨src, .run j late, dst⟩]) =
      (timedOut i trace || (decide (j = i) && late &&
        (src.calls[i]?).any fun call => call.phase.blocks)) := by
  rw [timedOut, List.any_append]
  by_cases same : j = i
  · cases late <;> simp [timedOut, same]
  · simp [timedOut, same]

end Trace

/-- What `slot->decided` is after the last notification. -/
def decision : Option Bool → Int
  | none => 0
  | some true => 1
  | some false => -1

/-- The last notification heard approves, and the deadline did not end the wait. -/
def verdict (i corrId : Nat) (trace : Trace) : Bool :=
  decide ((heard i corrId trace).getLast? = some true) && !timedOut i trace

/-- What the run so far says about call `i`. -/
def Told (trace : Trace) (state : Approvals) (i : Nat) : Prop :=
  match state.calls[i]? with
  | none => (∀ corrId, heard i corrId trace = []) ∧ timedOut i trace = false
  | some call =>
      match call.phase with
      | .claim => heard i call.corrId trace = [] ∧ timedOut i trace = false
      | .ask slot | .wait slot | .blocked slot =>
          state.table.decidedAt slot =
              some (decision (heard i call.corrId trace).getLast?) ∧
            timedOut i trace = false
      | .release _ approved | .returned approved =>
          approved = verdict i call.corrId trace

theorem Told.congr (told : Told trace state i)
    (sameCall : next.calls[i]? = state.calls[i]?)
    (sameHeard : ∀ call, state.calls[i]? = some call →
      heard i call.corrId later = heard i call.corrId trace)
    (silent : state.calls[i]? = none → ∀ corrId,
      heard i corrId later = heard i corrId trace)
    (sameLate : timedOut i later = timedOut i trace)
    (sameSlot : ∀ (call : ApprovalCall) (k : Nat), state.calls[i]? = some call →
      call.phase.listens = true → call.phase.slot = some k →
      next.table.decidedAt k = state.table.decidedAt k) :
    Told later next i := by
  rw [Told, sameCall]
  cases at_ : state.calls[i]? with
  | none =>
      simp only [Told, at_] at told
      exact ⟨fun corrId => (silent at_ corrId).trans (told.1 corrId),
        sameLate.trans told.2⟩
  | some call =>
      have known := sameSlot call
      simp only [Told, at_] at told ⊢
      rw [sameHeard call at_, sameLate]
      cases phase : call.phase with
      | ask slot | wait slot | blocked slot =>
          simp only [phase] at told
          exact ⟨(known slot at_ (by rw [phase]; rfl) (by rw [phase]; rfl)).trans told.1,
            told.2⟩
      | claim =>
          simp only [phase] at told
          exact told
      | release slot approved | returned approved =>
          simp only [phase] at told
          rw [verdict, sameHeard call at_, sameLate]
          exact told

theorem Told.called (told : Told trace state i) (corrId : Nat) :
    Told (trace ++ [⟨state, .call corrId, next⟩])
      { state with calls := state.calls ++ [⟨corrId, .claim⟩] } i := by
  by_cases new : i = state.calls.length
  · subst new
    simp only [Told, List.getElem?_eq_none (Nat.le_refl _)] at told
    simp only [Told, List.getElem?_concat_length, heard_call, timedOut_call]
    exact ⟨told.1 corrId, told.2⟩
  · refine told.congr ?_ (fun _ _ => heard_call) (fun _ _ => heard_call) timedOut_call
      fun _ _ _ _ _ => rfl
    by_cases inside : i < state.calls.length
    · exact List.getElem?_append_left inside
    · rw [List.getElem?_eq_none (by rw [List.length_append, List.length_singleton]; omega),
        List.getElem?_eq_none (by omega)]

theorem Told.notified (told : Told trace state i) (owned : state.Owned)
    (corrId : Nat) (approved : Bool) :
    Told (trace ++ [⟨state, .notify corrId approved, next⟩])
      { state with table := bwNotifyApproval corrId approved state.table } i := by
  by_cases mine : ∃ call : ApprovalCall, state.calls[i]? = some call ∧
      call.corrId = corrId ∧ call.phase.listens = true
  · obtain ⟨call, here, rfl, listening⟩ := mine
    have decided : ∀ k, call.phase.slot = some k →
        (bwNotifyApproval call.corrId approved state.table).decidedAt k =
          some (if approved then 1 else -1) := by
      intro k holds
      have held := owned.held i call k here holds
      exact decidedAt_notify_self held fun j there => owned.only held there
    have last : (heard i call.corrId
        (trace ++ [⟨state, .notify call.corrId approved, next⟩])).getLast? =
          some approved := by
      rw [heard_notify, if_pos ⟨rfl, by simp [listens, here, listening]⟩]
      exact List.getLast?_concat ..
    have same : some (if approved then (1 : Int) else -1) = some (decision (some approved)) := by
      cases approved <;> rfl
    simp only [Told, here, timedOut_notify, last] at told ⊢
    cases phase : call.phase with
    | ask slot | wait slot | blocked slot =>
        simp only [phase] at told
        exact ⟨(decided slot (by rw [phase]; rfl)).trans same, told.2⟩
    | claim | release slot approved | returned approved =>
        rw [phase] at listening
        contradiction
  · have unheard : ∀ other, (∀ call : ApprovalCall, state.calls[i]? = some call →
        call.phase.listens = true → call.corrId = other) →
        heard i other (trace ++ [⟨state, .notify corrId approved, next⟩]) =
          heard i other trace := by
      intro other its
      rw [heard_notify, if_neg, List.append_nil]
      rintro ⟨rfl, listening⟩
      obtain ⟨call, here, listens⟩ := (Option.any_eq_true ..).1 listening
      exact mine ⟨call, here, its call here listens, listens⟩
    refine told.congr rfl ?_ ?_ timedOut_notify ?_
    · intro call here
      refine unheard _ fun other there _ => ?_
      rw [here] at there
      obtain rfl := Option.some.inj there
      rfl
    · intro gone other
      refine unheard _ fun call here _ => ?_
      rw [gone] at here
      contradiction
    · intro call k here listening holds
      refine decidedAt_notify_other fun held => mine ⟨call, here, ?_, listening⟩
      exact Option.some.inj ((owned.held i call k here holds).symm.trans held)

theorem decision_eq_one (last : Option Bool) : decision last = 1 ↔ last = some true := by
  rcases last with - | - | - <;> simp [decision]

theorem Told.waits (told : Told trace state i) {call : ApprovalCall}
    (here : state.calls[i]? = some call) (waits : call.Waits slot late)
    (next : Approvals) :
    state.table.decidedAt slot =
        some (decision (heard i call.corrId trace).getLast?) ∧
      timedOut i trace = false ∧
      timedOut i (trace ++ [⟨state, .run i late, next⟩]) = false := by
  rw [timedOut_run, here]
  rcases waits with at_ | ⟨at_, rfl⟩
  · simp only [Told, here, at_] at told
    exact ⟨told.1, told.2, by simp [told.2, at_, ApprovalPhase.blocks]⟩
  · simp only [Told, here, at_] at told
    exact ⟨told.1, told.2, by simp [told.2]⟩

theorem Told.ran (told : Told trace state i) (owned : state.Owned)
    {call after : ApprovalCall} {table : ApprovalTable} (here : state.calls[j]? = some call)
    (moved : call.Move late state.table after table) :
    Told (trace ++ [⟨state, .run j late, next⟩])
      { table, calls := state.calls.set j after } i := by
  by_cases same : j = i
  · subst same
    obtain ⟨bound, _⟩ := List.getElem?_eq_some_iff.1 here
    have quiet : call.phase.blocks = false →
        timedOut j (trace ++ [⟨state, .run j late, next⟩]) = timedOut j trace := by
      intro awake
      simp [timedOut_run, here, awake]
    cases moved with
    | full at_ full =>
        simp only [Told, here, at_] at told
        simp [Told, ApprovalCall.goto, bound, verdict, told.1]
    | claimed slot at_ free =>
        simp only [Told, here, at_] at told
        simp only [Told, List.getElem?_set_self bound, ApprovalCall.goto, heard_run]
        rw [quiet (by rw [at_]; rfl), told.1]
        obtain ⟨inside, _⟩ := List.getElem?_eq_some_iff.1 free
        exact ⟨by simp [ApprovalTable.decidedAt, inside, decision], told.2⟩
    | asked slot at_ =>
        simp only [Told, here, at_] at told
        simp only [Told, List.getElem?_set_self bound, ApprovalCall.goto, heard_run]
        rw [quiet (by rw [at_]; rfl)]
        exact told
    | blocks slot at_ =>
        obtain ⟨decided, -, early⟩ := told.waits here at_ next
        simp only [Told, List.getElem?_set_self bound, ApprovalCall.goto, heard_run]
        exact ⟨decided, early⟩
    | reads slot pending at_ held =>
        obtain ⟨decided, -, early⟩ := told.waits here at_ next
        rw [ApprovalTable.decidedAt, held] at decided
        have decided := Option.some.inj decided
        simp only [Told, List.getElem?_set_self bound, ApprovalCall.goto, verdict, heard_run,
          early, decided, decision_eq_one]
        simp
    | expires slot pending at_ late held =>
        simp only [Told, List.getElem?_set_self bound, ApprovalCall.goto, verdict]
        simp [timedOut_run, here, at_, late, ApprovalPhase.blocks]
    | releases slot approved at_ =>
        simp only [Told, here, at_] at told
        simp only [Told, List.getElem?_set_self bound, ApprovalCall.goto, verdict, heard_run]
        rw [quiet (by rw [at_]; rfl)]
        exact told
  · refine told.congr (List.getElem?_set_ne same) (fun _ _ => heard_run)
      (fun _ _ => heard_run) (by rw [timedOut_run]; simp [same]) ?_
    intro other k there _ holds
    have used := owned.held i other k there holds
    have notMine : call.phase.slot ≠ some k := fun also =>
      same (owned.exclusive here there also holds)
    rw [ApprovalTable.decidedAt, moved.entry_other (by rw [used]; simp) notMine]
    rfl

theorem owned_start (first : start state) : state.Owned := by
  obtain rfl := first
  refine ⟨rfl, nofun, ?_, nofun, rfl⟩
  intro k corrId used
  obtain ⟨pending, held, _⟩ := held_of_holder used
  obtain ⟨_, free⟩ := List.getElem?_eq_some_iff.1 held
  simp [noApprovals] at free

theorem owned_run (run : Run Approvals.step start trace state) : state.Owned :=
  run.always Approvals.Owned (fun _ => owned_start)
    fun _ _ _ owned stepped => owned.step stepped

theorem Told.step (told : Told trace state i) (owned : state.Owned)
    (stepped : state.step label = some next) :
    Told (trace ++ [⟨state, label, next⟩]) next i := by
  rcases step_cases stepped with ⟨corrId, rfl, -, rfl⟩ |
    ⟨j, late, call, after, table, rfl, here, -, moved, rfl⟩ | ⟨corrId, approved, rfl, rfl⟩
  · exact told.called corrId
  · exact told.ran owned here moved
  · exact told.notified owned corrId approved

theorem told_run (run : Run Approvals.step start trace state) (i : Nat) :
    Told trace state i := by
  refine run.invariant_trace (fun _ => True) (fun trace state => Told trace state i) ?_ ?_
    fun _ _ => trivial
  · rintro state rfl
    exact ⟨fun _ => rfl, rfl⟩
  · intro trace src label dst before _ told stepped _
    exact told.step (owned_run before) stepped

theorem run_isSome (run : Run Approvals.step start trace state) {call : ApprovalCall}
    (here : state.calls[i]? = some call) (going : call.phase.inProgress = true)
    (late : Bool) : (state.step (.run i late)).isSome := by
  have held : ∀ k, call.phase.slot = some k → ∃ pending : PendingApproval,
      state.table[k]? = some (some pending) := by
    intro k holds
    obtain ⟨pending, held, _⟩ := held_of_holder ((owned_run run).held i call k here holds)
    exact ⟨pending, held⟩
  have ran : (call.bwRequestApproval late state.table).isSome := by
    cases at_ : call.phase with
    | claim =>
        rw [ApprovalCall.bwRequestApproval, at_]
        cases firstFree state.table <;> rfl
    | ask slot => simp [ApprovalCall.bwRequestApproval, at_]
    | wait slot =>
        obtain ⟨pending, held⟩ := held slot (by rw [at_]; rfl)
        by_cases undecided : pending.decided = 0 <;>
          simp [ApprovalCall.bwRequestApproval, at_, ApprovalCall.check, held, undecided]
    | blocked slot =>
        obtain ⟨pending, held⟩ := held slot (by rw [at_]; rfl)
        cases late
        · by_cases undecided : pending.decided = 0 <;>
            simp [ApprovalCall.bwRequestApproval, at_, ApprovalCall.check, held, undecided]
        · simp [ApprovalCall.bwRequestApproval, at_, ApprovalCall.expire, held]
    | release slot approved => simp [ApprovalCall.bwRequestApproval, at_]
    | returned approved =>
        rw [at_] at going
        contradiction
  obtain ⟨result, ran⟩ := Option.isSome_iff_exists.1 ran
  simp [Approvals.step, here, ran]

theorem approvals_exclusive (run : Run Approvals.step start trace state) :
    (∀ (i j k : Nat) (call other : ApprovalCall), state.calls[i]? = some call →
      state.calls[j]? = some other → call.phase.slot = some k →
      other.phase.slot = some k → i = j) ∧
    (state.table.inUse = state.calls.countP fun call => call.phase.slot.isSome) ∧
    (∀ (i : Nat) (call : ApprovalCall) (approved : Bool), state.calls[i]? = some call →
      call.phase = .returned approved →
      (approved = true ↔ (heard i call.corrId trace).getLast? = some true ∧
        timedOut i trace = false)) ∧
    (∀ (i : Nat) (call : ApprovalCall) (late : Bool), state.calls[i]? = some call →
      call.phase = .claim → state.table.inUse = maxPendingApprovals →
      state.step (.run i late) = some { state with
        calls := state.calls.set i (call.goto (.returned false)) }) := by
  have owned := owned_run run
  refine ⟨fun i j k call other here there holds also =>
    owned.exclusive here there holds also, owned.counted, ?_, ?_⟩
  · intro i call approved here at_
    have told := told_run run i
    simp only [Told, here, at_] at told
    simp [told, verdict]
  · intro i call late here at_ full
    have none_ : firstFree state.table = none :=
      firstFree_eq_none (full.trans owned.size.symm)
    simp [Approvals.step, here, ApprovalCall.bwRequestApproval, at_, none_]

/-- Two requests at once: one is approved before it waits, the other is too late. -/
def twoCalls : List ApprovalLabel :=
  [.call 7, .run 0 false, .call 9, .run 0 false, .run 1 false, .notify 7 true,
    .run 1 false, .run 1 false, .run 0 false, .run 0 false, .run 1 true, .notify 9 true,
    .run 1 false]

theorem approvals_exclusive_two :
    ∃ trace state, Run Approvals.step start trace state ∧
      state.calls = [⟨7, .returned true⟩, ⟨9, .returned false⟩] ∧
      (heard 0 7 trace).getLast? = some true ∧ timedOut 0 trace = false ∧
      timedOut 1 trace = true := by
  have ran : exec Approvals.step twoCalls ⟨noApprovals, []⟩ =
      some ⟨noApprovals, [⟨7, .returned true⟩, ⟨9, .returned false⟩]⟩ := by
    decide +kernel
  have run : Run Approvals.step Approvals.start _ _ := Run.of_exec rfl ran
  have heard := ((approvals_exclusive run).2.2.1 0 ⟨7, .returned true⟩ true rfl rfl).1 rfl
  exact ⟨_, _, run, rfl, heard.1, heard.2, by decide +kernel⟩

end Approvals

end FreeCli

import FreeCli.Library.Transition
import FreeCli.Library.Lists
import FreeCli.Backend.Sends

namespace FreeCli.Providers

open Words Transition Lists

/-! Threads that call `get_provider` at once, and the shutdown that may overtake them. -/

abbrev InitTable := ProviderId → Initialized

/-- The critical section of `get_provider`, when `init` would return `ok`: whether the provider
is given out, and the table. -/
def acquire (provider : ProviderId) (ok : Bool) (table : InitTable) : Bool × InitTable :=
  let table :=
    if table provider = .notTried then
      Function.update table provider (if ok then .ok else .failed)
    else
      table
  (decide (table provider = .ok), table)

namespace Init

inductive Phase where
  /-- before `pthread_mutex_lock` -/
  | lock
  | check
  | init
  | unlock
  /-- before the last look at `initialized`, without the mutex -/
  | read
  | done (given : Bool)
  deriving DecidableEq, Repr

structure Call where
  provider : ProviderId
  phase : Phase
  deriving DecidableEq, Repr

/-- `stopping` lists what `shutdown_providers` has not come to yet. -/
structure State where
  table : InitTable
  mutex : Option Nat
  calls : List Call
  stopping : Option (List ProviderId)

inductive Label where
  | call (id : Option Bytes)
  /-- a thread goes on; if it runs `init`, this returns `ok` -/
  | run (i : Nat) (ok : Bool)
  | hangUp
  | free
  deriving DecidableEq, Repr

/-- What the next section of a call leaves: its phase, the mutex and the table. -/
def Call.run (call : Call) (i : Nat) (ok : Bool) (mutex : Option Nat) (table : InitTable) :
    Option (Phase × Option Nat × InitTable) :=
  match call.phase with
  | .lock => if mutex = none then some (.check, some i, table) else none
  | .check => some (if table call.provider = .notTried then .init else .unlock, mutex, table)
  | .init =>
      some (.unlock, mutex,
        Function.update table call.provider (if ok then .ok else .failed))
  | .unlock => some (.read, none, table)
  | .read => some (.done (decide (table call.provider = .ok)), mutex, table)
  | .done _ => none

def State.step (state : State) : Label → Option State
  | .call id => some { state with calls := state.calls ++ [⟨providerNamed id, .lock⟩] }
  | .run i ok => do
      let call ← state.calls[i]?
      let (phase, mutex, table) ← call.run i ok state.mutex state.table
      some { state with table, mutex, calls := state.calls.set i { call with phase } }
  | .hangUp =>
      match state.stopping with
      | none => some { state with stopping := some [.xai, .anthropic, .google, .ibm] }
      | some _ => none
  | .free =>
      match state.stopping with
      | some (_ :: rest) => some { state with stopping := some rest }
      | _ => none

/-- The table when `main` has tried xAI. -/
def booted (ok : Bool) : InitTable :=
  if ok then Function.update (fun _ => .notTried) .xai .ok else fun _ => .notTried

structure Booted (ok : Bool) (state : State) : Prop where
  table : state.table = booted ok
  mutex : state.mutex = none
  calls : state.calls = []
  stopping : state.stopping = none

abbrev Trace := List (Taken State Label)

structure Effect where
  call : Nat
  provider : ProviderId
  ok : Bool
  deriving DecidableEq, Repr

/-- A call takes effect when it looks at a provider that was tried, or when its `init`
returns. -/
def effectOf (taken : Taken State Label) : Option Effect :=
  match taken.label with
  | .run i ok =>
      taken.src.calls[i]?.bind fun call =>
        if call.phase = .init ∨
            call.phase = .check ∧ taken.src.table call.provider ≠ .notTried then
          some ⟨i, call.provider, ok⟩
        else
          none
  | _ => none

def effects (trace : Trace) : List Effect := trace.filterMap effectOf

def atomically (effects : List Effect) (table : InitTable) : InitTable :=
  effects.foldl (fun table effect => (acquire effect.provider effect.ok table).2) table

def Phase.holds : Phase → Bool
  | .check | .init | .unlock => true
  | _ => false

def Phase.settled : Phase → Bool
  | .unlock | .read | .done _ => true
  | _ => false

/-! ### One call after the other -/

theorem acquire_tried {provider : ProviderId} {table : InitTable}
    (tried : table provider ≠ .notTried) (ok : Bool) :
    acquire provider ok table = (decide (table provider = .ok), table) := by
  rw [acquire, if_neg tried]

theorem acquire_untried {provider : ProviderId} {table : InitTable}
    (untried : table provider = .notTried) (ok : Bool) :
    acquire provider ok table =
      (ok, Function.update table provider (if ok then .ok else .failed)) := by
  rw [acquire, if_pos untried]
  cases ok <;> simp

theorem acquire_settles (provider : ProviderId) (ok : Bool) (table : InitTable) :
    (acquire provider ok table).2 provider ≠ .notTried := by
  by_cases untried : table provider = .notTried
  · rw [acquire_untried untried]
    cases ok <;> simp
  · rwa [acquire_tried untried]

theorem acquire_keeps {provider : ProviderId} {table : InitTable}
    (tried : table provider ≠ .notTried) (other : ProviderId) (ok : Bool) :
    (acquire other ok table).2 provider = table provider := by
  by_cases untried : table other = .notTried
  · have apart : provider ≠ other := by
      rintro rfl
      contradiction
    rw [acquire_untried untried]
    exact Function.update_of_ne apart _ _
  · rw [acquire_tried untried]

theorem atomically_keeps {provider : ProviderId} {table : InitTable}
    (tried : table provider ≠ .notTried) (effects : List Effect) :
    atomically effects table provider = table provider := by
  induction effects generalizing table with
  | nil => rfl
  | cons effect effects ih =>
      have kept := acquire_keeps tried effect.provider effect.ok
      rw [atomically, List.foldl_cons, ← atomically, ih (by rwa [kept]), kept]

theorem atomically_concat (effects : List Effect) (effect : Effect) (table : InitTable) :
    atomically (effects ++ [effect]) table =
      (acquire effect.provider effect.ok (atomically effects table)).2 := by
  rw [atomically, List.foldl_append]
  rfl

/-- What a section of a call does. -/
inductive Moved (call : Call) (i : Nat) (ok : Bool) (table : InitTable) :
    Option Nat → Phase → Option Nat → InitTable → Prop where
  | locked : call.phase = .lock → Moved call i ok table none .check (some i) table
  | untried {mutex : Option Nat} : call.phase = .check → table call.provider = .notTried →
      Moved call i ok table mutex .init mutex table
  | tried {mutex : Option Nat} : call.phase = .check → table call.provider ≠ .notTried →
      Moved call i ok table mutex .unlock mutex table
  | initialized {mutex : Option Nat} : call.phase = .init →
      Moved call i ok table mutex .unlock mutex
        (Function.update table call.provider (if ok then .ok else .failed))
  | unlocked {mutex : Option Nat} : call.phase = .unlock →
      Moved call i ok table mutex .read none table
  | read {mutex : Option Nat} : call.phase = .read →
      Moved call i ok table mutex (.done (decide (table call.provider = .ok))) mutex table

theorem Call.moved {call : Call} {i : Nat} {ok : Bool} {mutex mutex' : Option Nat}
    {table table' : InitTable} {phase : Phase}
    (ran : call.run i ok mutex table = some (phase, mutex', table')) :
    Moved call i ok table mutex phase mutex' table' := by
  rw [Call.run.eq_def] at ran
  cases at_ : call.phase with
  | lock =>
      simp only [at_] at ran
      split at ran
      next free =>
        cases ran
        subst free
        exact .locked at_
      next => contradiction
  | check =>
      simp only [at_] at ran
      cases ran
      split
      next untried => exact .untried at_ untried
      next tried => exact .tried at_ tried
  | init =>
      simp only [at_] at ran
      cases ran
      exact .initialized at_
  | unlock =>
      simp only [at_] at ran
      cases ran
      exact .unlocked at_
  | read =>
      simp only [at_] at ran
      cases ran
      exact .read at_
  | done given =>
      simp only [at_] at ran
      contradiction

variable {state next : State} {label : Label} {trace : Trace} {boot : InitTable}

theorem step_cases (stepped : state.step label = some next) :
    (∃ id, label = .call id ∧
      next = { state with calls := state.calls ++ [⟨providerNamed id, .lock⟩] }) ∨
    (∃ i ok call phase mutex table, label = .run i ok ∧ state.calls[i]? = some call ∧
      Moved call i ok state.table state.mutex phase mutex table ∧
      next = { state with table, mutex, calls := state.calls.set i { call with phase } }) ∨
    (label = .hangUp ∧ state.stopping = none ∧
      next = { state with stopping := some [.xai, .anthropic, .google, .ibm] }) ∨
    ∃ provider rest, label = .free ∧ state.stopping = some (provider :: rest) ∧
      next = { state with stopping := some rest } := by
  cases label with
  | call id =>
      cases stepped
      exact .inl ⟨id, rfl, rfl⟩
  | run i ok =>
      obtain ⟨call, here, stepped⟩ := Option.bind_eq_some_iff.1 stepped
      obtain ⟨⟨phase, mutex, table⟩, ran, stepped⟩ := Option.bind_eq_some_iff.1 stepped
      cases stepped
      exact .inr (.inl ⟨i, ok, call, phase, mutex, table, rfl, here, call.moved ran, rfl⟩)
  | hangUp =>
      rw [State.step] at stepped
      split at stepped
      next serving =>
        cases stepped
        exact .inr (.inr (.inl ⟨rfl, serving, rfl⟩))
      next => contradiction
  | free =>
      rw [State.step] at stepped
      split at stepped
      next provider rest stopping =>
        cases stepped
        exact .inr (.inr (.inr ⟨provider, rest, rfl, stopping, rfl⟩))
      next => contradiction

/-! ### The invariant -/

structure CallInv (trace : Trace) (state : State) (i : Nat) (call : Call) : Prop where
  holder : call.phase.holds = true → state.mutex = some i
  pending : call.phase = .init → state.table call.provider = .notTried
  unsettled : call.phase.settled = false → ∀ effect ∈ effects trace, effect.call ≠ i
  tried : call.phase.settled = true → state.table call.provider ≠ .notTried
  settled : call.phase.settled = true → ∃ before ok after,
    effects trace = before ++ ⟨i, call.provider, ok⟩ :: after ∧
      ∀ effect ∈ before ++ after, effect.call ≠ i
  given : ∀ given, call.phase = .done given → given = decide (state.table call.provider = .ok)

structure Inv (boot : InitTable) (trace : Trace) (state : State) : Prop where
  table : state.table = atomically (effects trace) boot
  calls : ∀ (i : Nat) (call : Call), state.calls[i]? = some call → CallInv trace state i call
  bounded : ∀ effect ∈ effects trace, effect.call < state.calls.length

theorem effects_concat (taken : Taken State Label) :
    effects (trace ++ [taken]) = effects trace ++ (effectOf taken).toList := by
  rw [effects, List.filterMap_append]
  cases same : effectOf taken <;> simp [effects, same]

theorem effects_aside {taken : Taken State Label} (none : effectOf taken = none) :
    effects (trace ++ [taken]) = effects trace := by
  rw [effects_concat, none]
  exact List.append_nil _

section Step

variable {i : Nat} {ok : Bool} {call : Call} {phase : Phase} {mutex : Option Nat}
  {table : InitTable}

theorem Moved.effect (here : state.calls[i]? = some call) (own : CallInv trace state i call)
    (moved : Moved call i ok state.table state.mutex phase mutex table) (next : State) :
    effectOf ⟨state, .run i ok, next⟩ = none ∧ table = state.table ∧
        phase.settled = call.phase.settled ∨
      effectOf ⟨state, .run i ok, next⟩ = some ⟨i, call.provider, ok⟩ ∧
        table = (acquire call.provider ok state.table).2 ∧ phase = .unlock ∧
        call.phase.holds = true ∧ call.phase.settled = false := by
  have looked : effectOf ⟨state, .run i ok, next⟩ =
      if call.phase = .init ∨ call.phase = .check ∧ state.table call.provider ≠ .notTried then
        some ⟨i, call.provider, ok⟩
      else none := by
    simp only [effectOf, here, Option.bind_some]
  rw [looked]
  generalize state.mutex = before at moved
  cases moved with
  | locked at_ | unlocked at_ | read at_ => exact .inl (by simp [at_, Phase.settled])
  | untried at_ untried => exact .inl (by simp [at_, untried, Phase.settled])
  | tried at_ tried =>
      exact .inr (by simp [at_, tried, acquire_tried tried, Phase.holds, Phase.settled])
  | initialized at_ =>
      exact .inr (by simp [at_, acquire_untried (own.pending at_), Phase.holds, Phase.settled])

theorem Moved.holder (moved : Moved call i ok state.table state.mutex phase mutex table) :
    mutex = state.mutex ∨ state.mutex = none ∧ mutex = some i ∨ call.phase.holds = true := by
  generalize state.mutex = before at moved
  cases moved with
  | locked => exact .inr (.inl ⟨rfl, rfl⟩)
  | untried | tried | initialized | read => exact .inl rfl
  | unlocked at_ => exact .inr (.inr (by rw [at_]; rfl))

theorem Moved.holds (moved : Moved call i ok state.table state.mutex phase mutex table)
    (own : CallInv trace state i call) (holds : phase.holds = true) : mutex = some i := by
  have holder := own.holder
  generalize state.mutex = before at moved holder
  cases moved with
  | locked => rfl
  | untried at_ | tried at_ | initialized at_ => exact holder (by rw [at_]; rfl)
  | unlocked | read => contradiction

theorem Moved.pending (moved : Moved call i ok state.table state.mutex phase mutex table)
    (is_ : phase = .init) : table call.provider = .notTried := by
  generalize state.mutex = before at moved
  cases moved with
  | untried _ untried => exact untried
  | locked | tried | initialized | unlocked | read => contradiction

theorem Moved.given (moved : Moved call i ok state.table state.mutex phase mutex table)
    {given : Bool} (is_ : phase = .done given) :
    given = decide (table call.provider = .ok) := by
  generalize state.mutex = before at moved
  cases moved with
  | read => exact (Phase.done.inj is_).symm
  | locked | untried | tried | initialized | unlocked => contradiction

end Step

theorem CallInv.other {j : Nat} {mine : Call} {more : List Effect}
    (inv : CallInv trace state j mine) {taken : Taken State Label}
    (added : effects (trace ++ [taken]) = effects trace ++ more)
    (apart : ∀ effect ∈ more, effect.call ≠ j)
    (held : mine.phase.holds = true → next.mutex = some j)
    (pending : mine.phase = .init → next.table mine.provider = state.table mine.provider)
    (kept : state.table mine.provider ≠ .notTried →
      next.table mine.provider = state.table mine.provider) :
    CallInv (trace ++ [taken]) next j mine where
  holder := held
  pending at_ := (pending at_).trans (inv.pending at_)
  unsettled still effect inside := by
    rw [added] at inside
    rcases List.mem_append.1 inside with earlier | new
    · exact inv.unsettled still effect earlier
    · exact apart effect new
  tried settled := by
    rw [kept (inv.tried settled)]
    exact inv.tried settled
  settled settled := by
    obtain ⟨before, ok, after, split, others⟩ := inv.settled settled
    refine ⟨before, ok, after ++ more, by rw [added, split]; simp, fun effect inside => ?_⟩
    rw [← List.append_assoc] at inside
    rcases List.mem_append.1 inside with earlier | new
    · exact others effect earlier
    · exact apart effect new
  given given at_ := by
    rw [kept (inv.tried (by rw [at_]; rfl))]
    exact inv.given given at_

theorem Inv.called (inv : Inv boot trace state) (id : Option Bytes)
    (is_ : next = { state with calls := state.calls ++ [⟨providerNamed id, .lock⟩] }) :
    Inv boot (trace ++ [⟨state, .call id, next⟩]) next := by
  have same : effects (trace ++ [⟨state, .call id, next⟩]) = effects trace := effects_aside rfl
  subst is_
  refine ⟨by rw [same]; exact inv.table, fun i call here => ?_, fun effect inside => ?_⟩
  · rcases getElem?_concat_cases here with earlier | ⟨last, rfl⟩
    · have own := inv.calls i call earlier
      exact own.other (same.trans (List.append_nil _).symm) (by simp) own.holder (fun _ => rfl)
        fun _ => rfl
    · refine ⟨nofun, nofun, fun _ effect inside => ?_, nofun, nofun, nofun⟩
      rw [same] at inside
      have bound := inv.bounded effect inside
      omega
  · rw [same] at inside
    have bound := inv.bounded effect inside
    simp only [List.length_append, List.length_singleton]
    omega

theorem Inv.ran (inv : Inv boot trace state) {i : Nat} {ok : Bool} {call : Call} {phase : Phase}
    {mutex : Option Nat} {table : InitTable} (here : state.calls[i]? = some call)
    (moved : Moved call i ok state.table state.mutex phase mutex table)
    (is_ : next = { state with table, mutex, calls := state.calls.set i { call with phase } }) :
    Inv boot (trace ++ [⟨state, .run i ok, next⟩]) next := by
  have own := inv.calls i call here
  have calls : next.calls = state.calls.set i { call with phase } := by rw [is_]
  have length : next.calls.length = state.calls.length := by rw [calls, List.length_set]
  have tableIs : next.table = table := by rw [is_]
  have mutexIs : next.mutex = mutex := by rw [is_]
  -- a call that holds the mutex keeps it while another one moves
  have held : ∀ j mine, j ≠ i → state.calls[j]? = some mine → mine.phase.holds = true →
      next.mutex = some j := by
    intro j mine apart there holds
    have its := (inv.calls j mine there).holder holds
    rw [mutexIs]
    rcases moved.holder with same | ⟨free, -⟩ | also
    · rw [same, its]
    · rw [free] at its
      contradiction
    · rw [own.holder also] at its
      exact absurd (Option.some.inj its).symm apart
  -- the other calls are as they were, this one has its new phase
  have each (old : Inv boot trace state) {more : List Effect}
      (added : effects (trace ++ [⟨state, .run i ok, next⟩]) = effects trace ++ more)
      (mine : ∀ effect ∈ more, effect.call = i)
      (table_ : next.table = atomically (effects trace ++ more) boot)
      (pending : ∀ j other, j ≠ i → state.calls[j]? = some other → other.phase = .init →
        next.table other.provider = state.table other.provider)
      (kept : ∀ provider, state.table provider ≠ .notTried →
        next.table provider = state.table provider)
      (self : CallInv (trace ++ [⟨state, .run i ok, next⟩]) next i { call with phase }) :
      Inv boot (trace ++ [⟨state, .run i ok, next⟩]) next := by
    refine ⟨by rw [added]; exact table_, fun j other there => ?_, fun effect inside => ?_⟩
    · by_cases apart : j = i
      · subst apart
        rw [calls, List.getElem?_set_self (List.getElem?_eq_some_iff.1 here).1] at there
        obtain rfl := Option.some.inj there
        exact self
      · rw [calls, List.getElem?_set_ne (Ne.symm apart)] at there
        refine (old.calls j other there).other added (fun effect inside => ?_)
          (held j other apart there) (pending j other apart there) (kept _)
        rw [mine effect inside]
        exact Ne.symm apart
    · rw [added] at inside
      rw [length]
      rcases List.mem_append.1 inside with earlier | new
      · exact old.bounded effect earlier
      · rw [mine effect new]
        exact (List.getElem?_eq_some_iff.1 here).1
  have holder : phase.holds = true → next.mutex = some i := fun holds => by
    rw [mutexIs]
    exact moved.holds own holds
  have pending : phase = .init → next.table call.provider = .notTried := fun at_ => by
    rw [tableIs]
    exact moved.pending at_
  have given : ∀ given, phase = .done given → given = decide (next.table call.provider = .ok) :=
    fun given at_ => by
      rw [tableIs]
      exact moved.given at_
  rcases moved.effect here own next with ⟨none, same, settled⟩ |
    ⟨effect, acquired, rfl, holds, still⟩
  · have added : effects (trace ++ [⟨state, .run i ok, next⟩]) = effects trace :=
      effects_aside none
    have same : next.table = state.table := tableIs.trans same
    refine each inv (added.trans (List.append_nil _).symm) (by simp) ?_
      (fun _ _ _ _ _ => by rw [same]) (fun _ _ => by rw [same])
      ⟨holder, pending, ?_, ?_, ?_, given⟩
    · rw [same, List.append_nil, inv.table]
    · rw [added, settled]
      exact own.unsettled
    · rw [same, settled]
      exact own.tried
    · rw [added, settled]
      exact own.settled
  · have added : effects (trace ++ [⟨state, .run i ok, next⟩]) =
        effects trace ++ [⟨i, call.provider, ok⟩] := by rw [effects_concat, effect]; rfl
    have acquired := tableIs.trans acquired
    refine each inv added (by simp) ?_ (fun j other apart there at_ => ?_) (fun provider tried => ?_)
      ⟨holder, pending, nofun, fun _ => ?_, fun _ => ?_, given⟩
    · rw [acquired, inv.table, atomically_concat]
    · have its := (inv.calls j other there).holder (by rw [at_]; rfl)
      rw [own.holder holds] at its
      exact absurd (Option.some.inj its).symm apart
    · rw [acquired]
      exact acquire_keeps tried _ _
    · rw [acquired]
      exact acquire_settles _ _ _
    · refine ⟨effects trace, ok, [], added, fun effect inside => ?_⟩
      rw [List.append_nil] at inside
      exact own.unsettled still effect inside

theorem Inv.aside (inv : Inv boot trace state) (none : effectOf ⟨state, label, next⟩ = none)
    (table : next.table = state.table) (mutex : next.mutex = state.mutex)
    (calls : next.calls = state.calls) : Inv boot (trace ++ [⟨state, label, next⟩]) next := by
  have same : effects (trace ++ [⟨state, label, next⟩]) = effects trace := effects_aside none
  refine ⟨by rw [same, table]; exact inv.table, fun i call here => ?_, ?_⟩
  · have own := inv.calls i call (calls ▸ here)
    exact own.other (same.trans (List.append_nil _).symm) (by simp)
      (by rw [mutex]; exact own.holder) (fun _ => by rw [table]) fun _ => by rw [table]
  · rw [same, calls]
    exact inv.bounded

theorem Inv.step (inv : Inv boot trace state) (stepped : state.step label = some next) :
    Inv boot (trace ++ [⟨state, label, next⟩]) next := by
  rcases step_cases stepped with ⟨id, rfl, is_⟩ | ⟨i, ok, call, phase, mutex, table, rfl, here,
    moved, is_⟩ | ⟨rfl, -, rfl⟩ | ⟨provider, rest, rfl, -, rfl⟩
  · exact inv.called id is_
  · exact inv.ran here moved is_
  · exact inv.aside rfl rfl rfl rfl
  · exact inv.aside rfl rfl rfl rfl

theorem Inv.start {ok : Bool} (start : Booted ok state) : Inv (booted ok) [] state where
  table := start.table
  calls i call here := by
    rw [start.calls] at here
    contradiction
  bounded := nofun

theorem Inv.reached {ok : Bool} (run : Run State.step (Booted ok) trace state) :
    Inv (booted ok) trace state :=
  run.invariant_trace (fun _ => True) (Inv (booted ok)) (fun _ start => .start start)
    (fun _ _ _ _ _ _ inv stepped _ => inv.step stepped) fun _ _ => trivial

/-- However the threads take turns, `get_provider` works as if the calls came one after the
other, each at a moment between its start and its end. -/
theorem linearizable {ok : Bool} (run : Run State.step (Booted ok) trace state) :
    state.table = atomically (effects trace) (booted ok) ∧
      ∀ (i : Nat) (call : Call) (given : Bool), state.calls[i]? = some call →
        call.phase = .done given → ∃ before ok' after,
          effects trace = before ++ ⟨i, call.provider, ok'⟩ :: after ∧
          (∀ effect ∈ before ++ after, effect.call ≠ i) ∧
          given = (acquire call.provider ok' (atomically before (booted ok))).1 := by
  have inv := Inv.reached run
  refine ⟨inv.table, fun i call given here at_ => ?_⟩
  have own := inv.calls i call here
  obtain ⟨before, ok', after, split, others⟩ := own.settled (by rw [at_]; rfl)
  refine ⟨before, ok', after, split, others, ?_⟩
  -- what the call found is what stands there since
  have kept : state.table call.provider =
      (acquire call.provider ok' (atomically before (booted ok))).2 call.provider := by
    rw [inv.table, split, atomically, List.foldl_append, List.foldl_cons]
    exact atomically_keeps (acquire_settles _ _ _) after
  rw [own.given given at_, kept]
  rfl

/-- Two threads ask for Google, and the second waits for the first; then the TUI hangs up. -/
def race : List Label :=
  [.call (some (ascii "google")), .call (some (ascii "google")), .run 0 true, .run 0 true,
    .run 0 true, .run 0 true, .run 1 true, .run 0 true, .run 1 true, .run 1 true, .run 1 true,
    .hangUp, .free, .free, .free, .free]

def serving : State := ⟨booted false, none, [], none⟩

def raced : State := (exec State.step race serving).get (by decide)

theorem race_run : Run State.step (Booted false) (execTrace State.step race serving) raced :=
  .of_exec ⟨rfl, rfl, rfl, rfl⟩ (Option.some_get _).symm

/-- The second call gets what the first one initialised. -/
theorem linearizable_race : ∃ before ok after,
    effects (execTrace State.step race serving) = before ++ ⟨1, .google, ok⟩ :: after ∧
      (∀ effect ∈ before ++ after, effect.call ≠ 1) ∧
      true = (acquire .google ok (atomically before (booted false))).1 :=
  (linearizable race_run).2 1 ⟨.google, .done true⟩ true (by decide) rfl

/-- The critical section is what `get_provider` does when nobody interrupts it. -/
theorem getProvider_acquire {lib : Doubles} {World : Type} (platform : Platform lib World)
    (backend : Backend World) (id : Option Bytes) :
    let acquired := acquire (providerNamed id)
      (initProvider platform backend (providerNamed id)).1 backend.initialized
    (getProvider platform backend id).1 =
        (if acquired.1 then some (providerNamed id) else none) ∧
      (getProvider platform backend id).2.initialized = acquired.2 := by
  have initialized : (initProvider platform backend (providerNamed id)).2.initialized =
      backend.initialized := by
    rcases initProvider_cases platform backend (providerNamed id) with ⟨_, is_⟩ | ⟨-, _, -, is_⟩ <;>
      rw [is_]
  by_cases untried : backend.initialized (providerNamed id) = .notTried
  · simp only [getProvider, acquire, untried, if_pos, initialized, decide_eq_true_eq, and_self]
  · simp only [getProvider, acquire, untried, if_false, decide_eq_true_eq, and_self]

inductive Life where
  | init (ok : Bool)
  | free
  deriving DecidableEq, Repr

/-- What happens to a provider in a step. -/
def lifeOf (provider : ProviderId) (taken : Taken State Label) : Option Life :=
  match taken.label with
  | .run i ok =>
      taken.src.calls[i]?.bind fun call =>
        if call.phase = .init ∧ call.provider = provider then some (.init ok) else none
  | .free =>
      match taken.src.stopping with
      | some (next :: _) =>
          if next = provider ∧ taken.src.table next = .ok then some .free else none
      | _ => none
  | _ => none

def life (provider : ProviderId) (trace : Trace) : List Life :=
  trace.filterMap (lifeOf provider)

structure Lived (provider : ProviderId) (boot : InitTable) (trace : Trace) (state : State) :
    Prop where
  born : boot provider = .ok → state.table provider = .ok
  untried : state.table provider = .notTried → life provider trace = []
  failed : state.table provider = .failed → life provider trace = [.init false]
  ok : state.table provider = .ok →
    life provider trace = (if boot provider = .ok then [] else [.init true]) ∨
      life provider trace = (if boot provider = .ok then [] else [.init true]) ++ [.free] ∧
        ∃ todo, state.stopping = some todo ∧ provider ∉ todo
  nodup : ∀ todo, state.stopping = some todo → todo.Nodup

variable {provider : ProviderId}

theorem life_concat (taken : Taken State Label) :
    life provider (trace ++ [taken]) = life provider trace ++ (lifeOf provider taken).toList := by
  rw [life, List.filterMap_append]
  cases same : lifeOf provider taken <;> simp [life, same]

theorem Lived.aside (lived : Lived provider boot trace state)
    (none : lifeOf provider ⟨state, label, next⟩ = none)
    (table : next.table provider = state.table provider)
    (todo : ∀ todo, next.stopping = some todo → todo.Nodup)
    (gone : ∀ todo, state.stopping = some todo → provider ∉ todo →
      ∃ todo, next.stopping = some todo ∧ provider ∉ todo) :
    Lived provider boot (trace ++ [⟨state, label, next⟩]) next := by
  have same : life provider (trace ++ [⟨state, label, next⟩]) = life provider trace := by
    rw [life_concat, none]
    exact List.append_nil _
  refine ⟨by rw [table]; exact lived.born, by rw [table, same]; exact lived.untried,
    by rw [table, same]; exact lived.failed, fun at_ => ?_, todo⟩
  rw [table] at at_
  rw [same]
  rcases lived.ok at_ with alive | ⟨freed, left, stopping, out⟩
  · exact .inl alive
  · exact .inr ⟨freed, gone left stopping out⟩

theorem Lived.ran (lived : Lived provider boot trace state) (inv : Inv boot trace state) {i : Nat}
    {ok : Bool} {call : Call} {phase : Phase} {mutex : Option Nat} {table : InitTable}
    (here : state.calls[i]? = some call)
    (moved : Moved call i ok state.table state.mutex phase mutex table)
    (is_ : next = { state with table, mutex, calls := state.calls.set i { call with phase } }) :
    Lived provider boot (trace ++ [⟨state, .run i ok, next⟩]) next := by
  have looked : lifeOf provider ⟨state, .run i ok, next⟩ =
      if call.phase = .init ∧ call.provider = provider then some (.init ok) else none := by
    simp only [lifeOf, here, Option.bind_some]
  have tableIs : next.table = table := by rw [is_]
  have stopping : next.stopping = state.stopping := by rw [is_]
  by_cases mine : call.phase = .init ∧ call.provider = provider
  · rw [if_pos mine] at looked
    obtain ⟨at_, rfl⟩ := mine
    have untried := (inv.calls i call here).pending at_
    have set : table call.provider = if ok then .ok else .failed := by
      generalize state.mutex = before at moved
      cases moved with
      | initialized => exact Function.update_self ..
      | locked other | untried other | tried other | unlocked other | read other =>
          rw [other] at at_
          contradiction
    have unborn : boot call.provider ≠ .ok := fun born => by
      rw [lived.born born] at untried
      contradiction
    have first : life call.provider (trace ++ [⟨state, .run i ok, next⟩]) = [.init ok] := by
      rw [life_concat, looked, lived.untried untried]
      rfl
    rw [← tableIs] at set
    refine ⟨fun born => absurd born unborn, fun at_ => ?_, fun at_ => ?_, fun at_ => ?_,
      by rw [stopping]; exact lived.nodup⟩
    · rw [set] at at_
      cases ok <;> contradiction
    · rw [set] at at_
      cases ok with
      | true => contradiction
      | false => exact first
    · rw [set] at at_
      cases ok with
      | true => exact .inl (by rw [first, if_neg unborn])
      | false => contradiction
  · rw [if_neg mine] at looked
    have same : table provider = state.table provider := by
      generalize state.mutex = before at moved
      cases moved with
      | initialized at_ =>
          exact Function.update_of_ne (fun same => mine ⟨at_, same.symm⟩) _ _
      | locked | untried | tried | unlocked | read => rfl
    refine lived.aside looked (by rw [tableIs, same]) (by rw [stopping]; exact lived.nodup) ?_
    rw [stopping]
    exact fun todo left out => ⟨todo, left, out⟩

theorem Lived.freed (lived : Lived provider boot trace state) {q : ProviderId}
    {rest : List ProviderId} (stopping : state.stopping = some (q :: rest))
    (is_ : next = { state with stopping := some rest }) :
    Lived provider boot (trace ++ [⟨state, .free, next⟩]) next := by
  have looked : lifeOf provider ⟨state, .free, next⟩ =
      if q = provider ∧ state.table q = .ok then some .free else none := by
    simp only [lifeOf, stopping]
  have table : next.table = state.table := by rw [is_]
  have left : next.stopping = some rest := by rw [is_]
  have nodup := List.nodup_cons.1 (lived.nodup _ stopping)
  have rests : ∀ todo, next.stopping = some todo → todo.Nodup := fun todo same => by
    rw [left] at same
    obtain rfl := Option.some.inj same
    exact nodup.2
  by_cases mine : q = provider ∧ state.table q = .ok
  · rw [if_pos mine] at looked
    obtain ⟨rfl, at_⟩ := mine
    rcases lived.ok at_ with alive | ⟨-, todo, same, out⟩
    · have freed : life q (trace ++ [⟨state, .free, next⟩]) =
          (if boot q = .ok then [] else [.init true]) ++ [.free] := by
        rw [life_concat, looked, alive]
        rfl
      refine ⟨fun _ => by rw [table, at_], fun other => ?_, fun other => ?_,
        fun _ => .inr ⟨freed, rest, left, nodup.1⟩, rests⟩ <;>
      · rw [table, at_] at other
        contradiction
    · rw [stopping] at same
      obtain rfl := Option.some.inj same
      exact absurd List.mem_cons_self out
  · rw [if_neg mine] at looked
    refine lived.aside looked (by rw [table]) rests fun todo same out => ⟨rest, left, ?_⟩
    rw [stopping] at same
    obtain rfl := Option.some.inj same
    exact fun inside => out (List.mem_cons_of_mem _ inside)

theorem Lived.step (lived : Lived provider boot trace state) (inv : Inv boot trace state)
    (stepped : state.step label = some next) :
    Lived provider boot (trace ++ [⟨state, label, next⟩]) next := by
  rcases step_cases stepped with ⟨id, rfl, rfl⟩ | ⟨i, ok, call, phase, mutex, table, rfl, here,
    moved, is_⟩ | ⟨rfl, serving, rfl⟩ | ⟨q, rest, rfl, stopping, is_⟩
  · exact lived.aside rfl rfl lived.nodup fun todo stopping out => ⟨todo, stopping, out⟩
  · exact lived.ran inv here moved is_
  · refine lived.aside rfl rfl (fun todo same => ?_) fun todo stopping => ?_
    · obtain rfl := Option.some.inj same
      decide
    · rw [serving] at stopping
      contradiction
  · exact lived.freed stopping is_

theorem Lived.start {ok : Bool} (start : Booted ok state) (provider : ProviderId) :
    Lived provider (booted ok) [] state where
  born := by
    rw [start.table]
    exact id
  untried _ := rfl
  failed failed := by
    rw [start.table, booted] at failed
    split at failed
    · by_cases same : provider = .xai <;> simp [same] at failed
    · contradiction
  ok given := by
    rw [start.table] at given
    exact .inl (by rw [if_pos given]; rfl)
  nodup todo stopping := by
    rw [start.stopping] at stopping
    contradiction

theorem booted_ok (ok : Bool) (provider : ProviderId) :
    booted ok provider = .ok ↔ ok = true ∧ provider = .xai := by
  by_cases same : provider = .xai <;> cases ok <;> simp [booted, same]

/-- Each provider is initialised once, whoever asks for it first, and freed once, if that
succeeded; only xAI may have been initialised before. -/
theorem lives {ok : Bool} (run : Run State.step (Booted ok) trace state)
    (provider : ProviderId) :
    life provider trace ∈
      if ok = true ∧ provider = .xai then [[], [.free]]
      else [[], [.init false], [.init true], [.init true, .free]] := by
  have lived : Inv (booted ok) trace state ∧ Lived provider (booted ok) trace state :=
    run.invariant_trace (fun _ => True)
      (fun trace state => Inv (booted ok) trace state ∧ Lived provider (booted ok) trace state)
      (fun _ start => ⟨.start start, .start start provider⟩)
      (fun _ _ _ _ _ _ both stepped _ => ⟨both.1.step stepped, both.2.step both.1 stepped⟩)
      fun _ _ => trivial
  have lived := lived.2
  simp only [← booted_ok]
  cases at_ : state.table provider with
  | notTried =>
      rw [lived.untried at_]
      split <;> simp
  | failed =>
      have unborn : booted ok provider ≠ .ok := fun born => by
        rw [lived.born born] at at_
        contradiction
      rw [lived.failed at_, if_neg unborn]
      simp
  | ok =>
      rcases lived.ok at_ with alive | ⟨freed, -⟩
      · rw [alive]
        split <;> simp
      · rw [freed]
        split <;> simp

theorem lives_race : life .google (execTrace State.step race serving) = [.init true, .free] ∧
    life .google (execTrace State.step race serving) ∈
      if false = true ∧ ProviderId.google = .xai then [[], [.free]]
      else [[], [.init false], [.init true], [.init true, .free]] :=
  ⟨by decide, lives race_run .google⟩

/-- At most one call is inside of the mutex; and `initialized` does not change any more when it is
read without it. -/
theorem read_undisturbed {ok : Bool} (run : Run State.step (Booted ok) trace state) {i j : Nat}
    {one two : Call} (here : state.calls[i]? = some one) (there : state.calls[j]? = some two) :
    (one.phase.holds = true → two.phase.holds = true → i = j) ∧
      (one.phase = .read → two.phase = .init → one.provider ≠ two.provider) := by
  have inv := Inv.reached run
  have first := inv.calls i one here
  have second := inv.calls j two there
  constructor
  · intro holds also
    have mutex := first.holder holds
    rw [second.holder also] at mutex
    exact (Option.some.inj mutex).symm
  · intro reads writes same
    have tried := first.tried (by rw [reads]; rfl)
    rw [same] at tried
    exact tried (second.pending writes)

/-- One thread is about to look at Google's entry while another one initialises Anthropic. -/
def overlap : List Label :=
  [.call (some (ascii "google")), .call (some (ascii "anthropic")), .run 0 true, .run 0 true,
    .run 0 true, .run 0 true, .run 1 true, .run 1 true]

def overlapped : State := (exec State.step overlap serving).get (by decide)

theorem read_undisturbed_overlap :
    overlapped.calls = [⟨.google, .read⟩, ⟨.anthropic, .init⟩] ∧
      ProviderId.google ≠ .anthropic := by
  have calls : overlapped.calls = [⟨.google, .read⟩, ⟨.anthropic, .init⟩] := by decide
  have run : Run State.step (Booted false) (execTrace State.step overlap serving) overlapped :=
    .of_exec ⟨rfl, rfl, rfl, rfl⟩ (Option.some_get _).symm
  have first : overlapped.calls[0]? = some ⟨.google, .read⟩ := by rw [calls]; rfl
  have second : overlapped.calls[1]? = some ⟨.anthropic, .init⟩ := by rw [calls]; rfl
  exact ⟨calls, (read_undisturbed run first second).2 rfl rfl⟩

end Init

end FreeCli.Providers

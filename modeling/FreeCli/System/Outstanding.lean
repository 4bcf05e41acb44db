import FreeCli.System.Entries

namespace FreeCli

open Words FileTree Slots Transition

/-! One outstanding chat request per session. -/

def ToBackend.submission : ToBackend → Option (Nat × Nat)
  | .reqSend corrId sessionIdx .. => some (corrId, sessionIdx)
  | _ => none

namespace System

variable {priv : FsPriv} {sys dst : System} {label : Label}
  {trace : List (Taken System Label)}

def submissions (taken : Taken System Label) : List (Nat × Nat) :=
  (sentBy taken).filterMap ToBackend.submission

def deletion (taken : Taken System Label) : Option Int :=
  match taken.label with
  | .key ch env => taken.src.tui.deleteAsked ch env
  | _ => none

def workerRequests (taken : Taken System Label) : List ToBackend :=
  (sentBy taken).filter fun msg => msg.requestId.isSome && msg.submission.isNone

def track (requests : List (Nat × Nat)) (taken : Taken System Label) :
    List (Nat × Nat) :=
  match taken.label with
  | .key .. => requests ++ submissions taken
  | .poll .. =>
      match (received taken).bind ToTui.replies with
      | some c => requests.filter fun request => request.1 ≠ c
      | none => requests
  | .lost => []
  | _ => requests

/-- The chat requests sent in a run whose reply was not processed, unless the
connection was lost since. -/
def outstanding (trace : List (Taken System Label)) : List (Nat × Nat) :=
  trace.foldl track []

/-- A chat request is sent for no session that has one outstanding. -/
def OneOutstanding (trace : List (Taken System Label)) : Prop :=
  ∀ earlier taken later, trace = earlier ++ taken :: later →
    ∀ request ∈ submissions taken, ∀ other ∈ outstanding earlier,
      other.2 ≠ request.2

/-- A chat request that is sent finds a free slot in the in-flight table. -/
def FreeSlot (taken : Taken System Label) : Prop :=
  submissions taken ≠ [] → none ∈ taken.src.tui.inFlight

instance (taken : Taken System Label) : Decidable (FreeSlot taken) :=
  inferInstanceAs (Decidable (_ → _))

theorem mem_submissions (member : (c, i) ∈ submissions taken) :
    ∃ msgs model provider, .reqSend c i msgs model provider ∈ sentBy taken := by
  obtain ⟨msg, sent, same⟩ := List.mem_filterMap.1 member
  cases msg with
  | reqSend corrId sessionIdx msgs model provider =>
      cases same
      exact ⟨msgs, model, provider, sent⟩
  | _ => contradiction

theorem mem_track {requests : List (Nat × Nat)}
    (member : request ∈ track requests taken) :
    request ∈ submissions taken ∨
      (request ∈ requests ∧ taken.label ≠ .lost ∧
        (received taken).bind ToTui.replies ≠ some request.1) := by
  rw [track.eq_def] at member
  split at member
  next ch env step =>
    rcases List.mem_append.1 member with before | sent
    · exact .inr ⟨before, by simp [step], by simp [received, step]⟩
    · exact .inl sent
  next beyond choices step =>
    split at member
    next c replied =>
      obtain ⟨before, differs⟩ := List.mem_filter.1 member
      refine .inr ⟨before, by simp [step], fun same => ?_⟩
      rw [replied] at same
      simp [Option.some.inj same] at differs
    next unreplied => exact .inr ⟨member, by simp [step], by simp [unreplied]⟩
  next => exact absurd member List.not_mem_nil
  next other polls losses =>
    refine .inr ⟨member, losses, ?_⟩
    rw [received]
    split
    next step => exact absurd step (polls _ _)
    next => simp

def Tracked (sys : System) (request : Nat × Nat) : Prop :=
  ChatRequest sys request.1 request.2 ∧ ∃ entry ∈ occupied sys.tui.inFlight,
    entry.corrId = request.1 ∧ entry.sessionIdx = request.2 ∧ entry.depth = 0

theorem Tracked.of_submission (moved : sys.Move priv label dst)
    (numbered : Numbered sys) (free : FreeSlot ⟨sys, label, dst⟩)
    (member : request ∈ submissions ⟨sys, label, dst⟩) : Tracked dst request := by
  have room := free (List.ne_nil_of_mem member)
  obtain ⟨msgs, model, provider, sent⟩ := mem_submissions member
  cases moved with
  | key ch env =>
      obtain ⟨fresh, text, submits⟩ :=
        (Tui.mainKey_outcome ch env numbered.positive).submits sent
      obtain ⟨name, table⟩ := submits.inFlight
      refine ⟨.inl ⟨msgs, model, provider, List.mem_append_right _ sent⟩,
        .request sys.tui.nextCorr request.2 name, ?_, fresh.symm, rfl, rfl⟩
      simp only [table]
      exact mem_inflightAdd room _ _ _
  | _ => exact absurd sent List.not_mem_nil

theorem Tracked.move (tracked : Tracked sys request)
    (moved : sys.Move priv label dst) (numbered : Numbered sys)
    (origins : Origins sys) (few : sys.tui.nextCorr ≤ firstSubCorr)
    (open_ : label ≠ .lost)
    (unreplied : (received ⟨sys, label, dst⟩).bind ToTui.replies ≠ some request.1) :
    Tracked dst request := by
  obtain ⟨asked, entry, member, same, place, top⟩ := tracked
  refine ⟨asked.move moved, entry, ?_, same, place, top⟩
  rcases moved.entry_stays numbered origins few member (same ▸ asked) with stays |
    lost | ⟨msg, rest, arrives, _, replies⟩
  · exact stays
  · exact absurd lost open_
  · rw [arrives, Option.bind_some, replies, same] at unreplied
    exact absurd rfl unreplied

theorem run_tracked (run : Run (System.step priv) (Start priv) trace sys)
    (few : ∀ taken ∈ trace, Few taken) (free : ∀ taken ∈ trace, FreeSlot taken) :
    ∀ request ∈ outstanding trace, Tracked sys request := by
  refine run.invariant_trace (fun taken => Few taken ∧ FreeSlot taken)
    (fun trace sys => ∀ request ∈ outstanding trace, Tracked sys request) ?_ ?_
    fun taken member => ⟨few taken member, free taken member⟩
  · intro _ _ _ member
    exact absurd member List.not_mem_nil
  · intro trace src label dst before earlier tracked stepped last request member
    have moved := step_move stepped
    have numbered := run_numbered before
    rw [outstanding, List.foldl_concat] at member
    rcases mem_track member with sent | ⟨old, open_, unreplied⟩
    · exact .of_submission moved numbered last.2 sent
    · exact (tracked request old).move moved numbered (run_origins before)
        (run_few before fun taken member => (earlier taken member).1) open_ unreplied

theorem Tracked.busy {i : Nat} (tracked : Tracked sys request)
    (free : inflightSessionActive sys.tui.inFlight i = false) : request.2 ≠ i := by
  rintro rfl
  obtain ⟨_, entry, member, _, place, top⟩ := tracked
  have busy : inflightSessionActive sys.tui.inFlight request.2 = true := by
    rw [inflightSessionActive, List.any_eq_true]
    exact ⟨entry, member, by simp [place, top]⟩
  rw [free] at busy
  contradiction

theorem Move.submits_free (moved : sys.Move priv label dst)
    (positive : 0 < sys.tui.nextCorr)
    (member : request ∈ submissions ⟨sys, label, dst⟩) :
    inflightSessionActive sys.tui.inFlight request.2 = false := by
  obtain ⟨msgs, model, provider, sent⟩ := mem_submissions member
  cases moved with
  | key ch env =>
      obtain ⟨_, text, submits⟩ := (Tui.mainKey_outcome ch env positive).submits sent
      exact submits.free
  | _ => exact absurd sent List.not_mem_nil

theorem one_outstanding (run : Run (System.step priv) (Start priv) trace sys)
    (few : ∀ taken ∈ trace, Few taken) (free : ∀ taken ∈ trace, FreeSlot taken) :
    OneOutstanding trace := by
  rintro earlier taken later rfl request member other open_
  obtain ⟨before, stepped⟩ := run.split
  have tracked := run_tracked before
    (fun taken member => few taken (List.mem_append_left _ member))
    (fun taken member => free taken (List.mem_append_left _ member)) other open_
  exact tracked.busy ((step_move stepped).submits_free
    (run_numbered before).positive member)

def againLabels : List Label :=
  [line "hi"] ++ answered 0 ++ [.poll [] [], line "again"]

theorem one_outstanding_again : ∃ (trace : List (Taken System Label)) (sys : System),
    Run (System.step sandboxPriv) (Start sandboxPriv) trace sys ∧
      outstanding trace = [(2, 0)] ∧ OneOutstanding trace := by
  have done : (exec (System.step sandboxPriv) againLabels (fresh emptySandbox)).isSome := by
    decide +kernel
  have meets : ∀ taken ∈ execTrace (System.step sandboxPriv) againLabels
      (fresh emptySandbox), Few taken ∧ FreeSlot taken := by decide +kernel
  obtain ⟨sys, ran⟩ := Option.isSome_iff_exists.1 done
  have run := Run.of_exec (fresh_start emptySandbox_plain) ran
  exact ⟨_, sys, run, by decide +kernel, one_outstanding run
    (fun taken member => (meets taken member).1)
    (fun taken member => (meets taken member).2)⟩

/-- A message to the session at index `k`, until its sub-query is on display, and
a new session. -/
def crowd (k : Nat) : List Label :=
  [line "hi", .recv] ++ List.replicate 4 (.chat k asksAi) ++ [.poll [] [], line "/new"]

def crowdLabels : List Label := (List.range 16).flatMap crowd ++ [line "hi"]

/-- With 16 requests and a sub-query each the table is full: request 17 gets no
entry, and the next message goes out while it is outstanding. -/
theorem one_outstanding_crowd : ¬∀ (priv : FsPriv) (trace : List (Taken System Label))
    (sys : System), Run (System.step priv) (Start priv) trace sys →
      (∀ taken ∈ trace, deletion taken = none ∧ workerRequests taken = []) →
      OneOutstanding trace := by
  intro claimed
  have crowded : (exec (System.step sandboxPriv) crowdLabels (fresh emptySandbox)).any
      fun src => (System.step sandboxPriv src (line "hi")).isSome ∧
        (deletion ⟨src, line "hi", src⟩ = none ∧
          workerRequests ⟨src, line "hi", src⟩ = []) ∧
        (18, 16) ∈ submissions ⟨src, line "hi", src⟩ := by decide +kernel
  have inDomain : ∀ taken ∈ execTrace (System.step sandboxPriv) crowdLabels
      (fresh emptySandbox), deletion taken = none ∧ workerRequests taken = [] := by
    decide +kernel
  have waits : (17, 16) ∈ outstanding (execTrace (System.step sandboxPriv)
      crowdLabels (fresh emptySandbox)) := by decide +kernel
  obtain ⟨src, ran, again⟩ := (Option.any_eq_true _ _).1 crowded
  obtain ⟨steps, last, sends⟩ := of_decide_eq_true again
  obtain ⟨dst, stepped⟩ := Option.isSome_iff_exists.1 steps
  have run := (Run.of_exec (fresh_start emptySandbox_plain) ran).snoc stepped
  have one := claimed sandboxPriv _ dst run fun taken member => by
    rcases List.mem_append.1 member with before | now
    · exact inDomain taken before
    · obtain rfl := List.mem_singleton.1 now
      exact last
  exact one _ _ [] rfl (18, 16) sends (17, 16) waits rfl

end System

end FreeCli

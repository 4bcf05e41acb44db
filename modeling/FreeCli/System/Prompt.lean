import FreeCli.System.Approval
import FreeCli.System.Awaited

namespace FreeCli

open Words FileTree Slots Transition Lists

/-! The prompt of the TUI and the requests that wait for the user. -/

def ToTui.asks : ToTui → Option Nat
  | .approvalReq _ reqCorrId _ => some reqCorrId
  | _ => none

def ToTui.ends : ToTui → Option Nat
  | .workerEnd corrId => some corrId
  | _ => none

namespace System

variable {priv : FsPriv} {sys dst : System} {label : Label} {c : Nat}
  {trace : List (Taken System Label)} {taken : Taken System Label}

def asked (taken : Taken System Label) : Option Nat :=
  (received taken).bind ToTui.asks

def ended (taken : Taken System Label) : Option Nat :=
  (received taken).bind ToTui.ends

def userAnswers (taken : Taken System Label) : Option Nat :=
  match taken.label with
  | .key ch _ =>
      if Tui.approvalKey ch then some taken.src.tui.pendingApprovalCorr else none
  | _ => none

/-- The prompt is for the one request that waits for the user. -/
structure PromptTracks (trace : List (Taken System Label)) (sys : System) : Prop where
  recorded : ∀ c, (∃ taken ∈ trace, asked taken = some c) →
    (∀ taken ∈ trace, ended taken ≠ some c) → sys.tui.ipcOpen = true →
    (∀ taken ∈ trace, userAnswers taken ≠ some c) → sys.tui.pendingApprovalCorr = c
  live : sys.tui.pendingApprovalCorr ≠ 0 → sys.tui.ipcOpen = true ∧
    ∀ taken ∈ trace, ended taken ≠ some sys.tui.pendingApprovalCorr

/-- No prompt is overwritten, and none outlives its request or the connection. -/
structure PromptKept (taken : Taken System Label) : Prop where
  asks : asked taken ≠ none → taken.src.tui.pendingApprovalCorr = 0
  ends : ended taken ≠ some taken.src.tui.pendingApprovalCorr
  lost : taken.label = .lost → taken.src.tui.pendingApprovalCorr = 0
  few : Few taken

instance (taken : Taken System Label) : Decidable (PromptKept taken) :=
  decidable_of_iff
    ((asked taken ≠ none → taken.src.tui.pendingApprovalCorr = 0) ∧
      ended taken ≠ some taken.src.tui.pendingApprovalCorr ∧
      (taken.label = .lost → taken.src.tui.pendingApprovalCorr = 0) ∧ Few taken)
    ⟨fun ⟨asks, ends, lost, few⟩ => ⟨asks, ends, lost, few⟩,
      fun kept => ⟨kept.asks, kept.ends, kept.lost, kept.few⟩⟩

/-! What the backend has sent, in its order. -/

def sentToTui (trace : List (Taken System Label)) (sys : System) : List ToTui :=
  trace.filterMap received ++ sys.bus.toTui

def isDone : WorkerPhase → Bool
  | .done => true
  | _ => false

/-- No request asks after its end. -/
def Before (earlier later : ToTui) : Prop :=
  ∀ c, earlier.ends = some c → later.asks ≠ some c

structure EndsLast (trace : List (Taken System Label)) (sys : System) : Prop where
  order : (sentToTui trace sys).Pairwise Before
  settled : ∀ msg ∈ sentToTui trace sys, ∀ c, msg.ends = some c →
    firstSubCorr ≤ c ∨ sys.Reached c isDone
  real : ∀ msg ∈ sentToTui trace sys, ∀ c, msg.asks = some c → c ≠ 0

theorem done_stays {thread next : WorkerThread} {env : WorkerEnv} {bus after : Bus}
    (moved : thread.Move priv env bus next after) (before : isDone thread.phase = true) :
    isDone next.phase = true := by
  cases moved with
  | ends success result early running =>
      obtain ⟨_, undone, _⟩ := running
      cases phase : thread.phase with
      | done => exact absurd phase undone
      | _ =>
          rw [phase] at before
          contradiction
  | finished at_ => rfl
  | resolved _ _ _ _ at_ | progressed _ at_ | missing _ _ at_ | claimed _ at_
  | asked _ _ _ at_ | waits _ at_ | decided _ _ at_ | timedOut _ _ at_ | woken _ at_
  | denied _ _ at_ | granted _ at_ | removed _ _ at_ | opened _ _ _ _ at_
  | written _ _ _ _ at_ | replied _ _ at_ =>
      rw [at_] at before
      contradiction

theorem EndsLast.grow (last : EndsLast trace sys) (moved : sys.Move priv label dst)
    (grown : sentToTui (trace ++ [⟨sys, label, dst⟩]) dst = sentToTui trace sys ++ new)
    (asks : ∀ msg ∈ new, ∀ c, msg.asks = some c →
      c ≠ 0 ∧ c < firstSubCorr ∧ ¬sys.Reached c isDone)
    (ends : ∀ msg ∈ new, ∀ c, msg.ends = some c →
      firstSubCorr ≤ c ∨ dst.Reached c isDone)
    (apart : new.Pairwise Before) : EndsLast (trace ++ [⟨sys, label, dst⟩]) dst := by
  constructor
  case order =>
    rw [grown, List.pairwise_append]
    refine ⟨last.order, apart, fun earlier sent later now c isEnd isAsk => ?_⟩
    obtain ⟨_, small, live⟩ := asks later now c isAsk
    rcases last.settled earlier sent c isEnd with sub | done
    · omega
    · exact live done
  case settled =>
    intro msg member c isEnd
    rw [grown] at member
    rcases List.mem_append.1 member with before | now
    · exact (last.settled msg before c isEnd).imp id fun done => done.move done_stays moved
    · exact ends msg now c isEnd
  case real =>
    intro msg member c isAsk
    rw [grown] at member
    rcases List.mem_append.1 member with before | now
    · exact last.real msg before c isAsk
    · exact (asks msg now c isAsk).1

theorem EndsLast.still (last : EndsLast trace sys) (moved : sys.Move priv label dst)
    (same : sentToTui (trace ++ [⟨sys, label, dst⟩]) dst = sentToTui trace sys) :
    EndsLast (trace ++ [⟨sys, label, dst⟩]) dst :=
  last.grow moved (same.trans (List.append_nil _).symm) nofun nofun .nil

theorem sentToTui_sends (silent : received taken = none)
    (sends : dst.bus.toTui = sys.bus.toTui ++ new) :
    sentToTui (trace ++ [taken]) dst = sentToTui trace sys ++ new := by
  simp [sentToTui, silent, sends]

theorem chat_asks {thread next : ChatThread} {number : Nat} {sent : List ToTui}
    (moved : thread.Move sys.subCorrNext next number sent) (member : msg ∈ sent) :
    msg.asks = none := by
  cases msg with
  | approvalReq corrId reqCorrId description =>
      exact absurd member (moved.sends_noApproval _ _ _)
  | _ => rfl

theorem chat_ends {thread next : ChatThread} {number : Nat} {sent : List ToTui}
    (moved : thread.Move sys.subCorrNext next number sent) (member : msg ∈ sent)
    (isEnd : msg.ends = some c) : thread.phase.subCorr = some c := by
  cases moved with
  | ended iters left subCorr at_ =>
      obtain rfl := List.mem_singleton.1 member
      obtain rfl := Option.some.inj isEnd
      rw [at_]
      rfl
  | quiet | called => exact absurd member List.not_mem_nil
  | started | failed | replied | renamed =>
      obtain rfl := List.mem_singleton.1 member
      contradiction

theorem worker_finishes {thread next : WorkerThread} {env : WorkerEnv}
    {bus after : Bus} (moved : thread.Move priv env bus next after)
    (at_ : thread.phase = .finish) : isDone next.phase = true := by
  cases moved with
  | finished => rfl
  | ends success result early running => exact absurd at_ running.1
  | resolved _ _ _ _ there | progressed _ there | missing _ _ there | claimed _ there
  | asked _ _ _ there | waits _ there | decided _ _ there | timedOut _ _ there
  | woken _ there | denied _ _ there | granted _ there | removed _ _ there
  | opened _ _ _ _ there | written _ _ _ _ there | replied _ _ there =>
      rw [there] at at_
      contradiction

theorem EndsLast.move (last : EndsLast trace sys) (numbered : Numbered sys)
    (origins : Origins sys) (few : sys.tui.nextCorr ≤ firstSubCorr)
    (moved : sys.Move priv label dst) : EndsLast (trace ++ [⟨sys, label, dst⟩]) dst := by
  have whole := moved
  cases moved with
  | key ch env => exact last.still whole (by simp [sentToTui, received])
  | idle beyond choices empty => exact last.still whole (by simp [sentToTui, received, empty])
  | poll beyond choices msg rest waiting =>
      exact last.still whole (by simp [sentToTui, received, waiting])
  | lost => exact last.still whole (by simp [sentToTui, received])
  | recv msg rest waiting =>
      refine last.still whole ?_
      cases msg <;> simp [sentToTui, received, handle]
  | worker i env thread next bus here moved =>
      rcases moved.sends with same | ⟨msg, same, sends⟩
      · exact last.still whole (by simp [sentToTui, received, same])
      · have given : thread.corrId ∈ sys.requestIds :=
          List.mem_append_right _ (List.mem_append_left _
            (List.mem_map_of_mem (List.mem_of_getElem? here)))
        refine last.grow whole (sentToTui_sends rfl same) ?_ ?_ (List.pairwise_singleton ..)
        · intro other now c isAsk
          obtain rfl := List.mem_singleton.1 now
          cases sends with
          | approval slot description at_ =>
              obtain rfl := Option.some.inj isAsk
              refine ⟨(numbered.given _ given).1.ne', Few.lt numbered few given, ?_⟩
              intro done
              have phase := done.phase numbered here rfl
              rw [at_] at phase
              contradiction
          | _ => contradiction
        · intro other now c isEnd
          obtain rfl := List.mem_singleton.1 now
          cases sends with
          | ended at_ =>
              obtain rfl := Option.some.inj isEnd
              obtain ⟨bound, _⟩ := List.getElem?_eq_some_iff.1 here
              exact .inr ⟨i, next, List.getElem?_set_self bound, moved.keeps.1,
                worker_finishes moved at_⟩
          | _ => contradiction
  | chat i env thread next subCorrNext sent here moved =>
      refine last.grow whole (sentToTui_sends rfl rfl) ?_ ?_ ?_
      · intro msg now c isAsk
        rw [chat_asks moved now] at isAsk
        contradiction
      · intro msg now c isEnd
        exact .inl (origins.subs thread (List.mem_of_getElem? here) c
          (chat_ends moved now isEnd)).1
      · refine List.pairwise_of_forall_mem_list fun earlier _ later now c _ isAsk => ?_
        rw [chat_asks moved now] at isAsk
        contradiction

theorem run_endsLast (run : Run (System.step priv) (Start priv) trace sys)
    (few : ∀ taken ∈ trace, Few taken) : EndsLast trace sys := by
  refine run.invariant_trace Few EndsLast ?_ ?_ few
  · intro sys started
    constructor <;> simp [sentToTui, started.toTui]
  · intro trace src label dst before earlier last stepped _
    exact last.move (run_numbered before) (run_origins before) (run_few before earlier)
      (step_move stepped)

/-! The prompt over a run. -/

theorem asked_iff : asked taken = some c ↔
    ∃ msg, received taken = some msg ∧ msg.asks = some c :=
  Option.bind_eq_some_iff

theorem ended_iff : ended taken = some c ↔
    ∃ msg, received taken = some msg ∧ msg.ends = some c :=
  Option.bind_eq_some_iff

inductive PromptStep (taken : Taken System Label) : Prop
  | keeps (same : taken.dst.tui.pendingApprovalCorr = taken.src.tui.pendingApprovalCorr)
      (silent : asked taken = none)
      (connected : taken.label ≠ .lost →
        taken.dst.tui.ipcOpen = taken.src.tui.ipcOpen)
  | prompts (corrId reqCorrId : Nat) (description : Bytes) (rest : List ToTui)
      (got : received taken = some (.approvalReq corrId reqCorrId description))
      (waiting : taken.src.bus.toTui = .approvalReq corrId reqCorrId description :: rest)
      (shown : taken.dst.tui.pendingApprovalCorr = reqCorrId)
      (open_ : taken.src.tui.ipcOpen = true)
      (connected : taken.dst.tui.ipcOpen = true)
  | answers (silent : received taken = none)
      (answered : userAnswers taken = some taken.src.tui.pendingApprovalCorr)
      (gone : taken.dst.tui.pendingApprovalCorr = 0)
      (connected : taken.dst.tui.ipcOpen = taken.src.tui.ipcOpen)

theorem Move.promptStep (moved : sys.Move priv label dst)
    (positive : 0 < sys.tui.nextCorr) : PromptStep ⟨sys, label, dst⟩ := by
  cases moved with
  | key ch env =>
      have outcome := Tui.mainKey_outcome ch env positive
      rcases outcome.prompt with same | ⟨pressed, gone⟩
      · exact .keeps same rfl fun _ => outcome.ipcOpen
      · exact .answers rfl (if_pos pressed) gone outcome.ipcOpen
  | idle beyond choices empty => exact .keeps rfl (by simp [asked, received, empty]) fun _ => rfl
  | poll beyond choices msg rest waiting open_ =>
      have connected : (sys.tui.checkIpc msg beyond choices).ipcOpen = sys.tui.ipcOpen :=
        Tui.checkIpc_ipcOpen msg beyond choices
      have prompt := Tui.checkIpc_approval sys.tui msg beyond choices
      cases msg with
      | approvalReq corrId reqCorrId description =>
          exact .prompts corrId reqCorrId description rest
            (by simp [received, waiting]) waiting rfl open_ open_
      | _ =>
          obtain ⟨_, _, _, is, _⟩ | same := prompt
          · cases is
          · exact .keeps same (by simp [asked, received, waiting, ToTui.asks])
              fun _ => connected
  | lost => exact .keeps rfl rfl (absurd rfl)
  | recv msg rest waiting => cases msg <;> exact .keeps rfl rfl fun _ => rfl
  | worker i env thread next bus here moved => exact .keeps rfl rfl fun _ => rfl
  | chat i env thread next subCorrNext sent here moved => exact .keeps rfl rfl fun _ => rfl

theorem asked_before (silent : asked taken = none)
    (asks : ∃ earlier ∈ trace ++ [taken], asked earlier = some c) :
    ∃ earlier ∈ trace, asked earlier = some c := by
  obtain ⟨earlier, member, asks⟩ := asks
  rcases List.mem_append.1 member with before | now
  · exact ⟨earlier, before, asks⟩
  · obtain rfl := List.mem_singleton.1 now
    rw [silent] at asks
    contradiction

theorem EndsLast.unended (last : EndsLast trace sys)
    (waiting : sys.bus.toTui = msg :: rest) (asks : msg.asks = some c) :
    ∀ taken ∈ trace, ended taken ≠ some c := by
  intro taken member ends
  obtain ⟨earlier, got, isEnd⟩ := ended_iff.1 ends
  have order := last.order
  rw [sentToTui, waiting, List.pairwise_append] at order
  exact order.2.2 earlier (List.mem_filterMap.2 ⟨taken, member, got⟩) msg
    List.mem_cons_self c isEnd asks

theorem PromptTracks.step (tracks : PromptTracks trace sys) (last : EndsLast trace sys)
    (stepped : PromptStep ⟨sys, label, dst⟩) (kept : PromptKept ⟨sys, label, dst⟩)
    (lost : label = .lost → dst.tui.ipcOpen = false) :
    PromptTracks (trace ++ [⟨sys, label, dst⟩]) dst := by
  have early : ∀ {p : Taken System Label → Prop},
      (∀ taken ∈ trace ++ [⟨sys, label, dst⟩], p taken) → ∀ taken ∈ trace, p taken :=
    fun all taken member => all taken (List.mem_append_left _ member)
  cases stepped with
  | keeps same silent connected =>
      constructor
      case recorded =>
        intro c asks unended open_ unanswered
        have stays : label ≠ .lost := by
          intro drops
          rw [lost drops] at open_
          contradiction
        rw [connected stays] at open_
        rw [same]
        exact tracks.recorded c (asked_before silent asks) (early unended) open_
          (early unanswered)
      case live =>
        intro prompted
        rw [same] at prompted ⊢
        obtain ⟨open_, unended⟩ := tracks.live prompted
        rw [connected fun drops => prompted (kept.lost drops)]
        refine ⟨open_, fun taken member => ?_⟩
        rcases List.mem_append.1 member with before | now
        · exact unended taken before
        · obtain rfl := List.mem_singleton.1 now
          exact kept.ends
  | prompts corrId reqCorrId description rest got waiting shown open_ connected =>
      have asking : asked ⟨sys, label, dst⟩ = some reqCorrId := by
        rw [asked, got]
        rfl
      constructor
      case recorded =>
        rintro c ⟨taken, member, asks⟩ unended _ unanswered
        rcases List.mem_append.1 member with before | now
        · have prompt := tracks.recorded c ⟨taken, before, asks⟩ (early unended) open_
            (early unanswered)
          obtain ⟨msg, earlier, isAsk⟩ := asked_iff.1 asks
          refine absurd (prompt.symm.trans (kept.asks (by simp [asking]))) ?_
          exact last.real msg (List.mem_append_left _
            (List.mem_filterMap.2 ⟨taken, before, earlier⟩)) c isAsk
        · obtain rfl := List.mem_singleton.1 now
          exact shown.trans (Option.some.inj (asking.symm.trans asks))
      case live =>
        intro _
        refine ⟨connected, fun taken member => ?_⟩
        rw [shown]
        rcases List.mem_append.1 member with before | now
        · exact last.unended waiting rfl taken before
        · obtain rfl := List.mem_singleton.1 now
          simp [ended, got, ToTui.ends]
  | answers silent answered gone connected =>
      constructor
      case recorded =>
        intro c asks unended open_ unanswered
        rw [connected] at open_
        have prompt := tracks.recorded c
          (asked_before (by simp [asked, silent]) asks) (early unended) open_
          (early unanswered)
        refine absurd ?_ (unanswered _ (List.mem_append_right _ List.mem_cons_self))
        rw [answered, prompt]
      case live => exact fun prompted => absurd gone prompted

theorem prompt_tracks (run : Run (System.step priv) (Start priv) trace sys)
    (kept : ∀ taken ∈ trace, PromptKept taken) : PromptTracks trace sys := by
  refine run.invariant_trace PromptKept PromptTracks ?_ ?_ kept
  · intro sys started
    exact ⟨by simp, fun prompted => absurd started.noApproval prompted⟩
  · intro trace src label dst before earlier tracks stepped now
    have moved := step_move stepped
    refine tracks.step
      (run_endsLast before fun taken member => (earlier taken member).few)
      (moved.promptStep (run_numbered before).positive) now ?_
    rintro rfl
    cases moved
    rfl

def askedLabels : List Label :=
  [line "/fs create a", .recv] ++ List.replicate 4 (work "a" "hi") ++ [.poll [] []]

theorem prompt_tracks_asked : ∃ trace sys, sys.tui.pendingApprovalCorr = 1 ∧
    PromptTracks trace sys := by
  have prompted : (exec (System.step sandboxPriv) askedLabels (fresh emptySandbox)).map
      (fun sys => sys.tui.pendingApprovalCorr) = some 1 := by decide +kernel
  obtain ⟨sys, ran, prompt⟩ := Option.map_eq_some_iff.1 prompted
  have kept : ∀ taken ∈ execTrace (System.step sandboxPriv) askedLabels
      (fresh emptySandbox), PromptKept taken := by decide +kernel
  exact ⟨_, sys, prompt,
    prompt_tracks (Run.of_exec (fresh_start emptySandbox_plain) ran) kept⟩

def overwrittenLabels : List Label :=
  [line "/fs create a", .recv] ++ List.replicate 4 (work "a" "hi") ++
    [line "/fs create b", .recv] ++
    List.replicate 4 (.worker 1 { path := some (ascii "b"), content := [], fails := false
                                  timeout := false, text := [] }) ++
    [.poll [] [], .poll [] []]

theorem prompt_overwritten : ∃ (trace : List (Taken System Label)) (sys : System),
    Run (System.step sandboxPriv) (Start sandboxPriv) trace sys ∧
      ¬PromptTracks trace sys := by
  have prompted : (exec (System.step sandboxPriv) overwrittenLabels
      (fresh emptySandbox)).map (fun sys =>
        (sys.tui.pendingApprovalCorr, sys.tui.ipcOpen)) = some (2, true) := by
    decide +kernel
  obtain ⟨sys, ran, prompt⟩ := Option.map_eq_some_iff.1 prompted
  refine ⟨_, sys, Run.of_exec (fresh_start emptySandbox_plain) ran, fun tracks => ?_⟩
  have first := tracks.recorded 1 (by decide +kernel) (by decide +kernel)
    (congrArg Prod.snd prompt) (by decide +kernel)
  exact absurd (first.symm.trans (congrArg Prod.fst prompt)) (by decide)

end System

end FreeCli

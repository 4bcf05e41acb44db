import FreeCli.Backend.Grammar
import FreeCli.System.SubQueries
import FreeCli.System.Approval
import FreeCli.Workers.Answers

namespace FreeCli

open Words FileTree Slots Transition Lists

/-! The messages every request gets over a whole run. -/

namespace System

variable {priv : FsPriv} {sys dst : System} {label : Label} {c i : Nat}
  {trace : List (Taken System Label)} {taken : Taken System Label}

def posted (taken : Taken System Label) : List ToTui :=
  taken.dst.bus.toTui.drop taken.src.bus.toTui.length

def actor (taken : Taken System Label) : Option Nat :=
  match taken.label with
  | .worker i _ => taken.src.workers[i]?.map WorkerThread.corrId
  | .chat i _ => taken.src.chats[i]?.map ChatThread.corrId
  | _ => none

def sentFor (c : Nat) (trace : List (Taken System Label)) : List ToTui :=
  trace.flatMap fun taken => if actor taken = some c then posted taken else []

theorem sentFor_snoc (c : Nat) (trace : List (Taken System Label))
    (taken : Taken System Label) :
    sentFor c (trace ++ [taken]) =
      sentFor c trace ++ if actor taken = some c then posted taken else [] := by
  simp [sentFor]

theorem sentFor_other (other : actor taken ≠ some c) :
    sentFor c (trace ++ [taken]) = sentFor c trace := by
  rw [sentFor_snoc, if_neg other, List.append_nil]

theorem sentFor_own (own : actor taken = some c)
    (sends : taken.dst.bus.toTui = taken.src.bus.toTui ++ new) :
    sentFor c (trace ++ [taken]) = sentFor c trace ++ new := by
  rw [sentFor_snoc, if_pos own, posted, sends, List.drop_left]

def threadIds (sys : System) : List Nat :=
  sys.workers.map WorkerThread.corrId ++ sys.chats.map ChatThread.corrId

theorem mem_threadIds_of_actor (acts : actor taken = some c) :
    c ∈ threadIds taken.src := by
  rw [actor] at acts
  split at acts
  next =>
    obtain ⟨thread, here, rfl⟩ := Option.map_eq_some_iff.1 acts
    exact List.mem_append_left _ (List.mem_map_of_mem (List.mem_of_getElem? here))
  next =>
    obtain ⟨thread, here, rfl⟩ := Option.map_eq_some_iff.1 acts
    exact List.mem_append_right _ (List.mem_map_of_mem (List.mem_of_getElem? here))
  next => contradiction

theorem Numbered.actor_chat (numbered : Numbered taken.src) {thread : ChatThread}
    (here : taken.src.chats[i]? = some thread)
    (acts : actor taken = some thread.corrId) : ∃ env, taken.label = .chat i env := by
  rw [actor] at acts
  split at acts
  next k env label =>
    obtain ⟨worker, active, same⟩ := Option.map_eq_some_iff.1 acts
    exact absurd same (numbered.apart (List.mem_of_getElem? active)
      (List.mem_of_getElem? here))
  next k env label =>
    obtain ⟨other, active, same⟩ := Option.map_eq_some_iff.1 acts
    obtain rfl := numbered.chat_unique here active same
    exact ⟨env, label⟩
  next => contradiction

theorem Numbered.actor_worker (numbered : Numbered taken.src) {thread : WorkerThread}
    (here : taken.src.workers[i]? = some thread)
    (acts : actor taken = some thread.corrId) : ∃ env, taken.label = .worker i env := by
  rw [actor] at acts
  split at acts
  next k env label =>
    obtain ⟨other, active, same⟩ := Option.map_eq_some_iff.1 acts
    obtain rfl := numbered.worker_unique here active same
    exact ⟨env, label⟩
  next k env label =>
    obtain ⟨chat, active, same⟩ := Option.map_eq_some_iff.1 acts
    exact absurd same.symm (numbered.apart (List.mem_of_getElem? here)
      (List.mem_of_getElem? active))
  next => contradiction

/-- Every thread has sent what its phase asks for, and nobody else has sent
anything. -/
structure InStep (trace : List (Taken System Label)) (sys : System) : Prop where
  chats : ∀ (i : Nat) (thread : ChatThread), sys.chats[i]? = some thread →
    thread.Sent (sentFor thread.corrId trace)
  workers : ∀ (i : Nat) (thread : WorkerThread), sys.workers[i]? = some thread →
    thread.Sent (sentFor thread.corrId trace)
  silent : ∀ c, c ∉ threadIds sys → sentFor c trace = []

/-- The reply of every request can be encoded. -/
def Encodes (taken : Taken System Label) : Prop :=
  match taken.label with
  | .chat _ env => env.encodeFails = false
  | _ => True

instance (taken : Taken System Label) : Decidable (Encodes taken) :=
  match taken with
  | ⟨_, .chat _ env, _⟩ => inferInstanceAs (Decidable (env.encodeFails = false))
  | ⟨_, .key _ _, _⟩ | ⟨_, .poll _ _, _⟩ | ⟨_, .lost, _⟩ | ⟨_, .recv, _⟩
  | ⟨_, .worker _ _, _⟩ => inferInstanceAs (Decidable True)

theorem Numbered.waiting (numbered : Numbered sys) (member : msg ∈ sys.toBackend)
    (asks : msg.requestId = some c) : c ∉ threadIds sys := by
  intro served
  exact (List.nodup_append.1 numbered.different).2.2 c
    (List.mem_filterMap.2 ⟨msg, member, asks⟩) c served rfl

theorem worker_fresh (moved : sys.Move priv label dst) {after : WorkerThread}
    (here : dst.workers[i]? = some after) (absent : sys.workers[i]? = none) :
    label = .recv ∧ ∃ msg ∈ sys.toBackend, msg.requestId = some after.corrId := by
  cases moved with
  | recv msg rest waiting =>
      have first : msg ∈ sys.toBackend := waiting ▸ List.mem_cons_self
      cases msg with
      | workerReq corrId workerType op argsJson =>
          have beyond := List.getElem?_eq_none_iff.1 absent
          simp only [handle] at here
          rw [List.getElem?_append_right beyond, List.getElem?_singleton] at here
          split at here
          · obtain rfl := Option.some.inj here
            exact ⟨rfl, _, first, rfl⟩
          · contradiction
      | _ => exact absurd (here.symm.trans absent) (by simp)
  | worker k env thread next bus active moved =>
      simp only [List.getElem?_set] at here
      split at here
      next same =>
        rw [← same, active] at absent
        contradiction
      next => exact absurd (here.symm.trans absent) (by simp)
  | _ => exact absurd (here.symm.trans absent) (by simp)

theorem Move.threadIds_subset (moved : sys.Move priv label dst)
    (absent : c ∉ threadIds dst) : c ∉ threadIds sys := by
  refine fun member => absent ?_
  cases moved with
  | recv msg rest waiting =>
      cases msg with
      | reqSend corrId sessionIdx msgs model provider =>
          simp only [threadIds, handle, List.map_append] at member ⊢
          rw [← List.append_assoc]
          exact List.mem_append_left _ member
      | workerReq corrId workerType op argsJson =>
          simp only [threadIds, handle, List.map_append] at member ⊢
          cases List.mem_append.1 member with
          | inl works => exact List.mem_append_left _ (List.mem_append_left _ works)
          | inr chats => exact List.mem_append_right _ chats
      | approvalRep corrId reqCorrId approved => exact member
  | worker i env thread next bus here moved =>
      simp only [threadIds] at member ⊢
      rwa [map_set_same here moved.keeps.1]
  | chat i env thread next number sent here moved =>
      simp only [threadIds] at member ⊢
      rwa [map_set_same here moved.keeps.1]
  | _ => exact member

theorem InStep.step (inStep : InStep trace sys) (numbered : Numbered sys)
    (stepped : System.step priv sys label = some dst)
    (encodes : Encodes ⟨sys, label, dst⟩) :
    InStep (trace ++ [⟨sys, label, dst⟩]) dst := by
  have moved := step_move stepped
  have fresh : ∀ c, c ∉ threadIds sys → sentFor c (trace ++ [⟨sys, label, dst⟩]) = [] := by
    intro c absent
    rw [sentFor_other fun acts => absent (mem_threadIds_of_actor acts)]
    exact inStep.silent c absent
  refine ⟨?_, ?_, fun c absent => fresh c (moved.threadIds_subset absent)⟩
  · intro i thread here
    obtain ⟨there, idle⟩ | ⟨env, old, number, sent, rfl, there, ran, sends⟩ |
      ⟨rfl, start, msg, member, asks⟩ := chat_from stepped here
    · have other : actor ⟨sys, label, dst⟩ ≠ some thread.corrId := by
        intro acts
        obtain ⟨env, same⟩ := numbered.actor_chat there acts
        exact idle env same
      rw [sentFor_other other]
      exact inStep.chats i thread there
    · have same := (ChatThread.step_move ran).keeps.1
      have acts : actor ⟨sys, .chat i env, dst⟩ = some thread.corrId := by
        change sys.chats[i]?.map ChatThread.corrId = _
        rw [there, same]
        rfl
      rw [sentFor_own acts sends, same]
      exact (inStep.chats i old there).step ran encodes
    · rw [fresh _ (numbered.waiting member asks)]
      simp only [ChatThread.Sent, start]
  · intro i thread here
    obtain ⟨there, idle⟩ | ⟨env, old, rfl, there, move⟩ | ⟨absent, phase⟩ :=
      moved.worker_from here
    · have other : actor ⟨sys, label, dst⟩ ≠ some thread.corrId := by
        intro acts
        obtain ⟨env, same⟩ := numbered.actor_worker there acts
        exact idle env same
      rw [sentFor_other other]
      exact inStep.workers i thread there
    · have same := move.keeps.1
      have acts : actor ⟨sys, .worker i env, dst⟩ = some thread.corrId := by
        change sys.workers[i]?.map WorkerThread.corrId = _
        rw [there, same]
        rfl
      obtain ⟨new, sends⟩ : ∃ new, dst.bus.toTui = sys.bus.toTui ++ new := by
        obtain unchanged | ⟨msg, sends, _⟩ := move.sends
        · exact ⟨[], by rw [unchanged, List.append_nil]⟩
        · exact ⟨[msg], sends⟩
      rw [sentFor_own acts sends, same]
      exact (inStep.workers i old there).move move sends
    · obtain ⟨_, msg, member, asks⟩ := worker_fresh moved here absent
      rw [fresh _ (numbered.waiting member asks)]
      obtain start | ⟨result, reply⟩ := phase
      · simp only [WorkerThread.Sent, start]
      · simp only [WorkerThread.Sent, reply]
        exact .inl rfl

theorem run_inStep (run : Run (System.step priv) (Start priv) trace sys)
    (encodes : ∀ taken ∈ trace, Encodes taken) : InStep trace sys := by
  refine run.invariant_trace Encodes InStep ?_
    (fun _ _ _ _ before _ inStep stepped last =>
      inStep.step (run_numbered before) stepped last) encodes
  intro sys started
  refine ⟨?_, ?_, fun _ _ => rfl⟩
  · intro i thread here
    rw [started.chats] at here
    contradiction
  · intro i thread here
    rw [started.workers] at here
    contradiction

/-! The ids of the sub-queries. -/

def announced (taken : Taken System Label) : List Nat :=
  match taken.label with
  | .chat _ _ => (posted taken).filterMap ToTui.starts
  | _ => []

def subIds (trace : List (Taken System Label)) : List Nat := trace.flatMap announced

theorem subIds_snoc (trace : List (Taken System Label)) (taken : Taken System Label) :
    subIds (trace ++ [taken]) = subIds trace ++ announced taken := by
  simp [subIds]

/-- How often the sub-query `s` was announced or is about to be. -/
def starts (trace : List (Taken System Label)) (sys : System) (s : Nat) : Nat :=
  (subIds trace).count s +
    sys.chats.countP fun thread => thread.phase.starting = some s

/-- Every id is used once, and only ids that were given out. -/
def StartsOnce (trace : List (Taken System Label)) (sys : System) : Prop :=
  ∀ s, starts trace sys s ≤ if firstSubCorr ≤ s ∧ s < sys.subCorrNext then 1 else 0

theorem chat_starts {thread next : ChatThread} {env : ChatEnv} {number : Nat}
    {sent : List ToTui} (here : sys.chats[i]? = some thread)
    (moved : thread.Move sys.subCorrNext next number sent)
    (chats : dst.chats = sys.chats.set i next)
    (sends : dst.bus.toTui = sys.bus.toTui ++ sent) (s : Nat) :
    starts (trace ++ [⟨sys, .chat i env, dst⟩]) dst s ≤ starts trace sys s +
      if s = sys.subCorrNext ∧ number = s + 1 then 1 else 0 := by
  have step := chat_tickets (s := s) moved
  have threads := countP_set (fun thread => thread.phase.starting = some s) here next
  have ids : (announced ⟨sys, .chat i env, dst⟩).count s =
      sent.countP fun msg => msg.starts = some s := by
    simp only [announced, posted, sends, List.drop_left, List.count_filterMap]
    apply List.countP_congr
    intro msg _
    simp
  simp only [decide_eq_true_eq] at threads
  rw [starts, starts, subIds_snoc, List.count_append, ids, chats]
  omega

theorem quiet_starts (silent : announced taken = [])
    (chats : dst.chats = sys.chats ∨ ∃ thread : ChatThread,
      dst.chats = sys.chats ++ [thread] ∧ thread.phase.starting = none) (s : Nat) :
    starts (trace ++ [taken]) dst s = starts trace sys s := by
  rw [starts, starts, subIds_snoc, silent, List.append_nil]
  obtain same | ⟨thread, same, idle⟩ := chats
  · rw [same]
  · simp [same, idle]

theorem StartsOnce.move (once : StartsOnce trace sys) (origins : Origins sys)
    (moved : sys.Move priv label dst) :
    StartsOnce (trace ++ [⟨sys, label, dst⟩]) dst := by
  intro s
  have before := once s
  have later := moved.subCorrNext_le
  cases moved with
  | chat i env thread next number sent here moved =>
      refine (chat_starts here moved rfl rfl s).trans ?_
      have first := origins.next
      change sys.subCorrNext ≤ number at later
      change _ ≤ if firstSubCorr ≤ s ∧ s < number then 1 else 0
      by_cases new : s = sys.subCorrNext
      · rw [if_neg (by omega)] at before
        by_cases taken : number = s + 1
        · rw [if_pos ⟨new, taken⟩, if_pos (by omega)]
          omega
        · rw [if_neg fun both => taken both.2]
          omega
      · rw [if_neg fun both => new both.1]
        by_cases given : firstSubCorr ≤ s ∧ s < sys.subCorrNext
        · rw [if_pos given] at before
          rw [if_pos (by omega)]
          omega
        · rw [if_neg given] at before
          omega
  | recv msg rest waiting =>
      have same : ({ sys with toBackend := rest }.handle msg).subCorrNext =
          sys.subCorrNext := by
        cases msg <;> rfl
      rw [quiet_starts rfl, same]
      · exact before
      · cases msg with
        | reqSend corrId sessionIdx msgs model provider => exact .inr ⟨_, rfl, rfl⟩
        | _ => exact .inl rfl
  | _ =>
      rw [quiet_starts rfl (.inl rfl)]
      exact before

theorem run_startsOnce (run : Run (System.step priv) (Start priv) trace sys) :
    StartsOnce trace sys := by
  refine run.invariant_trace (fun _ => True) StartsOnce ?_
    (fun _ _ _ _ before _ once stepped _ =>
      once.move (run_origins before) (step_move stepped)) (fun _ _ => trivial)
  intro sys started s
  simp [starts, subIds, started.chats]

theorem StartsOnce.nodup (once : StartsOnce trace sys) : (subIds trace).Nodup := by
  rw [List.nodup_iff_count_le_one]
  intro s
  have bound := once s
  rw [starts] at bound
  split at bound <;> omega

theorem StartsOnce.first_le (once : StartsOnce trace sys) (member : s ∈ subIds trace) :
    firstSubCorr ≤ s := by
  have bound := once s
  have used := List.count_pos_iff.2 member
  rw [starts] at bound
  split at bound
  next given => exact given.1
  next => omega

/-! The claim of both kinds of requests, put together. -/

/-- The messages of a chat request so far, and that it comes to its end. -/
structure ChatAnswers (trace : List (Taken System Label)) (sys : System)
    (thread : ChatThread) : Prop where
  grammar : ∃ rest, Answered thread.corrId thread.sessionIdx thread.msgs.length
    (sentFor thread.corrId trace ++ rest) ∧ (thread.phase = .done → rest = [])
  goesOn : thread.phase ≠ .done →
    ∀ env, (thread.step env sys.subCorrNext).isSome
  ends : ∀ inputs, ∃ n, (drive ChatThread.advance inputs n thread).phase = .done

/-- The messages of a worker request so far, and that it comes to its end: only a
wait that is woken before its deadline repeats a step. -/
structure WorkerAnswers (priv : FsPriv) (trace : List (Taken System Label))
    (sys : System) (thread : WorkerThread) : Prop where
  grammar : ∃ rest, WorkerAnswered thread.corrId
    (sentFor thread.corrId trace ++ rest) ∧ (thread.phase = .done → rest = [])
  goesOn : thread.phase ≠ .done → ∀ env, ∃ next,
    thread.step priv env sys.bus = some next ∧ (next.1.rank < thread.rank ∨
      env.timeout = false ∧ ∃ slot, thread.phase = .blocked slot)

/-- Every request is answered once, in a fixed order of messages, and no two
sub-queries share an id. -/
theorem requests_answered (run : Run (System.step priv) (Start priv) trace sys)
    (encodes : ∀ taken ∈ trace, Encodes taken) :
    (∀ thread ∈ sys.chats, ChatAnswers trace sys thread) ∧
      (∀ thread ∈ sys.workers, WorkerAnswers priv trace sys thread) ∧
      sys.requestIds.Nodup ∧ (subIds trace).Nodup ∧
      ∀ s ∈ subIds trace, 2 ^ 63 ≤ s := by
  have inStep := run_inStep run encodes
  have once := run_startsOnce run
  refine ⟨?_, ?_, (run_numbered run).different, once.nodup,
    fun s member => once.first_le member⟩
  · intro thread member
    obtain ⟨i, here⟩ := List.mem_iff_getElem?.1 member
    exact ⟨(inStep.chats i thread here).completes,
      fun live env => thread.step_isSome live env sys.subCorrNext,
      thread.comes_to_end⟩
  · intro thread member
    obtain ⟨i, here⟩ := List.mem_iff_getElem?.1 member
    refine ⟨(inStep.workers i thread here).completes, ?_⟩
    intro live env
    obtain ⟨next, stepped⟩ := Option.isSome_iff_exists.1
      (WorkerThread.step_isSome (run_slotsHeld run i thread here) live priv env)
    exact ⟨next, stepped, (WorkerThread.step_move stepped).rank_lt⟩

def questionLabels : List Label :=
  [line "hi", .recv] ++ List.replicate 6 (.chat 0 asksAi) ++
    List.replicate 4 (.chat 0 (provides "ok"))

theorem requests_answered_asks : ∃ trace sys, subIds trace = [2 ^ 63] ∧
    (∀ thread ∈ sys.chats, ChatAnswers trace sys thread) ∧
      (∀ thread ∈ sys.workers, WorkerAnswers sandboxPriv trace sys thread) ∧
      sys.requestIds.Nodup ∧ (subIds trace).Nodup ∧
      ∀ s ∈ subIds trace, 2 ^ 63 ≤ s := by
  have reaches : (exec (System.step sandboxPriv) questionLabels
      (fresh emptySandbox)).isSome := by decide +kernel
  obtain ⟨sys, ran⟩ := Option.isSome_iff_exists.1 reaches
  have asked : subIds (execTrace (System.step sandboxPriv) questionLabels
      (fresh emptySandbox)) = [2 ^ 63] := by decide +kernel
  have encodes : ∀ taken ∈ execTrace (System.step sandboxPriv) questionLabels
      (fresh emptySandbox), Encodes taken := by decide +kernel
  exact ⟨_, sys, asked, requests_answered
    (Run.of_exec (fresh_start emptySandbox_plain) ran) encodes⟩

end System

end FreeCli

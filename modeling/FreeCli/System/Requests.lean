import Mathlib.Data.List.Perm.Basic
import FreeCli.Library.Lists
import FreeCli.System.Move
import FreeCli.Ui.CheckOutcome

namespace FreeCli

open Words FileTree Slots Transition Lists

/-! The numbers of requests: `next_corr` gives every request its own, and a
thread of the backend keeps the one it was started for. -/

namespace System

variable {priv : FsPriv} {sys dst : System} {label : Label} {i j : Nat}

/-- The requests that are on their way to the backend or have reached it. -/
def requestIds (sys : System) : List Nat :=
  sys.toBackend.filterMap ToBackend.requestId ++
    (sys.workers.map WorkerThread.corrId ++ sys.chats.map ChatThread.corrId)

theorem recv_requestIds (msg : ToBackend) (rest : List ToBackend)
    (waiting : sys.toBackend = msg :: rest) :
    ({ sys with toBackend := rest }.handle msg).requestIds.Perm sys.requestIds := by
  cases msg with
  | reqSend corrId sessionIdx msgs model provider =>
      simp only [requestIds, handle, waiting, ToBackend.requestId, List.filterMap_cons,
        List.map_append, List.map_cons, List.map_nil]
      rw [← List.append_assoc, ← List.append_assoc]
      exact (List.perm_append_singleton _ _).trans (by rw [List.append_assoc]; rfl)
  | workerReq corrId workerType op argsJson =>
      simp only [requestIds, handle, waiting, ToBackend.requestId, List.filterMap_cons,
        List.map_append, List.map_cons, List.map_nil, dispatch]
      rw [List.append_assoc, List.singleton_append, ← List.append_assoc]
      exact List.perm_middle.trans (by rw [List.append_assoc]; rfl)
  | approvalRep corrId reqCorrId approved =>
      simp only [requestIds, handle, waiting, ToBackend.requestId, List.filterMap_cons]
      exact .refl _

theorem Move.numbers (moved : sys.Move priv label dst)
    (positive : 0 < sys.tui.nextCorr) :
    (dst.requestIds.Perm sys.requestIds ∧ dst.tui.nextCorr = sys.tui.nextCorr) ∨
      (dst.requestIds.Perm (sys.tui.nextCorr :: sys.requestIds) ∧
        dst.tui.nextCorr = sys.tui.nextCorr + 1) := by
  cases moved with
  | key ch env =>
      rcases (Tui.mainKey_outcome ch env positive).numbers with ⟨ids, next⟩ | ⟨ids, next⟩
      · refine .inl ⟨?_, next⟩
        simp [requestIds, ids]
      · refine .inr ⟨?_, next⟩
        simp only [requestIds, List.filterMap_append, ids, List.append_assoc]
        exact List.perm_middle
  | idle beyond choices => exact .inl ⟨.refl _, rfl⟩
  | poll beyond choices msg rest waiting =>
      exact .inl ⟨.refl _, Tui.checkIpc_nextCorr msg beyond choices⟩
  | lost => exact .inl ⟨.refl _, rfl⟩
  | recv msg rest waiting =>
      refine .inl ⟨recv_requestIds msg rest waiting, ?_⟩
      cases msg <;> rfl
  | worker i env thread next bus here moved =>
      refine .inl ⟨?_, rfl⟩
      simp only [requestIds]
      rw [map_set_same here moved.keeps.1]
  | chat i env thread next subCorrNext sent here moved =>
      refine .inl ⟨?_, rfl⟩
      simp only [requestIds]
      rw [map_set_same here moved.keeps.1]

/-- The numbers given out so far are positive and all different. -/
structure Numbered (sys : System) : Prop where
  positive : 0 < sys.tui.nextCorr
  different : sys.requestIds.Nodup
  given : ∀ corr ∈ sys.requestIds, 0 < corr ∧ corr < sys.tui.nextCorr

theorem Numbered.start (started : Start priv sys) : Numbered sys where
  positive := by
    rw [started.nextCorr]
    exact Nat.one_pos
  different := by simp [requestIds, started.toBackend, started.workers, started.chats]
  given := by simp [requestIds, started.toBackend, started.workers, started.chats]

theorem Numbered.move (numbered : Numbered sys) (moved : sys.Move priv label dst) :
    Numbered dst := by
  obtain ⟨positive, different, given⟩ := numbered
  rcases moved.numbers positive with ⟨same, next⟩ | ⟨same, next⟩
  · refine ⟨by omega, same.nodup_iff.2 different, fun corr member => ?_⟩
    rw [next]
    exact given corr (same.subset member)
  · refine ⟨by omega, same.nodup_iff.2 (List.nodup_cons.2 ⟨?_, different⟩), ?_⟩
    · intro member
      have bound := given _ member
      omega
    · intro corr member
      rcases List.mem_cons.1 (same.subset member) with rfl | member
      · omega
      · have bound := given corr member
        omega

theorem run_numbered (run : Run (System.step priv) (Start priv) trace sys) :
    Numbered sys :=
  run.always Numbered (fun _ started => .start started)
    (fun _ _ _ numbered stepped => numbered.move (step_move stepped))

theorem Numbered.worker_unique (numbered : Numbered sys)
    {thread other : WorkerThread} (first : sys.workers[i]? = some thread)
    (second : sys.workers[j]? = some other)
    (same : other.corrId = thread.corrId) : i = j := by
  have different : (sys.workers.map WorkerThread.corrId).Nodup :=
    (List.nodup_append.1 (List.nodup_append.1 numbered.different).2.1).1
  obtain ⟨bound, _⟩ := List.getElem?_eq_some_iff.1 first
  refine (List.getElem?_inj (by simpa using bound) different).1 ?_
  rw [List.getElem?_map, List.getElem?_map, first, second]
  exact congrArg some same.symm

theorem Numbered.chat_unique (numbered : Numbered sys)
    {thread other : ChatThread} (first : sys.chats[i]? = some thread)
    (second : sys.chats[j]? = some other)
    (same : other.corrId = thread.corrId) : i = j := by
  have different : (sys.chats.map ChatThread.corrId).Nodup :=
    (List.nodup_append.1 (List.nodup_append.1 numbered.different).2.1).2.1
  obtain ⟨bound, _⟩ := List.getElem?_eq_some_iff.1 first
  refine (List.getElem?_inj (by simpa using bound) different).1 ?_
  rw [List.getElem?_map, List.getElem?_map, first, second]
  exact congrArg some same.symm

theorem Numbered.apart (numbered : Numbered sys) {worker : WorkerThread}
    {thread : ChatThread} (works : worker ∈ sys.workers) (chats : thread ∈ sys.chats) :
    worker.corrId ≠ thread.corrId :=
  (List.nodup_append.1 (List.nodup_append.1 numbered.different).2.1).2.2 _
    (List.mem_map_of_mem works) _ (List.mem_map_of_mem chats)

theorem Move.worker_stays (moved : sys.Move priv label dst)
    {thread : WorkerThread} (here : sys.workers[i]? = some thread) :
    ∃ after : WorkerThread, dst.workers[i]? = some after ∧ after.corrId = thread.corrId ∧
      after.op = thread.op ∧
      (thread.phase ≠ .start → after.phase ≠ .start ∧ after.abs = thread.abs) := by
  have stays : ∃ after : WorkerThread, sys.workers[i]? = some after ∧
      after.corrId = thread.corrId ∧ after.op = thread.op ∧
      (thread.phase ≠ .start → after.phase ≠ .start ∧ after.abs = thread.abs) :=
    ⟨thread, here, rfl, rfl, fun started => ⟨started, rfl⟩⟩
  cases moved with
  | recv msg rest waiting =>
      cases msg with
      | workerReq corrId workerType op argsJson =>
          obtain ⟨bound, _⟩ := List.getElem?_eq_some_iff.1 here
          obtain ⟨after, found, keeps⟩ := stays
          exact ⟨after, (List.getElem?_append_left bound).trans found, keeps⟩
      | _ => exact stays
  | worker k env active next bus at_ moved =>
      simp only [List.getElem?_set]
      split
      next same =>
        subst same
        obtain ⟨bound, _⟩ := List.getElem?_eq_some_iff.1 here
        obtain rfl : active = thread := Option.some.inj (at_.symm.trans here)
        rw [if_pos bound]
        exact ⟨next, rfl, moved.keeps⟩
      next => exact stays
  | _ => exact stays

theorem dispatch_phase (sys : System) (corrId workerType : Nat)
    (op argsJson : Bytes) :
    (sys.dispatch corrId workerType op argsJson).phase = .start ∨
      ∃ result, (sys.dispatch corrId workerType op argsJson).phase =
        .reply false result := by
  simp only [dispatch]
  split
  · exact .inl rfl
  · exact .inr ⟨_, rfl⟩

theorem Move.worker_from (moved : sys.Move priv label dst)
    {after : WorkerThread} (here : dst.workers[i]? = some after) :
    (sys.workers[i]? = some after ∧ ∀ env, label ≠ .worker i env) ∨
      (∃ env thread, label = .worker i env ∧ sys.workers[i]? = some thread ∧
        thread.Move priv env sys.bus after dst.bus) ∨
      (sys.workers[i]? = none ∧
        (after.phase = .start ∨ ∃ result, after.phase = .reply false result)) := by
  cases moved with
  | recv msg rest waiting =>
      cases msg with
      | workerReq corrId workerType op argsJson =>
          simp only [handle, List.getElem?_append] at here
          split at here
          next => exact .inl ⟨here, by simp⟩
          next beyond =>
            have fresh : sys.workers[i]? = none := by simpa using beyond
            rw [List.getElem?_singleton] at here
            split at here
            · obtain rfl := Option.some.inj here
              exact .inr (.inr ⟨fresh, dispatch_phase _ _ _ _ _⟩)
            · contradiction
      | _ => exact .inl ⟨here, by simp⟩
  | worker k env active next bus at_ moved =>
      simp only [List.getElem?_set] at here
      split at here
      next same =>
        subst same
        obtain ⟨bound, _⟩ := List.getElem?_eq_some_iff.1 at_
        rw [if_pos bound] at here
        obtain rfl := Option.some.inj here
        exact .inr (.inl ⟨env, active, rfl, at_, moved⟩)
      next differs =>
        refine .inl ⟨here, fun env same => differs ?_⟩
        injection same
  | _ => exact .inl ⟨here, by simp⟩

theorem chat_from (stepped : System.step priv sys label = some dst)
    {after : ChatThread} (here : dst.chats[i]? = some after) :
    (sys.chats[i]? = some after ∧ ∀ env, label ≠ .chat i env) ∨
      (∃ env thread number sent, label = .chat i env ∧ sys.chats[i]? = some thread ∧
        thread.step env sys.subCorrNext = some (after, number, sent) ∧
        dst.bus.toTui = sys.bus.toTui ++ sent) ∨
      (label = .recv ∧ after.phase = .start ∧
        ∃ msg ∈ sys.toBackend, msg.requestId = some after.corrId) := by
  cases label with
  | chat k env =>
      rw [step, System.chat] at stepped
      obtain ⟨thread, active, stepped⟩ := Option.bind_eq_some_iff.1 stepped
      obtain ⟨⟨next, number, sent⟩, moved, rfl⟩ := Option.map_eq_some_iff.1 stepped
      simp only [List.getElem?_set] at here
      split at here
      next same =>
        subst same
        obtain ⟨bound, _⟩ := List.getElem?_eq_some_iff.1 active
        rw [if_pos bound] at here
        obtain rfl := Option.some.inj here
        exact .inr (.inl ⟨env, thread, number, sent, rfl, active, moved, rfl⟩)
      next differs =>
        refine .inl ⟨here, fun env same => differs ?_⟩
        injection same
  | recv =>
      cases step_move stepped with
      | recv msg rest waiting =>
          have first : msg ∈ sys.toBackend := waiting ▸ List.mem_cons_self
          cases msg with
          | reqSend corrId sessionIdx msgs model provider =>
              simp only [handle, List.getElem?_append] at here
              split at here
              next => exact .inl ⟨here, by simp⟩
              next =>
                rw [List.getElem?_singleton] at here
                split at here
                · obtain rfl := Option.some.inj here
                  exact .inr (.inr ⟨rfl, rfl, _, first, rfl⟩)
                · contradiction
          | _ => exact .inl ⟨here, by simp⟩
  | _ =>
      cases step_move stepped
      all_goals exact .inl ⟨here, by simp⟩

end System

end FreeCli

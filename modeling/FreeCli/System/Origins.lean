import FreeCli.System.Requests

namespace FreeCli

open Words FileTree Slots Transition Lists

/-! Which requests the messages to the TUI and the entries of the in-flight
table belong to. -/

def ToTui.settles : ToTui → Option Nat
  | .repFinal corrId .. => some corrId
  | .repError corrId _ => some corrId
  | .workerEnd corrId => some corrId
  | _ => none

namespace Tui

/-- What a message does to the in-flight table. -/
inductive TableStep (table : InFlightTable) (msg : ToTui) : InFlightTable → Prop
  | removes (corrId : Nat) (settles : msg.settles = some corrId) :
      TableStep table msg (inflightRemove table corrId).2
  | adds (corrId parentCorrId : Nat) (sidx : Int) (model shown description : Bytes)
      (starts : msg = .workerStart corrId parentCorrId model description) :
      TableStep table msg
        (inflightAddSub table corrId parentCorrId sidx shown description)
  | keeps (settles : msg.settles = none) : TableStep table msg table

theorem checkIpc_table (tui : Tui) (msg : ToTui) (beyond : Bytes)
    (choices : List Bytes) :
    TableStep tui.inFlight msg (tui.checkIpc msg beyond choices).inFlight := by
  cases msg with
  | repFinal corrId sessionIdx content reasoning =>
      rw [checkIpc, (repFinal_settles _ _ _ _ _).inFlight]
      exact .removes corrId rfl
  | repError corrId text =>
      rw [checkIpc, (repError_settles _ _ _).inFlight]
      exact .removes corrId rfl
  | workerStart corrId parentCorrId model description =>
      exact .adds corrId parentCorrId _ model _ description rfl
  | workerEnd corrId => exact .removes corrId rfl
  | workerRep corrId success result =>
      rw [checkIpc, (workerRep_quiet _ _).1.inFlight]
      exact .keeps rfl
  | approvalReq corrId reqCorrId description => exact .keeps rfl
  | sessionRename corrId sessionIdx topic =>
      rw [checkIpc, (sessionRename_quiet _ _).1.inFlight]
      exact .keeps rfl

end Tui

namespace System

variable {priv : FsPriv} {sys dst : System} {label : Label}
  {trace : List (Taken System Label)}

def sentBy (taken : Taken System Label) : List ToBackend :=
  match taken.label with
  | .key ch env => (taken.src.tui.mainKey ch env).2
  | _ => []

def received (taken : Taken System Label) : Option ToTui :=
  match taken.label with
  | .poll _ _ => taken.src.bus.toTui.head?
  | _ => none

/-- The request ids stay below those of the sub-queries. -/
def Few (taken : Taken System Label) : Prop :=
  taken.dst.tui.nextCorr ≤ firstSubCorr

instance (taken : Taken System Label) : Decidable (Few taken) :=
  inferInstanceAs (Decidable (_ ≤ _))

def Served (sys : System) (c i : Nat) : Prop :=
  ∃ thread ∈ sys.chats, thread.corrId = c ∧ thread.sessionIdx = i

def ChatRequest (sys : System) (c i : Nat) : Prop :=
  (∃ msgs model provider, .reqSend c i msgs model provider ∈ sys.toBackend) ∨
    Served sys c i

theorem Served.move (served : Served sys c i) (moved : sys.Move priv label dst) :
    Served dst c i := by
  obtain ⟨thread, member, own⟩ := served
  cases moved with
  | recv msg rest waiting =>
      refine ⟨thread, ?_, own⟩
      cases msg with
      | reqSend => exact List.mem_append_left _ member
      | _ => exact member
  | chat k env old next subCorrNext sent here moved =>
      rcases mem_set_of_mem next here member with ⟨rfl, there⟩ | there
      · exact ⟨next, there, moved.keeps.1.trans own.1, moved.keeps.2.trans own.2⟩
      · exact ⟨thread, there, own⟩
  | _ => exact ⟨thread, member, own⟩

theorem ChatRequest.move (request : ChatRequest sys c i)
    (moved : sys.Move priv label dst) : ChatRequest dst c i := by
  rcases request with ⟨msgs, model, provider, member⟩ | served
  · cases moved with
    | key ch env => exact .inl ⟨msgs, model, provider, List.mem_append_left _ member⟩
    | recv msg rest waiting =>
        rw [waiting] at member
        rcases List.mem_cons.1 member with rfl | later
        · exact .inr ⟨_, List.mem_append_right _ (List.mem_singleton_self _), rfl,
            rfl⟩
        · refine .inl ⟨msgs, model, provider, ?_⟩
          cases msg <;> exact later
    | _ => exact .inl ⟨msgs, model, provider, member⟩
  · exact .inr (served.move moved)

theorem ChatRequest.from (request : ChatRequest dst c i)
    (moved : sys.Move priv label dst) (positive : 0 < sys.tui.nextCorr) :
    ChatRequest sys c i ∨ ∃ ch env text, label = .key ch env ∧
      c = sys.tui.nextCorr ∧
      sys.tui.Submits dst.tui (sys.tui.mainKey ch env).2 i text := by
  cases moved with
  | key ch env =>
      rcases request with ⟨msgs, model, provider, member⟩ | thread
      · rcases List.mem_append.1 member with before | sent
        · exact .inl (.inl ⟨msgs, model, provider, before⟩)
        · obtain ⟨fresh, text, submits⟩ :=
            (Tui.mainKey_outcome ch env positive).submits sent
          exact .inr ⟨ch, env, text, rfl, fresh, submits⟩
      · exact .inl (.inr thread)
  | recv msg rest waiting =>
      left
      have waits : ∀ msgs model provider,
          .reqSend c i msgs model provider ∈ rest → ChatRequest sys c i :=
        fun msgs model provider member =>
          .inl ⟨msgs, model, provider, waiting ▸ List.mem_cons_of_mem _ member⟩
      rcases request with ⟨msgs, model, provider, member⟩ | ⟨thread, member, own⟩
      · cases msg <;> exact waits _ _ _ member
      · cases msg with
        | reqSend corrId sessionIdx msgs model provider =>
            rcases List.mem_append.1 member with before | fresh
            · exact .inr ⟨thread, before, own⟩
            · obtain rfl := List.mem_singleton.1 fresh
              obtain ⟨rfl, rfl⟩ := own
              exact .inl ⟨msgs, model, provider, waiting ▸ List.mem_cons_self⟩
        | _ => exact .inr ⟨thread, member, own⟩
  | chat k env thread next subCorrNext sent here moved =>
      left
      rcases request with waits | ⟨other, member, own⟩
      · exact .inl waits
      · rcases List.mem_or_eq_of_mem_set member with before | rfl
        · exact .inr ⟨other, before, own⟩
        · exact .inr ⟨thread, List.mem_of_getElem? here,
            moved.keeps.1.symm.trans own.1, moved.keeps.2.symm.trans own.2⟩
  | _ => exact .inl request

theorem ChatRequest.mem_requestIds (request : ChatRequest sys c i) :
    c ∈ sys.requestIds := by
  rcases request with ⟨msgs, model, provider, member⟩ | ⟨thread, member, rfl, _⟩
  · exact List.mem_append_left _ (List.mem_filterMap.2 ⟨_, member, rfl⟩)
  · exact List.mem_append_right _ (List.mem_append_right _
      (List.mem_map_of_mem member))

theorem ChatRequest.not_worker (request : ChatRequest sys c i)
    (numbered : Numbered sys) : c ∉ sys.workers.map WorkerThread.corrId := by
  intro works
  obtain ⟨_, threads, apart⟩ := List.nodup_append.1 numbered.different
  rcases request with ⟨msgs, model, provider, member⟩ | ⟨thread, member, rfl, _⟩
  · exact apart c (List.mem_filterMap.2 ⟨_, member, rfl⟩) c
      (List.mem_append_left _ works) rfl
  · exact (List.nodup_append.1 threads).2.2 _ works _ (List.mem_map_of_mem member) rfl

theorem ChatRequest.unique (request : ChatRequest sys c i)
    (again : ChatRequest sys c j) (numbered : Numbered sys) : i = j := by
  obtain ⟨waiting, threads, apart⟩ := List.nodup_append.1 numbered.different
  have chats := (List.nodup_append.1 threads).2.1
  rcases request with ⟨msgs, model, provider, member⟩ | ⟨thread, member, rfl, rfl⟩
  · rcases again with ⟨msgs', model', provider', other⟩ | ⟨thread, other, rfl, _⟩
    · have same := filterMap_inj waiting member other rfl rfl
      injection same
    · exact absurd rfl (apart _ (List.mem_filterMap.2 ⟨_, member, rfl⟩) _
        (List.mem_append_right _ (List.mem_map_of_mem other)))
  · rcases again with ⟨msgs, model, provider, other⟩ | ⟨twin, other, same, rfl⟩
    · exact absurd rfl (apart _ (List.mem_filterMap.2 ⟨_, other, rfl⟩) _
        (List.mem_append_right _ (List.mem_map_of_mem member)))
    · rw [List.inj_on_of_nodup_map chats other member same]

theorem Few.lt (numbered : Numbered sys) (few : sys.tui.nextCorr ≤ firstSubCorr)
    (member : c ∈ sys.requestIds) : c < firstSubCorr :=
  (numbered.given c member).2.trans_le few

def WorkerRequest (sys : System) (c : Nat) : Prop :=
  c ∈ sys.workers.map WorkerThread.corrId

theorem WorkerRequest.move (request : WorkerRequest sys c)
    (moved : sys.Move priv label dst) : WorkerRequest dst c := by
  obtain ⟨thread, member, rfl⟩ := List.mem_map.1 request
  obtain ⟨i, here⟩ := List.mem_iff_getElem?.1 member
  obtain ⟨after, there, same, _⟩ := moved.worker_stays here
  exact List.mem_map.2 ⟨after, List.mem_of_getElem? there, same⟩

/-- The request, worker or sub-query that a message to the TUI is about. -/
def FromRequest (sys : System) : ToTui → Prop
  | .repFinal c i _ _ => Served sys c i
  | .repError c _ => ∃ i, Served sys c i
  | .sessionRename c i _ => Served sys c i
  | .workerStart c parent _ _ =>
      (WorkerRequest sys c ∧ parent = 0) ∨
        (firstSubCorr ≤ c ∧ ∃ i, Served sys parent i)
  | .workerEnd c => WorkerRequest sys c ∨ firstSubCorr ≤ c
  | .workerRep .. | .approvalReq .. => True

theorem FromRequest.move (origin : FromRequest sys msg)
    (moved : sys.Move priv label dst) : FromRequest dst msg := by
  cases msg with
  | repFinal c i content reasoning => exact Served.move origin moved
  | repError c text =>
      obtain ⟨i, request⟩ := origin
      exact ⟨i, request.move moved⟩
  | sessionRename c i topic => exact Served.move origin moved
  | workerStart c parent model description =>
      rcases origin with ⟨works, same⟩ | ⟨sub, i, request⟩
      · exact .inl ⟨works.move moved, same⟩
      · exact .inr ⟨sub, i, request.move moved⟩
  | workerEnd c => exact origin.imp (·.move moved) id
  | _ => trivial

/-- Sub-queries are numbered from `firstSubCorr`, and every message to the TUI is
about a request that was made. -/
structure Origins (sys : System) : Prop where
  next : firstSubCorr ≤ sys.subCorrNext
  subs : ∀ thread ∈ sys.chats, ∀ sub, thread.phase.subCorr = some sub →
    firstSubCorr ≤ sub ∧ sub < sys.subCorrNext
  messages : ∀ msg ∈ sys.bus.toTui, FromRequest sys msg

theorem WorkerThread.Sends.origin {thread : WorkerThread} (sends : thread.Sends msg)
    (member : thread ∈ sys.workers) : FromRequest sys msg := by
  have works : WorkerRequest sys thread.corrId := List.mem_map_of_mem member
  cases sends with
  | progress description at_ => exact .inl ⟨works, rfl⟩
  | ended at_ => exact .inl works
  | _ => trivial

theorem Origins.of_chat (origins : Origins sys) {thread next : ChatThread}
    (member : thread ∈ sys.chats)
    (moved : thread.Move sys.subCorrNext next subNext sent) :
    ∀ msg ∈ sent, FromRequest sys msg := by
  have request : Served sys thread.corrId thread.sessionIdx :=
    ⟨thread, member, rfl, rfl⟩
  intro msg sends
  cases moved with
  | quiet | called => exact absurd sends List.not_mem_nil
  | started iters left subCorr model prompt at_ =>
      obtain rfl := List.mem_singleton.1 sends
      exact .inr ⟨(origins.subs thread member subCorr (by rw [at_]; rfl)).1, _, request⟩
  | ended iters left subCorr at_ =>
      obtain rfl := List.mem_singleton.1 sends
      exact .inr (origins.subs thread member subCorr (by rw [at_]; rfl)).1
  | failed phase text before open_ after closed =>
      obtain rfl := List.mem_singleton.1 sends
      exact ⟨_, request⟩
  | replied phase content reasoning at_ after closed =>
      obtain rfl := List.mem_singleton.1 sends
      exact request
  | renamed topic at_ =>
      obtain rfl := List.mem_singleton.1 sends
      exact request

theorem Move.toTui_from (moved : sys.Move priv label dst)
    (member : msg ∈ dst.bus.toTui) :
    msg ∈ sys.bus.toTui ∨
      (∃ thread ∈ sys.workers, thread.Sends msg) ∨
      ∃ thread ∈ sys.chats, ∃ next subNext sent,
        thread.Move sys.subCorrNext next subNext sent ∧ msg ∈ sent := by
  cases moved with
  | poll beyond choices head rest waiting =>
      exact .inl (waiting ▸ List.mem_cons_of_mem _ member)
  | recv head rest waiting => cases head <;> exact .inl member
  | worker i env thread next bus here moved =>
      rcases moved.sends with same | ⟨sent, same, sends⟩
      · exact .inl (same ▸ member)
      · simp only [same] at member
        rcases List.mem_append.1 member with before | now
        · exact .inl before
        · obtain rfl := List.mem_singleton.1 now
          exact .inr (.inl ⟨thread, List.mem_of_getElem? here, sends⟩)
  | chat i env thread next subCorrNext sent here moved =>
      rcases List.mem_append.1 member with before | now
      · exact .inl before
      · exact .inr (.inr ⟨thread, List.mem_of_getElem? here, next, subCorrNext, sent,
          moved, now⟩)
  | _ => exact .inl member

theorem Origins.move (origins : Origins sys) (moved : sys.Move priv label dst) :
    Origins dst := by
  have messages : ∀ msg ∈ dst.bus.toTui, FromRequest dst msg := by
    intro msg member
    refine FromRequest.move ?_ moved
    rcases moved.toTui_from member with before | ⟨thread, there, sends⟩ |
      ⟨thread, there, next, subNext, sent, move, now⟩
    · exact origins.messages msg before
    · exact WorkerThread.Sends.origin sends there
    · exact origins.of_chat there move msg now
  obtain ⟨next, subs, _⟩ := origins
  cases moved with
  | recv msg rest waiting =>
      cases msg with
      | reqSend corrId sessionIdx msgs model provider =>
          refine ⟨next, fun thread member sub at_ => ?_, messages⟩
          rcases List.mem_append.1 member with before | fresh
          · exact subs thread before sub at_
          · obtain rfl := List.mem_singleton.1 fresh
            contradiction
      | _ => exact ⟨next, subs, messages⟩
  | chat i env thread after subCorrNext sent here moved =>
      have own := subs thread (List.mem_of_getElem? here)
      have later : sys.subCorrNext ≤ subCorrNext ∧ ∀ sub,
          after.phase.subCorr = some sub →
            firstSubCorr ≤ sub ∧ sub < subCorrNext := by
        cases moved with
        | quiet phase before none same =>
            exact ⟨Nat.le_refl _, fun sub at_ => absurd (none.symm.trans at_) (by simp)⟩
        | called iters left model prompt before open_ =>
            refine ⟨Nat.le_succ _, fun sub at_ => ?_⟩
            obtain rfl := Option.some.inj at_
            exact ⟨next, Nat.lt_succ_self _⟩
        | started iters left subCorr model prompt at_ =>
            refine ⟨Nat.le_refl _, fun sub same => ?_⟩
            obtain rfl := Option.some.inj same
            exact own _ (by rw [at_]; rfl)
        | ended => exact ⟨Nat.le_refl _, fun sub at_ => by contradiction⟩
        | failed phase text before open_ none closed =>
            exact ⟨Nat.le_refl _, fun sub at_ => absurd (none.symm.trans at_) (by simp)⟩
        | replied phase content reasoning at_ none closed =>
            exact ⟨Nat.le_refl _, fun sub at_ => absurd (none.symm.trans at_) (by simp)⟩
        | renamed => exact ⟨Nat.le_refl _, fun sub at_ => by contradiction⟩
      refine ⟨next.trans later.1, fun other member sub at_ => ?_, messages⟩
      rcases List.mem_or_eq_of_mem_set member with before | rfl
      · have bounds := subs other before sub at_
        exact ⟨bounds.1, bounds.2.trans_le later.1⟩
      · exact later.2 sub at_
  | _ => exact ⟨next, subs, messages⟩

theorem run_origins (run : Run (System.step priv) (Start priv) trace sys) :
    Origins sys := by
  refine run.always Origins (fun sys started => ⟨?_, ?_, ?_⟩)
    (fun _ _ _ origins stepped => origins.move (step_move stepped))
  · exact started.subCorrNext.ge
  · simp [started.chats]
  · simp [started.toTui]

end System

end FreeCli

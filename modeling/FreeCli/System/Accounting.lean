import FreeCli.System.SubQueries

namespace FreeCli

open Words FileTree Slots Transition Lists

/-! In-flight accounting: every entry is taken out by a message that is still to
come. -/

/-- The request whose worker reports progress: `bw_send_progress` reuses its
id. -/
def ToTui.progress : ToTui → Option Nat
  | .workerStart corrId 0 _ _ => some corrId
  | _ => none

namespace System

variable {priv : FsPriv} {sys dst : System} {label : Label}
  {trace : List (Taken System Label)}

/-- The message that closes `x` is in `msgs` or still to be sent. -/
inductive Pending (sys : System) (msgs : List ToTui) (x : Nat) : Prop
  | waits (member : x ∈ sys.toBackend.filterMap ToBackend.requestId)
  | works (thread : WorkerThread) (member : thread ∈ sys.workers)
      (own : thread.corrId = x) (open_ : thread.phase ≠ .done)
  | chats (thread : ChatThread) (member : thread ∈ sys.chats)
      (own : thread.corrId = x) (open_ : thread.phase.answered = false)
  | asks (thread : ChatThread) (member : thread ∈ sys.chats) (iters : Nat)
      (left : List ToolCall) (at_ : thread.phase = .subEnd iters left x)
  | sent (msg : ToTui) (member : msg ∈ msgs) (settles : msg.settles = some x)

theorem Pending.mono (pending : Pending sys msgs x) (workers : dst.workers = sys.workers)
    (chats : dst.chats = sys.chats)
    (toBackend : sys.toBackend.filterMap ToBackend.requestId ⊆
      dst.toBackend.filterMap ToBackend.requestId) : Pending dst msgs x := by
  cases pending with
  | waits member => exact .waits (toBackend member)
  | works thread member own open_ => exact .works thread (workers ▸ member) own open_
  | chats thread member own open_ => exact .chats thread (chats ▸ member) own open_
  | asks thread member iters left at_ =>
      exact .asks thread (chats ▸ member) iters left at_
  | sent msg member settles => exact .sent msg member settles

/-- Whatever `msgs` announce is closed by a later message. -/
def Followed (sys : System) : List ToTui → Prop
  | [] => True
  | msg :: rest => (∀ x, msg.starts = some x → Pending sys rest x) ∧ Followed sys rest

/-- What a step sends, and that it keeps what is pending so. -/
structure Sends (sys dst : System) (sent : List ToTui) : Prop where
  toTui : dst.bus.toTui = sys.bus.toTui ++ sent
  keeps : ∀ msgs x, Pending sys msgs x → Pending dst (msgs ++ sent) x
  followed : Followed dst sent

theorem Sends.followed_append (sends : Sends sys dst sent)
    (before : Followed sys msgs) : Followed dst (msgs ++ sent) := by
  induction msgs with
  | nil => exact sends.followed
  | cons msg rest ih =>
      exact ⟨fun x starts => sends.keeps rest x (before.1 x starts), ih before.2⟩

theorem Sends.nothing (toTui : dst.bus.toTui = sys.bus.toTui)
    (keeps : ∀ msgs x, Pending sys msgs x → Pending dst msgs x) :
    Sends sys dst [] where
  toTui := by rw [toTui, List.append_nil]
  keeps msgs x pending := by
    rw [List.append_nil]
    exact keeps msgs x pending
  followed := trivial

theorem recv_sends (msg : ToBackend) (rest : List ToBackend)
    (waiting : sys.toBackend = msg :: rest) :
    Sends sys ({ sys with toBackend := rest }.handle msg) [] := by
  refine .nothing (by cases msg <;> rfl) fun msgs x pending => ?_
  cases pending with
  | waits member =>
      rw [waiting] at member
      cases msg with
      | reqSend corrId sessionIdx history model provider =>
          rcases List.mem_cons.1 member with rfl | later
          · exact .chats _ (List.mem_append_right _ (List.mem_singleton_self _)) rfl rfl
          · exact .waits later
      | workerReq corrId workerType op argsJson =>
          rcases List.mem_cons.1 member with rfl | later
          · refine .works _ (List.mem_append_right _ (List.mem_singleton_self _)) rfl ?_
            rcases dispatch_phase { sys with toBackend := rest } x workerType op
              argsJson with start | ⟨result, reply⟩
            · rw [start]
              simp
            · rw [reply]
              simp
          · exact .waits later
      | approvalRep corrId reqCorrId approved => exact .waits member
  | works thread member own open_ =>
      refine .works thread ?_ own open_
      cases msg with
      | workerReq => exact List.mem_append_left _ member
      | _ => exact member
  | chats thread member own open_ =>
      refine .chats thread ?_ own open_
      cases msg with
      | reqSend => exact List.mem_append_left _ member
      | _ => exact member
  | asks thread member iters left at_ =>
      refine .asks thread ?_ iters left at_
      cases msg with
      | reqSend => exact List.mem_append_left _ member
      | _ => exact member
  | sent msg member settles => exact .sent msg member settles

end System

theorem WorkerThread.Move.closes {thread next : WorkerThread} {bus after : Bus}
    (moved : thread.Move priv env bus next after) (ends : next.phase = .done) :
    after.toTui = bus.toTui ++ [.workerEnd thread.corrId] := by
  cases moved with
  | finished at_ => rfl
  | resolved op path abs known at_ found => cases op <;> contradiction
  | _ => contradiction

namespace System

variable {priv : FsPriv} {sys dst : System} {label : Label}
  {trace : List (Taken System Label)}

theorem worker_sends {thread next : WorkerThread} {bus : Bus}
    (here : sys.workers[i]? = some thread)
    (moved : thread.Move priv env sys.bus next bus) :
    ∃ sent, Sends sys { sys with bus, workers := sys.workers.set i next } sent := by
  obtain ⟨sent, toTui, sends⟩ : ∃ sent, bus.toTui = sys.bus.toTui ++ sent ∧
      ∀ msg ∈ sent, sent = [msg] ∧ thread.Sends msg := by
    rcases moved.sends with same | ⟨msg, same, sends⟩
    · exact ⟨[], by rw [same, List.append_nil], by simp⟩
    · refine ⟨[msg], same, fun other member => ?_⟩
      obtain rfl := List.mem_singleton.1 member
      exact ⟨rfl, sends⟩
  have there : next ∈ sys.workers.set i next :=
    List.mem_set (List.getElem?_eq_some_iff.1 here).1 next
  refine ⟨sent, toTui, fun msgs x pending => ?_, ?_⟩
  · cases pending with
    | waits member => exact .waits member
    | works other member own open_ =>
        rcases mem_set_of_mem next here member with ⟨rfl, _⟩ | stays
        · by_cases ends : next.phase = .done
          · have closing := List.append_cancel_left (toTui.symm.trans (moved.closes ends))
            refine .sent (.workerEnd x) (List.mem_append_right _ ?_) rfl
            rw [closing, own]
            exact List.mem_singleton_self _
          · exact .works next there (moved.keeps.1.trans own) ends
        · exact .works other stays own open_
    | chats other member own open_ => exact .chats other member own open_
    | asks other member iters left at_ => exact .asks other member iters left at_
    | sent msg member settles =>
        exact .sent msg (List.mem_append_left _ member) settles
  · cases sent with
    | nil => trivial
    | cons msg rest =>
        obtain ⟨only, from_⟩ := sends msg List.mem_cons_self
        obtain rfl := (List.cons.inj only).2
        refine ⟨fun x starts => ?_, trivial⟩
        cases from_ with
        | progress description at_ =>
            obtain rfl := Option.some.inj starts
            refine .works next there moved.keeps.1 fun ends => ?_
            have closing := List.append_cancel_left (toTui.symm.trans (moved.closes ends))
            cases closing
        | _ => contradiction

theorem chat_sends {thread next : ChatThread} {sent : List ToTui}
    (here : sys.chats[i]? = some thread)
    (moved : thread.Move sys.subCorrNext next subNext sent) :
    Sends sys { sys with
      subCorrNext := subNext
      chats := sys.chats.set i next
      bus := { sys.bus with toTui := sys.bus.toTui ++ sent } } sent := by
  have there : next ∈ sys.chats.set i next :=
    List.mem_set (List.getElem?_eq_some_iff.1 here).1 next
  have same := moved.keeps.1
  refine ⟨rfl, fun msgs x pending => ?_, ?_⟩
  · cases pending with
    | waits member => exact .waits member
    | works other member own open_ => exact .works other member own open_
    | chats other member own open_ =>
        rcases mem_set_of_mem next here member with ⟨rfl, _⟩ | stays
        · cases moved with
          | quiet phase before after alike =>
              exact .chats _ there own (alike.trans open_)
          | called => exact .chats _ there own rfl
          | started => exact .chats _ there own rfl
          | ended => exact .chats _ there own rfl
          | failed phase text =>
              exact .sent _ (List.mem_append_right _ (List.mem_singleton_self _))
                (congrArg some own)
          | replied phase content reasoning =>
              exact .sent _ (List.mem_append_right _ (List.mem_singleton_self _))
                (congrArg some own)
          | renamed topic at_ =>
              rw [at_] at open_
              contradiction
        · exact .chats other stays own open_
    | asks other member iters left at_ =>
        rcases mem_set_of_mem next here member with ⟨rfl, _⟩ | stays
        · have sub : other.phase.subCorr = some x := by rw [at_]; rfl
          cases moved with
          | quiet phase before => exact absurd (before.symm.trans sub) (by simp)
          | called iters left model prompt before =>
              exact absurd (before.symm.trans sub) (by simp)
          | started iters left subCorr model prompt step =>
              cases at_.symm.trans step
          | ended iters left subCorr step =>
              cases at_.symm.trans step
              exact .sent _ (List.mem_append_right _ (List.mem_singleton_self _)) rfl
          | failed phase text before => exact absurd (before.symm.trans sub) (by simp)
          | replied phase content reasoning step => cases at_.symm.trans step
          | renamed topic step => cases at_.symm.trans step
        · exact .asks other stays iters left at_
    | sent msg member settles =>
        exact .sent msg (List.mem_append_left _ member) settles
  · cases moved with
    | quiet | called => trivial
    | started iters left subCorr model prompt at_ =>
        refine ⟨fun x starts => ?_, trivial⟩
        obtain rfl := Option.some.inj starts
        exact .asks _ there iters left rfl
    | ended | failed | replied | renamed =>
        exact ⟨fun x starts => by contradiction, trivial⟩

theorem Move.sends (moved : sys.Move priv label dst) :
    (∃ sent, Sends sys dst sent) ∨
      ∃ beyond choices msg rest, label = .poll beyond choices ∧
        sys.bus.toTui = msg :: rest ∧ dst = { sys with
          tui := sys.tui.checkIpc msg beyond choices
          bus := { sys.bus with toTui := rest } } := by
  cases moved with
  | key ch env =>
      refine .inl ⟨[], .nothing rfl fun msgs x pending => pending.mono rfl rfl ?_⟩
      rw [List.filterMap_append]
      exact List.subset_append_left _ _
  | idle beyond choices => exact .inl ⟨[], .nothing rfl fun _ _ => id⟩
  | poll beyond choices msg rest waiting =>
      exact .inr ⟨beyond, choices, msg, rest, rfl, waiting, rfl⟩
  | lost =>
      exact .inl ⟨[], .nothing rfl fun msgs x pending =>
        pending.mono rfl rfl (List.Subset.refl _)⟩
  | recv msg rest waiting =>
      exact .inl ⟨[], recv_sends msg rest waiting⟩
  | worker i env thread next bus here moved =>
      obtain ⟨sent, sends⟩ := worker_sends here moved
      exact .inl ⟨sent, sends⟩
  | chat i env thread next subCorrNext sent here moved =>
      exact .inl ⟨sent, chat_sends here moved⟩

theorem Followed.mono (followed : Followed sys msgs) (workers : dst.workers = sys.workers)
    (chats : dst.chats = sys.chats) (toBackend : dst.toBackend = sys.toBackend) :
    Followed dst msgs := by
  induction msgs with
  | nil => trivial
  | cons msg rest ih =>
      exact ⟨fun x starts => (followed.1 x starts).mono workers chats
        (by rw [toBackend]; exact List.Subset.refl _), ih followed.2⟩

/-- A progress message makes no second entry for its request. -/
def NoSecondEntry (taken : Taken System Label) : Prop :=
  ∀ c ∈ (received taken).bind ToTui.progress,
    none ∈ taken.src.tui.inFlight → c ∉ taken.src.inflightIds

instance (taken : Taken System Label) : Decidable (NoSecondEntry taken) :=
  inferInstanceAs (Decidable (∀ _ ∈ _, _ → _))

/-- Every entry will be closed, and no two have one id. -/
structure Accounts (sys : System) : Prop where
  unique : sys.inflightIds.Nodup
  entries : ∀ entry ∈ occupied sys.tui.inFlight,
    Pending sys sys.bus.toTui entry.corrId
  followed : Followed sys sys.bus.toTui

theorem Accounts.start (started : Start priv sys) : Accounts sys := by
  have none : occupied sys.tui.inFlight = [] := by
    rw [started.inFlight]
    exact occupied_replicate _
  exact ⟨by simp [inflightIds, none], by simp [none],
    by rw [started.toTui]; trivial⟩

theorem unannounced (once : sys.tickets s ≤ 1)
    (waiting : sys.bus.toTui = .workerStart s parent model description :: rest) :
    s ∉ sys.inflightIds := by
  intro member
  obtain ⟨entry, there, same⟩ := List.mem_map.1 member
  have entries : 0 < (occupied sys.tui.inFlight).countP fun entry => entry.corrId = s :=
    List.countP_pos_iff.2 ⟨entry, there, by simpa using same⟩
  have announced : 0 < sys.bus.toTui.countP fun msg => msg.starts = some s :=
    List.countP_pos_iff.2 ⟨_, waiting ▸ List.mem_cons_self, by simp [ToTui.starts]⟩
  rw [tickets] at once
  omega

theorem Move.unique (moved : sys.Move priv label dst) (unique : sys.inflightIds.Nodup)
    (numbered : Numbered sys) (origins : Origins sys) (own : OwnEntries sys)
    (once : ∀ s, firstSubCorr ≤ s → sys.tickets s ≤ 1)
    (few : dst.tui.nextCorr ≤ firstSubCorr)
    (single : NoSecondEntry ⟨sys, label, dst⟩) : dst.inflightIds.Nodup := by
  cases moved with
  | key ch env =>
      change (sys.tui.mainKey ch env).1.nextCorr ≤ firstSubCorr at few
      have fresh : sys.tui.nextCorr < firstSubCorr → sys.tui.nextCorr ∉ sys.inflightIds := by
        intro below member
        obtain ⟨entry, there, same⟩ := List.mem_map.1 member
        have bound := own.numbered entry there
        omega
      rw [inflightIds]
      rcases (Tui.mainKey_outcome ch env numbered.positive).table with same |
        ⟨active, text, submits⟩ | asks
      · exact same ▸ unique
      · have next := submits.nextCorr
        obtain ⟨name, table⟩ := submits.inFlight
        simp only [table]
        exact nodup_add unique _ fun _ => fresh (by omega)
      · have next := asks.nextCorr
        obtain ⟨sidx, op, table⟩ := asks.inFlight
        simp only [table]
        exact nodup_add unique _ fun _ => fresh (by omega)
  | poll beyond choices msg rest waiting =>
      have table := Tui.checkIpc_table sys.tui msg beyond choices
      rw [inflightIds]
      generalize (sys.tui.checkIpc msg beyond choices).inFlight = after at table ⊢
      cases table with
      | removes corrId settles => exact nodup_remove unique _
      | adds corrId parent sidx model shown description starts =>
          subst starts
          refine nodup_add unique _ fun free => ?_
          have announced := origins.messages _ (waiting ▸ List.mem_cons_self)
          cases parent with
          | zero => exact single corrId (by simp [received, waiting, ToTui.progress]) free
          | succ parent =>
              rcases announced with ⟨_, none⟩ | ⟨sub, _⟩
              · contradiction
              · exact unannounced (once corrId sub) waiting
      | keeps settles => exact unique
  | lost =>
      rw [inflightIds, occupied_dropped]
      exact List.nodup_nil
  | recv msg rest waiting => cases msg <;> exact unique
  | _ => exact unique

/-- A message that closes the entry has not been processed. -/
theorem poll_entries (accounts : Accounts sys) (beyond : Bytes) (choices : List Bytes)
    (waiting : sys.bus.toTui = msg :: rest) {entry : InFlight}
    (old : entry ∈ occupied sys.tui.inFlight)
    (member : entry ∈ occupied (sys.tui.checkIpc msg beyond choices).inFlight) :
    Pending sys rest entry.corrId := by
  have pending := accounts.entries entry old
  rw [waiting] at pending
  cases pending with
  | waits member => exact .waits member
  | works thread member own open_ => exact .works thread member own open_
  | chats thread member own open_ => exact .chats thread member own open_
  | asks thread member iters left at_ => exact .asks thread member iters left at_
  | sent closing there settles =>
      rcases List.mem_cons.1 there with rfl | later
      · have table := Tui.checkIpc_table sys.tui closing beyond choices
        generalize (sys.tui.checkIpc closing beyond choices).inFlight = after
          at table member
        cases table with
        | removes corrId closes =>
            obtain rfl := Option.some.inj (closes.symm.trans settles)
            refine (not_mem_remove accounts.unique member (fun found matched => ?_)
              (beq_self_eq_true _)).elim
            exact eq_of_beq matched
        | adds corrId parent sidx model shown description starts =>
            subst starts
            contradiction
        | keeps unsettled => cases unsettled.symm.trans settles
      · exact .sent closing later settles

theorem Move.entries (moved : sys.Move priv label dst) (accounts : Accounts sys)
    (positive : 0 < sys.tui.nextCorr) (entry : InFlight)
    (member : entry ∈ occupied dst.tui.inFlight) :
    Pending dst dst.bus.toTui entry.corrId := by
  cases moved.entry_from positive member with
  | before old =>
      rcases moved.sends with ⟨sent, sends⟩ |
        ⟨beyond, choices, msg, rest, rfl, waiting, rfl⟩
      · rw [sends.toTui]
        exact sends.keeps _ _ (accounts.entries entry old)
      · exact (poll_entries accounts beyond choices waiting old member).mono rfl rfl
          (List.Subset.refl _)
  | chat ch env active text step submits corr place top =>
      subst step
      cases moved
      obtain ⟨_, _, _, sent⟩ := submits.sent
      refine .waits ?_
      simp [sent, ToBackend.requestId, corr]
  | worker ch env step asks corr =>
      subst step
      cases moved
      obtain ⟨_, _, _, sent⟩ := asks.sent
      refine .waits ?_
      simp [sent, ToBackend.requestId, corr]
  | sub beyond choices parent model description rest step waiting =>
      subst step
      cases moved with
      | idle => exact accounts.entries entry member
      | poll _ _ msg rest waits =>
          have followed := accounts.followed
          rw [waits] at followed waiting
          cases waiting
          exact (followed.1 _ rfl).mono rfl rfl (List.Subset.refl _)

theorem Accounts.move (accounts : Accounts sys) (moved : sys.Move priv label dst)
    (numbered : Numbered sys) (origins : Origins sys) (own : OwnEntries sys)
    (once : ∀ s, firstSubCorr ≤ s → sys.tickets s ≤ 1)
    (few : dst.tui.nextCorr ≤ firstSubCorr)
    (single : NoSecondEntry ⟨sys, label, dst⟩) : Accounts dst where
  unique := moved.unique accounts.unique numbered origins own once few single
  entries := moved.entries accounts numbered.positive
  followed := by
    have followed := accounts.followed
    rcases moved.sends with ⟨sent, sends⟩ |
      ⟨beyond, choices, msg, rest, rfl, waiting, rfl⟩
    · rw [sends.toTui]
      exact sends.followed_append followed
    · rw [waiting] at followed
      exact followed.2.mono rfl rfl rfl

theorem run_accounts (run : Run (System.step priv) (Start priv) trace sys)
    (few : ∀ taken ∈ trace, Few taken) (single : ∀ taken ∈ trace, NoSecondEntry taken) :
    Accounts sys := by
  refine run.invariant_trace (fun taken => Few taken ∧ NoSecondEntry taken)
    (fun _ => Accounts) (fun _ started => .start started) ?_
    fun taken member => ⟨few taken member, single taken member⟩
  intro trace src label dst before earlier accounts stepped last
  have soFar : ∀ taken ∈ trace, Few taken := fun taken member => (earlier taken member).1
  exact accounts.move (step_move stepped) (run_numbered before) (run_origins before)
    (run_ownEntries before soFar) (fun s sub => (run_tickets before soFar sub).1)
    last.1 last.2

/-- Request `c` was made and all that the backend sends for it is processed. -/
structure Settled (trace : List (Taken System Label)) (sys : System) (c : Nat) :
    Prop where
  made : c ∈ sys.requestIds
  taken : c ∉ sys.toBackend.filterMap ToBackend.requestId
  workers : ∀ thread ∈ sys.workers, thread.corrId = c → thread.phase = .done
  chats : ∀ thread ∈ sys.chats, thread.corrId = c → thread.phase = .done
  messages : ∀ msg ∈ sys.bus.toTui, msg.corrId ≠ c ∧ ¬SubOf trace c msg.corrId

/-- No two entries have one id, and a settled request has none, nor have its
sub-queries. -/
structure Accounted (trace : List (Taken System Label)) (sys : System) : Prop where
  unique : sys.inflightIds.Nodup
  settled : ∀ c, Settled trace sys c → ∀ entry ∈ occupied sys.tui.inFlight,
    entry.corrId ≠ c ∧ ¬SubOf trace c entry.corrId

/-- A message changes no entry with another id. -/
def Undisturbed (taken : Taken System Label) : Prop :=
  ∀ msg, received taken = some msg → ∀ (k : Nat) (entry : InFlight),
    entry.corrId ≠ msg.corrId →
      (taken.dst.tui.inFlight[k]? = some (some entry) ↔
        taken.src.tui.inFlight[k]? = some (some entry))

theorem ToTui.corrId_settles {msg : ToTui} (settles : msg.settles = some x) :
    msg.corrId = x := by
  cases msg <;> first | exact Option.some.inj settles | contradiction

theorem Settled.none_pending (settled : Settled trace sys c) (origins : Origins sys)
    (small : c < firstSubCorr) : ¬Pending sys sys.bus.toTui c := by
  intro pending
  cases pending with
  | waits member => exact settled.taken member
  | works thread member own open_ => exact open_ (settled.workers thread member own)
  | chats thread member own open_ =>
      rw [settled.chats thread member own] at open_
      contradiction
  | asks thread member iters left at_ =>
      have sub := (origins.subs thread member c (by rw [at_]; rfl)).1
      omega
  | sent msg member settles =>
      exact (settled.messages msg member).1 (ToTui.corrId_settles settles)

theorem Settled.sub_not_pending (settled : Settled trace sys c)
    (known : SubsKnown trace sys) (numbered : Numbered sys)
    (few : sys.tui.nextCorr ≤ firstSubCorr) (sub : SubOf trace c s) :
    ¬Pending sys sys.bus.toTui s := by
  obtain ⟨first, _, own⟩ := known.kept c s sub
  have unmade : s ∉ sys.requestIds := by
    intro member
    have small := Few.lt numbered few member
    omega
  intro pending
  cases pending with
  | waits member => exact unmade (List.mem_append_left _ member)
  | works thread member same open_ =>
      exact unmade (List.mem_append_right _ (List.mem_append_left _
        (List.mem_map.2 ⟨thread, member, same⟩)))
  | chats thread member same open_ =>
      exact unmade (List.mem_append_right _ (List.mem_append_right _
        (List.mem_map.2 ⟨thread, member, same⟩)))
  | asks thread member iters left at_ =>
      have done := settled.chats thread member (own thread member (by rw [at_]; rfl))
      cases at_.symm.trans done
  | sent msg member settles =>
      exact (settled.messages msg member).2 (ToTui.corrId_settles settles ▸ sub)

theorem Move.undisturbed (moved : sys.Move priv label dst) :
    Undisturbed ⟨sys, label, dst⟩ := by
  intro msg arrives k entry other
  cases moved with
  | poll beyond choices head rest waiting =>
      obtain rfl : head = msg := by simpa [received, waiting] using arrives
      have table := Tui.checkIpc_table sys.tui head beyond choices
      simp only
      generalize (sys.tui.checkIpc head beyond choices).inFlight = after at table ⊢
      cases table with
      | removes corrId settles =>
          refine getElem?_remove (beq_false_of_ne fun same => other ?_)
          rw [same, ToTui.corrId_settles settles]
      | adds corrId parent sidx model shown description starts =>
          subst starts
          exact getElem?_add (hasCorr corrId) (beq_self_eq_true _)
            (beq_false_of_ne other)
      | keeps settles => exact .rfl
  | recv head rest waiting => cases head <;> exact .rfl
  | idle => exact .rfl
  | _ => contradiction

theorem Accounts.accounted (accounts : Accounts sys) (known : SubsKnown trace sys)
    (numbered : Numbered sys) (origins : Origins sys)
    (few : sys.tui.nextCorr ≤ firstSubCorr) : Accounted trace sys where
  unique := accounts.unique
  settled c settled entry member := by
    have pending := accounts.entries entry member
    refine ⟨?_, fun sub => settled.sub_not_pending known numbered few sub pending⟩
    rintro rfl
    exact settled.none_pending origins (Few.lt numbered few settled.made) pending

theorem Move.single (moved : sys.Move priv label dst)
    (unique : dst.inflightIds.Nodup) : NoSecondEntry ⟨sys, label, dst⟩ := by
  intro c progress free member
  obtain ⟨msg, arrives, reports⟩ := Option.bind_eq_some_iff.1 progress
  cases moved with
  | poll beyond choices head rest waiting =>
      obtain rfl : head = msg := by simpa [received, waiting] using arrives
      cases head with
      | workerStart corrId parent model description =>
          cases parent with
          | zero =>
              obtain rfl := Option.some.inj reports
              exact not_nodup_add free member unique
          | succ parent => contradiction
      | _ => contradiction
  | idle beyond choices empty => simp [received, empty] at arrives
  | _ => contradiction

structure InFlightAccounting (trace : List (Taken System Label)) : Prop where
  accounted : ∀ earlier taken later, trace = earlier ++ taken :: later →
    Accounted (earlier ++ [taken]) taken.dst
  undisturbed : ∀ taken ∈ trace, Undisturbed taken

theorem in_flight_accounting (run : Run (System.step priv) (Start priv) trace sys)
    (few : ∀ taken ∈ trace, Few taken) :
    InFlightAccounting trace ↔ ∀ taken ∈ trace, NoSecondEntry taken := by
  constructor
  · intro accounting taken member
    obtain ⟨earlier, later, rfl, _, stepped⟩ := run.prefix_of_mem member
    exact (step_move stepped).single (accounting.accounted earlier taken later rfl).unique
  · intro single
    refine ⟨?_, fun taken member => ?_⟩
    · rintro earlier taken later rfl
      obtain ⟨before, stepped⟩ := run.split
      have upTo := before.snoc stepped
      have within : ∀ other ∈ earlier ++ [taken], other ∈ earlier ++ taken :: later := by
        intro other member
        rcases List.mem_append.1 member with early | now
        · exact List.mem_append_left _ early
        · obtain rfl := List.mem_singleton.1 now
          exact List.mem_append_right _ List.mem_cons_self
      have soFar : ∀ other ∈ earlier ++ [taken], Few other := fun other member =>
        few other (within other member)
      have accounts := run_accounts upTo soFar fun other member =>
        single other (within other member)
      exact accounts.accounted (run_subsKnown upTo) (run_numbered upTo)
        (run_origins upTo) (run_few upTo soFar)
    · obtain ⟨earlier, later, rfl, _, stepped⟩ := run.prefix_of_mem member
      exact (step_move stepped).undisturbed

def asksLabels : List Label :=
  [line "hi", .recv] ++ List.replicate 6 (.chat 0 asksAi) ++
    List.replicate 4 (.chat 0 (provides "ok")) ++ List.replicate 4 (.poll [] [])

theorem in_flight_accounting_asks : ∃ (trace : List (Taken System Label)) (sys : System),
    Run (System.step sandboxPriv) (Start sandboxPriv) trace sys ∧
      Settled trace sys 1 ∧ SubOf trace 1 firstSubCorr ∧ InFlightAccounting trace := by
  have done : (exec (System.step sandboxPriv) asksLabels (fresh emptySandbox)).any
      fun sys => 1 ∈ sys.requestIds ∧ sys.toBackend = [] ∧ sys.workers = [] ∧
        (∀ thread ∈ sys.chats, thread.phase = .done) ∧ sys.bus.toTui = [] := by
    decide +kernel
  have meets : ∀ taken ∈ execTrace (System.step sandboxPriv) asksLabels
      (fresh emptySandbox), Few taken ∧ NoSecondEntry taken := by decide +kernel
  obtain ⟨sys, ran, final⟩ := (Option.any_eq_true _ _).1 done
  obtain ⟨made, toBackend, workers, chats, toTui⟩ := of_decide_eq_true final
  have run := Run.of_exec (fresh_start emptySandbox_plain) ran
  refine ⟨_, sys, run, ⟨made, ?_, ?_, fun thread member _ => chats thread member, ?_⟩,
    by decide +kernel, (in_flight_accounting run fun taken member =>
      (meets taken member).1).2 fun taken member => (meets taken member).2⟩
  · simp [toBackend]
  · simp [workers]
  · simp [toTui]

def listLabels : List Label :=
  [line "/fs list", .recv, work "" "", work "" ""]

/-- `bw_send_progress` gives `/fs list` a second entry. -/
theorem in_flight_accounting_list : ¬∀ (priv : FsPriv) (trace : List (Taken System Label))
    (sys : System), Run (System.step priv) (Start priv) trace sys →
      InFlightAccounting trace := by
  intro claimed
  have listed : (exec (System.step sandboxPriv) listLabels (fresh emptySandbox)).any
      fun src => (System.step sandboxPriv src (.poll [] [])).any
        fun dst => dst.inflightIds = [1, 1] := by decide +kernel
  obtain ⟨src, ran, last⟩ := (Option.any_eq_true _ _).1 listed
  obtain ⟨dst, stepped, twice⟩ := (Option.any_eq_true _ _).1 last
  have run := (Run.of_exec (fresh_start emptySandbox_plain) ran).snoc stepped
  have unique := ((claimed sandboxPriv _ dst run).accounted _ _ [] rfl).unique
  rw [of_decide_eq_true twice] at unique
  contradiction

end System

end FreeCli

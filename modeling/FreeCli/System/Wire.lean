import FreeCli.Library.Lists
import FreeCli.Core.IpcReceive
import FreeCli.Core.IpcThreads
import FreeCli.Ui.Carried

namespace FreeCli

open Words Transition Guarded

/-! The messages of the two processes as the frames between them. -/

/-- `ipc_send` is given the bytes of an encoder and the length it announces. -/
def Encoded.message (encoded : Encoded) (type : UInt32) (corrId : Nat) : IpcMsg where
  type := type
  corrId := UInt64.ofNat corrId
  payload := encoded.buf.take encoded.outLen.toNat

def msgReqSend : UInt32 := 1
def msgWorkerReq : UInt32 := 30
def msgApprovalRep : UInt32 := 41

/-- What a C string function sees of these bytes. -/
def string (bytes : Bytes) : Option CString := some (CString.of bytes)

def boolInt (flag : Bool) : Int := if flag then 1 else 0

/-- The messages `main.c` sends. -/
def ToBackend.wire : ToBackend → IpcMsg
  | .reqSend corrId sessionIdx msgs model provider =>
      (ipcEncodeReqSend
        { sessionIdx := UInt32.ofNat sessionIdx
          msgs := msgs.map fun msg => (if msg.1 then 1 else 0, CString.of msg.2)
          model := string model
          provider := string provider }).message msgReqSend corrId
  | .workerReq corrId workerType op argsJson =>
      (ipcEncodeWorkerReq
        { workerType := UInt32.ofNat workerType
          op := string op
          argsJson := string argsJson }).message msgWorkerReq corrId
  | .approvalRep corrId reqCorrId approved =>
      (ipcEncodeApprovalRep
        { reqCorrId := UInt64.ofNat reqCorrId
          approved := boolInt approved }).message msgApprovalRep corrId

/-- The messages the backend sends; the text of an error is sent without its
terminator. -/
def ToTui.wire : ToTui → IpcMsg
  | .repFinal corrId sessionIdx content reasoning =>
      (ipcEncodeRepFinal
        { sessionIdx := UInt32.ofNat sessionIdx
          content := string content
          reasoning := reasoning.map CString.of }).message msgRepFinal corrId
  | .repError corrId text =>
      { type := msgRepError, corrId := UInt64.ofNat corrId, payload := terminated text }
  | .workerStart corrId parentCorrId model description =>
      (ipcEncodeWorkerStart
        { parentCorrId := UInt64.ofNat parentCorrId
          model := string model
          description := string description }).message msgWorkerStart corrId
  | .workerEnd corrId =>
      { type := msgWorkerEnd, corrId := UInt64.ofNat corrId, payload := [] }
  | .workerRep corrId success result =>
      (ipcEncodeWorkerRep
        { success := boolInt success, result := string result }).message msgWorkerRep corrId
  | .approvalReq corrId reqCorrId description =>
      (ipcEncodeApprovalReq
        { reqCorrId := UInt64.ofNat reqCorrId
          description := string description }).message msgApprovalReq corrId
  | .sessionRename corrId sessionIdx topic =>
      (ipcEncodeSessionRename
        { sessionIdx := UInt32.ofNat sessionIdx, topic := string topic }).message
          msgSessionRename corrId

/-- The messages of a request: `is_user[i]` and the string `texts[i]`. -/
def requestMsgs : List UInt8 → List (Option Bytes) → Option (List (Bool × Bytes))
  | [], [] => some []
  | isUser :: users, text :: texts => do
      let block ← text
      let text ← cString block
      let msgs ← requestMsgs users texts
      some ((decide (isUser ≠ 0), text) :: msgs)
  | _, _ => none

def receiveReqSend (msg : IpcMsg) : Option (Option ToBackend) := do
  let (ret, out) ← ipcDecodeReqSend msg.payload ⟨0, 0, none, none, none, none⟩
  if ret = 0 then
    let users ← out.isUser
    let texts ← out.texts
    let msgs ← requestMsgs users texts
    let model ← stringOr [] out.model
    let provider ← stringOr [] out.provider
    some (some (.reqSend msg.corrId.toNat out.sessionIdx.toNat msgs model provider))
  else
    some none

/-- `bw_dispatch_msg` up to the search for the worker -/
def receiveWorkerReq (msg : IpcMsg) : Option (Option ToBackend) := do
  let (ret, out) ← ipcDecodeWorkerReq msg.payload ⟨0, none, none⟩
  if ret = 0 then
    let op ← stringOr [] out.op
    let argsJson ← stringOr [] out.argsJson
    some (some (.workerReq msg.corrId.toNat out.workerType.toNat op argsJson))
  else
    some none

def receiveApprovalRep (msg : IpcMsg) : Option (Option ToBackend) := do
  let (ret, out) ← ipcDecodeApprovalRep msg.payload ⟨0, 0⟩
  if ret = 0 then
    some (some (.approvalRep msg.corrId.toNat out.reqCorrId.toNat (out.approved ≠ 0)))
  else
    some none

/-- The body of the loop in `main` of `backend.c`: what it takes a message for, if it does
not drop it.  `none` is a read outside of a block. -/
def backendReceive (msg : IpcMsg) : Option (Option ToBackend) :=
  if msg.type = msgReqSend then receiveReqSend msg
  else if msg.type = msgWorkerReq then receiveWorkerReq msg
  else if msg.type = msgApprovalRep ∧ msg.payload ≠ [] then receiveApprovalRep msg
  else some none

/-! ### Messages that survive the wire -/

theorem text_string {bytes : Bytes} (plain : 0 ∉ bytes) : text (string bytes) = bytes :=
  terminated_of_nulFree plain

/-- Numbers in the range of their fields, strings without a NUL, and a frame that is not too
long. -/
def ToBackend.Sendable : ToBackend → Prop
  | .reqSend corrId sessionIdx msgs model provider =>
      corrId < 2 ^ 64 ∧ sessionIdx < 2 ^ 32 ∧ (∀ msg ∈ msgs, 0 ∉ msg.2) ∧ 0 ∉ model ∧
        0 ∉ provider ∧
        28 + (msgs.map fun msg => 5 + msg.2.length).sum + model.length + provider.length < 2 ^ 32
  | .workerReq corrId workerType op argsJson =>
      corrId < 2 ^ 64 ∧ workerType < 2 ^ 32 ∧ 0 ∉ op ∧ 0 ∉ argsJson ∧
        24 + op.length + argsJson.length < 2 ^ 32
  | .approvalRep corrId reqCorrId _ => corrId < 2 ^ 64 ∧ reqCorrId < 2 ^ 64

/-- An error is not among them: its text arrives without a terminator. -/
def ToTui.Sendable : ToTui → Prop
  | .repFinal corrId sessionIdx content reasoning =>
      corrId < 2 ^ 64 ∧ sessionIdx < 2 ^ 31 ∧ 0 ∉ content ∧ (∀ text ∈ reasoning, 0 ∉ text) ∧
        24 + content.length + (reasoning.getD []).length < 2 ^ 32
  | .repError _ _ => False
  | .workerStart corrId parentCorrId model description =>
      corrId < 2 ^ 64 ∧ parentCorrId < 2 ^ 64 ∧ 0 ∉ model ∧ model ≠ [] ∧ 0 ∉ description ∧
        28 + model.length + description.length < 2 ^ 32
  | .workerEnd corrId => corrId < 2 ^ 64
  | .workerRep corrId _ result => corrId < 2 ^ 64 ∧ 0 ∉ result ∧ 17 + result.length < 2 ^ 32
  | .approvalReq corrId reqCorrId description =>
      corrId < 2 ^ 64 ∧ reqCorrId < 2 ^ 64 ∧ 0 ∉ description ∧ description ≠ [] ∧
        24 + description.length < 2 ^ 32
  | .sessionRename corrId sessionIdx topic =>
      corrId < 2 ^ 64 ∧ sessionIdx < 2 ^ 31 ∧ 0 ∉ topic ∧ 20 + topic.length < 2 ^ 32

theorem Encoded.message_payload {encoded : Encoded} {size : Nat}
    (lengths : encoded.buf.length = size ∧ encoded.outLen.toNat = size) (type : UInt32)
    (corrId : Nat) :
    encoded.message type corrId = ⟨type, UInt64.ofNat corrId, encoded.buf⟩ := by
  rw [message, lengths.2, List.take_of_length_le (Nat.le_of_eq lengths.1)]

theorem toNat_corrId {corrId : Nat} (small : corrId < 2 ^ 64) :
    (UInt64.ofNat corrId).toNat = corrId :=
  UInt64.toNat_ofNat_of_lt' small

theorem toNat_field {n : Nat} (small : n < 2 ^ 32) : (UInt32.ofNat n).toNat = n :=
  UInt32.toNat_ofNat_of_lt' small

theorem boolInt_ne_zero (flag : Bool) : decide (boolInt flag ≠ 0) = flag := by
  cases flag <;> rfl

theorem ToTui.carried_wire {msg : ToTui} (sendable : msg.Sendable) :
    Carried msg msg.wire ∧ msg.wire.Fits := by
  cases msg with
  | repFinal corrId sessionIdx content reasoning =>
      obtain ⟨corr, index, plain, thought, short⟩ := sendable
      let v : RepFinal :=
        { sessionIdx := UInt32.ofNat sessionIdx, content := string content
          reasoning := reasoning.map CString.of }
      have thoughts : v.reasoning.map CString.bytes = reasoning := by
        cases reasoning with
        | none => rfl
        | some bytes => exact congrArg some (terminated_of_nulFree (thought bytes rfl))
      have length : (text v.reasoning).length = (reasoning.getD []).length := by
        rw [← thoughts]
        cases v.reasoning <;> rfl
      have size : v.size = 12 + content.length + (reasoning.getD []).length := by
        rw [RepFinal.size, length, text_string plain]
      have lengths := ipcEncodeRepFinal_length v (by omega)
      have index_ : v.sessionIdx.toNat = sessionIdx := toNat_field (by omega)
      have carried := Carried.repFinal (UInt64.ofNat corrId) v (by omega) (by omega)
      rw [toNat_corrId corr, index_, text_string plain, thoughts] at carried
      have sent : (ToTui.repFinal corrId sessionIdx content reasoning).wire = _ :=
        Encoded.message_payload lengths msgRepFinal corrId
      rw [sent]
      refine ⟨carried, ?_⟩
      rw [IpcMsg.Fits]
      dsimp only
      omega
  | repError corrId text => exact sendable.elim
  | workerStart corrId parentCorrId model description =>
      obtain ⟨corr, parent, plain, named, plainDescription, short⟩ := sendable
      let v : WorkerStart :=
        { parentCorrId := UInt64.ofNat parentCorrId, model := string model
          description := string description }
      have size : v.size = 16 + model.length + description.length := by
        rw [WorkerStart.size, text_string plain, text_string plainDescription]
      have lengths := ipcEncodeWorkerStart_length v (by omega)
      have carried := Carried.workerStart (UInt64.ofNat corrId) v (by omega)
        (by rw [text_string plain]; exact named)
      rw [toNat_corrId corr, toNat_corrId parent, text_string plain,
        text_string plainDescription] at carried
      have sent : (ToTui.workerStart corrId parentCorrId model description).wire = _ :=
        Encoded.message_payload lengths msgWorkerStart corrId
      rw [sent]
      refine ⟨carried, ?_⟩
      rw [IpcMsg.Fits]
      dsimp only
      omega
  | workerEnd corrId =>
      have carried := Carried.workerEnd (UInt64.ofNat corrId)
      rw [toNat_corrId sendable] at carried
      exact ⟨carried, by simp [IpcMsg.Fits, wire]⟩
  | workerRep corrId success result =>
      obtain ⟨corr, plain, short⟩ := sendable
      let v : WorkerRep := { success := boolInt success, result := string result }
      have size : v.size = 5 + result.length := by
        rw [WorkerRep.size, text_string plain]
      have lengths := ipcEncodeWorkerRep_length v (by omega)
      have carried := Carried.workerRep (UInt64.ofNat corrId) v (by omega)
      rw [toNat_corrId corr, boolInt_ne_zero, text_string plain] at carried
      have sent : (ToTui.workerRep corrId success result).wire = _ :=
        Encoded.message_payload lengths msgWorkerRep corrId
      rw [sent]
      refine ⟨carried, ?_⟩
      rw [IpcMsg.Fits]
      dsimp only
      omega
  | approvalReq corrId reqCorrId description =>
      obtain ⟨corr, request, plain, described, short⟩ := sendable
      let v : ApprovalReq :=
        { reqCorrId := UInt64.ofNat reqCorrId, description := string description }
      have size : v.size = 12 + description.length := by
        rw [ApprovalReq.size, text_string plain]
      have lengths := ipcEncodeApprovalReq_length v (by omega)
      have carried := Carried.approvalReq (UInt64.ofNat corrId) v (by omega)
        (by rw [text_string plain]; exact described)
      rw [toNat_corrId corr, toNat_corrId request, text_string plain] at carried
      have sent : (ToTui.approvalReq corrId reqCorrId description).wire = _ :=
        Encoded.message_payload lengths msgApprovalReq corrId
      rw [sent]
      refine ⟨carried, ?_⟩
      rw [IpcMsg.Fits]
      dsimp only
      omega
  | sessionRename corrId sessionIdx topic =>
      obtain ⟨corr, index, plain, short⟩ := sendable
      let v : SessionRename :=
        { sessionIdx := UInt32.ofNat sessionIdx, topic := string topic }
      have size : v.size = 8 + topic.length := by
        rw [SessionRename.size, text_string plain]
      have lengths := ipcEncodeSessionRename_length v (by omega)
      have index_ : v.sessionIdx.toNat = sessionIdx := toNat_field (by omega)
      have carried := Carried.sessionRename (UInt64.ofNat corrId) v (by omega) (by omega)
      rw [toNat_corrId corr, index_, text_string plain] at carried
      have sent : (ToTui.sessionRename corrId sessionIdx topic).wire = _ :=
        Encoded.message_payload lengths msgSessionRename corrId
      rw [sent]
      refine ⟨carried, ?_⟩
      rw [IpcMsg.Fits]
      dsimp only
      omega

/-! ### `main` of the backend on the messages of the TUI -/

theorem requestMsgs_encoded (msgs : List (Bool × Bytes)) (plain : ∀ msg ∈ msgs, 0 ∉ msg.2) :
    requestMsgs (msgs.map fun msg => if msg.1 then 1 else 0)
      (msgs.map fun msg => some ((CString.of msg.2).bytes ++ [0])) = some msgs := by
  induction msgs with
  | nil => rfl
  | cons msg msgs ih =>
      have rest := ih fun later member => plain later (List.mem_cons_of_mem _ member)
      have closed : (0 : UInt8) ∈ (CString.of msg.2).bytes ++ [0] := by simp
      have read : cString ((CString.of msg.2).bytes ++ [0]) = some msg.2 := by
        rw [cString, if_pos closed, terminated_append_nul (CString.of msg.2) []]
        exact congrArg some (terminated_of_nulFree (plain msg (List.mem_cons_self ..)))
      have flag : decide ((if msg.1 then (1 : UInt8) else 0) ≠ 0) = msg.1 := by
        cases msg.1 <;> rfl
      simp only [List.map_cons, requestMsgs, Option.bind_eq_bind, Option.bind_some, read, rest,
        flag]

theorem receiveReqSend_wire {corrId sessionIdx : Nat} {msgs : List (Bool × Bytes)}
    {model provider : Bytes}
    (sendable : (ToBackend.reqSend corrId sessionIdx msgs model provider).Sendable) :
    receiveReqSend (ToBackend.reqSend corrId sessionIdx msgs model provider).wire =
        some (some (.reqSend corrId sessionIdx msgs model provider)) ∧
      (ToBackend.reqSend corrId sessionIdx msgs model provider).wire.Fits := by
  obtain ⟨corr, index, plain, plainModel, plainProvider, short⟩ := sendable
  let v : ReqSend :=
    { sessionIdx := UInt32.ofNat sessionIdx
      msgs := msgs.map fun msg => (if msg.1 then 1 else 0, CString.of msg.2)
      model := string model
      provider := string provider }
  have msgsSize_ : msgsSize v.msgs = (msgs.map fun msg => 5 + msg.2.length).sum := by
    rw [msgsSize, List.map_map]
    apply congrArg
    apply List.map_congr_left
    intro msg member
    exact congrArg (fun bytes : Bytes => 5 + bytes.length)
      (terminated_of_nulFree (plain msg member))
  have size : v.size = 8 + (msgs.map fun msg => 5 + msg.2.length).sum + (4 + model.length) +
      (4 + provider.length) := by
    rw [ReqSend.size, msgsSize_, text_string plainModel, text_string plainProvider]
  have fits : v.size < 2 ^ 32 := by omega
  have lengths := ipcEncodeReqSend_length v fits
  obtain ⟨out, ran, agrees⟩ := ipcDecodeReqSend_encode v fits ⟨0, 0, none, none, none, none⟩
  have readModel := stringOr_carries [] agrees.model (.inl rfl)
  have readProvider := stringOr_carries [] agrees.provider (.inl rfl)
  have read := requestMsgs_encoded msgs plain
  have users : out.isUser = some (msgs.map fun msg => if msg.1 then 1 else 0) := by
    rw [agrees.isUser, List.map_map]
    rfl
  have texts : out.texts = some (msgs.map fun msg => some ((CString.of msg.2).bytes ++ [0])) := by
    rw [agrees.texts, List.map_map]
    rfl
  have sent : (ToBackend.reqSend corrId sessionIdx msgs model provider).wire = _ :=
    Encoded.message_payload lengths msgReqSend corrId
  rw [sent]
  refine ⟨?_, ?_⟩
  · rw [receiveReqSend, ran]
    simp only [Option.bind_eq_bind, Option.bind_some, if_true, users, texts, read, readModel,
      readProvider, toNat_corrId corr, agrees.sessionIdx]
    rw [toNat_field index, text_string plainModel, text_string plainProvider]
  · rw [IpcMsg.Fits]
    dsimp only
    omega

theorem receiveWorkerReq_wire {corrId workerType : Nat} {op argsJson : Bytes}
    (sendable : (ToBackend.workerReq corrId workerType op argsJson).Sendable) :
    receiveWorkerReq (ToBackend.workerReq corrId workerType op argsJson).wire =
        some (some (.workerReq corrId workerType op argsJson)) ∧
      (ToBackend.workerReq corrId workerType op argsJson).wire.Fits := by
  obtain ⟨corr, worker, plainOp, plainArgs, short⟩ := sendable
  let v : WorkerReq :=
    { workerType := UInt32.ofNat workerType, op := string op, argsJson := string argsJson }
  have size : v.size = 12 + op.length + argsJson.length := by
    rw [WorkerReq.size, text_string plainOp, text_string plainArgs]
  have fits : v.size < 2 ^ 32 := by omega
  have lengths := ipcEncodeWorkerReq_length v fits
  obtain ⟨out, ran, agrees⟩ := ipcDecodeWorkerReq_encode v fits ⟨0, none, none⟩
  have readOp := stringOr_carries [] agrees.op (.inl rfl)
  have readArgs := stringOr_carries [] agrees.argsJson (.inl rfl)
  have sent : (ToBackend.workerReq corrId workerType op argsJson).wire = _ :=
    Encoded.message_payload lengths msgWorkerReq corrId
  rw [sent]
  refine ⟨?_, ?_⟩
  · rw [receiveWorkerReq, ran]
    simp only [Option.bind_eq_bind, Option.bind_some, if_true, readOp, readArgs,
      toNat_corrId corr, agrees.workerType]
    rw [toNat_field worker, text_string plainOp, text_string plainArgs]
  · rw [IpcMsg.Fits]
    dsimp only
    omega

theorem receiveApprovalRep_wire {corrId reqCorrId : Nat} {approved : Bool}
    (sendable : (ToBackend.approvalRep corrId reqCorrId approved).Sendable) :
    receiveApprovalRep (ToBackend.approvalRep corrId reqCorrId approved).wire =
        some (some (.approvalRep corrId reqCorrId approved)) ∧
      (ToBackend.approvalRep corrId reqCorrId approved).wire.Fits := by
  obtain ⟨corr, request⟩ := sendable
  let v : ApprovalRep := { reqCorrId := UInt64.ofNat reqCorrId, approved := boolInt approved }
  have lengths := ipcEncodeApprovalRep_length v
  obtain ⟨out, ran, agrees⟩ := ipcDecodeApprovalRep_encode v ⟨0, 0⟩
  have flag : decide (out.approved ≠ 0) = approved := by
    rw [agrees.approved]
    cases approved <;> rfl
  have sent : (ToBackend.approvalRep corrId reqCorrId approved).wire = _ :=
    Encoded.message_payload lengths msgApprovalRep corrId
  rw [sent]
  refine ⟨?_, ?_⟩
  · rw [receiveApprovalRep, ran]
    simp only [Option.bind_eq_bind, Option.bind_some, if_true, toNat_corrId corr, flag,
      agrees.reqCorrId]
    rw [toNat_corrId request]
  · rw [IpcMsg.Fits]
    dsimp only
    rw [lengths.1, ApprovalRep.size]
    decide

theorem backendReceive_wire {msg : ToBackend} (sendable : msg.Sendable) :
    backendReceive msg.wire = some (some msg) ∧ msg.wire.Fits := by
  cases msg with
  | reqSend corrId sessionIdx msgs model provider =>
      obtain ⟨received, fits⟩ := receiveReqSend_wire sendable
      refine ⟨?_, fits⟩
      have kind : (ToBackend.reqSend corrId sessionIdx msgs model provider).wire.type =
          msgReqSend := rfl
      rw [backendReceive, if_pos kind, received]
  | workerReq corrId workerType op argsJson =>
      obtain ⟨received, fits⟩ := receiveWorkerReq_wire sendable
      refine ⟨?_, fits⟩
      have kind : (ToBackend.workerReq corrId workerType op argsJson).wire.type =
          msgWorkerReq := rfl
      rw [backendReceive, kind, if_neg (by decide), if_pos rfl, received]
  | approvalRep corrId reqCorrId approved =>
      obtain ⟨received, fits⟩ := receiveApprovalRep_wire sendable
      have sent : (ToBackend.approvalRep corrId reqCorrId approved).wire = _ :=
        Encoded.message_payload (ipcEncodeApprovalRep_length _) msgApprovalRep corrId
      have payload : (ToBackend.approvalRep corrId reqCorrId approved).wire.payload ≠ [] := by
        apply List.ne_nil_of_length_pos
        rw [sent, (ipcEncodeApprovalRep_length _).1, ApprovalRep.size]
        decide
      refine ⟨?_, fits⟩
      have kind : (ToBackend.approvalRep corrId reqCorrId approved).wire.type =
          msgApprovalRep := rfl
      rw [backendReceive, kind, if_neg (by decide), if_neg (by decide), if_pos ⟨rfl, payload⟩,
        received]

/-- The calls of `ipc_send` for these messages, one after another, went through. -/
structure WentThrough (msgs : List IpcMsg) (calls : List SendCall) (sents : List Sent) : Prop where
  msgs : calls.map SendCall.msg = msgs
  sends : ipcSendCalls calls = some sents
  whole : ∀ sent ∈ sents, sent.r = 0

theorem WentThrough.stream {msgs : List IpcMsg} (went : WentThrough msgs calls sents) :
    sentStream sents = msgs.flatMap IpcMsg.frame := by
  have outcomes := outcomes_of_sends went.sends
  have related := ipcSendCalls_eq_some.1 went.sends
  have whole := went.whole
  rw [← went.msgs]
  clear went
  induction related with
  | nil => rfl
  | cons first rest ih =>
      rename_i call sent calls sents
      have later := ih (fun next member => outcomes next (List.mem_cons_of_mem _ member))
        fun next member => whole next (List.mem_cons_of_mem _ member)
      have sameMsg : sent.msg = call.msg := by
        obtain ⟨frame, -, sends⟩ := Option.bind_eq_some_iff.1 first
        obtain ⟨ran, -, same⟩ := Option.bind_eq_some_iff.1 sends
        obtain rfl := Option.some.inj same
        rfl
      have accepted : sent.accepted = call.msg.frame := by
        obtain ⟨_, ⟨_, all⟩ | ⟨error, _⟩⟩ := outcomes sent (List.mem_cons_self ..)
        · rw [all, sameMsg]
        · have zero := whole sent (List.mem_cons_self ..)
          omega
      rw [sentStream] at later ⊢
      rw [List.map_cons, List.flatMap_cons, List.flatMap_cons, later, accepted]

def Receiver.Before (stream : Bytes) (state : Receiver) : Prop :=
  state = ⟨stream, [], false, .idle, []⟩

/-- Nothing is on its way and the reader is between two messages. -/
def Receiver.CaughtUp (state : Receiver) : Prop :=
  state.phase = .idle ∧ state.buffer = [] ∧ state.toCome = []

/-- However the bytes arrive, the reader has the first of the messages on the stream, and all of
them once it has caught up. -/
theorem received_frames {msgs : List IpcMsg} {stream : Bytes}
    (frames : stream = msgs.flatMap IpcMsg.frame) (fits : ∀ msg ∈ msgs, msg.Fits)
    (run : Run Receiver.step (Receiver.Before stream) trace state)
    (fed : ∀ taken ∈ trace, Receiver.Fed taken) :
    ∃ remaining, msgs = state.received ++ remaining ∧ (state.CaughtUp → remaining = []) := by
  have same : Receiver.Before stream = Receiver.Start msgs := by
    funext state
    rw [Receiver.Before, Receiver.Start, frames]
  rw [same] at run
  obtain ⟨⟨_, remaining, shared, progress⟩, _⟩ := Receiver.Inv.run fits run fed
  refine ⟨remaining, shared.symm, ?_⟩
  rintro ⟨idle, empty, nothing⟩
  rw [idle, Receiver.Progress, empty, nothing] at progress
  cases remaining with
  | nil => rfl
  | cons msg later =>
      have lengths := congrArg List.length progress
      have positive := msg.length_frame_pos
      simp only [List.flatMap_cons, List.length_append, List.length_nil] at lengths
      omega

theorem mapM_backendReceive {msgs : List ToBackend} (sendable : ∀ msg ∈ msgs, msg.Sendable) :
    (msgs.map ToBackend.wire).mapM backendReceive = some (msgs.map some) := by
  induction msgs with
  | nil => rfl
  | cons msg msgs ih =>
      have first := (backendReceive_wire (sendable msg (List.mem_cons_self ..))).1
      have rest := ih fun later member => sendable later (List.mem_cons_of_mem _ member)
      simp only [List.map_cons, List.mapM_cons, first, rest, Option.bind_eq_bind,
        Option.bind_some]
      rfl

theorem foldlM_checkIpcMsg {msgs : List ToTui} (sendable : ∀ msg ∈ msgs, msg.Sendable)
    (choices : IpcMsg → List Bytes) (beyond : Bytes) (tui : Tui) :
    (msgs.map ToTui.wire).foldlM (fun tui msg => tui.checkIpcMsg msg (choices msg)) tui =
      some (msgs.foldl (fun tui msg => tui.checkIpc msg beyond (choices msg.wire)) tui) := by
  induction msgs generalizing tui with
  | nil => rfl
  | cons msg msgs ih =>
      have first : tui.checkIpcMsg msg.wire (choices msg.wire) = _ := Tui.checkIpcMsg_carried
        (ToTui.carried_wire (sendable msg (List.mem_cons_self ..))).1 beyond (choices msg.wire)
      have rest := ih fun later member => sendable later (List.mem_cons_of_mem _ member)
      simp only [List.map_cons, List.foldlM_cons, first, Option.bind_eq_bind, Option.bind_some,
        List.foldl_cons]
      exact rest _

/-- The messages of the TUI reach the backend in order and as they were. -/
theorem toBackend_delivered {msgs : List ToBackend} (sendable : ∀ msg ∈ msgs, msg.Sendable)
    (went : WentThrough (msgs.map ToBackend.wire) calls sents)
    (run : Run Receiver.step (Receiver.Before (sentStream sents)) trace state)
    (fed : ∀ taken ∈ trace, Receiver.Fed taken) :
    ∃ front, front <+: msgs ∧
      state.received.mapM backendReceive = some (front.map some) ∧
      (state.CaughtUp → front = msgs) := by
  have fits : ∀ msg ∈ msgs.map ToBackend.wire, msg.Fits := by
    intro msg member
    obtain ⟨typed, there, rfl⟩ := List.mem_map.1 member
    exact (backendReceive_wire (sendable typed there)).2
  obtain ⟨remaining, whole, all⟩ := received_frames went.stream fits run fed
  obtain ⟨front, later, rfl, received, rest⟩ := List.map_eq_append_iff.1 whole
  refine ⟨front, List.prefix_append .., ?_, fun done => ?_⟩
  · rw [← received]
    exact mapM_backendReceive fun msg member => sendable msg (List.mem_append_left _ member)
  · rw [all done] at rest
    rw [List.map_eq_nil_iff.1 rest, List.append_nil]

def wholeCalls (msgs : List IpcMsg) : List SendCall :=
  msgs.map fun msg => ⟨msg, [msg.frame.length]⟩

def wholeSents (msgs : List IpcMsg) : List Sent := msgs.map fun msg => ⟨msg, 0, msg.frame⟩

def promptThenApproval : List ToBackend :=
  [.reqSend 1 0 [(true, ascii "hi")] (ascii "grok-3") (ascii "xai"), .approvalRep 2 7 true]

/-- The second message has not arrived to its end. -/
theorem toBackend_delivered_partly : ∃ trace state,
    Run Receiver.step
        (Receiver.Before (sentStream (wholeSents (promptThenApproval.map ToBackend.wire))))
        trace state ∧
      ∃ front, front <+: promptThenApproval ∧
        state.received.mapM backendReceive = some (front.map some) ∧
        (state.CaughtUp → front = promptThenApproval) := by
  have went : WentThrough (promptThenApproval.map ToBackend.wire)
      (wholeCalls (promptThenApproval.map ToBackend.wire))
      (wholeSents (promptThenApproval.map ToBackend.wire)) :=
    ⟨rfl, by decide +kernel, by decide +kernel⟩
  have outcome : (exec Receiver.step [.arrive 60, .call, .call, .call, .call, .call]
      ⟨sentStream (wholeSents (promptThenApproval.map ToBackend.wire)), [], false, .idle,
        []⟩).isSome := by
    decide +kernel
  obtain ⟨state, ran⟩ := Option.isSome_iff_exists.1 outcome
  have run : Run Receiver.step (Receiver.Before _) _ state := .of_exec rfl ran
  exact ⟨_, state, run, toBackend_delivered
    (by simp [promptThenApproval, ToBackend.Sendable]; decide) went run (by decide +kernel)⟩

section Threads

variable {ι : Type} [DecidableEq ι] {todo : ι → List ToTui} {sys : SendSystem ι}
  {sends : List (Taken (SendSystem ι) (SendLabel ι))}

/-- The calls of `ipc_send` that have returned are for these messages, each thread's in its
order. -/
structure SentInOrder (todo : ι → List ToTui) (sys : SendSystem ι) (msgs : List (ι × ToTui)) :
    Prop where
  returned : sys.returned = msgs.map fun msg => ⟨msg.1, msg.2.wire, 0⟩
  each : ∀ thread, (msgs.filter fun msg => msg.1 = thread).map Prod.snd <+: todo thread

theorem exists_sentInOrder
    (sent : Run SendSystem.step (SendSystem.Start fun thread => (todo thread).map ToTui.wire)
      sends sys)
    (alone : ∀ taken ∈ sends, Uninterrupted taken) : ∃ msgs, SentInOrder todo sys msgs := by
  have inv := SendSystem.Inv.run sent alone
  obtain ⟨msgs, made, each⟩ := Lists.exists_merge ToTui.wire
    (sys.returned.map fun ret => (ret.thread, ret.msg)) todo fun thread => by
      rw [inv.order thread, List.filter_map, List.map_map]
      exact List.prefix_append _ _
  refine ⟨msgs, ?_, each⟩
  have back : sys.returned = (sys.returned.map fun ret => (ret.thread, ret.msg)).map
      fun pair => ⟨pair.1, pair.2, 0⟩ := by
    rw [List.map_map]
    refine (List.map_id' _).symm.trans (List.map_congr_left fun ret member => ?_)
    rw [Function.comp_apply, ← inv.succeeded ret member]
  rw [back, ← made, List.map_map]
  rfl

/-- What the threads of the backend send does to the TUI what the messages do, one after
another and each thread's in its order, as long as no `send()` is made inside of another
thread's frame. -/
theorem toTui_delivered (sendable : ∀ thread, ∀ msg ∈ todo thread, msg.Sendable)
    (sent : Run SendSystem.step (SendSystem.Start fun thread => (todo thread).map ToTui.wire)
      sends sys)
    (alone : ∀ taken ∈ sends, Uninterrupted taken)
    (quiet : ∀ thread, ¬(sys.threads thread).MidFrame)
    (run : Run Receiver.step (Receiver.Before sys.stream) trace state)
    (fed : ∀ taken ∈ trace, Receiver.Fed taken)
    (choices : IpcMsg → List Bytes) (beyond : Bytes) (tui : Tui) :
    ∃ msgs, SentInOrder todo sys msgs ∧ ∃ front, front <+: msgs.map Prod.snd ∧
      state.received.foldlM (fun tui msg => tui.checkIpcMsg msg (choices msg)) tui =
        some (front.foldl (fun tui msg => tui.checkIpc msg beyond (choices msg.wire)) tui) ∧
      (state.CaughtUp → front = msgs.map Prod.snd) := by
  obtain ⟨msgs, order⟩ := exists_sentInOrder sent alone
  have stream := (SendSystem.Inv.run sent alone).stream_quiet quiet
  have wires : sys.sent = (msgs.map Prod.snd).map ToTui.wire := by
    rw [SendSystem.sent, order.returned, List.map_map, List.map_map]
    rfl
  have each : ∀ msg ∈ msgs.map Prod.snd, msg.Sendable := by
    intro msg member
    obtain ⟨⟨thread, typed⟩, there, rfl⟩ := List.mem_map.1 member
    refine sendable thread typed ((order.each thread).subset ?_)
    exact List.mem_map.2 ⟨_, List.mem_filter.2 ⟨there, by simp⟩, rfl⟩
  have fits : ∀ msg ∈ sys.sent, msg.Fits := by
    intro msg member
    rw [wires] at member
    obtain ⟨typed, there, rfl⟩ := List.mem_map.1 member
    exact (ToTui.carried_wire (each typed there)).2
  obtain ⟨remaining, whole, all⟩ := received_frames stream fits run fed
  rw [wires] at whole
  obtain ⟨front, later, split, received, rest⟩ := List.map_eq_append_iff.1 whole
  refine ⟨msgs, order, front, split ▸ List.prefix_append .., ?_, fun done => ?_⟩
  · rw [← received]
    exact foldlM_checkIpcMsg (fun msg member => each msg (split ▸ List.mem_append_left _ member))
      choices beyond tui
  · rw [all done] at rest
    rw [split, List.map_eq_nil_iff.1 rest, List.append_nil]

end Threads

def replyAndWorker (worker : Bool) : List ToTui :=
  if worker then [.workerRep 2 true (ascii "ok")]
  else [.workerStart 9 1 (ascii "grok-3") [], .workerEnd 9, .repFinal 1 0 (ascii "ok") none]

def partly : List RecvLabel := [.arrive 60, .call, .call, .call, .call, .call]

def busy : SendSystem Bool := ⟨fun worker => ⟨(replyAndWorker worker).map ToTui.wire, none⟩, [], []⟩

/-- The frame of the worker goes between two frames of the request, and not all has arrived. -/
theorem toTui_delivered_partly : ∃ sends sys trace state,
    Run SendSystem.step (SendSystem.Start fun worker => (replyAndWorker worker).map ToTui.wire)
        sends sys ∧
      Run Receiver.step (Receiver.Before sys.stream) trace state ∧ sys.returned.length = 4 ∧
      ∃ msgs, SentInOrder replyAndWorker sys msgs ∧ ∃ front, front <+: msgs.map Prod.snd ∧
        state.received.foldlM (fun tui msg => tui.checkIpcMsg msg []) Tui.fresh =
          some (front.foldl (fun tui msg => tui.checkIpc msg [] []) Tui.fresh) ∧
        (state.CaughtUp → front = msgs.map Prod.snd) := by
  have outcome : (exec SendSystem.step [.call false, .send false 38, .call false, .call true,
      .send true 20, .send true 3, .send false 16, .call false, .send false 30] busy).any fun sys =>
        sys.returned.length = 4 ∧ (∀ worker, ¬(sys.threads worker).MidFrame) ∧
          (exec Receiver.step partly ⟨sys.stream, [], false, .idle, []⟩).isSome ∧
          ∀ taken ∈ execTrace Receiver.step partly ⟨sys.stream, [], false, .idle, []⟩,
            Receiver.Fed taken := by
    decide +kernel
  obtain ⟨sys, ran, state⟩ := (Option.any_eq_true _ _).1 outcome
  obtain ⟨four, quiet, reads, fed⟩ := of_decide_eq_true state
  obtain ⟨state, read⟩ := Option.isSome_iff_exists.1 reads
  have sent : Run SendSystem.step
      (SendSystem.Start fun worker => (replyAndWorker worker).map ToTui.wire) _ sys :=
    .of_exec ⟨rfl, rfl, rfl⟩ ran
  have run : Run Receiver.step (Receiver.Before sys.stream) _ state := .of_exec rfl read
  have sendable : ∀ worker, ∀ msg ∈ replyAndWorker worker, msg.Sendable := by
    intro worker
    cases worker <;> simp [replyAndWorker, ToTui.Sendable] <;> decide
  exact ⟨_, sys, _, state, sent, run, four,
    toTui_delivered sendable sent (by decide +kernel) quiet run fed (fun _ => []) [] Tui.fresh⟩

end FreeCli

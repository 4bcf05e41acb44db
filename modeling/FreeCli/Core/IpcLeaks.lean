import FreeCli.Core.IpcBounds
import FreeCli.Library.Fields

namespace FreeCli

open Words Guarded

/-! The decoders of `ipc.c` with allocations that may fail, and what they leave behind
when they return -1. -/

/-- Whether the allocation for the output parameter with this number succeeds; the texts
of a REQ_SEND come behind its other parameters. -/
abbrev Heap := Nat → Bool

/-- `*dst = malloc(len + 1)` and the copy, which is not made into NULL. -/
def tryCopy (succeeds : Bool) (buf : Bytes) (p : Nat) (len : UInt32) : Option (Option Bytes) :=
  if succeeds then (mallocCopy buf p len).map some else some none

section Decoders

variable (heap : Heap) (buf : Bytes)

def reqSendLoopIn : (todo i p : Nat) → ReqSendOut → Option (Int × Nat × ReqSendOut)
  | 0, _, p, out => some (0, p, out)
  | todo + 1, i, p, out =>
      if p + 5 > buf.length then
        some (-1, p, out)
      else do
        let user ← readU8 buf p
        let out ← out.setUser i user
        let p := p + 1
        let tlen ← readU32 buf p
        let p := p + 4
        if p + tlen.toNat > buf.length then
          some (-1, p, out)
        else do
          let copy ← tryCopy (heap (4 + i)) buf p tlen
          match copy with
          | none => some (-1, p, out)
          | some text =>
              let out ← out.setText i text
              reqSendLoopIn todo (i + 1) (p + tlen.toNat) out

def reqSendProviderIn (p : Nat) (out : ReqSendOut) : Option (Int × ReqSendOut) :=
  if p + 4 ≤ buf.length then do
    let plen ← readU32 buf p
    let p := p + 4
    if plen > 0 ∧ p + plen.toNat ≤ buf.length then do
      let provider ← tryCopy (heap 3) buf p plen
      some (0, { out with provider })
    else
      some (0, out)
  else
    some (0, out)

def reqSendModelIn (p : Nat) (out : ReqSendOut) : Option (Int × ReqSendOut) :=
  if p + 4 ≤ buf.length then do
    let mlen ← readU32 buf p
    let p := p + 4
    if mlen > 0 ∧ p + mlen.toNat ≤ buf.length then do
      let model ← tryCopy (heap 2) buf p mlen
      reqSendProviderIn heap buf (p + mlen.toNat) { out with model }
    else
      reqSendProviderIn heap buf p out
  else
    reqSendProviderIn heap buf p out

def ipcDecodeReqSendIn (out : ReqSendOut) : Option (Int × ReqSendOut) :=
  if buf.length < 8 then
    some (-1, out)
  else do
    let sessionIdx ← readU32 buf 0
    let msgCount ← readU32 buf 4
    let out : ReqSendOut :=
      { sessionIdx, msgCount
        texts := if heap 0 then some (List.replicate msgCount.toNat none) else none
        isUser := if heap 1 then some (List.replicate msgCount.toNat 0) else none
        model := none
        provider := none }
    if heap 0 = false ∨ heap 1 = false then
      some (-1, out)
    else do
      let (ret, p, out) ← reqSendLoopIn heap buf msgCount.toNat 0 8 out
      if ret = 0 then
        reqSendModelIn heap buf p out
      else
        some (ret, out)

def ipcDecodeRepFinalIn (out : RepFinalOut) : Option (Int × RepFinalOut) :=
  if buf.length < 12 then
    some (-1, out)
  else do
    let sessionIdx ← readU32 buf 0
    let out := { out with sessionIdx }
    let clen ← readU32 buf 4
    if 8 + clen.toNat > buf.length then
      some (-1, out)
    else do
      let content ← tryCopy (heap 0) buf 8 clen
      let out := { out with content }
      if content = none then
        some (-1, out)
      else
        let p := 8 + clen.toNat
        if p + 4 > buf.length then
          some (0, { out with reasoning := none })
        else do
          let rlen ← readU32 buf p
          let p := p + 4
          if rlen > 0 ∧ p + rlen.toNat ≤ buf.length then do
            let reasoning ← tryCopy (heap 1) buf p rlen
            some (0, { out with reasoning })
          else
            some (0, { out with reasoning := none })

def workerStartDescriptionIn (p : Nat) (out : WorkerStartOut) : Option (Int × WorkerStartOut) :=
  if p + 4 > buf.length then
    some (0, out)
  else do
    let dlen ← readU32 buf p
    let p := p + 4
    if dlen > 0 ∧ p + dlen.toNat ≤ buf.length then do
      let description ← tryCopy (heap 1) buf p dlen
      some (0, { out with description })
    else
      some (0, out)

def ipcDecodeWorkerStartIn (out : WorkerStartOut) : Option (Int × WorkerStartOut) :=
  let out := { out with model := none, description := none }
  if 0 + 8 > buf.length then
    some (-1, out)
  else do
    let parentCorrId ← readU64 buf 0
    let out := { out with parentCorrId }
    if 8 + 4 > buf.length then
      some (-1, out)
    else do
      let mlen ← readU32 buf 8
      let p := 12
      if mlen > 0 then
        if p + mlen.toNat > buf.length then
          some (-1, out)
        else do
          let model ← tryCopy (heap 0) buf p mlen
          workerStartDescriptionIn heap buf (p + mlen.toNat) { out with model }
      else
        workerStartDescriptionIn heap buf p out

def ipcDecodeSessionRenameIn (out : SessionRenameOut) : Option (Int × SessionRenameOut) :=
  let out := { out with topic := none }
  if buf.length < 8 then
    some (-1, out)
  else do
    let sessionIdx ← readU32 buf 0
    let out := { out with sessionIdx }
    let tlen ← readU32 buf 4
    let p := 8
    if tlen > 0 ∧ p + tlen.toNat ≤ buf.length then do
      let topic ← tryCopy (heap 0) buf p tlen
      some (0, { out with topic })
    else
      some (0, out)

def ipcDecodeWorkerReqIn (out : WorkerReqOut) : Option (Int × WorkerReqOut) :=
  let out := { out with op := none, argsJson := none }
  if buf.length < 12 then
    some (-1, out)
  else do
    let workerType ← readU32 buf 0
    let out := { out with workerType }
    let opLen ← readU32 buf 4
    if 8 + opLen.toNat > buf.length then
      some (-1, out)
    else do
      let op ← tryCopy (heap 0) buf 8 opLen
      let out := { out with op }
      if op = none then
        some (-1, out)
      else
        let p := 8 + opLen.toNat
        if p + 4 > buf.length then
          some (-1, out)
        else do
          let argsLen ← readU32 buf p
          let p := p + 4
          if argsLen > 0 then
            if p + argsLen.toNat > buf.length then
              some (-1, { out with op := none })
            else do
              let argsJson ← tryCopy (heap 1) buf p argsLen
              if argsJson = none then
                some (-1, { out with op := none, argsJson })
              else
                some (0, { out with argsJson })
          else
            some (0, out)

def ipcDecodeWorkerRepIn (out : WorkerRepOut) : Option (Int × WorkerRepOut) :=
  let out := { out with result := none }
  if buf.length < 5 then
    some (-1, out)
  else do
    let flag ← readU8 buf 0
    let out := { out with success := if flag ≠ 0 then 1 else 0 }
    let rlen ← readU32 buf 1
    let p := 5
    if rlen > 0 ∧ p + rlen.toNat ≤ buf.length then do
      let result ← tryCopy (heap 0) buf p rlen
      some (0, { out with result })
    else
      some (0, out)

def ipcDecodeApprovalReqIn (out : ApprovalReqOut) : Option (Int × ApprovalReqOut) :=
  let out := { out with description := none }
  if buf.length < 12 then
    some (-1, out)
  else do
    let reqCorrId ← readU64 buf 0
    let out := { out with reqCorrId }
    let dlen ← readU32 buf 8
    let p := 12
    if dlen > 0 ∧ p + dlen.toNat ≤ buf.length then do
      let description ← tryCopy (heap 0) buf p dlen
      some (0, { out with description })
    else
      some (0, out)

end Decoders

def PayloadKind.decodeIn (heap : Heap) :
    (kind : PayloadKind) → Bytes → kind.codec.Out → Option (Int × kind.codec.Out)
  | .reqSend => ipcDecodeReqSendIn heap
  | .repFinal => ipcDecodeRepFinalIn heap
  | .workerStart => ipcDecodeWorkerStartIn heap
  | .sessionRename => ipcDecodeSessionRenameIn heap
  | .workerReq => ipcDecodeWorkerReqIn heap
  | .workerRep => ipcDecodeWorkerRepIn heap
  | .approvalReq => ipcDecodeApprovalReqIn heap
  | .approvalRep => ipcDecodeApprovalRep

section Plenty

variable (buf : Bytes)

theorem tryCopy_true {β : Type} (p : Nat) (len : UInt32) (next : Option Bytes → Option β) :
    tryCopy true buf p len >>= next = mallocCopy buf p len >>= fun block => next (some block) := by
  rw [tryCopy, if_pos rfl]
  exact Option.bind_map

theorem reqSendLoopIn_plenty (todo i p : Nat) (out : ReqSendOut) :
    reqSendLoopIn (fun _ => true) buf todo i p out = reqSendLoop buf todo i p out := by
  induction todo generalizing i p out with
  | zero => rfl
  | succ todo ih => simp only [reqSendLoopIn, reqSendLoop, tryCopy_true, ih]

theorem reqSendModelIn_plenty (p : Nat) (out : ReqSendOut) :
    reqSendModelIn (fun _ => true) buf p out = reqSendModel buf p out := by
  have provider : ∀ p out,
      reqSendProviderIn (fun _ => true) buf p out = reqSendProvider buf p out := by
    intro p out
    simp only [reqSendProviderIn, reqSendProvider, tryCopy_true]
  simp only [reqSendModelIn, reqSendModel, tryCopy_true, provider]

/-- With memory enough, the decoders as they were. -/
theorem PayloadKind.decodeIn_plenty (kind : PayloadKind) (before : kind.codec.Out) :
    kind.decodeIn (fun _ => true) buf before = kind.codec.decode buf before := by
  cases kind with
  | reqSend =>
      change ipcDecodeReqSendIn (fun _ => true) buf before = ipcDecodeReqSend buf before
      simp only [ipcDecodeReqSendIn, ipcDecodeReqSend, reqSendLoopIn_plenty,
        reqSendModelIn_plenty, if_true, Bool.true_eq_false, or_self, if_false]
  | repFinal =>
      change ipcDecodeRepFinalIn (fun _ => true) buf before = ipcDecodeRepFinal buf before
      simp only [ipcDecodeRepFinalIn, ipcDecodeRepFinal, tryCopy_true, reduceCtorEq, if_false]
  | workerStart =>
      change ipcDecodeWorkerStartIn (fun _ => true) buf before = ipcDecodeWorkerStart buf before
      simp only [ipcDecodeWorkerStartIn, ipcDecodeWorkerStart, workerStartDescriptionIn,
        workerStartDescription, tryCopy_true]
  | sessionRename =>
      change ipcDecodeSessionRenameIn (fun _ => true) buf before = ipcDecodeSessionRename buf before
      simp only [ipcDecodeSessionRenameIn, ipcDecodeSessionRename, tryCopy_true]
  | workerReq =>
      change ipcDecodeWorkerReqIn (fun _ => true) buf before = ipcDecodeWorkerReq buf before
      simp only [ipcDecodeWorkerReqIn, ipcDecodeWorkerReq, tryCopy_true, reduceCtorEq, if_false]
  | workerRep =>
      change ipcDecodeWorkerRepIn (fun _ => true) buf before = ipcDecodeWorkerRep buf before
      simp only [ipcDecodeWorkerRepIn, ipcDecodeWorkerRep, tryCopy_true]
  | approvalReq =>
      change ipcDecodeApprovalReqIn (fun _ => true) buf before = ipcDecodeApprovalReq buf before
      simp only [ipcDecodeApprovalReqIn, ipcDecodeApprovalReq, tryCopy_true]
  | approvalRep => rfl

end Plenty

/-- No output parameter holds a block. -/
def PayloadKind.Clear : (kind : PayloadKind) → kind.codec.Out → Prop
  | .reqSend, out =>
      out.texts = none ∧ out.isUser = none ∧ out.model = none ∧ out.provider = none
  | .repFinal, out => out.content = none ∧ out.reasoning = none
  | .workerStart, out => out.model = none ∧ out.description = none
  | .sessionRename, out => out.topic = none
  | .workerReq, out => out.op = none ∧ out.argsJson = none
  | .workerRep, out => out.result = none
  | .approvalReq, out => out.description = none
  | .approvalRep, _ => True

/-- The payload ends too early when a block has been made: a REQ_SEND behind its header,
a WORKER_REQ behind its operation. -/
def PayloadKind.LateCut (heap : Heap) (buf : Bytes) : PayloadKind → Prop
  | .reqSend => 8 ≤ buf.length ∧ (heap 0 = true ∨ heap 1 = true)
  | .workerReq =>
      let opEnd := 8 + leValue ((buf.drop 4).take 4)
      12 ≤ buf.length ∧ opEnd ≤ buf.length ∧ buf.length < opEnd + 4 ∧ heap 0 = true
  | _ => False

section Rejected

variable {heap : Heap} {buf : Bytes}

theorem isSome_tryCopy {succeeds : Bool} {p : Nat} {len : UInt32} {copy : Option Bytes}
    (ran : tryCopy succeeds buf p len = some copy) : copy.isSome = succeeds := by
  cases succeeds with
  | true =>
      obtain ⟨block, -, rfl⟩ := Option.map_eq_some_iff.1 ran
      rfl
  | false =>
      cases ran
      rfl

theorem reqSendLoopIn_keeps (todo i p : Nat) {out : ReqSendOut} (users : out.isUser ≠ none) :
    Yields (reqSendLoopIn heap buf todo i p out) fun result => result.2.2.isUser ≠ none := by
  induction todo generalizing i p out with
  | zero => exact .pure users
  | succ todo ih =>
      rw [reqSendLoopIn]
      refine .ite (fun _ => .pure users) fun _ => .bind fun user _ => .bind fun marked set =>
        .bind fun tlen _ => ?_
      have kept : marked.isUser ≠ none := by
        obtain ⟨array, -, set⟩ := Option.bind_eq_some_iff.1 set
        split at set
        · cases set
          exact Option.some_ne_none _
        · cases set
      refine .ite (fun _ => .pure kept) fun _ => .bind fun copy _ => ?_
      cases copy with
      | none => exact .pure kept
      | some block =>
          refine .bind fun stored set => ih _ _ ?_
          obtain ⟨array, -, set⟩ := Option.bind_eq_some_iff.1 set
          split at set
          · cases set
            exact kept
          · cases set

theorem reqSendProviderIn_accepts (p : Nat) (out : ReqSendOut) :
    Yields (reqSendProviderIn heap buf p out) fun result => result.1 = 0 := by
  rw [reqSendProviderIn]
  refine .ite (fun _ => .bind fun plen _ => .ite (fun _ => .bind fun provider _ => ?_) ?_) ?_
  · exact .pure rfl
  · exact fun _ => .pure rfl
  · exact fun _ => .pure rfl

theorem reqSendModelIn_accepts (p : Nat) (out : ReqSendOut) :
    Yields (reqSendModelIn heap buf p out) fun result => result.1 = 0 := by
  rw [reqSendModelIn]
  refine .ite (fun _ => .bind fun mlen _ => .ite (fun _ => .bind fun model _ => ?_) ?_) ?_
  · exact reqSendProviderIn_accepts _ _
  · exact fun _ => reqSendProviderIn_accepts _ _
  · exact fun _ => reqSendProviderIn_accepts _ _

theorem ipcDecodeReqSendIn_rejected {before : ReqSendOut}
    (clear : PayloadKind.Clear .reqSend before) :
    Yields (ipcDecodeReqSendIn heap buf before) fun result => result.1 = -1 →
      (PayloadKind.Clear .reqSend result.2 ↔ ¬ PayloadKind.LateCut heap buf .reqSend) := by
  rw [ipcDecodeReqSendIn]
  refine .ite (fun short => .pure fun _ => ?_) fun long => .bind fun session _ =>
    .bind fun count _ => ?_
  · exact ⟨fun _ late => absurd late.1 (Nat.not_le.2 short), fun _ => clear⟩
  have header : 8 ≤ buf.length := Nat.not_lt.1 long
  refine .ite (fun failed => .pure fun _ => ?_) fun both => .bind fun looped ran => ?_
  · cases first : heap 0 <;> cases second : heap 1 <;>
      simp_all [PayloadKind.Clear, PayloadKind.LateCut]
  obtain ⟨ret, p, out⟩ := looped
  have second : heap 1 = true := by
    cases failed : heap 1 with
    | true => rfl
    | false => exact absurd (.inr failed) both
  have users := reqSendLoopIn_keeps count.toNat 0 8
    (by simp [second]) _ ran
  refine .ite (fun _ => ?_) fun _ => .pure fun _ => ?_
  · intro result ran minus
    rw [reqSendModelIn_accepts _ _ result ran] at minus
    cases minus
  · exact ⟨fun empty => absurd empty.2.1 users, fun early => absurd ⟨header, .inr second⟩ early⟩

theorem ipcDecodeRepFinalIn_rejected {before : RepFinalOut}
    (clear : PayloadKind.Clear .repFinal before) :
    Yields (ipcDecodeRepFinalIn heap buf before) fun result => result.1 = -1 →
      PayloadKind.Clear .repFinal result.2 := by
  rw [ipcDecodeRepFinalIn]
  refine .ite (fun _ => .pure fun _ => clear) fun _ => .bind fun session _ =>
    .bind fun clen _ => .ite (fun _ => .pure fun _ => clear) fun _ => .bind fun content _ =>
    .ite (fun failed => .pure fun _ => ⟨failed, clear.2⟩) fun _ => .ite ?_ fun _ =>
    .bind fun rlen _ => .ite (fun _ => .bind fun reasoning _ => ?_) ?_
  · exact fun _ => .pure fun minus => by cases minus
  · exact .pure fun minus => by cases minus
  · exact fun _ => .pure fun minus => by cases minus

theorem ipcDecodeWorkerStartIn_rejected (before : WorkerStartOut) :
    Yields (ipcDecodeWorkerStartIn heap buf before) fun result => result.1 = -1 →
      PayloadKind.Clear .workerStart result.2 := by
  have accepts : ∀ p out, Yields (workerStartDescriptionIn heap buf p out) fun result =>
      result.1 = -1 → PayloadKind.Clear .workerStart result.2 := by
    intro p out
    rw [workerStartDescriptionIn]
    refine .ite ?_ fun _ => .bind fun dlen _ => .ite (fun _ => .bind fun description _ => ?_) ?_
    · exact fun _ => .pure fun minus => by cases minus
    · exact .pure fun minus => by cases minus
    · exact fun _ => .pure fun minus => by cases minus
  rw [ipcDecodeWorkerStartIn]
  refine .ite (fun _ => .pure fun _ => ⟨rfl, rfl⟩) fun _ => .bind fun parent _ =>
    .ite (fun _ => .pure fun _ => ⟨rfl, rfl⟩) fun _ => .bind fun mlen _ => .ite (fun _ => ?_)
    fun _ => accepts _ _
  exact .ite (fun _ => .pure fun _ => ⟨rfl, rfl⟩) fun _ => .bind fun model _ => accepts _ _

theorem Yields.accepted {Out : Type} {flag : Prop} [Decidable flag] {copy : Option (Option Bytes)}
    {out : Out} {store : Option Bytes → Out} {post : Out → Prop} :
    Yields (if flag then copy >>= fun block => some ((0 : Int), store block) else some (0, out))
      fun result => result.1 = -1 → post result.2 := by
  refine .ite (fun _ => .bind fun block _ => ?_) ?_
  · exact .pure fun minus => by cases minus
  · exact fun _ => .pure fun minus => by cases minus

theorem ipcDecodeSessionRenameIn_rejected (before : SessionRenameOut) :
    Yields (ipcDecodeSessionRenameIn heap buf before) fun result => result.1 = -1 →
      PayloadKind.Clear .sessionRename result.2 := by
  rw [ipcDecodeSessionRenameIn]
  exact .ite (fun _ => .pure fun _ => rfl) fun _ => .bind fun session _ => .bind fun tlen _ =>
    Yields.accepted

theorem ipcDecodeWorkerRepIn_rejected (before : WorkerRepOut) :
    Yields (ipcDecodeWorkerRepIn heap buf before) fun result => result.1 = -1 →
      PayloadKind.Clear .workerRep result.2 := by
  rw [ipcDecodeWorkerRepIn]
  exact .ite (fun _ => .pure fun _ => rfl) fun _ => .bind fun flag _ => .bind fun rlen _ =>
    Yields.accepted

theorem ipcDecodeApprovalReqIn_rejected (before : ApprovalReqOut) :
    Yields (ipcDecodeApprovalReqIn heap buf before) fun result => result.1 = -1 →
      PayloadKind.Clear .approvalReq result.2 := by
  rw [ipcDecodeApprovalReqIn]
  exact .ite (fun _ => .pure fun _ => rfl) fun _ => .bind fun corr _ => .bind fun dlen _ =>
    Yields.accepted

theorem readU32_opLen {opLen : UInt32} (read : readU32 buf 4 = some opLen) :
    opLen.toNat = leValue ((buf.drop 4).take 4) := by
  obtain ⟨bytes, copy, rfl⟩ := Option.map_eq_some_iff.1 read
  rw [readBytes] at copy
  split at copy
  next inside =>
    cases copy
    apply UInt32.toNat_ofNat_of_lt'
    have bound := Fields.leValue_lt ((buf.drop 4).take 4)
    rwa [List.length_take_of_le (by rw [List.length_drop]; omega)] at bound
  next => cases copy

theorem ipcDecodeWorkerReqIn_rejected (before : WorkerReqOut) :
    Yields (ipcDecodeWorkerReqIn heap buf before) fun result => result.1 = -1 →
      (PayloadKind.Clear .workerReq result.2 ↔ ¬ PayloadKind.LateCut heap buf .workerReq) := by
  rw [ipcDecodeWorkerReqIn]
  refine .ite (fun short => .pure fun _ => ?_) fun long => .bind fun workerType _ =>
    .bind fun opLen read => .ite (fun overruns => .pure fun _ => ?_) fun fits =>
    .bind fun op ran => .ite (fun failed => .pure fun _ => ?_) fun made =>
    .ite (fun cut => .pure fun _ => ?_) fun more => .bind fun argsLen _ => .ite (fun _ => ?_) ?_
  · exact ⟨fun _ late => absurd late.1 (Nat.not_le.2 short), fun _ => ⟨rfl, rfl⟩⟩
  · have size := readU32_opLen read
    exact ⟨fun _ late => absurd late.2.1 (by omega), fun _ => ⟨rfl, rfl⟩⟩
  · have none_ := isSome_tryCopy ran
    rw [failed, Option.isSome_none] at none_
    refine ⟨fun _ late => ?_, fun _ => ⟨failed, rfl⟩⟩
    rw [late.2.2.2] at none_
    cases none_
  · have size := readU32_opLen read
    have some_ := isSome_tryCopy ran
    rw [Option.isSome_iff_ne_none.2 made] at some_
    refine ⟨fun empty => absurd empty.1 made, fun early => absurd ?_ early⟩
    exact ⟨Nat.not_lt.1 long, by omega, by omega, some_.symm⟩
  · have size := readU32_opLen read
    have calm : ¬ PayloadKind.LateCut heap buf .workerReq := fun late =>
      absurd late.2.2.1 (by omega)
    refine .ite (fun _ => .pure fun _ => ⟨fun _ => calm, fun _ => ⟨rfl, rfl⟩⟩) fun _ =>
      .bind fun args _ => .ite (fun failed => .pure fun _ => ⟨fun _ => calm, fun _ => ?_⟩) ?_
    · exact ⟨rfl, failed⟩
    · exact fun _ => .pure fun minus => by cases minus
  · exact fun _ => .pure fun minus => by cases minus

/-- A rejected payload leaves no block behind unless it was cut off after one was made. -/
theorem rejected_clear_iff (kind : PayloadKind) (heap : Heap) (buf : Bytes)
    {before out : kind.codec.Out} (clear : kind.Clear before)
    (rejected : kind.decodeIn heap buf before = some (-1, out)) :
    kind.Clear out ↔ ¬ kind.LateCut heap buf := by
  have trivially : kind.Clear out → (kind.LateCut heap buf → False) →
      (kind.Clear out ↔ ¬ kind.LateCut heap buf) := fun empty early =>
    ⟨fun _ => early, fun _ => empty⟩
  cases kind with
  | reqSend => exact ipcDecodeReqSendIn_rejected clear _ rejected rfl
  | repFinal => exact trivially (ipcDecodeRepFinalIn_rejected clear _ rejected rfl) id
  | workerStart => exact trivially (ipcDecodeWorkerStartIn_rejected before _ rejected rfl) id
  | sessionRename => exact trivially (ipcDecodeSessionRenameIn_rejected before _ rejected rfl) id
  | workerReq => exact ipcDecodeWorkerReqIn_rejected before _ rejected rfl
  | workerRep => exact trivially (ipcDecodeWorkerRepIn_rejected before _ rejected rfl) id
  | approvalReq => exact trivially (ipcDecodeApprovalReqIn_rejected before _ rejected rfl) id
  | approvalRep => exact trivially trivial id

end Rejected

def headerOnly : Bytes := le32 0 ++ le32 1

def operationOnly : Bytes := le32 4 ++ (le32 4 ++ ascii "list")

theorem rejected_clear_short :
    (∃ out, PayloadKind.decodeIn (fun _ => true) .reqSend [0] ReqSendOut.zeroed =
        some (-1, out) ∧
      (PayloadKind.Clear .reqSend out ↔ ¬ PayloadKind.LateCut (fun _ => true) [0] .reqSend)) ∧
    ∃ out, PayloadKind.decodeIn (fun _ => true) .workerReq operationOnly ⟨0, none, none⟩ =
        some (-1, out) ∧
      (PayloadKind.Clear .workerReq out ↔
        ¬ PayloadKind.LateCut (fun _ => true) operationOnly .workerReq) :=
  ⟨⟨_, rfl, rejected_clear_iff .reqSend (fun _ => true) [0]
      (show PayloadKind.Clear .reqSend ReqSendOut.zeroed from ⟨rfl, rfl, rfl, rfl⟩) rfl⟩,
    _, rfl, rejected_clear_iff .workerReq (fun _ => true) operationOnly
      (show PayloadKind.Clear .workerReq ⟨0, none, none⟩ from ⟨rfl, rfl⟩) rfl⟩

theorem rejected_leaves_blocks :
    (∃ out, ipcDecodeReqSend headerOnly .zeroed = some (-1, out) ∧
      out.texts = some [none] ∧ out.isUser = some [0]) ∧
    ∃ out, ipcDecodeWorkerReq operationOnly ⟨0, none, none⟩ = some (-1, out) ∧
      out.op = some (ascii "list" ++ [0]) :=
  ⟨⟨_, rfl, rfl, rfl⟩, _, rfl, rfl⟩

end FreeCli

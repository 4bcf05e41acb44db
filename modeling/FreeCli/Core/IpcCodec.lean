import FreeCli.Library.Words

namespace FreeCli

open Words

/-! Payload codecs of `ipc.c`.  Encoders take the values behind the C
pointers and return the bytes they write next to the length they announce.
Decoders take the output parameters as the caller left them and return them
next to the C return value; `none` is an access outside the payload or a heap
block. -/

structure Encoded where
  buf : Bytes
  outLen : UInt32
  deriving DecidableEq, Repr

/-- `s ? (uint32_t)strlen(s) : 0` -/
def strlen32 (s : Option CString) : UInt32 :=
  match s with
  | none => 0
  | some s => UInt32.ofNat s.bytes.length

/-- `if (len) memcpy(p, s, len)` with `len` from `strlen32` -/
def copied (s : Option CString) : Bytes :=
  match s with
  | none => []
  | some text => text.bytes.take (strlen32 s).toNat

/-- `malloc(len + 1)`, `memcpy` of `len` bytes and the terminator.  The sum is
32 bits wide, so the block is too short when it wraps. -/
def mallocCopy (buf : Bytes) (p : Nat) (len : UInt32) : Option Bytes :=
  if (len + 1).toNat < len.toNat + 1 then
    none
  else
    (readBytes buf p len.toNat).map fun bytes => bytes ++ [0]

structure ReqSend where
  sessionIdx : UInt32
  /-- `is_user[i]` and `texts[i]` for `i` below `msg_count` -/
  msgs : List (UInt8 × CString)
  model : Option CString
  provider : Option CString

structure ReqSendOut where
  sessionIdx : UInt32
  msgCount : UInt32
  texts : Option (List (Option Bytes))
  isUser : Option (List UInt8)
  model : Option Bytes
  provider : Option Bytes
  deriving DecidableEq, Repr

def ipcEncodeReqSend (v : ReqSend) : Encoded :=
  let mlen := strlen32 v.model
  let plen := strlen32 v.provider
  let sz := v.msgs.foldl (fun sz m => sz + (1 + 4 + strlen32 (some m.2))) (4 * 2)
  let sz := sz + (4 + mlen)
  let sz := sz + (4 + plen)
  { buf := le32 v.sessionIdx ++ le32 (UInt32.ofNat v.msgs.length) ++
      v.msgs.flatMap (fun m =>
        m.1 :: (le32 (strlen32 (some m.2)) ++ copied (some m.2))) ++
      le32 mlen ++ copied v.model ++ le32 plen ++ copied v.provider
    outLen := sz }

/-- `(*is_user)[i] = b` -/
def ReqSendOut.setUser (out : ReqSendOut) (i : Nat) (b : UInt8) :
    Option ReqSendOut := do
  let isUser ← out.isUser
  if i < isUser.length then
    some { out with isUser := some (isUser.set i b) }
  else
    none

/-- `(*texts)[i] = block` -/
def ReqSendOut.setText (out : ReqSendOut) (i : Nat) (block : Bytes) :
    Option ReqSendOut := do
  let texts ← out.texts
  if i < texts.length then
    some { out with texts := some (texts.set i (some block)) }
  else
    none

/-- The message loop, `todo` rounds before its end: the return value so far,
the cursor and the output parameters. -/
def reqSendLoop (buf : Bytes) :
    (todo i p : Nat) → ReqSendOut → Option (Int × Nat × ReqSendOut)
  | 0, _, p, out => some (0, p, out)
  | todo + 1, i, p, out =>
      if p + 5 > buf.length then
        some (-1, p, out)
      else do
        let user ← readU8 buf p
        let out ← out.setUser i user
        let p := p + 1
        let tlen ← readU32 buf p
        let p := p + 4
        if p + tlen.toNat > buf.length then
          some (-1, p, out)
        else do
          let text ← mallocCopy buf p tlen
          let out ← out.setText i text
          reqSendLoop buf todo (i + 1) (p + tlen.toNat) out

def reqSendProvider (buf : Bytes) (p : Nat) (out : ReqSendOut) :
    Option (Int × ReqSendOut) :=
  if p + 4 ≤ buf.length then do
    let plen ← readU32 buf p
    let p := p + 4
    if plen > 0 ∧ p + plen.toNat ≤ buf.length then do
      let provider ← mallocCopy buf p plen
      some (0, { out with provider := some provider })
    else
      some (0, out)
  else
    some (0, out)

/-- The optional model tail and what follows it. -/
def reqSendModel (buf : Bytes) (p : Nat) (out : ReqSendOut) :
    Option (Int × ReqSendOut) :=
  if p + 4 ≤ buf.length then do
    let mlen ← readU32 buf p
    let p := p + 4
    if mlen > 0 ∧ p + mlen.toNat ≤ buf.length then do
      let model ← mallocCopy buf p mlen
      reqSendProvider buf (p + mlen.toNat) { out with model := some model }
    else
      reqSendProvider buf p out
  else
    reqSendProvider buf p out

def ipcDecodeReqSend (buf : Bytes) (out : ReqSendOut) :
    Option (Int × ReqSendOut) :=
  if buf.length < 8 then
    some (-1, out)
  else do
    let sessionIdx ← readU32 buf 0
    let msgCount ← readU32 buf 4
    let out : ReqSendOut :=
      { sessionIdx, msgCount
        texts := some (List.replicate msgCount.toNat none)
        isUser := some (List.replicate msgCount.toNat 0)
        model := none
        provider := none }
    let (ret, p, out) ← reqSendLoop buf msgCount.toNat 0 8 out
    if ret = 0 then
      reqSendModel buf p out
    else
      some (ret, out)

structure RepFinal where
  sessionIdx : UInt32
  content : Option CString
  reasoning : Option CString

structure RepFinalOut where
  sessionIdx : UInt32
  content : Option Bytes
  reasoning : Option Bytes
  deriving DecidableEq, Repr

def ipcEncodeRepFinal (v : RepFinal) : Encoded :=
  let clen := strlen32 v.content
  let rlen := strlen32 v.reasoning
  { buf := le32 v.sessionIdx ++ le32 clen ++ copied v.content ++
      le32 rlen ++ copied v.reasoning
    outLen := 4 * 3 + clen + rlen }

def ipcDecodeRepFinal (buf : Bytes) (out : RepFinalOut) :
    Option (Int × RepFinalOut) :=
  if buf.length < 12 then
    some (-1, out)
  else do
    let sessionIdx ← readU32 buf 0
    let out := { out with sessionIdx }
    let clen ← readU32 buf 4
    if 8 + clen.toNat > buf.length then
      some (-1, out)
    else do
      let content ← mallocCopy buf 8 clen
      let out := { out with content := some content }
      let p := 8 + clen.toNat
      if p + 4 > buf.length then
        some (0, { out with reasoning := none })
      else do
        let rlen ← readU32 buf p
        let p := p + 4
        if rlen > 0 ∧ p + rlen.toNat ≤ buf.length then do
          let reasoning ← mallocCopy buf p rlen
          some (0, { out with reasoning := some reasoning })
        else
          some (0, { out with reasoning := none })

structure WorkerStart where
  parentCorrId : UInt64
  model : Option CString
  description : Option CString

structure WorkerStartOut where
  parentCorrId : UInt64
  model : Option Bytes
  description : Option Bytes
  deriving DecidableEq, Repr

def ipcEncodeWorkerStart (v : WorkerStart) : Encoded :=
  let mlen := strlen32 v.model
  let dlen := strlen32 v.description
  { buf := le64 v.parentCorrId ++ le32 mlen ++ copied v.model ++
      le32 dlen ++ copied v.description
    outLen := 8 + 4 + mlen + 4 + dlen }

def workerStartDescription (buf : Bytes) (p : Nat) (out : WorkerStartOut) :
    Option (Int × WorkerStartOut) :=
  if p + 4 > buf.length then
    some (0, out)
  else do
    let dlen ← readU32 buf p
    let p := p + 4
    if dlen > 0 ∧ p + dlen.toNat ≤ buf.length then do
      let description ← mallocCopy buf p dlen
      some (0, { out with description := some description })
    else
      some (0, out)

def ipcDecodeWorkerStart (buf : Bytes) (out : WorkerStartOut) :
    Option (Int × WorkerStartOut) :=
  let out := { out with model := none, description := none }
  if 0 + 8 > buf.length then
    some (-1, out)
  else do
    let parentCorrId ← readU64 buf 0
    let out := { out with parentCorrId }
    if 8 + 4 > buf.length then
      some (-1, out)
    else do
      let mlen ← readU32 buf 8
      let p := 12
      if mlen > 0 then
        if p + mlen.toNat > buf.length then
          some (-1, out)
        else do
          let model ← mallocCopy buf p mlen
          workerStartDescription buf (p + mlen.toNat)
            { out with model := some model }
      else
        workerStartDescription buf p out

structure SessionRename where
  sessionIdx : UInt32
  topic : Option CString

structure SessionRenameOut where
  sessionIdx : UInt32
  topic : Option Bytes
  deriving DecidableEq, Repr

def ipcEncodeSessionRename (v : SessionRename) : Encoded :=
  let tlen := strlen32 v.topic
  { buf := le32 v.sessionIdx ++ le32 tlen ++ copied v.topic
    outLen := 4 * 2 + tlen }

def ipcDecodeSessionRename (buf : Bytes) (out : SessionRenameOut) :
    Option (Int × SessionRenameOut) :=
  let out := { out with topic := none }
  if buf.length < 8 then
    some (-1, out)
  else do
    let sessionIdx ← readU32 buf 0
    let out := { out with sessionIdx }
    let tlen ← readU32 buf 4
    let p := 8
    if tlen > 0 ∧ p + tlen.toNat ≤ buf.length then do
      let topic ← mallocCopy buf p tlen
      some (0, { out with topic := some topic })
    else
      some (0, out)

structure WorkerReq where
  workerType : UInt32
  op : Option CString
  argsJson : Option CString

structure WorkerReqOut where
  workerType : UInt32
  op : Option Bytes
  argsJson : Option Bytes
  deriving DecidableEq, Repr

def ipcEncodeWorkerReq (v : WorkerReq) : Encoded :=
  let opLen := strlen32 v.op
  let argsLen := strlen32 v.argsJson
  { buf := le32 v.workerType ++ le32 opLen ++ copied v.op ++
      le32 argsLen ++ copied v.argsJson
    outLen := 4 * 3 + opLen + argsLen }

def ipcDecodeWorkerReq (buf : Bytes) (out : WorkerReqOut) :
    Option (Int × WorkerReqOut) :=
  let out := { out with op := none, argsJson := none }
  if buf.length < 12 then
    some (-1, out)
  else do
    let workerType ← readU32 buf 0
    let out := { out with workerType }
    let opLen ← readU32 buf 4
    if 8 + opLen.toNat > buf.length then
      some (-1, out)
    else do
      let op ← mallocCopy buf 8 opLen
      let out := { out with op := some op }
      let p := 8 + opLen.toNat
      if p + 4 > buf.length then
        some (-1, out)
      else do
        let argsLen ← readU32 buf p
        let p := p + 4
        if argsLen > 0 then
          if p + argsLen.toNat > buf.length then
            some (-1, { out with op := none })
          else do
            let argsJson ← mallocCopy buf p argsLen
            some (0, { out with argsJson := some argsJson })
        else
          some (0, out)

structure WorkerRep where
  success : Int
  result : Option CString

structure WorkerRepOut where
  success : Int
  result : Option Bytes
  deriving DecidableEq, Repr

def ipcEncodeWorkerRep (v : WorkerRep) : Encoded :=
  let rlen := strlen32 v.result
  { buf := (if v.success ≠ 0 then 1 else 0) :: (le32 rlen ++ copied v.result)
    outLen := 1 + 4 + rlen }

def ipcDecodeWorkerRep (buf : Bytes) (out : WorkerRepOut) :
    Option (Int × WorkerRepOut) :=
  let out := { out with result := none }
  if buf.length < 5 then
    some (-1, out)
  else do
    let flag ← readU8 buf 0
    let out := { out with success := if flag ≠ 0 then 1 else 0 }
    let rlen ← readU32 buf 1
    let p := 5
    if rlen > 0 ∧ p + rlen.toNat ≤ buf.length then do
      let result ← mallocCopy buf p rlen
      some (0, { out with result := some result })
    else
      some (0, out)

structure ApprovalReq where
  reqCorrId : UInt64
  description : Option CString

structure ApprovalReqOut where
  reqCorrId : UInt64
  description : Option Bytes
  deriving DecidableEq, Repr

def ipcEncodeApprovalReq (v : ApprovalReq) : Encoded :=
  let dlen := strlen32 v.description
  { buf := le64 v.reqCorrId ++ le32 dlen ++ copied v.description
    outLen := 8 + 4 + dlen }

def ipcDecodeApprovalReq (buf : Bytes) (out : ApprovalReqOut) :
    Option (Int × ApprovalReqOut) :=
  let out := { out with description := none }
  if buf.length < 12 then
    some (-1, out)
  else do
    let reqCorrId ← readU64 buf 0
    let out := { out with reqCorrId }
    let dlen ← readU32 buf 8
    let p := 12
    if dlen > 0 ∧ p + dlen.toNat ≤ buf.length then do
      let description ← mallocCopy buf p dlen
      some (0, { out with description := some description })
    else
      some (0, out)

structure ApprovalRep where
  reqCorrId : UInt64
  approved : Int

structure ApprovalRepOut where
  reqCorrId : UInt64
  approved : Int
  deriving DecidableEq, Repr

def ipcEncodeApprovalRep (v : ApprovalRep) : Encoded :=
  { buf := le64 v.reqCorrId ++ [if v.approved ≠ 0 then 1 else 0]
    outLen := 8 + 1 }

def ipcDecodeApprovalRep (buf : Bytes) (out : ApprovalRepOut) :
    Option (Int × ApprovalRepOut) :=
  if buf.length < 9 then
    some (-1, out)
  else do
    let reqCorrId ← readU64 buf 0
    let flag ← readU8 buf 8
    some (0, { reqCorrId, approved := if flag ≠ 0 then 1 else 0 })

end FreeCli

import FreeCli.Library.Words

namespace FreeCli

open Words

/-! The messages of the two channels once their payloads are decoded.  Request
ids are natural numbers: nobody counts up to 2^64. -/

inductive ToBackend where
  | reqSend (corrId : Nat) (sessionIdx : Nat) (msgs : List (Bool × Bytes))
      (model provider : Bytes)
  | workerReq (corrId : Nat) (workerType : Nat) (op argsJson : Bytes)
  | approvalRep (corrId : Nat) (reqCorrId : Nat) (approved : Bool)
  deriving DecidableEq, Repr

def ToBackend.requestId : ToBackend → Option Nat
  | .reqSend corrId .. => some corrId
  | .workerReq corrId .. => some corrId
  | .approvalRep .. => none

inductive ToTui where
  | repFinal (corrId : Nat) (sessionIdx : Nat) (content : Bytes)
      (reasoning : Option Bytes)
  | repError (corrId : Nat) (text : Bytes)
  | workerStart (corrId : Nat) (parentCorrId : Nat) (model description : Bytes)
  | workerEnd (corrId : Nat)
  | workerRep (corrId : Nat) (success : Bool) (result : Bytes)
  | approvalReq (corrId : Nat) (reqCorrId : Nat) (description : Bytes)
  | sessionRename (corrId : Nat) (sessionIdx : Nat) (topic : Bytes)
  deriving DecidableEq, Repr

def ToTui.corrId : ToTui → Nat
  | .repFinal corrId .. => corrId
  | .repError corrId _ => corrId
  | .workerStart corrId .. => corrId
  | .workerEnd corrId => corrId
  | .workerRep corrId .. => corrId
  | .approvalReq corrId .. => corrId
  | .sessionRename corrId .. => corrId

end FreeCli

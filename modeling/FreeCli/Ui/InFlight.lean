import FreeCli.Library.Slots
import FreeCli.Library.Words

namespace FreeCli

open Words Slots

/-! The in-flight table of `main.c`.  An inactive entry is a free slot; start
times are left out. -/

def maxInFlight : Nat := 32

structure InFlight where
  corrId : Nat
  /-- 0 for a request of the user -/
  parentCorrId : Nat
  depth : Nat
  sessionIdx : Int
  name : Bytes
  deriving DecidableEq, Repr

abbrev InFlightTable := Table InFlight

def noneInFlight : InFlightTable := List.replicate maxInFlight none

def InFlight.request (corrId : Nat) (sidx : Int) (name : Bytes) : InFlight :=
  { corrId, parentCorrId := 0, depth := 0, sessionIdx := sidx
    name := name.take 63 }

/-- `snprintf(label, 64, "→%s: %.30s", model, desc)` -/
def inflightLabel (model desc : Bytes) : Bytes :=
  (ascii "→" ++ model ++ ascii ": " ++ desc.take 30).take 63

def InFlight.sub (corrId parentCorrId : Nat) (parentSidx : Int)
    (model desc : Bytes) : InFlight :=
  { corrId, parentCorrId, depth := 1, sessionIdx := parentSidx
    name := inflightLabel model desc }

def inflightAdd (table : InFlightTable) (corrId : Nat) (sidx : Int)
    (name : Bytes) : InFlightTable :=
  add (.request corrId sidx name) table

def inflightAddSub (table : InFlightTable) (corrId parentCorrId : Nat)
    (parentSidx : Int) (model desc : Bytes) : InFlightTable :=
  add (.sub corrId parentCorrId parentSidx model desc) table

def hasCorr (corrId : Nat) (entry : InFlight) : Bool := entry.corrId == corrId

/-- The session index of the entry, or -1, and the table without it. -/
def inflightRemove (table : InFlightTable) (corrId : Nat) : Int × InFlightTable :=
  let removed := remove (hasCorr corrId) table
  (match removed.1 with
    | some entry => entry.sessionIdx
    | none => -1, removed.2)

def inflightFindSidx (table : InFlightTable) (corrId : Nat) : Int :=
  match find (hasCorr corrId) table with
  | some entry => entry.sessionIdx
  | none => -1

def inflightSessionActive (table : InFlightTable) (sidx : Int) : Bool :=
  (occupied table).any fun entry => entry.sessionIdx == sidx && entry.depth == 0

end FreeCli

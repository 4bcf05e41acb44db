import FreeCli.Core.IpcSend

namespace FreeCli

open Words Transition

/-! `ipc_recv` on a non-blocking socket, one system call at a time, while the
peer's bytes arrive. -/

/-- `net_recv_all` between two calls of `recv()`. -/
inductive RecvAll where
  | receiving (got : Bytes)
  | returned (r : Int) (got : Bytes)
  deriving DecidableEq, Repr

/-- `while (len > 0)` with `got` received out of `len` bytes -/
def netRecvAll (len : Nat) (got : Bytes) : RecvAll :=
  if got.length < len then .receiving got else .returned 0 got

/-- The loop body once `recv()` has returned `n` and these `bytes`. -/
def netRecvRound (len : Nat) (got : Bytes) (n : Int) (bytes : Bytes) : RecvAll :=
  if n ≤ 0 then .returned (-1) got else netRecvAll len (got ++ bytes)

/-- `ipc_recv` between two system calls. -/
inductive Receiving where
  | idle
  | header (got : Bytes)
  | body (bodyLen : UInt32) (got : Bytes)
  /-- the caller gives the connection up after -1 -/
  | dropped
  deriving DecidableEq, Repr

structure RecvReturn where
  r : Int
  msg : Option IpcMsg
  deriving DecidableEq, Repr

def ipcRecvBody (bodyLen : UInt32) : RecvAll → Receiving ⊕ RecvReturn
  | .receiving got => .inl (.body bodyLen got)
  | .returned r got =>
      if r ≠ 0 then .inr ⟨-1, none⟩ else .inr ⟨1, some (ipcParse got)⟩

def ipcRecvHeader : RecvAll → Receiving ⊕ RecvReturn
  | .receiving got => .inl (.header got)
  | .returned r got =>
      if r ≠ 0 then
        .inr ⟨-1, none⟩
      else
        let bodyLen := UInt32.ofNat (leValue got)
        if bodyLen < 12 then
          .inr ⟨-1, none⟩
        else
          ipcRecvBody bodyLen (netRecvAll bodyLen.toNat [])

structure Receiver where
  /-- written by the peer and still on its way -/
  toCome : Bytes
  /-- arrived and not read -/
  buffer : Bytes
  /-- the peer's close has arrived -/
  closed : Bool
  phase : Receiving
  returned : List RecvReturn
  deriving DecidableEq, Repr

inductive RecvLabel where
  | arrive (n : Nat)
  | close
  /-- the next system call of the reader -/
  | call
  deriving DecidableEq, Repr

namespace Receiver

def received (state : Receiver) : List IpcMsg :=
  state.returned.filterMap RecvReturn.msg

def readable (state : Receiver) : Bool := state.buffer ≠ [] ∨ state.closed

def recvBytes (state : Receiver) (want : Nat) : Bytes :=
  state.buffer.take (asked want)

/-- What `recv()` returns: `EAGAIN` is -1, an orderly shutdown 0. -/
def recvResult (state : Receiver) (want : Nat) : Int :=
  if state.buffer = [] then
    if state.closed then 0 else -1
  else
    (state.recvBytes want).length

def resume (state : Receiver) : Receiving ⊕ RecvReturn → Receiver
  | .inl phase => { state with phase }
  | .inr ret =>
      { state with
        phase := if ret.r < 0 then .dropped else .idle
        returned := state.returned ++ [ret] }

def recvRound (state : Receiver) (len : Nat) (got : Bytes)
    (next : RecvAll → Receiving ⊕ RecvReturn) : Receiver :=
  let want := len - got.length
  { state with buffer := state.buffer.drop (asked want) }.resume
    (next (netRecvRound len got (state.recvResult want) (state.recvBytes want)))

def step (state : Receiver) : RecvLabel → Option Receiver
  | .arrive n =>
      if n ≤ state.toCome.length then
        some { state with
          toCome := state.toCome.drop n
          buffer := state.buffer ++ state.toCome.take n }
      else
        none
  | .close => if state.toCome = [] then some { state with closed := true } else none
  | .call =>
      match state.phase with
      | .idle =>
          if state.readable then
            some (state.resume (ipcRecvHeader (netRecvAll 4 [])))
          else
            some (state.resume (.inr ⟨0, none⟩))
      | .header got => some (state.recvRound 4 got ipcRecvHeader)
      | .body bodyLen got =>
          some (state.recvRound bodyLen.toNat got (ipcRecvBody bodyLen))
      | .dropped => none

def Start (msgs : List IpcMsg) (state : Receiver) : Prop :=
  state = ⟨msgs.flatMap IpcMsg.frame, [], false, .idle, []⟩

/-- Every `recv()` finds a byte, or the peer has closed. -/
def Fed (taken : Taken Receiver RecvLabel) : Prop :=
  taken.label = .call → taken.src.phase ≠ .idle →
    taken.src.buffer ≠ [] ∨ taken.src.closed

instance : DecidablePred Fed := fun _ =>
  inferInstanceAs (Decidable (_ → _ → _))

/-- A return of 1 hands over the next message, a return of 0 leaves no whole
message unread, and -1 comes after the peer has closed and everything has been
received. -/
def Right (msgs : List IpcMsg) (src : Receiver) (ret : RecvReturn) : Prop :=
  (ret.r = 1 ∧ ∃ msg, ret.msg = some msg ∧
    msgs[src.received.length]? = some msg) ∨
  (ret.r = 0 ∧ ret.msg = none ∧ ¬∃ msg : IpcMsg, msg.frame <+: src.buffer) ∨
  (ret.r = -1 ∧ ret.msg = none ∧ src.closed ∧ src.received = msgs)

def RightReturn (msgs : List IpcMsg) (taken : Taken Receiver RecvLabel) : Prop :=
  ∀ ret, taken.dst.returned = taken.src.returned ++ [ret] →
    Right msgs taken.src ret

structure FramesReceived (msgs : List IpcMsg)
    (trace : List (Taken Receiver RecvLabel)) (state : Receiver) : Prop where
  returns : ∀ taken ∈ trace, RightReturn msgs taken
  inOrder : state.received <+: msgs
  complete : state.phase = .idle → state.buffer = [] → state.toCome = [] →
    state.received = msgs

/-- How far the reader is in the frames that are left. -/
def Progress : Receiving → (unread : Bytes) → (remaining : List IpcMsg) → Prop
  | .header got, unread, remaining =>
      got.length < 4 ∧ got ++ unread = remaining.flatMap IpcMsg.frame
  | .body bodyLen got, unread, remaining =>
      got.length < bodyLen.toNat ∧ ∃ msg later, remaining = msg :: later ∧
        bodyLen = msg.bodyLen ∧
        le32 bodyLen ++ got ++ unread = remaining.flatMap IpcMsg.frame
  | .idle, unread, remaining => unread = remaining.flatMap IpcMsg.frame
  | .dropped, unread, remaining => unread = remaining.flatMap IpcMsg.frame

structure Inv (msgs : List IpcMsg) (state : Receiver) : Prop where
  closed : state.closed = true → state.toCome = []
  progress : ∃ remaining, state.received ++ remaining = msgs ∧
    Progress state.phase (state.buffer ++ state.toCome) remaining

theorem recvRound_starved {state : Receiver} (starved : state.buffer = [])
    (next : RecvAll → Receiving ⊕ RecvReturn) :
    state.recvRound len got next =
      state.resume (next (.returned (-1) got)) := by
  have result : state.recvResult (len - got.length) ≤ 0 := by
    rw [recvResult, if_pos starved]
    split <;> omega
  rw [recvRound, netRecvRound, if_pos result]
  simp only [starved, List.drop_nil]
  rw [← starved]

theorem recvRound_fed {state : Receiver} (fed : state.buffer ≠ [])
    (short : got.length < len) (small : len < 2 ^ 32)
    (next : RecvAll → Receiving ⊕ RecvReturn) :
    ∃ bytes rest, state.buffer = bytes ++ rest ∧
      (got ++ bytes).length ≤ len ∧
      state.recvRound len got next =
        { state with buffer := rest }.resume
          (next (netRecvAll len (got ++ bytes))) := by
  have asks := asked_pos (Nat.sub_pos_of_lt short) (by omega)
  have atMost := asked_le (len - got.length)
  have some_left : 0 < state.buffer.length := List.length_pos_iff.2 fed
  refine ⟨state.recvBytes (len - got.length),
    state.buffer.drop (asked (len - got.length)), ?_, ?_, ?_⟩
  · rw [recvBytes, List.take_append_drop]
  · rw [List.length_append, recvBytes, List.length_take]
    omega
  · have result : ¬state.recvResult (len - got.length) ≤ 0 := by
      rw [recvResult, if_neg fed, recvBytes, List.length_take]
      omega
    rw [recvRound, netRecvRound, if_neg result]

theorem header_bytes {msg : IpcMsg} {unread rest : Bytes}
    (header : got.length = 4) (split : got ++ unread = msg.frame ++ rest) :
    got = le32 msg.bodyLen := by
  have parts : got ++ unread = le32 msg.bodyLen ++
      (le32 msg.type ++ le64 msg.corrId ++ msg.payload ++ rest) := by
    rw [split, IpcMsg.frame]
    simp only [List.append_assoc]
  exact (List.append_inj parts (by rw [header, length_le32])).1

theorem ipcRecvHeader_whole {msg : IpcMsg} (fits : msg.Fits) :
    ipcRecvHeader (.returned 0 (le32 msg.bodyLen)) =
      .inl (.body msg.bodyLen []) := by
  have bodyLen : UInt32.ofNat (leValue (le32 msg.bodyLen)) = msg.bodyLen := by
    rw [leValue_le32, UInt32.ofNat_toNat]
  have length := IpcMsg.toNat_bodyLen fits
  have large : ¬msg.bodyLen < 12 := by
    rw [UInt32.lt_iff_toNat_lt, length]
    simp
  have some_left : ([] : Bytes).length < msg.bodyLen.toNat := by
    rw [length, List.length_nil]
    omega
  simp only [ipcRecvHeader, bodyLen, if_neg large, netRecvAll,
    if_pos some_left, ipcRecvBody]
  rfl

theorem Inv.start {msgs : List IpcMsg} {state : Receiver}
    (start : Start msgs state) : Inv msgs state := by
  obtain rfl := start
  exact ⟨by simp, msgs, by simp [received], by simp [Progress]⟩

theorem Inv.header {msgs : List IpcMsg} {state : Receiver}
    (fits : ∀ msg ∈ msgs, msg.Fits) (inv : Inv msgs state)
    (phase : state.phase = .header got)
    (fed : state.buffer ≠ [] ∨ state.closed) :
    let dst := state.recvRound 4 got ipcRecvHeader
    Inv msgs dst ∧
      (dst.returned = state.returned ∨
        ∃ ret, dst.returned = state.returned ++ [ret] ∧
          Right msgs state ret) := by
  obtain ⟨remaining, shared, progress⟩ := inv.progress
  rw [phase, Progress] at progress
  obtain ⟨short, split⟩ := progress
  by_cases starved : state.buffer = []
  · -- the peer has closed between two frames
    have closed : state.closed = true := fed.resolve_left (by simpa using starved)
    have nothing := inv.closed closed
    have done : remaining = [] := by
      cases remaining with
      | nil => rfl
      | cons msg later =>
          have lengths := congrArg List.length split
          have header := msg.length_frame
          simp only [starved, nothing, List.append_nil, List.flatMap_cons,
            List.length_append] at lengths
          omega
    subst done
    have empty : got = [] := by
      simpa [starved, nothing] using split
    rw [recvRound_starved starved, ipcRecvHeader]
    refine ⟨⟨inv.closed, [], ?_, ?_⟩, .inr ⟨⟨-1, none⟩, rfl, ?_⟩⟩
    · simpa [resume, received] using shared
    · simp [resume, Progress, starved, nothing]
    · exact .inr (.inr ⟨rfl, rfl, closed, by simpa using shared⟩)
  · obtain ⟨bytes, rest, buffer, atMost, moved⟩ :=
      recvRound_fed starved short (by decide) ipcRecvHeader
    rw [moved]
    have split' : (got ++ bytes) ++ (rest ++ state.toCome) =
        remaining.flatMap IpcMsg.frame := by
      rw [← split, buffer]
      simp only [List.append_assoc]
    by_cases more : (got ++ bytes).length < 4
    · rw [netRecvAll, if_pos more, ipcRecvHeader]
      exact ⟨⟨inv.closed, remaining, shared, more, split'⟩, .inl rfl⟩
    · have whole : (got ++ bytes).length = 4 := by omega
      cases remaining with
      | nil =>
          have lengths := congrArg List.length split'
          rw [List.length_append, whole] at lengths
          simp at lengths
      | cons msg later =>
          have fit : msg.Fits := fits msg (by rw [← shared]; simp)
          have header := header_bytes whole split'
          have length := IpcMsg.toNat_bodyLen fit
          rw [netRecvAll, if_neg more, header, ipcRecvHeader_whole fit]
          refine ⟨⟨inv.closed, msg :: later, shared, ?_, msg, later, rfl, rfl,
            ?_⟩, .inl rfl⟩
          · rw [length, List.length_nil]
            omega
          · rw [← header, List.append_nil]
            exact split'

theorem Inv.body {msgs : List IpcMsg} {state : Receiver}
    (fits : ∀ msg ∈ msgs, msg.Fits) (inv : Inv msgs state)
    (phase : state.phase = .body bodyLen got)
    (fed : state.buffer ≠ [] ∨ state.closed) :
    let dst := state.recvRound bodyLen.toNat got (ipcRecvBody bodyLen)
    Inv msgs dst ∧
      (dst.returned = state.returned ∨
        ∃ ret, dst.returned = state.returned ++ [ret] ∧
          Right msgs state ret) := by
  obtain ⟨remaining, shared, progress⟩ := inv.progress
  rw [phase, Progress] at progress
  obtain ⟨short, msg, later, rfl, rfl, split⟩ := progress
  have fit : msg.Fits := fits msg (by rw [← shared]; simp)
  have length := IpcMsg.toNat_bodyLen fit
  by_cases starved : state.buffer = []
  · -- a peer that has closed has sent whole frames
    have closed : state.closed = true := fed.resolve_left (by simpa using starved)
    have lengths := congrArg List.length split
    have frame := msg.length_frame
    simp only [starved, inv.closed closed, List.append_nil, List.flatMap_cons,
      List.length_append, length_le32] at lengths
    omega
  · obtain ⟨bytes, rest, buffer, atMost, moved⟩ :=
      recvRound_fed starved short msg.bodyLen.toNat_lt (ipcRecvBody msg.bodyLen)
    rw [moved]
    have split' : le32 msg.bodyLen ++ (got ++ bytes) ++ (rest ++ state.toCome) =
        (msg :: later).flatMap IpcMsg.frame := by
      rw [← split, buffer]
      simp only [List.append_assoc]
    by_cases more : (got ++ bytes).length < msg.bodyLen.toNat
    · rw [netRecvAll, if_pos more, ipcRecvBody]
      exact ⟨⟨inv.closed, msg :: later, shared, more, msg, later, rfl, rfl,
        split'⟩, .inl rfl⟩
    · have whole : (got ++ bytes).length = msg.bodyLen.toNat := by omega
      have parts : (le32 msg.bodyLen ++ (got ++ bytes)) ++
          (rest ++ state.toCome) =
          (le32 msg.bodyLen ++
            (le32 msg.type ++ le64 msg.corrId ++ msg.payload)) ++
            later.flatMap IpcMsg.frame := by
        rw [split', List.flatMap_cons, IpcMsg.frame]
        simp only [List.append_assoc]
      obtain ⟨front, back⟩ := List.append_inj parts (by
        rw [List.length_append, whole, length]
        simp only [List.length_append, length_le32, length_le64])
      have body := List.append_cancel_left front
      rw [netRecvAll, if_neg more, ipcRecvBody, body, ipcParse_body]
      refine ⟨⟨inv.closed, later, ?_, back⟩, .inr ⟨⟨1, some msg⟩, rfl,
        .inl ⟨rfl, msg, rfl, ?_⟩⟩⟩
      · rw [← shared]
        simp [resume, received, List.filterMap_append]
      · rw [← shared]
        simp

theorem Inv.idle {msgs : List IpcMsg} {state dst : Receiver}
    (inv : Inv msgs state) (phase : state.phase = .idle)
    (stepped : state.step .call = some dst) :
    Inv msgs dst ∧
      (dst.returned = state.returned ∨
        ∃ ret, dst.returned = state.returned ++ [ret] ∧
          Right msgs state ret) := by
  obtain ⟨remaining, shared, progress⟩ := inv.progress
  rw [phase, Progress] at progress
  simp only [step, phase] at stepped
  split at stepped
  next readable =>
    obtain rfl := Option.some.inj stepped
    exact ⟨⟨inv.closed, remaining, shared, by simp, progress⟩, .inl rfl⟩
  next quiet =>
    obtain rfl := Option.some.inj stepped
    have empty : state.buffer = [] := by
      simp only [readable, decide_eq_true_eq, not_or, Decidable.not_not] at quiet
      exact quiet.1
    refine ⟨⟨inv.closed, remaining, ?_, progress⟩,
      .inr ⟨⟨0, none⟩, rfl, .inr (.inl ⟨rfl, rfl, ?_⟩)⟩⟩
    · simpa [resume, received, List.filterMap_append] using shared
    · rintro ⟨msg, starts⟩
      have positive := msg.length_frame_pos
      rw [empty, List.prefix_nil] at starts
      simp [starts] at positive

theorem Inv.call {msgs : List IpcMsg} {state dst : Receiver}
    (fits : ∀ msg ∈ msgs, msg.Fits) (inv : Inv msgs state)
    (stepped : state.step .call = some dst)
    (fed : Fed ⟨state, .call, dst⟩) :
    Inv msgs dst ∧
      (dst.returned = state.returned ∨
        ∃ ret, dst.returned = state.returned ++ [ret] ∧
          Right msgs state ret) := by
  cases phase : state.phase with
  | idle => exact inv.idle phase stepped
  | header got =>
      simp only [step, phase] at stepped
      obtain rfl := Option.some.inj stepped
      exact inv.header fits phase (fed rfl (by simp [phase]))
  | body bodyLen got =>
      simp only [step, phase] at stepped
      obtain rfl := Option.some.inj stepped
      exact inv.body fits phase (fed rfl (by simp [phase]))
  | dropped =>
      simp only [step, phase] at stepped
      contradiction

theorem Inv.arrive {msgs : List IpcMsg} {state dst : Receiver}
    (inv : Inv msgs state) (stepped : state.step (.arrive n) = some dst) :
    Inv msgs dst ∧ dst.returned = state.returned := by
  rw [step] at stepped
  split at stepped
  next some_left =>
    obtain rfl := Option.some.inj stepped
    have unread : state.buffer ++ state.toCome.take n ++ state.toCome.drop n =
        state.buffer ++ state.toCome := by
      rw [List.append_assoc, List.take_append_drop]
    obtain ⟨remaining, shared, progress⟩ := inv.progress
    refine ⟨⟨?_, remaining, shared, ?_⟩, rfl⟩
    · intro closed
      simp [inv.closed closed]
    · rw [unread]
      exact progress
  next => contradiction

theorem Inv.close {msgs : List IpcMsg} {state dst : Receiver}
    (inv : Inv msgs state) (stepped : state.step .close = some dst) :
    Inv msgs dst ∧ dst.returned = state.returned := by
  rw [step] at stepped
  split at stepped
  next nothing =>
    obtain rfl := Option.some.inj stepped
    exact ⟨⟨fun _ => nothing, inv.progress⟩, rfl⟩
  next => contradiction

theorem Inv.step_preserved {msgs : List IpcMsg} {src dst : Receiver}
    (fits : ∀ msg ∈ msgs, msg.Fits) (inv : Inv msgs src)
    (stepped : src.step label = some dst) (fed : Fed ⟨src, label, dst⟩) :
    Inv msgs dst ∧ RightReturn msgs ⟨src, label, dst⟩ := by
  have silent : dst.returned = src.returned →
      RightReturn msgs ⟨src, label, dst⟩ := by
    intro same ret more
    rw [same] at more
    simp at more
  cases label with
  | arrive n =>
      obtain ⟨kept, same⟩ := inv.arrive stepped
      exact ⟨kept, silent same⟩
  | close =>
      obtain ⟨kept, same⟩ := inv.close stepped
      exact ⟨kept, silent same⟩
  | call =>
      obtain ⟨kept, same | ⟨ret, returns, right⟩⟩ := inv.call fits stepped fed
      · exact ⟨kept, silent same⟩
      · refine ⟨kept, ?_⟩
        intro other more
        have equal := returns.symm.trans more
        obtain rfl : ret = other := by simpa using equal
        exact right

theorem Inv.run {msgs : List IpcMsg} {state : Receiver}
    (fits : ∀ msg ∈ msgs, msg.Fits) (run : Run step (Start msgs) trace state)
    (fed : ∀ taken ∈ trace, Fed taken) :
    Inv msgs state ∧ ∀ taken ∈ trace, RightReturn msgs taken := by
  refine run.invariant_trace Fed
    (fun trace state => Inv msgs state ∧ ∀ taken ∈ trace, RightReturn msgs taken)
    ?_ ?_ fed
  · intro state start
    exact ⟨Inv.start start, by simp⟩
  · intro trace src label dst _ _ holds stepped last
    obtain ⟨kept, right⟩ := holds.1.step_preserved fits stepped last
    refine ⟨kept, ?_⟩
    intro taken member
    rcases List.mem_append.1 member with member | member
    · exact holds.2 taken member
    · obtain rfl := List.mem_singleton.1 member
      exact right

theorem not_rightReturn_of_starved {msgs : List IpcMsg} {src dst : Receiver}
    (stepped : src.step label = some dst) (starved : ¬Fed ⟨src, label, dst⟩) :
    ¬RightReturn msgs ⟨src, label, dst⟩ := by
  simp only [Fed, Classical.not_imp, not_or, ne_eq, Decidable.not_not] at starved
  obtain ⟨rfl, inside, empty, opened⟩ := starved
  have returns : dst.returned = src.returned ++ [⟨-1, none⟩] := by
    cases phase : src.phase with
    | idle => exact absurd phase inside
    | header got =>
        simp only [step, phase] at stepped
        obtain rfl := Option.some.inj stepped
        rw [recvRound_starved empty]
        rfl
    | body bodyLen got =>
        simp only [step, phase] at stepped
        obtain rfl := Option.some.inj stepped
        rw [recvRound_starved empty]
        rfl
    | dropped =>
        simp only [step, phase] at stepped
        contradiction
  intro right
  rcases right _ returns with ⟨one, _⟩ | ⟨zero, _⟩ | ⟨_, _, closed, _⟩
  · exact absurd one (by decide)
  · exact absurd zero (by decide)
  · exact opened closed

theorem FramesReceived.fed {msgs : List IpcMsg}
    (property : FramesReceived msgs trace state)
    (run : Run step (Start msgs) trace state) :
    ∀ taken ∈ trace, Fed taken := by
  intro taken member
  obtain ⟨_, _, _, _, stepped⟩ := run.prefix_of_mem member
  by_contra starved
  exact not_rightReturn_of_starved stepped starved
    (property.returns taken member)

/-- `ipc_recv` receives what `ipc_send` wrote exactly if every `recv()` inside
a frame finds a byte. -/
theorem ipc_recv_frames (msgs : List IpcMsg) (fits : ∀ msg ∈ msgs, msg.Fits)
    (run : Run step (Start msgs) trace state) :
    FramesReceived msgs trace state ↔ ∀ taken ∈ trace, Fed taken := by
  constructor
  · intro property
    exact property.fed run
  · intro fed
    obtain ⟨inv, right⟩ := Inv.run fits run fed
    obtain ⟨remaining, shared, progress⟩ := inv.progress
    refine ⟨right, ⟨remaining, shared⟩, ?_⟩
    intro phase empty nothing
    rw [phase, Progress, empty, nothing] at progress
    have done : remaining = [] := by
      cases remaining with
      | nil => rfl
      | cons msg later =>
          have positive := msg.length_frame_pos
          have lengths := congrArg List.length progress
          simp only [List.append_nil, List.flatMap_cons, List.length_append,
            List.length_nil] at lengths
          omega
    simpa [done] using shared

def workerEnd : IpcMsg := { type := 21, corrId := 1, payload := [] }

def oneByte : IpcMsg := { type := 11, corrId := 2, payload := [33] }

theorem ipc_recv_frames_in_time :
    ∃ trace state, Run step (Start [workerEnd, oneByte]) trace state ∧
      state.received = [workerEnd, oneByte] ∧
      FramesReceived [workerEnd, oneByte] trace state := by
  have outcome : (exec step [.call, .arrive 1, .call, .call, .arrive 5, .call,
      .call, .arrive 27, .call, .call, .call, .call, .close, .call, .call]
      ⟨[workerEnd, oneByte].flatMap IpcMsg.frame, [], false, .idle, []⟩).map
        (fun state => state.returned) =
      some [⟨0, none⟩, ⟨1, some workerEnd⟩, ⟨1, some oneByte⟩, ⟨-1, none⟩] := by
    decide
  obtain ⟨state, ran, returned⟩ := Option.map_eq_some_iff.1 outcome
  have run : Run step (Start [workerEnd, oneByte]) _ state := .of_exec rfl ran
  refine ⟨_, state, run, ?_, ?_⟩
  · rw [received, returned]
    rfl
  · exact (ipc_recv_frames [workerEnd, oneByte] (by decide) run).2 (by decide)

/-- Only the first byte of the frame has arrived when the TUI polls. -/
theorem ipc_recv_frames_late :
    workerEnd.Fits ∧
      ∃ trace state, Run step (Start [workerEnd]) trace state ∧
        state.returned = [⟨-1, none⟩] ∧ state.closed = false ∧
        ¬FramesReceived [workerEnd] trace state := by
  have outcome : (exec step [.arrive 1, .call, .call, .call]
      ⟨[workerEnd].flatMap IpcMsg.frame, [], false, .idle, []⟩).map
        (fun state => (state.returned, state.closed)) =
      some ([⟨-1, none⟩], false) := by
    decide
  obtain ⟨state, ran, seen⟩ := Option.map_eq_some_iff.1 outcome
  have run : Run step (Start [workerEnd]) _ state := .of_exec rfl ran
  refine ⟨by decide, _, state, run, (Prod.ext_iff.1 seen).1,
    (Prod.ext_iff.1 seen).2, ?_⟩
  intro property
  have fed := property.fed run
  revert fed
  decide

end Receiver

end FreeCli

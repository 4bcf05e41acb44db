import Mathlib.Data.Fintype.Basic
import FreeCli.Core.IpcSend

namespace FreeCli

open Words Transition

/-! Threads that call `ipc_send` on one socket, one `send()` at a time. -/

structure SendThread where
  /-- the calls of `ipc_send` it has not made yet -/
  calls : List IpcMsg
  /-- inside `net_send_all`: the message and the bytes not accepted yet -/
  sending : Option (IpcMsg × Bytes)

structure SendReturn (ι : Type) where
  thread : ι
  msg : IpcMsg
  r : Int
  deriving DecidableEq, Repr

structure SendSystem (ι : Type) where
  threads : ι → SendThread
  stream : Bytes
  returned : List (SendReturn ι)

inductive SendLabel (ι : Type) where
  | call (thread : ι)
  | send (thread : ι) (n : Nat)
  deriving DecidableEq, Repr

namespace SendSystem

variable {ι : Type} [DecidableEq ι]

/-- `thread` goes on with `net_send_all`, or `ipc_send` returns. -/
def settle (sys : SendSystem ι) (thread : ι) (msg : IpcMsg)
    (calls : List IpcMsg) : SendAll → SendSystem ι
  | .sending left =>
      { sys with
        threads := Function.update sys.threads thread ⟨calls, some (msg, left)⟩ }
  | .returned r =>
      { sys with
        threads := Function.update sys.threads thread ⟨calls, none⟩
        returned := sys.returned ++ [⟨thread, msg, r⟩] }

def step (sys : SendSystem ι) : SendLabel ι → Option (SendSystem ι)
  | .call thread =>
      match sys.threads thread with
      | ⟨msg :: calls, none⟩ => do
          let frame ← ipcFrame msg
          some (sys.settle thread msg calls (netSendAll frame))
      | _ => none
  | .send thread n =>
      match sys.threads thread with
      | ⟨calls, some (msg, left)⟩ =>
          if SendMay left n then
            some ({ sys with stream := sys.stream ++ left.take n }.settle thread
              msg calls (netSendRound left n))
          else
            none
      | _ => none

def Start (todo : ι → List IpcMsg) (sys : SendSystem ι) : Prop :=
  sys.threads = (fun thread => ⟨todo thread, none⟩) ∧ sys.stream = [] ∧
    sys.returned = []

end SendSystem

/-- Some of its frame is on the stream, and some is not. -/
def SendThread.MidFrame (thread : SendThread) : Prop :=
  ∃ msg left, thread.sending = some (msg, left) ∧
    left.length < msg.frame.length

instance (thread : SendThread) : Decidable thread.MidFrame :=
  match found : thread.sending with
  | none => isFalse (by simp [SendThread.MidFrame, found])
  | some (msg, left) =>
      decidable_of_iff (left.length < msg.frame.length)
        (by simp [SendThread.MidFrame, found])

def SendThread.pending (thread : SendThread) : List IpcMsg :=
  (thread.sending.map Prod.fst).toList ++ thread.calls

/-- A `send()` is made while no other thread is inside a frame, and frames are
shorter than 4 GiB. -/
def Uninterrupted {ι : Type} (taken : Taken (SendSystem ι) (SendLabel ι)) : Prop :=
  match taken.label with
  | .call thread =>
      ∀ msg ∈ (taken.src.threads thread).calls.head?,
        msg.frame.length < 2 ^ 32
  | .send thread _ =>
      ∀ other, other ≠ thread → ¬(taken.src.threads other).MidFrame

instance {ι : Type} [DecidableEq ι] [Fintype ι] :
    DecidablePred (Uninterrupted (ι := ι)) := fun taken =>
  match taken with
  | ⟨src, .call thread, _⟩ =>
      inferInstanceAs (Decidable (∀ msg ∈ (src.threads thread).calls.head?,
        msg.frame.length < 2 ^ 32))
  | ⟨src, .send thread _, _⟩ =>
      inferInstanceAs (Decidable (∀ other, other ≠ thread →
        ¬(src.threads other).MidFrame))

namespace SendSystem

variable {ι : Type} [DecidableEq ι]

def sent (sys : SendSystem ι) : List IpcMsg := sys.returned.map SendReturn.msg

def Working (thread : SendThread) : Prop :=
  ∀ msg left, thread.sending = some (msg, left) →
    msg.Fits ∧ msg.frame.length < 2 ^ 32 ∧ left <:+ msg.frame ∧ left ≠ []

/-- `part` is what the thread inside a frame has put on the stream. -/
def Holds (sys : SendSystem ι) (part : Bytes) : Prop :=
  (part = [] ∧ ∀ thread, ¬(sys.threads thread).MidFrame) ∨
    ∃ thread msg left, (sys.threads thread).sending = some (msg, left) ∧
      part ++ left = msg.frame ∧ part ≠ [] ∧
      ∀ other, other ≠ thread → ¬(sys.threads other).MidFrame

structure Inv (todo : ι → List IpcMsg) (sys : SendSystem ι) : Prop where
  working : ∀ thread, Working (sys.threads thread)
  fits : ∀ msg ∈ sys.sent, msg.Fits
  succeeded : ∀ ret ∈ sys.returned, ret.r = 0
  stream : ∃ part, sys.stream = sys.sent.flatMap IpcMsg.frame ++ part ∧
    sys.Holds part
  order : ∀ thread, todo thread =
    (sys.returned.filter fun ret => ret.thread = thread).map SendReturn.msg ++
      (sys.threads thread).pending

theorem midFrame_of_sending {thread : SendThread} {msg : IpcMsg} {left : Bytes}
    (sending : thread.sending = some (msg, left)) :
    thread.MidFrame ↔ left.length < msg.frame.length := by
  simp [SendThread.MidFrame, sending]

theorem not_midFrame_none {thread : SendThread} (idle : thread.sending = none) :
    ¬thread.MidFrame := by
  simp [SendThread.MidFrame, idle]

theorem Holds.append_left {sys : SendSystem ι} {part : Bytes}
    (holds : sys.Holds part)
    (working : Working (sys.threads thread))
    (sending : (sys.threads thread).sending = some (msg, left))
    (alone : ∀ other, other ≠ thread → ¬(sys.threads other).MidFrame) :
    part ++ left = msg.frame := by
  rcases holds with ⟨rfl, quiet⟩ |
    ⟨holder, held, rest, sendingHeld, whole, nonempty, _⟩
  · obtain ⟨_, _, suffix, _⟩ := working msg left sending
    have enough : ¬left.length < msg.frame.length := by
      rw [← midFrame_of_sending sending]
      exact quiet thread
    exact suffix.eq_of_length (Nat.le_antisymm suffix.length_le (by omega))
  · have inside : (sys.threads holder).MidFrame := by
      rw [midFrame_of_sending sendingHeld, ← whole, List.length_append]
      have := List.length_pos_iff.2 nonempty
      omega
    have same : holder = thread := by
      by_contra different
      exact alone holder different inside
    subst same
    rw [sending] at sendingHeld
    obtain ⟨rfl, rfl⟩ := Prod.ext_iff.1 (Option.some.inj sendingHeld)
    exact whole

theorem step_call {sys dst : SendSystem ι}
    (stepped : sys.step (.call thread) = some dst) :
    ∃ msg calls, sys.threads thread = ⟨msg :: calls, none⟩ ∧ msg.Fits ∧
      dst = { sys with
        threads := Function.update sys.threads thread
          ⟨calls, some (msg, msg.frame)⟩ } := by
  rw [step] at stepped
  split at stepped
  next msg calls found =>
    obtain ⟨frame, framed, settled⟩ := Option.bind_eq_some_iff.1 stepped
    obtain ⟨fits, rfl⟩ := ipcFrame_eq_some.1 framed
    have loop : netSendAll msg.frame = .sending msg.frame :=
      if_pos msg.length_frame_pos
    rw [loop, settle] at settled
    exact ⟨msg, calls, found, fits, (Option.some.inj settled).symm⟩
  next => contradiction

theorem step_send {sys dst : SendSystem ι}
    (working : Working (sys.threads thread))
    (stepped : sys.step (.send thread n) = some dst) :
    ∃ calls msg left, sys.threads thread = ⟨calls, some (msg, left)⟩ ∧
      0 < n ∧
      ((n < left.length ∧ dst = { sys with
          threads := Function.update sys.threads thread
            ⟨calls, some (msg, left.drop n)⟩
          stream := sys.stream ++ left.take n }) ∨
        (n = left.length ∧ dst =
          { threads := Function.update sys.threads thread ⟨calls, none⟩
            stream := sys.stream ++ left
            returned := sys.returned ++ [⟨thread, msg, 0⟩] })) := by
  rw [step] at stepped
  split at stepped
  next calls msg left found =>
    obtain ⟨_, small, suffix, nonempty⟩ := working msg left (by rw [found])
    have some_left : 0 < left.length := List.length_pos_iff.2 nonempty
    have below : left.length < 2 ^ 32 :=
      Nat.lt_of_le_of_lt suffix.length_le small
    have asks := asked_pos some_left below
    have atMost := asked_le left.length
    split at stepped
    next may =>
      have accepted : 0 < n ∧ n ≤ left.length := by
        rcases may with error | ⟨_, most, zero⟩
        · omega
        · constructor
          · by_contra none
            have := zero (by omega)
            omega
          · omega
      have round : netSendRound left n = netSendAll (left.drop n) := by
        rw [netSendRound, if_neg (by omega), Int.toNat_natCast]
      rw [round, netSendAll, List.length_drop] at stepped
      refine ⟨calls, msg, left, found, accepted.1, ?_⟩
      split at stepped
      next more =>
        exact .inl ⟨by omega, (Option.some.inj stepped).symm⟩
      next last =>
        have all : left.take n = left := List.take_of_length_le (by omega)
        rw [all] at stepped
        exact .inr ⟨by omega, (Option.some.inj stepped).symm⟩
    next => contradiction
  next => contradiction

theorem Inv.start {todo : ι → List IpcMsg} {sys : SendSystem ι}
    (start : Start todo sys) : Inv todo sys := by
  obtain ⟨threads, stream, returned⟩ := start
  constructor
  · intro thread msg left sending
    simp [threads] at sending
  · simp [sent, returned]
  · simp [returned]
  · refine ⟨[], by simp [stream, sent, returned], .inl ⟨rfl, ?_⟩⟩
    intro thread
    exact not_midFrame_none (by rw [threads])
  · intro thread
    simp [returned, threads, SendThread.pending]

theorem Inv.call {todo : ι → List IpcMsg} {sys dst : SendSystem ι}
    (inv : Inv todo sys) (stepped : sys.step (.call thread) = some dst)
    (small : ∀ msg ∈ (sys.threads thread).calls.head?,
      msg.frame.length < 2 ^ 32) : Inv todo dst := by
  obtain ⟨msg, calls, found, fits, rfl⟩ := step_call stepped
  have below : msg.frame.length < 2 ^ 32 := small msg (by simp [found])
  have whole : msg.frame ≠ [] := List.length_pos_iff.1 msg.length_frame_pos
  have outside : ∀ other,
      (Function.update sys.threads thread ⟨calls, some (msg, msg.frame)⟩
        other).MidFrame ↔ (sys.threads other).MidFrame := by
    intro other
    by_cases same : other = thread
    · subst same
      simp [SendThread.MidFrame, found]
    · rw [Function.update_of_ne same]
  constructor
  · intro other
    by_cases same : other = thread
    · subst same
      intro sending left eq
      obtain ⟨rfl, rfl⟩ : msg = sending ∧ msg.frame = left := by simpa using eq
      exact ⟨fits, below, List.suffix_rfl, whole⟩
    · simpa [Function.update_of_ne same] using inv.working other
  · exact inv.fits
  · exact inv.succeeded
  · obtain ⟨part, stream, holds⟩ := inv.stream
    refine ⟨part, stream, ?_⟩
    rcases holds with ⟨rfl, quiet⟩ |
      ⟨holder, held, left, sending, split, nonempty, alone⟩
    · exact .inl ⟨rfl, fun other => (outside other).not.2 (quiet other)⟩
    · have different : holder ≠ thread := by
        rintro rfl
        simp [found] at sending
      refine .inr ⟨holder, held, left, ?_, split, nonempty, ?_⟩
      · simpa [Function.update_of_ne different] using sending
      · exact fun other apart => (outside other).not.2 (alone other apart)
  · intro other
    by_cases same : other = thread
    · subst same
      have before := inv.order other
      simpa [SendThread.pending, found] using before
    · simpa [Function.update_of_ne same] using inv.order other

theorem Inv.send {todo : ι → List IpcMsg} {sys dst : SendSystem ι}
    (inv : Inv todo sys) (stepped : sys.step (.send thread n) = some dst)
    (alone : ∀ other, other ≠ thread → ¬(sys.threads other).MidFrame) :
    Inv todo dst := by
  obtain ⟨calls, msg, left, found, positive, ending⟩ :=
    step_send (inv.working thread) stepped
  have sending : (sys.threads thread).sending = some (msg, left) := by
    rw [found]
  obtain ⟨fits, below, suffix, _⟩ := inv.working thread msg left sending
  obtain ⟨part, stream, holds⟩ := inv.stream
  have whole := holds.append_left (inv.working thread) sending alone
  have before := inv.order thread
  rw [SendThread.pending, found] at before
  rcases ending with ⟨inside, rfl⟩ | ⟨last, rfl⟩
  · -- the frame goes on
    have rest : left.drop n ≠ [] := by
      apply List.length_pos_iff.1
      rw [List.length_drop]
      omega
    have taken : left.take n ≠ [] := by
      apply List.length_pos_iff.1
      rw [List.length_take]
      omega
    constructor
    · intro other
      by_cases same : other = thread
      · subst same
        intro held after eq
        obtain ⟨rfl, rfl⟩ : msg = held ∧ left.drop n = after := by
          simpa using eq
        exact ⟨fits, below, (List.drop_suffix n left).trans suffix, rest⟩
      · simpa [Function.update_of_ne same] using inv.working other
    · exact inv.fits
    · exact inv.succeeded
    · refine ⟨part ++ left.take n, ?_, .inr ⟨thread, msg, left.drop n, ?_⟩⟩
      · rw [stream, List.append_assoc, sent, sent]
      · refine ⟨by simp, ?_, by simp [taken], ?_⟩
        · rw [List.append_assoc, List.take_append_drop, whole]
        · intro other apart
          simpa [Function.update_of_ne apart] using alone other apart
    · intro other
      by_cases same : other = thread
      · subst same
        simpa [SendThread.pending] using before
      · simpa [Function.update_of_ne same] using inv.order other
  · -- the frame is complete
    constructor
    · intro other
      by_cases same : other = thread
      · subst same
        intro held after eq
        simp at eq
      · simpa [Function.update_of_ne same] using inv.working other
    · intro done member
      rw [sent, List.map_append, List.mem_append] at member
      rcases member with member | member
      · exact inv.fits done member
      · obtain rfl : done = msg := by simpa using member
        exact fits
    · intro ret member
      rcases List.mem_append.1 member with member | member
      · exact inv.succeeded ret member
      · obtain rfl := List.mem_singleton.1 member
        rfl
    · refine ⟨[], ?_, .inl ⟨rfl, ?_⟩⟩
      · rw [stream, List.append_assoc, whole, sent, sent]
        simp
      · intro other
        by_cases same : other = thread
        · subst same
          exact not_midFrame_none (by simp)
        · simpa [Function.update_of_ne same] using alone other same
    · intro other
      by_cases same : other = thread
      · subst same
        simpa [SendThread.pending, List.filter_append] using before
      · have apart : ¬thread = other := fun eq => same eq.symm
        simpa [Function.update_of_ne same, List.filter_append, apart] using
          inv.order other

theorem Inv.run {todo : ι → List IpcMsg} {sys : SendSystem ι}
    (run : Run step (Start todo) trace sys)
    (allowed : ∀ taken ∈ trace, Uninterrupted taken) : Inv todo sys := by
  refine run.invariant Uninterrupted (Inv todo) (fun _ => Inv.start) ?_ allowed
  intro src label dst inv stepped kept
  cases label with
  | call thread => exact inv.call stepped kept
  | send thread n => exact inv.send stepped kept

omit [DecidableEq ι] in
theorem Holds.short {sys : SendSystem ι} {part : Bytes}
    (holds : sys.Holds part)
    (working : ∀ thread, Working (sys.threads thread)) :
    ipcCode.Part part := by
  rcases holds with ⟨rfl, _⟩ | ⟨thread, msg, left, sending, whole, _, _⟩
  · exact .inl rfl
  · obtain ⟨fits, _, _, nonempty⟩ := working thread msg left sending
    refine .inr ⟨⟨msg, fits⟩, ⟨left, whole⟩, ?_⟩
    intro same
    have lengths := congrArg List.length (same.trans whole.symm)
    have := List.length_pos_iff.2 nonempty
    rw [List.length_append] at lengths
    omega

omit [DecidableEq ι] in
theorem Holds.quiet {sys : SendSystem ι} {part : Bytes} (holds : sys.Holds part)
    (quiet : ∀ thread, ¬(sys.threads thread).MidFrame) : part = [] := by
  rcases holds with ⟨none, _⟩ | ⟨thread, msg, left, sending, whole, some, _⟩
  · exact none
  · refine absurd ((midFrame_of_sending sending).2 ?_) (quiet thread)
    have := List.length_pos_iff.2 some
    rw [← whole, List.length_append]
    omega

/-- Between two frames the stream has what was sent. -/
theorem Inv.stream_quiet {todo : ι → List IpcMsg} {sys : SendSystem ι} (inv : Inv todo sys)
    (quiet : ∀ thread, ¬(sys.threads thread).MidFrame) :
    sys.stream = sys.sent.flatMap IpcMsg.frame := by
  obtain ⟨part, stream, holds⟩ := inv.stream
  rw [stream, holds.quiet quiet, List.append_nil]

/-- Threads that do not send into one another's frames put whole frames on the
stream, and the receiver decodes what they sent, each thread's messages in its
order. -/
theorem concurrent_sends_decode {todo : ι → List IpcMsg} {sys : SendSystem ι}
    (run : Run step (Start todo) trace sys)
    (allowed : ∀ taken ∈ trace, Uninterrupted taken) :
    ∃ part, sys.stream = sys.sent.flatMap IpcMsg.frame ++ part ∧
      ((∀ thread, ¬(sys.threads thread).MidFrame) → part = []) ∧
      ipcDecode sys.stream = (sys.sent, part) ∧
      (∀ ret ∈ sys.returned, ret.r = 0) ∧
      ∀ thread, todo thread =
        (sys.returned.filter fun ret => ret.thread = thread).map
            SendReturn.msg ++
          (sys.threads thread).pending := by
  have inv := Inv.run run allowed
  obtain ⟨part, stream, holds⟩ := inv.stream
  refine ⟨part, stream, holds.quiet, ?_, inv.succeeded, inv.order⟩
  rw [stream]
  exact ipcDecode_frames inv.fits (holds.short inv.working)

def twoSenders : SendSystem Bool where
  threads thread :=
    ⟨[{ type := 21, corrId := if thread then 1 else 2, payload := [] }], none⟩
  stream := []
  returned := []

theorem concurrent_sends_decode_twoSenders :
    ∃ trace sys, Run step (Start fun thread => (twoSenders.threads thread).calls)
        trace sys ∧ sys.returned.length = 2 ∧
      ∃ part, sys.stream = sys.sent.flatMap IpcMsg.frame ++ part ∧
        ((∀ thread, ¬(sys.threads thread).MidFrame) → part = []) ∧
        ipcDecode sys.stream = (sys.sent, part) ∧
        (∀ ret ∈ sys.returned, ret.r = 0) ∧
        ∀ thread, (twoSenders.threads thread).calls =
          (sys.returned.filter fun ret => ret.thread = thread).map
              SendReturn.msg ++
            (sys.threads thread).pending := by
  have outcome : (exec step [.call true, .send true 5, .call false,
      .send true 11, .send false 16] twoSenders).map
        (fun sys => sys.returned.length) = some 2 := by
    decide
  obtain ⟨sys, ran, both⟩ := Option.map_eq_some_iff.1 outcome
  have run : Run step (Start fun thread => (twoSenders.threads thread).calls)
      _ sys := .of_exec ⟨rfl, rfl, rfl⟩ ran
  exact ⟨_, sys, run, both, concurrent_sends_decode run (by decide)⟩

/-- The second thread sends its frame after the first byte of the other one. -/
theorem concurrent_sends_corrupt :
    ∃ trace sys, Run step (Start fun thread => (twoSenders.threads thread).calls)
        trace sys ∧
      (∀ thread, (sys.threads thread).pending = []) ∧
      sys.returned.map SendReturn.r = [0, 0] ∧
      (ipcDecode sys.stream).1 = [] ∧
      ¬∃ msgs : List IpcMsg, (∀ msg ∈ msgs, msg.Fits) ∧
        sys.stream = msgs.flatMap IpcMsg.frame := by
  have outcome : (exec step [.call true, .send true 1, .call false,
      .send false 16, .send true 15] twoSenders).map (fun sys =>
        (sys.stream.length, sys.returned.map SendReturn.r,
          (ipcDecode sys.stream).1,
          [true, false].map fun thread => (sys.threads thread).pending)) =
      some (32, [0, 0], [], [[], []]) := by
    decide
  obtain ⟨sys, ran, seen⟩ := Option.map_eq_some_iff.1 outcome
  have run : Run step (Start fun thread => (twoSenders.threads thread).calls)
      _ sys := .of_exec ⟨rfl, rfl, rfl⟩ ran
  simp only [Prod.mk.injEq, List.map_cons, List.map_nil, List.cons.injEq,
    and_true] at seen
  obtain ⟨length, returned, decoded, pendingTrue, pendingFalse⟩ := seen
  refine ⟨_, sys, run, ?_, returned, decoded, ?_⟩
  · intro thread
    cases thread
    · exact pendingFalse
    · exact pendingTrue
  · rintro ⟨msgs, fits, stream⟩
    have whole := ipcDecode_frames fits (.inl rfl)
    rw [List.append_nil, ← stream] at whole
    have none : msgs = [] := by
      rw [← decoded, whole]
    rw [stream, none] at length
    simp at length

end SendSystem

end FreeCli

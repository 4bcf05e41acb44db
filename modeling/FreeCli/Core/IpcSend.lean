import Mathlib.Logic.Function.Basic
import Mathlib.Data.List.Forall2
import FreeCli.Core.Ipc
import FreeCli.Library.Transition

namespace FreeCli

open Words Transition

/-! `ipc_send` over `net_send_all`. -/

/-- The bytes a system call is asked for when it is passed `(int)len`: a
negative `int` becomes a huge `size_t`, and the kernel stops at
`0x7ffff000`. -/
def asked (len : Nat) : Nat := min (len % 2 ^ 32) 0x7ffff000

theorem asked_le (len : Nat) : asked len ≤ len := by
  have low := Nat.mod_le len (2 ^ 32)
  rw [asked]
  omega

theorem asked_pos (some : 0 < len) (small : len < 2 ^ 32) : 0 < asked len := by
  rw [asked, Nat.mod_eq_of_lt small]
  omega

/-- `net_send_all` between two calls of `send()`. -/
inductive SendAll where
  | sending (left : Bytes)
  | returned (r : Int)
  deriving DecidableEq, Repr

/-- `while (len > 0)` -/
def netSendAll (left : Bytes) : SendAll :=
  if left.length > 0 then .sending left else .returned 0

/-- The loop body once `send()` has returned `n`. -/
def netSendRound (left : Bytes) (n : Int) : SendAll :=
  if n ≤ 0 then .returned (-1) else netSendAll (left.drop n.toNat)

/-- What `send()` may return: an error, or any non-empty prefix of what it is
asked to send. -/
def SendMay (left : Bytes) (n : Int) : Prop :=
  n = -1 ∨ 0 ≤ n ∧ n ≤ asked left.length ∧ (n = 0 → asked left.length = 0)

instance (left : Bytes) (n : Int) : Decidable (SendMay left n) :=
  inferInstanceAs (Decidable (_ ∨ _))

/-! ### One socket, one sender -/

/-- A whole run of `net_send_all` on the results of its `send()` calls: the
return value and the bytes the socket accepted.  `none` when they are not the
results of such a run. -/
def netSendRun : SendAll → List Int → Option (Int × Bytes)
  | .returned r, [] => some (r, [])
  | .sending left, n :: results =>
      if SendMay left n then
        (netSendRun (netSendRound left n) results).map fun sent =>
          (sent.1, left.take n.toNat ++ sent.2)
      else
        none
  | _, _ => none

structure SendCall where
  msg : IpcMsg
  /-- what `send()` returns, call by call -/
  results : List Int

structure Sent where
  msg : IpcMsg
  r : Int
  accepted : Bytes
  deriving DecidableEq, Repr

def ipcSend (call : SendCall) : Option Sent := do
  let frame ← ipcFrame call.msg
  let (r, accepted) ← netSendRun (netSendAll frame) call.results
  some { msg := call.msg, r, accepted }

/-- The results of the call are results of a run of its loop. -/
def SendCall.Possible (call : SendCall) : Prop :=
  (ipcFrame call.msg).all fun frame =>
    (netSendRun (netSendAll frame) call.results).isSome

instance (call : SendCall) : Decidable call.Possible :=
  inferInstanceAs (Decidable (_ = true))

def ipcSendCalls : List SendCall → Option (List Sent)
  | [] => some []
  | call :: calls => do
      let sent ← ipcSend call
      let sents ← ipcSendCalls calls
      some (sent :: sents)

def sentStream (sents : List Sent) : Bytes := sents.flatMap Sent.accepted

/-- What a run does with the first result of `send()`: it returns, or goes on with the
bytes that are left. -/
theorem netSendRun_cons (nonempty : bytes ≠ [])
    (ran : netSendRun (netSendAll bytes) (n :: results) = some (r, accepted)) :
    (n ≤ 0 ∧ r = -1 ∧ accepted = []) ∨
      (0 < n ∧ ∃ rest, netSendRun (netSendAll (bytes.drop n.toNat)) results = some (r, rest) ∧
        accepted = bytes.take n.toNat ++ rest) := by
  rw [netSendAll, if_pos (List.length_pos_iff.2 nonempty), netSendRun] at ran
  split at ran
  · obtain ⟨⟨ret, rest⟩, next, same⟩ := Option.map_eq_some_iff.1 ran
    obtain ⟨rfl, rfl⟩ := Prod.ext_iff.1 same
    rw [netSendRound] at next
    split at next
    next failed =>
      -- the loop returns, so no result is left
      obtain ⟨rfl, rfl, rfl⟩ : results = [] ∧ -1 = ret ∧ [] = rest := by
        cases results <;> simp_all [netSendRun]
      have none_taken : n.toNat = 0 := by omega
      exact .inl ⟨failed, rfl, by simp [none_taken]⟩
    next accepts => exact .inr ⟨by omega, rest, next, rfl⟩
  · contradiction

theorem netSendRun_spec (ran : netSendRun (netSendAll bytes) results =
      some (r, accepted)) :
    (r = 0 ∧ accepted = bytes ∧ ∀ n ∈ results, 0 < n) ∨
      (r = -1 ∧ accepted <+: bytes ∧ accepted ≠ bytes ∧
        ∃ n ∈ results, n ≤ 0) := by
  induction results generalizing bytes accepted with
  | nil =>
      by_cases empty : bytes.length > 0
      · simp [netSendAll, empty, netSendRun] at ran
      · obtain ⟨rfl, rfl⟩ : 0 = r ∧ [] = accepted := by
          simpa [netSendAll, empty, netSendRun] using ran
        have nothing : bytes = [] := List.length_eq_zero_iff.1 (by omega)
        exact .inl ⟨rfl, nothing.symm, by simp⟩
  | cons n results ih =>
      by_cases empty : bytes = []
      · simp [netSendAll, empty, netSendRun] at ran
      · rcases netSendRun_cons empty ran with ⟨failed, rfl, rfl⟩ | ⟨took, rest, next, rfl⟩
        · exact .inr ⟨rfl, List.nil_prefix, Ne.symm empty, n, List.mem_cons_self, failed⟩
        · rcases ih next with ⟨zero, all, positive⟩ | ⟨error, starts, differs, failure⟩
          · refine .inl ⟨zero, ?_, List.forall_mem_cons.2 ⟨took, positive⟩⟩
            rw [all, List.take_append_drop]
          · refine .inr ⟨error, ?_, ?_, ?_⟩
            · have longer := (List.prefix_append_right_inj
                (bytes.take n.toNat)).2 starts
              rwa [List.take_append_drop] at longer
            · intro same
              apply differs
              have both : bytes.take n.toNat ++ rest =
                  bytes.take n.toNat ++ bytes.drop n.toNat := by
                rw [List.take_append_drop]
                exact same
              exact List.append_cancel_left both
            · obtain ⟨result, member, failed⟩ := failure
              exact ⟨result, List.mem_cons_of_mem n member, failed⟩

def SendCall.FailsAtOnce (call : SendCall) : Prop :=
  ∃ n ∈ call.results.head?, n ≤ 0

instance (call : SendCall) : Decidable call.FailsAtOnce :=
  match found : call.results.head? with
  | none => isFalse (by simp [SendCall.FailsAtOnce, found])
  | some n =>
      if failed : n ≤ 0 then
        isTrue ⟨n, found, failed⟩
      else
        isFalse (by simpa [SendCall.FailsAtOnce, found] using failed)

theorem netSendRun_accepted_nil {bytes : Bytes} (nonempty : bytes ≠ [])
    (ran : netSendRun (netSendAll bytes) results = some (r, accepted)) :
    accepted = [] ↔ ∃ n ∈ results.head?, n ≤ 0 := by
  cases results with
  | nil =>
      have positive : bytes.length > 0 := List.length_pos_iff.2 nonempty
      simp [netSendAll, positive, netSendRun] at ran
  | cons n results =>
      rcases netSendRun_cons nonempty ran with ⟨failed, -, rfl⟩ | ⟨took, rest, -, rfl⟩
      · exact iff_of_true rfl ⟨n, rfl, failed⟩
      · have taken : n.toNat ≠ 0 := by omega
        simp [nonempty, taken, took]

/-- A call that returned either put its whole frame on the stream or failed
with a proper prefix of it there. -/
def Sent.Outcome (sent : Sent) : Prop :=
  sent.msg.Fits ∧
    ((sent.r = 0 ∧ sent.accepted = sent.msg.frame) ∨
      (sent.r = -1 ∧ sent.accepted <+: sent.msg.frame ∧
        sent.accepted ≠ sent.msg.frame))

theorem ipcSend_spec (sends : ipcSend call = some sent) :
    sent.Outcome ∧ (sent.r = -1 ↔ ∃ n ∈ call.results, n ≤ 0) ∧
      (sent.accepted = [] ↔ call.FailsAtOnce) := by
  obtain ⟨frame, framed, sends⟩ := Option.bind_eq_some_iff.1 sends
  obtain ⟨⟨r, accepted⟩, ran, same⟩ := Option.bind_eq_some_iff.1 sends
  obtain rfl := Option.some.inj same
  obtain ⟨fits, rfl⟩ := ipcFrame_eq_some.1 framed
  have nonempty : call.msg.frame ≠ [] :=
    List.length_pos_iff.1 call.msg.length_frame_pos
  refine ⟨⟨fits, ?_⟩, ?_, netSendRun_accepted_nil nonempty ran⟩
  · rcases netSendRun_spec ran with ⟨zero, all, _⟩ | ⟨error, starts, differs, _⟩
    · exact .inl ⟨zero, all⟩
    · exact .inr ⟨error, starts, differs⟩
  · rcases netSendRun_spec ran with ⟨zero, _, positive⟩ | ⟨error, _, _, failure⟩
    · simp only [zero]
      constructor
      · intro impossible
        omega
      · rintro ⟨n, member, failed⟩
        have := positive n member
        omega
    · simp only [error, true_iff]
      exact failure

theorem ipcSend_isSome (possible : call.Possible) (fits : call.msg.Fits) :
    ∃ sent, ipcSend call = some sent := by
  have framed : ipcFrame call.msg = some call.msg.frame :=
    ipcFrame_eq_some.2 ⟨fits, rfl⟩
  rw [SendCall.Possible, framed, Option.all_some] at possible
  obtain ⟨result, ran⟩ := Option.isSome_iff_exists.1 possible
  exact ⟨⟨call.msg, result.1, result.2⟩, by simp [ipcSend, framed, ran]⟩

theorem ipcSendCalls_eq_some : ipcSendCalls calls = some sents ↔
    List.Forall₂ (fun call sent => ipcSend call = some sent) calls sents := by
  induction calls generalizing sents with
  | nil => cases sents <;> simp [ipcSendCalls]
  | cons call calls ih =>
      cases sents with
      | nil => simp [ipcSendCalls, Option.bind_eq_some_iff]
      | cons sent sents => simp [ipcSendCalls, Option.bind_eq_some_iff, ih]

theorem ipcSendCalls_isSome (possible : ∀ call ∈ calls, call.Possible)
    (fits : ∀ call ∈ calls, call.msg.Fits) :
    ∃ sents, ipcSendCalls calls = some sents := by
  induction calls with
  | nil => exact ⟨[], rfl⟩
  | cons call calls ih =>
      obtain ⟨sent, sends⟩ := ipcSend_isSome (possible call (by simp))
        (fits call (by simp))
      obtain ⟨sents, rest⟩ := ih
        (fun later member => possible later (List.mem_cons_of_mem _ member))
        (fun later member => fits later (List.mem_cons_of_mem _ member))
      exact ⟨sent :: sents, by simp [ipcSendCalls, sends, rest]⟩

/-- No failed call leaves part of a frame in front of accepted bytes, and
the receiver decodes exactly the messages whose call returned 0. -/
structure Aligned (sents : List Sent) : Prop where
  noPrefix : sents.Pairwise fun failed later =>
    failed.r = -1 → failed.accepted = [] ∨ later.accepted = []
  decoded : (ipcDecode (sentStream sents)).1 =
    (sents.filter fun sent => sent.r = 0).map Sent.msg

/-- A call that fails does so at its first `send()`, or every later call
does. -/
def FailuresClean (calls : List SendCall) : Prop :=
  calls.Pairwise fun call later =>
    (∃ n ∈ call.results, n ≤ 0) → call.FailsAtOnce ∨ later.FailsAtOnce

instance (calls : List SendCall) : Decidable (FailuresClean calls) :=
  inferInstanceAs (Decidable (List.Pairwise _ calls))

private theorem forall_iff_of_forall₂ {R : α → β → Prop} {P : α → Prop}
    {Q : β → Prop} (same : ∀ a b, R a b → (P a ↔ Q b))
    (related : List.Forall₂ R as bs) : (∀ a ∈ as, P a) ↔ ∀ b ∈ bs, Q b := by
  induction related with
  | nil => simp
  | cons first rest ih =>
      rw [List.forall_mem_cons, List.forall_mem_cons, same _ _ first, ih]

private theorem pairwise_iff_of_forall₂ {R : α → β → Prop} {P : α → α → Prop}
    {Q : β → β → Prop}
    (same : ∀ a b a' b', R a b → R a' b' → (P a a' ↔ Q b b'))
    (related : List.Forall₂ R as bs) : as.Pairwise P ↔ bs.Pairwise Q := by
  induction related with
  | nil => simp
  | cons first rest ih =>
      rw [List.pairwise_cons, List.pairwise_cons, ih,
        forall_iff_of_forall₂ (fun a' b' => same _ _ a' b' first) rest]

theorem failuresClean_iff (sends : ipcSendCalls calls = some sents) :
    FailuresClean calls ↔ sents.Pairwise fun failed later =>
      failed.r = -1 → failed.accepted = [] ∨ later.accepted = [] := by
  refine pairwise_iff_of_forall₂ ?_ (ipcSendCalls_eq_some.1 sends)
  intro call sent later laterSent sends sendsLater
  obtain ⟨_, error, nothing⟩ := ipcSend_spec sends
  obtain ⟨_, _, nothingLater⟩ := ipcSend_spec sendsLater
  rw [error, nothing, nothingLater]

theorem sentStream_eq (outcomes : ∀ sent ∈ sents, Sent.Outcome sent)
    (noPrefix : sents.Pairwise fun failed later =>
      failed.r = -1 → failed.accepted = [] ∨ later.accepted = []) :
    ∃ part, ipcCode.Part part ∧ sentStream sents =
      ((sents.filter fun sent => sent.r = 0).map Sent.msg).flatMap
        IpcMsg.frame ++ part := by
  induction sents with
  | nil => exact ⟨[], .inl rfl, rfl⟩
  | cons sent sents ih =>
      obtain ⟨first, rest⟩ := List.pairwise_cons.1 noPrefix
      have later : ∀ next ∈ sents, Sent.Outcome next := fun next member =>
        outcomes next (List.mem_cons_of_mem _ member)
      obtain ⟨part, short, stream⟩ := ih later rest
      obtain ⟨fits, ⟨zero, all⟩ | ⟨error, starts, differs⟩⟩ :=
        outcomes sent (by simp)
      · refine ⟨part, short, ?_⟩
        rw [sentStream] at stream ⊢
        simp [zero, all, stream]
      · by_cases nothing : sent.accepted = []
        · refine ⟨part, short, ?_⟩
          rw [sentStream] at stream ⊢
          simp [error, nothing, stream]
        · -- nothing is accepted after the prefix, so no later call returned 0
          have silent : ∀ next ∈ sents, next.accepted = [] := fun next member =>
            (first next member error).resolve_left nothing
          have failed : ∀ next ∈ sents, next.r ≠ 0 := by
            intro next member zero
            obtain ⟨_, ⟨_, all⟩ | ⟨error, _, _⟩⟩ := later next member
            · have positive := next.msg.length_frame_pos
              rw [← all, silent next member] at positive
              exact absurd positive (by simp)
            · omega
          have nothingLater : sentStream sents = [] :=
            List.flatMap_eq_nil_iff.2 silent
          have noneLater : sents.filter (fun next => next.r = 0) = [] :=
            List.filter_eq_nil_iff.2 fun next member => by
              simpa using failed next member
          refine ⟨sent.accepted, .inr ⟨⟨sent.msg, fits⟩, starts, differs⟩, ?_⟩
          rw [sentStream] at nothingLater ⊢
          simp [error, nothingLater, noneLater]

theorem outcomes_of_sends (sends : ipcSendCalls calls = some sents) :
    ∀ sent ∈ sents, Sent.Outcome sent := by
  have related := ipcSendCalls_eq_some.1 sends
  clear sends
  induction related with
  | nil => simp
  | cons first rest ih =>
      exact List.forall_mem_cons.2 ⟨(ipcSend_spec first).1, ih⟩

theorem fits_of_sends (sends : ipcSendCalls calls = some sents) :
    ∀ call ∈ calls, call.msg.Fits := by
  have related := ipcSendCalls_eq_some.1 sends
  clear sends
  induction related with
  | nil => simp
  | cons first rest ih =>
      obtain ⟨frame, framed, _⟩ := Option.bind_eq_some_iff.1 first
      exact List.forall_mem_cons.2 ⟨(ipcFrame_eq_some.1 framed).1, ih⟩

theorem send_failure_aligned (calls : List SendCall)
    (possible : ∀ call ∈ calls, call.Possible) :
    (∃ sents, ipcSendCalls calls = some sents ∧ Aligned sents) ↔
      (∀ call ∈ calls, call.msg.Fits) ∧ FailuresClean calls := by
  constructor
  · rintro ⟨sents, sends, aligned⟩
    exact ⟨fits_of_sends sends, (failuresClean_iff sends).2 aligned.noPrefix⟩
  · rintro ⟨fits, clean⟩
    obtain ⟨sents, sends⟩ := ipcSendCalls_isSome possible fits
    have noPrefix := (failuresClean_iff sends).1 clean
    have outcomes := outcomes_of_sends sends
    obtain ⟨part, short, stream⟩ := sentStream_eq outcomes noPrefix
    refine ⟨sents, sends, noPrefix, ?_⟩
    rw [stream, ipcDecode_frames ?_ short]
    intro msg member
    obtain ⟨sent, kept, rfl⟩ := List.mem_map.1 member
    exact (outcomes sent (List.mem_filter.1 kept).1).1

/-- A full buffer stops the first message before its first byte. -/
def refusedCalls : List SendCall :=
  [{ msg := { type := 30, corrId := 1, payload := [] }, results := [-1] },
    { msg := { type := 30, corrId := 2, payload := [7] }, results := [3, 14] }]

theorem send_failure_aligned_refused :
    ∃ sents, ipcSendCalls refusedCalls = some sents ∧ Aligned sents :=
  (send_failure_aligned refusedCalls (by decide)).2 (by decide)

/-- One byte of the first frame is accepted, then the buffer is full; the
second message is sent whole. -/
def interruptedCalls : List SendCall :=
  [{ msg := { type := 30, corrId := 1, payload := [] }, results := [1, -1] },
    { msg := { type := 30, corrId := 2, payload := [] }, results := [16] }]

theorem send_failure_misaligned :
    (∀ call ∈ interruptedCalls, call.Possible ∧ call.msg.Fits) ∧
      (ipcSendCalls interruptedCalls).map (List.map Sent.r) = some [-1, 0] ∧
      (ipcSendCalls interruptedCalls).map
        (fun sents => (ipcDecode (sentStream sents)).1) = some [] ∧
      ¬∃ sents, ipcSendCalls interruptedCalls = some sents ∧ Aligned sents := by
  refine ⟨by decide, by decide, by decide, ?_⟩
  rintro ⟨sents, sends, aligned⟩
  have clean := (failuresClean_iff sends).2 aligned.noPrefix
  revert clean
  decide

end FreeCli

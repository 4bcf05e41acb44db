import FreeCli.Core.Ipc
import FreeCli.Core.IpcBounds
import FreeCli.Ui.CheckOutcome

namespace FreeCli

open Words Slots Guarded

/-! `check_ipc` on a message as `ipc_recv` delivers it: the payload is a block of
exactly the announced length, or NULL.  `none` is a read outside the payload or a
heap block, or an index outside the sessions. -/

def msgRepFinal : UInt32 := 10
def msgRepError : UInt32 := 11
def msgWorkerStart : UInt32 := 20
def msgWorkerEnd : UInt32 := 21
def msgSessionRename : UInt32 := 22
def msgWorkerRep : UInt32 := 31
def msgApprovalReq : UInt32 := 40

/-- The string behind a pointer, `null` for NULL. -/
def stringOr (null : Bytes) : Option Bytes → Option Bytes
  | none => some null
  | some block => cString block

def stringOrNull : Option Bytes → Option (Option Bytes)
  | none => some none
  | some block => (cString block).map some

/-- `(int)sidx < sm_count(&sessions) ? &sessions.sessions[sidx].chat :
sm_active_chat(&sessions)` -/
def SessionManager.chatAt (sm : SessionManager) (sidx asInt : Int) :
    Option (Option Nat) :=
  if asInt < sm.smCount then
    if 0 ≤ sidx ∧ sidx < sm.smCount then some (some sidx.toNat) else none
  else
    some sm.activeIndex

namespace Tui

variable (tui : Tui)

def checkRepFinal (msg : IpcMsg) (choices : List Bytes) : Option Tui := do
  let (ret, out) ← ipcDecodeRepFinal msg.payload ⟨0, none, none⟩
  if ret = 0 then
    let removed := inflightRemove tui.inFlight msg.corrId.toNat
    let realSidx := removed.1
    -- an `int` that is not negative survives the cast to `uint32_t` and back
    let sidx : Int := if realSidx ≥ 0 then realSidx else out.sessionIdx.toNat
    let asInt : Int :=
      if realSidx ≥ 0 then realSidx else out.sessionIdx.toInt32.toInt
    let tui := { tui with inFlight := removed.2 }
    match ← tui.sessions.chatAt sidx asInt with
    | none => some tui
    | some idx => do
        let content ← stringOr [] out.content
        let reasoning ← stringOrNull out.reasoning
        let text := if content ≠ [] then content else ascii "(no response)"
        let tui := tui.putReply idx fun cb => chatAddR cb text false reasoning
        some (tui.offerChoices asInt choices)
  else
    some tui

def checkRepError (msg : IpcMsg) : Option Tui :=
  let removed := inflightRemove tui.inFlight msg.corrId.toNat
  let sidx := removed.1
  let tui := { tui with inFlight := removed.2 }
  match tui.sessions.replyIndex sidx with
  | none => some tui
  | some idx => do
      let err ←
        if msg.payload ≠ [] then cString msg.payload else some (ascii "backend error")
      some (tui.putReply idx fun cb => chatAdd cb err false)

def checkWorkerStart (msg : IpcMsg) : Option Tui := do
  let (ret, out) ← ipcDecodeWorkerStart msg.payload ⟨0, none, none⟩
  if ret = 0 then do
    let parentSidx := inflightFindSidx tui.inFlight out.parentCorrId.toNat
    let sidx := if parentSidx ≥ 0 then parentSidx else tui.sessions.active
    let model ← stringOr (ascii "?") out.model
    let description ← stringOr [] out.description
    some { tui with
      inFlight := inflightAddSub tui.inFlight msg.corrId.toNat
        out.parentCorrId.toNat sidx model description }
  else
    some tui

def checkWorkerRep (msg : IpcMsg) : Option Tui := do
  let (ret, out) ← ipcDecodeWorkerRep msg.payload ⟨0, none⟩
  if ret = 0 then do
    let result ← stringOr [] out.result
    some (tui.workerRep (out.success ≠ 0) result)
  else
    some tui

def checkApprovalReq (msg : IpcMsg) : Option Tui := do
  let (ret, out) ← ipcDecodeApprovalReq msg.payload ⟨0, none⟩
  if ret = 0 then do
    let description ← stringOr (ascii "unknown operation") out.description
    some { tui with
      pendingApprovalCorr := out.reqCorrId.toNat
      pendingApprovalDesc := description.take 511 }
  else
    some tui

def checkSessionRename (msg : IpcMsg) : Option Tui := do
  let (ret, out) ← ipcDecodeSessionRename msg.payload ⟨0, none⟩
  if ret = 0 then do
    let topic ← stringOr [] out.topic
    let sidx := out.sessionIdx.toInt32.toInt
    match tui.sessions.smGet sidx with
    | none => some tui
    | some _ => some (tui.sessionRename sidx.toNat topic)
  else
    some tui

def checkIpcMsg (msg : IpcMsg) (choices : List Bytes) : Option Tui :=
  if msg.type = msgRepFinal ∧ msg.payload ≠ [] then tui.checkRepFinal msg choices
  else if msg.type = msgRepError then tui.checkRepError msg
  else if msg.type = msgWorkerStart ∧ msg.payload ≠ [] then
    tui.checkWorkerStart msg
  else if msg.type = msgWorkerEnd then some (tui.workerEnd msg.corrId.toNat)
  else if msg.type = msgWorkerRep ∧ msg.payload ≠ [] then tui.checkWorkerRep msg
  else if msg.type = msgApprovalReq ∧ msg.payload ≠ [] then
    tui.checkApprovalReq msg
  else if msg.type = msgSessionRename ∧ msg.payload ≠ [] then
    tui.checkSessionRename msg
  else some tui

end Tui

theorem toInt_toInt32 (word : UInt32) :
    word.toInt32.toInt =
      if word.toNat < 2 ^ 31 then (word.toNat : Int) else word.toNat - 2 ^ 32 := by
  have bits : word.toInt32.toInt = word.toBitVec.toInt := rfl
  rw [bits, BitVec.toInt_eq_toNat_cond]
  have size : word.toBitVec.toNat = word.toNat := rfl
  rw [size]
  split <;> split <;> omega

theorem Decoded.closed {strings : Out → List Bytes} {before : Out}
    (decoded : Decoded strings before result) (blank : strings before = []) :
    ∀ block ∈ strings result.2, 0 ∈ block := by
  intro block member
  cases decoded.terminated block member with
  | inl ended => exact ended
  | inr old => rw [blank] at old; contradiction

theorem ensures_stringOr {pointer : Option Bytes}
    (closed : ∀ block ∈ pointer.toList, (0 : UInt8) ∈ block) (null : Bytes) :
    Ensures (stringOr null pointer) fun _ => True := by
  cases pointer with
  | none => exact .pure trivial
  | some block =>
      exact (ensures_cString (closed block (by simp))).mono fun _ _ => trivial

theorem ensures_stringOrNull {pointer : Option Bytes}
    (closed : ∀ block ∈ pointer.toList, (0 : UInt8) ∈ block) :
    Ensures (stringOrNull pointer) fun _ => True := by
  cases pointer with
  | none => exact .pure trivial
  | some block =>
      obtain ⟨text, read, _⟩ := ensures_cString (closed block (by simp))
      exact ⟨some text, by rw [stringOrNull, read, Option.map_some], trivial⟩

namespace SessionManager

variable {sm : SessionManager}

theorem ensures_chatAt {sidx asInt : Int}
    (valid : asInt < sm.smCount → 0 ≤ sidx ∧ sidx < sm.smCount) :
    Ensures (sm.chatAt sidx asInt) fun _ => True := by
  rw [chatAt]
  apply Ensures.ite
  · intro small
    rw [if_pos (valid small)]
    exact .pure trivial
  · intro _
    exact .pure trivial

theorem replyIndex_lt {sm : SessionManager} (found : sm.replyIndex sidx = some idx) :
    idx < sm.smCount := by
  rw [replyIndex] at found
  split at found
  next inside =>
    obtain rfl := Option.some.inj found
    omega
  next => exact activeIndex_lt found

theorem eq_of_setChat_eq {sm : SessionManager} {f g : ChatBuffer → ChatBuffer}
    (inside : idx < sm.smCount) (same : sm.setChat idx f = sm.setChat idx g) :
    ∃ cb, f cb = g cb := by
  have there : sm.sessions[idx]? = some sm.sessions[idx] :=
    List.getElem?_eq_getElem inside
  have atIdx := congrArg (fun sm => sm.sessions[idx]?) same
  simp only [setChat, getElem?_setSession, if_true, there, Option.map_some,
    Option.some.injEq, Session.mk.injEq, true_and] at atIdx
  exact ⟨_, atIdx⟩

end SessionManager

namespace Tui

variable {tui : Tui}

/-- The session index in a final reply is not negative as an `int`, or not used. -/
def IndexUsable (tui : Tui) (msg : IpcMsg) (out : RepFinalOut) : Prop :=
  (inflightRemove tui.inFlight msg.corrId.toNat).1 ≥ 0 ∨ out.sessionIdx.toNat < 2 ^ 31

theorem index_inside (usable : tui.IndexUsable msg out) :
    (if (inflightRemove tui.inFlight msg.corrId.toNat).1 ≥ 0 then
        (inflightRemove tui.inFlight msg.corrId.toNat).1
      else out.sessionIdx.toInt32.toInt) < tui.sessions.smCount →
    0 ≤ (if (inflightRemove tui.inFlight msg.corrId.toNat).1 ≥ 0 then
        (inflightRemove tui.inFlight msg.corrId.toNat).1
      else (out.sessionIdx.toNat : Int)) ∧
    (if (inflightRemove tui.inFlight msg.corrId.toNat).1 ≥ 0 then
        (inflightRemove tui.inFlight msg.corrId.toNat).1
      else (out.sessionIdx.toNat : Int)) < tui.sessions.smCount := by
  have asInt := toInt_toInt32 out.sessionIdx
  intro small
  rw [IndexUsable] at usable
  split_ifs at small asInt ⊢ <;> omega

theorem checkRepFinal_inside (msg : IpcMsg) (choices : List Bytes)
    (short : msg.payload.length < 2 ^ 32)
    (usable : ∀ out, ipcDecodeRepFinal msg.payload ⟨0, none, none⟩ = some (0, out) →
      tui.IndexUsable msg out) :
    Ensures (tui.checkRepFinal msg choices) fun _ => True := by
  obtain ⟨⟨ret, out⟩, ran, decoded⟩ :=
    ipcDecodeRepFinal_inside short ⟨0, none, none⟩
  have closed := decoded.closed rfl
  have content : ∀ block ∈ out.content.toList, (0 : UInt8) ∈ block := fun block member =>
    closed block (List.mem_append_left _ member)
  have reasoning : ∀ block ∈ out.reasoning.toList, (0 : UInt8) ∈ block :=
    fun block member => closed block (List.mem_append_right _ member)
  rw [checkRepFinal, ran]
  apply Ensures.ite
  · intro success
    have index := usable out (success ▸ ran)
    apply Ensures.bind (SessionManager.ensures_chatAt (index_inside index))
    intro found _
    cases found with
    | none => exact .pure trivial
    | some idx =>
        apply Ensures.bind (ensures_stringOr content [])
        intro text _
        apply Ensures.bind (ensures_stringOrNull reasoning)
        intro thought _
        exact .pure trivial
  · intro _
    exact .pure trivial

theorem checkRepFinal_outside {msg : IpcMsg} {out : RepFinalOut}
    (room : tui.sessions.smCount ≤ maxSessions)
    (decoded : ipcDecodeRepFinal msg.payload ⟨0, none, none⟩ = some (0, out))
    (unusable : ¬tui.IndexUsable msg out) (choices : List Bytes) :
    tui.checkRepFinal msg choices = none := by
  rw [IndexUsable, not_or] at unusable
  obtain ⟨unknown, large⟩ := unusable
  have asInt := toInt_toInt32 out.sessionIdx
  have word := out.sessionIdx.toNat_lt
  rw [if_neg large] at asInt
  have outside : tui.sessions.chatAt out.sessionIdx.toNat
      out.sessionIdx.toInt32.toInt = none := by
    rw [maxSessions] at room
    rw [SessionManager.chatAt, if_pos (by omega), if_neg (by omega)]
  rw [checkRepFinal, decoded]
  simp only [Option.bind_eq_bind, Option.bind_some, if_neg unknown, outside,
    Option.bind_none, if_true]

theorem checkWorkerStart_inside (msg : IpcMsg)
    (short : msg.payload.length < 2 ^ 32) :
    Ensures (tui.checkWorkerStart msg) fun _ => True := by
  obtain ⟨⟨ret, out⟩, ran, decoded⟩ :=
    ipcDecodeWorkerStart_inside short ⟨0, none, none⟩
  have closed := decoded.closed rfl
  rw [checkWorkerStart, ran]
  apply Ensures.ite
  · intro _
    apply Ensures.bind (ensures_stringOr
      (fun block member => closed block (List.mem_append_left _ member)) _)
    intro model _
    apply Ensures.bind (ensures_stringOr
      (fun block member => closed block (List.mem_append_right _ member)) _)
    intro description _
    exact .pure trivial
  · intro _
    exact .pure trivial

theorem checkWorkerRep_inside (msg : IpcMsg)
    (short : msg.payload.length < 2 ^ 32) :
    Ensures (tui.checkWorkerRep msg) fun _ => True := by
  obtain ⟨⟨ret, out⟩, ran, decoded⟩ := ipcDecodeWorkerRep_inside short ⟨0, none⟩
  rw [checkWorkerRep, ran]
  apply Ensures.ite
  · intro _
    apply Ensures.bind (ensures_stringOr (decoded.closed rfl) _)
    intro result _
    exact .pure trivial
  · intro _
    exact .pure trivial

theorem checkApprovalReq_inside (msg : IpcMsg)
    (short : msg.payload.length < 2 ^ 32) :
    Ensures (tui.checkApprovalReq msg) fun _ => True := by
  obtain ⟨⟨ret, out⟩, ran, decoded⟩ := ipcDecodeApprovalReq_inside short ⟨0, none⟩
  rw [checkApprovalReq, ran]
  apply Ensures.ite
  · intro _
    apply Ensures.bind (ensures_stringOr (decoded.closed rfl) _)
    intro description _
    exact .pure trivial
  · intro _
    exact .pure trivial

theorem checkSessionRename_inside (msg : IpcMsg)
    (short : msg.payload.length < 2 ^ 32) :
    Ensures (tui.checkSessionRename msg) fun _ => True := by
  obtain ⟨⟨ret, out⟩, ran, decoded⟩ :=
    ipcDecodeSessionRename_inside short ⟨0, none⟩
  rw [checkSessionRename, ran]
  apply Ensures.ite
  · intro _
    apply Ensures.bind (ensures_stringOr (decoded.closed rfl) _)
    intro topic _
    cases found : tui.sessions.smGet out.sessionIdx.toInt32.toInt with
    | none => exact ⟨tui, by simp only [found], trivial⟩
    | some session =>
        exact ⟨tui.sessionRename out.sessionIdx.toInt32.toInt.toNat topic,
          by simp only [found], trivial⟩
  · intro _
    exact .pure trivial

def errorChat (tui : Tui) (msg : IpcMsg) : Option Nat :=
  tui.sessions.replyIndex (inflightRemove tui.inFlight msg.corrId.toNat).1

/-- An error shown as exactly the text in its payload. -/
def ErrorShown (tui : Tui) (msg : IpcMsg) (after : Tui) : Prop :=
  after.sessions =
    tui.sessions.settle (inflightRemove tui.inFlight msg.corrId.toNat).1
      { text := terminated msg.payload, isUser := false, reasoning := none
        placeholder := none }

theorem checkRepError_shows (msg : IpcMsg)
    (closed : tui.errorChat msg ≠ none → 0 ∈ msg.payload) :
    Ensures (tui.checkRepError msg) (tui.ErrorShown msg) := by
  rw [checkRepError]
  cases found : tui.errorChat msg with
  | none =>
      rw [errorChat] at found
      simp only [found]
      exact .pure (SessionManager.settle_none found _).symm
  | some idx =>
      have ended : 0 ∈ msg.payload := closed (by simp [found])
      have payload : msg.payload ≠ [] := List.ne_nil_of_mem ended
      rw [errorChat] at found
      simp only [found, if_pos payload]
      apply Ensures.bind (ensures_cString ended)
      rintro _ rfl
      exact .pure (SessionManager.settle_some found _).symm

theorem checkRepError_unterminated {msg : IpcMsg} {after : Tui}
    (found : tui.errorChat msg ≠ none) (open_ : 0 ∉ msg.payload)
    (checked : tui.checkRepError msg = some after) :
    ¬tui.ErrorShown msg after := by
  obtain ⟨idx, found⟩ := Option.ne_none_iff_exists'.1 found
  rw [errorChat] at found
  have inside := SessionManager.replyIndex_lt found
  rw [checkRepError] at checked
  simp only [found] at checked
  split at checked
  next =>
    rw [cString, if_neg open_] at checked
    contradiction
  next empty =>
    obtain rfl := Option.some.inj checked
    rw [ErrorShown, SessionManager.settle_some found]
    intro shown
    obtain ⟨cb, same⟩ := SessionManager.eq_of_setChat_eq
      (f := fun cb => chatAdd (chatRemoveLast cb) (ascii "backend error") false)
      inside shown
    have texts := congrArg (fun cb => cb.getLast?.map Message.text) same
    have payload : msg.payload = [] := Decidable.not_not.1 empty
    simp only [payload, chatAdd, terminated, List.getLast?_concat, Option.map_some,
      List.takeWhile_nil, Option.some.injEq] at texts
    exact absurd texts (by decide)

/-- Nothing outside the payload and the sessions is touched, and an error is shown
with the text of its payload. -/
def SafeOn (tui : Tui) (msg : IpcMsg) (choices : List Bytes) : Prop :=
  Ensures (tui.checkIpcMsg msg choices) fun after =>
    msg.type = msgRepError → tui.ErrorShown msg after

/-- An error text that is shown ends in a terminator, and the session index of a
final reply is one an `int` holds unless the request is still in flight. -/
structure WellFormed (tui : Tui) (msg : IpcMsg) : Prop where
  error : msg.type = msgRepError → tui.errorChat msg ≠ none → 0 ∈ msg.payload
  final : msg.type = msgRepFinal → ∀ out,
    ipcDecodeRepFinal msg.payload ⟨0, none, none⟩ = some (0, out) →
      tui.IndexUsable msg out

theorem WellFormed.safeOn {msg : IpcMsg} (formed : tui.WellFormed msg)
    (short : msg.payload.length < 2 ^ 32) (choices : List Bytes) :
    tui.SafeOn msg choices := by
  rw [SafeOn, checkIpcMsg]
  apply Ensures.ite
  · intro final
    apply (checkRepFinal_inside msg choices short (formed.final final.1)).mono
    intro after _ error
    exact absurd (final.1.symm.trans error) (by decide)
  intro _
  apply Ensures.ite
  · intro error
    exact (checkRepError_shows msg (formed.error error)).mono fun _ shown _ => shown
  intro other
  have settled : ∀ {run : Option Tui}, Ensures run (fun _ => True) →
      Ensures run fun after => msg.type = msgRepError → tui.ErrorShown msg after :=
    fun inside => inside.mono fun _ _ error => absurd error other
  apply Ensures.ite
  · intro _
    exact settled (checkWorkerStart_inside msg short)
  intro _
  apply Ensures.ite
  · intro _
    exact settled (.pure trivial)
  intro _
  apply Ensures.ite
  · intro _
    exact settled (checkWorkerRep_inside msg short)
  intro _
  apply Ensures.ite
  · intro _
    exact settled (checkApprovalReq_inside msg short)
  intro _
  apply Ensures.ite
  · intro _
    exact settled (checkSessionRename_inside msg short)
  · intro _
    exact settled (.pure trivial)

theorem SafeOn.wellFormed {msg : IpcMsg} {choices : List Bytes}
    (safe : tui.SafeOn msg choices) (room : tui.sessions.smCount ≤ maxSessions) :
    tui.WellFormed msg := by
  obtain ⟨after, checked, shown⟩ := safe
  constructor
  · intro error found
    rw [checkIpcMsg, if_neg (fun final => absurd (error.symm.trans final.1) (by decide)),
      if_pos error] at checked
    by_contra open_
    exact checkRepError_unterminated found open_ checked (shown error)
  · intro final out decoded
    have payload : msg.payload ≠ [] := by
      intro empty
      have failed : ipcDecodeRepFinal [] ⟨0, none, none⟩ = some (-1, ⟨0, none, none⟩) :=
        rfl
      rw [empty, failed] at decoded
      exact absurd (Prod.mk.inj (Option.some.inj decoded)).1 (by decide)
    rw [checkIpcMsg, if_pos ⟨final, payload⟩] at checked
    by_contra unusable
    rw [checkRepFinal_outside room decoded unusable] at checked
    contradiction

/-- `check_ipc` is safe on exactly the well-formed messages. -/
theorem check_ipc_safe (tui : Tui) (room : tui.sessions.smCount ≤ maxSessions)
    (msg : IpcMsg) (short : msg.payload.length < 2 ^ 32) (choices : List Bytes) :
    tui.SafeOn msg choices ↔ tui.WellFormed msg :=
  ⟨fun safe => safe.wellFormed room, fun formed => formed.safeOn short choices⟩

/-- What `handle_request` sends when no provider can be had. -/
def unterminatedError : IpcMsg :=
  { type := msgRepError, corrId := 1, payload := ascii "provider unavailable (check API keys)" }

/-- The same text with its terminator. -/
def terminatedError : IpcMsg :=
  { unterminatedError with payload := unterminatedError.payload ++ [0] }

theorem check_ipc_safe_unterminated :
    (fresh.SafeOn unterminatedError [] ↔ fresh.WellFormed unterminatedError) ∧
      fresh.SafeOn terminatedError [] := by
  have formed : fresh.WellFormed terminatedError :=
    ⟨fun _ _ => by decide, fun final => absurd final (by decide)⟩
  exact ⟨check_ipc_safe fresh (by decide) unterminatedError (by decide) [],
    (check_ipc_safe fresh (by decide) terminatedError (by decide) []).2 formed⟩

/-- The terminator is looked for behind the payload. -/
theorem check_ipc_unsafe :
    1 ≤ fresh.sessions.smCount ∧ ¬fresh.SafeOn unterminatedError [] := by
  refine ⟨by decide, ?_⟩
  rintro ⟨after, checked, _⟩
  have beyond : fresh.checkIpcMsg unterminatedError [] = none := by decide
  rw [beyond] at checked
  contradiction

end Tui

end FreeCli

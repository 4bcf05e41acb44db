import FreeCli.Library.Words

namespace FreeCli

open Words

/-! Chats and sessions: `chat.c` as far as the TUI uses it, and `session.c`.
Scroll positions and tool calls are left out; no chat of the TUI has tool
calls. -/

structure Message where
  text : Bytes
  isUser : Bool
  reasoning : Option Bytes
  /-- the request whose "..." placeholder this is; nothing reads it -/
  placeholder : Option Nat
  deriving DecidableEq, Repr

abbrev ChatBuffer := List Message

def chatAdd (cb : ChatBuffer) (text : Bytes) (isUser : Bool) : ChatBuffer :=
  cb ++ [{ text, isUser, reasoning := none, placeholder := none }]

/-- `reasoning && *reasoning` is kept. -/
def chatAddR (cb : ChatBuffer) (text : Bytes) (isUser : Bool)
    (reasoning : Option Bytes) : ChatBuffer :=
  cb ++ [{ text, isUser, placeholder := none
           reasoning := reasoning.filter fun bytes => bytes ≠ [] }]

/-- `chat_add(cb, "...", false)` for the request `corr`. -/
def chatAddPlaceholder (cb : ChatBuffer) (corr : Nat) : ChatBuffer :=
  cb ++ [{ text := ascii "...", isUser := false, reasoning := none
           placeholder := some corr }]

def chatRemoveLast (cb : ChatBuffer) : ChatBuffer := cb.dropLast

def maxSessions : Nat := 32

structure Session where
  id : Int
  name : Bytes
  chat : ChatBuffer
  deriving DecidableEq, Repr

structure SessionManager where
  sessions : List Session
  active : Int
  nextId : Int
  deriving DecidableEq, Repr

namespace SessionManager

variable (sm : SessionManager)

def smCount : Nat := sm.sessions.length

/-- The new session's index, or -1 when there is no room. -/
def smNewSession (name : Bytes) : Int × SessionManager :=
  if sm.smCount ≥ maxSessions then
    (-1, sm)
  else
    let idx : Int := sm.smCount
    (idx, {
      sessions := sm.sessions ++ [{ id := sm.nextId, name := name.take 63, chat := [] }]
      active := if sm.active = -1 then idx else sm.active
      nextId := sm.nextId + 1 })

/-- The index `sm_active_chat` and `sm_active_session` look at. -/
def activeIndex : Option Nat :=
  if sm.active < 0 ∨ sm.active ≥ sm.smCount then none else some sm.active.toNat

def smActiveSession : Option Session :=
  sm.activeIndex.bind fun idx => sm.sessions[idx]?

def smActiveChat : Option ChatBuffer := sm.smActiveSession.map Session.chat

def smSelect (index : Int) : SessionManager :=
  if index ≥ 0 ∧ index < sm.smCount then { sm with active := index } else sm

def smRemove (index : Int) : Int × SessionManager :=
  if index < 0 ∨ index ≥ sm.smCount then
    (sm.active, sm)
  else
    let sessions := sm.sessions.eraseIdx index.toNat
    let count : Int := sessions.length
    let active :=
      if count = 0 then -1
      else if sm.active > index then sm.active - 1
      else if sm.active = index then
        if index < count then index else count - 1
      else sm.active
    (active, { sm with sessions, active })

def smGet (index : Int) : Option Session :=
  if index < 0 ∨ index ≥ sm.smCount then none else sm.sessions[index.toNat]?

/-- Writes through a pointer to the session at `idx`. -/
def setSession (idx : Nat) (f : Session → Session) : SessionManager :=
  { sm with sessions := sm.sessions.modify idx f }

def setChat (idx : Nat) (f : ChatBuffer → ChatBuffer) : SessionManager :=
  sm.setSession idx fun session => { session with chat := f session.chat }

@[simp] theorem smCount_setSession (idx : Nat) (f : Session → Session) :
    (sm.setSession idx f).smCount = sm.smCount := by
  simp [setSession, smCount]

@[simp] theorem smCount_setChat (idx : Nat) (f : ChatBuffer → ChatBuffer) :
    (sm.setChat idx f).smCount = sm.smCount :=
  smCount_setSession _ _ _

@[simp] theorem active_setChat (idx : Nat) (f : ChatBuffer → ChatBuffer) :
    (sm.setChat idx f).active = sm.active := rfl

theorem getElem?_setSession (idx k : Nat) (f : Session → Session) :
    (sm.setSession idx f).sessions[k]? =
      if idx = k then sm.sessions[k]?.map f else sm.sessions[k]? := by
  rw [setSession, List.getElem?_modify]
  split
  · simp
  · simp

theorem smNewSession_opened {sm : SessionManager} (room : sm.smCount < maxSessions)
    (name : Bytes) :
    sm.smNewSession name = ((sm.smCount : Int),
      { sessions := sm.sessions ++ [{ id := sm.nextId, name := name.take 63, chat := [] }]
        active := if sm.active = -1 then (sm.smCount : Int) else sm.active
        nextId := sm.nextId + 1 }) :=
  if_neg (Nat.not_le.2 room)

theorem smNewSession_full {sm : SessionManager} (full : maxSessions ≤ sm.smCount)
    (name : Bytes) : sm.smNewSession name = (-1, sm) :=
  if_pos full

theorem activeIndex_lt {sm : SessionManager}
    (found : sm.activeIndex = some idx) : idx < sm.smCount := by
  rw [activeIndex] at found
  split at found
  next => contradiction
  next inside =>
    obtain rfl := Option.some.inj found
    omega

end SessionManager

end FreeCli

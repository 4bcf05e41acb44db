import FreeCli.Ui.Main
import FreeCli.Ui.SaveLoad

namespace FreeCli

open Words JsonText

/-! The end of `main`: every chat is released, then everything is saved. -/

/-- A chat in memory.  The messages are gone once they are released; the count
stays. -/
structure ChatMemory where
  msgs : Option (List Message)
  count : Nat

def ChatMemory.live (cb : ChatBuffer) : ChatMemory := { msgs := some cb, count := cb.length }

def chatFree (chat : ChatMemory) : ChatMemory := { chat with msgs := none }

/-- `cb->msgs[i]` -/
def ChatMemory.read (chat : ChatMemory) (i : Nat) : Option Message :=
  chat.msgs.bind fun msgs => msgs[i]?

structure SessionMemory where
  id : Int
  name : Bytes
  chat : ChatMemory

def SessionMemory.live (session : Session) : SessionMemory :=
  { id := session.id, name := session.name, chat := .live session.chat }

def SessionMemory.freed (session : Session) : SessionMemory :=
  { id := session.id, name := session.name, chat := chatFree (.live session.chat) }

/-- The session as `persist_save_session` reads it; `none` when it reads released
memory. -/
def SessionMemory.session (memory : SessionMemory) : Option Session :=
  ((List.range memory.chat.count).mapM memory.chat.read).map fun msgs =>
    { id := memory.id, name := memory.name, chat := msgs }

section Exit

variable (cjson : CJson) (dir : Bytes)

/-- `persist_save_all` over sessions in memory. -/
def saveMemory (sm : SessionManager) (memory : List SessionMemory) (files : Files) :
    Option Files :=
  memory.foldlM (fun files session => session.session.map (saveSession cjson dir files))
    (saveIndex cjson dir sm files)

/-- `main` after the event loop. -/
def exitMain (sm : SessionManager) (files : Files) : Option Files :=
  saveMemory cjson dir sm (sm.sessions.map SessionMemory.freed) files

variable {cjson dir}

theorem session_live (session : Session) :
    (SessionMemory.live session).session = some session := by
  have msgs : (List.range session.chat.length).mapM (ChatMemory.live session.chat).read =
      some session.chat :=
    Lists.mapM_range_getElem? session.chat
  rw [SessionMemory.session, SessionMemory.live, ChatMemory.live]
  exact congrArg _ msgs

theorem session_freed (session : Session) :
    (SessionMemory.freed session).session = if session.chat = [] then some session else none := by
  cases session with
  | mk id name chat =>
      cases chat with
      | nil => rfl
      | cons msg chat =>
          rw [if_neg (List.cons_ne_nil msg chat)]
          simp only [SessionMemory.session, SessionMemory.freed, chatFree, ChatMemory.live,
            List.length_cons, List.range_succ_eq_map, List.mapM_cons]
          rfl

theorem foldlM_saveSession {read : Session → SessionMemory} {sessions : List Session}
    (whole : ∀ session ∈ sessions, (read session).session = some session) (files : Files) :
    (sessions.map read).foldlM
        (fun files session => session.session.map (saveSession cjson dir files)) files =
      some (sessions.foldl (saveSession cjson dir) files) := by
  induction sessions generalizing files with
  | nil => rfl
  | cons session sessions ih =>
      rw [List.map_cons, List.foldlM_cons, whole session List.mem_cons_self]
      exact ih (fun other member => whole other (List.mem_cons_of_mem session member)) _

/-- Of chats that are still there the model of `persist.c` is what is saved. -/
theorem saveMemory_live (sm : SessionManager) (files : Files) :
    saveMemory cjson dir sm (sm.sessions.map SessionMemory.live) files =
      some (persistSaveAll cjson dir sm files) := by
  rw [persistSaveAll_eq]
  exact foldlM_saveSession (fun session _ => session_live session) _

theorem exitMain_empty {sm : SessionManager}
    (empty : ∀ session ∈ sm.sessions, session.chat = []) (files : Files) :
    exitMain cjson dir sm files = some (persistSaveAll cjson dir sm files) := by
  rw [persistSaveAll_eq]
  apply foldlM_saveSession
  intro session member
  rw [session_freed, if_pos (empty session member)]

theorem exitMain_message {sm : SessionManager} (member : session ∈ sm.sessions)
    (filled : session.chat ≠ []) (files : Files) : exitMain cjson dir sm files = none := by
  have unread : (SessionMemory.freed session).session = none := by
    rw [session_freed, if_neg filled]
  have stops (sessions : List Session) (inside : session ∈ sessions) (files : Files) :
      (sessions.map SessionMemory.freed).foldlM
        (fun files session => session.session.map (saveSession cjson dir files)) files =
          none := by
    induction sessions generalizing files with
    | nil => contradiction
    | cons head rest ih =>
        rw [List.map_cons, List.foldlM_cons]
        rcases List.mem_cons.1 inside with rfl | later
        · rw [unread]
          rfl
        · cases read : (SessionMemory.freed head).session with
          | none => rfl
          | some saved => exact ih later _
  exact stops sm.sessions member _

def Survives (cjson : CJson) (dir : Bytes) (sm : SessionManager) (files : Files) : Prop :=
  ∃ after, exitMain cjson dir sm files = some after ∧
    (persistLoad cjson dir after smInit).2.sessions = sm.sessions.map Session.content

theorem exit_survives (laws : cjson.RoundTrips) (fits : sm.Fits) (dir : Bytes) (files : Files) :
    Survives cjson dir sm files ↔ ∀ session ∈ sm.sessions, session.chat = [] := by
  constructor
  · rintro ⟨after, exits, _⟩ session member
    by_contra filled
    rw [exitMain_message member filled] at exits
    contradiction
  · intro empty
    refine ⟨_, exitMain_empty empty files, ?_⟩
    rw [persistLoad_indexJson laws (persistSaveAll_index ..) fits.room]
    apply List.map_congr_left
    intro session member
    obtain ⟨last, inside, same, holds⟩ := persistSaveAll_session cjson dir member files
    rw [fits.loaded laws member same holds, Session.content, empty session member,
      empty last inside]
    rfl

def submitted : SessionManager :=
  (Tui.fresh.inputKey Tui.newline ⟨ascii "hi", true, -1, []⟩).1.sessions

def emptyChats : SessionManager where
  sessions := [{ id := 4, name := ascii "trees", chat := [] },
    { id := 7, name := ascii "Chat 2", chat := [] }]
  active := 1
  nextId := 8

theorem exit_survives_new :
    Survives CJson.compact (ascii "data") emptyChats (fun _ => none) ∧
      (Survives CJson.compact (ascii "data") submitted (fun _ => none) ↔
        ∀ session ∈ submitted.sessions, session.chat = []) :=
  ⟨(exit_survives CJson.compact_roundTrips
      ⟨by decide, by decide, by decide, by decide⟩ _ _).2 (by decide),
    exit_survives CJson.compact_roundTrips
      ⟨by decide, by decide, by decide, by decide⟩ _ _⟩

theorem exit_loses_message :
    ¬Survives CJson.compact (ascii "data") submitted fun _ => none := by
  rintro ⟨after, exits, _⟩
  have member : submitted.sessions.head? = some
      { id := 1, name := ascii "Chat 1", chat :=
          [⟨ascii "hi", true, none, none⟩, ⟨ascii "...", false, none, some 1⟩] } := by
    decide
  rw [exitMain_message (List.mem_of_head? member) (List.cons_ne_nil _ _)] at exits
  contradiction

end Exit

end FreeCli

import FreeCli.Library.Json
import FreeCli.Library.Lists
import FreeCli.Ui.Tui

namespace FreeCli

open Words JsonText

/-! `persist.c`: the sessions in files.  File operations succeed. -/

/-- The parser and the printer of cJSON. -/
structure CJson where
  parse : CString → Option Json
  printUnformatted : Json → CString

/-- cJSON reads back what it prints, up to `CJSON_NESTING_LIMIT`. -/
structure CJson.RoundTrips (cjson : CJson) : Prop where
  empty : cjson.parse (CString.of []) = none
  undoes : ∀ json : Json, json.depth ≤ Json.nestingLimit →
    cjson.parse (cjson.printUnformatted json) = some json

/-- Compact texts and a parser for them. -/
def CJson.compact : CJson where
  parse text := Json.parse text.bytes
  printUnformatted json := ⟨json.print, json.nulFree_print⟩

theorem CJson.compact_roundTrips : CJson.compact.RoundTrips where
  empty := rfl
  undoes := Json.parse_print

/-- The contents of the files by path. -/
abbrev Files := Bytes → Option Bytes

/-! `dir` is the data directory throughout. -/

def indexPath (dir : Bytes) : Bytes := dir ++ ascii "/sessions.json"

def sessionPath (dir : Bytes) (id : Int) : Bytes :=
  dir ++ (ascii "/sessions/" ++ (decimal id ++ ascii ".json"))

/-- NULL for an empty file. -/
def readFile (files : Files) (path : Bytes) : Option CString :=
  match files path with
  | none => none
  | some bytes => if bytes = [] then none else some (CString.of bytes)

def writeFile (files : Files) (path : Bytes) (data : CString) : Files :=
  Function.update files path (some data.bytes)

def key (name : String) : CString := CString.of (ascii name)

def jsonInt (n : Int) : Json := .num (Int32.ofInt n)

def jsonString (text : Bytes) : Json := .str (CString.of text)

def indexEntry (session : Session) : Json :=
  .obj [(key "id", jsonInt session.id), (key "name", jsonString session.name)]

def indexJson (sm : SessionManager) : Json :=
  .obj [(key "next_id", jsonInt sm.nextId),
    (key "sessions", .arr (sm.sessions.map indexEntry))]

def roleName (isUser : Bool) : CString := key (if isUser then "user" else "assistant")

def messageJson (msg : Message) : Json :=
  .obj ([(key "role", .str (roleName msg.isUser)), (key "content", jsonString msg.text)] ++
    match msg.reasoning with
    | some reasoning =>
        if msg.isUser then [] else [(key "reasoning", jsonString reasoning)]
    | none => [])

def sessionJson (session : Session) : Json :=
  .obj [(key "id", jsonInt session.id), (key "name", jsonString session.name),
    (key "messages", .arr (session.chat.map messageJson))]

section Persist

variable (cjson : CJson) (dir : Bytes)

def saveIndex (sm : SessionManager) (files : Files) : Files :=
  writeFile files (indexPath dir) (cjson.printUnformatted (indexJson sm))

/-- The session's own file only; the index is left alone. -/
def persistSaveSession (sm : SessionManager) (idx : Int) (files : Files) : Files :=
  match sm.smGet idx with
  | none => files
  | some session =>
      writeFile files (sessionPath dir session.id)
        (cjson.printUnformatted (sessionJson session))

def persistSaveAll (sm : SessionManager) (files : Files) : Files :=
  (List.range sm.smCount).foldl
    (fun files (idx : Nat) => persistSaveSession cjson dir sm idx files)
    (saveIndex cjson dir sm files)

def persistDeleteSession (sessionId : Int) (files : Files) : Files :=
  Function.update files (sessionPath dir sessionId) none

/-- Messages without a role or a content are skipped. -/
def loadMessage (cb : ChatBuffer) (msg : Json) : ChatBuffer :=
  let role := (msg.getObjectItem (key "role")).bind Json.asString
  let content := (msg.getObjectItem (key "content")).bind Json.asString
  let reasoning := (msg.getObjectItem (key "reasoning")).bind Json.asString
  match role, content with
  | some role, some content =>
      chatAddR cb content.bytes (role = key "user") (reasoning.map CString.bytes)
  | _, _ => cb

def loadChat (files : Files) (id : Int) (cb : ChatBuffer) : ChatBuffer :=
  match (readFile files (sessionPath dir id)).bind cjson.parse with
  | none => cb
  | some root =>
      let msgs := (root.getObjectItem (key "messages")).elim [] Json.children
      msgs.foldl loadMessage cb

/-- The loop over the index; it ends early when the table is full. -/
def loadEntries (files : Files) : List Json → Nat → SessionManager →
    Nat × SessionManager
  | [], loaded, sm => (loaded, sm)
  | entry :: entries, loaded, sm =>
      let id := (entry.getObjectItem (key "id")).bind Json.asNumber
      let name := (entry.getObjectItem (key "name")).bind Json.asString
      match id, name with
      | some id, some name =>
          let opened := sm.smNewSession name.bytes
          if opened.1 < 0 then
            (loaded, sm)
          else
            let sm := opened.2.setSession opened.1.toNat fun session =>
              { session with
                id := id.toInt
                chat := loadChat cjson dir files id.toInt session.chat }
            loadEntries files entries (loaded + 1) sm
      | _, _ => loadEntries files entries loaded sm

/-- How many sessions were loaded, and the sessions. -/
def persistLoad (files : Files) (sm : SessionManager) : Nat × SessionManager :=
  match (readFile files (indexPath dir)).bind cjson.parse with
  | none => (0, sm)
  | some root =>
      let savedNextId :=
        ((root.getObjectItem (key "next_id")).bind Json.asNumber).elim 1 Int32.toInt
      let arr := (root.getObjectItem (key "sessions")).elim [] Json.children
      let loaded := loadEntries cjson dir files arr 0 sm
      (loaded.1, { loaded.2 with nextId := savedNextId })

end Persist

def smInit : SessionManager := { sessions := [], active := -1, nextId := 1 }

end FreeCli

import Mathlib
import FreeCli.Ui.Persist

namespace FreeCli

open Words JsonText

/-! What saving writes and what loading makes of it. -/

theorem decimal_injective {first second : Int} (same : decimal first = decimal second) :
    first = second :=
  Int.repr_injective (ascii_injective same)

theorem sessionPath_injective {dir : Bytes} {first second : Int}
    (same : sessionPath dir first = sessionPath dir second) : first = second := by
  have suffix := List.append_cancel_left (List.append_cancel_left same)
  exact decimal_injective (List.append_cancel_right suffix)

theorem sessionPath_ne_indexPath (dir : Bytes) (id : Int) :
    sessionPath dir id ≠ indexPath dir := by
  intro same
  have suffix := List.append_cancel_left same
  have ninth := congrArg (fun text : Bytes => text[9]?) suffix
  rw [List.getElem?_append_left (by decide)] at ninth
  exact absurd ninth (by decide)

def Holds (cjson : CJson) (files : Files) (path : Bytes) (json : Json) : Prop :=
  files path = some (cjson.printUnformatted json).bytes

def parsed (cjson : CJson) (files : Files) (path : Bytes) : Option Json :=
  (readFile files path).bind cjson.parse

theorem printUnformatted_ne_nil {cjson : CJson} (laws : cjson.RoundTrips) {json : Json}
    (shallow : json.depth ≤ Json.nestingLimit) : (cjson.printUnformatted json).bytes ≠ [] := by
  intro nothing
  have same : cjson.printUnformatted json = CString.of [] := by
    rw [← nothing, CString.of_bytes]
  have undone := laws.undoes json shallow
  rw [same, laws.empty] at undone
  contradiction

theorem parsed_of_holds {path : Bytes} (laws : cjson.RoundTrips)
    (shallow : json.depth ≤ Json.nestingLimit) (holds : Holds cjson files path json) :
    parsed cjson files path = some json := by
  have printed := printUnformatted_ne_nil laws shallow
  have read : readFile files path = some (cjson.printUnformatted json) := by
    simp only [readFile, Holds] at holds ⊢
    simp only [holds, if_neg printed, CString.of_bytes]
  rw [parsed, read]
  exact laws.undoes json shallow

theorem parsed_of_absent (cjson : CJson) {path : Bytes} (absent : files path = none) :
    parsed cjson files path = none := by
  simp only [parsed, readFile, absent, Option.bind_none]

theorem holds_writeFile (files : Files) (path : Bytes) (json : Json) :
    Holds cjson (writeFile files path (cjson.printUnformatted json)) path json :=
  Function.update_self ..

theorem writeFile_other {path read : Bytes} (other : read ≠ path) (files : Files)
    (data : CString) : writeFile files path data read = files read :=
  Function.update_of_ne other ..

theorem depth_messageJson (msg : Message) : (messageJson msg).depth ≤ 1 := by
  apply Json.depth_obj_le
  intro field member
  rcases List.mem_append.1 member with member | member
  · simp only [List.mem_cons, List.not_mem_nil, or_false] at member
    rcases member with rfl | rfl
    · exact Nat.le_refl 0
    · exact Nat.le_refl 0
  · split at member
    · split at member
      · contradiction
      · obtain rfl := List.mem_singleton.1 member
        exact Nat.le_refl 0
    · contradiction

theorem depth_indexEntry (session : Session) : (indexEntry session).depth ≤ 1 := by
  apply Json.depth_obj_le
  intro field member
  simp only [List.mem_cons, List.not_mem_nil, or_false] at member
  rcases member with rfl | rfl
  · exact Nat.le_refl 0
  · exact Nat.le_refl 0

theorem depth_rows {Row : Type} {rowJson : Row → Json} (flat : ∀ row, (rowJson row).depth ≤ 1)
    (rows : List Row) : (Json.arr (rows.map rowJson)).depth ≤ 2 := by
  apply Json.depth_arr_le
  intro item member
  obtain ⟨row, _, rfl⟩ := List.mem_map.1 member
  exact flat row

theorem depth_indexJson (sm : SessionManager) : (indexJson sm).depth ≤ Json.nestingLimit := by
  have three : (indexJson sm).depth ≤ 2 + 1 := by
    apply Json.depth_obj_le
    intro field member
    simp only [List.mem_cons, List.not_mem_nil, or_false] at member
    rcases member with rfl | rfl
    · exact Nat.zero_le 2
    · exact depth_rows depth_indexEntry sm.sessions
  exact three.trans (by decide)

theorem depth_sessionJson (session : Session) :
    (sessionJson session).depth ≤ Json.nestingLimit := by
  have three : (sessionJson session).depth ≤ 2 + 1 := by
    apply Json.depth_obj_le
    intro field member
    simp only [List.mem_cons, List.not_mem_nil, or_false] at member
    rcases member with rfl | rfl | rfl
    · exact Nat.zero_le 2
    · exact Nat.zero_le 2
    · exact depth_rows depth_messageJson session.chat
  exact three.trans (by decide)

/-! ### Loading what was saved -/

/-- A message as loading finds it again. -/
def Message.saved (msg : Message) : Message where
  text := terminated msg.text
  isUser := msg.isUser
  reasoning :=
    if msg.isUser then none
    else (msg.reasoning.map terminated).filter fun bytes => bytes ≠ []
  placeholder := none

theorem roleName_eq_user (isUser : Bool) : decide (roleName isUser = key "user") = isUser := by
  cases isUser with
  | false => decide
  | true => decide

theorem loadMessage_messageJson (cb : ChatBuffer) (msg : Message) :
    loadMessage cb (messageJson msg) = cb ++ [msg.saved] := by
  have role : (messageJson msg).getObjectItem (key "role") = some (.str (roleName msg.isUser)) := by
    rw [messageJson, List.cons_append, Json.getObjectItem_cons, if_pos rfl]
  have content : (messageJson msg).getObjectItem (key "content") = some (jsonString msg.text) := by
    rw [messageJson, List.cons_append, Json.getObjectItem_cons, if_neg (by decide),
      List.cons_append, Json.getObjectItem_cons, if_pos rfl]
  have reasoning : (messageJson msg).getObjectItem (key "reasoning") =
      if msg.isUser then none else msg.reasoning.map jsonString := by
    rw [messageJson, List.cons_append, Json.getObjectItem_cons, if_neg (by decide),
      List.cons_append, Json.getObjectItem_cons, if_neg (by decide), List.nil_append]
    cases msg.reasoning with
    | none => exact (ite_self none).symm
    | some reasoning =>
        cases msg.isUser with
        | false => exact (Json.getObjectItem_cons ..).trans (if_pos rfl)
        | true => rfl
  have loaded : loadMessage cb (messageJson msg) =
      chatAddR cb (terminated msg.text) (roleName msg.isUser = key "user")
        (if msg.isUser then none else msg.reasoning.map terminated) := by
    simp only [loadMessage, role, content, reasoning, Option.bind_some, Json.asString, jsonString]
    congr 1
    cases msg.reasoning with
    | none => simp
    | some reasoning =>
        cases msg.isUser with
        | false => rfl
        | true => rfl
  rw [loaded, chatAddR, roleName_eq_user, Message.saved]
  cases msg.isUser with
  | false => rfl
  | true => rfl

theorem foldl_loadMessage (chat cb : ChatBuffer) :
    (chat.map messageJson).foldl loadMessage cb = cb ++ chat.map Message.saved := by
  induction chat generalizing cb with
  | nil => simp
  | cons msg chat ih =>
      rw [List.map_cons, List.foldl_cons, loadMessage_messageJson, ih, List.append_assoc]
      rfl

/-- A session of the index as loading finds it, with what its file holds now. -/
def Session.loaded (cjson : CJson) (dir : Bytes) (files : Files) (session : Session) :
    Session where
  id := (Int32.ofInt session.id).toInt
  name := (terminated session.name).take 63
  chat := loadChat cjson dir files (Int32.ofInt session.id).toInt []

def SessionManager.extended (sm : SessionManager) (sessions : List Session) :
    SessionManager where
  sessions := sm.sessions ++ sessions
  active := if sm.active = -1 ∧ sessions ≠ [] then sm.smCount else sm.active
  nextId := sm.nextId + sessions.length

theorem smNewSession_room {sm : SessionManager} (room : sm.smCount < maxSessions)
    (name : Bytes) :
    sm.smNewSession name =
      ((sm.smCount : Int),
        sm.extended [{ id := sm.nextId, name := name.take 63, chat := [] }]) := by
  rw [SessionManager.smNewSession_opened room]
  simp [SessionManager.extended]

theorem extended_nil (sm : SessionManager) : sm.extended [] = sm := by
  simp [SessionManager.extended]

theorem extended_extended (sm : SessionManager) (first second : List Session) :
    (sm.extended first).extended second = sm.extended (first ++ second) := by
  cases first with
  | nil => rw [extended_nil, List.nil_append]
  | cons session first =>
      have set : (sm.extended (session :: first)).active ≠ -1 := by
        simp only [SessionManager.extended]
        split
        next => omega
        next unset => exact fun same => unset ⟨same, List.cons_ne_nil _ _⟩
      have active : ((sm.extended (session :: first)).extended second).active =
          (sm.extended (session :: first)).active := if_neg fun unset => set unset.1
      rw [SessionManager.extended] at active ⊢
      simp only at active
      rw [active]
      simp only [SessionManager.extended, List.append_assoc, List.length_append]
      congr 1
      · simp
      · omega

theorem setSession_extended (sm : SessionManager) (session : Session)
    (f : Session → Session) :
    (sm.extended [session]).setSession sm.smCount f = sm.extended [f session] := by
  have last : (sm.sessions ++ [session]).modify sm.smCount f = sm.sessions ++ [f session] := by
    rw [List.modify_eq_take_drop]
    simp [SessionManager.smCount]
  simp [SessionManager.setSession, SessionManager.extended, last]

theorem loadEntries_indexEntry (cjson : CJson) (dir : Bytes) (files : Files)
    (sessions : List Session) (loaded : Nat) (sm : SessionManager)
    (room : sm.smCount + sessions.length ≤ maxSessions) :
    loadEntries cjson dir files (sessions.map indexEntry) loaded sm =
      (loaded + sessions.length,
        sm.extended (sessions.map (Session.loaded cjson dir files))) := by
  induction sessions generalizing loaded sm with
  | nil => simp [loadEntries, SessionManager.extended]
  | cons session sessions ih =>
      have id : (indexEntry session).getObjectItem (key "id") = some (jsonInt session.id) := by
        rw [indexEntry, Json.getObjectItem_cons, if_pos rfl]
      have name : (indexEntry session).getObjectItem (key "name") =
          some (jsonString session.name) := by
        rw [indexEntry, Json.getObjectItem_cons, if_neg (by decide), Json.getObjectItem_cons,
          if_pos rfl]
      rw [List.map_cons, loadEntries]
      simp only [id, name, Option.bind_some, jsonInt, jsonString, Json.asNumber, Json.asString]
      rw [List.length_cons] at room
      have here : sm.smCount < maxSessions := by omega
      have there : ¬((sm.smCount : Int) < 0) := by omega
      simp only [smNewSession_room here, if_neg there, Int.toNat_natCast, setSession_extended]
      have count (added : Session) : (sm.extended [added]).smCount = sm.smCount + 1 := by
        simp [SessionManager.extended, SessionManager.smCount]
      rw [ih _ _ (by rw [count]; omega), extended_extended]
      congr 1
      rw [List.length_cons]
      omega

theorem loadChat_sessionJson (laws : cjson.RoundTrips)
    (holds : Holds cjson files (sessionPath dir session.id) (sessionJson session))
    (cb : ChatBuffer) :
    loadChat cjson dir files session.id cb = cb ++ session.chat.map Message.saved := by
  have tree := parsed_of_holds laws (depth_sessionJson session) holds
  rw [parsed] at tree
  have messages : (sessionJson session).getObjectItem (key "messages") =
      some (.arr (session.chat.map messageJson)) := by
    rw [sessionJson, Json.getObjectItem_cons, if_neg (by decide), Json.getObjectItem_cons,
      if_neg (by decide), Json.getObjectItem_cons, if_pos rfl]
  simp only [loadChat, tree, messages, Option.elim, Json.children]
  exact foldl_loadMessage session.chat cb

theorem persistLoad_indexJson (laws : cjson.RoundTrips)
    (holds : Holds cjson files (indexPath dir) (indexJson sm)) (room : sm.smCount ≤ maxSessions) :
    persistLoad cjson dir files smInit =
      (sm.smCount,
        { smInit.extended (sm.sessions.map (Session.loaded cjson dir files)) with
          nextId := (Int32.ofInt sm.nextId).toInt }) := by
  have tree := parsed_of_holds laws (depth_indexJson sm) holds
  rw [parsed] at tree
  have nextId : (indexJson sm).getObjectItem (key "next_id") = some (jsonInt sm.nextId) := by
    rw [indexJson, Json.getObjectItem_cons, if_pos rfl]
  have sessions : (indexJson sm).getObjectItem (key "sessions") =
      some (.arr (sm.sessions.map indexEntry)) := by
    rw [indexJson, Json.getObjectItem_cons, if_neg (by decide), Json.getObjectItem_cons,
      if_pos rfl]
  have fits : smInit.smCount + sm.sessions.length ≤ maxSessions := by
    have empty : smInit.smCount = 0 := rfl
    rw [empty, Nat.zero_add]
    exact room
  simp only [persistLoad, tree, nextId, sessions, Option.bind_some, Option.elim, jsonInt,
    Json.asNumber, Json.children, loadEntries_indexEntry cjson dir files _ _ _ fits,
    Nat.zero_add, SessionManager.smCount]

/-! ### What saving writes -/

def saveSession (cjson : CJson) (dir : Bytes) (files : Files) (session : Session) : Files :=
  Function.update files (sessionPath dir session.id)
    (some (cjson.printUnformatted (sessionJson session)).bytes)

theorem smGet_natCast (sm : SessionManager) (idx : Nat) : sm.smGet idx = sm.sessions[idx]? := by
  rw [SessionManager.smGet]
  split
  next outside =>
    symm
    apply List.getElem?_eq_none
    rw [SessionManager.smCount] at outside
    omega
  next => rfl

theorem persistSaveAll_eq (cjson : CJson) (dir : Bytes) (sm : SessionManager)
    (files : Files) :
    persistSaveAll cjson dir sm files =
      sm.sessions.foldl (saveSession cjson dir) (saveIndex cjson dir sm files) := by
  have loop := Lists.foldl_range_getElem?
    (fun files session? => session?.elim files (saveSession cjson dir files))
    sm.sessions (saveIndex cjson dir sm files)
  simp only [Option.elim_some] at loop
  rw [persistSaveAll, ← loop]
  apply List.foldl_ext
  intro files idx _
  rw [persistSaveSession, smGet_natCast]
  cases sm.sessions[idx]? with
  | none => rfl
  | some session => rfl

theorem persistSaveAll_index (cjson : CJson) (dir : Bytes) (sm : SessionManager)
    (files : Files) :
    Holds cjson (persistSaveAll cjson dir sm files) (indexPath dir) (indexJson sm) := by
  have untouched : ∀ session ∈ sm.sessions, sessionPath dir session.id ≠ indexPath dir :=
    fun session _ => sessionPath_ne_indexPath dir session.id
  rw [Holds, persistSaveAll_eq]
  exact (Lists.foldl_update_other _ _ untouched _).trans (holds_writeFile ..)

/-- Of sessions with one id the last is kept. -/
theorem persistSaveAll_session (cjson : CJson) (dir : Bytes) {sm : SessionManager}
    {session : Session} (member : session ∈ sm.sessions) (files : Files) :
    ∃ last ∈ sm.sessions, last.id = session.id ∧
      Holds cjson (persistSaveAll cjson dir sm files) (sessionPath dir session.id)
        (sessionJson last) := by
  obtain ⟨last, inside, path, holds⟩ := Lists.foldl_update_mem
    (fun session : Session => sessionPath dir session.id)
    (fun session => some (cjson.printUnformatted (sessionJson session)).bytes)
    member (saveIndex cjson dir sm files)
  refine ⟨last, inside, sessionPath_injective path, ?_⟩
  rw [Holds, persistSaveAll_eq]
  exact holds

/-! ### Save, then load -/

def IsInt (n : Int) : Prop := -2 ^ 31 ≤ n ∧ n < 2 ^ 31

instance (n : Int) : Decidable (IsInt n) := inferInstanceAs (Decidable (_ ∧ _))

theorem isInt_toInt (n : Int32) : IsInt n.toInt := ⟨n.le_toInt, n.toInt_lt⟩

structure Message.Storable (msg : Message) : Prop where
  text : 0 ∉ msg.text
  reasoning : ∀ bytes ∈ msg.reasoning, 0 ∉ bytes ∧ bytes ≠ [] ∧ msg.isUser = false

/-- The C type holds the value. -/
structure SessionManager.Fits (sm : SessionManager) : Prop where
  room : sm.smCount ≤ maxSessions
  ids : ∀ session ∈ sm.sessions, IsInt session.id
  nextId : IsInt sm.nextId
  names : ∀ session ∈ sm.sessions, 0 ∉ session.name ∧ session.name.length ≤ 63

structure SessionManager.Storable (sm : SessionManager) : Prop extends sm.Fits where
  distinct : (sm.sessions.map Session.id).Nodup
  chats : ∀ session ∈ sm.sessions, ∀ msg ∈ session.chat, msg.Storable

/-- The message without the note whose placeholder it is. -/
def Message.content (msg : Message) : Message := { msg with placeholder := none }

def Session.content (session : Session) : Session :=
  { session with chat := session.chat.map Message.content }

theorem Message.Storable.saved {msg : Message} (storable : msg.Storable) :
    msg.saved = msg.content := by
  have text := terminated_of_nulFree storable.text
  cases msg with
  | mk text isUser reasoning placeholder =>
      cases reasoning with
      | none => simp_all [Message.saved, Message.content]
      | some bytes =>
          obtain ⟨nulFree, filled, user⟩ := storable.reasoning bytes rfl
          simp_all [Message.saved, Message.content, terminated_of_nulFree nulFree]

theorem toInt_ofInt (isInt : IsInt n) : (Int32.ofInt n).toInt = n :=
  Int32.toInt_ofInt_of_le isInt.1 isInt.2

theorem SessionManager.Fits.loaded {sm : SessionManager} {session last : Session}
    {cjson : CJson} {dir : Bytes} {files : Files} (fits : sm.Fits) (laws : cjson.RoundTrips)
    (member : session ∈ sm.sessions) (same : last.id = session.id)
    (holds : Holds cjson files (sessionPath dir session.id) (sessionJson last)) :
    session.loaded cjson dir files =
      { session with chat := last.chat.map Message.saved } := by
  have name := fits.names session member
  rw [Session.loaded, toInt_ofInt (fits.ids session member), ← same,
    loadChat_sessionJson laws (same ▸ holds), List.nil_append,
    terminated_of_nulFree name.1, List.take_of_length_le name.2]

theorem SessionManager.Storable.loaded {sm : SessionManager} {session : Session}
    {cjson : CJson} {dir : Bytes} (storable : sm.Storable) (laws : cjson.RoundTrips)
    (files : Files) (member : session ∈ sm.sessions) :
    session.loaded cjson dir (persistSaveAll cjson dir sm files) = session.content := by
  obtain ⟨last, inside, same, holds⟩ := persistSaveAll_session cjson dir member files
  obtain rfl := List.inj_on_of_nodup_map storable.distinct inside member same
  have chat : last.chat.map Message.saved = last.chat.map Message.content := by
    apply List.map_congr_left
    intro msg here
    exact (storable.chats last member msg here).saved
  rw [storable.toFits.loaded laws member rfl holds, chat, Session.content]

theorem persistLoad_persistSaveAll (laws : cjson.RoundTrips) (storable : sm.Storable)
    (dir : Bytes) (files : Files) :
    persistLoad cjson dir (persistSaveAll cjson dir sm files) smInit =
      (sm.smCount,
        { sessions := sm.sessions.map Session.content
          active := if sm.sessions = [] then -1 else 0
          nextId := sm.nextId }) := by
  have sessions : sm.sessions.map (Session.loaded cjson dir
      (persistSaveAll cjson dir sm files)) = sm.sessions.map Session.content := by
    apply List.map_congr_left
    intro session member
    exact storable.loaded laws files member
  rw [persistLoad_indexJson laws (persistSaveAll_index ..) storable.room, sessions,
    toInt_ofInt storable.nextId]
  congr 2
  cases sm.sessions with
  | nil => rfl
  | cons session rest => rfl

/-- Two sessions, one with a question, its answer and an open request. -/
def twoSessions : SessionManager where
  sessions := [
    { id := 4, name := ascii "Chat 1", chat := [
        ⟨ascii "hi", true, none, none⟩, ⟨ascii "Hello!", false, some (ascii "greet"), none⟩,
        ⟨ascii "more", true, none, none⟩, ⟨ascii "...", false, none, some 2⟩] },
    { id := 7, name := ascii "#7 trees", chat := [] }]
  active := 1
  nextId := 8

theorem twoSessions_storable : twoSessions.Storable where
  room := by decide
  distinct := by decide
  ids := by decide
  nextId := by decide
  names := by decide
  chats := by
    have plain : ∀ session ∈ twoSessions.sessions, ∀ msg ∈ session.chat,
        0 ∉ msg.text ∧ ∀ bytes ∈ msg.reasoning,
          0 ∉ bytes ∧ bytes ≠ [] ∧ msg.isUser = false := by decide
    intro session member msg inside
    have checked := plain session member msg inside
    exact ⟨checked.1, checked.2⟩

theorem persistLoad_persistSaveAll_two :
    persistLoad CJson.compact (ascii "data")
        (persistSaveAll CJson.compact (ascii "data") twoSessions fun _ => none) smInit =
      (2,
        { sessions := twoSessions.sessions.map Session.content
          active := 0
          nextId := 8 }) :=
  persistLoad_persistSaveAll CJson.compact_roundTrips twoSessions_storable _ _

end FreeCli

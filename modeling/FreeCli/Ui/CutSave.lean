import FreeCli.Library.JsonPrefix
import FreeCli.Ui.SaveLoad

namespace FreeCli

open Words JsonText

/-! A save that is cut short: any of its files may not be opened, or get only a part of
its text. -/

/-- cJSON does not take a part of the text of an object for a tree. -/
structure CJson.RejectsParts (cjson : CJson) : Prop where
  unread : ∀ (fields : List (CString × Json)) (front back : Bytes),
    (Json.obj fields).depth ≤ Json.nestingLimit →
    (cjson.printUnformatted (.obj fields)).bytes = front ++ back → back ≠ [] →
      cjson.parse (CString.of front) = none

theorem CJson.compact_rejectsParts : CJson.compact.RejectsParts where
  unread fields front back shallow split short := by
    have nulFree : 0 ∉ front := by
      intro member
      have inside : 0 ∈ (Json.obj fields).print := by
        rw [show (Json.obj fields).print = front ++ back from split]
        exact List.mem_append_left _ member
      exact Json.nulFree_print _ inside
    have whole : (CString.of front).bytes = front := terminated_of_nulFree nulFree
    have none_ := Json.parse_front shallow split short
    rw [← whole] at none_
    exact none_

/-- `write_file` when `reached` bytes get into the file; `none` when it is not opened. -/
def cutWrite (files : Files) (path : Bytes) (data : CString) (reached : Option Nat) : Files :=
  match reached with
  | none => files
  | some n => Function.update files path (some (data.bytes.take n))

section CutSave

variable (cjson : CJson) (dir : Bytes)

def cutSession (reached : Nat → Option Nat) (files : Files) (row : Session × Nat) : Files :=
  cutWrite files (sessionPath dir row.1.id) (cjson.printUnformatted (sessionJson row.1))
    (reached (row.2 + 1))

/-- `persist_save_all`; `reached` numbers its writes, the index first. -/
def cutSaveAll (sm : SessionManager) (reached : Nat → Option Nat) (files : Files) : Files :=
  sm.sessions.zipIdx.foldl (cutSession cjson dir reached)
    (cutWrite files (indexPath dir) (cjson.printUnformatted (indexJson sm)) (reached 0))

/-- The file holds a part of the text only. -/
def LeftCut (files : Files) (path : Bytes) (json : Json) : Prop :=
  ∃ n, n < (cjson.printUnformatted json).bytes.length ∧
    files path = some ((cjson.printUnformatted json).bytes.take n)

/-- The file of session `id` is left with a part of what `sm` has for it. -/
def SessionCut (files : Files) (sm : SessionManager) (id : Int) : Prop :=
  ∃ own ∈ sm.sessions, own.id = id ∧ LeftCut cjson files (sessionPath dir id) (sessionJson own)

variable {cjson dir} {sm : SessionManager} {reached : Nat → Option Nat} {files : Files}

/-! ### A save that is not cut -/

theorem cutWrite_whole {data : CString} (enough : data.bytes.length ≤ n) (path : Bytes) :
    cutWrite files path data (some n) = writeFile files path data := by
  rw [cutWrite, List.take_of_length_le enough]
  rfl

theorem cutWrite_self (files : Files) (path : Bytes) (data : CString) (n : Nat) :
    cutWrite files path data (some n) path = some (data.bytes.take n) :=
  Function.update_self ..

theorem cutWrite_other {path read : Bytes} (other : read ≠ path) (files : Files)
    (data : CString) (reached : Option Nat) :
    cutWrite files path data reached read = files read := by
  cases reached with
  | none => rfl
  | some n => exact Function.update_of_ne other ..

def Whole (reached : Nat → Option Nat) (k : Nat) (data : CString) : Prop :=
  ∃ n, reached k = some n ∧ data.bytes.length ≤ n

theorem cutSaveAll_whole (index : Whole reached 0 (cjson.printUnformatted (indexJson sm)))
    (sessions : ∀ k session, sm.sessions[k]? = some session →
      Whole reached (k + 1) (cjson.printUnformatted (sessionJson session))) :
    cutSaveAll cjson dir sm reached files = persistSaveAll cjson dir sm files := by
  obtain ⟨n, reaches, enough⟩ := index
  have rows : sm.sessions.zipIdx.foldl (cutSession cjson dir reached)
      (saveIndex cjson dir sm files) =
      sm.sessions.zipIdx.foldl (fun files row => saveSession cjson dir files row.1)
        (saveIndex cjson dir sm files) := by
    apply List.foldl_ext
    intro files row member
    obtain ⟨n, reaches, enough⟩ := sessions row.2 row.1 (List.mem_zipIdx_iff_getElem?.1 member)
    rw [cutSession, reaches, cutWrite_whole enough]
    rfl
  rw [cutSaveAll, reaches, cutWrite_whole enough, persistSaveAll_eq]
  refine rows.trans ?_
  rw [← List.foldl_map, List.zipIdx_map_fst]

/-! ### What the files hold -/

theorem take_cases {path : Bytes} (json : Json) {n : Nat}
    (file : files path = some ((cjson.printUnformatted json).bytes.take n)) :
    LeftCut cjson files path json ∨ Holds cjson files path json := by
  by_cases short : n < (cjson.printUnformatted json).bytes.length
  · exact .inl ⟨n, short, file⟩
  · right
    rw [Holds, file, List.take_of_length_le (Nat.not_lt.1 short)]

theorem parsed_leftCut {path : Bytes} {fields : List (CString × Json)}
    (rejects : cjson.RejectsParts) (shallow : (Json.obj fields).depth ≤ Json.nestingLimit)
    (cut : LeftCut cjson files path (.obj fields)) : parsed cjson files path = none := by
  obtain ⟨n, short, file⟩ := cut
  rw [parsed, readFile, file]
  simp only
  split
  · rfl
  · refine rejects.unread fields _ _ shallow (List.take_append_drop n _).symm fun all => ?_
    rw [List.drop_eq_nil_iff] at all
    omega

theorem cutSessions_file (rows : List (Session × Nat)) (path : Bytes) :
    rows.foldl (cutSession cjson dir reached) files path = files path ∨
      ∃ row ∈ rows, sessionPath dir row.1.id = path ∧ ∃ n,
        rows.foldl (cutSession cjson dir reached) files path =
          some ((cjson.printUnformatted (sessionJson row.1)).bytes.take n) := by
  induction rows generalizing files with
  | nil => exact .inl rfl
  | cons row rows ih =>
      rw [List.foldl_cons]
      rcases @ih (cutSession cjson dir reached files row) with
        same | ⟨later, member, own, n, wrote⟩
      · rw [same, cutSession]
        by_cases own : path = sessionPath dir row.1.id
        · cases reached (row.2 + 1) with
          | none => exact .inl rfl
          | some n =>
              rw [own]
              exact .inr ⟨row, List.mem_cons_self, rfl, n, cutWrite_self ..⟩
        · exact .inl (cutWrite_other own ..)
      · exact .inr ⟨later, List.mem_cons_of_mem row member, own, n, wrote⟩

theorem cutSaveAll_index : cutSaveAll cjson dir sm reached files (indexPath dir) =
    cutWrite files (indexPath dir) (cjson.printUnformatted (indexJson sm)) (reached 0)
      (indexPath dir) := by
  rcases cutSessions_file sm.sessions.zipIdx (indexPath dir) with same | ⟨row, _, own, _⟩
  · exact same
  · exact absurd own (sessionPath_ne_indexPath dir row.1.id)

theorem cutSaveAll_index_cases {old : SessionManager}
    (index : Holds cjson files (indexPath dir) (indexJson old)) :
    Holds cjson (cutSaveAll cjson dir sm reached files) (indexPath dir) (indexJson old) ∨
      LeftCut cjson (cutSaveAll cjson dir sm reached files) (indexPath dir) (indexJson sm) ∨
      Holds cjson (cutSaveAll cjson dir sm reached files) (indexPath dir) (indexJson sm) := by
  have written : cutSaveAll cjson dir sm reached files (indexPath dir) = _ := cutSaveAll_index
  cases first : reached 0 with
  | none =>
      rw [first] at written
      exact .inl (written.trans index)
  | some n =>
      rw [first, cutWrite_self] at written
      exact .inr (take_cases (indexJson sm) written)

theorem loadChat_unread {id : Int} (unread : parsed cjson files (sessionPath dir id) = none)
    (cb : ChatBuffer) : loadChat cjson dir files id cb = cb := by
  rw [parsed] at unread
  simp only [loadChat, unread]

theorem persistLoad_unread (unread : parsed cjson files (indexPath dir) = none)
    (sm : SessionManager) : persistLoad cjson dir files sm = (0, sm) := by
  rw [parsed] at unread
  simp only [persistLoad, unread]

theorem SessionManager.Fits.listed {session : Session} (laws : cjson.RoundTrips)
    (fits : sm.Fits) (index : Holds cjson files (indexPath dir) (indexJson sm))
    (member : session ∈ sm.sessions) :
    ∃ loaded ∈ (persistLoad cjson dir files smInit).2.sessions, loaded.id = session.id ∧
      loaded.name = session.name ∧ loaded.chat = loadChat cjson dir files session.id [] := by
  have id := toInt_ofInt (fits.ids session member)
  have name := fits.names session member
  refine ⟨session.loaded cjson dir files, ?_, id, ?_, ?_⟩
  · rw [persistLoad_indexJson laws index fits.room]
    exact List.mem_append_right _ (List.mem_map_of_mem member)
  · rw [Session.loaded, terminated_of_nulFree name.1, List.take_of_length_le name.2]
  · rw [Session.loaded, id]

theorem SessionCut.unread {id : Int} (rejects : cjson.RejectsParts)
    (cut : SessionCut cjson dir files sm id) : loadChat cjson dir files id [] = [] := by
  obtain ⟨own, -, -, left⟩ := cut
  exact loadChat_unread (parsed_leftCut rejects (depth_sessionJson own) left) []

variable (cjson dir reached) in
/-- The messages of a session of `old` after a save by `new` that did not cut its file. -/
theorem loadChat_cutSaveAll (laws : cjson.RoundTrips) (old new : SessionManager)
    {session : Session} (member : session ∈ old.sessions) (start : Files) :
    let files := cutSaveAll cjson dir new reached (persistSaveAll cjson dir old start)
    ¬SessionCut cjson dir files new session.id →
      ∃ own ∈ old.sessions ++ new.sessions, own.id = session.id ∧
        loadChat cjson dir files session.id [] = own.chat.map Message.saved := by
  intro files uncut
  have whole (own : Session) (same : own.id = session.id)
      (holds : Holds cjson files (sessionPath dir session.id) (sessionJson own)) :
      loadChat cjson dir files session.id [] = own.chat.map Message.saved := by
    rw [← same] at holds ⊢
    exact loadChat_sessionJson laws holds []
  rcases cutSessions_file new.sessions.zipIdx (sessionPath dir session.id) with
    same | ⟨row, inside, path, n, wrote⟩
  · obtain ⟨last, inside, id, holds⟩ := persistSaveAll_session cjson dir member start
    refine ⟨last, List.mem_append_left _ inside, id, whole last id ?_⟩
    refine same.trans ((cutWrite_other ?_ ..).trans holds)
    exact sessionPath_ne_indexPath dir session.id
  · have id := sessionPath_injective path
    have listed : row.1 ∈ new.sessions :=
      List.mem_of_getElem? (List.mem_zipIdx_iff_getElem?.1 inside)
    rcases take_cases (sessionJson row.1) wrote with cut | holds
    · exact absurd ⟨row.1, listed, id, cut⟩ uncut
    · exact ⟨row.1, List.mem_append_right _ listed, id, whole row.1 id holds⟩

/-- After a save that is cut short everything is loaded with old or new names and old or
new messages, except that an index left cut lists nothing and a session whose own file is
left cut has no messages. -/
theorem cut_save_load (laws : cjson.RoundTrips) (rejects : cjson.RejectsParts)
    {old new : SessionManager} (oldFits : old.Fits) (newFits : new.Fits) (dir : Bytes)
    (start : Files) (reached : Nat → Option Nat) :
    let files := cutSaveAll cjson dir new reached (persistSaveAll cjson dir old start)
    (LeftCut cjson files (indexPath dir) (indexJson new) →
      persistLoad cjson dir files smInit = (0, smInit)) ∧
    (¬LeftCut cjson files (indexPath dir) (indexJson new) →
      ∀ before ∈ old.sessions, ∀ after ∈ new.sessions, before.id = after.id →
        ∃ loaded ∈ (persistLoad cjson dir files smInit).2.sessions, loaded.id = after.id ∧
          (loaded.name = before.name ∨ loaded.name = after.name) ∧
          (SessionCut cjson dir files new after.id → loaded.chat = []) ∧
          (¬SessionCut cjson dir files new after.id →
            ∃ own ∈ old.sessions ++ new.sessions, own.id = after.id ∧
              loaded.chat = own.chat.map Message.saved)) := by
  intro files
  refine ⟨fun cut =>
    persistLoad_unread (parsed_leftCut rejects (depth_indexJson new) cut) smInit, fun uncut => ?_⟩
  intro before member after listed same
  have chats := loadChat_cutSaveAll cjson dir reached laws old new member start
  rw [same] at chats
  rcases cutSaveAll_index_cases (persistSaveAll_index cjson dir old start) with
    oldIndex | cut | newIndex
  · obtain ⟨loaded, inside, id, name, chat⟩ := oldFits.listed laws oldIndex member
    rw [same] at id chat
    refine ⟨loaded, inside, id, .inl name, fun cut => ?_, fun left => ?_⟩
    · rw [chat]
      exact cut.unread rejects
    · rw [chat]
      exact chats left
  · exact absurd cut uncut
  · obtain ⟨loaded, inside, id, name, chat⟩ := newFits.listed laws newIndex listed
    refine ⟨loaded, inside, id, .inr name, fun cut => ?_, fun left => ?_⟩
    · rw [chat]
      exact cut.unread rejects
    · rw [chat]
      exact chats left

end CutSave

/-- `twoSessions` after a message in the second session, which got a name. -/
def spokenSessions : SessionManager where
  sessions := twoSessions.sessions.set 1
    { id := 7, name := ascii "Oaks", chat := [⟨ascii "oaks?", true, none, none⟩] }
  active := 1
  nextId := 8

theorem spokenSessions_fits : spokenSessions.Fits :=
  ⟨by decide, by decide, by decide, by decide⟩

/-- The first session gets five bytes, the second all of its text, and no other file is
opened. -/
def firstCut (k : Nat) : Option Nat := if k = 1 then some 5 else if k = 2 then some 99 else none

def firstCutFiles : Files :=
  cutSaveAll CJson.compact (ascii "data") spokenSessions firstCut
    (persistSaveAll CJson.compact (ascii "data") twoSessions fun _ => none)

theorem cut_save_load_first :
    (persistLoad CJson.compact (ascii "data") firstCutFiles smInit).2.sessions.length = 2 ∧
    ∀ before ∈ twoSessions.sessions, ∀ after ∈ spokenSessions.sessions, before.id = after.id →
      ∃ loaded ∈ (persistLoad CJson.compact (ascii "data") firstCutFiles smInit).2.sessions,
        loaded.id = after.id ∧ (loaded.name = before.name ∨ loaded.name = after.name) ∧
        (SessionCut CJson.compact (ascii "data") firstCutFiles spokenSessions after.id →
          loaded.chat = []) ∧
        (¬SessionCut CJson.compact (ascii "data") firstCutFiles spokenSessions after.id →
          ∃ own ∈ twoSessions.sessions ++ spokenSessions.sessions, own.id = after.id ∧
            loaded.chat = own.chat.map Message.saved) := by
  have two : (persistLoad CJson.compact (ascii "data") firstCutFiles smInit).2.sessions.length =
      2 := by
    decide +kernel
  have loads := cut_save_load CJson.compact_roundTrips CJson.compact_rejectsParts
    twoSessions_storable.toFits spokenSessions_fits (ascii "data") (fun _ => none) firstCut
  rw [← firstCutFiles] at loads
  obtain ⟨nothing, both⟩ := loads
  refine ⟨two, both fun left => ?_⟩
  rw [nothing left] at two
  exact absurd two (by decide)

/-- The index is opened, and nothing is written. -/
def killed (k : Nat) : Option Nat := if k = 0 then some 0 else none

theorem killed_loads_nothing {cjson : CJson} (laws : cjson.RoundTrips)
    (rejects : cjson.RejectsParts) (dir : Bytes) (sm : SessionManager) (files : Files) :
    persistLoad cjson dir (cutSaveAll cjson dir sm killed files) smInit = (0, smInit) := by
  have written : cutSaveAll cjson dir sm killed files (indexPath dir) = _ := cutSaveAll_index
  have printed := printUnformatted_ne_nil laws (depth_indexJson sm)
  exact persistLoad_unread (parsed_leftCut rejects (depth_indexJson sm)
    ⟨0, List.length_pos_of_ne_nil printed, written.trans (cutWrite_self ..)⟩) smInit

/-- All sessions are lost. -/
theorem cut_save_loses : ¬∀ (cjson : CJson) (old new : SessionManager) (dir : Bytes)
    (start : Files) (reached : Nat → Option Nat), cjson.RoundTrips → cjson.RejectsParts →
    old.Fits → new.Fits → ∀ before ∈ old.sessions, ∀ after ∈ new.sessions,
      before.id = after.id → ∃ loaded ∈ (persistLoad cjson dir (cutSaveAll cjson dir new reached
        (persistSaveAll cjson dir old start)) smInit).2.sessions, loaded.id = after.id ∧
        (loaded.name = before.name ∨ loaded.name = after.name) ∧
        (loaded.chat = before.chat.map Message.saved ∨
          loaded.chat = after.chat.map Message.saved) := by
  intro kept
  have first : twoSessions.sessions[0] ∈ twoSessions.sessions := List.getElem_mem _
  obtain ⟨loaded, inside, _⟩ := kept CJson.compact twoSessions twoSessions (ascii "data")
    (fun _ => none) killed CJson.compact_roundTrips CJson.compact_rejectsParts
    twoSessions_storable.toFits twoSessions_storable.toFits _ first _ first rfl
  rw [killed_loads_nothing CJson.compact_roundTrips CJson.compact_rejectsParts] at inside
  exact absurd inside (List.not_mem_nil)

end FreeCli

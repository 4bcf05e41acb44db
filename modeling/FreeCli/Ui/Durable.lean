import FreeCli.Library.Transition
import FreeCli.Ui.SaveLoad
import FreeCli.Ui.SessionRuns

namespace FreeCli

open Words JsonText Transition

/-! The TUI over its data directory, through any number of processes: what a kill
leaves behind. -/

structure Store where
  tui : Tui
  files : Files

inductive StoreEvent where
  | key (ch : Nat) (env : KeyEnv)
  | message (msg : ToTui) (beyond : Bytes) (choices : List Bytes)
  | dropConnection
  /-- the process is killed and the program started again -/
  | kill
  /-- the end of `main`, and the next start; `scribbled` is what the released chats
  make of the session files -/
  | quit (scribbled : Files)

section Store

variable (cjson : CJson) (dir : Bytes)

def boot (files : Files) : Store := { tui := startUp cjson dir files, files }

/-- Beyond the limit of `int` the run ends: `next_id` overflows. -/
def Store.counted (store : Store) : Option Store :=
  if IsInt store.tui.sessions.nextId then some store else none

def storeStep (store : Store) : StoreEvent → Option Store
  | .key ch env =>
      if store.tui.running then
        let after := (store.tui.mainKey ch env).1
        Store.counted
          { tui := after
            files := saveFiles cjson dir after.sessions (store.tui.mainKeySaves ch env)
              store.files }
      else
        none
  | .message msg beyond choices =>
      if store.tui.running ∧ store.tui.ipcOpen then
        let after := store.tui.checkIpc msg beyond choices
        Store.counted
          { tui := after
            files := saveFiles cjson dir after.sessions (store.tui.checkIpcSaves msg)
              store.files }
      else
        none
  | .dropConnection =>
      if store.tui.running then
        some { store with tui := store.tui.dropConnection }
      else
        none
  | .kill => some (boot cjson dir store.files)
  | .quit scribbled =>
      if store.tui.running then none
      else some (boot cjson dir (saveIndex cjson dir store.tui.sessions scribbled))

def FirstStart (store : Store) : Prop := store = boot cjson dir fun _ => none

def Listed (sm : SessionManager) (files : Files) : Prop :=
  files (indexPath dir) = none ∨
    ∃ saved : SessionManager, saved.ids = sm.ids ∧
      Holds cjson files (indexPath dir) (indexJson saved)

structure Store.Good (store : Store) : Prop where
  tabled : store.tui.Tabled
  ids : ∀ id ∈ store.tui.sessions.ids, IsInt id
  nextId : IsInt store.tui.sessions.nextId
  listed : Listed cjson dir store.tui.sessions store.files

def Durable (files : Files) (id : Int) (reply : Message) : Prop :=
  ∃ session ∈ (persistLoad cjson dir files smInit).2.sessions,
    session.id = id ∧ session.chat.getLast? = some reply

variable {cjson dir}

/-! ### Saves and the index -/

theorem persistSaveSession_index (sm : SessionManager) (idx : Int) (files : Files) :
    persistSaveSession cjson dir sm idx files (indexPath dir) = files (indexPath dir) := by
  rw [persistSaveSession]
  cases sm.smGet idx with
  | none => rfl
  | some session => exact writeFile_other (sessionPath_ne_indexPath dir session.id).symm _ _

theorem save_index (sm : SessionManager) (save : Save) (files : Files) :
    save.run cjson dir sm files (indexPath dir) = files (indexPath dir) ∨
      Holds cjson (save.run cjson dir sm files) (indexPath dir) (indexJson sm) := by
  cases save with
  | all => exact .inr (persistSaveAll_index cjson dir sm files)
  | session idx => exact .inl (persistSaveSession_index sm idx files)
  | delete id => exact .inl (Function.update_of_ne (sessionPath_ne_indexPath dir id).symm _ _)

theorem saveFiles_index (cjson : CJson) (dir : Bytes) (sm : SessionManager)
    (saves : List Save) (files : Files) :
    saveFiles cjson dir sm saves files (indexPath dir) = files (indexPath dir) ∨
      Holds cjson (saveFiles cjson dir sm saves files) (indexPath dir) (indexJson sm) := by
  induction saves generalizing files with
  | nil => exact .inl rfl
  | cons save saves ih =>
      rcases ih (save.run cjson dir sm files) with same | holds
      · rcases save_index sm save files with kept | saved
        · exact .inl (same.trans kept)
        · exact .inr (same.trans saved)
      · exact .inr holds

theorem Listed.of_all (saves : List Save) (sm : SessionManager) (files : Files) :
    Listed cjson dir sm (saveFiles cjson dir sm (saves ++ [.all]) files) := by
  refine .inr ⟨sm, rfl, ?_⟩
  rw [saveFiles, List.foldl_append]
  exact persistSaveAll_index cjson dir sm _

theorem Listed.step {src after : Tui} (listed : Listed cjson dir src.sessions files)
    (steps : src.Steps after saves) :
    Listed cjson dir after.sessions (saveFiles cjson dir after.sessions saves files) := by
  cases steps with
  | kept ids nextId active sidebar =>
      rcases saveFiles_index cjson dir after.sessions saves files with same | holds
      · rcases listed with absent | ⟨saved, list, holds⟩
        · exact .inl (same.trans absent)
        · exact .inr ⟨saved, list.trans ids.symm, same.trans holds⟩
      · exact .inr ⟨after.sessions, rfl, holds⟩
  | opened name opens => exact .of_all [] after.sessions files
  | removed idx id removes => exact .of_all [.delete id] after.sessions files

/-! ### What a start finds -/

theorem persistLoad_absent (cjson : CJson) (absent : files (indexPath dir) = none) :
    persistLoad cjson dir files smInit = (0, smInit) := by
  have unread := parsed_of_absent cjson absent
  rw [parsed] at unread
  rw [persistLoad, unread]

theorem persistLoad_ids (laws : cjson.RoundTrips) {saved : SessionManager}
    (holds : Holds cjson files (indexPath dir) (indexJson saved))
    (room : saved.smCount ≤ maxSessions) (ids : ∀ id ∈ saved.ids, IsInt id) :
    (persistLoad cjson dir files smInit).1 = saved.smCount ∧
      (persistLoad cjson dir files smInit).2.ids = saved.ids ∧
      IsInt (persistLoad cjson dir files smInit).2.nextId := by
  rw [persistLoad_indexJson laws holds room]
  refine ⟨rfl, ?_, isInt_toInt _⟩
  rw [SessionManager.ids, SessionManager.ids, SessionManager.extended]
  simp only [smInit, List.nil_append, List.map_map]
  apply List.map_congr_left
  intro session member
  exact toInt_ofInt (ids session.id (List.mem_map_of_mem member))

theorem ids_smSelect (sm : SessionManager) (index : Int) : (sm.smSelect index).ids = sm.ids := by
  rw [SessionManager.ids, Tui.smSelect_sessions, SessionManager.ids]

theorem nextId_smSelect (sm : SessionManager) (index : Int) :
    (sm.smSelect index).nextId = sm.nextId := by
  rw [SessionManager.smSelect]
  split <;> rfl

theorem boot_good_absent (absent : files (indexPath dir) = none) :
    (boot cjson dir files).Good cjson dir := by
  have loaded := persistLoad_absent cjson absent
  have sessions : (startUp cjson dir files).sessions = Tui.fresh.sessions := by
    rw [startUp, loaded]
    rfl
  refine ⟨startUp_tabled cjson dir files, ?_, ?_, .inl absent⟩
  · rw [boot, sessions]
    decide
  · rw [boot, sessions]
    decide

theorem boot_good (laws : cjson.RoundTrips) {sm : SessionManager}
    (some_ : 1 ≤ sm.smCount) (room : sm.smCount ≤ maxSessions)
    (isInt : ∀ id ∈ sm.ids, IsInt id) (listed : Listed cjson dir sm files) :
    (boot cjson dir files).Good cjson dir := by
  rcases listed with absent | ⟨saved, ids, holds⟩
  · exact boot_good_absent absent
  · have count := Tui.smCount_of_ids ids
    obtain ⟨loaded, list, nextId⟩ := persistLoad_ids laws holds (by omega) (ids ▸ isInt)
    have filled : ¬(persistLoad cjson dir files smInit).1 = 0 := by omega
    have sessions : (startUp cjson dir files).sessions =
        (persistLoad cjson dir files smInit).2.smSelect 0 :=
      congrArg (SessionManager.smSelect · 0) (if_neg filled)
    have same : (boot cjson dir files).tui.sessions.ids = saved.ids := by
      rw [boot, sessions, ids_smSelect, list]
    refine ⟨startUp_tabled cjson dir files, ?_, ?_, .inr ⟨saved, same.symm, holds⟩⟩
    · rw [same, ids]
      exact isInt
    · rw [boot, sessions, nextId_smSelect]
      exact nextId

/-! ### Every state is good -/

theorem Steps.ids_isInt {src after : Tui} (steps : src.Steps after saves)
    (ids : ∀ id ∈ src.sessions.ids, IsInt id) (nextId : IsInt src.sessions.nextId) :
    ∀ id ∈ after.sessions.ids, IsInt id := by
  cases steps with
  | kept same => rwa [same]
  | opened name opens =>
      intro id member
      rw [SessionManager.ids, opens.sessions, List.map_append, List.mem_append] at member
      rcases member with old | new
      · exact ids id old
      · obtain rfl := List.mem_singleton.1 new
        exact nextId
  | removed idx _ removes =>
      intro id member
      rw [SessionManager.ids, removes.sessions, List.map_append, List.mem_append] at member
      rcases member with old | new
      · obtain ⟨session, left, rfl⟩ := List.mem_map.1 old
        exact ids session.id (List.mem_map_of_mem (List.mem_of_mem_eraseIdx left))
      · split at new
        · obtain rfl := List.mem_singleton.1 new
          exact nextId
        · contradiction

theorem Store.Good.steps {store : Store} {after : Tui} (good : store.Good cjson dir)
    (steps : store.tui.Steps after saves)
    (counted : Store.counted
      { tui := after, files := saveFiles cjson dir after.sessions saves store.files } =
        some dst) : dst.Good cjson dir := by
  rw [Store.counted] at counted
  split at counted
  next isInt =>
    obtain rfl := Option.some.inj counted
    exact ⟨Tui.Steps.tabled steps good.tabled, Steps.ids_isInt steps good.ids good.nextId,
      isInt, good.listed.step steps⟩
  next => contradiction

theorem Store.Good.step {store dst : Store} {event : StoreEvent} (laws : cjson.RoundTrips)
    (good : store.Good cjson dir) (stepped : storeStep cjson dir store event = some dst) :
    dst.Good cjson dir := by
  cases event with
  | key ch env =>
      rw [storeStep] at stepped
      split at stepped
      · exact good.steps (Tui.mainKey_steps good.tabled ch env) stepped
      · contradiction
  | message msg beyond choices =>
      rw [storeStep] at stepped
      split at stepped
      · exact good.steps ((Tui.checkIpc_still _ msg beyond choices).steps _) stepped
      · contradiction
  | dropConnection =>
      rw [storeStep] at stepped
      split at stepped
      · obtain rfl := Option.some.inj stepped
        exact ⟨⟨good.tabled.some_, good.tabled.room, good.tabled.active, good.tabled.sidebar⟩,
          good.ids, good.nextId, good.listed⟩
      · contradiction
  | kill =>
      obtain rfl := Option.some.inj stepped
      exact boot_good laws good.tabled.some_ good.tabled.room good.ids good.listed
  | quit scribbled =>
      rw [storeStep] at stepped
      split at stepped
      · contradiction
      · obtain rfl := Option.some.inj stepped
        exact boot_good laws good.tabled.some_ good.tabled.room good.ids
          (.inr ⟨_, rfl, holds_writeFile ..⟩)

/-- The message put into the chat for a reply in C strings. -/
def replyOf (content : CString) (reasoning : Option CString) : Message :=
  finalReply content.bytes (reasoning.map CString.bytes)

theorem replyOf_saved (content : CString) (reasoning : Option CString) :
    (replyOf content reasoning).saved = replyOf content reasoning := by
  have storable : (replyOf content reasoning).Storable := by
    constructor
    · rw [replyOf, finalReply]
      simp only
      split
      · exact content.nulFree
      · decide
    · intro bytes member
      cases reasoning with
      | none => contradiction
      | some text =>
          rw [replyOf, finalReply] at member
          simp only [Option.map_some, Option.mem_filter_iff] at member
          obtain ⟨same, filled⟩ := member
          obtain rfl := Option.some.inj same
          exact ⟨text.nulFree, by simpa using filled, rfl⟩
  exact storable.saved

theorem repFinal_session {src : Tui} {session : Session} {idx : Nat}
    (goes : src.finalIndex corrId sessionIdx = idx)
    (here : src.sessions.sessions[idx]? = some session) (choices : List Bytes) :
    (src.repFinal corrId sessionIdx content reasoning choices).sessions.sessions[idx]? =
      some { session with
        chat := chatRemoveLast session.chat ++ [finalReply content reasoning] } := by
  obtain ⟨inside, _⟩ := List.getElem?_eq_some_iff.1 here
  have found := SessionManager.replyIndex_of_lt inside
  rw [(Tui.repFinal_settles corrId sessionIdx content reasoning choices).sessions, goes,
    SessionManager.settle_some found, SessionManager.setChat, SessionManager.getElem?_setSession,
    if_pos rfl, here]
  rfl

theorem repFinalSaves_session {src : Tui} {idx : Nat}
    (goes : src.finalIndex corrId sessionIdx = idx)
    (inside : idx < src.sessions.smCount) :
    src.repFinalSaves corrId sessionIdx = [.session idx] := by
  have found := SessionManager.replyIndex_of_lt inside
  rw [Tui.finalIndex] at goes
  simp only [Tui.repFinalSaves, goes, found]

/-- Saving a session that an index lists makes its last message durable, saving one
without an index does not. -/
theorem persistSaveSession_durable (laws : cjson.RoundTrips) {sm : SessionManager}
    {session : Session} {idx : Nat} (here : sm.sessions[idx]? = some session)
    (last : session.chat.getLast? = some reply) (saved : reply.saved = reply)
    (room : sm.smCount ≤ maxSessions) (isInt : IsInt session.id)
    (listed : Listed cjson dir sm files) :
    Durable cjson dir (persistSaveSession cjson dir sm (idx : Int) files) session.id reply ↔
      files (indexPath dir) ≠ none := by
  have written : persistSaveSession cjson dir sm (idx : Int) files =
      saveSession cjson dir files session := by
    rw [persistSaveSession, smGet_natCast, here]
    rfl
  have index : saveSession cjson dir files session (indexPath dir) = files (indexPath dir) :=
    Function.update_of_ne (sessionPath_ne_indexPath dir session.id).symm _ _
  rw [written]
  constructor
  · rintro ⟨loaded, member, _⟩ absent
    rw [persistLoad_absent _ (index.trans absent)] at member
    contradiction
  · intro present
    rcases listed with absent | ⟨list, ids, holds⟩
    · exact absurd absent present
    · have count := Tui.smCount_of_ids ids
      have entry : list.ids[idx]? = some session.id := by
        rw [ids, SessionManager.ids, List.getElem?_map, here]
        rfl
      rw [SessionManager.ids, List.getElem?_map] at entry
      obtain ⟨old, listed, same⟩ := Option.map_eq_some_iff.1 entry
      have file : Holds cjson (saveSession cjson dir files session)
          (sessionPath dir session.id) (sessionJson session) := Function.update_self ..
      have chat := loadChat_sessionJson laws file []
      rw [Durable, persistLoad_indexJson laws (index.trans holds) (by omega)]
      refine ⟨old.loaded cjson dir (saveSession cjson dir files session), ?_, ?_, ?_⟩
      · exact List.mem_map_of_mem (List.mem_of_getElem? listed)
      · rw [Session.loaded, same, toInt_ofInt isInt]
      · rw [Session.loaded, same, toInt_ofInt isInt, chat, List.nil_append,
          List.getLast?_map, last]
        exact congrArg some saved

theorem storeStep_message {src dst : Store} {msg : ToTui}
    (stepped : storeStep cjson dir src (.message msg beyond choices) = some dst) :
    dst.tui = src.tui.checkIpc msg beyond choices ∧
      dst.files = saveFiles cjson dir dst.tui.sessions (src.tui.checkIpcSaves msg) src.files := by
  rw [storeStep] at stepped
  split at stepped
  · simp only [Store.counted] at stepped
    split at stepped
    · obtain rfl := Option.some.inj stepped
      exact ⟨rfl, rfl⟩
    · contradiction
  · contradiction

theorem run_good (laws : cjson.RoundTrips)
    (run : Run (storeStep cjson dir) (FirstStart cjson dir) trace store) :
    store.Good cjson dir := by
  apply run.always (Store.Good cjson dir)
  · rintro first rfl
    exact boot_good_absent rfl
  · intro src event dst good stepped
    exact good.step laws stepped

/-- A reply that was just handled is durable exactly where an index has been
written. -/
theorem reply_durable (laws : cjson.RoundTrips) {trace : List (Taken Store StoreEvent)}
    {src dst : Store} {session : Session} {idx : Nat} {content : CString}
    {reasoning : Option CString}
    (run : Run (storeStep cjson dir) (FirstStart cjson dir) trace store)
    (handled : ⟨src, .message (.repFinal corrId sessionIdx content.bytes
      (reasoning.map CString.bytes)) beyond choices, dst⟩ ∈ trace)
    (goes : src.tui.finalIndex corrId sessionIdx = idx)
    (here : src.tui.sessions.sessions[idx]? = some session) :
    Durable cjson dir dst.files session.id (replyOf content reasoning) ↔
      src.files (indexPath dir) ≠ none := by
  obtain ⟨earlier, _, _, before, stepped⟩ := run.prefix_of_mem handled
  have good := run_good laws before
  have after := good.step laws stepped
  obtain ⟨tui, files⟩ := storeStep_message stepped
  obtain ⟨inside, _⟩ := List.getElem?_eq_some_iff.1 here
  have replied : dst.tui.sessions.sessions[idx]? = some { session with
      chat := chatRemoveLast session.chat ++ [replyOf content reasoning] } := by
    rw [tui]
    exact repFinal_session goes here choices
  have still := Tui.checkIpc_still src.tui (.repFinal corrId sessionIdx content.bytes
    (reasoning.map CString.bytes)) beyond choices
  rw [← tui] at still
  have listed : Listed cjson dir dst.tui.sessions src.files := by
    rw [Listed, still.ids]
    exact good.listed
  have isInt : IsInt session.id :=
    good.ids session.id (List.mem_map_of_mem (List.mem_of_getElem? here))
  have saves : src.tui.checkIpcSaves (.repFinal corrId sessionIdx content.bytes
      (reasoning.map CString.bytes)) = [.session idx] := repFinalSaves_session goes inside
  rw [files, saves]
  have durable := persistSaveSession_durable laws replied (List.getLast?_concat ..)
    (replyOf_saved content reasoning) after.tabled.room isInt listed
  exact durable

/-! ### The first conversation in an empty directory -/

def hello : CString := ⟨ascii "Hello!", by decide⟩

/-- "hi" is asked and `hello` answered. -/
def askHi : StoreEvent := .key Tui.newline ⟨ascii "hi", true, -1, []⟩

def answerHello : StoreEvent := .message (.repFinal 1 0 hello.bytes none) [] []

def dataDir : Bytes := ascii "data"

def firstBoot : Store := boot CJson.compact dataDir fun _ => none

def firstAsked : Store where
  tui := (Tui.fresh.mainKey Tui.newline ⟨ascii "hi", true, -1, []⟩).1
  files := fun _ => none

def firstAnswered : Store where
  tui := firstAsked.tui.checkIpc (.repFinal 1 0 hello.bytes none) [] []
  files := persistSaveSession CJson.compact dataDir
    (firstAsked.tui.checkIpc (.repFinal 1 0 hello.bytes none) [] []).sessions 0 firstAsked.files

theorem firstChat_run :
    Run (storeStep CJson.compact dataDir) (FirstStart CJson.compact dataDir)
      [⟨firstBoot, askHi, firstAsked⟩, ⟨firstAsked, answerHello, firstAnswered⟩] firstAnswered := by
  have first : storeStep CJson.compact dataDir firstBoot askHi = some firstAsked := by rfl
  have second : storeStep CJson.compact dataDir firstAsked answerHello =
      some firstAnswered := by rfl
  have run : Run (storeStep CJson.compact dataDir) (FirstStart CJson.compact dataDir) []
      firstBoot := .start rfl
  exact (run.snoc first).snoc second

/-- Between the question and the answer `/new` is typed, and everything saved. -/
def typeNew : StoreEvent := .key Tui.newline ⟨ascii "/new", true, -1, []⟩

def savedAsked : Store where
  tui := (firstAsked.tui.mainKey Tui.newline ⟨ascii "/new", true, -1, []⟩).1
  files := persistSaveAll CJson.compact dataDir
    (firstAsked.tui.mainKey Tui.newline ⟨ascii "/new", true, -1, []⟩).1.sessions firstAsked.files

def savedAnswered : Store where
  tui := savedAsked.tui.checkIpc (.repFinal 1 0 hello.bytes none) [] []
  files := persistSaveSession CJson.compact dataDir
    (savedAsked.tui.checkIpc (.repFinal 1 0 hello.bytes none) [] []).sessions 0 savedAsked.files

theorem reply_durable_hello :
    (Durable CJson.compact dataDir firstAnswered.files 1 (replyOf hello none) ↔
      firstAsked.files (indexPath dataDir) ≠ none) ∧
    Durable CJson.compact dataDir savedAnswered.files 1 (replyOf hello none) := by
  have goes : firstAsked.tui.finalIndex 1 0 = (0 : Nat) := by decide
  have here : firstAsked.tui.sessions.sessions[0]? = some { id := 1, name := ascii "Chat 1", chat :=
      [⟨ascii "hi", true, none, none⟩, ⟨ascii "...", false, none, some 1⟩] } := by
    decide
  have handled : (⟨firstAsked, answerHello, firstAnswered⟩ : Taken Store StoreEvent) ∈
      [⟨firstBoot, askHi, firstAsked⟩, ⟨firstAsked, answerHello, firstAnswered⟩] :=
    List.mem_cons_of_mem _ List.mem_cons_self
  refine ⟨reply_durable CJson.compact_roundTrips firstChat_run handled goes here, ?_⟩
  have first : storeStep CJson.compact dataDir firstBoot askHi = some firstAsked := by rfl
  have saved : storeStep CJson.compact dataDir firstAsked typeNew = some savedAsked := by rfl
  have last : storeStep CJson.compact dataDir savedAsked answerHello = some savedAnswered := by rfl
  have run : Run (storeStep CJson.compact dataDir) (FirstStart CJson.compact dataDir) []
      firstBoot := .start rfl
  have goesOn : savedAsked.tui.finalIndex 1 0 = (0 : Nat) := by decide
  have still : savedAsked.tui.sessions.sessions[0]? = some { id := 1, name := ascii "Chat 1", chat :=
      [⟨ascii "hi", true, none, none⟩, ⟨ascii "...", false, none, some 1⟩] } := by
    decide
  have indexed : savedAsked.files (indexPath dataDir) ≠ none := by
    rw [show savedAsked.files (indexPath dataDir) = _ from persistSaveAll_index ..]
    exact Option.some_ne_none _
  exact (reply_durable CJson.compact_roundTrips (((run.snoc first).snoc saved).snoc last)
    (List.mem_concat_self ..) goesOn still).2 indexed

/-- The first reply is lost: nothing has written an index yet. -/
theorem first_reply_lost :
    Run (storeStep CJson.compact dataDir) (FirstStart CJson.compact dataDir)
        [⟨firstBoot, askHi, firstAsked⟩, ⟨firstAsked, answerHello, firstAnswered⟩] firstAnswered ∧
      firstAsked.tui.finalIndex 1 0 = 0 ∧
      firstAsked.tui.sessions.ids = [1] ∧
      ¬Durable CJson.compact dataDir firstAnswered.files 1 (replyOf hello none) := by
  refine ⟨firstChat_run, by decide, by decide, ?_⟩
  rintro ⟨session, member, _⟩
  have unindexed : firstAnswered.files (indexPath dataDir) = none := by
    simp only [firstAnswered, persistSaveSession_index]
    rfl
  rw [persistLoad_absent _ unindexed] at member
  contradiction

end Store

end FreeCli

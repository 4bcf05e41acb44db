import FreeCli.Ui.Durable

namespace FreeCli

open Words JsonText Transition

/-! The ids an index brings in, and those given out after it. -/

/-- The id of an entry that becomes a session. -/
def entryId (entry : Json) : Option Int :=
  match (entry.getObjectItem (key "id")).bind Json.asNumber,
    (entry.getObjectItem (key "name")).bind Json.asString with
  | some id, some _ => some id.toInt
  | _, _ => none

def indexIds (root : Json) : List Int :=
  (((root.getObjectItem (key "sessions")).elim [] Json.children).filterMap entryId).take
    maxSessions

def indexNextId (root : Json) : Int :=
  ((root.getObjectItem (key "next_id")).bind Json.asNumber).elim 1 Int32.toInt

inductive ManagerOp where
  | smNewSession (name : Bytes)
  | smRemove (idx : Int)
  | save (save : Save)
  deriving DecidableEq, Repr

section Manager

variable (cjson : CJson) (dir : Bytes)

/-- Beyond the limit of `int` the run ends: `next_id` overflows. -/
def managerStep (state : SessionManager × Files) :
    ManagerOp → Option (SessionManager × Files)
  | .smNewSession name =>
      let opened := (state.1.smNewSession name).2
      if IsInt opened.nextId then some (opened, state.2) else none
  | .smRemove idx => some ((state.1.smRemove idx).2, state.2)
  | .save save => some (state.1, save.run cjson dir state.1 state.2)

def Loaded (files : Files) (state : SessionManager × Files) : Prop :=
  state = ((persistLoad cjson dir files smInit).2, files)

/-- No two sessions have one id, or are saved to one file. -/
structure OwnFiles (sm : SessionManager) : Prop where
  ids : sm.ids.Nodup
  paths : (sm.ids.map (sessionPath dir)).Nodup

variable {cjson dir} {files : Files} {sm : SessionManager} {state : SessionManager × Files}

theorem ownFiles_iff : OwnFiles dir sm ↔ sm.ids.Nodup := by
  constructor
  · exact OwnFiles.ids
  · intro distinct
    exact ⟨distinct, distinct.map fun _ _ => sessionPath_injective⟩

variable (cjson dir files) in
theorem ids_loadEntries (entries : List Json) (loaded : Nat) (sm : SessionManager)
    (room : sm.smCount ≤ maxSessions) :
    (loadEntries cjson dir files entries loaded sm).2.ids =
      sm.ids ++ (entries.filterMap entryId).take (maxSessions - sm.smCount) := by
  induction entries generalizing loaded sm with
  | nil => simp [loadEntries]
  | cons entry entries ih =>
      rw [loadEntries, List.filterMap_cons, entryId]
      cases hasId : (entry.getObjectItem (key "id")).bind Json.asNumber with
      | none => exact ih loaded sm room
      | some id =>
          cases hasName : (entry.getObjectItem (key "name")).bind Json.asString with
          | none => exact ih loaded sm room
          | some name =>
              rcases Nat.lt_or_eq_of_le room with below | full
              · have fits : ¬(sm.smCount : Int) < 0 := by omega
                have left : maxSessions - sm.smCount = maxSessions - (sm.smCount + 1) + 1 := by
                  omega
                have count (added : Session) :
                    (sm.extended [added]).smCount = sm.smCount + 1 := by
                  simp [SessionManager.extended, SessionManager.smCount]
                have more := ih (loaded + 1) (sm.extended [{
                  id := id.toInt
                  name := name.bytes.take 63
                  chat := loadChat cjson dir files id.toInt [] }]) (by rw [count]; omega)
                simp only [smNewSession_room below, if_neg fits, Int.toNat_natCast,
                  setSession_extended]
                rw [more, count, left, List.take_succ_cons, SessionManager.ids,
                  SessionManager.ids, SessionManager.extended, List.map_append,
                  List.append_assoc]
                rfl
              · have minus : ((-1 : Int) < 0) = True := eq_true (by decide)
                simp only [SessionManager.smNewSession_full full.ge, minus, if_true, full,
                  Nat.sub_self, List.take_zero, List.append_nil]

theorem persistLoad_indexIds {root : Json}
    (accepted : parsed cjson files (indexPath dir) = some root) :
    (persistLoad cjson dir files smInit).2.ids = indexIds root ∧
      (persistLoad cjson dir files smInit).2.nextId = indexNextId root := by
  rw [parsed] at accepted
  have ids := ids_loadEntries cjson dir files
    ((root.getObjectItem (key "sessions")).elim [] Json.children) 0 smInit (by decide)
  rw [persistLoad, accepted]
  exact ⟨ids, rfl⟩

theorem isInt_indexNextId (root : Json) : IsInt (indexNextId root) := by
  rw [indexNextId]
  cases (root.getObjectItem (key "next_id")).bind Json.asNumber with
  | none => decide
  | some n => exact isInt_toInt n

theorem isInt_indexIds {root : Json} {id : Int} (member : id ∈ indexIds root) : IsInt id := by
  obtain ⟨entry, _, found⟩ := List.mem_filterMap.1 (List.mem_of_mem_take member)
  rw [entryId] at found
  split at found
  next n name _ _ =>
    obtain rfl := Option.some.inj found
    exact isInt_toInt n
  next => contradiction

theorem ids_smNewSession (room : sm.smCount < maxSessions) (name : Bytes) :
    (sm.smNewSession name).2.ids = sm.ids ++ [sm.nextId] ∧
      (sm.smNewSession name).2.nextId = sm.nextId + 1 := by
  rw [SessionManager.smNewSession_opened room, SessionManager.ids, List.map_append]
  exact ⟨rfl, rfl⟩

theorem nextId_smRemove (sm : SessionManager) (idx : Int) :
    (sm.smRemove idx).2.nextId = sm.nextId := by
  rw [SessionManager.smRemove]
  split <;> rfl

theorem ids_smRemove {idx : Nat} (inside : idx < sm.smCount) :
    (sm.smRemove idx).2.ids = sm.ids.eraseIdx idx := by
  rw [SessionManager.ids, Tui.smRemove_inside (by omega), Int.toNat_natCast, SessionManager.ids,
    List.eraseIdx_map]

theorem ids_smRemove_sublist (sm : SessionManager) (idx : Int) :
    (sm.smRemove idx).2.ids.Sublist sm.ids := by
  by_cases outside : idx < 0 ∨ idx ≥ sm.smCount
  · rw [SessionManager.smRemove, if_pos outside]
  · rw [SessionManager.ids, Tui.smRemove_inside outside, SessionManager.ids]
    exact (List.eraseIdx_sublist ..).map Session.id

/-- No id is given twice from here on. -/
structure Apart (sm : SessionManager) : Prop where
  ids : sm.ids.Nodup
  below : ∀ id ∈ sm.ids, id < sm.nextId ∨ id = 2 ^ 31 - 1

theorem Apart.step {op : ManagerOp} {next : SessionManager × Files} (apart : Apart state.1)
    (stepped : managerStep cjson dir state op = some next) : Apart next.1 := by
  cases op with
  | smNewSession name =>
      rw [managerStep] at stepped
      split at stepped
      next isInt =>
        obtain rfl := Option.some.inj stepped
        rcases Nat.lt_or_ge state.1.smCount maxSessions with room | full
        · obtain ⟨ids, nextId⟩ := ids_smNewSession room name
          have bound : state.1.nextId + 1 < 2 ^ 31 := nextId ▸ isInt.2
          constructor
          · rw [ids, List.nodup_append]
            refine ⟨apart.ids, List.nodup_singleton _, fun id old other new => ?_⟩
            obtain rfl := List.mem_singleton.1 new
            rcases apart.below id old with below | last
            · omega
            · omega
          · intro id member
            rw [ids, List.mem_append, List.mem_singleton] at member
            rcases member with old | rfl
            · rcases apart.below id old with below | last
              · exact .inl (by rw [nextId]; omega)
              · exact .inr last
            · exact .inl (by rw [nextId]; omega)
        · rw [SessionManager.smNewSession_full full]
          exact apart
      next => contradiction
  | smRemove idx =>
      obtain rfl := Option.some.inj stepped
      have fewer := ids_smRemove_sublist state.1 idx
      refine ⟨apart.ids.sublist fewer, fun id member => ?_⟩
      rw [nextId_smRemove]
      exact apart.below id (fewer.subset member)
  | save save =>
      obtain rfl := Option.some.inj stepped
      exact apart

variable (cjson dir) in
theorem managerStep_smNewSession (room : state.1.smCount < maxSessions)
    (isInt : IsInt (state.1.nextId + 1)) :
    managerStep cjson dir state (.smNewSession []) =
      some ((state.1.smNewSession []).2, state.2) :=
  if_pos ((ids_smNewSession room []).2 ▸ isInt)

/-- New sessions are made and removed until `next_id` is the id of a session. -/
theorem reaches_duplicate {start : SessionManager × Files → Prop} {id : Int} (left : Nat)
    (run : Run (managerStep cjson dir) start trace state) (member : id ∈ state.1.ids)
    (room : state.1.smCount < maxSessions) (distance : state.1.nextId + left = id)
    (low : -2 ^ 31 ≤ state.1.nextId) (small : id < 2 ^ 31 - 1) :
    ∃ trace later, Run (managerStep cjson dir) start trace later ∧
      ¬later.1.ids.Nodup := by
  induction left generalizing trace state with
  | zero =>
      have opens := run.snoc
        (managerStep_smNewSession cjson dir room ⟨by omega, by omega⟩)
      obtain ⟨ids, _⟩ := ids_smNewSession room []
      refine ⟨_, _, opens, fun distinct => ?_⟩
      rw [ids, List.nodup_append] at distinct
      exact distinct.2.2 id member _ (List.mem_singleton_self _) (by omega)
  | succ left ih =>
      have opens := run.snoc
        (managerStep_smNewSession cjson dir room ⟨by omega, by omega⟩)
      obtain ⟨ids, nextId⟩ := ids_smNewSession room []
      have removes := opens.snoc (show managerStep cjson dir _
        (.smRemove (state.1.smCount : Int)) = some _ from rfl)
      have last : state.1.smCount < (state.1.smNewSession []).2.smCount := by
        rw [Tui.smCount_eq_ids, Tui.smCount_eq_ids, ids, List.length_append]
        exact Nat.lt_succ_self _
      have kept : ((state.1.smNewSession []).2.smRemove state.1.smCount).2.ids =
          state.1.ids := by
        rw [ids_smRemove last, ids, Tui.smCount_eq_ids, List.eraseIdx_append_of_length_le
          (Nat.le_refl _), Nat.sub_self, List.eraseIdx_cons_zero, List.append_nil]
      have counter := nextId_smRemove (state.1.smNewSession []).2 state.1.smCount
      rw [nextId] at counter
      apply ih removes
      · rwa [kept]
      · rwa [Tui.smCount_of_ids kept]
      · simp only [counter]
        omega
      · simp only [counter]
        omega

theorem reaches_duplicate_full {start : SessionManager × Files → Prop} {id : Int}
    (run : Run (managerStep cjson dir) start trace state) (member : id ∈ state.1.ids)
    (full : state.1.smCount = maxSessions) (above : state.1.nextId ≤ id)
    (low : -2 ^ 31 ≤ state.1.nextId) (small : id < 2 ^ 31 - 1) :
    ∃ trace later, Run (managerStep cjson dir) start trace later ∧
      ¬later.1.ids.Nodup := by
  obtain ⟨k, here⟩ := List.mem_iff_getElem?.1 member
  -- another session makes room
  obtain ⟨other, apart, inside⟩ : ∃ other, other ≠ k ∧ other < state.1.smCount := by
    by_cases first : k = 0
    · exact ⟨1, by omega, by rw [full]; decide⟩
    · exact ⟨0, by omega, by rw [full]; decide⟩
  have removes := run.snoc (show managerStep cjson dir _ (.smRemove (other : Int)) =
    some _ from rfl)
  have ids := ids_smRemove inside
  have counter := nextId_smRemove state.1 other
  have stays : id ∈ (state.1.smRemove other).2.ids := by
    rw [ids]
    exact List.mem_eraseIdx_iff_getElem?.2 ⟨k, apart.symm, here⟩
  have fewer : (state.1.smRemove other).2.smCount < maxSessions := by
    rw [Tui.smCount_eq_ids] at inside full ⊢
    rw [ids, List.length_eraseIdx_of_lt inside, full]
    decide
  exact reaches_duplicate (id - state.1.nextId).toNat removes stays fewer
    (by simp only [counter]; omega) (by rw [counter]; exact low) small

theorem loaded_reaches_duplicate {root : Json} {id : Int}
    (accepted : parsed cjson files (indexPath dir) = some root)
    (member : id ∈ indexIds root) (above : indexNextId root ≤ id) (small : id < 2 ^ 31 - 1) :
    ∃ trace later, Run (managerStep cjson dir) (Loaded cjson dir files) trace later ∧
      ¬later.1.ids.Nodup := by
  obtain ⟨ids, nextId⟩ := persistLoad_indexIds accepted
  have loaded : Run (managerStep cjson dir) (Loaded cjson dir files) [] _ := .start rfl
  have low := (isInt_indexNextId root).1
  rw [← nextId] at low above
  rw [← ids] at member
  have filled := filled_persistLoad cjson dir files
  have room := filled.room
  rw [← filled.count] at room
  rcases Nat.lt_or_eq_of_le room with fewer | full
  · exact reaches_duplicate (id - (persistLoad cjson dir files smInit).2.nextId).toNat loaded
      member fewer (by simp only; omega) low small
  · exact reaches_duplicate_full loaded member full above low small

/-! ### Distinct ids -/

/-- After loading, ids stay distinct exactly if the index lists no id twice and all of
them below its `next_id`; the largest `int` cannot be given out. -/
theorem loaded_ids_distinct {root : Json}
    (accepted : parsed cjson files (indexPath dir) = some root) :
    (∀ trace state, Run (managerStep cjson dir) (Loaded cjson dir files) trace state →
      OwnFiles dir state.1) ↔
    (indexIds root).Nodup ∧ ∀ id ∈ indexIds root, id < indexNextId root ∨ id = 2 ^ 31 - 1 := by
  obtain ⟨ids, nextId⟩ := persistLoad_indexIds accepted
  constructor
  · intro own
    have loaded : Run (managerStep cjson dir) (Loaded cjson dir files) [] _ := .start rfl
    refine ⟨ids ▸ (own _ _ loaded).ids, fun id member => ?_⟩
    by_contra neither
    have high := (isInt_indexIds member).2
    obtain ⟨trace, later, run, twice⟩ := loaded_reaches_duplicate accepted member
      (by omega) (by omega)
    exact twice (own trace later run).ids
  · intro ⟨distinct, below⟩ trace state run
    rw [ownFiles_iff]
    have apart : Apart state.1 := by
      refine run.always (fun state => Apart state.1) ?_ ?_
      · rintro first rfl
        exact ⟨ids ▸ distinct, fun id member => nextId ▸ below id (ids ▸ member)⟩
      · intro src op dst apart stepped
        exact apart.step stepped
    exact apart.ids

end Manager

/-! ### Two indexes -/

def indexFiles (index : Json) : Files :=
  writeFile (fun _ => none) (indexPath dataDir) (CJson.compact.printUnformatted index)

theorem parsed_indexFiles (index : Json) (shallow : index.depth ≤ Json.nestingLimit) :
    parsed CJson.compact (indexFiles index) (indexPath dataDir) = some index :=
  parsed_of_holds CJson.compact_roundTrips shallow (holds_writeFile ..)

def listedEntry (id : Int) : Json :=
  .obj [(key "id", jsonInt id), (key "name", jsonString (ascii "Chat"))]

def numberedIndex : Json :=
  .obj [(key "next_id", jsonInt 3), (key "sessions", .arr [listedEntry 2, listedEntry 1])]

theorem loaded_ids_distinct_numbered :
    ((∀ trace state, Run (managerStep CJson.compact dataDir)
        (Loaded CJson.compact dataDir (indexFiles numberedIndex)) trace state →
          OwnFiles dataDir state.1) ↔
      (indexIds numberedIndex).Nodup ∧ ∀ id ∈ indexIds numberedIndex,
        id < indexNextId numberedIndex ∨ id = 2 ^ 31 - 1) ∧
    (indexIds numberedIndex).Nodup ∧ ∀ id ∈ indexIds numberedIndex,
      id < indexNextId numberedIndex := by
  have ids : indexIds numberedIndex = [2, 1] := by decide
  have nextId : indexNextId numberedIndex = 3 := by decide
  refine ⟨loaded_ids_distinct (parsed_indexFiles numberedIndex (by decide)), ?_⟩
  rw [ids, nextId]
  decide

def unnumberedIndex : Json := .obj [(key "sessions", .arr [listedEntry 1])]

theorem loaded_ids_collide : ¬∀ (cjson : CJson) (dir : Bytes) (files : Files) (root : Json),
    cjson.RoundTrips → parsed cjson files (indexPath dir) = some root →
      ∀ trace state, Run (managerStep cjson dir) (Loaded cjson dir files) trace state →
        OwnFiles dir state.1 := by
  intro own
  have accepted := parsed_indexFiles unnumberedIndex (by decide)
  have listed : (1 : Int) ∈ indexIds unnumberedIndex := by decide
  have counter : indexNextId unnumberedIndex ≤ 1 := by decide
  obtain ⟨trace, later, run, twice⟩ :=
    loaded_reaches_duplicate accepted listed counter (by decide)
  exact twice (own _ _ _ _ CJson.compact_roundTrips accepted trace later run).ids

end FreeCli

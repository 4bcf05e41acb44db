import FreeCli.Library.Transition
import FreeCli.Ui.SessionTable

namespace FreeCli

open Words JsonText Transition

/-! Runs of the session operations from a start-up on any files.  `next_id` stays
short of the limit of `int`. -/

inductive SessionOp where
  | newSession
  | cmdNew (input : Bytes)
  | doDeleteSession (idx : Int)
  | smSelect (index : Int)
  | acceptChoice (idx : Int)
  | sidebarKey (ch : Nat)
  | cmdRename (input : Bytes)
  | cmdClear
  | mainKey (ch : Nat) (env : KeyEnv)
  | checkIpc (msg : ToTui) (beyond : Bytes) (choices : List Bytes)
  deriving DecidableEq, Repr

def SessionOp.run (tui : Tui) : SessionOp → Tui
  | .newSession => tui.newSession
  | .cmdNew input => tui.cmdNew input
  | .doDeleteSession idx => tui.doDeleteSession idx
  | .smSelect index => { tui with sessions := tui.sessions.smSelect index }
  | .acceptChoice idx => (tui.acceptChoice idx).1
  | .sidebarKey ch => tui.sidebarKey ch
  | .cmdRename input => tui.cmdRename input
  | .cmdClear => tui.cmdClear
  | .mainKey ch env => (tui.mainKey ch env).1
  | .checkIpc msg beyond choices => tui.checkIpc msg beyond choices

def sessionStep (tui : Tui) (op : SessionOp) : Option Tui := some (op.run tui)

def Started (tui : Tui) : Prop := ∃ cjson dir files, tui = startUp cjson dir files

def createdId (taken : Taken Tui SessionOp) : Option Int :=
  if taken.dst.sessions.nextId = taken.src.sessions.nextId then none
  else taken.dst.sessions.sessions.getLast?.map Session.id

def created (trace : List (Taken Tui SessionOp)) : List Int := trace.filterMap createdId

namespace Tui

variable {tui after : Tui}

/-- Deleting the session at `idx` leaves the others alone. -/
structure DeletesOnly (tui : Tui) (idx : Nat) : Prop where
  sessions : (tui.doDeleteSession idx).sessions.sessions =
    tui.sessions.sessions.eraseIdx idx ++
      if tui.sessions.smCount = 1 then
        [{ id := tui.sessions.nextId, name := chatName 1, chat := [] }]
      else []
  active : tui.sessions.active ≠ idx →
    (tui.doDeleteSession idx).sessions.smActiveSession = tui.sessions.smActiveSession

theorem smCount_eq_ids (sm : SessionManager) : sm.smCount = sm.ids.length := by
  rw [SessionManager.ids, List.length_map, SessionManager.smCount]

theorem smCount_of_ids {sm sm' : SessionManager} (same : sm'.ids = sm.ids) :
    sm'.smCount = sm.smCount := by
  rw [smCount_eq_ids, same, ← smCount_eq_ids]

theorem removes_smCount (removes : Removes sm sel sm' sel' idx) :
    sm'.smCount = if sm.smCount = 1 then 1 else sm.smCount - 1 := by
  have length := congrArg List.length removes.sessions
  rw [List.length_append, List.length_eraseIdx_of_lt removes.inside] at length
  rw [SessionManager.smCount, length]
  split
  next last =>
    have none_ : sm.sessions.length - 1 = 0 := by
      rw [SessionManager.smCount] at last
      omega
    rw [none_]
    rfl
  next => rfl

theorem Steps.tabled (steps : tui.Steps after saves) (tabled : tui.Tabled) : after.Tabled := by
  obtain ⟨some_, room, ⟨activeFrom, activeTo⟩, sidebarFrom, sidebarTo⟩ := tabled
  cases steps with
  | kept ids nextId active sidebar =>
      have count := smCount_of_ids ids
      rw [SessionManager.Inside] at active sidebar
      exact ⟨by omega, by omega, ⟨by omega, by omega⟩, ⟨by omega, by omega⟩⟩
  | opened name opens =>
      have count : after.sessions.smCount = tui.sessions.smCount + 1 := by
        rw [SessionManager.smCount, opens.sessions, List.length_append]
        rfl
      have below := opens.room
      have active := opens.active
      have sidebar := opens.sidebar
      exact ⟨by omega, by omega, ⟨by omega, by omega⟩, ⟨by omega, by omega⟩⟩
  | removed idx id removes =>
      have count := removes_smCount removes
      have active := removes.active
      have sidebar := removes.sidebar
      rcases Nat.eq_or_lt_of_le some_ with last | more
      · rw [if_pos last.symm] at count active sidebar
        exact ⟨by omega, by omega, ⟨by omega, by omega⟩, ⟨by omega, by omega⟩⟩
      · have only : ¬tui.sessions.smCount = 1 := by omega
        obtain ⟨afterFrom, afterTo⟩ :=
          SessionManager.activeAfter_inside removes.inside more ⟨activeFrom, activeTo⟩
        rw [if_neg only] at count active sidebar
        exact ⟨by omega, by omega, ⟨by omega, by omega⟩, ⟨by omega, by omega⟩⟩

theorem Steps.creates (steps : tui.Steps after saves) :
    after.sessions.nextId = tui.sessions.nextId ∨
      after.sessions.nextId = tui.sessions.nextId + 1 ∧
        after.sessions.sessions.getLast?.map Session.id = some tui.sessions.nextId := by
  cases steps with
  | kept ids nextId active sidebar => exact .inl nextId
  | opened name opens =>
      refine .inr ⟨opens.nextId, ?_⟩
      rw [opens.sessions, List.getLast?_concat]
      rfl
  | removed idx id removes =>
      have nextId := removes.nextId
      have sessions := removes.sessions
      split at nextId
      next last =>
        refine .inr ⟨nextId, ?_⟩
        rw [sessions, if_pos last, List.getLast?_concat]
        rfl
      next => exact .inl nextId

theorem doDeleteSession_deletesOnly (tabled : tui.Tabled)
    (inside : idx < tui.sessions.smCount) : tui.DeletesOnly idx where
  sessions := (doDeleteSession_removes tabled inside).sessions
  active := by
    intro other
    have removes := doDeleteSession_removes tabled inside
    have count := removes_smCount removes
    have activeIs := removes.active
    have sessions := removes.sessions
    obtain ⟨activeFrom, activeTo⟩ := tabled.active
    have only : ¬tui.sessions.smCount = 1 := by omega
    obtain ⟨afterFrom, afterTo⟩ :=
      SessionManager.activeAfter_inside inside (by omega) tabled.active
    rw [if_neg only] at count activeIs sessions
    rw [List.append_nil] at sessions
    have before : tui.sessions.smActiveSession =
        tui.sessions.sessions[tui.sessions.active.toNat]? := by
      rw [SessionManager.smActiveSession, SessionManager.activeIndex, if_neg (by omega)]
      rfl
    have later : (tui.doDeleteSession idx).sessions.smActiveSession =
        (tui.sessions.sessions.eraseIdx idx)[(tui.sessions.activeAfter idx).toNat]? := by
      rw [SessionManager.smActiveSession, SessionManager.activeIndex, activeIs,
        if_neg (by omega), sessions]
      rfl
    rw [before, later, List.getElem?_eraseIdx]
    rcases Int.lt_or_gt_of_ne other with below | above
    · have same : tui.sessions.activeAfter idx = tui.sessions.active := by
        rw [SessionManager.activeAfter, if_neg (by omega), if_neg (by omega)]
      rw [same, if_pos (by omega)]
    · have shifted : tui.sessions.activeAfter idx = tui.sessions.active - 1 := by
        rw [SessionManager.activeAfter, if_pos above]
      have next : (tui.sessions.active - 1).toNat + 1 = tui.sessions.active.toNat := by omega
      rw [shifted, if_neg (by omega), next]

theorem openSessionSaves_full (full : maxSessions ≤ tui.sessions.smCount) (name : Bytes) :
    tui.openSessionSaves name = [] := by
  rw [openSessionSaves, SessionManager.smNewSession_full full]
  exact if_neg (by decide : ¬(-1 : Int) ≥ 0)

end Tui

theorem SessionOp.run_steps {tui : Tui} (tabled : tui.Tabled) (op : SessionOp) :
    ∃ saves, tui.Steps (op.run tui) saves := by
  cases op with
  | newSession => exact ⟨_, Tui.openSession_steps tui _⟩
  | cmdNew input => exact ⟨_, Tui.openSession_steps tui _⟩
  | doDeleteSession idx => exact ⟨_, Tui.doDeleteSession_steps tabled idx⟩
  | smSelect index => exact ⟨[], .select tui.sessions index tui.sidebarSel []⟩
  | acceptChoice idx => exact ⟨[], Tui.acceptChoice_steps tui idx []⟩
  | sidebarKey ch => exact ⟨_, Tui.sidebarKey_steps tabled ch⟩
  | cmdRename input => exact ⟨[], (Tui.cmdRename_still tui input).steps []⟩
  | cmdClear => exact ⟨[], (Tui.cmdClear_still tui).steps []⟩
  | mainKey ch env => exact ⟨_, Tui.mainKey_steps tabled ch env⟩
  | checkIpc msg beyond choices =>
      exact ⟨[], (Tui.checkIpc_still tui msg beyond choices).steps []⟩

/-! ### Start-up -/

/-- A table as loading fills it. -/
structure Filled (loaded : Nat) (sm : SessionManager) : Prop where
  count : sm.smCount = loaded
  room : loaded ≤ maxSessions
  active : sm.active = if loaded = 0 then -1 else 0

theorem filled_loadEntries (cjson : CJson) (dir : Bytes) (files : Files)
    (entries : List Json) (loaded : Nat) (sm : SessionManager) (filled : Filled loaded sm) :
    Filled (loadEntries cjson dir files entries loaded sm).1
      (loadEntries cjson dir files entries loaded sm).2 := by
  induction entries generalizing loaded sm with
  | nil => exact filled
  | cons entry entries ih =>
      rw [loadEntries]
      simp only
      split
      next id name _ _ =>
        rcases Nat.lt_or_ge sm.smCount maxSessions with room | full
        · obtain ⟨count, _, active⟩ := filled
          have fits : ¬(sm.smCount : Int) < 0 := by omega
          have first : (if sm.active = -1 then (sm.smCount : Int) else sm.active) = 0 := by
            rw [active]
            split
            next empty =>
              rw [if_pos rfl]
              omega
            next => rfl
          rw [SessionManager.smNewSession_opened room]
          simp only [if_neg fits, first]
          apply ih
          refine ⟨?_, by omega, (if_neg (Nat.succ_ne_zero loaded)).symm⟩
          rw [SessionManager.smCount_setSession, SessionManager.smCount, List.length_append,
            ← SessionManager.smCount, count]
          rfl
        · rw [SessionManager.smNewSession_full full]
          exact filled
      next => exact ih loaded sm filled

theorem filled_persistLoad (cjson : CJson) (dir : Bytes) (files : Files) :
    Filled (persistLoad cjson dir files smInit).1 (persistLoad cjson dir files smInit).2 := by
  have empty : Filled 0 smInit := ⟨rfl, by decide, rfl⟩
  rw [persistLoad]
  split
  next => exact empty
  next root _ =>
    obtain ⟨count, room, active⟩ := filled_loadEntries cjson dir files
      ((root.getObjectItem (key "sessions")).elim [] Json.children) 0 smInit empty
    exact ⟨count, room, active⟩

theorem startUp_tabled (cjson : CJson) (dir : Bytes) (files : Files) :
    (startUp cjson dir files).Tabled := by
  obtain ⟨count, room, active⟩ := filled_persistLoad cjson dir files
  have started : ∃ sm : SessionManager, (startUp cjson dir files).sessions = sm.smSelect 0 ∧
      1 ≤ sm.smCount ∧ sm.smCount ≤ maxSessions := by
    by_cases none_ : (persistLoad cjson dir files smInit).1 = 0
    · have empty : (persistLoad cjson dir files smInit).2.smCount < maxSessions := by
        rw [count, none_]
        decide
      refine ⟨_, congrArg (SessionManager.smSelect · 0) (if_pos none_), ?_⟩
      rw [SessionManager.smNewSession_opened empty]
      simp only [SessionManager.smCount, List.length_append, List.length_singleton] at empty ⊢
      omega
    · refine ⟨_, congrArg (SessionManager.smSelect · 0) (if_neg none_), ?_⟩
      omega
  obtain ⟨sm, sessions, some_, fits⟩ := started
  have first : sm.Inside 0 := ⟨Int.le_refl 0, by omega⟩
  rw [smSelect_inside first] at sessions
  have sidebar : (startUp cjson dir files).sidebarSel = 0 := rfl
  refine ⟨?_, ?_, ?_, ?_⟩
  · rwa [sessions]
  · rwa [sessions]
  · rw [sessions]
    exact first
  · rw [sessions, sidebar]
    exact first

/-- What holds of the table after a run of the session operations. -/
structure TableInvariant (trace : List (Taken Tui SessionOp)) (tui : Tui) : Prop where
  tabled : tui.Tabled
  distinct : (created trace).Nodup
  below : ∀ id ∈ created trace, id < tui.sessions.nextId

theorem createdId_cases {src dst : Tui} (steps : src.Steps dst saves) (op : SessionOp) :
    createdId ⟨src, op, dst⟩ = none ∧ dst.sessions.nextId = src.sessions.nextId ∨
      createdId ⟨src, op, dst⟩ = some src.sessions.nextId ∧
        dst.sessions.nextId = src.sessions.nextId + 1 := by
  rw [createdId]
  rcases Tui.Steps.creates steps with same | ⟨next, last⟩
  · exact .inl ⟨if_pos same, same⟩
  · refine .inr ⟨?_, next⟩
    rw [if_neg (by simp only; omega)]
    exact last

theorem TableInvariant.step {trace : List (Taken Tui SessionOp)} {src : Tui}
    (holds : TableInvariant trace src) (op : SessionOp) :
    TableInvariant (trace ++ [⟨src, op, op.run src⟩]) (op.run src) := by
  obtain ⟨saves, steps⟩ := SessionOp.run_steps holds.tabled op
  have tabled := Tui.Steps.tabled steps holds.tabled
  rcases createdId_cases steps op with ⟨none_, nextId⟩ | ⟨new, nextId⟩
  · have same : created (trace ++ [⟨src, op, op.run src⟩]) = created trace := by
      rw [created, List.filterMap_append, List.filterMap_cons_none none_, List.filterMap_nil,
        List.append_nil, created]
    refine ⟨tabled, ?_, ?_⟩
    · rw [same]
      exact holds.distinct
    · rw [same, nextId]
      exact holds.below
  · have more : created (trace ++ [⟨src, op, op.run src⟩]) =
        created trace ++ [src.sessions.nextId] := by
      rw [created, List.filterMap_append, List.filterMap_cons_some new, List.filterMap_nil,
        created]
    refine ⟨tabled, ?_, ?_⟩
    · rw [more, List.nodup_append]
      refine ⟨holds.distinct, List.pairwise_singleton _ _, ?_⟩
      intro id member other last
      obtain rfl := List.mem_singleton.1 last
      have below := holds.below id member
      omega
    · intro id member
      rw [more, List.mem_append, List.mem_singleton] at member
      rw [nextId]
      rcases member with member | rfl
      · have below := holds.below id member
        omega
      · omega

/-- In every run the cursors stay in the table and no id is given twice; a deletion
leaves the other sessions alone, and a full table takes no session. -/
theorem session_table (run : Run sessionStep Started trace tui) :
    TableInvariant trace tui ∧ (∀ idx < tui.sessions.smCount, tui.DeletesOnly idx) ∧
      (tui.sessions.smCount = maxSessions →
        (tui.newSession = tui ∧ tui.newSessionSaves = []) ∧
          ∀ input, tui.cmdNew input = tui ∧ tui.cmdNewSaves input = []) := by
  have holds : TableInvariant trace tui := by
    apply run.invariant_trace (fun _ => True) TableInvariant
    · rintro first ⟨cjson, dir, files, rfl⟩
      exact ⟨startUp_tabled cjson dir files, List.nodup_nil, fun id member => nomatch member⟩
    · intro trace src op dst _ _ holds stepped _
      obtain rfl := Option.some.inj stepped
      exact holds.step op
    · exact fun _ _ => trivial
  refine ⟨holds, ?_, ?_⟩
  · intro idx inside
    exact Tui.doDeleteSession_deletesOnly holds.tabled inside
  · intro full
    have at_ : maxSessions ≤ tui.sessions.smCount := Nat.le_of_eq full.symm
    constructor
    · exact ⟨Tui.openSession_full at_ _, Tui.openSessionSaves_full at_ _⟩
    · exact fun input => ⟨Tui.openSession_full at_ _, Tui.openSessionSaves_full at_ _⟩

theorem startUp_absent (cjson : CJson) (dir : Bytes) :
    startUp cjson dir (fun _ => none) = Tui.fresh := by
  rfl

def deletions : List SessionOp := [.newSession, .doDeleteSession 0, .doDeleteSession 0, .cmdClear]

def afterDeletions : Tui := deletions.foldl SessionOp.run Tui.fresh

theorem session_table_deletions :
    TableInvariant (execTrace sessionStep deletions Tui.fresh) afterDeletions ∧
      (∀ idx < afterDeletions.sessions.smCount, afterDeletions.DeletesOnly idx) ∧
      (afterDeletions.sessions.smCount = maxSessions →
        (afterDeletions.newSession = afterDeletions ∧ afterDeletions.newSessionSaves = []) ∧
          ∀ input, afterDeletions.cmdNew input = afterDeletions ∧
            afterDeletions.cmdNewSaves input = []) := by
  have started : Started Tui.fresh :=
    ⟨CJson.compact, [], fun _ => none, (startUp_absent _ _).symm⟩
  have ran : exec sessionStep deletions Tui.fresh = some afterDeletions := rfl
  exact session_table (Run.of_exec started ran)

end FreeCli

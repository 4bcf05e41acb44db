import FreeCli.Core.JsonCut
import FreeCli.Ui.CutSave

namespace FreeCli

open Words JsonText JsonPrint

/-! The files are written and read with `cJSON.c`. -/

namespace JsonItem

variable {lib : Doubles}

mutual

/-- The items made by the `cJSON_Create` functions. -/
def ofJson : Json → JsonItem lib
  | .null => null
  | .bool value => bool value
  | .num value => number value (lib.ofInt value)
  | .str text => string text
  | .arr items => array (ofItems items)
  | .obj fields => object (ofFields fields)

def ofItems : List Json → List (JsonItem lib)
  | [] => []
  | item :: items => ofJson item :: ofItems items

def ofFields : List (CString × Json) → List (CString × JsonItem lib)
  | [] => []
  | (key, value) :: fields => (key, ofJson value) :: ofFields fields

end

mutual

/-- What is looked at of an item. -/
def toJson : JsonItem lib → Json
  | null => .null
  | bool value => .bool value
  | number valueint _ => .num valueint
  | string valuestring => .str valuestring
  | array child => .arr (toItems child)
  | object child => .obj (toFields child)

def toItems : List (JsonItem lib) → List Json
  | [] => []
  | item :: items => item.toJson :: toItems items

def toFields : List (CString × JsonItem lib) → List (CString × Json)
  | [] => []
  | (key, item) :: members => (key, item.toJson) :: toFields members

end

theorem numberText_ofInt (laws : lib.Lawful) (value : Int32) :
    lib.numberText value (lib.ofInt value) = printNumber value := by
  rw [Doubles.numberText, laws.finite_ofInt, laws.equal_ofInt]
  rfl

theorem reread_ofJson (laws : lib.Lawful) (json : Json) :
    (ofJson json : JsonItem lib).reread = ofJson json ∧ (ofJson json : JsonItem lib).toJson = json ∧
      (ofJson json : JsonItem lib).depth = json.depth := by
  induction json using Json.induct with
  | null => exact ⟨rfl, rfl, rfl⟩
  | bool value => exact ⟨rfl, rfl, rfl⟩
  | num value =>
      refine ⟨?_, rfl, rfl⟩
      rw [ofJson, reread, Doubles.reread, laws.finite_ofInt, numberText_ofInt laws,
        laws.strtod_int, if_pos rfl]
      simp only [laws.toInt_ofInt]
  | str text => exact ⟨rfl, rfl, rfl⟩
  | arr items ih =>
      have all : rereadElements (ofItems items : List (JsonItem lib)) = ofItems items ∧
          toItems (ofItems items : List (JsonItem lib)) = items ∧
          depthElements (ofItems items : List (JsonItem lib)) = Json.depthItems items := by
        induction items with
        | nil => exact ⟨rfl, rfl, rfl⟩
        | cons item items more =>
            obtain ⟨read, back, deep⟩ := ih item List.mem_cons_self
            obtain ⟨reads, backs, deeper⟩ := more fun other inside =>
              ih other (List.mem_cons_of_mem item inside)
            simp only [ofItems, rereadElements, toItems, depthElements, Json.depthItems, read, back,
              deep, reads, backs, deeper, and_self]
      simp only [ofJson, reread, toJson, depth, Json.depth, all, and_self]
  | obj fields ih =>
      have all : rereadMembers (ofFields fields : List (CString × JsonItem lib)) = ofFields fields ∧
          toFields (ofFields fields : List (CString × JsonItem lib)) = fields ∧
          depthMembers (ofFields fields : List (CString × JsonItem lib)) =
            Json.depthFields fields := by
        induction fields with
        | nil => exact ⟨rfl, rfl, rfl⟩
        | cons field fields more =>
            obtain ⟨key, value⟩ := field
            obtain ⟨read, back, deep⟩ := ih (key, value) List.mem_cons_self
            obtain ⟨reads, backs, deeper⟩ := more fun other inside =>
              ih other (List.mem_cons_of_mem _ inside)
            simp only at read back deep
            simp only [ofFields, rereadMembers, toFields, depthMembers, Json.depthFields, read,
              back, deep, reads, backs, deeper, and_self]
      simp only [ofJson, reread, toJson, depth, Json.depth, all, and_self]

end JsonItem

/-- `cJSON_Parse`, and what `cJSON_PrintUnformatted` prints when there is memory for it. -/
def CJson.vendored {lib : Doubles} (laws : lib.Lawful) : CJson where
  parse text :=
    match JsonParse.parse lib text with
    | .ok item => some item.toJson
    | .error _ => none
  printUnformatted json :=
    ⟨(JsonItem.ofJson json : JsonItem lib).text false 0, JsonItem.nulFree_text laws false _ 0⟩

/-- Files that `cJSON.c` writes are read back, and no part of one is taken for a file. -/
theorem vendored_sound {lib : Doubles} (laws : lib.Lawful) :
    (CJson.vendored laws).RoundTrips ∧ (CJson.vendored laws).RejectsParts ∧
      ∀ heap json printed, print heap (JsonItem.ofJson json : JsonItem lib) false = .ok printed →
        CString.of printed = (CJson.vendored laws).printUnformatted json := by
  refine ⟨⟨rfl, fun json shallow => ?_⟩, ⟨fun fields front back shallow split short => ?_⟩,
    fun heap json printed ran => ?_⟩
  · obtain ⟨read, back, deep⟩ := JsonItem.reread_ofJson laws json
    have whole : JsonParse.parse lib ((CJson.vendored laws).printUnformatted json) =
        .ok (JsonItem.ofJson json : JsonItem lib).reread :=
      JsonParse.parse_text laws (by rw [deep]; exact shallow) rfl
    simp only [CJson.vendored] at whole ⊢
    rw [whole, read]
    exact congrArg some back
  · have nulFree : 0 ∉ front := fun member => by
      have inside : 0 ∈ (JsonItem.ofJson (.obj fields) : JsonItem lib).text false 0 := by
        rw [show (JsonItem.ofJson (.obj fields) : JsonItem lib).text false 0 = front ++ back from
          split]
        exact List.mem_append_left _ member
      exact JsonItem.nulFree_text laws false _ 0 inside
    have text : (CString.of front).bytes = front := terminated_of_nulFree nulFree
    have deep := (JsonItem.reread_ofJson laws (.obj fields)).2.2
    have failed : JsonParse.parse lib (CString.of front) = .error .failed :=
      JsonParse.parse_front laws (deep.trans_le shallow)
        (show (JsonItem.object (JsonItem.ofFields fields)).text false 0 = _ by
          rw [text]
          exact split) short
    simp only [CJson.vendored, failed]
  · obtain ⟨rfl, -⟩ := print_ok laws ran
    simp only [CString.of, CJson.vendored, CString.mk.injEq]
    exact terminated_append_nul ⟨_, JsonItem.nulFree_text laws false _ 0⟩ []

theorem vendored_sound_integers :
    (CJson.vendored Doubles.integers_lawful).RoundTrips ∧
      (CJson.vendored Doubles.integers_lawful).RejectsParts ∧
      ∀ heap json printed,
        print heap (JsonItem.ofJson json : JsonItem Doubles.integers) false = .ok printed →
          CString.of printed = (CJson.vendored Doubles.integers_lawful).printUnformatted json :=
  vendored_sound Doubles.integers_lawful

end FreeCli

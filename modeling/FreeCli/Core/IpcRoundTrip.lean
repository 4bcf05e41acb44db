import FreeCli.Core.IpcCodec

namespace FreeCli

open Words

/-! Decoding undoes encoding for every payload kind. -/

/-- The characters an optional C string stands for; NULL reads as empty. -/
def text (s : Option CString) : Bytes :=
  match s with
  | none => []
  | some s => s.bytes

/-- A decoded string (NULL or a terminated block) carries the characters of `s`. -/
def Carries : Option Bytes → Option CString → Prop
  | none, s => text s = []
  | some block, s => 0 ∈ block ∧ terminated block = text s

theorem Carries.null (h : text s = []) : Carries none s := h

theorem Carries.block (s : Option CString) :
    Carries (some (text s ++ [0])) s := by
  refine ⟨List.mem_append_right _ (List.mem_singleton_self 0), ?_⟩
  cases s with
  | none => simp [text, terminated]
  | some s => exact terminated_append_nul s []

theorem toNat_strlen32 {s : Option CString} (fits : (text s).length < 2 ^ 32) :
    (strlen32 s).toNat = (text s).length := by
  cases s with
  | none => rfl
  | some s => exact UInt32.toNat_ofNat_of_lt' fits

theorem copied_eq_text {s : Option CString} (fits : (text s).length < 2 ^ 32) :
    copied s = text s := by
  cases s with
  | none => rfl
  | some s =>
      rw [copied, toNat_strlen32 fits]
      exact List.take_length

theorem mallocCopy_text {s : Option CString}
    (fits : (text s).length + 1 < 2 ^ 32) (here : At buf p (text s ++ rest)) :
    mallocCopy buf p (strlen32 s) = some (text s ++ [0]) := by
  have length : (strlen32 s).toNat = (text s).length :=
    toNat_strlen32 (by omega)
  have sum : (strlen32 s + 1).toNat = (text s).length + 1 := by
    rw [UInt32.toNat_add, length]
    exact Nat.mod_eq_of_lt fits
  rw [mallocCopy, if_neg (by omega), length, here.readBytes, Option.map_some]

theorem strlen32_pos {s : Option CString} (fits : (text s).length < 2 ^ 32) :
    strlen32 s > 0 ↔ text s ≠ [] := by
  rw [gt_iff_lt, UInt32.lt_iff_toNat_lt, toNat_strlen32 fits,
    List.length_pos_iff_ne_nil.symm]
  rfl

theorem optional_tail {s : Option CString} (fits : (text s).length < 2 ^ 32)
    (here : At buf p (text s ++ rest)) :
    (strlen32 s > 0 ∧ p + (strlen32 s).toNat ≤ buf.length) ↔ text s ≠ [] := by
  have bound := here.length_eq
  rw [strlen32_pos fits, toNat_strlen32 fits]
  constructor
  · exact And.left
  · intro nonempty
    refine ⟨nonempty, ?_⟩
    rw [List.length_append] at bound
    omega

def RepFinal.size (v : RepFinal) : Nat :=
  12 + (text v.content).length + (text v.reasoning).length

structure RepFinalOut.Agrees (out : RepFinalOut) (v : RepFinal) : Prop where
  sessionIdx : out.sessionIdx = v.sessionIdx
  content : Carries out.content v.content
  reasoning : Carries out.reasoning v.reasoning

theorem ipcEncodeRepFinal_layout (v : RepFinal) (fits : v.size < 2 ^ 32) :
    (ipcEncodeRepFinal v).buf =
      le32 v.sessionIdx ++ (le32 (strlen32 v.content) ++ (text v.content ++
        (le32 (strlen32 v.reasoning) ++ (text v.reasoning ++ [])))) := by
  unfold RepFinal.size at fits
  have ccopy := copied_eq_text (s := v.content) (by omega)
  have rcopy := copied_eq_text (s := v.reasoning) (by omega)
  simp [ipcEncodeRepFinal, ccopy, rcopy]

theorem ipcEncodeRepFinal_length (v : RepFinal) (fits : v.size < 2 ^ 32) :
    (ipcEncodeRepFinal v).buf.length = v.size ∧
      (ipcEncodeRepFinal v).outLen.toNat = v.size := by
  rw [ipcEncodeRepFinal_layout v fits]
  unfold RepFinal.size at fits ⊢
  have clen := toNat_strlen32 (s := v.content) (by omega)
  have rlen := toNat_strlen32 (s := v.reasoning) (by omega)
  have twelve : (4 * 3 : UInt32).toNat = 12 := rfl
  simp only [ipcEncodeRepFinal, UInt32.toNat_add, clen, rlen,
    List.length_append, length_le32, List.length_nil]
  omega

theorem ipcDecodeRepFinal_encode (v : RepFinal) (fits : v.size < 2 ^ 32)
    (before : RepFinalOut) :
    ∃ out, ipcDecodeRepFinal (ipcEncodeRepFinal v).buf before = some (0, out) ∧
      out.Agrees v := by
  unfold RepFinal.size at fits
  have cfits : (text v.content).length < 2 ^ 32 := by omega
  have rfits : (text v.reasoning).length < 2 ^ 32 := by omega
  have layout := ipcEncodeRepFinal_layout v fits
  generalize (ipcEncodeRepFinal v).buf = buf at layout
  have at0 := At.start layout
  have at4 := at0.skip32
  have at8 := at4.skip32
  have atR := at8.skip
  have atT := atR.skip32
  have total := at0.length_eq
  simp only [List.length_append, length_le32, List.length_nil] at total
  have clen := toNat_strlen32 cfits
  have ccopy := mallocCopy_text (by omega) at8
  have rcopy := mallocCopy_text (by omega) atT
  have tail := optional_tail rfits atT
  have long : ¬ buf.length < 12 := by omega
  have cbound : ¬ 8 + (text v.content).length > buf.length := by omega
  have rbound : ¬ 8 + (text v.content).length + 4 > buf.length := by omega
  simp only [ipcDecodeRepFinal, if_neg long, at0.readU32, at4.readU32, clen,
    if_neg cbound, if_neg rbound, ccopy, atR.readU32, Option.bind_eq_bind,
    Option.bind_some]
  by_cases empty : text v.reasoning = []
  · rw [if_neg (fun h => tail.mp h empty)]
    exact ⟨_, rfl, rfl, .block _, .null empty⟩
  · rw [if_pos (tail.mpr empty), rcopy]
    exact ⟨_, rfl, rfl, .block _, .block _⟩

def WorkerStart.size (v : WorkerStart) : Nat :=
  16 + (text v.model).length + (text v.description).length

structure WorkerStartOut.Agrees (out : WorkerStartOut) (v : WorkerStart) :
    Prop where
  parentCorrId : out.parentCorrId = v.parentCorrId
  model : Carries out.model v.model
  description : Carries out.description v.description

theorem ipcEncodeWorkerStart_layout (v : WorkerStart) (fits : v.size < 2 ^ 32) :
    (ipcEncodeWorkerStart v).buf =
      le64 v.parentCorrId ++ (le32 (strlen32 v.model) ++ (text v.model ++
        (le32 (strlen32 v.description) ++ (text v.description ++ [])))) := by
  unfold WorkerStart.size at fits
  have mcopy := copied_eq_text (s := v.model) (by omega)
  have dcopy := copied_eq_text (s := v.description) (by omega)
  simp [ipcEncodeWorkerStart, mcopy, dcopy]

theorem ipcEncodeWorkerStart_length (v : WorkerStart) (fits : v.size < 2 ^ 32) :
    (ipcEncodeWorkerStart v).buf.length = v.size ∧
      (ipcEncodeWorkerStart v).outLen.toNat = v.size := by
  rw [ipcEncodeWorkerStart_layout v fits]
  unfold WorkerStart.size at fits ⊢
  have mlen := toNat_strlen32 (s := v.model) (by omega)
  have dlen := toNat_strlen32 (s := v.description) (by omega)
  have four : (4 : UInt32).toNat = 4 := rfl
  have eight : (8 : UInt32).toNat = 8 := rfl
  simp only [ipcEncodeWorkerStart, UInt32.toNat_add, mlen, dlen,
    List.length_append, length_le32, List.length_nil, length_le64]
  omega

theorem workerStartDescription_encode {d : Option CString}
    (fits : (text d).length + 1 < 2 ^ 32)
    (here : At buf p (le32 (strlen32 d) ++ (text d ++ [])))
    (out : WorkerStartOut) (blank : out.description = none) :
    ∃ description,
      workerStartDescription buf p out = some (0, { out with description }) ∧
        Carries description d := by
  have bound := here.length_eq
  simp only [List.length_append, length_le32] at bound
  have atT := here.skip32
  have tail := optional_tail (by omega) atT
  have dcopy := mallocCopy_text (by omega) atT
  have inside : ¬ p + 4 > buf.length := by omega
  simp only [workerStartDescription, if_neg inside, here.readU32,
    Option.bind_eq_bind, Option.bind_some]
  by_cases empty : text d = []
  · rw [if_neg (fun h => tail.mp h empty)]
    exact ⟨out.description, rfl, by rw [blank]; exact .null empty⟩
  · rw [if_pos (tail.mpr empty), dcopy]
    exact ⟨_, rfl, .block _⟩

theorem ipcDecodeWorkerStart_encode (v : WorkerStart) (fits : v.size < 2 ^ 32)
    (before : WorkerStartOut) :
    ∃ out, ipcDecodeWorkerStart (ipcEncodeWorkerStart v).buf before =
        some (0, out) ∧ out.Agrees v := by
  unfold WorkerStart.size at fits
  have mfits : (text v.model).length < 2 ^ 32 := by omega
  have dfits : (text v.description).length < 2 ^ 32 := by omega
  have layout := ipcEncodeWorkerStart_layout v fits
  generalize (ipcEncodeWorkerStart v).buf = buf at layout
  have at0 := At.start layout
  have at8 := at0.skip64
  have at12 := at8.skip32
  have atD := at12.skip
  have total := at0.length_eq
  simp only [List.length_append, length_le32, length_le64] at total
  have mlen := toNat_strlen32 mfits
  have mcopy := mallocCopy_text (by omega) at12
  have parentBound : ¬ 0 + 8 > buf.length := by omega
  have lenBound : ¬ 8 + 4 > buf.length := by omega
  have modelBound : ¬ 12 + (text v.model).length > buf.length := by omega
  simp only [ipcDecodeWorkerStart, if_neg parentBound, if_neg lenBound,
    at0.readU64, at8.readU32, Option.bind_eq_bind, Option.bind_some]
  by_cases empty : text v.model = []
  · have absent : ¬ strlen32 v.model > 0 := fun h =>
      (strlen32_pos mfits).mp h empty
    obtain ⟨description, decoded, carries⟩ :=
      workerStartDescription_encode (d := v.description) (by omega)
        (by simpa [empty] using atD)
        { before with
          parentCorrId := v.parentCorrId, model := none, description := none }
        rfl
    rw [if_neg absent]
    exact ⟨_, decoded, rfl, .null empty, carries⟩
  · obtain ⟨description, decoded, carries⟩ :=
      workerStartDescription_encode (by omega) atD
        { before with
          parentCorrId := v.parentCorrId
          model := some (text v.model ++ [0])
          description := none } rfl
    rw [if_pos ((strlen32_pos mfits).mpr empty), mlen, if_neg modelBound, mcopy,
      Option.bind_some]
    exact ⟨_, decoded, rfl, .block _, carries⟩

def SessionRename.size (v : SessionRename) : Nat :=
  8 + (text v.topic).length

structure SessionRenameOut.Agrees (out : SessionRenameOut)
    (v : SessionRename) : Prop where
  sessionIdx : out.sessionIdx = v.sessionIdx
  topic : Carries out.topic v.topic

theorem ipcEncodeSessionRename_layout (v : SessionRename) (fits : v.size < 2 ^ 32) :
    (ipcEncodeSessionRename v).buf =
      le32 v.sessionIdx ++ (le32 (strlen32 v.topic) ++ (text v.topic ++ [])) := by
  unfold SessionRename.size at fits
  have tcopy := copied_eq_text (s := v.topic) (by omega)
  simp [ipcEncodeSessionRename, tcopy]

theorem ipcEncodeSessionRename_length (v : SessionRename) (fits : v.size < 2 ^ 32) :
    (ipcEncodeSessionRename v).buf.length = v.size ∧
      (ipcEncodeSessionRename v).outLen.toNat = v.size := by
  rw [ipcEncodeSessionRename_layout v fits]
  unfold SessionRename.size at fits ⊢
  have tlen := toNat_strlen32 (s := v.topic) (by omega)
  have eight : (4 * 2 : UInt32).toNat = 8 := rfl
  simp only [ipcEncodeSessionRename, UInt32.toNat_add, tlen,
    List.length_append, length_le32, List.length_nil]
  omega

theorem ipcDecodeSessionRename_encode (v : SessionRename)
    (fits : v.size < 2 ^ 32) (before : SessionRenameOut) :
    ∃ out, ipcDecodeSessionRename (ipcEncodeSessionRename v).buf before =
        some (0, out) ∧ out.Agrees v := by
  unfold SessionRename.size at fits
  have tfits : (text v.topic).length < 2 ^ 32 := by omega
  have layout := ipcEncodeSessionRename_layout v fits
  generalize (ipcEncodeSessionRename v).buf = buf at layout
  have at0 := At.start layout
  have at4 := at0.skip32
  have at8 := at4.skip32
  have total := at0.length_eq
  simp only [List.length_append, length_le32] at total
  have tcopy := mallocCopy_text (by omega) at8
  have tail := optional_tail tfits at8
  have long : ¬ buf.length < 8 := by omega
  simp only [ipcDecodeSessionRename, if_neg long, at0.readU32, at4.readU32,
    Option.bind_eq_bind, Option.bind_some]
  by_cases empty : text v.topic = []
  · rw [if_neg (fun h => tail.mp h empty)]
    exact ⟨_, rfl, rfl, .null empty⟩
  · rw [if_pos (tail.mpr empty), tcopy]
    exact ⟨_, rfl, rfl, .block _⟩

def WorkerReq.size (v : WorkerReq) : Nat :=
  12 + (text v.op).length + (text v.argsJson).length

structure WorkerReqOut.Agrees (out : WorkerReqOut) (v : WorkerReq) : Prop where
  workerType : out.workerType = v.workerType
  op : Carries out.op v.op
  argsJson : Carries out.argsJson v.argsJson

theorem ipcEncodeWorkerReq_layout (v : WorkerReq) (fits : v.size < 2 ^ 32) :
    (ipcEncodeWorkerReq v).buf =
      le32 v.workerType ++ (le32 (strlen32 v.op) ++ (text v.op ++
        (le32 (strlen32 v.argsJson) ++ (text v.argsJson ++ [])))) := by
  unfold WorkerReq.size at fits
  have opCopy := copied_eq_text (s := v.op) (by omega)
  have argsCopy := copied_eq_text (s := v.argsJson) (by omega)
  simp [ipcEncodeWorkerReq, opCopy, argsCopy]

theorem ipcEncodeWorkerReq_length (v : WorkerReq) (fits : v.size < 2 ^ 32) :
    (ipcEncodeWorkerReq v).buf.length = v.size ∧
      (ipcEncodeWorkerReq v).outLen.toNat = v.size := by
  rw [ipcEncodeWorkerReq_layout v fits]
  unfold WorkerReq.size at fits ⊢
  have opLen := toNat_strlen32 (s := v.op) (by omega)
  have argsLen := toNat_strlen32 (s := v.argsJson) (by omega)
  have twelve : (4 * 3 : UInt32).toNat = 12 := rfl
  simp only [ipcEncodeWorkerReq, UInt32.toNat_add, opLen, argsLen,
    List.length_append, length_le32, List.length_nil]
  omega

theorem ipcDecodeWorkerReq_encode (v : WorkerReq) (fits : v.size < 2 ^ 32)
    (before : WorkerReqOut) :
    ∃ out, ipcDecodeWorkerReq (ipcEncodeWorkerReq v).buf before =
        some (0, out) ∧ out.Agrees v := by
  unfold WorkerReq.size at fits
  have ofits : (text v.op).length < 2 ^ 32 := by omega
  have afits : (text v.argsJson).length < 2 ^ 32 := by omega
  have layout := ipcEncodeWorkerReq_layout v fits
  generalize (ipcEncodeWorkerReq v).buf = buf at layout
  have at0 := At.start layout
  have at4 := at0.skip32
  have at8 := at4.skip32
  have atA := at8.skip
  have atT := atA.skip32
  have total := at0.length_eq
  simp only [List.length_append, length_le32, List.length_nil] at total
  have opLen := toNat_strlen32 ofits
  have argsLen := toNat_strlen32 afits
  have opCopy := mallocCopy_text (by omega) at8
  have argsCopy := mallocCopy_text (by omega) atT
  have long : ¬ buf.length < 12 := by omega
  have opBound : ¬ 8 + (text v.op).length > buf.length := by omega
  have lenBound : ¬ 8 + (text v.op).length + 4 > buf.length := by omega
  have argsBound : ¬ 8 + (text v.op).length + 4 + (text v.argsJson).length >
      buf.length := by omega
  simp only [ipcDecodeWorkerReq, if_neg long, at0.readU32, at4.readU32, opLen,
    if_neg opBound, if_neg lenBound, opCopy, atA.readU32, argsLen,
    if_neg argsBound, argsCopy, Option.bind_eq_bind, Option.bind_some]
  by_cases empty : text v.argsJson = []
  · rw [if_neg fun h => (strlen32_pos afits).mp h empty]
    exact ⟨_, rfl, rfl, .block _, .null empty⟩
  · rw [if_pos ((strlen32_pos afits).mpr empty)]
    exact ⟨_, rfl, rfl, .block _, .block _⟩

/-- A C truth value as the codecs carry it. -/
def normalised (flag : Int) : Int := if flag ≠ 0 then 1 else 0

theorem normalised_byte (flag : Int) :
    (if (if flag ≠ 0 then (1 : UInt8) else 0) ≠ 0 then (1 : Int) else 0) =
      normalised flag := by
  unfold normalised
  split <;> rfl

def WorkerRep.size (v : WorkerRep) : Nat := 5 + (text v.result).length

structure WorkerRepOut.Agrees (out : WorkerRepOut) (v : WorkerRep) : Prop where
  success : out.success = normalised v.success
  result : Carries out.result v.result

theorem ipcEncodeWorkerRep_layout (v : WorkerRep) (fits : v.size < 2 ^ 32) :
    (ipcEncodeWorkerRep v).buf =
      (if v.success ≠ 0 then 1 else 0) :: (le32 (strlen32 v.result) ++
        (text v.result ++ [])) := by
  unfold WorkerRep.size at fits
  have rcopy := copied_eq_text (s := v.result) (by omega)
  simp [ipcEncodeWorkerRep, rcopy]

theorem ipcEncodeWorkerRep_length (v : WorkerRep) (fits : v.size < 2 ^ 32) :
    (ipcEncodeWorkerRep v).buf.length = v.size ∧
      (ipcEncodeWorkerRep v).outLen.toNat = v.size := by
  rw [ipcEncodeWorkerRep_layout v fits]
  unfold WorkerRep.size at fits ⊢
  have rlen := toNat_strlen32 (s := v.result) (by omega)
  have one : (1 : UInt32).toNat = 1 := rfl
  have four : (4 : UInt32).toNat = 4 := rfl
  simp only [ipcEncodeWorkerRep, UInt32.toNat_add, rlen,
    List.length_append, length_le32, List.length_nil, List.length_cons]
  omega

theorem ipcDecodeWorkerRep_encode (v : WorkerRep) (fits : v.size < 2 ^ 32)
    (before : WorkerRepOut) :
    ∃ out, ipcDecodeWorkerRep (ipcEncodeWorkerRep v).buf before =
        some (0, out) ∧ out.Agrees v := by
  unfold WorkerRep.size at fits
  have rfits : (text v.result).length < 2 ^ 32 := by omega
  have layout := ipcEncodeWorkerRep_layout v fits
  generalize (ipcEncodeWorkerRep v).buf = buf at layout
  have at0 := At.start layout
  have at1 := at0.skip8
  have at5 := at1.skip32
  have total := at0.length_eq
  simp only [List.length_cons, List.length_append, length_le32] at total
  have rcopy := mallocCopy_text (by omega) at5
  have tail := optional_tail rfits at5
  have long : ¬ buf.length < 5 := by omega
  simp only [ipcDecodeWorkerRep, if_neg long, at0.readU8, at1.readU32,
    normalised_byte, Option.bind_eq_bind, Option.bind_some]
  by_cases empty : text v.result = []
  · rw [if_neg (fun h => tail.mp h empty)]
    exact ⟨_, rfl, rfl, .null empty⟩
  · rw [if_pos (tail.mpr empty), rcopy]
    exact ⟨_, rfl, rfl, .block _⟩

def ApprovalReq.size (v : ApprovalReq) : Nat :=
  12 + (text v.description).length

structure ApprovalReqOut.Agrees (out : ApprovalReqOut) (v : ApprovalReq) :
    Prop where
  reqCorrId : out.reqCorrId = v.reqCorrId
  description : Carries out.description v.description

theorem ipcEncodeApprovalReq_layout (v : ApprovalReq) (fits : v.size < 2 ^ 32) :
    (ipcEncodeApprovalReq v).buf =
      le64 v.reqCorrId ++ (le32 (strlen32 v.description) ++
        (text v.description ++ [])) := by
  unfold ApprovalReq.size at fits
  have dcopy := copied_eq_text (s := v.description) (by omega)
  simp [ipcEncodeApprovalReq, dcopy]

theorem ipcEncodeApprovalReq_length (v : ApprovalReq) (fits : v.size < 2 ^ 32) :
    (ipcEncodeApprovalReq v).buf.length = v.size ∧
      (ipcEncodeApprovalReq v).outLen.toNat = v.size := by
  rw [ipcEncodeApprovalReq_layout v fits]
  unfold ApprovalReq.size at fits ⊢
  have dlen := toNat_strlen32 (s := v.description) (by omega)
  have four : (4 : UInt32).toNat = 4 := rfl
  have eight : (8 : UInt32).toNat = 8 := rfl
  simp only [ipcEncodeApprovalReq, UInt32.toNat_add, dlen,
    List.length_append, length_le32, List.length_nil, length_le64]
  omega

theorem ipcDecodeApprovalReq_encode (v : ApprovalReq) (fits : v.size < 2 ^ 32)
    (before : ApprovalReqOut) :
    ∃ out, ipcDecodeApprovalReq (ipcEncodeApprovalReq v).buf before =
        some (0, out) ∧ out.Agrees v := by
  unfold ApprovalReq.size at fits
  have dfits : (text v.description).length < 2 ^ 32 := by omega
  have layout := ipcEncodeApprovalReq_layout v fits
  generalize (ipcEncodeApprovalReq v).buf = buf at layout
  have at0 := At.start layout
  have at8 := at0.skip64
  have at12 := at8.skip32
  have total := at0.length_eq
  simp only [List.length_append, length_le32, length_le64] at total
  have dcopy := mallocCopy_text (by omega) at12
  have tail := optional_tail dfits at12
  have long : ¬ buf.length < 12 := by omega
  simp only [ipcDecodeApprovalReq, if_neg long, at0.readU64, at8.readU32,
    Option.bind_eq_bind, Option.bind_some]
  by_cases empty : text v.description = []
  · rw [if_neg (fun h => tail.mp h empty)]
    exact ⟨_, rfl, rfl, .null empty⟩
  · rw [if_pos (tail.mpr empty), dcopy]
    exact ⟨_, rfl, rfl, .block _⟩

def ApprovalRep.size (_ : ApprovalRep) : Nat := 9

structure ApprovalRepOut.Agrees (out : ApprovalRepOut) (v : ApprovalRep) :
    Prop where
  reqCorrId : out.reqCorrId = v.reqCorrId
  approved : out.approved = normalised v.approved

theorem ipcEncodeApprovalRep_length (v : ApprovalRep) :
    (ipcEncodeApprovalRep v).buf.length = v.size ∧
      (ipcEncodeApprovalRep v).outLen.toNat = v.size := by
  simp only [ipcEncodeApprovalRep, List.length_append, length_le64,
    List.length_singleton]
  exact ⟨rfl, rfl⟩

theorem ipcDecodeApprovalRep_encode (v : ApprovalRep)
    (before : ApprovalRepOut) :
    ∃ out, ipcDecodeApprovalRep (ipcEncodeApprovalRep v).buf before =
        some (0, out) ∧ out.Agrees v := by
  have layout : (ipcEncodeApprovalRep v).buf =
      le64 v.reqCorrId ++ [if v.approved ≠ 0 then 1 else 0] := rfl
  generalize (ipcEncodeApprovalRep v).buf = buf at layout
  have at0 := At.start layout
  have at8 := at0.skip64
  have total := at0.length_eq
  simp only [List.length_append, length_le64, List.length_singleton] at total
  have long : ¬ buf.length < 9 := by omega
  simp only [ipcDecodeApprovalRep, if_neg long, at0.readU64, at8.readU8,
    normalised_byte, Option.bind_eq_bind, Option.bind_some]
  exact ⟨_, rfl, rfl, rfl⟩

def msgBytes (m : UInt8 × CString) : Bytes :=
  m.1 :: (le32 (strlen32 (some m.2)) ++ m.2.bytes)

def msgsSize (msgs : List (UInt8 × CString)) : Nat :=
  (msgs.map fun m => 5 + m.2.bytes.length).sum

def ReqSend.size (v : ReqSend) : Nat :=
  8 + msgsSize v.msgs + (4 + (text v.model).length) +
    (4 + (text v.provider).length)

structure ReqSendOut.Agrees (out : ReqSendOut) (v : ReqSend) : Prop where
  sessionIdx : out.sessionIdx = v.sessionIdx
  msgCount : out.msgCount.toNat = v.msgs.length
  texts : out.texts = some (v.msgs.map fun m => some (m.2.bytes ++ [0]))
  isUser : out.isUser = some (v.msgs.map Prod.fst)
  model : Carries out.model v.model
  provider : Carries out.provider v.provider

@[simp] theorem msgsSize_nil : msgsSize [] = 0 := rfl

@[simp] theorem msgsSize_cons (m : UInt8 × CString)
    (msgs : List (UInt8 × CString)) :
    msgsSize (m :: msgs) = 5 + m.2.bytes.length + msgsSize msgs := by
  simp [msgsSize]

theorem length_flatMap_msgBytes (msgs : List (UInt8 × CString)) :
    (msgs.flatMap msgBytes).length = msgsSize msgs := by
  induction msgs with
  | nil => rfl
  | cons m msgs ih =>
      simp only [List.flatMap_cons, List.length_append, ih, msgsSize_cons,
        msgBytes, List.length_cons, length_le32]
      omega

theorem length_le_msgsSize (msgs : List (UInt8 × CString)) :
    msgs.length ≤ msgsSize msgs := by
  induction msgs with
  | nil => simp
  | cons m msgs ih =>
      simp only [List.length_cons, msgsSize_cons]
      omega

theorem toNat_foldl_size (msgs : List (UInt8 × CString)) (sz : UInt32)
    (fits : sz.toNat + msgsSize msgs < 2 ^ 32) :
    (msgs.foldl (fun sz m => sz + (1 + 4 + strlen32 (some m.2))) sz).toNat =
      sz.toNat + msgsSize msgs := by
  induction msgs generalizing sz with
  | nil => simp
  | cons m msgs ih =>
      rw [msgsSize_cons] at fits ⊢
      have tlen : (strlen32 (some m.2)).toNat = m.2.bytes.length :=
        toNat_strlen32 (s := some m.2) (by change m.2.bytes.length < _; omega)
      have five : (1 + 4 : UInt32).toNat = 5 := rfl
      have next : (sz + (1 + 4 + strlen32 (some m.2))).toNat =
          sz.toNat + (5 + m.2.bytes.length) := by
        rw [UInt32.toNat_add, UInt32.toNat_add, tlen, five]
        omega
      rw [List.foldl_cons, ih _ (by omega), next]
      omega

theorem flatMap_copied (msgs : List (UInt8 × CString))
    (fits : msgsSize msgs < 2 ^ 32) :
    (msgs.flatMap fun m =>
        m.1 :: (le32 (strlen32 (some m.2)) ++ copied (some m.2))) =
      msgs.flatMap msgBytes := by
  induction msgs with
  | nil => rfl
  | cons m msgs ih =>
      rw [msgsSize_cons] at fits
      have tcopy : copied (some m.2) = m.2.bytes :=
        copied_eq_text (s := some m.2) (by change m.2.bytes.length < _; omega)
      rw [List.flatMap_cons, List.flatMap_cons, ih (by omega), tcopy, msgBytes]

theorem ipcEncodeReqSend_layout (v : ReqSend) (fits : v.size < 2 ^ 32) :
    (ipcEncodeReqSend v).buf =
      le32 v.sessionIdx ++ (le32 (UInt32.ofNat v.msgs.length) ++
        (v.msgs.flatMap msgBytes ++ (le32 (strlen32 v.model) ++
          (text v.model ++ (le32 (strlen32 v.provider) ++
            (text v.provider ++ [])))))) := by
  unfold ReqSend.size at fits
  have mcopy := copied_eq_text (s := v.model) (by omega)
  have pcopy := copied_eq_text (s := v.provider) (by omega)
  have list := flatMap_copied v.msgs (by omega)
  simp [ipcEncodeReqSend, list, mcopy, pcopy]

theorem ipcEncodeReqSend_length (v : ReqSend) (fits : v.size < 2 ^ 32) :
    (ipcEncodeReqSend v).buf.length = v.size ∧
      (ipcEncodeReqSend v).outLen.toNat = v.size := by
  rw [ipcEncodeReqSend_layout v fits]
  unfold ReqSend.size at fits ⊢
  have mlen := toNat_strlen32 (s := v.model) (by omega)
  have plen := toNat_strlen32 (s := v.provider) (by omega)
  have eight : (4 * 2 : UInt32).toNat = 8 := rfl
  have four : (4 : UInt32).toNat = 4 := rfl
  have list := toNat_foldl_size v.msgs (4 * 2) (by omega)
  simp only [ipcEncodeReqSend, UInt32.toNat_add, mlen, plen, list,
    List.length_append, length_le32, length_flatMap_msgBytes, List.length_nil]
  omega

theorem reqSendLoop_encode (msgs : List (UInt8 × CString))
    (fits : p + msgsSize msgs + 1 < 2 ^ 32)
    (here : At buf p (msgs.flatMap msgBytes ++ rest)) (out : ReqSendOut)
    (users : List UInt8) (stored : List (Option Bytes))
    (userArray : out.isUser = some (users ++ List.replicate msgs.length 0))
    (textArray : out.texts = some (stored ++ List.replicate msgs.length none))
    (same : users.length = stored.length) :
    ∃ q, reqSendLoop buf msgs.length stored.length p out =
        some (0, q, { out with
          isUser := some (users ++ msgs.map Prod.fst)
          texts := some (stored ++
            msgs.map fun m => some (m.2.bytes ++ [0])) }) ∧
      At buf q rest := by
  induction msgs generalizing p out users stored with
  | nil =>
      refine ⟨p, ?_, here⟩
      simp only [List.length_nil, List.replicate_zero, List.append_nil,
        List.map_nil] at userArray textArray ⊢
      rw [reqSendLoop, ← userArray, ← textArray]
  | cons m msgs ih =>
      rw [msgsSize_cons] at fits
      have split : At buf p (m.1 :: (le32 (strlen32 (some m.2)) ++
          (text (some m.2) ++ (msgs.flatMap msgBytes ++ rest)))) := by
        simpa [msgBytes, text] using here
      have atLen := split.skip8
      have atText := atLen.skip32
      have atRest := atText.skip
      have total := split.length_eq
      simp only [List.length_cons, List.length_append, length_le32] at total
      have length : (text (some m.2)).length = m.2.bytes.length := rfl
      have tlen := toNat_strlen32 (s := some m.2) (by omega)
      have tcopy := mallocCopy_text (by omega) atText
      have header : ¬ p + 5 > buf.length := by omega
      have body : ¬ p + 1 + 4 + m.2.bytes.length > buf.length := by omega
      have setUser : out.setUser stored.length m.1 = some { out with
          isUser := some (users ++ [m.1] ++ List.replicate msgs.length 0) } := by
        simp [ReqSendOut.setUser, userArray, ← same, List.replicate_succ,
          List.set_append_right]
      have setText : ({ out with
          isUser := some (users ++ [m.1] ++ List.replicate msgs.length 0) } :
            ReqSendOut).setText stored.length (text (some m.2) ++ [0]) =
          some { out with
            isUser := some (users ++ [m.1] ++ List.replicate msgs.length 0)
            texts := some (stored ++ [some (m.2.bytes ++ [0])] ++
              List.replicate msgs.length none) } := by
        simp [ReqSendOut.setText, textArray, List.replicate_succ, text,
          List.set_append_right]
      rw [length] at atRest
      obtain ⟨q, loop, atEnd⟩ := ih (p := p + 1 + 4 + m.2.bytes.length)
        (by omega) atRest
        { out with
          isUser := some (users ++ [m.1] ++ List.replicate msgs.length 0)
          texts := some (stored ++ [some (m.2.bytes ++ [0])] ++
            List.replicate msgs.length none) }
        (users ++ [m.1]) (stored ++ [some (m.2.bytes ++ [0])]) rfl rfl
        (by simp [same])
      refine ⟨q, ?_, atEnd⟩
      rw [List.length_append, List.length_singleton] at loop
      simp only [List.length_cons, reqSendLoop, if_neg header, split.readU8,
        setUser, atLen.readU32, tlen, length, if_neg body, tcopy, setText, loop,
        Option.bind_eq_bind, Option.bind_some]
      simp

theorem reqSendProvider_encode {v : Option CString}
    (fits : (text v).length + 1 < 2 ^ 32)
    (here : At buf p (le32 (strlen32 v) ++ (text v ++ []))) (out : ReqSendOut)
    (blank : out.provider = none) :
    ∃ provider, reqSendProvider buf p out = some (0, { out with provider }) ∧
      Carries provider v := by
  have bound := here.length_eq
  simp only [List.length_append, length_le32] at bound
  have atT := here.skip32
  have tail := optional_tail (by omega) atT
  have pcopy := mallocCopy_text (by omega) atT
  have inside : p + 4 ≤ buf.length := by omega
  simp only [reqSendProvider, if_pos inside, here.readU32, Option.bind_eq_bind,
    Option.bind_some]
  by_cases empty : text v = []
  · rw [if_neg (fun h => tail.mp h empty)]
    exact ⟨out.provider, rfl, by rw [blank]; exact .null empty⟩
  · rw [if_pos (tail.mpr empty), pcopy]
    exact ⟨_, rfl, .block _⟩

theorem reqSendModel_encode {m v : Option CString}
    (fits : (text m).length + (text v).length + 1 < 2 ^ 32)
    (here : At buf p (le32 (strlen32 m) ++ (text m ++
      (le32 (strlen32 v) ++ (text v ++ []))))) (out : ReqSendOut)
    (blankModel : out.model = none) (blankProvider : out.provider = none) :
    ∃ model provider,
      reqSendModel buf p out = some (0, { out with model, provider }) ∧
        Carries model m ∧ Carries provider v := by
  have bound := here.length_eq
  simp only [List.length_append, length_le32] at bound
  have atT := here.skip32
  have atP := atT.skip
  have mfits : (text m).length < 2 ^ 32 := by omega
  have tail := optional_tail mfits atT
  have mlen := toNat_strlen32 mfits
  have mcopy := mallocCopy_text (by omega) atT
  have inside : p + 4 ≤ buf.length := by omega
  simp only [reqSendModel, if_pos inside, here.readU32, Option.bind_eq_bind,
    Option.bind_some]
  by_cases empty : text m = []
  · rw [if_neg (fun h => tail.mp h empty)]
    obtain ⟨provider, decoded, carries⟩ := reqSendProvider_encode
      (v := v) (by omega) (by simpa [empty] using atP) out blankProvider
    exact ⟨out.model, provider, decoded, by rw [blankModel]; exact .null empty,
      carries⟩
  · rw [if_pos (tail.mpr empty), mcopy, Option.bind_some, mlen]
    obtain ⟨provider, decoded, carries⟩ := reqSendProvider_encode
      (v := v) (by omega) atP { out with model := some (text m ++ [0]) } blankProvider
    exact ⟨_, provider, decoded, .block _, carries⟩

theorem ipcDecodeReqSend_encode (v : ReqSend) (fits : v.size < 2 ^ 32)
    (before : ReqSendOut) :
    ∃ out, ipcDecodeReqSend (ipcEncodeReqSend v).buf before = some (0, out) ∧
      out.Agrees v := by
  unfold ReqSend.size at fits
  have layout := ipcEncodeReqSend_layout v fits
  generalize (ipcEncodeReqSend v).buf = buf at layout
  have at0 := At.start layout
  have at4 := at0.skip32
  have at8 := at4.skip32
  have total := at0.length_eq
  simp only [List.length_append, length_le32] at total
  have short := length_le_msgsSize v.msgs
  have count : (UInt32.ofNat v.msgs.length).toNat = v.msgs.length :=
    UInt32.toNat_ofNat_of_lt' (by change _ < 2 ^ 32; omega)
  have long : ¬ buf.length < 8 := by omega
  obtain ⟨q, loop, atTail⟩ := reqSendLoop_encode v.msgs (by omega) at8
    { sessionIdx := v.sessionIdx
      msgCount := UInt32.ofNat v.msgs.length
      texts := some (List.replicate v.msgs.length none)
      isUser := some (List.replicate v.msgs.length 0)
      model := none
      provider := none } [] [] rfl rfl rfl
  obtain ⟨model, provider, decoded, carriesModel, carriesProvider⟩ :=
    reqSendModel_encode (m := v.model) (v := v.provider) (by omega) atTail
      { sessionIdx := v.sessionIdx
        msgCount := UInt32.ofNat v.msgs.length
        texts := some (v.msgs.map fun m => some (m.2.bytes ++ [0]))
        isUser := some (v.msgs.map Prod.fst)
        model := none
        provider := none } rfl rfl
  simp only [List.length_nil, List.nil_append] at loop
  simp only [ipcDecodeReqSend, if_neg long, at0.readU32, at4.readU32, count,
    loop, Option.bind_eq_bind, Option.bind_some, if_pos]
  exact ⟨_, decoded, rfl, count, rfl, rfl, carriesModel, carriesProvider⟩

/-! ### All payload kinds -/

/-- One payload kind: its encoder, its decoder and what decoding must yield. -/
structure PayloadCodec where
  Value : Type
  Out : Type
  /-- Number of payload bytes, computed without wrapping. -/
  size : Value → Nat
  encode : Value → Encoded
  decode : Bytes → Out → Option (Int × Out)
  Agrees : Out → Value → Prop

inductive PayloadKind
  | reqSend
  | repFinal
  | workerStart
  | sessionRename
  | workerReq
  | workerRep
  | approvalReq
  | approvalRep
  deriving DecidableEq, Repr

def PayloadKind.codec : PayloadKind → PayloadCodec
  | .reqSend =>
      ⟨ReqSend, ReqSendOut, ReqSend.size, ipcEncodeReqSend, ipcDecodeReqSend,
        ReqSendOut.Agrees⟩
  | .repFinal =>
      ⟨RepFinal, RepFinalOut, RepFinal.size, ipcEncodeRepFinal,
        ipcDecodeRepFinal, RepFinalOut.Agrees⟩
  | .workerStart =>
      ⟨WorkerStart, WorkerStartOut, WorkerStart.size, ipcEncodeWorkerStart,
        ipcDecodeWorkerStart, WorkerStartOut.Agrees⟩
  | .sessionRename =>
      ⟨SessionRename, SessionRenameOut, SessionRename.size,
        ipcEncodeSessionRename, ipcDecodeSessionRename,
        SessionRenameOut.Agrees⟩
  | .workerReq =>
      ⟨WorkerReq, WorkerReqOut, WorkerReq.size, ipcEncodeWorkerReq,
        ipcDecodeWorkerReq, WorkerReqOut.Agrees⟩
  | .workerRep =>
      ⟨WorkerRep, WorkerRepOut, WorkerRep.size, ipcEncodeWorkerRep,
        ipcDecodeWorkerRep, WorkerRepOut.Agrees⟩
  | .approvalReq =>
      ⟨ApprovalReq, ApprovalReqOut, ApprovalReq.size, ipcEncodeApprovalReq,
        ipcDecodeApprovalReq, ApprovalReqOut.Agrees⟩
  | .approvalRep =>
      ⟨ApprovalRep, ApprovalRepOut, ApprovalRep.size, ipcEncodeApprovalRep,
        ipcDecodeApprovalRep, ApprovalRepOut.Agrees⟩

/-- Whatever the output parameters held before the call, decoding an encoded
payload succeeds and yields the encoded values. -/
theorem payload_decode_encode (kind : PayloadKind) (v : kind.codec.Value)
    (fits : kind.codec.size v < 2 ^ 32) (before : kind.codec.Out) :
    (kind.codec.encode v).buf.length = kind.codec.size v ∧
      (kind.codec.encode v).outLen.toNat = (kind.codec.encode v).buf.length ∧
      ∃ out, kind.codec.decode (kind.codec.encode v).buf before =
          some (0, out) ∧ kind.codec.Agrees out v := by
  have lengths : (kind.codec.encode v).buf.length = kind.codec.size v ∧
      (kind.codec.encode v).outLen.toNat = kind.codec.size v := by
    cases kind with
    | reqSend => exact ipcEncodeReqSend_length v fits
    | repFinal => exact ipcEncodeRepFinal_length v fits
    | workerStart => exact ipcEncodeWorkerStart_length v fits
    | sessionRename => exact ipcEncodeSessionRename_length v fits
    | workerReq => exact ipcEncodeWorkerReq_length v fits
    | workerRep => exact ipcEncodeWorkerRep_length v fits
    | approvalReq => exact ipcEncodeApprovalReq_length v fits
    | approvalRep => exact ipcEncodeApprovalRep_length v
  refine ⟨lengths.1, lengths.2.trans lengths.1.symm, ?_⟩
  cases kind with
  | reqSend => exact ipcDecodeReqSend_encode v fits before
  | repFinal => exact ipcDecodeRepFinal_encode v fits before
  | workerStart => exact ipcDecodeWorkerStart_encode v fits before
  | sessionRename => exact ipcDecodeSessionRename_encode v fits before
  | workerReq => exact ipcDecodeWorkerReq_encode v fits before
  | workerRep => exact ipcDecodeWorkerRep_encode v fits before
  | approvalReq => exact ipcDecodeApprovalReq_encode v fits before
  | approvalRep => exact ipcDecodeApprovalRep_encode v before

def sampleReqSend : ReqSend where
  sessionIdx := 3
  msgs := [(1, ⟨[104, 105], by decide⟩), (0, ⟨[], by decide⟩)]
  model := some ⟨[103], by decide⟩
  provider := none

def ReqSendOut.zeroed : ReqSendOut := ⟨0, 0, none, none, none, none⟩

theorem payload_decode_encode_reqSend :
    (ipcEncodeReqSend sampleReqSend).buf.length = 29 ∧
      (ipcEncodeReqSend sampleReqSend).outLen.toNat =
        (ipcEncodeReqSend sampleReqSend).buf.length ∧
      ∃ out, ipcDecodeReqSend (ipcEncodeReqSend sampleReqSend).buf .zeroed =
          some (0, out) ∧ out.Agrees sampleReqSend :=
  payload_decode_encode .reqSend sampleReqSend (by decide) .zeroed

end FreeCli

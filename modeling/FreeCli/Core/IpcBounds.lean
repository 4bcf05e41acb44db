import FreeCli.Library.Guarded
import FreeCli.Core.IpcRoundTrip

namespace FreeCli

open Words Guarded

/-! No decoder leaves its payload or its heap blocks, whatever the payload. -/

/-- What a decoder returns, and the string blocks it leaves in the output
parameters: terminated ones next to those it found there. -/
structure Decoded (strings : Out → List Bytes) (before : Out)
    (result : Int × Out) : Prop where
  ret : result.1 = 0 ∨ result.1 = -1
  terminated : ∀ block ∈ strings result.2, 0 ∈ block ∨ block ∈ strings before

theorem ensures_mallocCopy {len : UInt32} (short : buf.length < 2 ^ 32)
    (behind : 0 < p) (inside : p + len.toNat ≤ buf.length) :
    Ensures (mallocCopy buf p len) fun block => (0 : UInt8) ∈ block := by
  have sum : (len + 1).toNat = len.toNat + 1 := by
    rw [UInt32.toNat_add]
    exact Nat.mod_eq_of_lt (by change len.toNat + 1 < 2 ^ 32; omega)
  obtain ⟨bytes, read, _⟩ := ensures_readBytes inside
  refine ⟨bytes ++ [0], ?_, by simp⟩
  rw [mallocCopy, if_neg (by omega), read, Option.map_some]

def RepFinalOut.strings (out : RepFinalOut) : List Bytes :=
  out.content.toList ++ out.reasoning.toList

theorem ipcDecodeRepFinal_inside (short : buf.length < 2 ^ 32)
    (before : RepFinalOut) :
    Ensures (ipcDecodeRepFinal buf before) (Decoded RepFinalOut.strings before) := by
  rw [ipcDecodeRepFinal]
  apply Ensures.ite
  · intro _
    exact .pure ⟨.inr rfl, fun _ => .inr⟩
  intro long
  apply Ensures.bind (ensures_readU32 (by omega))
  intro sessionIdx _
  apply Ensures.bind (ensures_readU32 (by omega))
  intro clen _
  apply Ensures.ite
  · intro _
    exact .pure ⟨.inr rfl, fun _ => .inr⟩
  intro contentFits
  apply Ensures.bind (ensures_mallocCopy short (by omega) (by omega))
  intro content closed
  have withContent : ∀ block ∈ [content], 0 ∈ block ∨ block ∈ before.strings := by
    simp [closed]
  apply Ensures.ite
  · intro _
    exact .pure ⟨.inl rfl, withContent⟩
  intro more
  apply Ensures.bind (ensures_readU32 (by omega))
  intro rlen _
  apply Ensures.ite
  · intro present
    apply Ensures.bind (ensures_mallocCopy short (by omega) present.2)
    intro reasoning closedToo
    exact .pure ⟨.inl rfl, by simp [RepFinalOut.strings, closed, closedToo]⟩
  · intro _
    exact .pure ⟨.inl rfl, withContent⟩

def WorkerStartOut.strings (out : WorkerStartOut) : List Bytes :=
  out.model.toList ++ out.description.toList

theorem workerStartDescription_inside (short : buf.length < 2 ^ 32)
    (out : WorkerStartOut)
    (closed : ∀ block ∈ out.strings, 0 ∈ block ∨ block ∈ before.strings) :
    Ensures (workerStartDescription buf p out)
      (Decoded WorkerStartOut.strings before) := by
  rw [workerStartDescription]
  apply Ensures.ite
  · intro _
    exact .pure ⟨.inl rfl, closed⟩
  intro more
  apply Ensures.bind (ensures_readU32 (by omega))
  intro dlen _
  apply Ensures.ite
  · intro present
    apply Ensures.bind (ensures_mallocCopy short (by omega) present.2)
    intro description ended
    refine .pure ⟨.inl rfl, ?_⟩
    intro block member
    rw [WorkerStartOut.strings, List.mem_append] at member
    cases member with
    | inl model => exact closed block (List.mem_append_left _ model)
    | inr described =>
        have same := Option.some.inj (Option.mem_toList.1 described)
        exact .inl (same ▸ ended)
  · intro _
    exact .pure ⟨.inl rfl, closed⟩

theorem ipcDecodeWorkerStart_inside (short : buf.length < 2 ^ 32)
    (before : WorkerStartOut) :
    Ensures (ipcDecodeWorkerStart buf before)
      (Decoded WorkerStartOut.strings before) := by
  rw [ipcDecodeWorkerStart]
  apply Ensures.ite
  · intro _
    exact .pure ⟨.inr rfl, by simp [WorkerStartOut.strings]⟩
  intro parent
  apply Ensures.bind (ensures_readU64 (by omega))
  intro parentCorrId _
  apply Ensures.ite
  · intro _
    exact .pure ⟨.inr rfl, by simp [WorkerStartOut.strings]⟩
  intro long
  apply Ensures.bind (ensures_readU32 (by omega))
  intro mlen _
  apply Ensures.ite
  · intro _
    apply Ensures.ite
    · intro _
      exact .pure ⟨.inr rfl, by simp [WorkerStartOut.strings]⟩
    intro inside
    apply Ensures.bind (ensures_mallocCopy short (by omega) (by omega))
    intro model closed
    exact workerStartDescription_inside short _
      (by simp [WorkerStartOut.strings, closed])
  · intro _
    exact workerStartDescription_inside short _
      (by simp [WorkerStartOut.strings])

def SessionRenameOut.strings (out : SessionRenameOut) : List Bytes :=
  out.topic.toList

theorem ipcDecodeSessionRename_inside (short : buf.length < 2 ^ 32)
    (before : SessionRenameOut) :
    Ensures (ipcDecodeSessionRename buf before)
      (Decoded SessionRenameOut.strings before) := by
  rw [ipcDecodeSessionRename]
  apply Ensures.ite
  · intro _
    exact .pure ⟨.inr rfl, by simp [SessionRenameOut.strings]⟩
  intro long
  apply Ensures.bind (ensures_readU32 (by omega))
  intro sessionIdx _
  apply Ensures.bind (ensures_readU32 (by omega))
  intro tlen _
  apply Ensures.ite
  · intro present
    apply Ensures.bind (ensures_mallocCopy short (by omega) present.2)
    intro topic closed
    exact .pure ⟨.inl rfl, by simp [SessionRenameOut.strings, closed]⟩
  · intro _
    exact .pure ⟨.inl rfl, by simp [SessionRenameOut.strings]⟩

def WorkerReqOut.strings (out : WorkerReqOut) : List Bytes :=
  out.op.toList ++ out.argsJson.toList

theorem ipcDecodeWorkerReq_inside (short : buf.length < 2 ^ 32)
    (before : WorkerReqOut) :
    Ensures (ipcDecodeWorkerReq buf before)
      (Decoded WorkerReqOut.strings before) := by
  rw [ipcDecodeWorkerReq]
  apply Ensures.ite
  · intro _
    exact .pure ⟨.inr rfl, by simp [WorkerReqOut.strings]⟩
  intro long
  apply Ensures.bind (ensures_readU32 (by omega))
  intro workerType _
  apply Ensures.bind (ensures_readU32 (by omega))
  intro opLen _
  apply Ensures.ite
  · intro _
    exact .pure ⟨.inr rfl, by simp [WorkerReqOut.strings]⟩
  intro opFits
  apply Ensures.bind (ensures_mallocCopy short (by omega) (by omega))
  intro op closed
  apply Ensures.ite
  · intro _
    exact .pure ⟨.inr rfl, by simp [WorkerReqOut.strings, closed]⟩
  intro more
  apply Ensures.bind (ensures_readU32 (by omega))
  intro argsLen _
  apply Ensures.ite
  · intro _
    apply Ensures.ite
    · intro _
      exact .pure ⟨.inr rfl, by simp [WorkerReqOut.strings]⟩
    intro argsFit
    apply Ensures.bind (ensures_mallocCopy short (by omega) (by omega))
    intro argsJson closedToo
    exact .pure ⟨.inl rfl, by simp [WorkerReqOut.strings, closed, closedToo]⟩
  · intro _
    exact .pure ⟨.inl rfl, by simp [WorkerReqOut.strings, closed]⟩

def WorkerRepOut.strings (out : WorkerRepOut) : List Bytes :=
  out.result.toList

theorem ipcDecodeWorkerRep_inside (short : buf.length < 2 ^ 32)
    (before : WorkerRepOut) :
    Ensures (ipcDecodeWorkerRep buf before)
      (Decoded WorkerRepOut.strings before) := by
  rw [ipcDecodeWorkerRep]
  apply Ensures.ite
  · intro _
    exact .pure ⟨.inr rfl, by simp [WorkerRepOut.strings]⟩
  intro long
  apply Ensures.bind (ensures_readU8 (by omega))
  intro flag _
  apply Ensures.bind (ensures_readU32 (by omega))
  intro rlen _
  apply Ensures.ite
  · intro present
    apply Ensures.bind (ensures_mallocCopy short (by omega) present.2)
    intro result closed
    exact .pure ⟨.inl rfl, by simp [WorkerRepOut.strings, closed]⟩
  · intro _
    exact .pure ⟨.inl rfl, by simp [WorkerRepOut.strings]⟩

def ApprovalReqOut.strings (out : ApprovalReqOut) : List Bytes :=
  out.description.toList

theorem ipcDecodeApprovalReq_inside (short : buf.length < 2 ^ 32)
    (before : ApprovalReqOut) :
    Ensures (ipcDecodeApprovalReq buf before)
      (Decoded ApprovalReqOut.strings before) := by
  rw [ipcDecodeApprovalReq]
  apply Ensures.ite
  · intro _
    exact .pure ⟨.inr rfl, by simp [ApprovalReqOut.strings]⟩
  intro long
  apply Ensures.bind (ensures_readU64 (by omega))
  intro reqCorrId _
  apply Ensures.bind (ensures_readU32 (by omega))
  intro dlen _
  apply Ensures.ite
  · intro present
    apply Ensures.bind (ensures_mallocCopy short (by omega) present.2)
    intro description closed
    exact .pure ⟨.inl rfl, by simp [ApprovalReqOut.strings, closed]⟩
  · intro _
    exact .pure ⟨.inl rfl, by simp [ApprovalReqOut.strings]⟩

theorem ipcDecodeApprovalRep_inside (buf : Bytes) (before : ApprovalRepOut) :
    Ensures (ipcDecodeApprovalRep buf before) (Decoded (fun _ => []) before) := by
  rw [ipcDecodeApprovalRep]
  apply Ensures.ite
  · intro _
    exact .pure ⟨.inr rfl, by simp⟩
  intro long
  apply Ensures.bind (ensures_readU64 (by omega))
  intro reqCorrId _
  apply Ensures.bind (ensures_readU8 (by omega))
  intro flag _
  exact .pure ⟨.inl rfl, by simp⟩

def ReqSendOut.strings (out : ReqSendOut) : List Bytes :=
  (out.texts.getD []).flatMap Option.toList ++ out.model.toList ++
    out.provider.toList

/-- The arrays have `msg_count` places and every string is terminated. -/
structure ReqSendOut.Sound (out : ReqSendOut) (count : Nat) : Prop where
  isUser : ∃ users, out.isUser = some users ∧ users.length = count
  texts : ∃ blocks, out.texts = some blocks ∧ blocks.length = count
  terminated : ∀ block ∈ out.strings, 0 ∈ block

theorem ReqSendOut.Sound.setUser {out : ReqSendOut} (sound : out.Sound count)
    (inside : i < count) (user : UInt8) :
    Ensures (out.setUser i user) fun after => after.Sound count := by
  obtain ⟨users, found, length⟩ := sound.isUser
  refine ⟨{ out with isUser := some (users.set i user) }, ?_, ?_⟩
  · rw [ReqSendOut.setUser, found]
    exact if_pos (length ▸ inside)
  · exact ⟨⟨_, rfl, by rw [List.length_set, length]⟩, sound.texts, sound.terminated⟩

theorem ReqSendOut.Sound.setText {out : ReqSendOut} (sound : out.Sound count)
    (inside : i < count) (closed : (0 : UInt8) ∈ block) :
    Ensures (out.setText i block) fun after => after.Sound count := by
  obtain ⟨blocks, found, length⟩ := sound.texts
  refine ⟨{ out with texts := some (blocks.set i (some block)) }, ?_, ?_⟩
  · rw [ReqSendOut.setText, found]
    exact if_pos (length ▸ inside)
  · refine ⟨sound.isUser, ⟨_, rfl, by rw [List.length_set, length]⟩, ?_⟩
    intro other member
    have ended := sound.terminated
    simp only [ReqSendOut.strings, found, Option.getD_some, List.mem_append,
      List.mem_flatMap] at member ended
    obtain (⟨place, placed, inPlace⟩ | model) | provider := member
    · cases List.mem_or_eq_of_mem_set placed with
      | inl old => exact ended other (.inl (.inl ⟨place, old, inPlace⟩))
      | inr new =>
          subst new
          have same := Option.some.inj (Option.mem_toList.1 inPlace)
          exact same ▸ closed
    · exact ended other (.inl (.inr model))
    · exact ended other (.inr provider)

theorem reqSendLoop_inside (short : buf.length < 2 ^ 32) (todo : Nat)
    {i p count : Nat} (behind : 0 < p) (rounds : i + todo = count)
    {out : ReqSendOut} (sound : out.Sound count) :
    Ensures (reqSendLoop buf todo i p out) fun result =>
      (result.1 = 0 ∨ result.1 = -1) ∧ 0 < result.2.1 ∧
        result.2.2.Sound count := by
  induction todo generalizing i p out with
  | zero => exact .pure ⟨.inl rfl, behind, sound⟩
  | succ todo ih =>
      have place : i < count := by omega
      rw [reqSendLoop]
      apply Ensures.ite
      · intro _
        exact .pure ⟨.inr rfl, behind, sound⟩
      intro header
      apply Ensures.bind (ensures_readU8 (by omega))
      intro user _
      apply Ensures.bind (sound.setUser place user)
      intro withUser sound
      apply Ensures.bind (ensures_readU32 (by omega))
      intro tlen _
      apply Ensures.ite
      · intro _
        exact .pure ⟨.inr rfl, Nat.succ_pos _, sound⟩
      intro inside
      apply Ensures.bind (ensures_mallocCopy short (by omega) (by omega))
      intro block closed
      apply Ensures.bind (sound.setText place closed)
      intro withText sound
      exact ih (i := i + 1) (by omega) (by omega) sound

theorem ReqSendOut.Sound.withProvider {out : ReqSendOut} {provider : Bytes}
    (sound : out.Sound count)
    (closed : (0 : UInt8) ∈ provider) :
    ({ out with provider := some provider } : ReqSendOut).Sound count := by
  refine ⟨sound.isUser, sound.texts, ?_⟩
  intro block member
  have ended := sound.terminated block
  simp only [ReqSendOut.strings, List.mem_append] at member ended
  obtain old | new := member
  · exact ended (.inl old)
  · have same := Option.some.inj (Option.mem_toList.1 new)
    exact same ▸ closed

theorem ReqSendOut.Sound.withModel {out : ReqSendOut} {model : Bytes}
    (sound : out.Sound count)
    (closed : (0 : UInt8) ∈ model) :
    ({ out with model := some model } : ReqSendOut).Sound count := by
  refine ⟨sound.isUser, sound.texts, ?_⟩
  intro block member
  have ended := sound.terminated block
  simp only [ReqSendOut.strings, List.mem_append] at member ended
  obtain (old | new) | provider := member
  · exact ended (.inl (.inl old))
  · have same := Option.some.inj (Option.mem_toList.1 new)
    exact same ▸ closed
  · exact ended (.inr provider)

theorem ReqSendOut.Sound.decoded {out : ReqSendOut} (sound : out.Sound count)
    (ret : r = 0 ∨ r = -1) : Decoded ReqSendOut.strings before (r, out) :=
  ⟨ret, fun block member => .inl (sound.terminated block member)⟩

theorem reqSendProvider_inside (short : buf.length < 2 ^ 32) (p : Nat)
    {out : ReqSendOut} (sound : out.Sound count) :
    Ensures (reqSendProvider buf p out) (Decoded ReqSendOut.strings before) := by
  rw [reqSendProvider]
  apply Ensures.ite
  · intro more
    apply Ensures.bind (ensures_readU32 (by omega))
    intro plen _
    apply Ensures.ite
    · intro present
      apply Ensures.bind (ensures_mallocCopy short (by omega) present.2)
      intro provider closed
      exact .pure ((sound.withProvider closed).decoded (.inl rfl))
    · intro _
      exact .pure (sound.decoded (.inl rfl))
  · intro _
    exact .pure (sound.decoded (.inl rfl))

theorem reqSendModel_inside (short : buf.length < 2 ^ 32) (p : Nat)
    {out : ReqSendOut} (sound : out.Sound count) :
    Ensures (reqSendModel buf p out) (Decoded ReqSendOut.strings before) := by
  rw [reqSendModel]
  apply Ensures.ite
  · intro more
    apply Ensures.bind (ensures_readU32 (by omega))
    intro mlen _
    apply Ensures.ite
    · intro present
      apply Ensures.bind (ensures_mallocCopy short (by omega) present.2)
      intro model closed
      exact reqSendProvider_inside short _ (sound.withModel closed)
    · intro _
      exact reqSendProvider_inside short _ sound
  · intro _
    exact reqSendProvider_inside short p sound

theorem ipcDecodeReqSend_inside (short : buf.length < 2 ^ 32)
    (before : ReqSendOut) :
    Ensures (ipcDecodeReqSend buf before) (Decoded ReqSendOut.strings before) := by
  rw [ipcDecodeReqSend]
  apply Ensures.ite
  · intro _
    exact .pure ⟨.inr rfl, fun _ => .inr⟩
  intro long
  apply Ensures.bind (ensures_readU32 (by omega))
  intro sessionIdx _
  apply Ensures.bind (ensures_readU32 (by omega))
  intro msgCount _
  have calloced : ({ sessionIdx, msgCount
                     texts := some (List.replicate msgCount.toNat none)
                     isUser := some (List.replicate msgCount.toNat 0)
                     model := none
                     provider := none } : ReqSendOut).Sound msgCount.toNat :=
    ⟨⟨_, rfl, List.length_replicate⟩, ⟨_, rfl, List.length_replicate⟩, by
      simp [ReqSendOut.strings]⟩
  apply Ensures.bind
    (reqSendLoop_inside short msgCount.toNat (by omega) (Nat.zero_add _) calloced)
  rintro ⟨r, p, out⟩ ⟨ret, _, sound⟩
  apply Ensures.ite
  · intro _
    exact reqSendModel_inside short p sound
  · intro _
    exact .pure (sound.decoded ret)

/-! ### All payload kinds -/

def PayloadKind.strings : (kind : PayloadKind) → kind.codec.Out → List Bytes
  | .reqSend => ReqSendOut.strings
  | .repFinal => RepFinalOut.strings
  | .workerStart => WorkerStartOut.strings
  | .sessionRename => SessionRenameOut.strings
  | .workerReq => WorkerReqOut.strings
  | .workerRep => WorkerRepOut.strings
  | .approvalReq => ApprovalReqOut.strings
  | .approvalRep => fun _ => []

/-- Every read of a decoder lies inside the payload, every string it copies fits
its block, and it returns. -/
theorem payload_decode_inside (kind : PayloadKind) (buf : Bytes)
    (short : buf.length < 2 ^ 32) (before : kind.codec.Out) :
    ∃ ret out, kind.codec.decode buf before = some (ret, out) ∧
      (ret = 0 ∨ ret = -1) ∧
      ∀ block ∈ kind.strings out, 0 ∈ block ∨ block ∈ kind.strings before := by
  have decoded : Ensures (kind.codec.decode buf before) (Decoded kind.strings before) := by
    cases kind with
    | reqSend => exact ipcDecodeReqSend_inside short before
    | repFinal => exact ipcDecodeRepFinal_inside short before
    | workerStart => exact ipcDecodeWorkerStart_inside short before
    | sessionRename => exact ipcDecodeSessionRename_inside short before
    | workerReq => exact ipcDecodeWorkerReq_inside short before
    | workerRep => exact ipcDecodeWorkerRep_inside short before
    | approvalReq => exact ipcDecodeApprovalReq_inside short before
    | approvalRep => exact ipcDecodeApprovalRep_inside buf before
  obtain ⟨⟨ret, out⟩, ran, returned, terminated⟩ := decoded
  exact ⟨ret, out, ran, returned, terminated⟩

/-- A text length of `2^32 - 1` behind a message count of one. -/
def oversizedReqSend : Bytes :=
  le32 0 ++ le32 1 ++ [1] ++ le32 0xffffffff ++ [104, 105]

theorem payload_decode_inside_oversized :
    ∃ ret out, ipcDecodeReqSend oversizedReqSend .zeroed = some (ret, out) ∧
      (ret = 0 ∨ ret = -1) ∧ ∀ block ∈ out.strings, 0 ∈ block ∨ block ∈ [] :=
  payload_decode_inside .reqSend oversizedReqSend (by decide) .zeroed

end FreeCli

import FreeCli.Library.Words
import FreeCli.Library.Framing

namespace FreeCli

open Words Framing

/-! Message framing of `ipc.c` over the socket loops of `net.h`.  Allocation
succeeds; every system call of a loop is one round of it. -/

structure IpcMsg where
  type : UInt32
  corrId : UInt64
  payload : Bytes
  deriving DecidableEq, Repr

/-- `sizeof(type) + sizeof(corr_id) + payload_len`, kept in 32 bits -/
def IpcMsg.bodyLen (msg : IpcMsg) : UInt32 :=
  UInt32.ofNat (4 + 8 + msg.payload.length)

/-- The body length is not cut off. -/
def IpcMsg.Fits (msg : IpcMsg) : Prop := 4 + 8 + msg.payload.length < 2 ^ 32

instance (msg : IpcMsg) : Decidable msg.Fits :=
  inferInstanceAs (Decidable (_ < _))

def IpcMsg.frame (msg : IpcMsg) : Bytes :=
  le32 msg.bodyLen ++ le32 msg.type ++ le64 msg.corrId ++ msg.payload

/-- The frame `ipc_send` builds; `none` when the payload is copied past the end
of the block that was allocated for it. -/
def ipcFrame (msg : IpcMsg) : Option Bytes :=
  if msg.bodyLen.toNat < 4 + 8 + msg.payload.length then
    none
  else
    some msg.frame

def ipcParse (body : Bytes) : IpcMsg where
  type := UInt32.ofNat (leValue (body.take 4))
  corrId := UInt64.ofNat (leValue ((body.drop 4).take 8))
  payload := body.drop 12

/-- `ipc_recv` where all bytes of the stream have arrived. -/
def ipcCut (stream : Bytes) : Option (IpcMsg × Bytes) := do
  let bodyLen ← readU32 stream 0
  if bodyLen < 12 then
    none
  else do
    let body ← readBytes stream 4 bodyLen.toNat
    some (ipcParse body, stream.drop (4 + bodyLen.toNat))

theorem IpcMsg.toNat_bodyLen {msg : IpcMsg} (fits : msg.Fits) :
    msg.bodyLen.toNat = 4 + 8 + msg.payload.length :=
  UInt32.toNat_ofNat_of_lt' fits

theorem IpcMsg.length_frame (msg : IpcMsg) :
    msg.frame.length = 16 + msg.payload.length := by
  simp only [frame, List.length_append, length_le32, length_le64]

theorem IpcMsg.length_frame_pos (msg : IpcMsg) : 0 < msg.frame.length := by
  rw [msg.length_frame]
  omega

theorem ipcFrame_eq_some : ipcFrame msg = some bytes ↔
    msg.Fits ∧ msg.frame = bytes := by
  rw [ipcFrame]
  split
  next cutOff =>
    have large : ¬msg.Fits := by
      intro fits
      rw [IpcMsg.toNat_bodyLen fits] at cutOff
      omega
    simp [large]
  next whole =>
    have fits : msg.Fits := by
      have bound := msg.bodyLen.toNat_lt
      rw [IpcMsg.Fits]
      omega
    simp [fits]

theorem ipcParse_body (msg : IpcMsg) :
    ipcParse (le32 msg.type ++ le64 msg.corrId ++ msg.payload) = msg := by
  have type : (le32 msg.type ++ le64 msg.corrId ++ msg.payload).take 4 =
      le32 msg.type := by
    simp
  have corrId :
      ((le32 msg.type ++ le64 msg.corrId ++ msg.payload).drop 4).take 8 =
        le64 msg.corrId := by
    simp
  have payload : (le32 msg.type ++ le64 msg.corrId ++ msg.payload).drop 12 =
      msg.payload := by
    simp [List.drop_append]
  rw [ipcParse, type, corrId, payload, leValue_le32, leValue_le64,
    UInt32.ofNat_toNat, UInt64.ofNat_toNat]

theorem ipcCut_frame {msg : IpcMsg} (fits : msg.Fits) (rest : Bytes) :
    ipcCut (msg.frame ++ rest) = some (msg, rest) := by
  have start : At (msg.frame ++ rest) 0
      (le32 msg.bodyLen ++
        ((le32 msg.type ++ le64 msg.corrId ++ msg.payload) ++ rest)) :=
    At.start (by simp [IpcMsg.frame])
  have bodyLength :
      (le32 msg.type ++ le64 msg.corrId ++ msg.payload).length =
        msg.bodyLen.toNat := by
    rw [IpcMsg.toNat_bodyLen fits]
    simp only [List.length_append, length_le32, length_le64]
  have header := start.readU32
  have body := start.skip32.readBytes
  rw [bodyLength] at body
  have large : ¬msg.bodyLen < 12 := by
    rw [UInt32.lt_iff_toNat_lt, IpcMsg.toNat_bodyLen fits]
    simp
  have rest_eq : (msg.frame ++ rest).drop (4 + msg.bodyLen.toNat) = rest := by
    rw [IpcMsg.toNat_bodyLen fits]
    apply List.drop_left'
    rw [IpcMsg.length_frame]
    omega
  rw [ipcCut, header, Option.bind_eq_bind, Option.bind_some, if_neg large, body,
    Option.bind_eq_bind, Option.bind_some, ipcParse_body, rest_eq]

theorem ipcCut_part {msg : IpcMsg} (fits : msg.Fits)
    (starts : part <+: msg.frame) (differs : part ≠ msg.frame) :
    ipcCut part = none := by
  obtain ⟨missing, whole⟩ := starts
  have lengths := congrArg List.length whole
  have missing_pos : 0 < missing.length := by
    apply List.length_pos_iff.2
    rintro rfl
    exact differs (by simpa using whole)
  rw [List.length_append, IpcMsg.length_frame] at lengths
  rw [ipcCut]
  by_cases short : part.length < 4
  · have unread : readU32 part 0 = none := by
      simp [readU32, readBytes, short]
    rw [unread]
    rfl
  · have header : readU32 part 0 = some msg.bodyLen := by
      have same : part.take 4 = le32 msg.bodyLen := by
        have shared : (part ++ missing).take 4 = part.take 4 :=
          List.take_append_of_le_length (by omega)
        rw [← shared, whole, IpcMsg.frame]
        simp
      have enough : 0 + 4 ≤ part.length := by omega
      simp only [readU32, readBytes, if_pos enough, List.drop_zero, same,
        Option.map_some, leValue_le32, UInt32.ofNat_toNat]
    have bodyLen := IpcMsg.toNat_bodyLen fits
    have unread : readBytes part 4 msg.bodyLen.toNat = none := by
      rw [readBytes, if_neg (by omega)]
    rw [header, Option.bind_eq_bind, Option.bind_some]
    split
    · rfl
    · rw [unread]
      rfl

def ipcCode : Code { msg : IpcMsg // msg.Fits } UInt8 where
  frame msg := msg.1.frame
  cut stream := do
    let (msg, rest) ← ipcCut stream
    if fits : msg.Fits then some (⟨msg, fits⟩, rest) else none
  frame_ne_nil msg := List.length_pos_iff.1 msg.1.length_frame_pos
  cut_frame msg rest := by simp [ipcCut_frame msg.2, msg.2]
  cut_part msg part starts differs := by
    simp [ipcCut_part msg.2 starts differs]

/-- The messages `ipc_recv` returns one after the other, and what is left. -/
def ipcDecode (stream : Bytes) : List IpcMsg × Bytes :=
  let (msgs, part) := ipcCode.decode stream
  (msgs.map Subtype.val, part)

theorem ipcDecode_frames {msgs : List IpcMsg} (fits : ∀ msg ∈ msgs, msg.Fits)
    (short : ipcCode.Part part) :
    ipcDecode (msgs.flatMap IpcMsg.frame ++ part) = (msgs, part) := by
  obtain ⟨wholes, rfl⟩ :
      ∃ wholes : List { msg : IpcMsg // msg.Fits },
        wholes.map Subtype.val = msgs :=
    ⟨msgs.attachWith _ fits, List.attachWith_map_subtype_val _⟩
  have frames : (wholes.map Subtype.val).flatMap IpcMsg.frame =
      ipcCode.frames wholes := by
    rw [List.flatMap_map]
    rfl
  rw [frames, ipcDecode, ipcCode.decode_frames wholes short]

end FreeCli

import FreeCli.Library.Fields
import FreeCli.Core.IpcBounds

namespace FreeCli

open Words Fields

/-! What `ipc_decode_req_send` takes out of a payload it accepts. -/

/-- NULL stands for the empty string. -/
def stringBlock (text : Bytes) : Option Bytes := if text = [] then none else some (text ++ [0])

/-- The optional fields at the end: a model and a provider, the provider only behind a
whole model field. -/
inductive TailRead : Bytes → (model provider : Option Bytes) → Prop
  | absent {tail : Bytes} (missing : field tail = none) : TailRead tail none none
  | model {text tail : Bytes} (missing : field tail = none) :
      TailRead (fieldBytes text ++ tail) (stringBlock text) none
  | both {text other : Bytes} (ignored : Bytes) :
      TailRead (fieldBytes text ++ (fieldBytes other ++ ignored)) (stringBlock text)
        (stringBlock other)

/-- The payload is the encoding of what was returned, up to bytes behind it. -/
structure ReqSendRead (buf : Bytes) (out : ReqSendOut) : Prop where
  read : ∃ (msgs : List (UInt8 × Bytes)) (tail : Bytes),
    buf = le32 out.sessionIdx ++ (le32 out.msgCount ++ (msgs.flatMap flaggedBytes ++ tail)) ∧
      msgs.length = out.msgCount.toNat ∧
      out.isUser = some (msgs.map Prod.fst) ∧
      out.texts = some (msgs.map fun m => some (m.2 ++ [0])) ∧
      TailRead tail out.model out.provider

def reqSendTail (buf : Bytes) : Option Bytes :=
  (flagged (leValue ((buf.drop 4).take 4)) (buf.drop 8)).map Prod.snd

/-- The string of a field; NULL if it is cut off or empty. -/
def readString (bytes : Bytes) : Option Bytes :=
  (field bytes).bind fun found => stringBlock found.1

/-- The model's length goes beyond the payload, and the bytes behind it are a length and
a string that is inside. -/
def modelOverrun (buf : Bytes) : Bool :=
  match reqSendTail buf with
  | none => false
  | some tail => (field tail).isNone && (readString (tail.drop 4)).isSome

section Reads

variable {buf bytes text rest : Bytes} {p : Nat}

theorem mallocCopy_at (short : buf.length < 2 ^ 32) {len : UInt32}
    (read : readBytes buf (p + 4) text.length = some text) (size : len.toNat = text.length)
    (inside : p + 4 + text.length ≤ buf.length) :
    mallocCopy buf (p + 4) len = some (text ++ [0]) := by
  have sum : (len + 1).toNat = len.toNat + 1 := by
    rw [UInt32.toNat_add]
    exact Nat.mod_eq_of_lt (by change len.toNat + 1 < 2 ^ 32; omega)
  rw [mallocCopy, if_neg (by omega), size, read, Option.map_some]

structure ReqSendOut.Filled (out : ReqSendOut) (todo : Nat) (users : List UInt8)
    (texts : List (Option Bytes)) : Prop where
  userArray : out.isUser = some (users ++ List.replicate todo 0)
  textArray : out.texts = some (texts ++ List.replicate todo none)
  same : users.length = texts.length

theorem ReqSendOut.Filled.setUser {out : ReqSendOut} {todo : Nat} {users : List UInt8}
    {texts : List (Option Bytes)} (filled : out.Filled (todo + 1) users texts) (user : UInt8) :
    out.setUser texts.length user =
      some { out with isUser := some (users ++ user :: List.replicate todo 0) } := by
  have same := filled.same
  rw [ReqSendOut.setUser, filled.userArray]
  simp [← same, List.replicate_succ, List.set_append_right]

theorem ReqSendOut.Filled.setText {out : ReqSendOut} {todo : Nat} {users : List UInt8}
    {texts : List (Option Bytes)} (filled : out.Filled (todo + 1) users texts)
    (isUser : Option (List UInt8)) (block : Bytes) :
    ({ out with isUser } : ReqSendOut).setText texts.length block =
      some { out with
        isUser, texts := some (texts ++ some block :: List.replicate todo none) } := by
  rw [ReqSendOut.setText]
  simp [filled.textArray, List.replicate_succ, List.set_append_right]

/-- The loop takes the messages that are there; if one is cut off the arrays stay. -/
theorem reqSendLoop_reads (short : buf.length < 2 ^ 32) (todo : Nat) (here : At buf p bytes)
    {out : ReqSendOut} {users : List UInt8} {texts : List (Option Bytes)}
    (filled : out.Filled todo users texts) :
    match flagged todo bytes with
    | some (msgs, tail) => ∃ q, reqSendLoop buf todo texts.length p out =
        some (0, q, { out with
          isUser := some (users ++ msgs.map Prod.fst)
          texts := some (texts ++ msgs.map fun m => some (m.2 ++ [0])) }) ∧ At buf q tail
    | none => ∃ q after, reqSendLoop buf todo texts.length p out = some (-1, q, after) ∧
        after.isUser ≠ none := by
  induction todo generalizing p bytes out users texts with
  | zero =>
      refine ⟨p, ?_, here⟩
      have isUser := filled.userArray
      have blocks := filled.textArray
      simp only [List.replicate_zero, List.append_nil] at isUser blocks
      simp only [List.map_nil, List.append_nil, reqSendLoop]
      rw [← isUser, ← blocks]
  | succ todo ih =>
      cases bytes with
      | nil =>
          have bound := here.length_eq
          rw [List.length_nil] at bound
          refine ⟨p, out, if_pos (by omega), ?_⟩
          rw [filled.userArray]
          exact Option.some_ne_none _
      | cons flag bytes =>
          have user := here.readU8
          have behind := here.skip8
          simp only [flagged, Option.bind_eq_bind]
          cases first : field bytes with
          | none =>
              simp only [Option.bind_none]
              rcases At.field_none behind first with cut | ⟨header, ⟨len, read, overruns⟩, -⟩
              · refine ⟨p, out, if_pos (by omega), ?_⟩
                rw [filled.userArray]
                exact Option.some_ne_none _
              · rw [reqSendLoop, if_neg (by omega), user]
                simp only [Option.bind_eq_bind, Option.bind_some, filled.setUser, read]
                rw [if_pos (by omega)]
                exact ⟨_, _, rfl, Option.some_ne_none _⟩
          | some found =>
              obtain ⟨text, rest⟩ := found
              obtain ⟨inside, ⟨len, read, size⟩, copy, next⟩ := At.field_some behind first
              have copied := mallocCopy_at short copy size inside
              have stored := filled.setText
                (some (users ++ flag :: List.replicate todo 0)) (text ++ [0])
              rw [reqSendLoop, if_neg (by omega), user]
              simp only [Option.bind_eq_bind, Option.bind_some, filled.setUser, read]
              rw [if_neg (by omega)]
              simp only [copied, Option.bind_some, stored, size]
              have longer : ReqSendOut.Filled { out with
                  isUser := some (users ++ flag :: List.replicate todo 0)
                  texts := some (texts ++ some (text ++ [0]) :: List.replicate todo none) }
                  todo (users ++ [flag]) (texts ++ [some (text ++ [0])]) :=
                ⟨by simp, by simp, by simp [filled.same]⟩
              have later := ih next longer
              rw [List.length_append, List.length_singleton] at later
              cases others : flagged todo rest with
              | none =>
                  rw [others] at later
                  exact later
              | some found =>
                  rw [others] at later
                  obtain ⟨q, ran, ended⟩ := later
                  refine ⟨q, ?_, ended⟩
                  rw [ran]
                  simp

theorem stringBlock_some {len : UInt32} (size : len.toNat = text.length) (nonempty : len > 0) :
    stringBlock text = some (text ++ [0]) := by
  have positive : 0 < text.length := size ▸ UInt32.lt_iff_toNat_lt.1 nonempty
  exact if_neg (List.ne_nil_of_length_pos positive)

theorem stringBlock_none {len : UInt32} (size : len.toNat = text.length)
    (empty : ¬ len > 0) : stringBlock text = none := by
  have zero : ¬ 0 < len.toNat := fun positive => empty (UInt32.lt_iff_toNat_lt.2 positive)
  exact if_pos (List.length_eq_zero_iff.1 (by omega))

theorem reqSendProvider_reads (short : buf.length < 2 ^ 32) (here : At buf p bytes)
    {out : ReqSendOut} (blank : out.provider = none) :
    reqSendProvider buf p out = some (0, { out with provider := readString bytes }) := by
  rw [reqSendProvider, readString]
  cases found : field bytes with
  | none =>
      have same : { out with provider := none } = out := by rw [← blank]
      rw [Option.bind_none, same]
      rcases At.field_none here found with cut | ⟨header, ⟨len, read, overruns⟩, -⟩
      · rw [if_neg (by omega)]
      · rw [if_pos header, read]
        simp only [Option.bind_eq_bind, Option.bind_some]
        rw [if_neg (by omega)]
  | some pair =>
      obtain ⟨inside, ⟨len, read, size⟩, copy, -⟩ := At.field_some here found
      have copied := mallocCopy_at short copy size inside
      rw [if_pos (by omega), read]
      simp only [Option.bind_eq_bind, Option.bind_some, copied]
      by_cases nonempty : len > 0
      · rw [if_pos ⟨nonempty, by omega⟩, stringBlock_some size nonempty]
      · rw [if_neg fun both => nonempty both.1, stringBlock_none size nonempty, ← blank]

theorem reqSendModel_reads (short : buf.length < 2 ^ 32) (here : At buf p bytes)
    {out : ReqSendOut} (blankModel : out.model = none) (blankProvider : out.provider = none) :
    reqSendModel buf p out = some (0, { out with
      model := readString bytes
      provider := readString (((field bytes).map Prod.snd).getD (bytes.drop 4)) }) := by
  rw [reqSendModel]
  cases found : field bytes with
  | none =>
      have same : readString bytes = out.model := by rw [readString, found, blankModel]; rfl
      rw [same, Option.map_none, Option.getD_none]
      rcases At.field_none here found with cut | ⟨header, ⟨len, read, overruns⟩, behind⟩
      · have bound := here.length_eq
        have tooShort : bytes.drop 4 = [] := List.drop_eq_nil_of_le (by omega)
        have missing := reqSendProvider_reads short here blankProvider
        rw [readString, found, Option.bind_none] at missing
        rw [if_neg (by omega), missing, tooShort, readString, field_nil, Option.bind_none]
      · rw [if_pos header, read]
        simp only [Option.bind_eq_bind, Option.bind_some]
        rw [if_neg (by omega), reqSendProvider_reads short behind blankProvider]
  | some pair =>
      obtain ⟨text, rest⟩ := pair
      obtain ⟨inside, ⟨len, read, size⟩, copy, behind⟩ := At.field_some here found
      have copied := mallocCopy_at short copy size inside
      have value : readString bytes = stringBlock text := by rw [readString, found]; rfl
      rw [if_pos (by omega), read, value, Option.map_some, Option.getD_some]
      simp only [Option.bind_eq_bind, Option.bind_some, copied]
      by_cases nonempty : len > 0
      · rw [if_pos ⟨nonempty, by omega⟩, stringBlock_some size nonempty, size]
        exact reqSendProvider_reads short behind blankProvider
      · have zero : ¬ 0 < len.toNat := fun positive =>
          nonempty (UInt32.lt_iff_toNat_lt.2 positive)
        have none_ : text.length = 0 := by omega
        rw [none_] at behind
        rw [if_neg fun both => nonempty both.1, stringBlock_none size nonempty,
          reqSendProvider_reads short behind blankProvider, ← blankModel]

theorem ipcDecodeReqSend_reads (short : buf.length < 2 ^ 32) (long : 8 ≤ buf.length)
    (before : ReqSendOut) :
    ∃ session count : UInt32, buf = le32 session ++ (le32 count ++ buf.drop 8) ∧
      match flagged count.toNat (buf.drop 8) with
      | some (msgs, tail) => ipcDecodeReqSend buf before = some (0,
          { sessionIdx := session
            msgCount := count
            isUser := some (msgs.map Prod.fst)
            texts := some (msgs.map fun m => some (m.2 ++ [0]))
            model := readString tail
            provider := readString (((field tail).map Prod.snd).getD (tail.drop 4)) })
      | none => ∃ after, ipcDecodeReqSend buf before = some (-1, after) ∧ after.isUser ≠ none := by
  obtain ⟨session, rest, whole⟩ := exists_le32 (show 4 ≤ buf.length by omega)
  have counted : 4 ≤ rest.length := by
    have total := congrArg List.length whole
    rw [List.length_append, length_le32] at total
    omega
  obtain ⟨count, body, rfl⟩ := exists_le32 counted
  have behind : buf.drop 8 = body := by
    rw [whole, ← List.append_assoc]
    exact List.drop_left' (by simp)
  have start := At.start whole
  have first := start.readU32
  have second := start.skip32.readU32
  have here := start.skip32.skip32
  refine ⟨session, count, by rw [behind]; exact whole, ?_⟩
  have empty : ReqSendOut.Filled
      { sessionIdx := session, msgCount := count
        texts := some (List.replicate count.toNat none)
        isUser := some (List.replicate count.toNat 0), model := none, provider := none }
      count.toNat [] [] := ⟨rfl, rfl, rfl⟩
  have loop := reqSendLoop_reads short count.toNat here empty
  rw [ipcDecodeReqSend, if_neg (by omega), behind, first]
  simp only [Option.bind_eq_bind, Option.bind_some]
  rw [Nat.zero_add] at second
  rw [second]
  simp only [Option.bind_some]
  cases taken : flagged count.toNat body with
  | none =>
      rw [taken] at loop
      obtain ⟨q, after, ran, left⟩ := loop
      refine ⟨after, ?_, left⟩
      rw [show (0 : Nat) = ([] : List (Option Bytes)).length from rfl, ran]
      rfl
  | some found =>
      obtain ⟨msgs, tail⟩ := found
      rw [taken] at loop
      obtain ⟨q, ran, ended⟩ := loop
      rw [show (0 : Nat) = ([] : List (Option Bytes)).length from rfl, ran]
      simp only [Option.bind_some, if_true, List.nil_append]
      rw [reqSendModel_reads short ended rfl rfl]

end Reads

theorem tailRead_readString {tail : Bytes}
    (provider : field tail = none → readString (tail.drop 4) = none) :
    TailRead tail (readString tail)
      (readString (((field tail).map Prod.snd).getD (tail.drop 4))) := by
  cases found : field tail with
  | none =>
      have model : readString tail = none := by rw [readString, found]; rfl
      rw [model, Option.map_none, Option.getD_none, provider found]
      exact .absent found
  | some pair =>
      obtain ⟨text, rest⟩ := pair
      have model : readString tail = stringBlock text := by rw [readString, found]; rfl
      rw [model, eq_of_field found, Option.map_some, Option.getD_some]
      cases next : field rest with
      | none =>
          have missing : readString rest = none := by rw [readString, next]; rfl
          rw [missing]
          exact .model next
      | some pair =>
          obtain ⟨other, ignored⟩ := pair
          have provider : readString rest = stringBlock other := by rw [readString, next]; rfl
          rw [provider, eq_of_field next]
          exact .both ignored

theorem TailRead.provider_none {tail : Bytes} {model provider : Option Bytes}
    (read : TailRead tail model provider) (short : tail.length < 2 ^ 32)
    (missing : field tail = none) : provider = none := by
  cases read with
  | absent => rfl
  | model => rfl
  | both ignored =>
      rename_i text other
      have fits : text.length < 2 ^ 32 := by
        rw [List.length_append, fieldBytes, List.length_append] at short
        omega
      rw [field_fieldBytes fits] at missing
      cases missing

theorem flagged_flatMap (msgs : List (UInt8 × Bytes)) (tail : Bytes)
    (short : (msgs.flatMap flaggedBytes ++ tail).length < 2 ^ 32) :
    flagged msgs.length (msgs.flatMap flaggedBytes ++ tail) = some (msgs, tail) := by
  induction msgs with
  | nil => rfl
  | cons m msgs ih =>
      rw [List.flatMap_cons, List.append_assoc, List.length_append, flaggedBytes,
        List.length_cons, fieldBytes, List.length_append] at short
      have later := ih (by omega)
      rw [List.flatMap_cons, List.append_assoc, flaggedBytes, List.cons_append, List.length_cons,
        flagged, field_fieldBytes (by omega)]
      simp only [Option.bind_eq_bind, Option.bind_some, later]

/-- An accepted payload is what it encodes exactly if no string is taken for the provider
behind a model's length that goes beyond the payload. -/
theorem reqSend_read_iff {buf : Bytes} (short : buf.length < 2 ^ 32) {before out : ReqSendOut}
    (accepted : ipcDecodeReqSend buf before = some (0, out)) :
    ReqSendRead buf out ↔ modelOverrun buf = false := by
  rcases Nat.lt_or_ge buf.length 8 with small | long
  · rw [ipcDecodeReqSend, if_pos small] at accepted
    cases accepted
  · obtain ⟨session, count, whole, decoded⟩ := ipcDecodeReqSend_reads short long before
    have counted : leValue ((buf.drop 4).take 4) = count.toNat := by
      rw [whole, List.drop_left' (length_le32 session), List.take_left' (length_le32 count),
        leValue_le32]
    have behind : (buf.drop 8).length < 2 ^ 32 := by
      rw [List.length_drop]
      omega
    cases taken : flagged count.toNat (buf.drop 8) with
    | none =>
        rw [taken] at decoded
        obtain ⟨after, rejected, -⟩ := decoded
        rw [rejected] at accepted
        cases accepted
    | some found =>
        obtain ⟨msgs, tail⟩ := found
        rw [taken] at decoded
        obtain rfl := (Prod.mk.inj (Option.some.inj (decoded.symm.trans accepted))).2
        obtain ⟨length, layout⟩ := eq_of_flagged taken
        have tailShort : tail.length < 2 ^ 32 := by
          rw [layout, List.length_append] at behind
          omega
        rw [modelOverrun, reqSendTail, counted, taken]
        constructor
        · rintro ⟨others, rest, same, size, -, -, read⟩
          simp only at same size read
          have again : buf.drop 8 = others.flatMap flaggedBytes ++ rest := by
            rw [whole] at same
            exact List.append_cancel_left (List.append_cancel_left same)
          have parsed := flagged_flatMap others rest (again ▸ behind)
          rw [← again, size, taken] at parsed
          obtain ⟨rfl, rfl⟩ := Prod.mk.inj (Option.some.inj parsed)
          simp only [Option.map_some]
          cases found : field tail with
          | some pair => rfl
          | none =>
              have provider := read.provider_none tailShort found
              rw [found, Option.map_none, Option.getD_none] at provider
              rw [provider]
              rfl
        · intro calm
          refine ⟨msgs, tail, ?_, length, rfl, rfl, tailRead_readString fun missing => ?_⟩
          · rw [← layout]
            exact whole
          · simp only [Option.map_some, missing, Option.isNone_none, Bool.true_and] at calm
            exact Option.isSome_eq_false_iff.1 calm |> Option.isNone_iff_eq_none.1

def providerOnly : Bytes := le32 1 ++ (le32 0 ++ (le32 0 ++ (le32 1 ++ [0x61])))

theorem reqSend_read_providerOnly : ∃ out,
    ipcDecodeReqSend providerOnly .zeroed = some (0, out) ∧
      (ReqSendRead providerOnly out ↔ modelOverrun providerOnly = false) :=
  ⟨_, rfl, @reqSend_read_iff providerOnly (by decide) .zeroed _ rfl⟩

/-- A model of 200 bytes of which five are there, `hi` behind its length. -/
def overrunReqSend : Bytes := le32 1 ++ (le32 0 ++ (le32 200 ++ (le32 2 ++ ascii "hi!")))

theorem reqSend_overrun_provider : ∃ out,
    ipcDecodeReqSend overrunReqSend .zeroed = some (0, out) ∧ out.model = none ∧
      out.provider = some (ascii "hi" ++ [0]) ∧ ¬ ReqSendRead overrunReqSend out := by
  refine ⟨_, rfl, rfl, rfl, ?_⟩
  rintro ⟨msgs, tail, same, length, -, -, read⟩
  obtain rfl : msgs = [] := List.length_eq_zero_iff.1 length
  obtain rfl : _ = tail := List.append_cancel_left (List.append_cancel_left same)
  cases read.provider_none (by decide) (by decide)

end FreeCli

import StreamHive.Lifecycle.Applier

/-!
# The blob replication messages

The payload of a replication frame is one JSON object with the members `type`,
`key`, `keys` and `data`, of which the last three are omitted when empty.
`marshal` writes that object; what `json.Unmarshal` reads from arbitrary bytes is
the parameter `Codec`, of which a proof may assume only that it reads back what
`marshal` wrote.

## Main results

* `length_keysPayload` — the length of a key list message is a constant of its
  type plus one term for each key; splitting or cutting a list is arithmetic on
  that sum.
* `decode_marshal` — what one side encodes, a side with the same limits decodes.
-/

namespace StreamHive.Replication

open Verified.ByteString Verified.Effect Verified.JsonText
open StreamHive.Lifecycle (Error orDefault orDefault_pos orDefault_idem)

/-! ## Limits -/

/-- Bounds on decoded messages. -/
structure Limits where
  maxKeyBytes : Int
  maxKeys : Int
  maxDataBytes : Int
  maxRepairBytes : Int
  deriving DecidableEq, Repr

variable {limits : Limits} {keys : List Bytes}

def defaultMaxKeyBytes : Int := 512
def defaultMaxKeys : Int := 4096
def defaultMaxDataBytes : Int := 4 * 2 ^ 20
def defaultMaxRepairBytes : Int := 64 * 2 ^ 20

def normalizeLimits (l : Limits) : Limits where
  maxKeyBytes := orDefault l.maxKeyBytes defaultMaxKeyBytes
  maxKeys := orDefault l.maxKeys defaultMaxKeys
  maxDataBytes := orDefault l.maxDataBytes defaultMaxDataBytes
  maxRepairBytes := orDefault l.maxRepairBytes defaultMaxRepairBytes

/-! ## Messages -/

/-- The `type` member of a message. -/
inductive MessageType where
  | blobPut
  | blobHas
  | blobGet
  | blobMissing
  | blobAck
  | other (text : Bytes)
  deriving DecidableEq, Repr

def MessageType.text : MessageType → Bytes
  | .blobPut => ascii "blob.put"
  | .blobHas => ascii "blob.has"
  | .blobGet => ascii "blob.get"
  | .blobMissing => ascii "blob.missing"
  | .blobAck => ascii "blob.ack"
  | .other text => text

/-- The types of which the protocol knows the meaning. -/
def MessageType.Known : MessageType → Prop
  | .other _ => False
  | _ => True

/-- The JSON payload carried inside a frame. -/
structure Message where
  type : MessageType
  key : Bytes
  keys : List Bytes
  data : Bytes
  deriving DecidableEq, Repr

/-- `json.Marshal` of a message. -/
def marshal (m : Message) : Bytes :=
  ascii "\x7b\"type\":" ++ (writeString m.type.text ++
    (omitEmpty ",\"key\":" writeBytes m.key ++
      (omitEmpty ",\"keys\":" (writeList bracket writeBytes) m.keys ++
        (omitEmpty ",\"data\":" writeBytes m.data ++ ascii "\x7d"))))

/-- `json.Unmarshal` into a message; `none` stands for its error. -/
structure Codec where
  unmarshal : Bytes → Option Message

/-- The decoder reads back the messages that the program writes. -/
structure Codec.Lawful (C : Codec) : Prop where
  unmarshal_marshal : ∀ m : Message, m.type.Known → C.unmarshal (marshal m) = some m

/-! ## The program -/

def validateKey (key : Bytes) (limits : Limits) : Except Error Unit :=
  if key.length = 0 then .error .replicationKeyEmpty
  else if (key.length : Int) > limits.maxKeyBytes then .error .replicationKeyTooLarge
  else .ok ()

/-- The checks of the keys, in order. -/
def validateEach (limits : Limits) : List Bytes → Except Error Unit
  | [] => .ok ()
  | key :: rest => do
    validateKey key limits
    validateEach limits rest

def validateKeys (keys : List Bytes) (limits : Limits) : Except Error Unit :=
  if keys.length = 0 then .error .replicationKeysEmpty
  else if (keys.length : Int) > limits.maxKeys then .error .replicationTooManyKeys
  else validateEach limits keys

def validateBlobPut (m : Message) (limits : Limits) : Except Error Unit := do
  validateKey m.key limits
  if (m.data.length : Int) > limits.maxDataBytes then .error .replicationDataTooLarge
  else .ok ()

def encodeBlobPut (key data : Bytes) (limits : Limits) : Except Error Bytes := do
  let m : Message := ⟨.blobPut, key, [], data⟩
  validateBlobPut m (normalizeLimits limits)
  .ok (marshal m)

/-- A message that carries one key. -/
def encodeKeyMessage (type : MessageType) (key : Bytes) (limits : Limits) :
    Except Error Bytes := do
  let m : Message := ⟨type, key, [], []⟩
  validateKey m.key (normalizeLimits limits)
  .ok (marshal m)

def encodeBlobAck (key : Bytes) (limits : Limits) : Except Error Bytes :=
  encodeKeyMessage .blobAck key limits

def encodeKeyListMessage (type : MessageType) (keys : List Bytes) (limits : Limits) :
    Except Error Bytes := do
  let m : Message := ⟨type, [], keys, []⟩
  validateKeys m.keys (normalizeLimits limits)
  .ok (marshal m)

def encodeBlobHas (keys : List Bytes) (limits : Limits) : Except Error Bytes :=
  encodeKeyListMessage .blobHas keys limits

def encodeBlobMissing (keys : List Bytes) (limits : Limits) : Except Error Bytes :=
  encodeKeyListMessage .blobMissing keys limits

/-- The checks that the type of a message asks for. -/
def Message.validate (m : Message) (limits : Limits) : Except Error Unit :=
  match m.type with
  | .blobPut => validateBlobPut m limits
  | .blobGet | .blobAck => validateKey m.key limits
  | .blobHas | .blobMissing => validateKeys m.keys limits
  | .other _ => .error .unknownMessageType

/-- Parse a payload and validate its declared type. -/
def decode (C : Codec) (payload : Bytes) (limits : Limits) : Except Error Message :=
  match C.unmarshal payload with
  | none => .error (.errorf "replication: decode: " .json)
  | some m => do
    m.validate (normalizeLimits limits)
    .ok m

/-! ## Validation -/

theorem validateKey_ok {key : Bytes} :
    validateKey key limits = .ok () ↔
      key ≠ [] ∧ (key.length : Int) ≤ limits.maxKeyBytes := by
  unfold validateKey
  rw [except_guard_ok, except_guard_ok]
  simp only [List.length_eq_zero_iff, not_lt, and_true, ne_eq]

theorem validateEach_ok :
    validateEach limits keys = .ok () ↔ ∀ key ∈ keys, validateKey key limits = .ok () := by
  induction keys with
  | nil => simp [validateEach]
  | cons key rest ih =>
    unfold validateEach
    rw [except_bind_ok]
    simp only [List.mem_cons, forall_eq_or_imp, ih]
    constructor
    · intro ⟨_, hkey, hrest⟩
      exact ⟨hkey, hrest⟩
    · intro ⟨hkey, hrest⟩
      exact ⟨(), hkey, hrest⟩

theorem validateKeys_ok :
    validateKeys keys limits = .ok () ↔
      keys ≠ [] ∧ (keys.length : Int) ≤ limits.maxKeys ∧
        ∀ key ∈ keys, validateKey key limits = .ok () := by
  unfold validateKeys
  rw [except_guard_ok, except_guard_ok, validateEach_ok]
  simp only [List.length_eq_zero_iff, not_lt, ne_eq]

theorem encodeKeyListMessage_ok {type : MessageType} {payload : Bytes} :
    encodeKeyListMessage type keys limits = .ok payload ↔
      validateKeys keys (normalizeLimits limits) = .ok () ∧
        marshal ⟨type, [], keys, []⟩ = payload := by
  unfold encodeKeyListMessage
  rw [except_bind_ok]
  constructor
  · intro ⟨_, hkeys, hpayload⟩
    exact ⟨hkeys, Except.ok.inj hpayload⟩
  · intro ⟨hkeys, hpayload⟩
    exact ⟨(), hkeys, congrArg _ hpayload⟩

theorem encodeKeyMessage_ok {type : MessageType} {key : Bytes} {payload : Bytes} :
    encodeKeyMessage type key limits = .ok payload ↔
      validateKey key (normalizeLimits limits) = .ok () ∧
        marshal ⟨type, key, [], []⟩ = payload := by
  unfold encodeKeyMessage
  rw [except_bind_ok]
  constructor
  · intro ⟨_, hkey, hpayload⟩
    exact ⟨hkey, Except.ok.inj hpayload⟩
  · intro ⟨hkey, hpayload⟩
    exact ⟨(), hkey, congrArg _ hpayload⟩

theorem encodeBlobPut_ok {key data : Bytes} {payload : Bytes} :
    encodeBlobPut key data limits = .ok payload ↔
      validateBlobPut ⟨.blobPut, key, [], data⟩ (normalizeLimits limits) = .ok () ∧
        marshal ⟨.blobPut, key, [], data⟩ = payload := by
  unfold encodeBlobPut
  rw [except_bind_ok]
  constructor
  · intro ⟨_, hput, hpayload⟩
    exact ⟨hput, Except.ok.inj hpayload⟩
  · intro ⟨hput, hpayload⟩
    exact ⟨(), hput, congrArg _ hpayload⟩

theorem validateBlobPut_key {m : Message} (h : validateBlobPut m limits = .ok ()) :
    validateKey m.key limits = .ok () := by
  unfold validateBlobPut at h
  rw [except_bind_ok] at h
  obtain ⟨_, hkey, _⟩ := h
  exact hkey

/-- A message that passes the checks of its type is decoded from its own text. -/
theorem decode_marshal {C : Codec} (hC : C.Lawful) {m : Message} (hknown : m.type.Known)
    (h : m.validate (normalizeLimits limits) = .ok ()) : decode C (marshal m) limits = .ok m := by
  unfold decode
  rw [hC.unmarshal_marshal m hknown]
  simp only
  rw [h]
  rfl

/-! ## Lengths -/

/-- The text of a key list message. -/
def keysPayload (type : MessageType) (keys : List Bytes) : Bytes :=
  marshal ⟨type, [], keys, []⟩

/-- What one key adds to a key list: its text and one separator. -/
def keyWidth (key : Bytes) : Nat := (writeBytes key).length + 1

/-- What the keys of a list add to its message. -/
def keysWidth (keys : List Bytes) : Nat := (keys.map keyWidth).sum

/-- What a key list message holds beside its keys. -/
def typeWidth (type : MessageType) : Nat :=
  (ascii "\x7b\"type\":").length + (writeString type.text).length +
    (ascii ",\"keys\":").length + 2

@[simp] theorem keysWidth_nil : keysWidth [] = 0 := rfl

@[simp] theorem keysWidth_cons (key : Bytes) (keys : List Bytes) :
    keysWidth (key :: keys) = keyWidth key + keysWidth keys := by
  simp [keysWidth]

@[simp] theorem keysWidth_append (ks ls : List Bytes) :
    keysWidth (ks ++ ls) = keysWidth ks + keysWidth ls := by
  simp [keysWidth]

theorem length_writeItems_keys (close : UInt8) (key : Bytes) (keys : List Bytes) :
    (writeItems close writeBytes (key :: keys)).length = keysWidth (key :: keys) := by
  induction keys generalizing key with
  | nil => simp [writeItems, keyWidth]
  | cons next rest ih =>
    have hrest := ih next
    rw [keysWidth_cons, ← hrest]
    simp only [writeItems, List.length_append, List.length_cons, keyWidth]
    omega

/-- The length of a key list message. -/
theorem length_keysPayload (type : MessageType) (h : keys ≠ []) :
    (keysPayload type keys).length = typeWidth type + keysWidth keys := by
  obtain ⟨key, rest, rfl⟩ := List.exists_cons_of_ne_nil h
  have hitems := length_writeItems_keys (bracket + 2) key rest
  simp only [keysPayload, marshal, omitEmpty, if_true, reduceCtorEq, if_false,
    List.nil_append, List.length_append, writeList, List.length_cons, hitems, typeWidth]
  have hclose : (ascii "\x7d").length = 1 := rfl
  omega

/-- An acknowledgement is no longer than the put that it answers. -/
theorem length_ack_le_put (key data : Bytes) :
    (marshal ⟨.blobAck, key, [], []⟩).length ≤
      (marshal ⟨.blobPut, key, [], data⟩).length := by
  have htype : (writeString MessageType.blobAck.text).length =
      (writeString MessageType.blobPut.text).length := by decide
  simp only [marshal, omitEmpty, if_true, List.nil_append, List.length_append, htype]
  omega

/-! ## A decoder of exactly the texts that are written -/

def textType (text : Bytes) : MessageType :=
  if text = ascii "blob.put" then .blobPut
  else if text = ascii "blob.has" then .blobHas
  else if text = ascii "blob.get" then .blobGet
  else if text = ascii "blob.missing" then .blobMissing
  else if text = ascii "blob.ack" then .blobAck
  else .other text

theorem textType_text {type : MessageType} (h : type.Known) : textType type.text = type := by
  cases type with
  | other text => exact absurd h id
  | _ => rfl

def readMessage (input : Bytes) : Option Message := do
  let input ← expect (ascii "\x7b\"type\":") input
  let (type, input) ← readString input
  let (key, input) ← readMember ",\"key\":" readBytes input
  let (keys, input) ← readMember ",\"keys\":" (readList bracket readBytes) input
  let (data, input) ← readMember ",\"data\":" readBytes input
  let input ← expect (ascii "\x7d") input
  if input = [] then some ⟨textType type, key, keys, data⟩ else none

theorem readMessage_marshal {m : Message} (h : m.type.Known) :
    readMessage (marshal m) = some m := by
  have hdata : readMember ",\"data\":" readBytes
      (omitEmpty ",\"data\":" writeBytes m.data ++ ascii "\x7d") = some (m.data, ascii "\x7d") :=
    readMember_omitEmpty m.data (readBytes_write _ _) rfl
  have hkeys : readMember ",\"keys\":" (readList bracket readBytes)
      (omitEmpty ",\"keys\":" (writeList bracket writeBytes) m.keys ++
        (omitEmpty ",\"data\":" writeBytes m.data ++ ascii "\x7d")) =
      some (m.keys, omitEmpty ",\"data\":" writeBytes m.data ++ ascii "\x7d") :=
    readMember_omitEmpty m.keys
      (readList_write readsBytes (.inl rfl) (fun _ _ => trivial) _)
      (expect_omitEmpty m.data rfl fun _ => rfl)
  have hnoKey : expect (ascii ",\"key\":")
      (omitEmpty ",\"keys\":" (writeList bracket writeBytes) m.keys ++
        (omitEmpty ",\"data\":" writeBytes m.data ++ ascii "\x7d")) = none :=
    expect_omitEmpty m.keys (expect_omitEmpty m.data rfl fun _ => rfl) fun _ => rfl
  have hkey : readMember ",\"key\":" readBytes
      (omitEmpty ",\"key\":" writeBytes m.key ++
        (omitEmpty ",\"keys\":" (writeList bracket writeBytes) m.keys ++
          (omitEmpty ",\"data\":" writeBytes m.data ++ ascii "\x7d"))) =
      some (m.key, omitEmpty ",\"keys\":" (writeList bracket writeBytes) m.keys ++
        (omitEmpty ",\"data\":" writeBytes m.data ++ ascii "\x7d")) :=
    readMember_omitEmpty m.key (readBytes_write _ _) hnoKey
  unfold readMessage marshal
  simp only [expect_append, Option.bind_eq_bind, Option.bind_some, readString_write, hkey,
    hkeys, hdata, expect_self, if_true, textType_text h]

/-- The decoder of exactly the texts that are written. -/
def goCodec : Codec := ⟨readMessage⟩

theorem goCodec_lawful : goCodec.Lawful := ⟨fun _ h => readMessage_marshal h⟩

end StreamHive.Replication

import StreamHive.Replication.BlobStore

/-!
# Replication messages at a node

What a node does with one `blob.put`, `blob.has`, `blob.missing`, `blob.get` or
`blob.ack` message.  The frames that it writes are kept together with the store at
the moment of writing, so that "acknowledges only what it holds" can be said.

Keys that a repair defers are returned; the program hands them to a scheduler,
which asks for them again later.

## Main results

* `handle_preserves`, `apply_preserves` — whatever calls fail, the node keeps its
  keys, stores only verified data under 32-byte keys, and writes only honest
  frames.
-/

namespace StreamHive.Replication

open Verified.ByteString Verified.Effect
open StreamHive.Lifecycle (Error Oracle Faults Stdlib sha256Size verifySHA256Key
  verifySHA256Key_eq_ok ctxErr ctxErr_triple perform perform_triple orDefault)

/-! ## The program -/

/-- A frame written to a peer, and the store when it was written. -/
structure Emission where
  payload : Bytes
  held : BlobStore

/-- A node as the handler of one connection sees it. -/
structure Endpoint where
  store : BlobStore
  outbox : List Emission

namespace Endpoint

def wrote (payload : Bytes) (s : Endpoint) : Endpoint :=
  { s with outbox := s.outbox ++ [⟨payload, s.store⟩] }

def withStore (s : Endpoint) (store : BlobStore) : Endpoint := { s with store := store }

/-- Run an operation of the store. -/
def onStore {α : Type} (x : EStateM Error BlobStore α) : EStateM Error Endpoint α :=
  zoom Endpoint.store withStore x

end Endpoint

/-- The limits and the frame bound of a node. -/
structure Bounds where
  limits : Limits
  maxFrameBytes : Int
  deriving DecidableEq, Repr

def Bounds.maxPayload (b : Bounds) : Int :=
  orDefault b.maxFrameBytes Transport.defaultMaxFrameBytes

/-- Every bound at its default. -/
def Sample.bounds : Bounds := ⟨⟨0, 0, 0, 0⟩, 0⟩

/-- A repair budget that leaves every reply with one blob. -/
def Sample.tight : Bounds := ⟨⟨0, 0, 0, 1⟩, 0⟩

def sendFrame (o : Oracle) (b : Bounds) (payload : Bytes) : EStateM Error Endpoint Unit :=
  writeFrameTo Endpoint.wrote o payload b.maxFrameBytes

def sendBlobAck (o : Oracle) (b : Bounds) (key : Bytes) : EStateM Error Endpoint Unit := do
  let payload ← attempt (encodeBlobAck key b.limits)
  sendFrame o b payload

variable (S : Stdlib) (F : Faults)

/-- The advertised keys that the store does not hold. -/
def missingKeysFromStore (store : BlobStore) : Nat → List Bytes → Except Error (List Bytes)
  | _, [] => .ok []
  | i, key :: rest => do
    let has ← store.has S (F (.probe i)) key
    let missing ← missingKeysFromStore store (i + 1) rest
    .ok (if has then missing else key :: missing)

/-- What becomes of one requested key. -/
inductive SendOutcome where
  | skipped
  | deferred
  | sent (bytes : Nat)
  deriving DecidableEq, Repr

def repairBudget (limits : Limits) : Int :=
  if 0 < limits.maxRepairBytes then limits.maxRepairBytes else defaultMaxRepairBytes

/-- A repair waits for a slot of the limiter, unless its context ends. -/
def acquireSlot {σ : Type} (o : Oracle) (repair : Bool) : EStateM Error σ Unit :=
  if repair then ctxErr o 1 else pure ()

/-- The body of the loop of `sendRequestedBlobsResult`. -/
def sendRequestedBlob (b : Bounds) (repair : Bool) (i : Nat) (key : Bytes) (repairBytes : Nat) :
    EStateM Error Endpoint SendOutcome := do
  acquireSlot (F (.send i)) repair
  let s ← get
  match s.store.get S (F (.blob i)) key with
  | .error e =>
    if e = .crash then throw e
    else if e.is .blobNotFound then pure .skipped
    else if e.is .sha256Mismatch then pure .skipped
    else do
      ctxErr (F (.send i)) 2
      if e.is .canceled then throw e else pure .skipped
  | .ok data => do
    ctxErr (F (.send i)) 3
    match verifyContentKeyIfSHA256 S key data with
    | .error _ => pure .skipped
    | .ok _ =>
      if repair = true ∧ 0 < repairBytes ∧
          ((repairBytes + data.length : Nat) : Int) > repairBudget b.limits then
        pure .deferred
      else
        match encodeBlobPut key data b.limits with
        | .error _ => pure .skipped
        | .ok payload => do
          ctxErr (F (.send i)) 4
          sendFrame (F (.send i)) b payload
          pure (.sent data.length)

/-- Answer requested keys in order; the keys that a repair defers are returned. -/
def sendRequestedBlobsResult (b : Bounds) (repair : Bool) :
    Nat → List Bytes → Nat → EStateM Error Endpoint (List Bytes)
  | _, [], _ => pure []
  | i, key :: rest, repairBytes => do
    ctxErr (F (.send i)) 0
    match ← sendRequestedBlob S F b repair i key repairBytes with
    | .skipped => sendRequestedBlobsResult b repair (i + 1) rest repairBytes
    | .deferred => pure (key :: rest)
    | .sent bytes =>
      sendRequestedBlobsResult b repair (i + 1) rest
        (if repair then repairBytes + bytes else repairBytes)

/-- Store the data of a message and acknowledge it. -/
def storeAndAck (b : Bounds) (msg : Message) : EStateM Error Endpoint (List Bytes) := do
  Endpoint.onStore (BlobStore.put (F (.blob 1)) msg.key msg.data)
  sendBlobAck (F .frame) b msg.key
  pure []

/-- Handle one decoded message; the result is the keys to ask for again later. -/
def handleReplicationMessage (b : Bounds) (msg : Message) :
    EStateM Error Endpoint (List Bytes) :=
  match msg.type with
  | .blobPut => do
    attempt (verifyContentKeyIfSHA256 S msg.key msg.data)
    let s ← get
    match s.store.get S (F (.blob 0)) msg.key with
    | .ok existing =>
      if existing = msg.data then do
        sendBlobAck (F .frame) b msg.key
        pure []
      else storeAndAck F b msg
    | .error e =>
      -- corrupt or missing data is replaced
      if e.is .sha256Mismatch ∨ e.is .blobNotFound then storeAndAck F b msg
      else throw e
  | .blobHas => do
    let s ← get
    let missing ← attempt (missingKeysFromStore S F s.store 0 msg.keys)
    if missing = [] then pure []
    else do
      let payload ← attempt (encodeBlobMissing missing b.limits)
      sendFrame (F .frame) b payload
      pure []
  | .blobMissing => sendRequestedBlobsResult S F b true 0 msg.keys 0
  | .blobGet => do
    let _ ← sendRequestedBlobsResult S F b false 0 [msg.key] 0
    pure []
  | .blobAck => pure []
  | .other _ => throw .unknownMessageType

/-- The handler of a received frame. -/
def receive (C : Codec) (F : Faults) (b : Bounds) (payload : Bytes) :
    EStateM Error Endpoint (List Bytes) := do
  let msg ← attempt (decode C payload b.limits)
  ctxErr (F .entry) 0
  handleReplicationMessage S F b msg

/-- `replication.Apply`: decode a payload and apply it to the store. -/
def apply (C : Codec) (F : Faults) (limits : Limits) (payload : Bytes) :
    EStateM Error Endpoint Unit := do
  ctxErr (F .entry) 0
  let msg ← attempt (decode C payload limits)
  match msg.type with
  | .blobPut => do
    attempt (verifyContentKeyIfSHA256 S msg.key msg.data)
    Endpoint.onStore (BlobStore.put (F (.blob 1)) msg.key msg.data)
  | _ => throw .messageNotApplicable

/-! ## What a node may do -/

theorem marshal_injective {m m' : Message} (hm : m.type.Known) (hm' : m'.type.Known)
    (h : marshal m = marshal m') : m = m' := by
  have hread := readMessage_marshal hm
  rw [h, readMessage_marshal hm'] at hread
  exact (Option.some.inj hread).symm

/-- A written frame that is a put carries matching data under a 32-byte key, and one
that is an acknowledgement names a key that the store held. -/
def Emission.Honest (e : Emission) : Prop :=
  ∀ m, e.payload = marshal m →
    (m.type = .blobPut → m.key.length = sha256Size → S.sha256 m.data = m.key) ∧
    (m.type = .blobAck → ∃ data, e.held.data? m.key = some data)

/-- A put of data under its own 32-byte hash. -/
def Message.Addressed (m : Message) : Prop :=
  m.type = .blobPut ∧ m.key.length = sha256Size ∧ S.sha256 m.data = m.key

/-- What calls at a node may do to it: content-addressed data keeps matching, no key
disappears, new data under 32-byte keys was received, and written frames are
honest. -/
structure Preserved (S : Stdlib) (received : Bytes → Prop) (s s' : Endpoint) : Prop where
  matching : Matching S s.store → Matching S s'.store
  grows : ∀ key data, s.store.data? key = some data → ∃ data', s'.store.data? key = some data'
  origin : ∀ key data, s'.store.data? key = some data → key.length = sha256Size →
    s.store.data? key = some data ∨ received data
  emits : ∃ new, s'.outbox = s.outbox ++ new ∧ ∀ e ∈ new, e.Honest S

namespace Preserved

variable {S : Stdlib} {received : Bytes → Prop} {s s' s'' : Endpoint}

theorem refl (S : Stdlib) (received : Bytes → Prop) (s : Endpoint) : Preserved S received s s where
  matching := id
  grows := fun _ data h => ⟨data, h⟩
  origin := fun _ _ h _ => .inl h
  emits := ⟨[], by simp, by simp⟩

theorem wrote (h : Preserved S received s s') {payload : Bytes}
    (honest : Emission.Honest S ⟨payload, s'.store⟩) :
    Preserved S received s (s'.wrote payload) where
  matching := h.matching
  grows := h.grows
  origin := h.origin
  emits := by
    obtain ⟨new, hnew, hall⟩ := h.emits
    refine ⟨new ++ [⟨payload, s'.store⟩], ?_, ?_⟩
    · show s'.outbox ++ _ = _
      rw [hnew, List.append_assoc]
    · intro e he
      rcases List.mem_append.mp he with he | he
      · exact hall e he
      · rw [List.mem_singleton.mp he]
        exact honest

theorem insert (h : Preserved S received s s') {key data : Bytes} (hkey : key ≠ [])
    (hmatch : key.length = sha256Size → S.sha256 data = key)
    (hreceived : key.length = sha256Size → S.sha256 data = key → received data) :
    Preserved S received s (s'.withStore (s'.store.insert key data hkey)) where
  matching := by
    intro hs k d hd hlength
    change (s'.store.insert key data hkey).data? k = some d at hd
    by_cases heq : k = key
    · subst heq
      rw [BlobStore.data?_insert_self] at hd
      cases hd
      exact hmatch hlength
    · rw [BlobStore.data?_insert_ne hkey heq] at hd
      exact h.matching hs k d hd hlength
  grows := by
    intro k d hd
    obtain ⟨d', hd'⟩ := h.grows k d hd
    show ∃ d', (s'.store.insert key data hkey).data? k = some d'
    by_cases heq : k = key
    · subst heq
      exact ⟨data, BlobStore.data?_insert_self hkey⟩
    · exact ⟨d', by rw [BlobStore.data?_insert_ne hkey heq]; exact hd'⟩
  origin := by
    intro k d hd hlength
    change (s'.store.insert key data hkey).data? k = some d at hd
    by_cases heq : k = key
    · subst heq
      rw [BlobStore.data?_insert_self] at hd
      cases hd
      exact .inr (hreceived hlength (hmatch hlength))
    · rw [BlobStore.data?_insert_ne hkey heq] at hd
      exact h.origin k d hd hlength
  emits := h.emits

end Preserved

/-! ## Honest frames -/

section Honest

variable {S : Stdlib} {key data : Bytes} {limits : Limits} {payload : Bytes}

theorem verifyContentKeyIfSHA256_ok (h : verifyContentKeyIfSHA256 S key data = .ok ()) :
    key.length = sha256Size → S.sha256 data = key := by
  intro hlength
  unfold verifyContentKeyIfSHA256 at h
  rw [if_neg (by simpa using hlength)] at h
  exact (verifySHA256Key_eq_ok.mp h).2

/-- The message of a written frame is determined by its text. -/
theorem honest_marshal {m : Message} (hm : m.type.Known) {store : BlobStore}
    (hput : m.type = .blobPut → m.key.length = sha256Size → S.sha256 m.data = m.key)
    (hack : m.type = .blobAck → ∃ data, store.data? m.key = some data) :
    Emission.Honest S ⟨marshal m, store⟩ := by
  intro m' h
  constructor
  · intro htype
    have heq : m = m' := marshal_injective hm (by rw [htype]; trivial) h
    subst heq
    exact hput htype
  · intro htype
    have heq : m = m' := marshal_injective hm (by rw [htype]; trivial) h
    subst heq
    exact hack htype

theorem honest_ack (h : encodeBlobAck key limits = .ok payload) {store : BlobStore}
    (hheld : ∃ data, store.data? key = some data) : Emission.Honest S ⟨payload, store⟩ := by
  obtain ⟨_, rfl⟩ := encodeKeyMessage_ok.mp h
  exact honest_marshal (m := ⟨.blobAck, key, [], []⟩) trivial nofun fun _ => hheld

theorem honest_put (h : encodeBlobPut key data limits = .ok payload)
    (hmatch : key.length = sha256Size → S.sha256 data = key) (store : BlobStore) :
    Emission.Honest S ⟨payload, store⟩ := by
  obtain ⟨_, rfl⟩ := encodeBlobPut_ok.mp h
  exact honest_marshal (m := ⟨.blobPut, key, [], data⟩) trivial (fun _ => hmatch) nofun

theorem honest_keys {type : MessageType} {keys : List Bytes}
    (h : encodeKeyListMessage type keys limits = .ok payload)
    (htype : type = .blobHas ∨ type = .blobMissing) (store : BlobStore) :
    Emission.Honest S ⟨payload, store⟩ := by
  obtain ⟨_, rfl⟩ := encodeKeyListMessage_ok.mp h
  rcases htype with rfl | rfl
  · exact honest_marshal (m := ⟨.blobHas, [], keys, []⟩) trivial nofun nofun
  · exact honest_marshal (m := ⟨.blobMissing, [], keys, []⟩) trivial nofun nofun

end Honest

/-! ## Every call keeps to it -/

section Triples

variable {S : Stdlib} {received : Bytes → Prop} {s₀ : Endpoint}

theorem ctxErr_preserves (o : Oracle) (i : Nat) {P : Endpoint → Prop}
    (hP : ∀ s, P s → Preserved S received s₀ s) :
    Triple P (ctxErr o i) (fun _ s => P s) (fun _ s => Preserved S received s₀ s) :=
  (ctxErr_triple o i P).weaken (fun _ hs => hs) (fun _ _ hs => hs) fun _ s hs => hP s hs

theorem sendFrame_preserves (o : Oracle) (b : Bounds) {payload : Bytes} {P : Endpoint → Prop}
    (hP : ∀ s, P s → Preserved S received s₀ s)
    (honest : ∀ s, P s → Emission.Honest S ⟨payload, s.store⟩) :
    Triple P (sendFrame o b payload) (fun _ s => Preserved S received s₀ s)
      (fun _ s => Preserved S received s₀ s) := by
  unfold sendFrame writeFrameTo
  refine Triple.bind (Triple.raiseIf fun s hs _ => hP s hs) ?_
  intro _ s hs
  have hwrote := (hP s hs.1).wrote (honest s hs.1)
  have hperform := perform_triple o .writeFrame (Endpoint.wrote payload) s
  apply hperform.weaken (fun t ht => ht) ?_ ?_ s rfl
  · intro _ t ht
    rw [ht]
    exact hwrote
  · intro _ t ht
    rcases ht with ht | ht
    · rw [ht]
      exact hP s hs.1
    · rw [ht]
      exact hwrote

theorem sendBlobAck_preserves (o : Oracle) (b : Bounds) {key : Bytes} {P : Endpoint → Prop}
    (hP : ∀ s, P s → Preserved S received s₀ s)
    (hheld : ∀ s, P s → ∃ data, s.store.data? key = some data) :
    Triple P (sendBlobAck o b key) (fun _ s => Preserved S received s₀ s)
      (fun _ s => Preserved S received s₀ s) := by
  unfold sendBlobAck
  refine Triple.bind (Triple.attempt fun s _ hs _ => hP s hs) ?_
  intro payload
  exact sendFrame_preserves o b (fun s hs => hP s hs.1) fun s hs =>
    honest_ack hs.2 (hheld s hs.1)

theorem put_preserves (o : Oracle) {key data : Bytes}
    (hmatch : key.length = sha256Size → S.sha256 data = key)
    (hreceived : key.length = sha256Size → S.sha256 data = key → received data) :
    Triple (Preserved S received s₀) (Endpoint.onStore (BlobStore.put o key data))
      (fun _ s => Preserved S received s₀ s ∧ ∃ data, s.store.data? key = some data)
      (fun _ s => Preserved S received s₀ s) := by
  apply Triple.zoom
  intro s hs
  apply (BlobStore.put_triple o s.store key data).weaken (fun t ht => ht)
  · intro _ t ht
    obtain ⟨hkey, rfl⟩ := ht
    exact ⟨hs.insert hkey hmatch hreceived, data, BlobStore.data?_insert_self hkey⟩
  · intro _ t ht
    rcases ht with rfl | ⟨hkey, rfl⟩
    · exact hs
    · exact hs.insert hkey hmatch hreceived

theorem storeAndAck_preserves (b : Bounds) {msg : Message}
    (hmatch : msg.key.length = sha256Size → S.sha256 msg.data = msg.key)
    (hreceived : msg.key.length = sha256Size → S.sha256 msg.data = msg.key → received msg.data) :
    Preserves (Preserved S received s₀) (storeAndAck F b msg) := by
  unfold storeAndAck
  refine Triple.bind (put_preserves (F (.blob 1)) hmatch hreceived) ?_
  intro _
  refine Triple.bind (sendBlobAck_preserves (F .frame) b (fun s hs => hs.1) fun s hs => hs.2) ?_
  intro _
  exact Triple.pure fun _ hs => hs

theorem sendRequestedBlob_preserves (b : Bounds) (repair : Bool) (i : Nat) (key : Bytes)
    (repairBytes : Nat) :
    Preserves (Preserved S received s₀) (sendRequestedBlob S F b repair i key repairBytes) := by
  have hctx : ∀ j, Preserves (Preserved S received s₀) (ctxErr (F (.send i)) j) :=
    fun j => ctxErr_preserves _ j fun _ hs => hs
  have hskip : ∀ outcome : SendOutcome, Preserves (Preserved S received s₀)
      (pure outcome : EStateM Error Endpoint SendOutcome) :=
    fun _ => Triple.pure fun _ hs => hs
  have hthrow : ∀ e : Error, Preserves (Preserved S received s₀)
      (throw e : EStateM Error Endpoint SendOutcome) :=
    fun _ => Triple.throw fun _ hs => hs
  unfold sendRequestedBlob
  have hslot : Preserves (Preserved S received s₀)
      (acquireSlot (F (.send i)) repair) := by
    cases repair with
    | true => exact hctx 1
    | false => exact Triple.pure fun _ hs => hs
  refine Triple.bind hslot ?_
  intro _
  apply Triple.get_bind
  intro s hs
  -- the rest starts in the state that was read
  have hstart : ∀ t, t = s → Preserved S received s₀ t := fun t ht => ht ▸ hs
  refine Triple.weaken ?_ hstart (fun _ _ h => h) fun _ _ h => h
  cases hget : s.store.get S (F (.blob i)) key with
  | error e =>
    simp only
    by_cases hcrash : e = .crash
    · rw [if_pos hcrash]
      exact hthrow e
    rw [if_neg hcrash]
    by_cases hnone : e.is .blobNotFound = true
    · rw [if_pos hnone]
      exact hskip _
    rw [if_neg hnone]
    by_cases hcorrupt : e.is .sha256Mismatch = true
    · rw [if_pos hcorrupt]
      exact hskip _
    rw [if_neg hcorrupt]
    refine Triple.bind (hctx 2) ?_
    intro _
    by_cases hcanceled : e.is .canceled = true
    · rw [if_pos hcanceled]
      exact hthrow e
    · rw [if_neg hcanceled]
      exact hskip _
  | ok data =>
    simp only
    refine Triple.bind (hctx 3) ?_
    intro _
    cases hverify : verifyContentKeyIfSHA256 S key data with
    | error _ => exact hskip _
    | ok _ =>
      simp only
      split
      · exact hskip _
      · cases hencode : encodeBlobPut key data b.limits with
        | error _ => exact hskip _
        | ok payload =>
          refine Triple.bind (hctx 4) ?_
          intro _
          refine Triple.bind (sendFrame_preserves (F (.send i)) b (fun _ hs => hs) fun s _ =>
            honest_put hencode (verifyContentKeyIfSHA256_ok hverify) s.store) ?_
          intro _
          exact hskip _

theorem sendRequestedBlobsResult_preserves (b : Bounds) (repair : Bool) (i : Nat)
    (keys : List Bytes) (repairBytes : Nat) :
    Preserves (Preserved S received s₀)
      (sendRequestedBlobsResult S F b repair i keys repairBytes) := by
  induction keys generalizing i repairBytes with
  | nil => exact Triple.pure fun _ hs => hs
  | cons key rest ih =>
    unfold sendRequestedBlobsResult
    refine Triple.bind (ctxErr_preserves _ 0 fun _ hs => hs) ?_
    intro _
    refine Triple.bind (sendRequestedBlob_preserves F b repair i key repairBytes) ?_
    intro outcome
    cases outcome with
    | skipped => exact ih (i + 1) repairBytes
    | deferred => exact Triple.pure fun _ hs => hs
    | sent bytes => exact ih (i + 1) _

/-- Whatever calls fail, a message changes a node as `Preserved` says. -/
theorem handle_preserves (b : Bounds) (msg : Message)
    (hreceived : msg.Addressed S → received msg.data) :
    Preserves (Preserved S received s₀) (handleReplicationMessage S F b msg) := by
  unfold handleReplicationMessage
  cases htype : msg.type with
  | blobPut =>
    refine Triple.bind (Triple.attempt fun _ _ hs _ => hs) ?_
    intro _
    apply Triple.fact
    intro hverify
    have hmatch := verifyContentKeyIfSHA256_ok hverify
    have hstore : Preserves (Preserved S received s₀) (storeAndAck F b msg) :=
      storeAndAck_preserves F b hmatch fun hlength hsum => hreceived ⟨htype, hlength, hsum⟩
    apply Triple.get_bind
    intro s hs
    have hstart : ∀ t, t = s → Preserved S received s₀ t := fun t ht => ht ▸ hs
    cases hget : s.store.get S (F (.blob 0)) msg.key with
    | ok existing =>
      simp only
      by_cases hdup : existing = msg.data
      · rw [if_pos hdup]
        have hack : Triple (fun t => t = s) (sendBlobAck (F .frame) b msg.key)
            (fun _ t => Preserved S received s₀ t) (fun _ t => Preserved S received s₀ t) := by
          apply sendBlobAck_preserves _ b hstart
          intro t ht
          rw [ht]
          exact ⟨existing, BlobStore.get_ok hget⟩
        refine Triple.bind hack ?_
        intro _
        exact Triple.pure fun _ hs => hs
      · rw [if_neg hdup]
        exact hstore.weaken hstart (fun _ _ h => h) fun _ _ h => h
    | error e =>
      simp only
      split
      · exact hstore.weaken hstart (fun _ _ h => h) fun _ _ h => h
      · exact Triple.throw hstart
  | blobHas =>
    apply Triple.get_bind
    intro s hs
    have hstart : ∀ t, t = s → Preserved S received s₀ t := fun t ht => ht ▸ hs
    refine Triple.weaken ?_ hstart (fun _ _ h => h) fun _ _ h => h
    refine Triple.bind (Triple.attempt fun _ _ hs _ => hs) ?_
    intro missing
    apply Triple.fact
    intro _
    split
    · exact Triple.pure fun _ hs => hs
    · apply Triple.bind (Triple.attempt fun _ _ hs _ => hs)
      intro payload
      apply Triple.fact
      intro hencode
      refine Triple.bind (sendFrame_preserves (F .frame) b (fun _ hs => hs) fun s _ =>
        honest_keys hencode (.inr rfl) s.store) ?_
      intro _
      exact Triple.pure fun _ hs => hs
  | blobMissing => exact sendRequestedBlobsResult_preserves F b true 0 msg.keys 0
  | blobGet =>
    refine Triple.bind (sendRequestedBlobsResult_preserves F b false 0 [msg.key] 0) ?_
    intro _
    exact Triple.pure fun _ hs => hs
  | blobAck => exact Triple.pure fun _ hs => hs
  | other _ => exact Triple.throw fun _ hs => hs

theorem receive_preserves (C : Codec) (F : Faults) (b : Bounds) (payload : Bytes)
    (hreceived : ∀ msg, decode C payload b.limits = .ok msg → msg.Addressed S →
      received msg.data) :
    Preserves (Preserved S received s₀) (receive S C F b payload) := by
  unfold receive
  refine Triple.bind (Triple.attempt fun _ _ hs _ => hs) ?_
  intro msg
  apply Triple.fact
  intro hdecode
  refine Triple.bind (ctxErr_preserves _ 0 fun _ hs => hs) ?_
  intro _
  exact handle_preserves F b msg (hreceived msg hdecode)

theorem apply_preserves (C : Codec) (F : Faults) (limits : Limits) (payload : Bytes)
    (hreceived : ∀ msg, decode C payload limits = .ok msg → msg.Addressed S →
      received msg.data) :
    Preserves (Preserved S received s₀) (apply S C F limits payload) := by
  unfold apply
  refine Triple.bind (ctxErr_preserves _ 0 fun _ hs => hs) ?_
  intro _
  refine Triple.bind (Triple.attempt fun _ _ hs _ => hs) ?_
  intro msg
  apply Triple.fact
  intro hdecode
  cases htype : msg.type with
  | blobPut =>
    refine Triple.bind (Triple.attempt fun _ _ hs _ => hs) ?_
    intro _
    apply Triple.fact
    intro hverify
    have hallowed := fun hlength hsum => hreceived msg hdecode ⟨htype, hlength, hsum⟩
    exact (put_preserves _ (verifyContentKeyIfSHA256_ok hverify) hallowed).weaken
      (fun _ h => h) (fun _ _ h => h.1) fun _ _ h => h
  | _ => exact Triple.throw fun _ hs => hs

end Triples

end StreamHive.Replication

import StreamHive.Replication.Delivery
import StreamHive.Replication.InventoryRun

/-!
# Raw anti-entropy

A source advertises its inventory, a replica asks for what it lacks, the source
sends as much of it as its repair budget allows, and the replica stores what it
receives.  Deferred keys are dropped; a later round asks for them again.  Every
reply starts with its first key whatever the budget, so every round makes
progress.

## Main results

* `receive_has`, `receive_missing`, `receive_put` — what one message does when no
  call fails;
* `round_progress` — one round;
* `antiEntropy_converges` — after as many rounds as the source has keys, the replica
  holds all of them, exactly if the advertisement does not overflow.
-/

namespace StreamHive.Replication

open Verified ByteString Effect Paging
open StreamHive.Lifecycle (Error Oracle Faults Stdlib sha256Size verifySHA256Key_eq_ok ctxErr
  goStdlib goStdlib_lawful maxInt64)

variable {replica source store : BlobStore} {key : Bytes} {S : Stdlib} {C : Codec} {b : Bounds}

/-! ## A round -/

def Endpoint.payloads (s : Endpoint) : List Bytes := s.outbox.map Emission.payload

/-- Hand payloads to a node, one after the other. -/
def receiveAll (S : Stdlib) (C : Codec) (b : Bounds) : List Bytes → EStateM Error Endpoint Unit
  | [] => pure ()
  | payload :: rest => do
    let _ ← receive S C Faults.none b payload
    receiveAll S C b rest

/-- An exchange without inventory budgets. -/
def Bounds.unlimited (b : Bounds) : Config := ⟨b.limits, b.maxFrameBytes, ⟨0, 0⟩⟩

/-- The frames with which a store advertises its whole inventory. -/
def advertise (b : Bounds) (source : BlobStore) : Except Error (List Bytes) :=
  match sendInventoryExchange Faults.none b.unlimited source.lister [] [] with
  | .error e _ => .error e
  | .ok _ sent => .ok sent

/-- Hand payloads to a node with an empty outbox: its store and what it wrote. -/
def exchangeWith (S : Stdlib) (C : Codec) (b : Bounds) (store : BlobStore)
    (payloads : List Bytes) : Except Error (BlobStore × List Bytes) :=
  match receiveAll S C b payloads ⟨store, []⟩ with
  | .error e _ => .error e
  | .ok _ s => .ok (s.store, s.payloads)

/-- One round of repair from a source to a replica. -/
def round (S : Stdlib) (C : Codec) (b : Bounds) (source replica : BlobStore) :
    Except Error BlobStore := do
  let advertised ← advertise b source
  let (replica, missing) ← exchangeWith S C b replica advertised
  let (_, puts) ← exchangeWith S C b source missing
  let (replica, _) ← exchangeWith S C b replica puts
  .ok replica

def rounds (S : Stdlib) (C : Codec) (b : Bounds) (source : BlobStore) :
    Nat → BlobStore → Except Error BlobStore
  | 0, replica => .ok replica
  | n + 1, replica => do
    let replica ← round S C b source replica
    rounds S C b source n replica

/-- A source whose messages all fit: every key in an advertisement of its own, every
reply to its advertisement, and every blob. -/
structure Repairable (S : Stdlib) (C : Codec) (b : Bounds) (source : BlobStore) : Prop where
  addressed : ContentAddressed S source
  has : Advertisable b.unlimited source.lister.keys
  replies : ∀ sent, advertise b source = .ok sent → ∀ payload ∈ sent, ∀ reply,
    reply.Sublist (advertisedKeys C b.limits payload) → reply ≠ [] →
      ((keysPayload .blobMissing reply).length : Int) ≤ b.maxPayload
  puts : ∀ key data, source.data? key = some data → ∃ payload,
    encodeBlobPut key data b.limits = .ok payload ∧ (payload.length : Int) ≤ b.maxPayload

/-! ## Messages without faults -/

/-- The keys of a frame that a store lacks. -/
def BlobStore.lacks (store : BlobStore) (keys : List Bytes) : List Bytes :=
  keys.filter fun key => (store.data? key).isNone

/-- The data under a key of the store. -/
def BlobStore.dataOf (store : BlobStore) (key : Bytes) : Bytes := (store.data? key).getD []

/-- The frame that carries a blob of a store. -/
def BlobStore.putOf (store : BlobStore) (key : Bytes) : Bytes :=
  marshal ⟨.blobPut, key, [], store.dataOf key⟩

theorem receive_run {payload : Bytes} {m : Message} (h : decode C payload b.limits = .ok m)
    (s : Endpoint) :
    receive S C Faults.none b payload s = handleReplicationMessage S Faults.none b m s := by
  unfold receive
  rw [run_bind_ok (run_attempt h),
    run_bind_ok (show ctxErr (Faults.none .entry) 0 s = .ok () s from rfl)]

theorem missingKeysFromStore_run (hm : Matching S store) (i : Nat) {keys : List Bytes}
    (hkeys : ∀ key ∈ keys, key ≠ []) :
    missingKeysFromStore S Faults.none store i keys = .ok (store.lacks keys) := by
  induction keys generalizing i with
  | nil => rfl
  | cons key rest ih =>
    have hhas : store.has S (Faults.none (.probe i)) key = .ok (store.data? key).isSome :=
      BlobStore.has_run hm (hkeys key List.mem_cons_self)
    have hrest := ih (i + 1) fun k hk => hkeys k (List.mem_cons_of_mem _ hk)
    unfold missingKeysFromStore
    rw [hhas, hrest]
    show Except.ok _ = _
    unfold BlobStore.lacks
    cases hdata : store.data? key with
    | none | some data => simp [hdata]

/-- A replica answers an advertisement with the keys that it lacks. -/
theorem receive_has (hC : C.Lawful) (hm : Matching S store) {frame : List Bytes}
    (hvalid : validateKeys frame (normalizeLimits b.limits) = .ok ())
    (hfits : store.lacks frame ≠ [] →
      ((keysPayload .blobMissing (store.lacks frame)).length : Int) ≤ b.maxPayload)
    (out : List Emission) : receive S C Faults.none b (hasPayload frame) ⟨store, out⟩ =
      .ok [] ⟨store, out ++
        if store.lacks frame = [] then [] else
          [⟨keysPayload .blobMissing (store.lacks frame), store⟩]⟩ := by
  have hdecode : decode C (hasPayload frame) b.limits = .ok ⟨.blobHas, [], frame, []⟩ :=
    decode_marshal hC trivial hvalid
  obtain ⟨_, hmax, hkeys⟩ := validateKeys_ok.mp hvalid
  have hmissing : missingKeysFromStore S Faults.none store 0 frame = .ok (store.lacks frame) :=
    missingKeysFromStore_run hm 0 fun key hk => (validateKey_ok.mp (hkeys key hk)).1
  rw [receive_run hdecode]
  unfold handleReplicationMessage
  simp only
  rw [run_bind_get, run_bind_ok (run_attempt hmissing)]
  by_cases hnone : store.lacks frame = []
  · simp [hnone, pure, EStateM.pure]
  · have hencode : encodeBlobMissing (store.lacks frame) b.limits =
        .ok (keysPayload .blobMissing (store.lacks frame)) := by
      apply encodeKeyListMessage_ok.mpr
      refine ⟨validateKeys_ok.mpr ⟨hnone, ?_, ?_⟩, rfl⟩
      · have := List.length_filter_le (fun key => (store.data? key).isNone) frame
        unfold BlobStore.lacks
        omega
      · intro key hk
        exact hkeys key (List.mem_filter.mp hk).1
    rw [if_neg hnone, if_neg hnone, run_bind_ok (run_attempt hencode),
      run_bind_ok (show sendFrame (Faults.none .frame) b _ _ = _ from
        writeFrameTo_run (hfits hnone) _)]
    rfl

/-- A source whose blobs all fit sends a requested blob, or defers it. -/
theorem sendRequestedBlob_run (haddressed : ContentAddressed S source) {data : Bytes}
    (hdata : source.data? key = some data) {payload : Bytes}
    (hencode : encodeBlobPut key data b.limits = .ok payload)
    (hfits : (payload.length : Int) ≤ b.maxPayload) (i repairBytes : Nat) (out : List Emission) :
    sendRequestedBlob S Faults.none b true i key repairBytes ⟨source, out⟩ =
      if 0 < repairBytes ∧
          ((repairBytes + data.length : Nat) : Int) > repairBudget b.limits then
        .ok .deferred ⟨source, out⟩
      else .ok (.sent data.length) ⟨source, out ++ [⟨payload, source⟩]⟩ := by
  have hkey := BlobStore.ne_nil_of_data? hdata
  have hget : source.get S (Faults.none (.blob i)) key = .ok data := by
    have hrun := BlobStore.get_run (S := S) haddressed.matching hkey
    rw [hdata] at hrun
    exact hrun
  have hverify : verifyContentKeyIfSHA256 S key data = .ok () := by
    unfold verifyContentKeyIfSHA256
    by_cases hlength : key.length = sha256Size
    · rw [if_neg (by simpa using hlength)]
      exact verifySHA256Key_eq_ok.mpr ⟨hlength, haddressed key data hdata⟩
    · rw [if_pos hlength]
  unfold sendRequestedBlob
  rw [run_bind_ok (show acquireSlot (Faults.none (.send i)) true (⟨source, out⟩ : Endpoint) =
      .ok () _ from rfl), run_bind_get]
  simp only [hget]
  rw [run_bind_ok (show ctxErr (Faults.none (.send i)) 3 (⟨source, out⟩ : Endpoint) =
      .ok () _ from rfl)]
  simp only [hverify, true_and]
  by_cases hover : 0 < repairBytes ∧
      ((repairBytes + data.length : Nat) : Int) > repairBudget b.limits
  · rw [if_pos hover, if_pos hover]
    rfl
  · rw [if_neg hover, if_neg hover, hencode]
    simp only
    rw [run_bind_ok (show ctxErr (Faults.none (.send i)) 4 (⟨source, out⟩ : Endpoint) =
        .ok () _ from rfl),
      run_bind_ok (show sendFrame (Faults.none (.send i)) b _ _ = _ from
        writeFrameTo_run hfits _)]
    rfl

/-- The put of a blob that a source holds is encoded and fits. -/
theorem Repairable.put (h : Repairable S C b source) {data : Bytes}
    (hdata : source.data? key = some data) :
    encodeBlobPut key data b.limits = .ok (source.putOf key) ∧
      ((source.putOf key).length : Int) ≤ b.maxPayload := by
  obtain ⟨payload, hencode, hfits⟩ := h.puts key data hdata
  have hput : source.putOf key = payload := by
    obtain ⟨_, hpayload⟩ := encodeBlobPut_ok.mp hencode
    unfold BlobStore.putOf BlobStore.dataOf
    rw [hdata]
    exact hpayload
  rw [hput]
  exact ⟨hencode, hfits⟩

/-- A source answers requested keys of its own from the first one on; with nothing
sent before, the first is always sent. -/
theorem sendRequested_run (h : Repairable S C b source)
    (keys : List Bytes) (hkeys : ∀ key ∈ keys, ∃ data, source.data? key = some data)
    (i repairBytes : Nat) (out : List Emission) : ∃ n deferred,
      sendRequestedBlobsResult S Faults.none b true i keys repairBytes ⟨source, out⟩ =
        .ok deferred ⟨source, out ++ (keys.take n).map fun key => ⟨source.putOf key, source⟩⟩ ∧
      (repairBytes = 0 → 0 < n) := by
  induction keys generalizing i repairBytes out with
  | nil => exact ⟨1, [], by simp [sendRequestedBlobsResult, pure, EStateM.pure], by simp⟩
  | cons key rest ih =>
    obtain ⟨data, hdata⟩ := hkeys key List.mem_cons_self
    obtain ⟨hencode, hfits⟩ := h.put hdata
    have hone := sendRequestedBlob_run h.addressed hdata hencode hfits i repairBytes out
    unfold sendRequestedBlobsResult
    rw [run_bind_ok (show ctxErr (Faults.none (.send i)) 0 (⟨source, out⟩ : Endpoint) =
      .ok () _ from rfl)]
    by_cases hover : 0 < repairBytes ∧
        ((repairBytes + data.length : Nat) : Int) > repairBudget b.limits
    · rw [if_pos hover] at hone
      rw [run_bind_ok hone]
      exact ⟨0, key :: rest, by simp [pure, EStateM.pure], by omega⟩
    · rw [if_neg hover] at hone
      rw [run_bind_ok hone]
      obtain ⟨n, deferred, hrest, _⟩ := ih (fun k hk => hkeys k (List.mem_cons_of_mem _ hk))
        (i + 1) (repairBytes + data.length) (out ++ [⟨source.putOf key, source⟩])
      refine ⟨n + 1, deferred, ?_, by omega⟩
      simp only [if_true, hrest, List.take_succ_cons, List.map_cons,
        List.append_assoc, List.cons_append, List.nil_append]

/-- A source answers a request for keys of its own with at least the first one. -/
theorem receive_missing (hC : C.Lawful) (h : Repairable S C b source)
    {keys : List Bytes} (hkeys : ∀ key ∈ keys, ∃ data, source.data? key = some data)
    (hvalid : validateKeys keys (normalizeLimits b.limits) = .ok ()) (out : List Emission) :
    ∃ n deferred, 0 < n ∧
      receive S C Faults.none b (keysPayload .blobMissing keys) ⟨source, out⟩ =
        .ok deferred
          ⟨source, out ++ (keys.take n).map fun key => ⟨source.putOf key, source⟩⟩ := by
  have hdecode : decode C (keysPayload .blobMissing keys) b.limits =
      .ok ⟨.blobMissing, [], keys, []⟩ := decode_marshal hC trivial hvalid
  obtain ⟨n, deferred, hrun, hpos⟩ :=
    sendRequested_run h keys hkeys 0 0 out
  exact ⟨n, deferred, hpos rfl, (receive_run hdecode _).trans hrun⟩

/-- A replica that agrees with the data of a put holds it afterwards. -/
theorem receive_put (hC : C.Lawful) (hm : Matching S store) {data payload : Bytes}
    (hsum : S.sha256 data = key) (hencode : encodeBlobPut key data b.limits = .ok payload)
    (hfits : (payload.length : Int) ≤ b.maxPayload)
    (hagree : ∀ existing, store.data? key = some existing → existing = data)
    (out : List Emission) : ∃ store' emitted, receive S C Faults.none b payload ⟨store, out⟩ =
        .ok [] ⟨store', out ++ emitted⟩ ∧ store'.data? key = some data ∧
      ∀ other, other ≠ key → store'.data? other = store.data? other := by
  obtain ⟨hvalid, rfl⟩ := encodeBlobPut_ok.mp hencode
  have hvalidKey := validateBlobPut_key hvalid
  have hkey : key ≠ [] := (validateKey_ok.mp hvalidKey).1
  have hdecode : decode C (marshal ⟨.blobPut, key, [], data⟩) b.limits =
      .ok ⟨.blobPut, key, [], data⟩ := decode_marshal hC trivial hvalid
  have hverify : verifyContentKeyIfSHA256 S key data = .ok () := by
    unfold verifyContentKeyIfSHA256
    by_cases hlength : key.length = sha256Size
    · rw [if_neg (by simpa using hlength)]
      exact verifySHA256Key_eq_ok.mpr ⟨hlength, hsum⟩
    · rw [if_pos hlength]
  -- the acknowledgement is no longer than the put
  have hack : ∀ t : Endpoint, sendBlobAck (Faults.none .frame) b key t =
      .ok () (t.wrote (marshal ⟨.blobAck, key, [], []⟩)) := by
    intro t
    have hencodeAck : encodeBlobAck key b.limits = .ok (marshal ⟨.blobAck, key, [], []⟩) :=
      encodeKeyMessage_ok.mpr ⟨hvalidKey, rfl⟩
    have hshort := length_ack_le_put key data
    unfold sendBlobAck
    rw [run_bind_ok (run_attempt hencodeAck)]
    apply writeFrameTo_run
    exact le_trans (Int.ofNat_le.mpr hshort) hfits
  have hget := BlobStore.get_run (S := S) hm hkey
  rw [receive_run hdecode]
  unfold handleReplicationMessage
  simp only
  rw [run_bind_ok (run_attempt hverify), run_bind_get]
  cases hdata : store.data? key with
  | some existing =>
    rw [hdata] at hget
    have hsame : existing = data := hagree existing hdata
    simp only [show store.get S (Faults.none (.blob 0)) key = .ok existing from hget, hsame,
      if_true]
    rw [run_bind_ok (hack _)]
    exact ⟨store, _, rfl, by rw [hdata, hsame], fun _ _ => rfl⟩
  | none =>
    rw [hdata] at hget
    simp only [show store.get S (Faults.none (.blob 0)) key = .error .blobNotFound from hget]
    have hput : Endpoint.onStore (BlobStore.put (Faults.none (.blob 1)) key data)
        ⟨store, out⟩ = .ok () ⟨store.insert key data hkey, out⟩ :=
      run_zoom (BlobStore.put_run hkey)
    have hstore : storeAndAck Faults.none b ⟨.blobPut, key, [], data⟩ ⟨store, out⟩ =
        .ok [] ⟨store.insert key data hkey,
          out ++ [⟨marshal ⟨.blobAck, key, [], []⟩, store.insert key data hkey⟩]⟩ := by
      unfold storeAndAck
      simp only
      rw [run_bind_ok hput, run_bind_ok (hack _)]
      rfl
    rw [if_pos (.inr (by decide)), hstore]
    exact ⟨store.insert key data hkey, _, rfl, BlobStore.data?_insert_self hkey,
      fun other hother => BlobStore.data?_insert_ne hkey hother⟩

/-! ## The phases of a round -/

/-- The requests with which a replica answers advertised frames. -/
def BlobStore.requests (store : BlobStore) (frames : List (List Bytes)) : List (List Bytes) :=
  (frames.map store.lacks).filter fun keys => keys ≠ []

/-- The replica holds content-addressed data that agrees with the source. -/
structure IsReplica (S : Stdlib) (source replica : BlobStore) : Prop where
  addressed : ContentAddressed S replica
  agrees : ∀ key data existing, source.data? key = some data →
    replica.data? key = some existing → existing = data

theorem exchangeWith_ok {store' : BlobStore} {payloads : List Bytes} {out : List Emission}
    (h : receiveAll S C b payloads ⟨store, []⟩ = .ok () ⟨store', out⟩) :
    exchangeWith S C b store payloads = .ok (store', out.map Emission.payload) := by
  unfold exchangeWith
  rw [h]
  rfl

theorem receiveAll_has (hC : C.Lawful) (hm : Matching S replica) (frames : List (List Bytes))
    (hvalid : ∀ frame ∈ frames, validateKeys frame (normalizeLimits b.limits) = .ok ())
    (hfits : ∀ frame ∈ frames, replica.lacks frame ≠ [] →
      ((keysPayload .blobMissing (replica.lacks frame)).length : Int) ≤ b.maxPayload)
    (out : List Emission) : receiveAll S C b (frames.map hasPayload) ⟨replica, out⟩ =
      .ok () ⟨replica, out ++ (replica.requests frames).map fun keys =>
        ⟨keysPayload .blobMissing keys, replica⟩⟩ := by
  induction frames generalizing out with
  | nil => simp [receiveAll, BlobStore.requests, pure, EStateM.pure]
  | cons frame rest ih =>
    have hfirst := receive_has hC hm (hvalid frame List.mem_cons_self)
      (hfits frame List.mem_cons_self) out
    have hrest := ih (fun f hf => hvalid f (List.mem_cons_of_mem _ hf))
      fun f hf => hfits f (List.mem_cons_of_mem _ hf)
    rw [List.map_cons, receiveAll, run_bind_ok hfirst, hrest]
    by_cases hnone : replica.lacks frame = []
    · simp [BlobStore.requests, hnone]
    · simp [BlobStore.requests, hnone]

theorem receiveAll_missing (hC : C.Lawful) (h : Repairable S C b source)
    (requests : List (List Bytes))
    (hkeys : ∀ keys ∈ requests, ∀ key ∈ keys, ∃ data, source.data? key = some data)
    (hvalid : ∀ keys ∈ requests, validateKeys keys (normalizeLimits b.limits) = .ok ())
    (out : List Emission) :
    ∃ sent : List Bytes, receiveAll S C b (requests.map (keysPayload .blobMissing)) ⟨source, out⟩ =
        .ok () ⟨source, out ++ sent.map fun key => ⟨source.putOf key, source⟩⟩ ∧
      (∀ key ∈ sent, ∃ keys ∈ requests, key ∈ keys) ∧
      ∀ keys ∈ requests, ∃ key ∈ keys, key ∈ sent := by
  induction requests generalizing out with
  | nil => exact ⟨[], by simp [receiveAll, pure, EStateM.pure], by simp, by simp⟩
  | cons keys rest ih =>
    have hhead := hvalid keys List.mem_cons_self
    obtain ⟨n, deferred, hpos, hfirst⟩ := receive_missing hC h
      (hkeys keys List.mem_cons_self) hhead out
    obtain ⟨sent, hrest, hsub, hsome⟩ := ih
      (fun ks hks => hkeys ks (List.mem_cons_of_mem _ hks))
      (fun ks hks => hvalid ks (List.mem_cons_of_mem _ hks))
      (out ++ (keys.take n).map fun key => ⟨source.putOf key, source⟩)
    refine ⟨keys.take n ++ sent, ?_, ?_, ?_⟩
    · rw [List.map_cons, receiveAll, run_bind_ok hfirst, hrest, List.map_append,
        List.append_assoc]
    · intro key hkey
      rcases List.mem_append.mp hkey with hkey | hkey
      · exact ⟨keys, List.mem_cons_self, List.mem_of_mem_take hkey⟩
      · obtain ⟨ks, hks, hmem⟩ := hsub key hkey
        exact ⟨ks, List.mem_cons_of_mem _ hks, hmem⟩
    · intro ks hks
      rcases List.mem_cons.mp hks with rfl | hks
      · obtain ⟨key, tail, rfl⟩ := List.exists_cons_of_ne_nil (validateKeys_ok.mp hhead).1
        obtain ⟨n, rfl⟩ : ∃ k, n = k + 1 := ⟨n - 1, by omega⟩
        exact ⟨key, List.mem_cons_self, by simp⟩
      · obtain ⟨key, hkey, hmem⟩ := hsome ks hks
        exact ⟨key, hkey, List.mem_append_right _ hmem⟩

/-- Storing the source's data keeps a replica one. -/
theorem IsReplica.stored {replica' : BlobStore} {data : Bytes}
    (haddressed : ContentAddressed S source) (h : IsReplica S source replica)
    (hdata : source.data? key = some data) (hself : replica'.data? key = some data)
    (hother : ∀ other, other ≠ key → replica'.data? other = replica.data? other) :
    IsReplica S source replica' where
  addressed := by
    intro k d hd
    by_cases heq : k = key
    · subst heq
      rw [hself] at hd
      cases hd
      exact haddressed k data hdata
    · rw [hother k heq] at hd
      exact h.addressed k d hd
  agrees := by
    intro k d existing hd hexisting
    by_cases heq : k = key
    · subst heq
      rw [hself] at hexisting
      rw [hdata] at hd
      cases hd
      cases hexisting
      rfl
    · rw [hother k heq] at hexisting
      exact h.agrees k d existing hd hexisting

theorem receiveAll_puts (hC : C.Lawful) (h : Repairable S C b source)
    (keys : List Bytes) (hkeys : ∀ key ∈ keys, ∃ data, source.data? key = some data)
    (hreplica : IsReplica S source replica) (out : List Emission) :
    ∃ replica' out', receiveAll S C b (keys.map source.putOf) ⟨replica, out⟩ =
        .ok () ⟨replica', out'⟩ ∧ IsReplica S source replica' ∧
      ∀ key, replica'.data? key = if key ∈ keys then source.data? key else replica.data? key := by
  induction keys generalizing replica out with
  | nil => exact ⟨replica, out, rfl, hreplica, by simp⟩
  | cons key rest ih =>
    obtain ⟨data, hdata⟩ := hkeys key List.mem_cons_self
    obtain ⟨hencode, hfits⟩ := h.put hdata
    obtain ⟨stored, emitted, hfirst, hself, hother⟩ := receive_put hC
      hreplica.addressed.matching (h.addressed key data hdata) hencode hfits
      (fun existing hexisting => hreplica.agrees key data existing hdata hexisting) out
    obtain ⟨replica', out', hrest, hreplica', hcontents⟩ := ih
      (fun k hk => hkeys k (List.mem_cons_of_mem _ hk))
      (hreplica.stored h.addressed hdata hself hother) (out ++ emitted)
    refine ⟨replica', out', ?_, hreplica', ?_⟩
    · rw [List.map_cons, receiveAll, run_bind_ok hfirst, hrest]
    · intro k
      rw [hcontents k]
      by_cases heq : k = key
      · subst heq
        by_cases hmem : k ∈ rest
        · rw [if_pos hmem, if_pos List.mem_cons_self]
        · rw [if_neg hmem, if_pos List.mem_cons_self, hself, hdata]
      · simp only [List.mem_cons, heq, false_or, hother k heq]

/-! ## Rounds -/

/-- The advertisement of a whole inventory. -/
theorem advertise_run (hC : C.Lawful) (h : Advertisable b.unlimited source.lister.keys)
    (hint : IntSized b.unlimited source.lister.keys.length)
    (hover : ¬Overflowing b.unlimited source.lister []) :
    ∃ frames : List (List Bytes), advertise b source = .ok (frames.map hasPayload) ∧
      frames.flatten = sortKeys source.lister.keys ∧
      ∀ frame ∈ frames, validateKeys frame (normalizeLimits b.limits) = .ok () ∧
        advertisedKeys C b.limits (hasPayload frame) = frame := by
  obtain ⟨_, frames, cursor, complete, hrun, hexchanged, _⟩ :=
    (sendInventoryExchange_run h hint [] []).resolve_left fun hc => hover hc.1
  have hcomplete : complete = true := hexchanged.unlimited (le_refl _) (le_refl _)
  obtain ⟨left, hkeys, hleft⟩ := hexchanged.advertised
  rw [hleft hcomplete, List.append_nil, Lister.above_nil h] at hkeys
  refine ⟨frames, ?_, hkeys.symm, ?_⟩
  · unfold advertise
    rw [hrun]
    rfl
  · intro frame hframe
    obtain ⟨hne, hbatch, _⟩ := hexchanged.fits frame hframe
    have hsub : frame ⊆ source.lister.keys := by
      intro k hk
      apply Lister.mem_sortKeys.mp
      rw [hkeys]
      exact List.mem_flatten.mpr ⟨frame, hframe, hk⟩
    have hadv : Advertisable b.unlimited frame := h.sublist hsub
    have hread : advertisedKeys C b.unlimited.limits (hasPayload frame) = frame :=
      advertisedKeys_hasPayload hC hadv hne hbatch
    exact ⟨(encodeKeyListMessage_ok.mp (hadv.encode hne hbatch)).1, hread⟩

/-- An advertisement that overflows makes every round fail. -/
theorem round_overflowing (h : Advertisable b.unlimited source.lister.keys)
    (hint : IntSized b.unlimited source.lister.keys.length)
    (hover : Overflowing b.unlimited source.lister []) :
    ∃ e, round S C b source replica = .error e := by
  obtain ⟨_, e, out, hfails⟩ :=
    (sendInventoryExchange_run h hint [] []).resolve_right fun hc => hc.1 hover
  refine ⟨e, ?_⟩
  unfold round advertise
  rw [hfails]
  rfl

/-- One round from a source to a replica: no call fails, the replica keeps what it
has, and it gains a key of the source if it lacks one. -/
theorem round_progress (hC : C.Lawful) (h : Repairable S C b source)
    (hint : IntSized b.unlimited source.lister.keys.length)
    (hover : ¬Overflowing b.unlimited source.lister [])
    (hreplica : IsReplica S source replica) :
    ∃ replica', round S C b source replica = .ok replica' ∧ IsReplica S source replica' ∧
      (∀ key data, replica.data? key = some data → replica'.data? key = some data) ∧
      ((∃ key ∈ source.lister.keys, replica.data? key = none) →
        ∃ key ∈ source.lister.keys, replica.data? key = none ∧
          ∃ data, replica'.data? key = some data) := by
  obtain ⟨frames, hadvertise, hflatten, hframes⟩ := advertise_run hC h.has hint hover
  have hsource : ∀ frame ∈ frames, ∀ key ∈ frame, ∃ data, source.data? key = some data := by
    intro frame hframe key hkey
    apply BlobStore.mem_keys_iff.mp
    apply Lister.mem_sortKeys.mp
    rw [← hflatten]
    exact List.mem_flatten.mpr ⟨frame, hframe, hkey⟩
  have hrequest : ∀ keys ∈ replica.requests frames, ∃ frame ∈ frames,
      keys = replica.lacks frame ∧ keys ≠ [] := by
    intro keys hkeys
    obtain ⟨hmem, hne⟩ := List.mem_filter.mp hkeys
    obtain ⟨frame, hframe, rfl⟩ := List.mem_map.mp hmem
    exact ⟨frame, hframe, rfl, by simpa using hne⟩
  -- the replica answers the advertisement
  have hhas := exchangeWith_ok (receiveAll_has hC hreplica.addressed.matching frames
    (fun frame hframe => (hframes frame hframe).1)
    (fun frame hframe hne => h.replies _ hadvertise (hasPayload frame)
      (List.mem_map_of_mem hframe) _
      (by rw [(hframes frame hframe).2]; exact List.filter_sublist) hne) [])
  -- the source answers the requests
  obtain ⟨sent, hmissing, hsent, hfirst⟩ := receiveAll_missing hC h
    (replica.requests frames)
    (by
      intro keys hkeys key hkey
      obtain ⟨frame, hframe, rfl, _⟩ := hrequest keys hkeys
      exact hsource frame hframe key (List.mem_filter.mp hkey).1)
    (by
      intro keys hkeys
      obtain ⟨frame, hframe, rfl, hne⟩ := hrequest keys hkeys
      obtain ⟨_, hmax, hvalid⟩ := validateKeys_ok.mp (hframes frame hframe).1
      refine validateKeys_ok.mpr ⟨hne, ?_, fun key hkey => hvalid key (List.mem_filter.mp hkey).1⟩
      have := List.length_filter_le (fun key => (replica.data? key).isNone) frame
      unfold BlobStore.lacks
      omega) []
  have hsentSource : ∀ key ∈ sent, ∃ data, source.data? key = some data := by
    intro key hkey
    obtain ⟨keys, hkeys, hmem⟩ := hsent key hkey
    obtain ⟨frame, hframe, rfl, _⟩ := hrequest keys hkeys
    exact hsource frame hframe key (List.mem_filter.mp hmem).1
  -- the replica stores what it receives
  obtain ⟨replica', out', hputs, hreplica', hcontents⟩ :=
    receiveAll_puts hC h sent hsentSource hreplica []
  refine ⟨replica', ?_, hreplica', ?_, ?_⟩
  · rw [List.nil_append, List.map_map] at hhas
    have hanswer := exchangeWith_ok hmissing
    rw [List.nil_append, List.map_map] at hanswer
    unfold round
    rw [hadvertise]
    show (exchangeWith S C b replica (frames.map hasPayload) >>= _ : Except Error BlobStore) = _
    rw [hhas]
    show (exchangeWith S C b source ((replica.requests frames).map (keysPayload .blobMissing)) >>=
      _ : Except Error BlobStore) = _
    rw [hanswer]
    show (exchangeWith S C b replica (sent.map source.putOf) >>= _ : Except Error BlobStore) = _
    rw [exchangeWith_ok hputs]
    rfl
  · intro key data hdata
    rw [hcontents key]
    by_cases hmem : key ∈ sent
    · obtain ⟨sourceData, hsourceData⟩ := hsentSource key hmem
      rw [if_pos hmem, hsourceData, hreplica.agrees key sourceData data hsourceData hdata]
    · rw [if_neg hmem]
      exact hdata
  · intro ⟨key, hkey, hlacks⟩
    -- the key lies in an advertised frame, so that frame leads to a request
    have hmem : key ∈ frames.flatten := by
      rw [hflatten]
      exact Lister.mem_sortKeys.mpr hkey
    obtain ⟨frame, hframe, hin⟩ := List.mem_flatten.mp hmem
    have hlackKey : key ∈ replica.lacks frame := by
      apply List.mem_filter.mpr
      exact ⟨hin, by rw [hlacks]; rfl⟩
    have hrequested : replica.lacks frame ∈ replica.requests frames := by
      apply List.mem_filter.mpr
      refine ⟨List.mem_map_of_mem hframe, ?_⟩
      simp [List.ne_nil_of_mem hlackKey]
    obtain ⟨gained, hgained, hgainedSent⟩ := hfirst _ hrequested
    obtain ⟨hgainedFrame, hgainedLacks⟩ := List.mem_filter.mp hgained
    obtain ⟨data, hdata⟩ := hsentSource gained hgainedSent
    refine ⟨gained, BlobStore.mem_keys_iff.mpr ⟨data, hdata⟩, by simpa using hgainedLacks, data, ?_⟩
    rw [hcontents gained, if_pos hgainedSent, hdata]

/-- The keys of the source that a store lacks become fewer when it gains one and loses
none. -/
theorem lacks_shorter {replica' : BlobStore} {keys : List Bytes}
    (hkeeps : ∀ key data, replica.data? key = some data → replica'.data? key = some data)
    {data : Bytes} (hkey : key ∈ keys) (hlacks : replica.data? key = none)
    (hgained : replica'.data? key = some data) :
    (replica'.lacks keys).length < (replica.lacks keys).length := by
  have hfilter : replica'.lacks keys = (replica.lacks keys).filter fun k =>
      (replica'.data? k).isNone := by
    unfold BlobStore.lacks
    rw [List.filter_filter]
    apply List.filter_congr
    intro k _
    cases hk : replica.data? k with
    | none => simp
    | some d => simp [hkeeps k d hk]
  have hmem : key ∈ replica.lacks keys := List.mem_filter.mpr ⟨hkey, by rw [hlacks]; rfl⟩
  rw [hfilter]
  apply List.length_filter_lt_length_iff_exists.mpr
  exact ⟨key, hmem, by simp [hgained]⟩

/-- Repeated rounds: none fails, nothing is lost, and the lacking keys are used up. -/
theorem rounds_run (hC : C.Lawful) (h : Repairable S C b source)
    (hint : IntSized b.unlimited source.lister.keys.length)
    (hover : ¬Overflowing b.unlimited source.lister []) (n : Nat)
    (hreplica : IsReplica S source replica) :
    ∃ replica', rounds S C b source n replica = .ok replica' ∧ IsReplica S source replica' ∧
      (replica'.lacks source.lister.keys).length ≤
        (replica.lacks source.lister.keys).length - n := by
  induction n generalizing replica with
  | zero => exact ⟨replica, rfl, hreplica, by simp⟩
  | succ n ih =>
    obtain ⟨next, hround, hnext, hkeeps, hgains⟩ := round_progress hC h hint hover hreplica
    obtain ⟨replica', hrounds, hreplica', hlength⟩ := ih hnext
    refine ⟨replica', ?_, hreplica', ?_⟩
    · unfold rounds
      rw [hround]
      exact hrounds
    · by_cases hcomplete : replica.lacks source.lister.keys = []
      · have hnone : next.lacks source.lister.keys = [] := by
          apply List.filter_eq_nil_iff.mpr
          intro key hkey hlacks
          have hheld := List.filter_eq_nil_iff.mp hcomplete key hkey
          cases hdata : replica.data? key with
          | none => simp [hdata] at hheld
          | some data => simp [hkeeps key data hdata] at hlacks
        rw [hnone] at hlength
        simp only [List.length_nil] at hlength
        omega
      · obtain ⟨key, hkey⟩ := List.exists_mem_of_ne_nil _ hcomplete
        obtain ⟨hin, hlacks⟩ := List.mem_filter.mp hkey
        obtain ⟨gained, hgained, hlacked, data, hdata⟩ :=
          hgains ⟨key, hin, by simpa using hlacks⟩
        have := lacks_shorter hkeeps hgained hlacked hdata
        omega

/-- Raw anti-entropy converges.  From every content-addressed replica no round fails,
every round keeps what the replica has and, while the replica lacks a key of the
source, adds one; after as many rounds as the source has keys the replica holds
every key of the source with the source's data.  That is so exactly if no slice of the
advertisement overflows. -/
theorem antiEntropy_converges (hC : C.Lawful) (h : Repairable S C b source)
    (hint : IntSized b.unlimited source.lister.keys.length)
    (replica : BlobStore) (haddressed : ContentAddressed S replica)
    (hinj : Set.InjOn S.sha256 {data | (∃ key, source.data? key = some data) ∨
      ∃ key, replica.data? key = some data}) :
    ((∀ n, ∃ reached next, rounds S C b source n replica = .ok reached ∧
      round S C b source reached = .ok next ∧
      (∀ key data, reached.data? key = some data → next.data? key = some data) ∧
      ((∃ key ∈ source.lister.keys, reached.data? key = none) →
        ∃ key, reached.data? key = none ∧ ∃ data, next.data? key = some data)) ∧
    ∃ reached, rounds S C b source source.lister.keys.length replica = .ok reached ∧
      ∀ key data, source.data? key = some data → reached.data? key = some data) ↔
    ¬Overflowing b.unlimited source.lister [] := by
  have hreplica : IsReplica S source replica := by
    refine ⟨haddressed, ?_⟩
    intro key data existing hdata hexisting
    apply hinj (.inr ⟨key, hexisting⟩) (.inl ⟨key, hdata⟩)
    rw [haddressed key existing hexisting, h.addressed key data hdata]
  constructor
  · intro ⟨hrounds, _⟩ hover
    obtain ⟨reached, next, _, hround, _⟩ := hrounds 0
    obtain ⟨e, hfails⟩ : ∃ e, round S C b source reached = .error e :=
      round_overflowing h.has hint hover
    rw [hround] at hfails
    cases hfails
  intro hover
  constructor
  · intro n
    obtain ⟨reached, hrounds, hreached, _⟩ := rounds_run hC h hint hover n hreplica
    obtain ⟨next, hround, _, hkeeps, hgains⟩ := round_progress hC h hint hover hreached
    refine ⟨reached, next, hrounds, hround, hkeeps, ?_⟩
    intro hlacks
    obtain ⟨key, _, hlacked, hgained⟩ := hgains hlacks
    exact ⟨key, hlacked, hgained⟩
  · obtain ⟨reached, hrounds, hreached, hlength⟩ :=
      rounds_run hC h hint hover source.lister.keys.length hreplica
    refine ⟨reached, hrounds, ?_⟩
    intro key data hdata
    have hfew := List.length_filter_le (fun key => (replica.data? key).isNone) source.lister.keys
    have hnone : reached.lacks source.lister.keys = [] := by
      apply List.eq_nil_of_length_eq_zero
      unfold BlobStore.lacks at hlength ⊢
      omega
    have hheld := List.filter_eq_nil_iff.mp hnone key (BlobStore.mem_keys_iff.mpr ⟨data, hdata⟩)
    cases hexisting : reached.data? key with
    | none => simp [hexisting] at hheld
    | some existing => rw [hreached.agrees key data existing hdata hexisting]

namespace Sample

theorem sha256_ne_nil (data : Bytes) : goStdlib.sha256 data ≠ [] :=
  List.length_pos_iff.mp (by rw [goStdlib_lawful.sha256_length]; decide)

/-- A store that holds each blob under its hash. -/
def blobs : List Bytes → BlobStore
  | [] => emptyStore
  | data :: rest => (blobs rest).insert (goStdlib.sha256 data) data (sha256_ne_nil data)

theorem blobs_data? {contents : List Bytes} {data : Bytes}
    (h : (blobs contents).data? key = some data) :
    data ∈ contents ∧ goStdlib.sha256 data = key := by
  induction contents with
  | nil => simp [blobs] at h
  | cons d rest ih =>
    by_cases heq : key = goStdlib.sha256 d
    · subst heq
      rw [blobs, BlobStore.data?_insert_self] at h
      cases h
      exact ⟨List.mem_cons_self, rfl⟩
    · rw [blobs, BlobStore.data?_insert_ne _ heq] at h
      exact ⟨List.mem_cons_of_mem _ (ih h).1, (ih h).2⟩

/-- What is left to check of a source that holds its blobs under their hashes. -/
theorem blobs_repairable {b : Bounds} {contents : List Bytes}
    (hhas : ∀ data ∈ contents,
      validateKeys [goStdlib.sha256 data] (normalizeLimits b.limits) = .ok () ∧
        (hasLength [goStdlib.sha256 data] : Int) ≤ b.maxPayload)
    (hreplies : ∀ sent ∈ (advertise b (blobs contents)).toOption, ∀ payload ∈ sent,
      ((keysPayload .blobMissing (advertisedKeys goCodec b.limits payload)).length : Int) ≤
        b.maxPayload)
    (hputs : ∀ data ∈ contents,
      validateBlobPut ⟨.blobPut, goStdlib.sha256 data, [], data⟩ (normalizeLimits b.limits) =
        .ok () ∧
        ((marshal ⟨.blobPut, goStdlib.sha256 data, [], data⟩).length : Int) ≤ b.maxPayload) :
    Repairable goStdlib goCodec b (blobs contents) where
  addressed key data h := (blobs_data? h).2
  has := by
    intro key hkey
    obtain ⟨data, hdata⟩ := BlobStore.mem_keys_iff.mp hkey
    obtain ⟨hmem, rfl⟩ := blobs_data? hdata
    obtain ⟨hvalid, hfits⟩ := hhas data hmem
    exact ⟨_, encodeKeyListMessage_ok.mpr ⟨hvalid, rfl⟩, hfits⟩
  replies := by
    intro sent hsent payload hpayload reply hreply hne
    have hfits := hreplies sent (by rw [hsent]; rfl) payload hpayload
    have hwidth := keysWidth_mono hreply
    have hsome : advertisedKeys goCodec b.limits payload ≠ [] := by
      intro hnil
      rw [hnil] at hreply
      exact hne (List.sublist_nil.mp hreply)
    rw [length_keysPayload _ hsome] at hfits
    rw [length_keysPayload _ hne]
    omega
  puts := by
    intro key data hdata
    obtain ⟨hmem, rfl⟩ := blobs_data? hdata
    obtain ⟨hvalid, hfits⟩ := hputs data hmem
    exact ⟨_, encodeBlobPut_ok.mpr ⟨hvalid, rfl⟩, hfits⟩

/-- No two of the blobs have the same hash. -/
theorem blobs_injOn {contents more : List Bytes}
    (h : ∀ d ∈ contents ++ more, ∀ d' ∈ contents ++ more,
      goStdlib.sha256 d = goStdlib.sha256 d' → d = d') :
    Set.InjOn goStdlib.sha256 {data | (∃ key, (blobs contents).data? key = some data) ∨
      ∃ key, (blobs more).data? key = some data} := by
  have hmem : ∀ d, ((∃ key, (blobs contents).data? key = some d) ∨
      ∃ key, (blobs more).data? key = some d) → d ∈ contents ++ more := by
    rintro d (⟨key, hd⟩ | ⟨key, hd⟩)
    · exact List.mem_append_left _ (blobs_data? hd).1
    · exact List.mem_append_right _ (blobs_data? hd).1
  intro d hd d' hd'
  exact h d (hmem d hd) d' (hmem d' hd')

/-- Batches of the largest `int`, and room for one key in a frame. -/
def widest : Bounds := ⟨⟨0, maxInt64, 0, 0⟩, 100⟩

end Sample

/-- The replica lacks two of three blobs, and the first round brings one of them. -/
theorem antiEntropy_converges_sample :
    (round goStdlib goCodec Sample.tight (Sample.blobs [[1], [2], [3]])
        (Sample.blobs [[3]])).toOption.map (fun replica => replica.lister.keys.length) = some 2 ∧
      ∃ reached, rounds goStdlib goCodec Sample.tight (Sample.blobs [[1], [2], [3]])
          (Sample.blobs [[1], [2], [3]]).lister.keys.length (Sample.blobs [[3]]) = .ok reached ∧
        ∀ key data, (Sample.blobs [[1], [2], [3]]).data? key = some data →
          reached.data? key = some data := by
  have hrepairable : Repairable goStdlib goCodec Sample.tight (Sample.blobs [[1], [2], [3]]) :=
    Sample.blobs_repairable (by decide +kernel) (by decide +kernel) (by decide +kernel)
  refine ⟨by decide +kernel, ((antiEntropy_converges goCodec_lawful hrepairable ?_
    (Sample.blobs [[3]]) (fun _ _ hd => (Sample.blobs_data? hd).2)
    (Sample.blobs_injOn (by decide +kernel))).mpr (not_overflowing ?_ [])).2⟩
  · exact ⟨by decide +kernel, by decide +kernel⟩
  · decide +kernel

/-- The advertisement of two blobs in two frames panics, so no round succeeds. -/
theorem antiEntropy_panics :
    Repairable goStdlib goCodec Sample.widest (Sample.blobs [[1], [2]]) ∧
      IntSized Sample.widest.unlimited (Sample.blobs [[1], [2]]).lister.keys.length ∧
      ContentAddressed goStdlib (Sample.blobs []) ∧
      Set.InjOn goStdlib.sha256 {data | (∃ key, (Sample.blobs [[1], [2]]).data? key = some data) ∨
        ∃ key, (Sample.blobs []).data? key = some data} ∧
      ∀ n, rounds goStdlib goCodec Sample.widest (Sample.blobs [[1], [2]]) (n + 1)
        (Sample.blobs []) = .error .panic := by
  have hpanics : advertise Sample.widest (Sample.blobs [[1], [2]]) = .error .panic := by
    decide +kernel
  refine ⟨Sample.blobs_repairable (by decide +kernel) (by decide +kernel) (by decide +kernel),
    ⟨by decide +kernel, by decide +kernel⟩, fun _ _ hd => (Sample.blobs_data? hd).2,
    Sample.blobs_injOn (by decide +kernel), ?_⟩
  intro n
  unfold rounds round
  rw [hpanics]
  rfl

end StreamHive.Replication

import StreamHive.Replication.AntiEntropy
import StreamHive.Verified.Budget
import StreamHive.Verified.Threads

/-!
# Answering a request for blobs

A peer asks for a list of keys.  Keys that are missing, corrupt or not encodable are
skipped, and in repair mode the list is cut where the byte budget is used up; what is
behind the cut is returned for a later round.  The store may fail to read any blob.

## Main results

* `sendRequestedBlobs_live` — with a live context the keys are worked through within
  the budget, up to the first frame that is too large for the connection;
* `unsendable_blob_skipped` — no key blocks another exactly if no such frame is reached;
* `repair_budget_partition` — the budget, and the rounds until nothing is left;
* `repair_io_bounded`, `repair_io_rests` — the slots that the repairs of all peers share.
-/

namespace StreamHive.Replication

open Verified ByteString Effect Budget Threads
open StreamHive.Lifecycle (Error Oracle Faults Stdlib Call orDefault orDefault_pos ctxErr ctxCheck
  sha256Size verifySHA256Key ctxCheck_ok goStdlib)

/-! ## One key -/

/-- The context is live and frames are written; reading a blob may fail. -/
structure Live (F : Faults) : Prop where
  send : ∀ i call, F (.send i) call = .proceed
  context : ∀ i n, F (.blob i) (.ctxErr n) = .proceed
  process : ∀ i n, F (.blob i) .blobGet ≠ .crash n

/-- A requested key, with the verdicts on the calls that read its blob. -/
structure Visit where
  key : Bytes
  reads : Oracle

variable {v : Visit}

/-- The keys of a request, each with the calls that are made for it. -/
def visits (F : Faults) : Nat → List Bytes → List Visit
  | _, [] => []
  | i, key :: rest => ⟨key, F (.blob i)⟩ :: visits F (i + 1) rest

namespace Visit

/-- The data of a blob that is present and passes verification. -/
def data? (S : Stdlib) (store : BlobStore) (v : Visit) : Option Bytes :=
  match store.get S v.reads v.key with
  | .error _ => none
  | .ok data => if (verifyContentKeyIfSHA256 S v.key data).isOk then some data else none

/-- The message for a blob that is present, verified and within the data limit. -/
def put? (S : Stdlib) (b : Bounds) (store : BlobStore) (v : Visit) : Option Bytes :=
  (v.data? S store).bind fun data => (encodeBlobPut v.key data b.limits).toOption

/-- The message is within the frame bound. -/
def Fits (S : Stdlib) (b : Bounds) (store : BlobStore) (v : Visit) : Prop :=
  ∀ payload ∈ v.put? S b store, (payload.length : Int) ≤ b.maxPayload

/-- The data bytes that are sent. -/
def sentBytes (S : Stdlib) (b : Bounds) (store : BlobStore) (v : Visit) : Nat :=
  if (v.put? S b store).isSome then ((v.data? S store).getD []).length else 0

end Visit

/-- In repair mode a blob asks for its data bytes, and costs them if it is sent. -/
def tariff (S : Stdlib) (b : Bounds) (store : BlobStore) (repair : Bool) : Tariff Visit where
  demand v := if repair then (v.data? S store).map List.length else none
  cost v := if repair then v.sentBytes S b store else 0
  cost_eq v := by
    intro hpos
    cases repair with
    | false => exact absurd hpos (Nat.lt_irrefl 0)
    | true =>
      simp only [if_true] at hpos ⊢
      unfold Visit.sentBytes at hpos ⊢
      cases hdata : v.data? S store with
      | none =>
        rw [hdata] at hpos
        simp at hpos
      | some data =>
        rw [hdata] at hpos
        split at hpos
        · next hput => simp [hput]
        · exact absurd hpos (Nat.lt_irrefl 0)

section OneKey

variable {S : Stdlib} {F : Faults} {b : Bounds} {repair : Bool} {store : BlobStore}

theorem Live.send_none (hF : Live F) (i : Nat) : F (.send i) = Oracle.none :=
  funext (hF.send i)

/-- A blob that cannot be read is neither a crash nor a canceled context. -/
theorem BlobStore.get_error {o : Oracle} (hctx : ∀ n, o (.ctxErr n) = .proceed)
    (hcrash : ∀ n, o .blobGet ≠ .crash n) {key : Bytes} {e : Error}
    (h : store.get S o key = .error e) : e ≠ .crash ∧ e.is .canceled = false := by
  rcases store.get_cases S o key with ⟨hlive, _⟩ | ⟨_, hget⟩ | ⟨_, hget⟩ | ⟨⟨n, hverdict⟩, _⟩ |
    ⟨_, hget⟩ | ⟨data, _, hget | ⟨_, _, hget⟩⟩
  · exact absurd (hctx 0) hlive
  rotate_left 2
  · exact absurd hverdict (hcrash n)
  all_goals rw [hget] at h
  all_goals cases h
  all_goals decide

/-- A read that succeeds returns what a read without failures returns. -/
theorem BlobStore.get_none_of_ok {o : Oracle} {key data : Bytes}
    (h : store.get S o key = .ok data) : store.get S Oracle.none key = .ok data := by
  unfold BlobStore.get at h ⊢
  obtain ⟨_, _, h⟩ := except_bind_ok.mp h
  refine except_bind_ok.mpr ⟨(), rfl, ?_⟩
  obtain ⟨hkey, h⟩ := except_guard_ok.mp h
  refine except_guard_ok.mpr ⟨hkey, ?_⟩
  obtain ⟨found, hread, h⟩ := except_bind_ok.mp h
  refine except_bind_ok.mpr ⟨found, ?_, h⟩
  unfold BlobStore.read at hread
  cases ho : o .blobGet <;> rw [ho] at hread <;> cases hread
  rfl

/-- The message for a key does not depend on how its blob was read. -/
theorem Visit.Fits.of_none {key : Bytes} (h : Visit.Fits S b store ⟨key, Oracle.none⟩)
    (reads : Oracle) : Visit.Fits S b store ⟨key, reads⟩ := by
  intro payload hpayload
  refine h payload ?_
  unfold Visit.put? Visit.data? at hpayload ⊢
  cases hget : store.get S reads key with
  | error e =>
    rw [hget] at hpayload
    cases hpayload
  | ok data =>
    rw [hget] at hpayload
    rw [BlobStore.get_none_of_ok hget]
    exact hpayload

/-- What one requested key comes to: deferred, skipped, sent, or too large a frame. -/
def answer (S : Stdlib) (b : Bounds) (repair : Bool) (repairBytes : Nat) (v : Visit)
    (s : Endpoint) : EStateM.Result Error Endpoint SendOutcome :=
  if (tariff S b s.store repair).Exceeds (repairBudget b.limits) repairBytes v then
    .ok .deferred s
  else
    match v.put? S b s.store with
    | none => .ok .skipped s
    | some payload =>
      if (payload.length : Int) ≤ b.maxPayload then
        .ok (.sent (v.sentBytes S b s.store)) (s.wrote payload)
      else .error .frameTooLarge s

theorem exceeds_iff {repairBytes : Nat} {data : Bytes} (h : v.data? S store = some data) :
    (tariff S b store repair).Exceeds (repairBudget b.limits) repairBytes v ↔
      repair = true ∧ 0 < repairBytes ∧
        ((repairBytes + data.length : Nat) : Int) > repairBudget b.limits := by
  unfold Tariff.Exceeds tariff
  cases repair with
  | false => simp
  | true => simp [h]

theorem answer_of_none {repairBytes : Nat} {s : Endpoint} (h : v.data? S s.store = none) :
    answer S b repair repairBytes v s = .ok .skipped s := by
  have hexceeds : ¬(tariff S b s.store repair).Exceeds (repairBudget b.limits) repairBytes v := by
    rintro ⟨_, n, hdemand, _⟩
    unfold tariff at hdemand
    cases repair <;> simp [h] at hdemand
  have hput : v.put? S b s.store = none := by
    unfold Visit.put?
    rw [h]
    rfl
  unfold answer
  rw [if_neg hexceeds, hput]

/-- What one requested key comes to while the context is live. -/
theorem sendRequestedBlob_live (hF : Live F) (i : Nat) (key : Bytes) (repairBytes : Nat)
    (s : Endpoint) :
    sendRequestedBlob S F b repair i key repairBytes s =
      answer S b repair repairBytes ⟨key, F (.blob i)⟩ s := by
  have hsend := hF.send_none i
  have hslot : acquireSlot (F (.send i)) repair s = .ok () s := by
    rw [hsend]
    cases repair <;> rfl
  unfold sendRequestedBlob
  rw [run_bind_ok hslot, run_bind_get, hsend]
  cases hget : s.store.get S (F (.blob i)) key with
  | error e =>
    obtain ⟨hcrash, hcanceled⟩ := BlobStore.get_error (hF.context i) (hF.process i) hget
    rw [answer_of_none (by unfold Visit.data?; rw [hget])]
    dsimp only
    rw [if_neg hcrash]
    split
    · rfl
    split
    · rfl
    · rw [run_bind_ok (show ctxErr Oracle.none 2 s = .ok () s from rfl), hcanceled]
      rfl
  | ok data =>
    dsimp only
    rw [run_bind_ok (show ctxErr Oracle.none 3 s = .ok () s from rfl)]
    cases hverify : verifyContentKeyIfSHA256 S key data with
    | error e =>
      have hnone : (⟨key, F (.blob i)⟩ : Visit).data? S s.store = none := by
        unfold Visit.data?
        rw [hget]
        simp [hverify, Except.isOk, Except.toBool]
      rw [answer_of_none hnone]
      rfl
    | ok u =>
      have hdata : (⟨key, F (.blob i)⟩ : Visit).data? S s.store = some data := by
        unfold Visit.data?
        rw [hget]
        simp [hverify, Except.isOk, Except.toBool]
      unfold answer
      by_cases hexceeds : (tariff S b s.store repair).Exceeds (repairBudget b.limits)
          repairBytes ⟨key, F (.blob i)⟩
      · rw [if_pos hexceeds]
        dsimp only
        rw [if_pos ((exceeds_iff hdata).mp hexceeds)]
        rfl
      · rw [if_neg hexceeds]
        dsimp only
        rw [if_neg fun h => hexceeds ((exceeds_iff hdata).mpr h)]
        cases hencode : encodeBlobPut key data b.limits with
        | error e =>
          have hput : (⟨key, F (.blob i)⟩ : Visit).put? S b s.store = none := by
            unfold Visit.put?
            rw [hdata]
            simp [hencode, Except.toOption]
          rw [hput]
          rfl
        | ok payload =>
          have hput : (⟨key, F (.blob i)⟩ : Visit).put? S b s.store = some payload := by
            unfold Visit.put?
            rw [hdata]
            simp [hencode, Except.toOption]
          have hbytes : (⟨key, F (.blob i)⟩ : Visit).sentBytes S b s.store = data.length := by
            unfold Visit.sentBytes
            rw [hput, hdata]
            rfl
          rw [hput, hbytes]
          dsimp only
          rw [run_bind_ok (show ctxErr Oracle.none 4 s = .ok () s from rfl)]
          by_cases hfits : (payload.length : Int) ≤ b.maxPayload
          · rw [if_pos hfits]
            exact run_bind_ok (writeFrameTo_run hfits s)
          · rw [if_neg hfits]
            exact run_bind_error (run_bind_error (run_raiseIf_error (not_le.mp hfits)))

end OneKey

/-! ## The whole request -/

section Request

variable {S : Stdlib} {F : Faults} {b : Bounds} {repair : Bool} {store : BlobStore}

/-- The frames that are written for keys that are worked through. -/
def emitted (S : Stdlib) (b : Bounds) (store : BlobStore) (vs : List Visit) : List Emission :=
  vs.filterMap fun v => (v.put? S b store).map fun payload => ⟨payload, store⟩

/-- The keys of a request that are worked through. -/
def taken (S : Stdlib) (b : Bounds) (store : BlobStore) (repair : Bool) (spent : Nat)
    (vs : List Visit) : List Visit :=
  (tariff S b store repair).admitted (repairBudget b.limits) spent vs

theorem visits_keys (F : Faults) (i : Nat) (keys : List Bytes) :
    (visits F i keys).map Visit.key = keys := by
  induction keys generalizing i with
  | nil => rfl
  | cons key rest ih => rw [visits, List.map_cons, ih]

/-- Without a repair budget nothing is counted. -/
theorem exceeds_congr {repairBytes spent : Nat} (h : repair = true → repairBytes = spent)
    (v : Visit) :
    (tariff S b store repair).Exceeds (repairBudget b.limits) repairBytes v ↔
      (tariff S b store repair).Exceeds (repairBudget b.limits) spent v := by
  cases hrepair : repair with
  | true => rw [h hrepair]
  | false => simp [Tariff.Exceeds, tariff]

theorem sentBytes_of_none (h : v.put? S b store = none) : v.sentBytes S b store = 0 := by
  unfold Visit.sentBytes
  rw [h]
  rfl

/-- While the context is live the keys are worked through within the budget.  If all
their frames fit the connection, what is behind them is returned; otherwise the call
fails at the first that does not. -/
theorem sendRequestedBlobs_live (hF : Live F) (keys : List Bytes) (i repairBytes spent : Nat)
    (hspent : repair = true → repairBytes = spent) (s : Endpoint) :
    ((∀ v ∈ taken S b s.store repair spent (visits F i keys), v.Fits S b s.store) →
      sendRequestedBlobsResult S F b repair i keys repairBytes s =
        .ok (keys.drop (taken S b s.store repair spent (visits F i keys)).length)
          { s with outbox := s.outbox ++
            emitted S b s.store (taken S b s.store repair spent (visits F i keys)) }) ∧
    ((¬∀ v ∈ taken S b s.store repair spent (visits F i keys), v.Fits S b s.store) →
      ∃ s', sendRequestedBlobsResult S F b repair i keys repairBytes s =
        .error .frameTooLarge s') := by
  induction keys generalizing i repairBytes spent s with
  | nil =>
    refine ⟨fun _ => ?_, fun h => absurd (by simp [taken, visits, Tariff.admitted]) h⟩
    simp [taken, visits, Tariff.admitted, emitted, sendRequestedBlobsResult, pure, EStateM.pure]
  | cons key rest ih =>
    have hstep : sendRequestedBlob S F b repair i key repairBytes s =
        answer S b repair repairBytes ⟨key, F (.blob i)⟩ s :=
      sendRequestedBlob_live hF i key repairBytes s
    have hexceeds : (tariff S b s.store repair).Exceeds (repairBudget b.limits) repairBytes
        ⟨key, F (.blob i)⟩ ↔ (tariff S b s.store repair).Exceeds (repairBudget b.limits) spent
        ⟨key, F (.blob i)⟩ := exceeds_congr hspent _
    rw [sendRequestedBlobsResult, hF.send_none i,
      run_bind_ok (show ctxErr Oracle.none 0 s = .ok () s from rfl)]
    unfold answer at hstep
    unfold taken
    rw [visits]
    by_cases hover : (tariff S b s.store repair).Exceeds (repairBudget b.limits) spent
        ⟨key, F (.blob i)⟩
    · -- the budget is used up here
      rw [if_pos (hexceeds.mpr hover)] at hstep
      rw [Tariff.admitted_cons_of_exceeds hover, run_bind_ok hstep]
      refine ⟨fun _ => ?_, fun h => absurd (by simp) h⟩
      simp [emitted, pure, EStateM.pure]
    rw [if_neg fun h => hover (hexceeds.mp h)] at hstep
    rw [Tariff.admitted_cons hover]
    change ((∀ v ∈ _ :: taken S b s.store repair _ (visits F (i + 1) rest), _) → _) ∧ _
    rw [List.forall_mem_cons]
    cases hput : (⟨key, F (.blob i)⟩ : Visit).put? S b s.store with
    | none =>
      -- nothing to send for this key
      rw [hput] at hstep
      have hcost : (tariff S b s.store repair).cost ⟨key, F (.blob i)⟩ = 0 := by
        unfold tariff
        dsimp only
        rw [sentBytes_of_none hput]
        split <;> rfl
      have hfits : (⟨key, F (.blob i)⟩ : Visit).Fits S b s.store := by
        intro payload hpayload
        rw [hput] at hpayload
        cases hpayload
      have hemitted : ∀ vs, emitted S b s.store (⟨key, F (.blob i)⟩ :: vs) =
          emitted S b s.store vs := by
        intro vs
        unfold emitted
        rw [List.filterMap_cons_none (by rw [hput]; rfl)]
      rw [run_bind_ok hstep, hcost, hemitted, List.length_cons, List.drop_succ_cons]
      obtain ⟨hok, herror⟩ := ih (i + 1) repairBytes (spent + 0) hspent s
      exact ⟨fun h => hok h.2, fun h => herror fun hall =>
        h (List.forall_mem_cons.mpr ⟨hfits, hall⟩)⟩
    | some payload =>
      rw [hput] at hstep
      have hfits_iff : (⟨key, F (.blob i)⟩ : Visit).Fits S b s.store ↔
          (payload.length : Int) ≤ b.maxPayload := by
        unfold Visit.Fits
        rw [hput]
        simp
      by_cases hfits : (payload.length : Int) ≤ b.maxPayload
      swap
      · -- the frame is refused, and the call with it
        dsimp only at hstep
        rw [if_neg hfits] at hstep
        refine ⟨fun h => absurd (hfits_iff.mp h.1) hfits, fun _ => ?_⟩
        exact ⟨s, run_bind_error hstep⟩
      dsimp only at hstep
      rw [if_pos hfits] at hstep
      have hemitted : ∀ vs, emitted S b s.store (⟨key, F (.blob i)⟩ :: vs) =
          ⟨payload, s.store⟩ :: emitted S b s.store vs := by
        intro vs
        unfold emitted
        rw [List.filterMap_cons_some (by rw [hput]; rfl)]
      have hcount : repair = true →
          (if repair then repairBytes + (⟨key, F (.blob i)⟩ : Visit).sentBytes S b s.store
            else repairBytes) =
          spent + (tariff S b s.store repair).cost ⟨key, F (.blob i)⟩ := by
        intro hrepair
        unfold tariff
        dsimp only
        rw [if_pos hrepair, if_pos hrepair, hspent hrepair]
      obtain ⟨hok, herror⟩ := ih (i + 1) _ _ hcount (s.wrote payload)
      rw [run_bind_ok hstep, hemitted, List.length_cons, List.drop_succ_cons]
      refine ⟨fun h => (hok h.2).trans ?_, fun h => herror fun hall =>
        h (List.forall_mem_cons.mpr ⟨hfits_iff.mpr hfits, hall⟩)⟩
      unfold Endpoint.wrote
      rw [List.append_assoc]
      rfl

theorem repairBudget_nonneg (limits : Limits) : 0 ≤ repairBudget limits := by
  unfold repairBudget defaultMaxRepairBytes
  split <;> omega

/-- A message is written for every key that is worked through and has one. -/
theorem mem_emitted {vs : List Visit} (hv : v ∈ vs) {payload : Bytes}
    (h : v.put? S b store = some payload) : ⟨payload, store⟩ ∈ emitted S b store vs := by
  unfold emitted
  rw [List.mem_filterMap]
  exact ⟨v, hv, by rw [h]; rfl⟩

/-- The keys that are returned are those that are not worked through. -/
theorem taken_append_left (spent i : Nat) (keys : List Bytes) :
    (taken S b store repair spent (visits F i keys)).map Visit.key ++
      keys.drop (taken S b store repair spent (visits F i keys)).length = keys := by
  obtain ⟨left, hsplit⟩ : taken S b store repair spent (visits F i keys) <+: visits F i keys :=
    Tariff.admitted_prefix spent _
  have hkeys := visits_keys F i keys
  rw [← hsplit, List.map_append] at hkeys
  generalize taken S b store repair spent (visits F i keys) = front at hkeys ⊢
  subst hkeys
  rw [List.drop_left' (List.length_map ..)]

/-- A requested key is worked through or left behind. -/
theorem mem_taken_or_left {spent : Nat} {i : Nat} {keys : List Bytes} (hv : v ∈ visits F i keys) :
    v ∈ taken S b store repair spent (visits F i keys) ∨
      v.key ∈ keys.drop (taken S b store repair spent (visits F i keys)).length := by
  obtain ⟨left, hsplit⟩ : taken S b store repair spent (visits F i keys) <+: visits F i keys :=
    Tariff.admitted_prefix spent _
  have hleft : keys.drop (taken S b store repair spent (visits F i keys)).length =
      left.map Visit.key := by
    have hkeys : (taken S b store repair spent (visits F i keys)).map Visit.key ++
        keys.drop (taken S b store repair spent (visits F i keys)).length =
        (taken S b store repair spent (visits F i keys)).map Visit.key ++ left.map Visit.key := by
      rw [taken_append_left, ← List.map_append, hsplit, visits_keys]
    exact List.append_cancel_left hkeys
  rw [hleft]
  rw [← hsplit] at hv
  rcases List.mem_append.mp hv with hv | hv
  · exact .inl hv
  · exact .inr (List.mem_map_of_mem hv)

/-- One blob that cannot be sent does not block the others, as long as its frame is not
the reason.  While the context is live the call succeeds, with every blob that can be
sent either sent or left for later, exactly if no frame above the bound is reached: in
repair mode such a blob may only be requested at or behind a key at which the budget is
used up, and otherwise not at all. -/
theorem unsendable_blob_skipped (hF : Live F) (b : Bounds) (repair : Bool) (keys : List Bytes)
    (store : BlobStore) (out : List Emission) :
    (∃ deferred sent,
      sendRequestedBlobsResult S F b repair 0 keys 0 ⟨store, out⟩ =
        .ok deferred ⟨store, out ++ sent⟩ ∧ deferred <:+ keys ∧
      ∀ v ∈ visits F 0 keys, ∀ payload, v.put? S b store = some payload →
        (payload.length : Int) ≤ b.maxPayload → ⟨payload, store⟩ ∈ sent ∨ v.key ∈ deferred) ↔
    ∀ pre v post, visits F 0 keys = pre ++ v :: post → ¬v.Fits S b store →
      (tariff S b store repair).Ends (repairBudget b.limits) 0 (pre ++ [v]) := by
  rw [← Tariff.forall_admitted_iff]
  change _ ↔ ∀ v ∈ taken S b store repair 0 (visits F 0 keys), v.Fits S b store
  obtain ⟨hok, herror⟩ := sendRequestedBlobs_live (S := S) (b := b) hF keys 0 0 0
    (fun _ : repair = true => rfl) ⟨store, out⟩
  constructor
  · rintro ⟨deferred, sent, hrun, _⟩
    by_contra hlarge
    obtain ⟨s', hfails⟩ := herror hlarge
    rw [hrun] at hfails
    cases hfails
  · intro hfits
    refine ⟨_, _, hok hfits, List.drop_suffix _ _, ?_⟩
    intro v hv payload hput _
    rcases mem_taken_or_left hv with htaken | hleft
    · exact .inl (mem_emitted htaken hput)
    · exact .inr hleft

end Request

namespace Sample

/-- A blob whose message is large, and behind it one that is not. -/
def largeFirst : BlobStore :=
  (emptyStore.insert [1] (List.replicate 24 0) (by decide)).insert [2] [7] (by decide)

/-- Frames of at most fifty bytes; data of any size within the default. -/
def narrowFrames : Bounds := ⟨⟨0, 0, 0, 0⟩, 50⟩

theorem live_none : Live Faults.none where
  send _ _ := rfl
  context _ _ := rfl
  process _ _ := by simp [Faults.none, Oracle.none]

/-- Whether every message of a request is within the frame bound. -/
theorem fits_largeFirst {b : Bounds} {vs : List Visit}
    (h : (vs.all fun v => ((v.put? goStdlib b largeFirst).all fun payload =>
      decide ((payload.length : Int) ≤ b.maxPayload))) = true) :
    ∀ v ∈ vs, v.Fits goStdlib b largeFirst := by
  intro v hv payload hpayload
  have hall := List.all_eq_true.mp h v hv
  rw [Option.mem_def.mp hpayload] at hall
  simpa using hall

end Sample

/-- The message for the first key is above the frame bound.  The call fails without
writing anything, and the second key is neither sent nor returned. -/
theorem large_frame_blocks_request :
    Live Faults.none ∧
      (∃ payload, (⟨[2], Oracle.none⟩ : Visit).put? goStdlib Sample.narrowFrames Sample.largeFirst =
        some payload ∧ (payload.length : Int) ≤ Sample.narrowFrames.maxPayload) ∧
      sendRequestedBlobsResult goStdlib Faults.none Sample.narrowFrames true 0 [[1], [2]] 0
        ⟨Sample.largeFirst, []⟩ = .error .frameTooLarge ⟨Sample.largeFirst, []⟩ := by
  refine ⟨Sample.live_none, ⟨marshal ⟨.blobPut, [2], [], [7]⟩, ?_, ?_⟩, ?_⟩
  · decide +kernel
  · decide +kernel
  · rfl

/-- Within the default bounds no frame of these blobs is too large. -/
theorem unsendable_blob_skipped_sample :
    ∃ deferred sent,
      sendRequestedBlobsResult goStdlib Faults.none Sample.bounds false 0 [[1], [3], [2]] 0
        ⟨Sample.largeFirst, []⟩ = .ok deferred ⟨Sample.largeFirst, [] ++ sent⟩ ∧
      deferred <:+ [[1], [3], [2]] ∧
      ∀ v ∈ visits Faults.none 0 [[1], [3], [2]], ∀ payload,
        v.put? goStdlib Sample.bounds Sample.largeFirst = some payload →
        (payload.length : Int) ≤ Sample.bounds.maxPayload →
          ⟨payload, Sample.largeFirst⟩ ∈ sent ∨ v.key ∈ deferred := by
  refine (unsendable_blob_skipped Sample.live_none Sample.bounds false [[1], [3], [2]]
    Sample.largeFirst []).mpr fun pre v post hsplit hlarge => absurd ?_ hlarge
  have hv : v ∈ visits Faults.none 0 [[1], [3], [2]] := by
    rw [hsplit]
    simp
  exact Sample.fits_largeFirst (by decide +kernel) v hv

/-! ## Rounds of a repair -/

/-- Ask again for the keys that a round leaves behind, until there are none. -/
def repairUntilEmpty (S : Stdlib) (Fs : Nat → Faults) (b : Bounds) :
    Nat → Nat → List Bytes → EStateM Error Endpoint (List Bytes)
  | _, _, [] => pure []
  | 0, _, keys => pure keys
  | fuel + 1, round, keys => do
    let deferred ← sendRequestedBlobsResult S (Fs round) b true 0 keys 0
    repairUntilEmpty S Fs b fuel (round + 1) deferred

section Rounds

variable {S : Stdlib} {F : Faults} {Fs : Nat → Faults} {b : Bounds} {store : BlobStore}

theorem visits_reads {i : Nat} {keys : List Bytes} (hv : v ∈ visits F i keys) :
    ∃ j, v.reads = F (.blob j) := by
  induction keys generalizing i with
  | nil => cases hv
  | cons key rest ih =>
    rcases List.mem_cons.mp hv with rfl | hv
    · exact ⟨i, rfl⟩
    · exact ih hv

theorem emitted_append (front back : List Visit) :
    emitted S b store (front ++ back) = emitted S b store front ++ emitted S b store back :=
  List.filterMap_append

/-- One round, if every frame is within the bound of the connection. -/
theorem repair_round (hF : Live F) {keys : List Bytes}
    (hfits : ∀ key ∈ keys, Visit.Fits S b store ⟨key, Oracle.none⟩) (out : List Emission) :
    sendRequestedBlobsResult S F b true 0 keys 0 ⟨store, out⟩ =
      .ok (keys.drop (taken S b store true 0 (visits F 0 keys)).length)
        ⟨store, out ++ emitted S b store (taken S b store true 0 (visits F 0 keys))⟩ := by
  refine (sendRequestedBlobs_live (S := S) (b := b) hF keys 0 0 0 (fun _ => rfl) ⟨store, out⟩).1 ?_
  intro v hv
  have hmem : v ∈ visits F 0 keys := (Tariff.admitted_prefix 0 _).subset hv
  have hkey : v.key ∈ keys := by
    rw [← visits_keys F 0 keys]
    exact List.mem_map_of_mem hmem
  exact (hfits v.key hkey).of_none v.reads

/-- Every round works through at least one key, so as many rounds as there are keys are
enough. -/
theorem repairUntilEmpty_run (hF : ∀ round, Live (Fs round)) (fuel round : Nat)
    (keys : List Bytes) (hfuel : keys.length ≤ fuel)
    (hfits : ∀ key ∈ keys, Visit.Fits S b store ⟨key, Oracle.none⟩) :
    ∃ visited : List Visit, visited.map Visit.key = keys ∧
      (∀ v ∈ visited, ∃ n i, v.reads = Fs n (.blob i)) ∧
      ∀ out, repairUntilEmpty S Fs b fuel round keys ⟨store, out⟩ =
        .ok [] ⟨store, out ++ emitted S b store visited⟩ := by
  induction fuel generalizing round keys with
  | zero =>
    obtain rfl : keys = [] := List.length_eq_zero_iff.mp (Nat.le_zero.mp hfuel)
    refine ⟨[], rfl, by simp, fun out => ?_⟩
    simp [repairUntilEmpty, emitted, pure, EStateM.pure]
  | succ fuel ih =>
    cases keys with
    | nil =>
      refine ⟨[], rfl, by simp, fun out => ?_⟩
      simp [repairUntilEmpty, emitted, pure, EStateM.pure]
    | cons key rest =>
      let front := taken S b store true 0 (visits (Fs round) 0 (key :: rest))
      let deferred := (key :: rest).drop front.length
      have hparts : front.map Visit.key ++ deferred = key :: rest := taken_append_left ..
      have hprogress : front ≠ [] := Tariff.admitted_ne_nil (List.cons_ne_nil _ _)
      have hshorter : deferred.length ≤ fuel := by
        have hlength := congrArg List.length hparts
        have hpos := List.length_pos_iff.mpr hprogress
        rw [List.length_append, List.length_map] at hlength
        omega
      have hleft : ∀ k ∈ deferred, Visit.Fits S b store ⟨k, Oracle.none⟩ :=
        fun k hk => hfits k (List.mem_of_mem_drop hk)
      obtain ⟨visited, hkeys, hreads, hrun⟩ := ih (round + 1) deferred hshorter hleft
      refine ⟨front ++ visited, ?_, ?_, fun out => ?_⟩
      · rw [List.map_append, hkeys, hparts]
      · intro v hv
        rcases List.mem_append.mp hv with hv | hv
        · exact ⟨round, visits_reads ((Tariff.admitted_prefix 0 _).subset hv)⟩
        · exact hreads v hv
      · rw [repairUntilEmpty, run_bind_ok (repair_round (hF round) hfits out), hrun,
          emitted_append, List.append_assoc]
        exact List.cons_ne_nil key rest

/-- While the context is live and every frame is within the bound, a repair round splits
the requested keys into those it works through and those it returns.  It sends what can
be sent of the first, in order, and stays within the byte budget unless one blob that is
larger than the budget is all that it sends; it returns keys only if it sent some data.
Asking again for what is returned ends with every key worked through once. -/
theorem repair_budget_partition (hF : ∀ round, Live (Fs round)) (b : Bounds) (keys : List Bytes)
    (store : BlobStore) (out : List Emission)
    (hfits : ∀ key ∈ keys, Visit.Fits S b store ⟨key, Oracle.none⟩) :
    (∃ front deferred, front <+: visits (Fs 0) 0 keys ∧ front.map Visit.key ++ deferred = keys ∧
      sendRequestedBlobsResult S (Fs 0) b true 0 keys 0 ⟨store, out⟩ =
        .ok deferred ⟨store, out ++ emitted S b store front⟩ ∧
      (((front.map (Visit.sentBytes S b store)).sum : Int) ≤ repairBudget b.limits ∨
        ∃ v, front.filter (0 < Visit.sentBytes S b store ·) = [v] ∧
          (v.sentBytes S b store : Int) > repairBudget b.limits) ∧
      (deferred ≠ [] → ∃ v ∈ front, 0 < v.sentBytes S b store)) ∧
    ∀ fuel ≥ keys.length, ∃ visited : List Visit, visited.map Visit.key = keys ∧
      (∀ v ∈ visited, ∃ n i, v.reads = Fs n (.blob i)) ∧
      repairUntilEmpty S Fs b fuel 0 keys ⟨store, out⟩ =
        .ok [] ⟨store, out ++ emitted S b store visited⟩ := by
  constructor
  · refine ⟨taken S b store true 0 (visits (Fs 0) 0 keys), _, Tariff.admitted_prefix 0 _,
      taken_append_left .., repair_round (hF 0) hfits out, ?_, ?_⟩
    · exact Tariff.total_admitted (T := tariff S b store true) (repairBudget_nonneg b.limits) _
    intro hdeferred
    refine Tariff.costly_of_left (T := tariff S b store true) (fun hall => hdeferred ?_)
    have hlength : (taken S b store true 0 (visits (Fs 0) 0 keys)).length = keys.length := by
      rw [taken, hall, ← List.length_map Visit.key, visits_keys]
    rw [hlength, List.drop_length]
  · intro fuel hfuel
    obtain ⟨visited, hkeys, hreads, hrun⟩ := repairUntilEmpty_run hF fuel 0 keys hfuel hfits
    exact ⟨visited, hkeys, hreads, hrun out⟩

end Rounds

/-- The first blob is above the budget and is sent alone; the last key is returned, and a
second round sends its blob. -/
theorem repair_budget_partition_sample :
    value? (sendRequestedBlobsResult goStdlib Faults.none Sample.tight true 0 [[1], [3], [2]] 0
        ⟨Sample.largeFirst, []⟩) = some [[2]] ∧
    ∃ visited : List Visit, visited.map Visit.key = [[1], [3], [2]] ∧
      repairUntilEmpty goStdlib (fun _ => Faults.none) Sample.tight 3 0 [[1], [3], [2]]
        ⟨Sample.largeFirst, []⟩ =
        .ok [] ⟨Sample.largeFirst,
          [] ++ emitted goStdlib Sample.tight Sample.largeFirst visited⟩ := by
  refine ⟨by decide +kernel, ?_⟩
  obtain ⟨visited, hkeys, _, hrun⟩ := (repair_budget_partition (fun _ => Sample.live_none)
    Sample.tight [[1], [3], [2]] Sample.largeFirst [] fun key hkey => Sample.fits_largeFirst
      (by decide +kernel : (([[1], [3], [2]].map fun k => (⟨k, Oracle.none⟩ : Visit)).all _) = true)
      _ (List.mem_map_of_mem hkey)).2 3 (by decide)
  exact ⟨visited, hkeys, hrun⟩

/-! ## The slots that all peers share -/

/-- `repairIOLimiter`: the slots in its channel, and its two gauges. -/
structure RepairIOLimiter where
  capacity : Nat
  slots : Nat
  queued : Int
  inFlight : Int

def defaultMaxRepairOps : Int := 4

def newRepairIOLimiter (maxOps : Int) : RepairIOLimiter :=
  let n := (orDefault maxOps defaultMaxRepairOps).toNat
  ⟨n, n, 0, 0⟩

/-- What a call of `acquire` does next, and then the function that it returns. -/
inductive SlotCall where
  | enter
  | enqueue
  | select
  | wait
  | withdraw
  | dequeue
  | start
  | work
  | release
  | returned

namespace SlotCall

/-- One channel operation or gauge; `done` chooses the branch of `ctx.Done()`. -/
def next : Program Bool RepairIOLimiter SlotCall
  | done, b, enter => some (b, [if done then returned else enqueue])
  | _, b, enqueue => some ({ b with queued := b.queued + 1 }, [select])
  | true, b, select | true, b, wait => some (b, [withdraw])
  | false, b, select =>
    if b.slots = 0 then some (b, [wait]) else some ({ b with slots := b.slots - 1 }, [dequeue])
  | false, b, wait =>
    if b.slots = 0 then none else some ({ b with slots := b.slots - 1 }, [dequeue])
  | _, b, withdraw => some ({ b with queued := b.queued - 1 }, [returned])
  | _, b, dequeue => some ({ b with queued := b.queued - 1 }, [start])
  | _, b, start => some ({ b with inFlight := b.inFlight + 1 }, [work])
  | _, b, work => some ({ b with inFlight := b.inFlight - 1 }, [release])
  | _, b, release =>
    if b.slots = b.capacity then none else some ({ b with slots := b.slots + 1 }, [returned])
  | _, _, returned => none

/-- The call has taken a slot. -/
def holds : SlotCall → Bool
  | dequeue | start | work | release => true
  | _ => false

def queues : SlotCall → Bool
  | select | wait | withdraw | dequeue => true
  | _ => false

def works : SlotCall → Bool
  | work => true
  | _ => false

end SlotCall

variable (maxOps : Int) (calls : Nat) (schedule : List (Nat × Bool))

/-- Calls of `acquire`, with their steps in the order of a schedule. -/
def slotPool : Pool RepairIOLimiter SlotCall :=
  schedule.foldl (fun p step => p.run SlotCall.next step.1 step.2)
    ⟨newRepairIOLimiter maxOps, List.replicate calls .enter⟩

/-- The slots and the gauges agree with where the calls are. -/
structure SlotsExact (n : Nat) (p : Pool RepairIOLimiter SlotCall) : Prop where
  capacity : p.shared.capacity = n
  slots : p.shared.slots + count SlotCall.holds p.threads = n
  queued : p.shared.queued = count SlotCall.queues p.threads
  inFlight : p.shared.inFlight = count SlotCall.works p.threads

variable {n : Nat} {p : Pool RepairIOLimiter SlotCall}

theorem SlotsExact.run (h : SlotsExact n p) (i : Nat) (done : Bool) :
    SlotsExact n (p.run SlotCall.next i done) := by
  rcases p.run_cases SlotCall.next i done with
    hrun | ⟨before, t, after, b, ts, hp, -, hnext, hrun⟩
  · rwa [hrun]
  obtain ⟨hcapacity, hslots, hqueued, hinFlight⟩ := h
  rw [hp] at hslots hqueued hinFlight
  rw [hrun]
  unfold SlotCall.next at hnext
  -- one goal for each transition and sum
  split at hnext <;> (try split_ifs at hnext) <;> cases hnext <;>
    refine ⟨hcapacity, ?_, ?_, ?_⟩ <;>
    simp only [count_append, count_cons, count_nil, SlotCall.holds, SlotCall.queues,
      SlotCall.works, if_true, Bool.false_eq_true, if_false] at * <;>
    omega

/-- Giving a slot back does not block. -/
theorem SlotsExact.not_full (h : SlotsExact n p) (ht : .release ∈ p.threads) :
    p.shared.slots < p.shared.capacity := by
  have hone : 1 ≤ count SlotCall.holds p.threads :=
    le_total (w := fun t => if SlotCall.holds t then 1 else 0) ht
  have hslots := h.slots
  rw [h.capacity]
  omega

/-- When no call can go on, all have returned and the limiter is as it was made. -/
theorem SlotsExact.rests (h : SlotsExact n p) (hn : 0 < n)
    (hstuck : ∀ t ∈ p.threads, SlotCall.next false p.shared t = none) :
    p.shared = ⟨n, n, 0, 0⟩ ∧ ∀ t ∈ p.threads, t = .returned := by
  have hnone : count SlotCall.holds p.threads = 0 := by
    refine count_eq_zero fun t ht => ?_
    have hblocked := hstuck t ht
    cases t with
    | release => simp [SlotCall.next, (h.not_full ht).ne] at hblocked
    | dequeue | start | work => cases hblocked
    | _ => rfl
  obtain ⟨hcapacity, hslots, hqueued, hinFlight⟩ := h
  have hfree : p.shared.slots ≠ 0 := by omega
  have hall : ∀ t ∈ p.threads, t = .returned := by
    intro t ht
    have hblocked := hstuck t ht
    have hfreed := eq_false_of_count_eq_zero hnone t ht
    cases t with
    | returned => rfl
    | wait | select => simp [SlotCall.next, hfree] at hblocked
    | enter | enqueue | withdraw => cases hblocked
    | _ => cases hfreed
  have hidle : ∀ q : SlotCall → Bool, q .returned = false → count q p.threads = 0 :=
    fun q hq => count_eq_zero fun t ht => by rw [hall t ht, hq]
  rw [hidle _ rfl] at hslots hqueued hinFlight
  refine ⟨?_, hall⟩
  obtain ⟨⟨capacity, slots, queued, inFlight⟩, threads⟩ := p
  simp_all

theorem slotPool_exact :
    SlotsExact (newRepairIOLimiter maxOps).capacity (slotPool maxOps calls schedule) := by
  refine List.foldlRecOn schedule _ ⟨rfl, ?_, ?_, ?_⟩ fun p h step _ => h.run step.1 step.2
  all_goals
    rw [count_eq_zero fun t ht => by rw [List.eq_of_mem_replicate ht]; rfl]
    rfl

/-- However the calls interleave and whichever are canceled, slots and gauges agree with
where the calls are, and no more operations are in flight than there are slots. -/
theorem repair_io_bounded :
    SlotsExact (newRepairIOLimiter maxOps).capacity (slotPool maxOps calls schedule) ∧
      (slotPool maxOps calls schedule).shared.inFlight ≤ (newRepairIOLimiter maxOps).capacity := by
  have hexact := slotPool_exact maxOps calls schedule
  have hmono := total_mono (w := fun t => if SlotCall.holds t then 1 else 0)
    (v := fun t => if t.works then 1 else 0) (by rintro (_ | _) <;> decide)
    (slotPool maxOps calls schedule).threads
  have hslots := hexact.slots
  refine ⟨hexact, ?_⟩
  rw [hexact.inFlight]
  unfold count at hslots ⊢
  omega

/-- Giving a slot back never blocks, and the calls come to rest only when all have
returned and the limiter is as it was made. -/
theorem repair_io_rests :
    ∃ p, slotPool maxOps calls schedule = p ∧
      (.release ∈ p.threads → p.shared.slots < p.shared.capacity) ∧
      ((∀ t ∈ p.threads, SlotCall.next false p.shared t = none) →
        p.shared = newRepairIOLimiter maxOps ∧ ∀ t ∈ p.threads, t = .returned) := by
  have hexact := slotPool_exact maxOps calls schedule
  have hpos := orDefault_pos maxOps defaultMaxRepairOps (by decide)
  refine ⟨_, rfl, hexact.not_full, hexact.rests ?_⟩
  unfold newRepairIOLimiter
  dsimp only
  omega

end StreamHive.Replication

import StreamHive.Lifecycle.Session
import StreamHive.Replication.Protocol
import StreamHive.Verified.Paging

/-!
# Inventory exchanges

A node advertises the keys it holds in `blob.has` frames.  One exchange sends at
most a budgeted number of keys and bytes and returns a cursor for the next one.
Three loops are nested: pages of keys, frames of a page, and the halvings that
find the size of a frame.

## Main results

* `fitFrame_run` — the inner loop is a halving search for an acceptable number of
  keys;
* `frameEnd_eq`, `frameEnd_out` — when the end of a slice overflows;
* `sendKeys_run` — the middle loop does what the relation `Sends` says, which
  keeps the decisions of the loop and forgets how it computes them, unless it
  `Overflows`;
* `Sends.complete_iff` — when a page is sent to its end, in terms of the length of
  its frames and of the byte budget alone.
-/

namespace StreamHive.Replication

open Verified.ByteString Verified.Effect Verified.Paging
open StreamHive.Lifecycle (Error Oracle Faults Call orDefault orDefault_pos ctxErr syscall
  perform maxInt64 addInt64)
open StreamHive.Transport (defaultMaxFrameBytes)

/-! ## The program -/

/-- The order of `bytes.Compare`. -/
abbrev sortKeys (keys : List Bytes) : List Bytes := sort compare keys

/-- Enumerates the keys of a store; `paged` for a `BlobKeyPager`. -/
structure Lister where
  keys : List Bytes
  nodup : keys.Nodup
  paged : Bool

structure InventoryExchangeBudget where
  maxBytes : Int
  maxKeys : Int
  deriving DecidableEq, Repr

/-- The parameters that all calls of an exchange share. -/
structure Config where
  limits : Limits
  maxFrameBytes : Int
  budget : InventoryExchangeBudget
  deriving DecidableEq, Repr

def inventoryBatchSize (limits : Limits) : Int :=
  if 0 < limits.maxKeys then limits.maxKeys else defaultMaxKeys

def Config.maxPayload (cfg : Config) : Int := orDefault cfg.maxFrameBytes defaultMaxFrameBytes

/-- `p2p.WriteFrame` on a peer; `deliver` is what a written frame does to the state. -/
def writeFrameTo {σ : Type} (deliver : Bytes → σ → σ) (o : Oracle) (payload : Bytes)
    (maxFrameBytes : Int) : EStateM Error σ Unit := do
  raiseIf ((payload.length : Int) > orDefault maxFrameBytes defaultMaxFrameBytes) .frameTooLarge
  perform o .writeFrame (deliver payload)

/-- Write one frame behind those written before. -/
def writePeerFrame (o : Oracle) (payload : Bytes) (maxFrameBytes : Int) :
    EStateM Error (List Bytes) Unit :=
  writeFrameTo (fun payload out => out ++ [payload]) o payload maxFrameBytes

/-- The byte budget has no room for a payload of this length. -/
def OverBudget (cfg : Config) (sentBytes length : Nat) : Prop :=
  0 < cfg.budget.maxBytes ∧ ((sentBytes + length : Nat) : Int) > cfg.budget.maxBytes

instance (cfg : Config) (sentBytes length : Nat) : Decidable (OverBudget cfg sentBytes length) :=
  inferInstanceAs (Decidable (_ ∧ _))

/-- The key budget is used up. -/
def KeysSpent (cfg : Config) (sentKeys : Nat) : Prop :=
  0 < cfg.budget.maxKeys ∧ (sentKeys : Int) ≥ cfg.budget.maxKeys

instance (cfg : Config) (sentKeys : Nat) : Decidable (KeysSpent cfg sentKeys) :=
  inferInstanceAs (Decidable (_ ∧ _))

/-- Where the middle loop stands: its index, the keys from there on, and what the
exchange has sent. -/
structure Position where
  start : Nat
  rest : List Bytes
  sentKeys : Nat
  sentBytes : Nat

/-- Behind a frame of `n` keys. -/
def Position.skip (s : Position) (n length : Nat) : Position :=
  ⟨s.start + n, s.rest.drop n, s.sentKeys + n, s.sentBytes + length⟩

/-- The inner loop: advertise the first `n` of the remaining keys, halving `n`
until the frame is acceptable.  `none` means that the byte budget has no room for
a single key.  Every iteration makes `n` smaller, so `n` is enough fuel. -/
def fitFrame (o : Oracle) (cfg : Config) (s : Position) :
    Nat → Nat → EStateM Error (List Bytes) (Option (Nat × Nat))
  | 0, _ => throw .panic
  | fuel + 1, n => do
    ctxErr o n
    let payload ← attempt (encodeBlobHas (s.rest.take n) cfg.limits)
    if (payload.length : Int) > cfg.maxPayload then
      if n = 1 then throw .frameTooLarge
      else fitFrame o cfg s fuel (n / 2)
    else if OverBudget cfg s.sentBytes payload.length ∧ 1 < n then
      fitFrame o cfg s fuel (n / 2)
    else if OverBudget cfg s.sentBytes payload.length ∧ 0 < s.sentKeys then
      pure none
    else do
      -- a single key is sent over the budget when nothing was sent before
      writePeerFrame o payload cfg.maxFrameBytes
      pure (some (n, payload.length))

/-- `end` before the halvings.  The sum and the difference wrap around as `int`; the
last sum has no need to, since `start` is at most `sentKeys`. -/
def frameEnd (cfg : Config) (s : Position) : Int :=
  let stop := addInt64 s.start (inventoryBatchSize cfg.limits)
  let stop : Int := if stop > s.start + s.rest.length then s.start + s.rest.length else stop
  if 0 < cfg.budget.maxKeys ∧ addInt64 stop (-s.start) > cfg.budget.maxKeys - s.sentKeys then
    s.start + cfg.budget.maxKeys - s.sentKeys
  else stop

/-- What `sendBlobHasKeysBudget` returns. -/
structure Sent where
  cursor : Bytes
  complete : Bool
  sentKeys : Nat
  sentBytes : Nat
  deriving DecidableEq, Repr

variable (F : Faults)

/-- The middle loop; every frame takes at least one key. -/
def sendKeys (cfg : Config) (page : Nat) :
    Nat → Position → Bytes → EStateM Error (List Bytes) Sent
  | 0, _, _ => throw .panic
  | fuel + 1, s, cursor =>
    if s.rest = [] then
      pure ⟨cursor, true, s.sentKeys, s.sentBytes⟩
    else if KeysSpent cfg s.sentKeys then
      pure ⟨cursor, false, s.sentKeys, s.sentBytes⟩
    else if frameEnd cfg s < s.start ∨ frameEnd cfg s > s.start + s.rest.length then do
      -- `keys[start:end]` panics, or takes empty keys from the spare capacity of the
      -- slice, which `EncodeBlobHas` refuses
      ctxErr (F (.advertise page s.start)) 0
      throw .panic
    else do
      let n := (frameEnd cfg s - s.start).toNat
      match ← fitFrame (F (.advertise page s.start)) cfg s n n with
      | none => pure ⟨cursor, false, s.sentKeys, s.sentBytes⟩
      | some (m, length) =>
        sendKeys cfg page fuel (s.skip m length) (lastOr cursor (s.rest.take m))

def sendBlobHasKeysBudget (cfg : Config) (page : Nat) (keys : List Bytes)
    (sentKeys sentBytes : Nat) : EStateM Error (List Bytes) Sent :=
  sendKeys F cfg page (keys.length + 1) ⟨0, keys, sentKeys, sentBytes⟩ []

def defaultKeyPageSize : Int := 256

def normalizeKeyPageLimit (limit : Int) : Int :=
  if limit ≤ 0 then defaultKeyPageSize else limit

/-- The smallest keys after `after`: an ascending scan from `after` on, which skips
a key equal to it. -/
def Lister.listKeyPage {σ : Type} (lister : Lister) (o : Oracle) (after : Bytes)
    (limit : Int) : EStateM Error σ (List Bytes × Bytes) := do
  syscall o .listKeys
  let scan := (sortKeys lister.keys).filter fun k => (compare after k).isLE
  let unseen := scan.filter fun k => after = [] ∨ k ≠ after
  let page := unseen.take (normalizeKeyPageLimit limit).toNat
  pure (page, lastOr [] page)

/-- The page size of an exchange. -/
def pageSize (cfg : Config) : Int :=
  let size := inventoryBatchSize cfg.limits
  let size := if 0 < cfg.budget.maxKeys ∧ cfg.budget.maxKeys < size then
    cfg.budget.maxKeys else size
  if size ≤ 0 then 1 else size

/-- The size of the next page: no more than the key budget has left. -/
def pageLimit (cfg : Config) (sentKeys : Nat) : Int :=
  if 0 < cfg.budget.maxKeys ∧ pageSize cfg > cfg.budget.maxKeys - sentKeys then
    cfg.budget.maxKeys - sentKeys
  else pageSize cfg

/-- The outer loop over pages; every page moves the cursor, so one more iteration
than there are keys is enough fuel. -/
def sendPages (cfg : Config) (lister : Lister) :
    Nat → Nat → Bytes → Nat → Nat → EStateM Error (List Bytes) (Bytes × Bool)
  | 0, _, _, _, _ => throw .panic
  | fuel + 1, page, cursor, sentKeys, sentBytes => do
    ctxErr (F (.page page)) 0
    if KeysSpent cfg sentKeys then
      pure (cursor, false)
    else do
      let (keys, next) ← lister.listKeyPage (F (.page page)) cursor (pageLimit cfg sentKeys)
      if keys = [] then
        pure (cursor, true)
      else do
        raiseIf (next = [] ∨ keys.getLast? ≠ some next)
          (.text "replication: blob key page cursor must be last key")
        raiseIf (cursor ≠ [] ∧ compare next cursor ≠ .gt)
          (.text "replication: blob key page cursor did not advance")
        let sent ← sendBlobHasKeysBudget F cfg page keys sentKeys sentBytes
        if sent.complete then
          sendPages cfg lister fuel (page + 1) next sent.sentKeys sent.sentBytes
        else
          pure (sent.cursor, false)

def sendPagedBlobHasBudget (cfg : Config) (lister : Lister) (after : Bytes) :
    EStateM Error (List Bytes) (Bytes × Bool) :=
  sendPages F cfg lister (lister.keys.length + 1) 0 after 0 0

/-- One exchange from a cursor: the cursor for the next one, and whether the
inventory has been walked to its end. -/
def sendInventoryExchange (cfg : Config) (lister : Lister) (after : Bytes) :
    EStateM Error (List Bytes) (Bytes × Bool) :=
  if lister.paged then
    sendPagedBlobHasBudget F cfg lister after
  else do
    syscall (F .load) .listKeys
    let keys := sortKeys lister.keys
    -- sort.Search finds the first key for which the predicate holds
    let rest := keys.dropWhile fun k => ¬(after = [] ∨ compare k after = .gt)
    if rest = [] then
      pure (after, true)
    else do
      let sent ← sendBlobHasKeysBudget F cfg 0 rest 0 0
      pure (sent.cursor, sent.complete)

/-! ## Frames -/

theorem inventoryBatchSize_eq (limits : Limits) :
    inventoryBatchSize limits = (normalizeLimits limits).maxKeys := by
  unfold inventoryBatchSize normalizeLimits orDefault
  by_cases h : 0 < limits.maxKeys
  · rw [if_pos h]
    simp only
    rw [if_neg (by omega)]
  · rw [if_neg h]
    simp only
    rw [if_pos (by omega)]

/-- The payload that advertises keys. -/
abbrev hasPayload (keys : List Bytes) : Bytes := keysPayload .blobHas keys

/-- Its length. -/
def hasLength (keys : List Bytes) : Nat := (hasPayload keys).length

theorem hasLength_eq {keys : List Bytes} (h : keys ≠ []) :
    hasLength keys = typeWidth .blobHas + keysWidth keys := length_keysPayload .blobHas h

theorem keysWidth_mono {ks ls : List Bytes} (h : ks.Sublist ls) :
    keysWidth ks ≤ keysWidth ls := by
  induction h with
  | slnil => exact Nat.le_refl _
  | cons | cons_cons =>
    simp only [keysWidth_cons]
    omega

theorem hasLength_take_le (keys : List Bytes) {m n : Nat} (hm : 0 < m) (h : m ≤ n) :
    hasLength (keys.take m) ≤ hasLength (keys.take n) := by
  cases keys with
  | nil => simp
  | cons k keys =>
    have hmne : (k :: keys).take m ≠ [] := by simp; omega
    have hnne : (k :: keys).take n ≠ [] := by simp; omega
    rw [hasLength_eq hmne, hasLength_eq hnne]
    have := keysWidth_mono (List.take_sublist_take_left (l := k :: keys) h)
    omega

/-- Two frames are no shorter than one for all their keys. -/
theorem hasLength_append_le {ks ls : List Bytes} (hk : ks ≠ []) (hl : ls ≠ []) :
    hasLength (ks ++ ls) ≤ hasLength ks + hasLength ls := by
  rw [hasLength_eq hk, hasLength_eq hl, hasLength_eq (by simp [hk]), keysWidth_append]
  omega

/-- Every key can be advertised in a frame of its own. -/
def Advertisable (cfg : Config) (keys : List Bytes) : Prop :=
  ∀ k ∈ keys, ∃ payload, encodeBlobHas [k] cfg.limits = .ok payload ∧
    (payload.length : Int) ≤ cfg.maxPayload

namespace Advertisable

variable {cfg : Config} {keys : List Bytes}

theorem sublist (h : Advertisable cfg keys) {ls : List Bytes} (hsub : ls ⊆ keys) :
    Advertisable cfg ls := fun k hk => h k (hsub hk)

theorem validKey (h : Advertisable cfg keys) {k : Bytes} (hk : k ∈ keys) :
    validateKey k (normalizeLimits cfg.limits) = .ok () := by
  obtain ⟨payload, hpayload, _⟩ := h k hk
  obtain ⟨hvalid, _⟩ := encodeKeyListMessage_ok.mp hpayload
  exact (validateKeys_ok.mp hvalid).2.2 k (by simp)

theorem ne_nil (h : Advertisable cfg keys) {k : Bytes} (hk : k ∈ keys) : k ≠ [] :=
  (validateKey_ok.mp (h.validKey hk)).1

theorem single (h : Advertisable cfg keys) (hne : keys ≠ []) :
    (hasLength (keys.take 1) : Int) ≤ cfg.maxPayload := by
  obtain ⟨k, rest, rfl⟩ := List.exists_cons_of_ne_nil hne
  obtain ⟨payload, hpayload, hlength⟩ := h k (by simp)
  obtain ⟨_, rfl⟩ := encodeKeyListMessage_ok.mp hpayload
  exact hlength

/-- Any number of keys up to the batch size can be encoded. -/
theorem encode (h : Advertisable cfg keys) (hne : keys ≠ [])
    (hbatch : (keys.length : Int) ≤ inventoryBatchSize cfg.limits) :
    encodeBlobHas keys cfg.limits = .ok (hasPayload keys) := by
  apply encodeKeyListMessage_ok.mpr
  refine ⟨validateKeys_ok.mpr ⟨hne, ?_, fun k hk => h.validKey hk⟩, rfl⟩
  rw [← inventoryBatchSize_eq]
  exact hbatch

end Advertisable

theorem writeFrameTo_run {σ : Type} {deliver : Bytes → σ → σ} {payload : Bytes}
    {maxFrameBytes : Int}
    (h : (payload.length : Int) ≤ orDefault maxFrameBytes defaultMaxFrameBytes) (s : σ) :
    writeFrameTo deliver Oracle.none payload maxFrameBytes s = .ok () (deliver payload s) := by
  unfold writeFrameTo
  rw [run_bind_ok (run_raiseIf (by omega))]
  rfl

theorem writePeerFrame_run {payload : Bytes} {maxFrameBytes : Int}
    (h : (payload.length : Int) ≤ orDefault maxFrameBytes defaultMaxFrameBytes)
    (out : List Bytes) :
    writePeerFrame Oracle.none payload maxFrameBytes out = .ok () (out ++ [payload]) :=
  writeFrameTo_run h out

/-! ## The inner loop -/

/-- The frame of the first `n` keys fits. -/
def FrameFits (cfg : Config) (rest : List Bytes) (n : Nat) : Prop :=
  (hasLength (rest.take n) : Int) ≤ cfg.maxPayload

instance (cfg : Config) (rest : List Bytes) : DecidablePred (FrameFits cfg rest) :=
  fun _ => inferInstanceAs (Decidable (_ ≤ _))

/-- The frame of the first `n` keys fits, and the budget has room for it. -/
def Accepts (cfg : Config) (s : Position) (n : Nat) : Prop :=
  FrameFits cfg s.rest n ∧ ¬OverBudget cfg s.sentBytes (hasLength (s.rest.take n))

instance (cfg : Config) (s : Position) : DecidablePred (Accepts cfg s) :=
  fun _ => inferInstanceAs (Decidable (_ ∧ _))

section InnerLoop

variable {cfg : Config} {s : Position}

/-- The inner loop is a halving search; it gives up only on a single key that the
budget has no room for, and only when something was sent before. -/
theorem fitFrame_run (h : Advertisable cfg s.rest) {fuel n : Nat} (hfuel : n ≤ fuel)
    (hpos : 0 < n) (hlen : n ≤ s.rest.length)
    (hbatch : (n : Int) ≤ inventoryBatchSize cfg.limits) (out : List Bytes) :
    fitFrame Oracle.none cfg s fuel n out =
      let m := halve (Accepts cfg s) fuel n
      if Accepts cfg s m ∨ s.sentKeys = 0 then
        .ok (some (m, hasLength (s.rest.take m))) (out ++ [hasPayload (s.rest.take m)])
      else .ok none out := by
  induction fuel generalizing n with
  | zero => omega
  | succ fuel ih =>
    have htake : (s.rest.take n).length = n := List.length_take_of_le hlen
    have hne : s.rest.take n ≠ [] := List.length_pos_iff.mp (by omega)
    have hencode : encodeBlobHas (s.rest.take n) cfg.limits =
        .ok (hasPayload (s.rest.take n)) :=
      (h.sublist (List.take_subset n s.rest)).encode hne (by rw [htake]; exact hbatch)
    unfold fitFrame
    rw [run_bind_ok (show ctxErr Oracle.none n out = .ok () out from rfl),
      run_bind_ok (run_attempt hencode)]
    by_cases haccepts : Accepts cfg s n
    · -- the frame is acceptable
      have hfit : ¬((hasPayload (s.rest.take n)).length : Int) > cfg.maxPayload :=
        not_lt.mpr haccepts.1
      have hbudget : ¬OverBudget cfg s.sentBytes (hasPayload (s.rest.take n)).length :=
        haccepts.2
      have hhalve : halve (Accepts cfg s) (fuel + 1) n = n := by
        unfold halve
        rw [if_pos (.inl haccepts)]
      simp only [hhalve, if_pos (Or.inl haccepts)]
      rw [if_neg hfit, if_neg (fun hc => hbudget hc.1), if_neg (fun hc => hbudget hc.1),
        run_bind_ok (writePeerFrame_run haccepts.1 out)]
      rfl
    · by_cases hone : n = 1
      · -- a single key: the frame fits, so the budget is exceeded
        subst hone
        have hfits : FrameFits cfg s.rest 1 := h.single (List.length_pos_iff.mp hlen)
        have hfit : ¬((hasPayload (s.rest.take 1)).length : Int) > cfg.maxPayload :=
          not_lt.mpr hfits
        have hbudget : OverBudget cfg s.sentBytes (hasPayload (s.rest.take 1)).length := by
          by_contra hroom
          exact haccepts ⟨hfits, hroom⟩
        have hhalve : halve (Accepts cfg s) (fuel + 1) 1 = 1 := by
          unfold halve
          rw [if_pos (.inr (by omega))]
        simp only [hhalve]
        rw [if_neg hfit, if_neg (by omega)]
        by_cases hsent : s.sentKeys = 0
        · rw [if_neg (by omega), if_pos (.inr hsent),
            run_bind_ok (writePeerFrame_run (not_lt.mp hfit) out)]
          rfl
        · rw [if_pos ⟨hbudget, by omega⟩, if_neg (by simp [haccepts, hsent])]
          rfl
      · -- both refusals halve
        have hhalve : halve (Accepts cfg s) (fuel + 1) n =
            halve (Accepts cfg s) fuel (n / 2) := by
          rw [halve, if_neg]
          intro hc
          rcases hc with hc | hc
          · exact haccepts hc
          · omega
        have hrec := ih (n := n / 2) (by omega) (by omega) (by omega) (by omega)
        rw [hhalve, ← hrec]
        by_cases hfit : ((hasPayload (s.rest.take n)).length : Int) > cfg.maxPayload
        · rw [if_pos hfit, if_neg hone]
        · have hbudget : OverBudget cfg s.sentBytes (hasPayload (s.rest.take n)).length := by
            by_contra hroom
            exact haccepts ⟨not_lt.mp hfit, hroom⟩
          rw [if_neg hfit, if_pos ⟨hbudget, by omega⟩]

end InnerLoop

/-! ## The middle loop -/

/-- The number of keys that the inner loop starts with if the end of the slice does not
overflow. -/
def frameKeys (cfg : Config) (s : Position) : Nat :=
  let n := min (inventoryBatchSize cfg.limits).toNat s.rest.length
  if 0 < cfg.budget.maxKeys ∧ (n : Int) > cfg.budget.maxKeys - s.sentKeys then
    (cfg.budget.maxKeys - s.sentKeys).toNat
  else n

/-- The number of keys of the next frame. -/
def cut (cfg : Config) (s : Position) : Nat :=
  halve (Accepts cfg s) (frameKeys cfg s) (frameKeys cfg s)

def nextFrame (cfg : Config) (s : Position) : List Bytes := s.rest.take (cut cfg s)

/-- The position behind the next frame. -/
def behindFrame (cfg : Config) (s : Position) : Position :=
  s.skip (cut cfg s) (hasLength (nextFrame cfg s))

/-- The loop sends another frame. -/
structure SendsFrame (cfg : Config) (s : Position) : Prop where
  rest : s.rest ≠ []
  keys : ¬KeysSpent cfg s.sentKeys
  accepts : Accepts cfg s (cut cfg s) ∨ s.sentKeys = 0

/-- What the middle loop does with the keys that remain: it sends frames and leaves
the rest, because a budget is used up. -/
inductive Sends (cfg : Config) : Position → List (List Bytes) → List Bytes → Prop
  | done {s : Position} (hrest : s.rest = []) : Sends cfg s [] []
  | keysSpent {s : Position} (hrest : s.rest ≠ []) (hspent : KeysSpent cfg s.sentKeys) :
      Sends cfg s [] s.rest
  | bytesSpent {s : Position} (hrest : s.rest ≠ []) (hkeys : ¬KeysSpent cfg s.sentKeys)
      (hsent : 0 < s.sentKeys)
      (hover : OverBudget cfg s.sentBytes (hasLength (s.rest.take 1))) :
      Sends cfg s [] s.rest
  | frame {s : Position} {frames : List (List Bytes)} {left : List Bytes}
      (h : SendsFrame cfg s) (hnext : Sends cfg (behindFrame cfg s) frames left) :
      Sends cfg s (nextFrame cfg s :: frames) left

/-- The end of the next slice is an `int`, or the key budget puts it within the keys
when it has overflowed. -/
def Indexable (cfg : Config) (s : Position) : Prop :=
  s.start + inventoryBatchSize cfg.limits ≤ maxInt64 ∨
    0 < cfg.budget.maxKeys ∧ cfg.budget.maxKeys - s.sentKeys ≤ s.rest.length

/-- The loop comes to a frame whose slice is out of bounds. -/
inductive Overflows (cfg : Config) : Position → Prop
  | here {s : Position} (hrest : s.rest ≠ []) (hkeys : ¬KeysSpent cfg s.sentKeys)
      (h : ¬Indexable cfg s) : Overflows cfg s
  | later {s : Position} (h : SendsFrame cfg s) (hnext : Overflows cfg (behindFrame cfg s)) :
      Overflows cfg s

/-- `MaxKeys` and a number of keys are values of type `int`. -/
structure IntSized (cfg : Config) (n : Nat) : Prop where
  maxKeys : cfg.limits.maxKeys ≤ maxInt64
  length : n ≤ maxInt64

/-- The bytes of a list of frames. -/
def framesLength (frames : List (List Bytes)) : Nat := (frames.map hasLength).sum

@[simp] theorem framesLength_nil : framesLength [] = 0 := rfl

@[simp] theorem framesLength_cons (frame : List Bytes) (frames : List (List Bytes)) :
    framesLength (frame :: frames) = hasLength frame + framesLength frames := by
  simp [framesLength]

section MiddleLoop

variable {cfg : Config} {s : Position} {left : List Bytes} {frames : List (List Bytes)}

theorem inventoryBatchSize_pos (limits : Limits) : 0 < inventoryBatchSize limits := by
  rw [inventoryBatchSize_eq]
  exact orDefault_pos _ _ (by decide)

theorem IntSized.batch {n : Nat} (h : IntSized cfg n) :
    inventoryBatchSize cfg.limits ≤ maxInt64 := by
  unfold inventoryBatchSize
  split
  · exact h.maxKeys
  · decide

theorem addInt64_eq {a b : Int} (hlow : -maxInt64 ≤ a + b) (hhigh : a + b ≤ maxInt64) :
    addInt64 a b = a + b := by
  unfold maxInt64 at hlow hhigh
  exact Int.bmod_eq_of_le (by omega) (by omega)

section FrameEnd

variable (hint : IntSized cfg (s.start + s.rest.length))
include hint

/-- The end of the slice when the sum is an `int`. -/
theorem frameEnd_of_le (hkeys : ¬KeysSpent cfg s.sentKeys)
    (h : s.start + inventoryBatchSize cfg.limits ≤ maxInt64) :
    frameEnd cfg s = s.start + frameKeys cfg s := by
  have hlength := hint.length
  have hpos := inventoryBatchSize_pos cfg.limits
  have hstop : addInt64 s.start (inventoryBatchSize cfg.limits) =
      s.start + inventoryBatchSize cfg.limits :=
    addInt64_eq (by unfold maxInt64; omega) h
  have hmin : (if s.start + inventoryBatchSize cfg.limits > s.start + s.rest.length then
      (s.start + s.rest.length : Int) else s.start + inventoryBatchSize cfg.limits) =
      s.start + (min (inventoryBatchSize cfg.limits).toNat s.rest.length : Nat) := by
    split <;> omega
  unfold KeysSpent at hkeys
  unfold frameEnd frameKeys
  simp only [hstop, hmin]
  rw [addInt64_eq (by unfold maxInt64; omega) (by unfold maxInt64 at *; omega)]
  split <;> split <;> omega

/-- Otherwise the sum is negative, and the number of keys is the batch size again. -/
theorem frameEnd_of_gt (h : s.start + inventoryBatchSize cfg.limits > maxInt64) :
    frameEnd cfg s =
      if 0 < cfg.budget.maxKeys ∧ inventoryBatchSize cfg.limits > cfg.budget.maxKeys - s.sentKeys
      then s.start + cfg.budget.maxKeys - s.sentKeys
      else s.start + inventoryBatchSize cfg.limits - 2 ^ 64 := by
  have hlength := hint.length
  have hbatch := hint.batch
  have hstop : addInt64 s.start (inventoryBatchSize cfg.limits) =
      s.start + inventoryBatchSize cfg.limits - 2 ^ 64 := by
    unfold maxInt64 at *
    unfold addInt64
    rw [← Int.sub_bmod_right]
    exact Int.bmod_eq_of_le (by omega) (by omega)
  have hkeys : addInt64 (s.start + inventoryBatchSize cfg.limits - 2 ^ 64) (-s.start) =
      inventoryBatchSize cfg.limits := by
    unfold maxInt64 at *
    unfold addInt64
    rw [← Int.add_bmod_right]
    exact (Int.bmod_eq_of_le (by omega) (by omega)).trans (by omega)
  unfold frameEnd
  unfold maxInt64 at *
  simp only [hstop]
  rw [if_neg (show ¬_ > _ by omega), hkeys]

theorem frameEnd_eq (hkeys : ¬KeysSpent cfg s.sentKeys) (h : Indexable cfg s) :
    frameEnd cfg s = s.start + frameKeys cfg s := by
  by_cases hfits : s.start + inventoryBatchSize cfg.limits ≤ maxInt64
  · exact frameEnd_of_le hint hkeys hfits
  · -- the key budget ends within the keys
    obtain ⟨hmax, hend⟩ := h.resolve_left hfits
    have hlength := hint.length
    unfold KeysSpent at hkeys
    rw [frameEnd_of_gt hint (not_le.mp hfits), if_pos ⟨hmax, by omega⟩]
    unfold frameKeys
    simp only
    split <;> omega

theorem frameEnd_out (h : ¬Indexable cfg s) :
    frameEnd cfg s < s.start ∨ frameEnd cfg s > s.start + s.rest.length := by
  obtain ⟨hfits, hend⟩ := not_or.mp h
  have hbatch := hint.batch
  rw [frameEnd_of_gt hint (not_le.mp hfits)]
  unfold maxInt64 at hbatch
  split <;> omega

end FrameEnd

theorem frameKeys_bounds (hrest : s.rest ≠ []) (hkeys : ¬KeysSpent cfg s.sentKeys) :
    0 < frameKeys cfg s ∧ frameKeys cfg s ≤ s.rest.length ∧
      (frameKeys cfg s : Int) ≤ inventoryBatchSize cfg.limits := by
  have hbatch := inventoryBatchSize_pos cfg.limits
  have hlen : 0 < s.rest.length := List.length_pos_iff.mpr hrest
  unfold KeysSpent at hkeys
  unfold frameKeys
  simp only
  split
  · omega
  · omega

/-- A refused cut is a single key that the budget has no room for. -/
theorem over_of_not_accepts (h : Advertisable cfg s.rest) (hrest : s.rest ≠ [])
    (hkeys : ¬KeysSpent cfg s.sentKeys) (hcut : ¬Accepts cfg s (cut cfg s)) :
    cut cfg s = 1 ∧ OverBudget cfg s.sentBytes (hasLength (s.rest.take 1)) := by
  obtain ⟨hpos, _, _⟩ := frameKeys_bounds hrest hkeys
  have hone : cut cfg s = 1 := (halve_accepts (Nat.le_refl _) hpos).resolve_left hcut
  refine ⟨hone, ?_⟩
  rw [hone] at hcut
  by_contra hroom
  exact hcut ⟨h.single hrest, hroom⟩

namespace SendsFrame

theorem bounds (h : SendsFrame cfg s) : 0 < cut cfg s ∧ cut cfg s ≤ s.rest.length ∧
    (cut cfg s : Int) ≤ inventoryBatchSize cfg.limits := by
  obtain ⟨hpos, hlen, hbatch⟩ := frameKeys_bounds h.rest h.keys
  have hle : cut cfg s ≤ frameKeys cfg s := halve_le _ _
  have hcutpos : 0 < cut cfg s := halve_pos _ hpos
  omega

theorem length (h : SendsFrame cfg s) : (nextFrame cfg s).length = cut cfg s :=
  List.length_take_of_le h.bounds.2.1

theorem ne_nil (h : SendsFrame cfg s) : nextFrame cfg s ≠ [] := by
  have := h.bounds
  have := h.length
  exact List.length_pos_iff.mp (by omega)

theorem shorter (h : SendsFrame cfg s) : (behindFrame cfg s).rest.length < s.rest.length := by
  have := h.bounds
  show (s.rest.drop _).length < _
  rw [List.length_drop]
  omega

theorem intSized (h : SendsFrame cfg s) (hint : IntSized cfg (s.start + s.rest.length)) :
    IntSized cfg ((behindFrame cfg s).start + (behindFrame cfg s).rest.length) := by
  have hbounds := h.bounds
  have hlength := hint.length
  refine ⟨hint.maxKeys, ?_⟩
  show ((s.start + cut cfg s + (s.rest.drop (cut cfg s)).length : Nat) : Int) ≤ _
  rw [List.length_drop]
  omega

end SendsFrame

theorem Overflows.rest_ne_nil (h : Overflows cfg s) : s.rest ≠ [] := by
  cases h with
  | here hrest => exact hrest
  | later h => exact h.rest

theorem Overflows.not_spent (h : Overflows cfg s) : ¬KeysSpent cfg s.sentKeys := by
  cases h with
  | here _ hkeys => exact hkeys
  | later h => exact h.keys

/-- The number of keys and the batch size together are within `int`. -/
theorem not_overflows (h : s.start + s.rest.length + inventoryBatchSize cfg.limits ≤ maxInt64) :
    ¬Overflows cfg s := by
  intro hover
  induction hover with
  | here _ _ hout => exact hout (.inl (by omega))
  | @later s hcont _ ih =>
    have hbounds := hcont.bounds
    apply ih
    show ((s.start + cut cfg s : Nat) : Int) + (s.rest.drop (cut cfg s)).length + _ ≤ _
    rw [List.length_drop]
    omega

/-- The middle loop does what `Sends` says, or fails at a slice that is out of bounds. -/
theorem sendKeys_run (h : Advertisable cfg s.rest)
    (hint : IntSized cfg (s.start + s.rest.length)) {fuel : Nat} (hfuel : s.rest.length < fuel)
    (page : Nat) (cursor : Bytes) (out : List Bytes) :
    (Overflows cfg s ∧
      ∃ e out', sendKeys Faults.none cfg page fuel s cursor out = .error e out') ∨
    ¬Overflows cfg s ∧ ∃ frames left, Sends cfg s frames left ∧
      sendKeys Faults.none cfg page fuel s cursor out =
        .ok ⟨lastOr cursor frames.flatten, decide (left = []),
          s.sentKeys + frames.flatten.length, s.sentBytes + framesLength frames⟩
          (out ++ frames.map hasPayload) := by
  induction fuel generalizing s cursor out with
  | zero => omega
  | succ fuel ih =>
    unfold sendKeys
    by_cases hrest : s.rest = []
    · rw [if_pos hrest]
      exact .inr ⟨fun hc => hc.rest_ne_nil hrest, [], [], .done hrest,
        by simp [pure, EStateM.pure]⟩
    rw [if_neg hrest]
    by_cases hkeys : KeysSpent cfg s.sentKeys
    · rw [if_pos hkeys]
      exact .inr ⟨fun hc => hc.not_spent hkeys, [], s.rest, .keysSpent hrest hkeys,
        by simp [hrest, pure, EStateM.pure]⟩
    rw [if_neg hkeys]
    by_cases hindex : Indexable cfg s
    rotate_left
    · rw [if_pos (frameEnd_out hint hindex)]
      exact .inl ⟨.here hrest hkeys hindex, .panic, out, rfl⟩
    obtain ⟨hpos, hlen, hbatch⟩ := frameKeys_bounds hrest hkeys
    have hend := frameEnd_eq hint hkeys hindex
    have hcount : (frameEnd cfg s - s.start).toNat = frameKeys cfg s := by omega
    have hfit : fitFrame (Faults.none (.advertise page s.start)) cfg s (frameKeys cfg s)
        (frameKeys cfg s) out =
        if Accepts cfg s (cut cfg s) ∨ s.sentKeys = 0 then
          .ok (some (cut cfg s, hasLength (nextFrame cfg s)))
            (out ++ [hasPayload (nextFrame cfg s)])
        else .ok none out :=
      fitFrame_run h (Nat.le_refl _) hpos hlen hbatch out
    rw [if_neg (by omega)]
    simp only [hcount]
    by_cases hcut : Accepts cfg s (cut cfg s) ∨ s.sentKeys = 0
    · have hcont : SendsFrame cfg s := ⟨hrest, hkeys, hcut⟩
      have hshorter := hcont.shorter
      rw [if_pos hcut] at hfit
      rw [run_bind_ok hfit]
      rcases ih (s := behindFrame cfg s) (h.sublist (List.drop_subset _ _)) (hcont.intSized hint)
        (by omega) (lastOr cursor (nextFrame cfg s)) (out ++ [hasPayload (nextFrame cfg s)])
        with ⟨hover, hfails⟩ | ⟨hover, frames, left, hsends, hrun⟩
      · exact .inl ⟨.later hcont hover, hfails⟩
      · refine .inr ⟨?_, nextFrame cfg s :: frames, left, .frame hcont hsends, hrun.trans ?_⟩
        · intro hc
          cases hc with
          | here _ _ hout => exact hout hindex
          | later _ hnext => exact hover hnext
        · simp only [behindFrame, Position.skip, List.flatten_cons, lastOr_append,
            List.length_append, hcont.length, framesLength_cons, List.map_cons,
            List.append_assoc, List.cons_append, List.nil_append, Nat.add_assoc]
    · rw [if_neg hcut] at hfit
      rw [run_bind_ok hfit]
      obtain ⟨hnot, hsent⟩ := not_or.mp hcut
      obtain ⟨_, hover⟩ := over_of_not_accepts h hrest hkeys hnot
      refine .inr ⟨?_, [], s.rest, .bytesSpent hrest hkeys (by omega) hover,
        by simp [hrest, pure, EStateM.pure]⟩
      intro hc
      cases hc with
      | here _ _ hout => exact hout hindex
      | later hcont _ => exact hcut hcont.accepts

namespace Sends

variable (h : Sends cfg s frames left)
include h

theorem eq_append : s.rest = frames.flatten ++ left := by
  induction h with
  | done hrest => exact hrest
  | keysSpent | bytesSpent => rfl
  | frame _ _ ih =>
    rw [List.flatten_cons, List.append_assoc, ← ih]
    exact (List.take_append_drop _ _).symm

/-- A loop that starts with nothing sent sends something. -/
theorem sends_some (hzero : s.sentKeys = 0) (hrest : s.rest ≠ []) :
    frames.flatten ≠ [] := by
  cases h with
  | done hnil => exact absurd hnil hrest
  | keysSpent _ hspent =>
    unfold KeysSpent at hspent
    omega
  | bytesSpent _ _ hsent _ => omega
  | frame hcont _ =>
    rw [List.flatten_cons]
    intro hnil
    exact hcont.ne_nil (List.append_eq_nil_iff.mp hnil).1

theorem unlimited (hkeys : cfg.budget.maxKeys ≤ 0) (hbytes : cfg.budget.maxBytes ≤ 0) :
    left = [] := by
  induction h with
  | done => rfl
  | keysSpent _ hspent =>
    unfold KeysSpent at hspent
    omega
  | bytesSpent _ _ _ hover =>
    unfold OverBudget at hover
    omega
  | frame _ _ ih => exact ih

/-- Every frame can be sent. -/
theorem frame_fits (hadv : Advertisable cfg s.rest) :
    ∀ frame ∈ frames, frame ≠ [] ∧ (frame.length : Int) ≤ inventoryBatchSize cfg.limits ∧
      (hasLength frame : Int) ≤ cfg.maxPayload := by
  induction h with
  | done | keysSpent | bytesSpent => simp
  | @frame s frames left hcont _ ih =>
    intro frame hframe
    rcases List.mem_cons.mp hframe with rfl | hframe
    · refine ⟨hcont.ne_nil, by rw [hcont.length]; exact hcont.bounds.2.2, ?_⟩
      by_cases haccepts : Accepts cfg s (cut cfg s)
      · exact haccepts.1
      · unfold nextFrame
        rw [(over_of_not_accepts hadv hcont.rest hcont.keys haccepts).1]
        exact hadv.single hcont.rest
    · exact ih (hadv.sublist (List.drop_subset _ _)) frame hframe

end Sends

/-! ### Budgets -/

/-- What frames spend that are sent after so many keys and bytes.  The byte budget is
passed by one key alone, sent before anything else; nothing follows it. -/
structure WithinBudget (cfg : Config) (sentKeys sentBytes : Nat)
    (frames : List (List Bytes)) : Prop where
  keys : 0 < cfg.budget.maxKeys → (sentKeys : Int) ≤ cfg.budget.maxKeys →
    ((sentKeys + frames.flatten.length : Nat) : Int) ≤ cfg.budget.maxKeys
  bytes : 0 < cfg.budget.maxBytes → (sentBytes : Int) ≤ cfg.budget.maxBytes →
    ((sentBytes + framesLength frames : Nat) : Int) ≤ cfg.budget.maxBytes ∨
      sentKeys = 0 ∧ ∃ key, frames = [[key]]
  overspent : 0 < cfg.budget.maxBytes → (sentBytes : Int) > cfg.budget.maxBytes →
    0 < sentKeys → frames = []

theorem WithinBudget.nil (cfg : Config) (sentKeys sentBytes : Nat) :
    WithinBudget cfg sentKeys sentBytes [] where
  keys _ h := by simpa using h
  bytes _ h := .inl (by simpa using h)
  overspent _ _ _ := rfl

theorem framesLength_append (frames more : List (List Bytes)) :
    framesLength (frames ++ more) = framesLength frames + framesLength more := by
  simp [framesLength]

/-- Frames that follow others within the budget. -/
theorem WithinBudget.append {sentKeys sentBytes : Nat} {more : List (List Bytes)}
    (h : WithinBudget cfg sentKeys sentBytes frames) (hsome : 0 < frames.flatten.length)
    (hmore : WithinBudget cfg (sentKeys + frames.flatten.length)
      (sentBytes + framesLength frames) more) :
    WithinBudget cfg sentKeys sentBytes (frames ++ more) where
  keys := by
    intro hpos hsent
    have hall := hmore.keys hpos (h.keys hpos hsent)
    rw [List.flatten_append, List.length_append]
    omega
  bytes := by
    intro hpos hsent
    by_cases hfits : ((sentBytes + framesLength frames : Nat) : Int) ≤ cfg.budget.maxBytes
    · rcases hmore.bytes hpos hfits with hall | ⟨hzero, _⟩
      · rw [framesLength_append]
        exact .inl (by omega)
      · omega
    · -- the key that passed the budget stays alone
      have hnone := hmore.overspent hpos (not_le.mp hfits) (by omega)
      rw [hnone, List.append_nil]
      exact .inr ((h.bytes hpos hsent).resolve_left hfits)
  overspent := by
    intro hpos hover hsent
    rw [h.overspent hpos hover hsent] at hsome
    simp at hsome

/-- One frame of the middle loop. -/
theorem SendsFrame.withinBudget (h : SendsFrame cfg s) (hadv : Advertisable cfg s.rest) :
    WithinBudget cfg s.sentKeys s.sentBytes [nextFrame cfg s] := by
  have hlength := h.length
  have hkeys := h.keys
  have hsingle : ¬Accepts cfg s (cut cfg s) →
      s.sentKeys = 0 ∧ ∃ key, [nextFrame cfg s] = [[key]] := by
    intro hnot
    refine ⟨h.accepts.resolve_left hnot, ?_⟩
    rw [(over_of_not_accepts hadv h.rest hkeys hnot).1] at hlength
    obtain ⟨key, hkey⟩ := List.length_eq_one_iff.mp hlength
    exact ⟨key, by rw [hkey]⟩
  have hroom : Accepts cfg s (cut cfg s) → 0 < cfg.budget.maxBytes →
      ((s.sentBytes + hasLength (nextFrame cfg s) : Nat) : Int) ≤ cfg.budget.maxBytes :=
    fun haccepts hpos => not_lt.mp fun hc => haccepts.2 ⟨hpos, hc⟩
  refine ⟨?_, ?_, ?_⟩
  · intro hpos _
    have hle : cut cfg s ≤ frameKeys cfg s := halve_le _ _
    have hbudget : (frameKeys cfg s : Int) ≤ cfg.budget.maxKeys - s.sentKeys := by
      unfold KeysSpent at hkeys
      unfold frameKeys
      simp only
      split
      · omega
      · omega
    rw [List.flatten_singleton, hlength]
    omega
  · intro hpos _
    by_cases haccepts : Accepts cfg s (cut cfg s)
    · exact .inl (hroom haccepts hpos)
    · exact .inr (hsingle haccepts)
  · intro hpos hover hsent
    by_cases haccepts : Accepts cfg s (cut cfg s)
    · have := hroom haccepts hpos
      omega
    · have := (hsingle haccepts).1
      omega

theorem Sends.withinBudget (h : Sends cfg s frames left) (hadv : Advertisable cfg s.rest) :
    WithinBudget cfg s.sentKeys s.sentBytes frames := by
  induction h with
  | done | keysSpent | bytesSpent => exact .nil cfg _ _
  | @frame s frames left hcont _ ih =>
    have hlength : [nextFrame cfg s].flatten.length = cut cfg s := by
      rw [List.flatten_singleton, hcont.length]
    have hbounds := hcont.bounds
    refine (hcont.withinBudget hadv).append (by omega) ?_
    rw [hlength]
    exact ih (hadv.sublist (List.drop_subset _ _))

end MiddleLoop

/-! ## Pages -/

/-- The frames of a page when only the frame bound cuts them. -/
def split (cfg : Config) : Nat → List Bytes → List (List Bytes)
  | 0, _ => []
  | fuel + 1, rest =>
    if rest = [] then []
    else
      let m := halve (FrameFits cfg rest) rest.length rest.length
      rest.take m :: split cfg fuel (rest.drop m)

def pageFrames (cfg : Config) (page : List Bytes) : List (List Bytes) :=
  split cfg page.length page

/-- The bytes that a page takes. -/
def pageLength (cfg : Config) (page : List Bytes) : Nat := framesLength (pageFrames cfg page)

/-- The byte budget has room for the whole page; a page of one key is sent in any
case when nothing was sent before. -/
def PageFits (cfg : Config) (s : Position) : Prop :=
  s.rest = [] ∨ ¬OverBudget cfg s.sentBytes (pageLength cfg s.rest) ∨
    s.sentKeys = 0 ∧ s.rest.length = 1

/-- The page is within the batch size and the key budget. -/
structure IsPage (cfg : Config) (s : Position) : Prop where
  batch : (s.rest.length : Int) ≤ inventoryBatchSize cfg.limits
  keys : 0 < cfg.budget.maxKeys → (s.rest.length : Int) ≤ cfg.budget.maxKeys - s.sentKeys

/-- The keys of the first frame of a page. -/
def pageCut (cfg : Config) (rest : List Bytes) : Nat :=
  halve (FrameFits cfg rest) rest.length rest.length

section PageFrames

variable {cfg : Config} {rest : List Bytes}

theorem pageCut_bounds (cfg : Config) (hrest : rest ≠ []) :
    0 < pageCut cfg rest ∧ pageCut cfg rest ≤ rest.length :=
  ⟨halve_pos _ (List.length_pos_iff.mpr hrest), halve_le _ _⟩

theorem frameFits_pageCut (h : Advertisable cfg rest) (hrest : rest ≠ []) :
    FrameFits cfg rest (pageCut cfg rest) := by
  have hpos : 0 < rest.length := List.length_pos_iff.mpr hrest
  have haccepts : FrameFits cfg rest (pageCut cfg rest) ∨ pageCut cfg rest = 1 :=
    halve_accepts (Nat.le_refl _) hpos
  rcases haccepts with haccepts | hone
  · exact haccepts
  · rw [hone]
    exact h.single hrest

theorem split_fuel {fuel other : Nat} (hfuel : rest.length ≤ fuel)
    (hother : rest.length ≤ other) : split cfg fuel rest = split cfg other rest := by
  induction fuel generalizing rest other with
  | zero =>
    have hnil : rest = [] := List.eq_nil_of_length_eq_zero (by omega)
    subst hnil
    cases other <;> simp [split]
  | succ fuel ih =>
    by_cases hrest : rest = []
    · subst hrest
      cases other <;> simp [split]
    · have hcut := pageCut_bounds cfg hrest
      obtain ⟨other, rfl⟩ : ∃ k, other = k + 1 := ⟨other - 1, by omega⟩
      have hrec : split cfg fuel (rest.drop (pageCut cfg rest)) =
          split cfg other (rest.drop (pageCut cfg rest)) := by
        apply ih
        · rw [List.length_drop]
          omega
        · rw [List.length_drop]
          omega
      unfold pageCut at hrec
      simp only [split, if_neg hrest, hrec]

theorem pageFrames_eq (hrest : rest ≠ []) :
    pageFrames cfg rest =
      rest.take (pageCut cfg rest) :: pageFrames cfg (rest.drop (pageCut cfg rest)) := by
  have hcut := pageCut_bounds cfg hrest
  obtain ⟨fuel, hlength⟩ : ∃ k, rest.length = k + 1 := ⟨rest.length - 1, by omega⟩
  have hunfold : pageFrames cfg rest = rest.take (pageCut cfg rest) ::
      split cfg fuel (rest.drop (pageCut cfg rest)) := by
    unfold pageFrames
    rw [hlength, split, if_neg hrest]
    rfl
  rw [hunfold]
  congr 1
  exact split_fuel (by rw [List.length_drop]; omega) (Nat.le_refl _)

@[simp] theorem pageLength_nil : pageLength cfg [] = 0 := rfl

theorem pageLength_eq (hrest : rest ≠ []) :
    pageLength cfg rest = hasLength (rest.take (pageCut cfg rest)) +
      pageLength cfg (rest.drop (pageCut cfg rest)) := by
  unfold pageLength
  rw [pageFrames_eq hrest, framesLength_cons]

end PageFrames

section Pages

variable {cfg : Config} {s : Position} {left : List Bytes} {frames : List (List Bytes)}

theorem IsPage.behindFrame (h : IsPage cfg s) (hcont : SendsFrame cfg s) :
    IsPage cfg (behindFrame cfg s) := by
  have hbounds := hcont.bounds
  have hbatch := h.batch
  have hlength : (Replication.behindFrame cfg s).rest.length = s.rest.length - cut cfg s :=
    List.length_drop
  refine ⟨by omega, fun hpos => ?_⟩
  have := h.keys hpos
  show _ ≤ cfg.budget.maxKeys - ((s.sentKeys + cut cfg s : Nat) : Int)
  omega

theorem IsPage.not_spent (h : IsPage cfg s) (hrest : s.rest ≠ []) :
    ¬KeysSpent cfg s.sentKeys := by
  have hpos : 0 < s.rest.length := List.length_pos_iff.mpr hrest
  intro ⟨hmax, hspent⟩
  have := h.keys hmax
  omega

theorem IsPage.cut_eq (h : IsPage cfg s) :
    cut cfg s = halve (Accepts cfg s) s.rest.length s.rest.length := by
  have hbatch := h.batch
  have hkeys := h.keys
  have hall : frameKeys cfg s = s.rest.length := by
    unfold frameKeys
    simp only
    split <;> omega
  unfold cut
  rw [hall]

/-- If the budget has room for the first frame of the page, it is sent uncut. -/
theorem IsPage.cut_eq_pageCut (h : IsPage cfg s) (hadv : Advertisable cfg s.rest)
    (hrest : s.rest ≠ [])
    (hroom : ¬OverBudget cfg s.sentBytes (hasLength (s.rest.take (pageCut cfg s.rest)))) :
    cut cfg s = pageCut cfg s.rest := by
  rw [h.cut_eq]
  apply halve_eq_of_implies (fun n hn => hn.1)
  exact ⟨frameFits_pageCut hadv hrest, hroom⟩

/-- The frames of a loop that sends everything are together no shorter than one
frame of all keys. -/
theorem Sends.hasLength_le (h : Sends cfg s frames left) (hrest : s.rest ≠ [])
    (hleft : left = []) : hasLength s.rest ≤ framesLength frames := by
  induction h with
  | done hnil => exact absurd hnil hrest
  | keysSpent | bytesSpent => exact absurd hleft hrest
  | @frame s frames left hcont _ ih =>
    rw [framesLength_cons]
    have hsplit : nextFrame cfg s ++ (behindFrame cfg s).rest = s.rest :=
      List.take_append_drop _ _
    by_cases hdrop : (behindFrame cfg s).rest = []
    · rw [hdrop, List.append_nil] at hsplit
      rw [hsplit]
      omega
    · have hrec := ih hdrop hleft
      have happend := hasLength_append_le hcont.ne_nil hdrop
      rw [hsplit] at happend
      omega

/-- What remains of a page after a frame, when the whole page has been sent. -/
theorem Sends.complete_frame (hadv : Advertisable cfg s.rest) (hpage : IsPage cfg s)
    (hcont : SendsFrame cfg s) (hnext : Sends cfg (behindFrame cfg s) frames [])
    (hfits : PageFits cfg (behindFrame cfg s))
    (hlength : framesLength frames = pageLength cfg (behindFrame cfg s).rest) :
    PageFits cfg s ∧
      hasLength (nextFrame cfg s) + framesLength frames = pageLength cfg s.rest := by
  have hbounds := hcont.bounds
  have hcut := pageCut_bounds cfg hcont.rest
  by_cases haccepts : Accepts cfg s (cut cfg s)
  · -- the budget has room for everything, so the frames are those of the page
    have hall : ¬OverBudget cfg s.sentBytes
        (hasLength (nextFrame cfg s) + framesLength frames) := by
      rcases hfits with hnil | hroom | ⟨hzero, _⟩
      · rw [hlength, hnil, pageLength_nil, Nat.add_zero]
        exact haccepts.2
      · rw [hlength]
        unfold OverBudget at hroom ⊢
        rwa [← Nat.add_assoc]
      · change s.sentKeys + cut cfg s = 0 at hzero
        omega
    have hlong := (Sends.frame hcont hnext).hasLength_le hcont.rest rfl
    rw [framesLength_cons] at hlong
    have hfirst := hasLength_take_le s.rest hcut.1 hcut.2
    rw [List.take_length] at hfirst
    have heq : cut cfg s = pageCut cfg s.rest := by
      apply hpage.cut_eq_pageCut hadv hcont.rest
      unfold OverBudget at hall ⊢
      omega
    have htotal : hasLength (nextFrame cfg s) + framesLength frames = pageLength cfg s.rest := by
      rw [pageLength_eq hcont.rest, hlength, ← heq]
      rfl
    exact ⟨.inr (.inl (htotal ▸ hall)), htotal⟩
  · -- a single key was sent over the budget, so nothing can follow it
    obtain ⟨hone, hover⟩ := over_of_not_accepts hadv hcont.rest hcont.keys haccepts
    have hdrop : (behindFrame cfg s).rest = [] := by
      rcases hfits with hnil | hroom | ⟨hzero, _⟩
      · exact hnil
      · exfalso
        change ¬OverBudget cfg (s.sentBytes + hasLength (s.rest.take (cut cfg s))) _ at hroom
        rw [hone] at hroom
        unfold OverBudget at hroom hover
        omega
      · change s.sentKeys + cut cfg s = 0 at hzero
        omega
    have hlen : s.rest.length ≤ cut cfg s := List.drop_eq_nil_iff.mp hdrop
    refine ⟨.inr (.inr ⟨hcont.accepts.resolve_left haccepts, by omega⟩), ?_⟩
    have heq : cut cfg s = pageCut cfg s.rest := by omega
    rw [pageLength_eq hcont.rest, hlength, ← heq]
    rfl

/-- A page is sent to its end exactly if the byte budget has room for it, and then
its frames are cut by the frame bound alone. -/
theorem Sends.complete_iff (h : Sends cfg s frames left) (hadv : Advertisable cfg s.rest)
    (hpage : IsPage cfg s) :
    (left = [] ↔ PageFits cfg s) ∧ (left = [] → framesLength frames = pageLength cfg s.rest) := by
  induction h with
  | done hnil => exact ⟨⟨fun _ => .inl hnil, fun _ => rfl⟩, fun _ => by rw [hnil]; rfl⟩
  | keysSpent hrest hspent => exact absurd hspent (hpage.not_spent hrest)
  | @bytesSpent s hrest _ hsent hover =>
    have hnot : ¬PageFits cfg s := by
      intro hfits
      rcases hfits with hnil | hroom | hsingle
      · exact hrest hnil
      · have hfirst := hasLength_take_le s.rest Nat.one_pos (pageCut_bounds cfg hrest).1
        rw [pageLength_eq hrest] at hroom
        unfold OverBudget at hroom hover
        omega
      · omega
    exact ⟨⟨fun hnil => absurd hnil hrest, fun hfits => absurd hfits hnot⟩,
      fun hnil => absurd hnil hrest⟩
  | @frame s frames left hcont hnext ih =>
    obtain ⟨hiff, hlength⟩ := ih (hadv.sublist (List.drop_subset _ _))
      (hpage.behindFrame hcont)
    have hforward : left = [] → PageFits cfg s ∧
        hasLength (nextFrame cfg s) + framesLength frames = pageLength cfg s.rest := by
      intro hleft
      have hfits := hiff.mp hleft
      have hlen := hlength hleft
      subst hleft
      exact Sends.complete_frame hadv hpage hcont hnext hfits hlen
    refine ⟨⟨fun hleft => (hforward hleft).1, ?_⟩, fun hleft => ?_⟩
    · intro hfits
      apply hiff.mpr
      rcases hfits with hnil | hroom | ⟨_, hlen⟩
      · exact absurd hnil hcont.rest
      · rw [pageLength_eq hcont.rest] at hroom
        have heq : cut cfg s = pageCut cfg s.rest := by
          apply hpage.cut_eq_pageCut hadv hcont.rest
          unfold OverBudget at hroom ⊢
          omega
        refine .inr (.inl ?_)
        rw [← heq] at hroom
        change ¬OverBudget cfg (s.sentBytes + hasLength (s.rest.take (cut cfg s)))
          (pageLength cfg (s.rest.drop (cut cfg s)))
        unfold OverBudget at hroom ⊢
        omega
      · left
        apply List.drop_eq_nil_of_le
        have := hcont.bounds
        omega
    · rw [framesLength_cons]
      exact (hforward hleft).2

/-- A page of which nothing is sent is one that starts with a key that the byte
budget has no room for. -/
theorem Sends.nothing_iff (h : Sends cfg s frames left) (hpage : IsPage cfg s)
    (hrest : s.rest ≠ []) :
    frames = [] ↔ 0 < s.sentKeys ∧ OverBudget cfg s.sentBytes (hasLength (s.rest.take 1)) := by
  cases h with
  | done hnil => exact absurd hnil hrest
  | keysSpent _ hspent => exact absurd hspent (hpage.not_spent hrest)
  | bytesSpent _ _ hsent hover => exact ⟨fun _ => ⟨hsent, hover⟩, fun _ => rfl⟩
  | frame hcont _ =>
    constructor
    · intro hnil
      cases hnil
    · intro ⟨hsent, hover⟩
      exfalso
      have hroom := (hcont.accepts.resolve_right (by omega)).2
      have hfirst := hasLength_take_le s.rest Nat.one_pos hcont.bounds.1
      unfold OverBudget at hroom hover
      omega

end Pages

end StreamHive.Replication

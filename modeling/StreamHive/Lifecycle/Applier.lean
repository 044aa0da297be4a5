import StreamHive.Lifecycle.Compaction

/-!
# The applier

`Applier.apply` and `Applier.applySnapshot` update three stores in turn: the raw
blobs, the journal and the logical state.  An error may stop them after any of
the three.  The case lemmas say what each call does in terms of the journal
operation it makes.

## Main results

* `Applier.apply_cases`, `Applier.applySnapshot_cases` — what one call can do;
* `Applier.apply_soft`, `Applier.applySnapshot_soft` — the same when the disk works.
-/

namespace StreamHive.Lifecycle

open Verified ByteString Effect FileSystem Log

variable {S : Stdlib}

/-! ## The program -/

def lifecycleCapabilityV1 : String := "lifecycle.v1"

def hasLifecycleCapability (capabilities : List String) : Bool :=
  capabilities.any fun capability => capability == lifecycleCapabilityV1

/-- The contents of a blob store. -/
abbrev Blobs := Bytes → Option Bytes

/-- The parts that an applier works on; `blobs` is `none` for a nil store. -/
structure Applier where
  fs : FS
  journal : Journal
  store : Store
  blobs : Option Blobs
  limits : Limits

/-- Run a journal operation on the applier's journal. -/
def onJournal {α : Type} (x : EStateM Error (OnDisk Journal) α) :
    EStateM Error Applier α :=
  zoom (fun a => ⟨a.fs, a.journal⟩) (fun a d => { a with fs := d.fs, journal := d.obj }) x

variable (S)

/-- `VerifySHA256Key` -/
def verifySHA256Key (key data : Bytes) : Except Error Unit :=
  if key.length ≠ sha256Size then
    .error .invalidSHA256Key
  else if key ≠ S.sha256 data then
    .error .sha256Mismatch
  else
    .ok ()

/-- `blobs.Get`, with the error of the caller for a missing blob. -/
def getBlob {σ : Type} (o : Oracle) (blobs : Blobs) (key : Bytes) :
    EStateM Error σ Bytes := do
  syscall o .blobGet
  match blobs key with
  | none => throw (.joined .lifecycleBlobMissing .blobNotFound)
  | some data => pure data

namespace Applier

/-- `blobs.Put`; a failing call may have stored the blob. -/
def putBlob (o : Oracle) (blobs : Blobs) (key data : Bytes) : EStateM Error Applier Unit :=
  match o .blobPut with
  | .proceed => modify fun a => { a with blobs := some (Function.update blobs key data) }
  | .fail stored => do
    modify fun a => if stored = 0 then a else
      { a with blobs := some (Function.update blobs key data) }
    throw (.io .blobPut)
  | .crash stored => do
    modify fun a => if stored = 0 then a else
      { a with blobs := some (Function.update blobs key data) }
    throw .crash

/-- Check that a blob is available; store the supplied one first. -/
def ensureBlob (o : Oracle) (key : Bytes) (suppliedBlob : Option Bytes) :
    EStateM Error Applier Unit := do
  let a ← get
  match a.blobs with
  | none => throw .nilApplierBlobStore
  | some blobs =>
    match suppliedBlob with
    | none => do
      let data ← getBlob o blobs key
      attempt (verifySHA256Key S key data)
    | some data => do
      attempt (verifySHA256Key S key data)
      putBlob o blobs key data

/-- `state.Apply`, publishing the record. -/
def publish (record : Record) : EStateM Error Applier ApplyResult := do
  let a ← get
  let (result, store) ← attempt (a.store.apply S record)
  set { a with store := store }
  pure result

/-- A present record needs its blob. -/
def ensureRecord (o : Oracle) (record : Record) (suppliedBlob : Option Bytes) :
    EStateM Error Applier Unit :=
  if record.state = .present then
    ensureBlob S o record.blobKey suppliedBlob
  else
    pure ()

/-- Verify capability and blob durability, append to the journal, then publish. -/
def apply (S : Stdlib) (F : Faults) (i : Nat) (capabilities : List String)
    (record : Record) (suppliedBlob : Option Bytes) :
    EStateM Error Applier ApplyResult := do
  ctxErr (F (.apply i)) 0
  raiseIf (hasLifecycleCapability capabilities = false) .lifecycleCapabilityRequired
  let a ← get
  attempt (record.validate S a.limits)
  let classification ← attempt (a.store.classify S record)
  if classification.outcome ≠ .applied then
    pure classification
  else do
    ensureRecord S (F (.blob i)) record suppliedBlob
    onJournal (Journal.append S (F (.append i)) record)
    publish S record

/-- Verify every referenced blob, install the checkpoint, then publish it. -/
def applySnapshot (F : Faults) (capabilities : List String) (snapshot : Checkpoint)
    (checkpointPath : String) : EStateM Error Applier Unit := do
  ctxErr (F (.apply 0)) 0
  raiseIf (hasLifecycleCapability capabilities = false) .lifecycleCapabilityRequired
  raiseIf (checkpointPath = "") .nilCheckpointPath
  let a ← get
  let normalized ← attempt (normalizeCheckpoint S snapshot a.limits)
  forEach (fun i record => ensureRecord S (F (.blob i)) record none) 0 normalized.records
  onJournal (Journal.installSnapshot S F checkpointPath normalized)
  let a ← get
  let store ← attempt (a.store.replaceSnapshot S normalized.records)
  set { a with store := store }

end Applier

/-! ## Blobs -/

/-- The blob store holds bytes that hash to the key. -/
def HoldsKey (blobs : Option Blobs) (key : Bytes) : Prop :=
  ∃ b data, blobs = some b ∧ b key = some data ∧ S.sha256 data = key

/-- The blob store holds what the record refers to. -/
def HoldsBlob (blobs : Option Blobs) (r : Record) : Prop :=
  r.state = .present → HoldsKey S blobs r.blobKey

/-- No key that was held is lost. -/
def BlobsKept (blobs blobs' : Option Blobs) : Prop :=
  ∀ key, HoldsKey S blobs key → HoldsKey S blobs' key

theorem BlobsKept.refl (blobs : Option Blobs) : BlobsKept S blobs blobs :=
  fun _ h => h

variable {S}

theorem HoldsBlob.kept {b b' : Option Blobs} {r : Record} (h : HoldsBlob S b r)
    (hk : BlobsKept S b b') : HoldsBlob S b' r :=
  fun hp => hk _ (h hp)

theorem verifySHA256Key_eq_ok {key data : Bytes} :
    verifySHA256Key S key data = .ok () ↔ key.length = sha256Size ∧ S.sha256 data = key := by
  unfold verifySHA256Key
  simp only [except_guard_ok, not_not]
  constructor
  · rintro ⟨hlen, heq, _⟩
    exact ⟨hlen, heq.symm⟩
  · rintro ⟨hlen, heq⟩
    exact ⟨hlen, heq.symm, trivial⟩

theorem holdsKey_update {key data : Bytes} (h : S.sha256 data = key) (b : Blobs) :
    HoldsKey S (some (Function.update b key data)) key :=
  ⟨_, data, rfl, by simp, h⟩

theorem blobsKept_update {key data : Bytes} (h : S.sha256 data = key) (b : Blobs) :
    BlobsKept S (some b) (some (Function.update b key data)) := by
  rintro key' ⟨b', data', hb, hdata, hsum⟩
  cases hb
  by_cases hk : key' = key
  · rw [hk]
    exact holdsKey_update h b
  · refine ⟨_, data', rfl, ?_, hsum⟩
    rw [Function.update_of_ne hk]
    exact hdata

namespace Applier

/-- The applier with another blob store. -/
def withBlobs (a : Applier) (blobs : Option Blobs) : Applier := { a with blobs := blobs }

theorem putBlob_cases (o : Oracle) {a : Applier} {b : Blobs} (hb : a.blobs = some b)
    {key data : Bytes} (hsum : S.sha256 data = key) :
    (∃ e blobs', putBlob o b key data a = .error e (a.withBlobs blobs') ∧
        BlobsKept S a.blobs blobs') ∨
      (putBlob o b key data a =
        .ok () (a.withBlobs (some (Function.update b key data)))) := by
  have hkept : BlobsKept S a.blobs (some (Function.update b key data)) := by
    rw [hb]
    exact blobsKept_update hsum b
  have hstored : ∀ stored : Nat, ∃ blobs', (if stored = 0 then a else
      { a with blobs := some (Function.update b key data) }) = a.withBlobs blobs' ∧
        BlobsKept S a.blobs blobs' := by
    intro stored
    split
    · exact ⟨a.blobs, rfl, BlobsKept.refl S a.blobs⟩
    · exact ⟨_, rfl, hkept⟩
  unfold putBlob
  cases o .blobPut with
  | proceed => exact .inr rfl
  | fail stored =>
    obtain ⟨blobs', heq, hk⟩ := hstored stored
    refine .inl ⟨.io .blobPut, blobs', ?_, hk⟩
    rw [← heq]
    rfl
  | crash stored =>
    obtain ⟨blobs', heq, hk⟩ := hstored stored
    refine .inl ⟨.crash, blobs', ?_, hk⟩
    rw [← heq]
    rfl

/-- Ensuring a blob changes nothing but the blob store, and nothing at all when
no blob is supplied; on success the store holds the blob. -/
theorem ensureBlob_cases (S : Stdlib) (o : Oracle) (key : Bytes)
    (suppliedBlob : Option Bytes) (a : Applier) :
    (∃ e blobs', ensureBlob S o key suppliedBlob a = .error e (a.withBlobs blobs') ∧
        BlobsKept S a.blobs blobs' ∧ (suppliedBlob = none → blobs' = a.blobs)) ∨
      (∃ blobs', ensureBlob S o key suppliedBlob a = .ok () (a.withBlobs blobs') ∧
        BlobsKept S a.blobs blobs' ∧ (suppliedBlob = none → blobs' = a.blobs) ∧
        HoldsKey S blobs' key) := by
  unfold ensureBlob
  rw [run_bind_get]
  cases hb : a.blobs with
  | none =>
    have hsame : a.withBlobs none = a := by rw [← hb]; rfl
    refine .inl ⟨.nilApplierBlobStore, none, ?_, BlobsKept.refl S none, fun _ => rfl⟩
    rw [hsame]
    rfl
  | some b =>
  have hsame : a.withBlobs (some b) = a := by rw [← hb]; rfl
  have hkeep := BlobsKept.refl S (some b)
  cases suppliedBlob with
  | none =>
    rcases syscall_cases o .blobGet a with ⟨_, e, he⟩ | ⟨_, hx⟩
    · refine .inl ⟨e, some b, ?_, hkeep, fun _ => rfl⟩
      rw [hsame]
      exact run_bind_error (run_bind_error he)
    cases hdata : b key with
    | none =>
      refine .inl ⟨.joined .lifecycleBlobMissing .blobNotFound, some b, ?_, hkeep,
        fun _ => rfl⟩
      rw [hsame]
      apply run_bind_error
      unfold getBlob
      rw [run_bind_ok hx, hdata]
      rfl
    | some data =>
      have hget : getBlob o b key a = .ok data a := by
        unfold getBlob
        rw [run_bind_ok hx, hdata]
        rfl
      cases hverify : verifySHA256Key S key data with
      | error e =>
        refine .inl ⟨e, some b, ?_, hkeep, fun _ => rfl⟩
        rw [hsame]
        refine (run_bind_ok hget).trans ?_
        exact run_attempt_error hverify
      | ok _ =>
        refine .inr ⟨some b, ?_, hkeep, fun _ => rfl, b, data, rfl, hdata,
          (verifySHA256Key_eq_ok.mp hverify).2⟩
        rw [hsame]
        refine (run_bind_ok hget).trans ?_
        exact run_attempt hverify
  | some data =>
    cases hverify : verifySHA256Key S key data with
    | error e =>
      refine .inl ⟨e, some b, ?_, hkeep, nofun⟩
      rw [hsame]
      exact run_bind_error (run_attempt_error hverify)
    | ok _ =>
      have hsum := (verifySHA256Key_eq_ok.mp hverify).2
      rcases putBlob_cases o hb hsum with ⟨e, blobs', hrun, hk⟩ | hrun
      · rw [hb] at hk
        refine .inl ⟨e, blobs', ?_, hk, nofun⟩
        refine (run_bind_ok (run_attempt hverify)).trans ?_
        exact hrun
      · refine .inr ⟨_, ?_, blobsKept_update hsum b, nofun, holdsKey_update hsum b⟩
        refine (run_bind_ok (run_attempt hverify)).trans ?_
        exact hrun

theorem ensureRecord_cases (S : Stdlib) (o : Oracle) (record : Record)
    (suppliedBlob : Option Bytes) (a : Applier) :
    (∃ e blobs', ensureRecord S o record suppliedBlob a = .error e (a.withBlobs blobs') ∧
        BlobsKept S a.blobs blobs' ∧ (suppliedBlob = none → blobs' = a.blobs)) ∨
      (∃ blobs', ensureRecord S o record suppliedBlob a = .ok () (a.withBlobs blobs') ∧
        BlobsKept S a.blobs blobs' ∧ (suppliedBlob = none → blobs' = a.blobs) ∧
        HoldsBlob S blobs' record) := by
  unfold ensureRecord
  by_cases hp : record.state = .present
  · rw [if_pos hp]
    rcases ensureBlob_cases S o record.blobKey suppliedBlob a with herr |
      ⟨blobs', hrun, hk, hn, hholds⟩
    · exact .inl herr
    · exact .inr ⟨blobs', hrun, hk, hn, fun _ => hholds⟩
  · rw [if_neg hp]
    exact .inr ⟨a.blobs, rfl, BlobsKept.refl S a.blobs, fun _ => rfl,
      fun h => absurd h hp⟩

/-! ## Single calls -/

/-- The applier after a journal operation. -/
def withJournal (a : Applier) (d : OnDisk Journal) : Applier :=
  { a with fs := d.fs, journal := d.obj }

/-- The applier after a record has been stored under its key. -/
def published (a : Applier) (record : Record) : Applier :=
  { a with store := { a.store with records := a.store.records.put record } }

/-- Publishing a record that is news puts it into the store. -/
theorem publish_news {record : Record} {a : Applier} {result : ApplyResult}
    (hclass : a.store.classify S record = .ok result) (happlied : result.outcome = .applied) :
    publish S record a = .ok result (a.published record) := by
  have hnewer := Store.newer_of_classify hclass happlied
  have hput := Store.apply_newer (Store.valid_of_classify hclass) hnewer
  have hresult := Store.classify_eq (Store.valid_of_classify hclass)
  rw [hclass, Store.classifyRecord_newer hnewer] at hresult
  cases hresult
  unfold publish
  refine run_bind_get.trans ?_
  exact run_bind_ok (run_attempt hput)

variable (S)

/-- A call to `apply` fails before the journal, finds nothing to do, or makes one
append: if the append fails so does the call, else the record is published. -/
theorem apply_cases (F : Faults) (i : Nat) (capabilities : List String) (record : Record)
    (suppliedBlob : Option Bytes) (a : Applier) :
    (∃ e blobs', apply S F i capabilities record suppliedBlob a =
        .error e (a.withBlobs blobs') ∧ BlobsKept S a.blobs blobs') ∨
      (∃ result, apply S F i capabilities record suppliedBlob a = .ok result a ∧
        a.store.classify S record = .ok result ∧ result.outcome ≠ .applied) ∨
      (∃ result blobs', a.store.classify S record = .ok result ∧
        result.outcome = .applied ∧ BlobsKept S a.blobs blobs' ∧
        HoldsBlob S blobs' record ∧
        ((∃ e d, Journal.append S (F (.append i)) record ⟨a.fs, a.journal⟩ = .error e d ∧
            apply S F i capabilities record suppliedBlob a =
              .error e ((a.withBlobs blobs').withJournal d)) ∨
          (∃ d, Journal.append S (F (.append i)) record ⟨a.fs, a.journal⟩ = .ok () d ∧
            apply S F i capabilities record suppliedBlob a =
              .ok result (((a.withBlobs blobs').withJournal d).published record)))) := by
  have hkeep := BlobsKept.refl S a.blobs
  unfold apply
  rcases ctxErr_cases (F (.apply i)) 0 a with ⟨_, e, he⟩ | ⟨_, hx⟩
  · exact .inl ⟨e, a.blobs, run_bind_error he, hkeep⟩
  rw [run_bind_ok hx]
  by_cases hcap : hasLifecycleCapability capabilities = false
  · exact .inl ⟨_, a.blobs, run_bind_error (run_raiseIf_error hcap), hkeep⟩
  rw [run_bind_ok (run_raiseIf hcap), run_bind_get]
  cases hvalid : record.validate S a.limits with
  | error e => exact .inl ⟨e, a.blobs, run_bind_error (run_attempt_error rfl), hkeep⟩
  | ok _ =>
  rw [run_bind_ok (run_attempt rfl)]
  cases hclass : a.store.classify S record with
  | error e => exact .inl ⟨e, a.blobs, run_bind_error (run_attempt_error rfl), hkeep⟩
  | ok result =>
  rw [run_bind_ok (run_attempt rfl)]
  by_cases happlied : result.outcome = .applied
  swap
  · rw [if_pos happlied]
    exact .inr (.inl ⟨result, rfl, rfl, happlied⟩)
  rw [if_neg (not_not.mpr happlied)]
  rcases ensureRecord_cases S (F (.blob i)) record suppliedBlob a with
    ⟨e, blobs', hrun, hk, _⟩ | ⟨blobs', hrun, hk, _, hholds⟩
  · exact .inl ⟨e, blobs', run_bind_error hrun, hk⟩
  rw [run_bind_ok hrun]
  refine .inr (.inr ⟨result, blobs', rfl, happlied, hk, hholds, ?_⟩)
  cases happend : Journal.append S (F (.append i)) record ⟨a.fs, a.journal⟩ with
  | error e d =>
    refine .inl ⟨e, d, rfl, run_bind_error ?_⟩
    exact run_zoom_error happend
  | ok u d =>
    refine .inr ⟨d, rfl, ?_⟩
    have hjournal : onJournal (Journal.append S (F (.append i)) record)
        (a.withBlobs blobs') = .ok () ((a.withBlobs blobs').withJournal d) :=
      run_zoom happend
    rw [run_bind_ok hjournal]
    exact publish_news hclass happlied

/-- The loop over the snapshot's records changes nothing; if it ends, all their
blobs are held. -/
theorem ensureRecords_cases (F : Faults) (a : Applier) (records : List Record) : ∀ i,
    (∃ e, forEach (fun i record => ensureRecord S (F (.blob i)) record none) i records a =
        .error e a) ∨
      (forEach (fun i record => ensureRecord S (F (.blob i)) record none) i records a =
        .ok () a ∧ ∀ r ∈ records, HoldsBlob S a.blobs r) := by
  induction records with
  | nil =>
    intro i
    exact .inr ⟨rfl, by simp⟩
  | cons r rest ih =>
    intro i
    rcases ensureRecord_cases S (F (.blob i)) r none a with ⟨e, blobs', hrun, _, hn⟩ |
      ⟨blobs', hrun, _, hn, hholds⟩
    · have hsame : a.withBlobs blobs' = a := by rw [hn rfl]; rfl
      rw [hsame] at hrun
      exact .inl ⟨e, run_bind_error hrun⟩
    · have hsame : a.withBlobs blobs' = a := by rw [hn rfl]; rfl
      rw [hsame] at hrun
      rw [hn rfl] at hholds
      rcases ih (i + 1) with ⟨e, he⟩ | ⟨hok, hrest⟩
      · exact .inl ⟨e, (run_bind_ok hrun).trans he⟩
      · exact .inr ⟨(run_bind_ok hrun).trans hok, List.forall_mem_cons.mpr ⟨hholds, hrest⟩⟩

/-- The limits that applier, store and journal share. -/
structure SharesLimits (a : Applier) (limits : Limits) : Prop where
  own : a.limits = limits.normalized
  store : a.store.limits = limits.normalized
  journal : a.journal.limits = limits.normalized

/-- The applier after a snapshot has been published. -/
def replaced (a : Applier) (records : List Record) : Applier :=
  { a with store := { a.store with records := tableOf records } }

/-- A call to `applySnapshot` changes nothing, or makes one installation: if the
installation fails so does the call, else the snapshot is published. -/
theorem applySnapshot_cases (F : Faults) (capabilities : List String) (snapshot : Checkpoint)
    (checkpointPath : String) {a : Applier} {limits : Limits} (hlimits : a.SharesLimits limits) :
    (∃ e, applySnapshot S F capabilities snapshot checkpointPath a = .error e a) ∨
      (CheckpointRecords S limits snapshot.watermark snapshot.records ∧
        (∀ r ∈ snapshot.records, HoldsBlob S a.blobs r) ∧
        ((∃ e d, Journal.installSnapshot S F checkpointPath snapshot.normal
              ⟨a.fs, a.journal⟩ = .error e d ∧
            applySnapshot S F capabilities snapshot checkpointPath a =
              .error e (a.withJournal d)) ∨
          (∃ d, Journal.installSnapshot S F checkpointPath snapshot.normal
              ⟨a.fs, a.journal⟩ = .ok () d ∧
            applySnapshot S F capabilities snapshot checkpointPath a =
              .ok () ((a.withJournal d).replaced snapshot.records)))) := by
  unfold applySnapshot
  rcases ctxErr_cases (F (.apply 0)) 0 a with ⟨_, e, he⟩ | ⟨_, hx⟩
  · exact .inl ⟨e, run_bind_error he⟩
  rw [run_bind_ok hx]
  by_cases hcap : hasLifecycleCapability capabilities = false
  · exact .inl ⟨_, run_bind_error (run_raiseIf_error hcap)⟩
  rw [run_bind_ok (run_raiseIf hcap)]
  by_cases hpath : checkpointPath = ""
  · exact .inl ⟨_, run_bind_error (run_raiseIf_error hpath)⟩
  rw [run_bind_ok (run_raiseIf hpath), run_bind_get]
  cases hnormal : normalizeCheckpoint S snapshot a.limits with
  | error e => exact .inl ⟨e, run_bind_error (run_attempt_error rfl)⟩
  | ok c =>
  obtain ⟨hrecords, rfl⟩ := normalizeCheckpoint_eq_ok.mp hnormal
  rw [hlimits.own, checkpointRecords_normalized] at hrecords
  rw [run_bind_ok (run_attempt rfl)]
  rcases ensureRecords_cases S F a snapshot.normal.records 0 with ⟨e, he⟩ | ⟨hloop, hblobs⟩
  · exact .inl ⟨e, run_bind_error he⟩
  rw [run_bind_ok hloop]
  have hheld : ∀ r ∈ snapshot.records, HoldsBlob S a.blobs r :=
    fun r hr => hblobs r ((hrecords.mem_values r).mpr hr)
  refine .inr ⟨hrecords, hheld, ?_⟩
  cases hinstall : Journal.installSnapshot S F checkpointPath snapshot.normal
      ⟨a.fs, a.journal⟩ with
  | error e d =>
    refine .inl ⟨e, d, rfl, run_bind_error ?_⟩
    exact run_zoom_error hinstall
  | ok u d =>
    refine .inr ⟨d, rfl, ?_⟩
    have hjournal : onJournal (Journal.installSnapshot S F checkpointPath snapshot.normal)
        a = .ok () (a.withJournal d) := run_zoom hinstall
    have hvalid : ∀ r ∈ snapshot.normal.records, r.Valid S a.store.limits := by
      intro r hr
      have hr' := hrecords.values.valid r hr
      rw [hlimits.store]
      simpa using hr'
    have hstore := Store.replaceSnapshot_eq_ok hvalid hrecords.values.distinct
    rw [Checkpoint.tableOf_normal] at hstore
    rw [run_bind_ok hjournal]
    refine run_bind_get.trans ?_
    exact run_bind_ok (run_attempt hstore)

/-! ## Calls when the disk works -/

/-- The applier on another file system. -/
def withFS (a : Applier) (fs : FS) : Applier := { a with fs := fs }

/-- The applier after a record has been appended and published. -/
def extended (a : Applier) (S : Stdlib) (record : Record) (ino : Nat)
    (h : a.journal.lastVersion < record.version) : Applier :=
  (a.withJournal ⟨a.fs.extend ino (journalEntry S record),
    a.journal.appended record (journalEntry S record).length h⟩).published record

/-- When the disk works, a failed call changes at most the blob store. -/
theorem apply_soft {F : Faults} (hF : F.Soft) (i : Nat) (capabilities : List String)
    (record : Record) (suppliedBlob : Option Bytes) (a : Applier) :
    (∃ e blobs', apply S F i capabilities record suppliedBlob a =
        .error e (a.withBlobs blobs') ∧ BlobsKept S a.blobs blobs') ∨
      (∃ result, apply S F i capabilities record suppliedBlob a = .ok result a ∧
        a.store.classify S record = .ok result ∧ result.outcome ≠ .applied) ∨
      (∃ result blobs' ino, ∃ hacc : a.journal.Accepts S record,
        a.store.classify S record = .ok result ∧ result.outcome = .applied ∧
        BlobsKept S a.blobs blobs' ∧ HoldsBlob S blobs' record ∧
        a.journal.ensureOpen = .ok ⟨ino, false⟩ ∧
        apply S F i capabilities record suppliedBlob a =
          .ok result ((a.withBlobs blobs').extended S record ino hacc.newer)) := by
  rcases apply_cases S F i capabilities record suppliedBlob a with herr | hkept |
    ⟨result, blobs', hclass, happlied, hkeep, hheld, hend⟩
  · exact .inl herr
  · exact .inr (.inl hkept)
  rcases Journal.append_soft S (hF (.append i)) record ⟨a.fs, a.journal⟩ with
    ⟨e, happend⟩ | ⟨hacc, ino, hopen, happend⟩
  · rcases hend with ⟨e', d, hrun, hcall⟩ | ⟨d, hrun, _⟩
    · rw [happend] at hrun
      cases hrun
      exact .inl ⟨e, blobs', hcall, hkeep⟩
    · rw [happend] at hrun
      cases hrun
  · rcases hend with ⟨e', d, hrun, _⟩ | ⟨d, hrun, hcall⟩
    · rw [happend] at hrun
      cases hrun
    · rw [happend] at hrun
      cases hrun
      exact .inr (.inr ⟨result, blobs', ino, hacc, hclass, happlied, hkeep, hheld, hopen,
        hcall⟩)

/-- The applier after a snapshot has been installed and published. -/
def installed (a : Applier) (S : Stdlib) (fs : FS) (ino : Nat) (snapshot : Checkpoint) :
    Applier :=
  (a.withJournal ⟨fs, a.journal.adopted ino
    (journalBytes S (Segment.reset Record.version snapshot.watermark)).length
    (Segment.reset Record.version snapshot.watermark)⟩).replaced snapshot.records

variable {S}

/-- When the disk works, a snapshot call fails with no file changed, or with the
checkpoint file alone replaced because the context was cancelled, or installs the
snapshot. -/
theorem applySnapshot_soft (hS : S.Lawful) {F : Faults} (hF : F.Soft)
    (capabilities : List String) (snapshot : Checkpoint) (checkpointPath : String) {a : Applier}
    {limits : Limits} (hlimits : a.SharesLimits limits)
    (hopen : ∃ ino, a.journal.ensureOpen = .ok ⟨ino, false⟩) :
    (∃ e fs', applySnapshot S F capabilities snapshot checkpointPath a =
        .error e (a.withFS fs') ∧ FS.Untouched a.fs fs') ∨
      ((∀ r ∈ snapshot.records, HoldsBlob S a.blobs r) ∧
        a.journal.Installable S checkpointPath snapshot ∧
        ∃ fs₁, FS.Replaced a.fs checkpointPath (checkpointBytes S snapshot) fs₁ ∧
          ((∃ e fs', applySnapshot S F capabilities snapshot checkpointPath a =
              .error e (a.withFS fs') ∧ FS.Untouched fs₁ fs' ∧ RewriteCanceled F 0) ∨
            (∃ fs' ino, applySnapshot S F capabilities snapshot checkpointPath a =
              .ok () (a.installed S fs' ino snapshot) ∧
              FS.Replaced fs₁ a.journal.path (journalBytes S
                (Segment.reset Record.version snapshot.watermark)) fs' ∧
              fs'.dir (.file a.journal.path) = some ino))) := by
  obtain ⟨ino₀, hopen⟩ := hopen
  rcases applySnapshot_cases S F capabilities snapshot checkpointPath hlimits with
    ⟨e, hrun⟩ | ⟨hrecords, hheld, hend⟩
  · exact .inl ⟨e, a.fs, hrun, FS.Untouched.refl a.fs⟩
  rcases Journal.installSnapshot_cases hS F checkpointPath snapshot.normal
      ⟨a.fs, a.journal⟩ with ⟨e, hinstall, _⟩ | ⟨_, hadm, file, hfile, hinstall⟩
  · rcases hend with ⟨e', d, hrun, hcall⟩ | ⟨d, hrun, _⟩
    · rw [hinstall] at hrun
      cases hrun
      exact .inl ⟨e, a.fs, hcall, FS.Untouched.refl a.fs⟩
    · rw [hinstall] at hrun
      cases hrun
  have hfile' : file = ⟨ino₀, false⟩ := by
    have hsame := hopen.symm.trans hfile
    exact (Except.ok.inj hsame).symm
  subst hfile'
  have hinstallable : a.journal.Installable S checkpointPath snapshot := by
    refine ⟨hadm.path, hadm.fresh, Checkpoint.Writable.of_normal ?_ hadm.writable⟩
    rw [hlimits.journal, checkpointRecords_normalized]
    exact hrecords
  rw [hinstall, checkpointBytes_normal] at hend
  have hclosed : (⟨ino₀, false⟩ : File).closed = false := rfl
  rcases replaceFiles_soft S hF checkpointPath (checkpointBytes S snapshot) hclosed
      (Segment.reset Record.version snapshot.normal.watermark) ⟨a.fs, a.journal⟩ with
    ⟨e, fs', hrep, hfs⟩ | ⟨fs₁, hckpt, hrest⟩
  · rcases hend with ⟨e', d, hrun, hcall⟩ | ⟨d, hrun, _⟩
    · rw [hrep] at hrun
      cases hrun
      exact .inl ⟨e, fs', hcall, hfs⟩
    · rw [hrep] at hrun
      cases hrun
  refine .inr ⟨hheld, hinstallable, fs₁, hckpt, ?_⟩
  rcases hrest with ⟨e, fs', hrep, hfs, hwhy⟩ | ⟨fs', ino, hrep, hjournal, hdir, _⟩
  · rcases hend with ⟨e', d, hrun, hcall⟩ | ⟨d, hrun, _⟩
    · rw [hrep] at hrun
      cases hrun
      exact .inl ⟨e, fs', hcall, hfs, hwhy.resolve_right (not_not.mpr trivial)⟩
    · rw [hrep] at hrun
      cases hrun
  · rcases hend with ⟨e', d, hrun, _⟩ | ⟨d, hrun, hcall⟩
    · rw [hrep] at hrun
      cases hrun
    · rw [hrep] at hrun
      cases hrun
      exact .inr ⟨fs', ino, hcall, hjournal, hdir⟩

end Applier

end StreamHive.Lifecycle

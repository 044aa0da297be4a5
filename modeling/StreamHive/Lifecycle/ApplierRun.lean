import StreamHive.Lifecycle.Applier

/-!
# Runs of the applier

The applier's store, its journal and the checkpoint at the journal floor are
`Coherent` when the store is the table of the checkpoint's records followed by
the journal's.  Every call keeps them coherent, whatever fails; a successful
snapshot installation moves the checkpoint.

## Main result

* `applier_run` — for every sequence of calls with arbitrary faults,
  capabilities, records, supplied blobs and blob-store contents, the store is the
  replay of the current base and the journal, and failed calls change nothing.
-/

namespace StreamHive.Lifecycle

open Verified ByteString Effect FileSystem Log

variable {S : Stdlib} {a : Applier} {limits : Limits}

/-! ## The invariant -/

/-- The store is what the base and the journal replay to. -/
structure Applier.Coherent (S : Stdlib) (limits : Limits) (base : Checkpoint)
    (a : Applier) : Prop where
  shared : a.SharesLimits limits
  floor : base.watermark = a.journal.floor
  listed : CheckpointRecords S limits base.watermark base.records
  valid : ∀ r ∈ a.journal.records, r.Valid S limits
  table : a.store.records = tableOf (base.records ++ a.journal.records)

namespace Applier.Coherent

variable {base : Checkpoint}

theorem of_replay (hlimits : a.SharesLimits limits)
    (hfloor : base.watermark = a.journal.floor)
    (hbase : CheckpointRecords S limits base.watermark base.records)
    (hreplay : (Store.new limits).replay S (base.records ++ a.journal.records) =
      .ok a.store) : a.Coherent S limits base := by
  have hvalid : ∀ r ∈ a.journal.records, r.Valid S limits := by
    intro r hr
    have hr' := Store.valid_of_replay hreplay r (List.mem_append_right _ hr)
    simpa [Store.new] using hr'
  have habove : ∀ r ∈ a.journal.records, base.watermark < r.version := by
    rw [hfloor]
    exact a.journal.log.above
  rw [hbase.replay_append a.journal.log.ascending habove hvalid] at hreplay
  refine ⟨hlimits, hfloor, hbase, hvalid, ?_⟩
  rw [← Except.ok.inj hreplay]

variable (h : a.Coherent S limits base)
include h

theorem above :
    ∀ r ∈ a.journal.records, base.watermark < r.version := by
  rw [h.floor]
  exact a.journal.log.above

theorem replay :
    (Store.new limits).replay S (base.records ++ a.journal.records) = .ok a.store := by
  rw [h.listed.replay_append a.journal.log.ascending h.above h.valid, ← h.table,
    ← h.shared.store]

/-- Nothing in the store is newer than the journal. -/
theorem version_le :
    ∀ r ∈ a.store.snapshot, r.version ≤ a.journal.lastVersion := by
  intro r hr
  unfold Store.snapshot at hr
  rw [h.table] at hr
  rcases List.mem_append.mp (KeyedMap.values_view_subset hr) with hbase | hlog
  · have hle := h.listed.bounded r hbase
    rw [h.floor] at hle
    exact le_trans hle a.journal.log.floor_le_last
  · exact a.journal.log.le_last r hlog

theorem withBlobs (blobs : Option Blobs) :
    (a.withBlobs blobs).Coherent S limits base :=
  ⟨⟨h.shared.own, h.shared.store, h.shared.journal⟩, h.floor, h.listed, h.valid, h.table⟩

/-- A journal operation that keeps the log keeps the applier coherent. -/
theorem withJournal {d : OnDisk Journal}
    (hlog : d.obj.log = a.journal.log) (hlimits : d.obj.limits = a.journal.limits) :
    (a.withJournal d).Coherent S limits base where
  shared := ⟨h.shared.own, h.shared.store, hlimits.trans h.shared.journal⟩
  floor := by
    change base.watermark = d.obj.log.floor
    rw [hlog]
    exact h.floor
  listed := h.listed
  valid := by
    change ∀ r ∈ d.obj.log.records, _
    rw [hlog]
    exact h.valid
  table := by
    change a.store.records = tableOf (base.records ++ d.obj.log.records)
    rw [hlog]
    exact h.table

/-- Publishing the record that was appended keeps the applier coherent. -/
theorem published {record : Record} {n : Nat}
    (hacc : a.journal.Accepts S record) {d : OnDisk Journal}
    (hobj : d.obj = a.journal.appended record n hacc.newer) :
    ((a.withJournal d).published record).Coherent S limits base where
  shared := by
    refine ⟨h.shared.own, h.shared.store, ?_⟩
    change d.obj.limits = _
    rw [hobj]
    exact h.shared.journal
  floor := by
    change base.watermark = d.obj.log.floor
    rw [hobj]
    exact h.floor
  listed := h.listed
  valid := by
    change ∀ r ∈ d.obj.log.records, _
    rw [hobj]
    intro r hr
    rcases List.mem_append.mp (show r ∈ a.journal.records ++ [record] from hr) with hr | hr
    · exact h.valid r hr
    · have hr' := hacc.valid
      rw [h.shared.journal] at hr'
      rw [List.mem_singleton.mp hr]
      simpa using hr'
  table := by
    change a.store.records.put record = tableOf (base.records ++ d.obj.log.records)
    rw [hobj, h.table]
    change _ = tableOf (base.records ++ (a.journal.records ++ [record]))
    rw [← List.append_assoc]
    exact (KeyedMap.view_concat _ record).symm

/-- Publishing an installed snapshot moves the base. -/
theorem replaced {snapshot : Checkpoint}
    (hrecords : CheckpointRecords S limits snapshot.watermark snapshot.records) {d : OnDisk Journal}
    (hlog : d.obj.log = Segment.reset Record.version snapshot.watermark)
    (hlimits : d.obj.limits = a.journal.limits) :
    ((a.withJournal d).replaced snapshot.records).Coherent S limits snapshot.normal where
  shared := ⟨h.shared.own, h.shared.store, hlimits.trans h.shared.journal⟩
  floor := by
    change snapshot.watermark = d.obj.log.floor
    rw [hlog]
    rfl
  listed := hrecords.values
  valid := by
    change ∀ r ∈ d.obj.log.records, _
    rw [hlog]
    simp
  table := by
    change tableOf snapshot.records = tableOf (snapshot.normal.records ++ d.obj.log.records)
    rw [hlog, Segment.records_reset, List.append_nil, Checkpoint.tableOf_normal]

end Applier.Coherent

/-! ## What one call keeps -/

/-- A failed call leaves the store and the journal's log as they were. -/
theorem Applier.apply_error {F : Faults} {i : Nat} {capabilities : List String}
    {record : Record} {suppliedBlob : Option Bytes} {a' : Applier} {e : Error}
    (h : Applier.apply S F i capabilities record suppliedBlob a = .error e a') :
    a'.store = a.store ∧ a'.journal.log = a.journal.log := by
  rcases Applier.apply_cases S F i capabilities record suppliedBlob a with
    ⟨e', blobs', hrun, _⟩ | ⟨res, hrun, _, _⟩ |
    ⟨res, blobs', _, _, _, _, ⟨e', d, happend, hrun⟩ | ⟨d, _, hrun⟩⟩
  · rw [hrun] at h
    cases h
    exact ⟨rfl, rfl⟩
  · rw [hrun] at h
    cases h
  · rw [hrun] at h
    cases h
    exact ⟨rfl, congrArg Journal.log (Journal.append_error_obj happend)⟩
  · rw [hrun] at h
    cases h

/-- What a call leaves in the store was there or has its blob in the store. -/
theorem Applier.apply_publishes {F : Faults} {i : Nat} {capabilities : List String}
    {record : Record} {suppliedBlob : Option Bytes} {a' : Applier} {result : ApplyResult}
    (h : Applier.apply S F i capabilities record suppliedBlob a = .ok result a') :
    ∀ r ∈ a'.store.snapshot, r ∈ a.store.snapshot ∨ HoldsBlob S a'.blobs r := by
  rcases Applier.apply_cases S F i capabilities record suppliedBlob a with
    ⟨e', blobs', hrun, _⟩ | ⟨res, hrun, _, _⟩ |
    ⟨res, blobs', _, _, _, hheld, ⟨e', d, _, hrun⟩ | ⟨d, _, hrun⟩⟩
  · rw [hrun] at h
    cases h
  · rw [hrun] at h
    cases h
    exact fun r hr => .inl hr
  · rw [hrun] at h
    cases h
  · rw [hrun] at h
    cases h
    intro r hr
    have hget : (a.store.records.put record).get? r.key = some r :=
      KeyedMap.mem_values.mp hr
    by_cases hkey : record.key = r.key
    · rw [← hkey, KeyedMap.get?_put_self] at hget
      cases hget
      exact .inr hheld
    · rw [KeyedMap.get?_put_ne _ _ hkey] at hget
      exact .inl (KeyedMap.mem_values.mpr hget)

/-- A call keeps the applier coherent whether it fails or not. -/
theorem Applier.Coherent.apply_final {base : Checkpoint} (h : a.Coherent S limits base)
    (F : Faults) (i : Nat) (capabilities : List String) (record : Record)
    (suppliedBlob : Option Bytes) :
    (finalState (discard (Applier.apply S F i capabilities record suppliedBlob
      a))).Coherent S limits base := by
  rcases Applier.apply_cases S F i capabilities record suppliedBlob a with
    ⟨e', blobs', hrun, _⟩ | ⟨res, hrun, _, _⟩ |
    ⟨res, blobs', _, _, _, _, ⟨e', d, happend, hrun⟩ | ⟨d, happend, hrun⟩⟩
  · rw [hrun]
    exact h.withBlobs blobs'
  · rw [hrun]
    exact h
  · rw [hrun]
    have hobj := Journal.append_error_obj happend
    exact (h.withBlobs blobs').withJournal (congrArg Journal.log hobj)
      (congrArg Journal.limits hobj)
  · rw [hrun]
    obtain ⟨hacc, hobj⟩ := Journal.append_ok_obj happend
    have hacc' : (a.withBlobs blobs').journal.Accepts S record := hacc
    exact (h.withBlobs blobs').published hacc' hobj

/-- A snapshot call fails with the store and the log as they were, or moves the
base; then the blobs of all records are held. -/
theorem Applier.Coherent.applySnapshot_spec (hS : S.Lawful) {base : Checkpoint}
    (h : a.Coherent S limits base) (F : Faults) (capabilities : List String)
    (snapshot : Checkpoint) (checkpointPath : String) :
    (∃ e a', Applier.applySnapshot S F capabilities snapshot checkpointPath a =
        .error e a' ∧ a'.Coherent S limits base ∧ a'.store = a.store ∧
        a'.journal.log = a.journal.log) ∨
      (∃ a', Applier.applySnapshot S F capabilities snapshot checkpointPath a =
        .ok () a' ∧ a'.Coherent S limits snapshot.normal ∧
        ∀ r ∈ a'.store.snapshot, HoldsBlob S a'.blobs r) := by
  rcases Applier.applySnapshot_cases S F capabilities snapshot checkpointPath h.shared with
    ⟨e, hrun⟩ | ⟨hrecords, hheld, ⟨e, d, hinstall, hrun⟩ | ⟨d, hinstall, hrun⟩⟩
  · exact .inl ⟨e, a, hrun, h, rfl, rfl⟩
  · obtain ⟨hlog, hlimits⟩ := Journal.installSnapshot_error_log hS hinstall
    exact .inl ⟨e, a.withJournal d, hrun, h.withJournal hlog hlimits, rfl, hlog⟩
  · obtain ⟨hlog, hlimits⟩ := Journal.installSnapshot_ok_log hS hinstall
    refine .inr ⟨_, hrun, h.replaced hrecords hlog hlimits, ?_⟩
    intro r hr
    exact hheld r ((hrecords.mem_values r).mp hr)

/-! ## Calls -/

inductive ApplierCall where
  | apply (capabilities : List String) (record : Record) (suppliedBlob : Option Bytes)
  | applySnapshot (capabilities : List String) (snapshot : Checkpoint)
      (checkpointPath : String)

/-- A call with the verdicts on everything it does and the contents of the blob
store at the time. -/
structure ApplierStep where
  call : ApplierCall
  faults : Faults
  blobs : Option Blobs

namespace ApplierStep

/-- The result of the call. -/
def result (S : Stdlib) (step : ApplierStep) (a : Applier) :
    EStateM.Result Error Applier Unit :=
  match step.call with
  | .apply capabilities record suppliedBlob =>
    discard (Applier.apply S step.faults 0 capabilities record suppliedBlob
      (a.withBlobs step.blobs))
  | .applySnapshot capabilities snapshot checkpointPath =>
    Applier.applySnapshot S step.faults capabilities snapshot checkpointPath
      (a.withBlobs step.blobs)

/-- The base after the call: a published snapshot becomes the base. -/
def nextBase (S : Stdlib) (step : ApplierStep) (base : Checkpoint) (a : Applier) :
    Checkpoint :=
  match error? (step.result S a), step.call with
  | none, .applySnapshot _ snapshot _ => snapshot.normal
  | _, _ => base

/-- The call returns nil and the store then holds a record that it published. -/
def Publishes (S : Stdlib) (step : ApplierStep) (a a' : Applier) (r : Record) : Prop :=
  step.result S a = .ok () a' ∧ r ∈ a'.store.snapshot ∧
    (r ∉ a.store.snapshot ∨
      ∃ capabilities snapshot checkpointPath,
        step.call = .applySnapshot capabilities snapshot checkpointPath)

/-- One call keeps the applier coherent; if it fails, the store and the journal's
log stay; what it publishes has its blob in the store. -/
theorem result_spec (hS : S.Lawful) {base : Checkpoint} (h : a.Coherent S limits base)
    (step : ApplierStep) :
    (finalState (step.result S a)).Coherent S limits (step.nextBase S base a) ∧
      (∀ e a', step.result S a = .error e a' →
        a'.store = a.store ∧ a'.journal.log = a.journal.log) ∧
      (∀ a' r, step.Publishes S a a' r → HoldsBlob S a'.blobs r) := by
  have h₀ := h.withBlobs step.blobs
  cases hcall : step.call with
  | apply capabilities record suppliedBlob =>
    have hresult : step.result S a = discard (Applier.apply S step.faults 0 capabilities
        record suppliedBlob (a.withBlobs step.blobs)) := by
      unfold result
      rw [hcall]
    have hbase : step.nextBase S base a = base := by
      unfold nextBase
      rw [hcall]
      cases error? (step.result S a) <;> rfl
    rw [hbase, hresult]
    refine ⟨h₀.apply_final _ _ _ _ _, ?_, ?_⟩
    · intro e a' herr
      cases hrun : Applier.apply S step.faults 0 capabilities record suppliedBlob
          (a.withBlobs step.blobs) with
      | ok r a'' =>
        rw [hrun] at herr
        cases herr
      | error e' a'' =>
        rw [hrun] at herr
        cases herr
        have hkept := Applier.apply_error hrun
        exact hkept
    · rintro a' r ⟨hok, hmem, hnew⟩
      rw [hresult] at hok
      have hnew' : r ∉ a.store.snapshot := by
        rcases hnew with hnew | ⟨_, _, _, hsnapshot⟩
        · exact hnew
        · rw [hcall] at hsnapshot
          cases hsnapshot
      cases hrun : Applier.apply S step.faults 0 capabilities record suppliedBlob
          (a.withBlobs step.blobs) with
      | ok res a'' =>
        rw [hrun] at hok
        cases hok
        exact (Applier.apply_publishes hrun r hmem).resolve_left hnew'
      | error e' a'' =>
        rw [hrun] at hok
        cases hok
  | applySnapshot capabilities snapshot checkpointPath =>
    have hresult : step.result S a = Applier.applySnapshot S step.faults capabilities
        snapshot checkpointPath (a.withBlobs step.blobs) := by
      unfold result
      rw [hcall]
    rcases h₀.applySnapshot_spec hS step.faults capabilities snapshot checkpointPath with
      ⟨e, a', hrun, hcoherent, hstore, hlog⟩ | ⟨a', hrun, hcoherent, hheld⟩
    · have hbase : step.nextBase S base a = base := by
        unfold nextBase
        rw [hresult, hrun]
        rfl
      rw [hbase, hresult, hrun]
      refine ⟨hcoherent, ?_, ?_⟩
      · intro e' a'' herr
        cases herr
        exact ⟨hstore, hlog⟩
      · rintro a'' r ⟨hok, _⟩
        rw [hresult, hrun] at hok
        cases hok
    · have hbase : step.nextBase S base a = snapshot.normal := by
        unfold nextBase
        rw [hresult, hrun, hcall]
        rfl
      rw [hbase, hresult, hrun]
      refine ⟨hcoherent, ?_, ?_⟩
      · intro e' a'' herr
        cases herr
      · rintro a'' r ⟨hok, hmem, _⟩
        rw [hresult, hrun] at hok
        cases hok
        exact hheld r hmem

end ApplierStep

/-! ## Runs -/

/-- The state of a run: the applier and the checkpoint its journal floor stands
for. -/
structure ApplierRun where
  base : Checkpoint
  applier : Applier

namespace ApplierRun

def step (S : Stdlib) (run : ApplierRun) (s : ApplierStep) : ApplierRun :=
  ⟨s.nextBase S run.base run.applier, finalState (s.result S run.applier)⟩

def steps (S : Stdlib) (run : ApplierRun) (ss : List ApplierStep) : ApplierRun :=
  ss.foldl (step S) run

theorem coherent_steps (hS : S.Lawful) (ss : List ApplierStep) :
    ∀ {run : ApplierRun}, run.applier.Coherent S limits run.base →
      (run.steps S ss).applier.Coherent S limits (run.steps S ss).base := by
  induction ss with
  | nil =>
    intro run h
    exact h
  | cons s rest ih =>
    intro run h
    exact @ih (run.step S s) (s.result_spec hS h).1

/-- A record of the final store was in the first store or published on the way. -/
theorem published_on_the_way (ss : List ApplierStep) (run : ApplierRun) (r : Record)
    (hr : r ∈ (run.steps S ss).applier.store.snapshot) (hS : S.Lawful)
    (h : run.applier.Coherent S limits run.base) :
    r ∈ run.applier.store.snapshot ∨
      ∃ before s after a', ss = before ++ s :: after ∧
        s.Publishes S (run.steps S before).applier a' r := by
  induction ss generalizing run with
  | nil => exact .inl hr
  | cons s rest ih =>
    have hspec := s.result_spec hS h
    rcases ih (run.step S s) hr hspec.1 with hnext | ⟨before, t, after, a', hsplit, hpub⟩
    · by_cases hold : r ∈ run.applier.store.snapshot
      · exact .inl hold
      · refine .inr ⟨[], s, rest, finalState (s.result S run.applier), rfl, ?_⟩
        cases hresult : s.result S run.applier with
        | ok u a' =>
          refine ⟨hresult, ?_, .inl hold⟩
          unfold step at hnext
          rw [hresult] at hnext
          exact hnext
        | error e a' =>
          unfold step at hnext
          rw [hresult] at hnext
          have hstore := (hspec.2.1 e a' hresult).1
          change r ∈ a'.store.snapshot at hnext
          rw [hstore] at hnext
          exact absurd hnext hold
    · refine .inr ⟨s :: before, t, after, a', ?_, hpub⟩
      rw [hsplit]
      rfl

end ApplierRun

/-- From a store that is the replay of a base checkpoint at the journal floor and
the journal's records, under shared limits, after every sequence of calls: the
store is the replay of the current base and the journal's records; no version in
it is above the journal's last; the next call, if it fails, leaves the store and
the journal's floor, last and records as they were; and every present record was
in the store at the start or has been published by a call, at the end of which
the blob store held bytes hashing to its key. -/
theorem applier_run {S : Stdlib} (hS : S.Lawful) {limits : Limits} (start : ApplierRun)
    (hlimits : start.applier.SharesLimits limits)
    (hfloor : start.base.watermark = start.applier.journal.floor)
    (hbase : CheckpointRecords S limits start.base.watermark start.base.records)
    (hstore : (Store.new limits).replay S
      (start.base.records ++ start.applier.journal.records) = .ok start.applier.store)
    (ss : List ApplierStep) :
    let now := start.steps S ss
    (now.base.watermark = now.applier.journal.floor ∧
      (Store.new limits).replay S (now.base.records ++ now.applier.journal.records) =
        .ok now.applier.store) ∧
    (∀ r ∈ now.applier.store.snapshot, r.version ≤ now.applier.journal.lastVersion) ∧
    (∀ s e a', ApplierStep.result S s now.applier = .error e a' →
      a'.store = now.applier.store ∧ a'.journal.floor = now.applier.journal.floor ∧
        a'.journal.lastVersion = now.applier.journal.lastVersion ∧
        a'.journal.records = now.applier.journal.records) ∧
    (∀ r ∈ now.applier.store.snapshot, r.state = .present →
      r ∈ start.applier.store.snapshot ∨
        ∃ before s after a', ss = before ++ s :: after ∧
          s.Publishes S (start.steps S before).applier a' r ∧
          HoldsKey S a'.blobs r.blobKey) := by
  have hstart := Applier.Coherent.of_replay hlimits hfloor hbase hstore
  have hnow := ApplierRun.coherent_steps hS ss hstart
  refine ⟨⟨hnow.floor, hnow.replay⟩, hnow.version_le, ?_, ?_⟩
  · intro s e a' herr
    obtain ⟨hkept, hlog⟩ := (s.result_spec hS hnow).2.1 e a' herr
    exact ⟨hkept, congrArg Segment.floor hlog, congrArg Segment.last hlog,
      congrArg Segment.records hlog⟩
  · intro r hr hp
    rcases ApplierRun.published_on_the_way ss start r hr hS hstart with hold |
      ⟨before, s, after, a', hsplit, hpub⟩
    · exact .inl hold
    · have hbefore := ApplierRun.coherent_steps hS before hstart
      exact .inr ⟨before, s, after, a', hsplit, hpub,
        (s.result_spec hS hbefore).2.2 a' r hpub hp⟩

namespace Sample

/-- A record with a blob. -/
def stored : Record :=
  ⟨ascii "ns", ascii "a", .present, goStdlib.sha256 (ascii "data"), ⟨1, 1⟩, ascii "node"⟩

/-- An applier on a new journal, with an empty blob store. -/
def applier : Applier where
  fs := opened.fs
  journal := opened.obj
  store := Store.new Limits.unset
  blobs := some fun _ => none
  limits := Limits.unset.normalized

/-- A record is applied with its blob; another one is refused for want of its
blob. -/
def applierSteps : List ApplierStep :=
  [⟨.apply [lifecycleCapabilityV1] stored (some (ascii "data")), Faults.none,
      some fun _ => none⟩,
    ⟨.apply [lifecycleCapabilityV1] { stored with version := ⟨1, 2⟩ } none, Faults.none,
      some fun _ => none⟩]

end Sample

open Sample in
/-- The record is in the store, and a call published it with its blob. -/
theorem applier_run_sample :
    stored ∈ ((ApplierRun.mk ⟨Version.zero, []⟩ applier).steps goStdlib
        applierSteps).applier.store.snapshot ∧
      ∃ before s after a', applierSteps = before ++ s :: after ∧
        s.Publishes goStdlib ((ApplierRun.mk ⟨Version.zero, []⟩ applier).steps goStdlib
          before).applier a' stored ∧ HoldsKey goStdlib a'.blobs stored.blobKey := by
  have hmem : stored ∈ ((ApplierRun.mk ⟨Version.zero, []⟩ applier).steps goStdlib
      applierSteps).applier.store.snapshot := by decide +kernel
  have hbase : CheckpointRecords goStdlib Limits.unset Version.zero [] :=
    ⟨fun _ => rfl, by simp, by simp, List.Pairwise.nil⟩
  have hrun := applier_run goStdlib_lawful (ApplierRun.mk ⟨Version.zero, []⟩ applier)
    ⟨rfl, rfl, rfl⟩ rfl hbase rfl applierSteps
  refine ⟨hmem, (hrun.2.2.2 stored hmem rfl).resolve_left ?_⟩
  decide +kernel

end StreamHive.Lifecycle

import StreamHive.Lifecycle.ApplierRun
import StreamHive.Lifecycle.RuntimeSpec

/-!
# Opening the state directory

`openLifecycleRuntime` reads five files.  A runtime is `Backed` by its directory when
each of the five holds what the runtime has in memory, and the state is the replay of
the checkpoint and the journal.

## Main results

* `openLifecycleRuntime_backed` — a runtime that has been opened is backed, whatever
  failed on the way;
* `LifecycleRuntime.Backed.reopen` — the directory of a backed runtime can be opened
  again, and this gives the same state.
-/

namespace StreamHive.Lifecycle

open Verified ByteString Effect FileSystem Log

variable {records : List Record} {config : LifecycleConfig}

/-! ## Paths -/

namespace LifecycleConfig

variable {c : LifecycleConfig} {name other : String}

theorem statePath_ne (h : name ≠ other) : c.statePath name ≠ c.statePath other := by
  unfold statePath
  split_ifs
  all_goals simpa using h

theorem statePath_ne_empty (h : name ≠ "") : c.statePath name ≠ "" := by
  unfold statePath
  split_ifs
  · exact h
  · simp
  · simp [h]

end LifecycleConfig

/-! ## The checkpoint file -/

section CheckpointFile

variable {S : Stdlib} {limits : Limits} {path : String} {fs : FS}

/-- What was loaded is what the file holds. -/
theorem loadExisting_ok {o : Oracle} {c : Option Checkpoint} {fs' : FS}
    (h : loadExisting S o path limits fs = .ok c fs') :
    fs' = fs ∧ CheckpointFile S limits (fs.read (.file path)) c := by
  unfold loadExisting at h
  rcases loadCheckpoint_cases S o path limits fs with ⟨e, he, hno, _⟩ | heq
  · rw [he] at h
    simp only [hno] at h
    cases h
  rw [heq] at h
  cases hfile : checkpointOf S limits (fs.read (.file path)) with
  | ok found =>
    rw [hfile] at h
    cases h
    exact ⟨rfl, hfile⟩
  | error e =>
    rw [hfile] at h
    cases his : e.is .notExist with
    | true =>
      rw [run_attempt_error rfl] at h
      dsimp only at h
      rw [if_pos his] at h
      cases h
      exact ⟨rfl, e, hfile, his⟩
    | false =>
      rw [run_attempt_error rfl] at h
      dsimp only at h
      rw [his] at h
      cases h

theorem loadExisting_proceed {o : Oracle} (ho : ∀ c, o c = .proceed) (hpath : path ≠ "")
    {c : Option Checkpoint} (h : CheckpointFile S limits (fs.read (.file path)) c) :
    loadExisting S o path limits fs = .ok c fs := by
  unfold loadExisting
  rw [loadCheckpoint_proceed ho hpath]
  cases c with
  | some found =>
    have hfile : checkpointOf S limits (fs.read (.file path)) = .ok found := h
    rw [hfile]
    rfl
  | none =>
    obtain ⟨e, hfile, his⟩ := h
    rw [run_attempt_error hfile]
    dsimp only
    rw [if_pos his]

end CheckpointFile

/-- The checkpoint that the journal goes on from. -/
def baseline (base : Option Checkpoint) : Checkpoint := base.getD ⟨Version.zero, []⟩

theorem CheckpointFile.baseline {S : Stdlib} {limits : Limits} {data : Option Bytes}
    {base : Option Checkpoint} (h : CheckpointFile S limits data base) :
    CheckpointRecords S limits (baseline base).watermark (baseline base).records := by
  cases base with
  | none => exact ⟨fun _ => rfl, by simp [Lifecycle.baseline], by simp [Lifecycle.baseline],
      by simp [Lifecycle.baseline]⟩
  | some c => exact h.records.1

/-! ## The blobs of the records -/

section Blobs

variable {S : Stdlib} {o : Oracle} {F : Faults} {blobs : Blobs} {fs fs' : FS}

theorem getBlob_ok {σ : Type} {key data : Bytes} {s s' : σ}
    (h : getBlob o blobs key s = .ok data s') : s' = s ∧ blobs key = some data := by
  unfold getBlob at h
  rw [bind_ok] at h
  obtain ⟨_, t, hcall, h⟩ := h
  obtain ⟨_, rfl⟩ := syscall_ok hcall
  cases hdata : blobs key with
  | none =>
    rw [hdata] at h
    cases h
  | some found =>
    rw [hdata] at h
    cases h
    exact ⟨rfl, rfl⟩

theorem getBlob_proceed {σ : Type} (ho : ∀ c, o c = .proceed) {key data : Bytes}
    (h : blobs key = some data) (s : σ) : getBlob o blobs key s = .ok data s := by
  unfold getBlob
  rw [run_bind_ok (syscall_proceed (ho _) s), h]
  rfl

theorem verifyLifecycleRecord_ok {record : Record} {u : Unit}
    (h : verifyLifecycleRecord S o blobs record fs = .ok u fs') :
    fs' = fs ∧ HoldsBlob S (some blobs) record := by
  unfold verifyLifecycleRecord at h
  rw [bind_ok] at h
  obtain ⟨_, t, hctx, h⟩ := h
  obtain ⟨_, rfl⟩ := ctxErr_ok hctx
  by_cases hstate : record.state ≠ .present
  · rw [if_pos hstate] at h
    cases h
    exact ⟨rfl, fun hpresent => absurd hpresent hstate⟩
  · rw [if_neg hstate, bind_ok] at h
    obtain ⟨data, t, hget, h⟩ := h
    obtain ⟨rfl, hdata⟩ := getBlob_ok hget
    obtain ⟨hkey, rfl⟩ := attempt_ok.mp h
    exact ⟨rfl, fun _ => ⟨blobs, data, rfl, hdata, (verifySHA256Key_eq_ok.mp hkey).2⟩⟩

theorem verifyLifecycleRecord_proceed (hS : S.Lawful) (ho : ∀ c, o c = .proceed)
    {record : Record} (h : HoldsBlob S (some blobs) record) (fs : FS) :
    verifyLifecycleRecord S o blobs record fs = .ok () fs := by
  unfold verifyLifecycleRecord
  rw [run_bind_ok (ctxErr_proceed (ho _) fs)]
  by_cases hstate : record.state ≠ .present
  · rw [if_pos hstate]
    rfl
  · rw [if_neg hstate]
    obtain ⟨b, data, hb, hdata, hsum⟩ := h (not_not.mp hstate)
    cases hb
    rw [run_bind_ok (getBlob_proceed ho hdata fs)]
    refine run_attempt (verifySHA256Key_eq_ok.mpr ⟨?_, hsum⟩)
    rw [← hsum]
    exact hS.sha256_length data

theorem verifyLifecycleRecords_ok {u : Unit}
    (h : verifyLifecycleRecords S F blobs records fs = .ok u fs') :
    fs' = fs ∧ ∀ r ∈ records, HoldsBlob S (some blobs) r := by
  unfold verifyLifecycleRecords at h
  generalize (0 : Nat) = i at h
  induction records generalizing i with
  | nil =>
    cases h
    exact ⟨rfl, by simp⟩
  | cons record rest ih =>
    unfold forEach at h
    rw [bind_ok] at h
    obtain ⟨_, t, hfirst, h⟩ := h
    obtain ⟨rfl, hholds⟩ := verifyLifecycleRecord_ok hfirst
    obtain ⟨rfl, hrest⟩ := ih (i + 1) h
    exact ⟨rfl, List.forall_mem_cons.mpr ⟨hholds, hrest⟩⟩

theorem verifyLifecycleRecords_proceed (hS : S.Lawful) (hF : ∀ site c, F site c = .proceed)
    (h : ∀ r ∈ records, HoldsBlob S (some blobs) r) (fs : FS) :
    verifyLifecycleRecords S F blobs records fs = .ok () fs :=
  run_forEach (fun _ r hr => verifyLifecycleRecord_proceed hS (hF _) (h r hr) fs) 0

end Blobs

/-! ## The state -/

section State

variable {S : Stdlib} {F : Faults} {blobs : Blobs} {journal : Journal} {limits : Limits}
  {base : Option Checkpoint} {store store' : Store} {fs fs' : FS}

theorem wrap_ok {σ α : Type} {text : String} {x : EStateM Error σ α} {s s' : σ} {a : α} :
    wrap text x s = .ok a s' ↔ x s = .ok a s' := rethrow_ok

theorem restoreCheckpoint_ok
    (h : restoreCheckpoint S F blobs journal limits base fs = .ok store fs') :
    fs' = fs ∧ (baseline base).watermark = journal.floor ∧
      (∀ r ∈ (baseline base).records, HoldsBlob S (some blobs) r) ∧
      (Store.new limits).replaceSnapshot S (baseline base).records = .ok store := by
  cases base with
  | none =>
    unfold restoreCheckpoint at h
    rw [bind_ok] at h
    obtain ⟨_, t, hraise, h⟩ := h
    obtain ⟨hzero, rfl⟩ := raiseIf_ok.mp hraise
    cases h
    exact ⟨rfl, (not_not.mp hzero).symm, by simp [baseline], rfl⟩
  | some c =>
    unfold restoreCheckpoint at h
    rw [bind_ok] at h
    obtain ⟨_, t, hraise, h⟩ := h
    obtain ⟨hfloor, rfl⟩ := raiseIf_ok.mp hraise
    rw [bind_ok] at h
    obtain ⟨_, t, hverify, h⟩ := h
    obtain ⟨rfl, hholds⟩ := verifyLifecycleRecords_ok (wrap_ok.mp hverify)
    obtain ⟨hstore, rfl⟩ := attempt_ok.mp (wrap_ok.mp h)
    exact ⟨rfl, not_not.mp hfloor, hholds, hstore⟩

theorem restoreCheckpoint_proceed (hS : S.Lawful) (hF : ∀ site c, F site c = .proceed)
    (hfloor : (baseline base).watermark = journal.floor)
    (hholds : ∀ r ∈ (baseline base).records, HoldsBlob S (some blobs) r)
    (hstore : (Store.new limits).replaceSnapshot S (baseline base).records = .ok store)
    (fs : FS) : restoreCheckpoint S F blobs journal limits base fs = .ok store fs := by
  cases base with
  | none =>
    cases hstore
    exact run_bind_ok (run_raiseIf (not_not.mpr hfloor.symm))
  | some c =>
    have hverify := verifyLifecycleRecords_proceed hS hF hholds fs
    exact (run_bind_ok (run_raiseIf (not_not.mpr hfloor))).trans
      ((run_bind_ok (wrap_ok.mpr hverify)).trans (wrap_ok.mpr (run_attempt hstore)))

theorem replayRecords_ok {i : Nat}
    (h : replayRecords S F blobs i store records fs = .ok store' fs') :
    fs' = fs ∧ store.replay S records = .ok store' ∧
      ∀ r ∈ records, HoldsBlob S (some blobs) r := by
  induction records generalizing i store with
  | nil =>
    cases h
    exact ⟨rfl, rfl, by simp⟩
  | cons record rest ih =>
    unfold replayRecords at h
    rw [bind_ok] at h
    obtain ⟨_, t, hctx, h⟩ := h
    obtain ⟨_, rfl⟩ := ctxErr_ok hctx
    rw [bind_ok] at h
    obtain ⟨_, t, hverify, h⟩ := h
    obtain ⟨rfl, hholds⟩ := verifyLifecycleRecord_ok hverify
    rw [bind_ok] at h
    obtain ⟨⟨result, next⟩, t, hattempt, h⟩ := h
    obtain ⟨happly, rfl⟩ := attempt_ok.mp hattempt
    obtain ⟨rfl, hreplay, hrest⟩ := ih h
    refine ⟨rfl, ?_, List.forall_mem_cons.mpr ⟨hholds, hrest⟩⟩
    unfold Store.replay
    rw [happly]
    exact hreplay

theorem replayRecords_proceed (hS : S.Lawful) (hF : ∀ site c, F site c = .proceed)
    (hholds : ∀ r ∈ records, HoldsBlob S (some blobs) r)
    (hreplay : store.replay S records = .ok store') (i : Nat) (fs : FS) :
    replayRecords S F blobs i store records fs = .ok store' fs := by
  induction records generalizing i store with
  | nil =>
    cases hreplay
    rfl
  | cons record rest ih =>
    unfold replayRecords
    rw [run_bind_ok (ctxErr_proceed (hF _ _) fs), run_bind_ok
      (verifyLifecycleRecord_proceed hS (hF _) (hholds record (by simp)) fs)]
    unfold Store.replay at hreplay
    cases happly : store.apply S record with
    | error e =>
      rw [happly] at hreplay
      cases hreplay
    | ok p =>
      rw [happly] at hreplay
      rw [run_bind_ok (run_attempt rfl)]
      exact ih (fun r hr => hholds r (by simp [hr])) hreplay (i + 1)

theorem replayJournal_ok {verified : Nat}
    (h : replayJournal S F blobs journal verified store fs = .ok store' fs') :
    fs' = fs ∧ store.replay S journal.records = .ok store' ∧
      ∀ r ∈ journal.records, HoldsBlob S (some blobs) r := by
  unfold replayJournal at h
  rw [bind_ok] at h
  obtain ⟨records, t, hattempt, h⟩ := h
  obtain ⟨hlist, rfl⟩ := attempt_ok.mp hattempt
  rw [Journal.listRecords_ok hlist] at h
  exact replayRecords_ok h

theorem replayJournal_proceed (hS : S.Lawful) (hF : ∀ site c, F site c = .proceed)
    {file : File} (hopen : journal.ensureOpen = .ok file)
    (hholds : ∀ r ∈ journal.records, HoldsBlob S (some blobs) r)
    (hreplay : store.replay S journal.records = .ok store') (verified : Nat) (fs : FS) :
    replayJournal S F blobs journal verified store fs = .ok store' fs := by
  unfold replayJournal
  rw [run_bind_ok (run_attempt (Journal.listRecords_proceed (hF _) hopen))]
  exact replayRecords_proceed hS hF hholds hreplay verified fs

/-- Restoring the checkpoint and replaying the journal is one replay. -/
theorem replay_restored
    (hbase : CheckpointRecords S limits (baseline base).watermark (baseline base).records)
    (hrestore : (Store.new limits).replaceSnapshot S (baseline base).records = .ok store) :
    (Store.new limits).replay S ((baseline base).records ++ records) =
      store.replay S records := by
  have hvalid : ∀ r ∈ (baseline base).records, r.Valid S (Store.new limits).limits :=
    fun r hr => (Record.valid_normalized S limits r).mpr (hbase.valid r hr)
  rw [Store.replaceSnapshot_eq_ok hvalid hbase.distinct] at hrestore
  cases hrestore
  have hreplay := hbase.replay_append (Ascending.nil : Ascending Record.version [])
    (by simp) (by simp)
  rw [List.append_nil] at hreplay
  rw [Store.replay_append, hreplay]
  rfl

end State

/-! ## The side files -/

section Books

variable {S : Stdlib} {o : Oracle} {F : Faults} {path : String} {fs fs' : FS}

/-- The book holds the configured members, if there are any. -/
def Configured (S : Stdlib) (config : LifecycleConfig) (b : MembershipBook) : Prop :=
  config.membershipConfigured = true →
    b.normalizeMembers S config.membershipMembers = .ok b.members ∧ b.configured = true ∧
      (membershipFile S).Writable S b.maxBytes b.members

theorem configureMembership_configured (h : config.membershipConfigured = true)
    {b : MembershipBook} : configureMembership S F config b fs =
      match MembershipBook.replace S (F .membership) config.membershipMembers ⟨fs, b⟩ with
      | .ok _ d => .ok d.obj d.fs
      | .error e d => .error e d.fs := congrFun (if_pos h) fs

theorem configureMembership_ok (hS : S.Lawful) {options : MembershipOptions}
    {b b' : MembershipBook} (hb : b.Durable S options fs)
    (h : configureMembership S F config b fs = .ok b' fs') :
    FS.Framed fs b.path fs' ∧ b'.path = b.path ∧ b'.Durable S options fs' ∧
      Configured S config b' := by
  by_cases hconfigured : config.membershipConfigured = true
  · rw [configureMembership_configured hconfigured] at h
    rcases MembershipBook.replace_spec (S := S) (F .membership) config.membershipMembers
      ⟨fs, b⟩ with ⟨e, t, hrun, _⟩ | ⟨ms, t, hrun, hnormal, hfits, hfs⟩
    · rw [hrun] at h
      cases h
    rw [hrun] at h
    cases h
    refine ⟨hfs.framed, rfl, hb.of_replace hS hnormal hfits hfs, fun _ => ⟨?_, rfl, hfits⟩⟩
    exact (MembershipBook.normalizeMembers_withMembers ms).trans hnormal
  · have hskip : configureMembership S F config b fs = .ok b fs :=
      congrFun (if_neg hconfigured) fs
    rw [hskip] at h
    cases h
    exact ⟨(FS.Untouched.refl fs).framed _, rfl, hb, fun hc => absurd hc hconfigured⟩

/-- Installing the configured members again changes nothing in the book. -/
theorem Configured.reopen {b : MembershipBook} (h : Configured S config b)
    (hF : ∀ site c, F site c = .proceed) (fs : FS) :
    ∃ fs', configureMembership S F config b fs = .ok b fs' ∧ FS.Framed fs b.path fs' := by
  by_cases hconfigured : config.membershipConfigured = true
  · obtain ⟨hnormal, hset, hfits⟩ := h hconfigured
    have hsoft : (F .membership).Soft :=
      ⟨fun c _ => hF _ c, fun c n => by rw [hF]; nofun⟩
    rw [configureMembership_configured hconfigured]
    rcases MembershipBook.replace_spec (S := S) (F .membership) config.membershipMembers
      ⟨fs, b⟩ with ⟨e, t, _, hwhy⟩ | ⟨ms, t, hrun, hms, _, hfs⟩
    · rcases (hwhy hsoft).2 with ⟨i, hi⟩ | hnot
      · exact absurd (hF _ _) hi
      · exact absurd hfits (hnot _ hnormal)
    · have hsame : ms = b.members := Except.ok.inj (hms.symm.trans hnormal)
      have hb : b.withMembers b.members = b := by
        unfold MembershipBook.withMembers
        rw [← hset]
      rw [hrun, hsame]
      exact ⟨t, by rw [hb], hfs.framed⟩
  · exact ⟨fs, congrFun (if_neg hconfigured) fs, (FS.Untouched.refl fs).framed _⟩

end Books

/-! ## Opening -/

/-- The runtime that an opening puts together. -/
def LifecycleConfig.runtime (config : LifecycleConfig) (blobs : Option Blobs) (fs : FS)
    (journal : Journal) (store : Store) (authority : Authority) (watermarks : WatermarkBook)
    (membership : MembershipBook) (base : Option Checkpoint) : LifecycleRuntime where
  node :=
    { fs := fs
      journal := journal
      store := store
      blobs := blobs
      limits := config.recordLimits.normalized
      watermarks := watermarks
      repairLimits := config.repairLimits.normalized }
  authority := authority
  membership := membership
  snapshot := base
  checkpointPath := config.statePath "checkpoint"
  sessions := fun _ => none

section Open

variable {S : Stdlib} {F : Faults} {blobs : Option Blobs} {token : String} {peerID : Bytes}
  {random : UInt64} {fs fs' : FS} {r : LifecycleRuntime}

/-- Opening succeeds when each of its phases does. -/
theorem openLifecycleRuntime_eq_ok :
    openLifecycleRuntime S F config blobs token peerID random fs = .ok (some r) fs' ↔
      config.enabled = true ∧ config.validate blobs token peerID = .ok () ∧
      F .entry .mkdir = .proceed ∧
      ∃ journal recovery fs₁, openJournal S (F .journal) (config.statePath "journal")
        config.journalOptions fs = .ok (journal, recovery) fs₁ ∧
      ∃ authority fs₂, openAuthority S (F .authority) random (config.statePath "authority")
        peerID ⟨config.recordLimits, 0, journal.lastVersion⟩ fs₁ = .ok authority fs₂ ∧
      ∃ watermarks fs₃, openWatermarkBook S (F .watermark) (config.statePath "watermarks")
        ⟨0, 0, 0⟩ fs₂ = .ok watermarks fs₃ ∧
      ∃ found fs₄, openMembershipBook S (F .membership) (config.statePath "membership")
        ⟨0, 0, 0⟩ fs₃ = .ok found fs₄ ∧
      ∃ membership fs₅, configureMembership S F config found fs₄ = .ok membership fs₅ ∧
      ∃ base fs₆, loadExisting S (F .load) (config.statePath "checkpoint")
        config.recordLimits fs₅ = .ok base fs₆ ∧
      ∃ restored fs₇, restoreCheckpoint S F (blobs.getD fun _ => none) journal
        config.recordLimits base fs₆ = .ok restored fs₇ ∧
      ∃ store, replayJournal S F (blobs.getD fun _ => none) journal
        ((base.map Checkpoint.records).getD []).length restored fs₇ = .ok store fs' ∧
      r = config.runtime blobs fs' journal store authority watermarks membership base := by
  unfold openLifecycleRuntime
  by_cases henabled : config.enabled = false
  · rw [if_pos henabled]
    constructor
    · intro h
      cases h
    · rintro ⟨htrue, _⟩
      rw [henabled] at htrue
      cases htrue
  rw [if_neg henabled]
  have henabled' : config.enabled = true := by simpa using henabled
  constructor
  · intro h
    rw [bind_ok] at h
    obtain ⟨_, t, hvalidate, h⟩ := h
    obtain ⟨hvalid, rfl⟩ := attempt_ok.mp hvalidate
    rw [bind_ok] at h
    obtain ⟨_, t, hdir, h⟩ := h
    obtain ⟨hmkdir, rfl⟩ := syscall_ok (wrap_ok.mp hdir)
    rw [bind_ok] at h
    obtain ⟨⟨journal, recovery⟩, fs₁, hjournal, h⟩ := h
    rw [bind_ok] at h
    obtain ⟨authority, fs₂, hauthority, h⟩ := h
    rw [bind_ok] at h
    obtain ⟨watermarks, fs₃, hwatermarks, h⟩ := h
    rw [bind_ok] at h
    obtain ⟨found, fs₄, hfound, h⟩ := h
    rw [bind_ok] at h
    obtain ⟨membership, fs₅, hmembership, h⟩ := h
    rw [bind_ok] at h
    obtain ⟨base, fs₆, hbase, h⟩ := h
    rw [bind_ok] at h
    obtain ⟨restored, fs₇, hrestore, h⟩ := h
    rw [bind_ok] at h
    obtain ⟨store, fs₈, hreplay, h⟩ := h
    cases h
    exact ⟨henabled', hvalid, hmkdir, journal, recovery, fs₁, wrap_ok.mp hjournal,
      authority, fs₂, wrap_ok.mp hauthority, watermarks, fs₃, wrap_ok.mp hwatermarks,
      found, fs₄, wrap_ok.mp hfound, membership, fs₅, wrap_ok.mp hmembership,
      base, fs₆, hbase, restored, fs₇, hrestore, store, wrap_ok.mp hreplay, rfl⟩
  · rintro ⟨_, hvalid, hmkdir, journal, recovery, fs₁, hjournal, authority, fs₂, hauthority,
      watermarks, fs₃, hwatermarks, found, fs₄, hfound, membership, fs₅, hmembership,
      base, fs₆, hbase, restored, fs₇, hrestore, store, hreplay, rfl⟩
    rw [run_bind_ok (run_attempt hvalid),
      run_bind_ok (wrap_ok.mpr (syscall_proceed hmkdir fs)),
      run_bind_ok (wrap_ok.mpr hjournal)]
    dsimp only
    rw [run_bind_ok (wrap_ok.mpr hauthority), run_bind_ok (wrap_ok.mpr hwatermarks),
      run_bind_ok (wrap_ok.mpr hfound), run_bind_ok (wrap_ok.mpr hmembership),
      run_bind_ok hbase, run_bind_ok hrestore, run_bind_ok (wrap_ok.mpr hreplay)]
    rfl

end Open

/-! ## Directories -/

/-- Every state of the authority can be written. -/
def LifecycleConfig.AuthorityFits (config : LifecycleConfig) (S : Stdlib) (peerID : Bytes) :
    Prop :=
  (Authority.new (config.statePath "authority") peerID
    ⟨config.recordLimits, 0, Version.zero⟩).Fits S

/-- The directory holds what the runtime has in memory, and the runtime is what the
directory stands for; `base` is the checkpoint in its file. -/
structure LifecycleRuntime.Backed (S : Stdlib) (config : LifecycleConfig) (peerID : Bytes)
    (base : Option Checkpoint) (r : LifecycleRuntime) : Prop where
  journal : r.node.journal.Synced S r.node.fs
  opened : r.node.journal.OpenedWith (config.statePath "journal") config.journalOptions
  authority : r.authority = (Authority.new (config.statePath "authority") peerID
    ⟨config.recordLimits, 0, Version.zero⟩).withVersion r.authority.current
  identified : validateAuthorityID S peerID config.recordLimits.normalized = .ok ()
  epoch : r.authority.current.epoch ≠ 0
  issued : ∃ version, r.authority.Stored S r.node.fs version ∧
    r.authority.current ≤ max version r.node.journal.lastVersion
  watermarks : r.node.watermarks.Durable S ⟨0, 0, 0⟩ r.node.fs
  watermarksPath : r.node.watermarks.path = config.statePath "watermarks"
  membership : r.membership.Durable S ⟨0, 0, 0⟩ r.node.fs
  membershipPath : r.membership.path = config.statePath "membership"
  configured : Configured S config r.membership
  checkpoint : CheckpointFile S config.recordLimits
    (r.node.fs.read (.file (config.statePath "checkpoint"))) base
  checkpointPath : r.checkpointPath = config.statePath "checkpoint"
  coherent : r.node.toApplier.Coherent S config.recordLimits (baseline base)
  held : ∀ record ∈ (baseline base).records ++ r.node.journal.records,
    HoldsBlob S r.node.blobs record
  sessions : ∀ key session, r.sessions key = some session →
    session.checkpointPath = config.statePath "checkpoint"

section Open

variable {S : Stdlib} {F : Faults} {blobs : Option Blobs} {token : String} {peerID : Bytes}
  {random : UInt64} {fs fs' : FS} {r : LifecycleRuntime}

theorem Authority.Raised.framed {a : Authority} (h : a.Raised S fs fs') :
    FS.Framed fs a.path fs' := by
  rcases h with hsame | ⟨_, _, _, _, hwrote⟩
  · exact hsame.framed _
  · exact hwrote.replaced.framed

/-- The blank allocator does not depend on what has been observed. -/
theorem Authority.new_observed (path : String) (authorityID : Bytes) (limits : Limits)
    (maxBytes : Int) (v w : Version) : Authority.new path authorityID ⟨limits, maxBytes, v⟩ =
      Authority.new path authorityID ⟨limits, maxBytes, w⟩ := rfl

theorem openAuthority_identified {o : Oracle} {path : String} {options : AuthorityOptions}
    {a : Authority} (h : openAuthority S o random path peerID options fs = .ok a fs') :
    validateAuthorityID S peerID options.normalized.limits = .ok () := by
  unfold openAuthority at h
  rw [bind_ok] at h
  obtain ⟨_, t, _, h⟩ := h
  rw [bind_ok] at h
  obtain ⟨_, t, hid, _⟩ := h
  exact (attempt_ok.mp hid).1

theorem LifecycleConfig.validate_blobs (henabled : config.enabled = true)
    (h : config.validate blobs token peerID = .ok ()) : ∃ b, blobs = some b := by
  cases blobs with
  | some b => exact ⟨b, rfl⟩
  | none =>
    unfold validate at h
    rw [if_neg (by simp [henabled])] at h
    cases h

/-- An opened runtime is backed by its directory, whatever failed on the way. -/
theorem openLifecycleRuntime_backed (hS : S.Lawful)
    (h : openLifecycleRuntime S F config blobs token peerID random fs = .ok (some r) fs') :
    r.node.fs = fs' ∧ r.node.blobs = blobs ∧ r.Backed S config peerID r.snapshot := by
  obtain ⟨henabled, hvalid, _, journal, recovery, fs₁, hjournal, authority, fs₂, hauthority,
    watermarks, fs₃, hwatermarks, found, fs₄, hfound, membership, fs₅, hmembership,
    base, fs₆, hbase, restored, fs₇, hrestore, store, hreplay, rfl⟩ :=
    openLifecycleRuntime_eq_ok.mp h
  obtain ⟨b, rfl⟩ := LifecycleConfig.validate_blobs henabled hvalid
  refine ⟨rfl, rfl, ?_⟩
  obtain ⟨_, rfl, hbook, hdurable⟩ := openWatermarkBook_ok hwatermarks
  obtain ⟨_, rfl, hmember, hfounded⟩ := openMembershipBook_ok hfound
  obtain ⟨hframe, hmember', hmembers, hconfigured⟩ :=
    configureMembership_ok hS hfounded hmembership
  obtain ⟨rfl, hcheckpoint⟩ := loadExisting_ok hbase
  obtain ⟨rfl, hfloor, hheld, hrestored⟩ := restoreCheckpoint_ok hrestore
  obtain ⟨rfl, hstore, hheld'⟩ := replayJournal_ok hreplay
  obtain ⟨hsynced, hopened⟩ := openJournal_synced hjournal
  have hauth := (openAuthority_triple hS (F .authority) fs₁).ok rfl hauthority
  have heq := hauth.eq
  rw [Authority.new_observed _ _ _ _ _ Version.zero] at heq
  have hpath : authority.path = config.statePath "authority" := by rw [heq]; rfl
  have hid := openAuthority_identified hauthority
  rw [hmember] at hframe
  -- The journal's file stays in place while the side files are written.
  have hjournalPath := hopened.path
  have hne : ∀ name, "journal" ≠ name → journal.path ≠ config.statePath name :=
    fun name hname => hjournalPath ▸ LifecycleConfig.statePath_ne hname
  have hsynced₂ : journal.Synced S fs₄ :=
    hsynced.of_framed hauth.raised.framed (hpath ▸ hne "authority" (by decide))
  have hsynced₃ : journal.Synced S fs' :=
    hsynced₂.of_framed hframe (hne "membership" (by decide))
  obtain ⟨n, hn, hlimits, _, _⟩ := hopened.options
  have hnlimits : journal.limits = config.recordLimits.normalized :=
    hlimits.trans (JournalOptions.normalized_fields hn).1
  have hwhole := (replay_restored hcheckpoint.baseline hrestored).trans hstore
  constructor
  case journal => exact hsynced₃
  case opened => exact hopened
  case authority => exact heq
  case identified => exact hid
  case epoch => exact hauth.epoch
  case issued =>
    refine ⟨authority.current, hauth.stored.of_read (hframe.read_ne ?_), le_max_left _ _⟩
    rw [hpath]
    exact LifecycleConfig.statePath_ne (by decide)
  case watermarks =>
    refine hdurable.of_read (hframe.read_ne ?_)
    rw [hbook]
    exact LifecycleConfig.statePath_ne (by decide)
  case watermarksPath => exact hbook
  case membership => exact hmembers
  case membershipPath => exact hmember'.trans hmember
  case configured => exact hconfigured
  case checkpoint => exact hcheckpoint
  case checkpointPath => rfl
  case coherent =>
    exact Applier.Coherent.of_replay ⟨rfl, Store.replay_limits hwhole, hnlimits⟩ hfloor
      hcheckpoint.baseline hwhole
  case held =>
    intro record hrecord
    rcases List.mem_append.mp hrecord with hin | hin
    · exact hheld record hin
    · exact hheld' record hin
  case sessions => exact fun _ _ hnone => nomatch hnone

/-- The directory of a backed runtime can be opened again, and this gives the same
state. -/
theorem LifecycleRuntime.Backed.reopen (hS : S.Lawful) {base : Option Checkpoint}
    (h : r.Backed S config peerID base) (hF : ∀ site c, F site c = .proceed)
    (henabled : config.enabled = true) (hvalid : config.validate blobs token peerID = .ok ())
    (hblobs : BlobsKept S r.node.blobs blobs) (hmax : r.node.journal.maxBytes < maxInt64)
    (hfits : config.AuthorityFits S peerID) (random : UInt64) :
    ∃ r' fs', openLifecycleRuntime S F config blobs token peerID random r.node.fs =
        .ok (some r') fs' ∧
      r'.node.journal = r.node.journal ∧ r'.node.store = r.node.store ∧
      r'.node.watermarks = r.node.watermarks ∧ r'.membership = r.membership ∧
      r.authority.current ≤ r'.authority.current ∧ r'.snapshot = base := by
  obtain ⟨b, rfl⟩ := LifecycleConfig.validate_blobs henabled hvalid
  have hpath : ∀ name, name ≠ "" → config.statePath name ≠ "" :=
    fun name hname => LifecycleConfig.statePath_ne_empty hname
  have hjournal := openJournal_reopen (hF .journal) h.journal hmax h.opened
  obtain ⟨version, hstored, hle⟩ := h.issued
  rw [h.authority] at hstored
  obtain ⟨fs₂, hauthority, hframe⟩ := @openAuthority_reopen S (config.statePath "authority")
    peerID ⟨config.recordLimits, 0, r.node.journal.lastVersion⟩ random r.node.fs
    (F .authority) (hF .authority) (hpath _ (by decide)) h.identified version hstored hfits
  have hwatermarks : r.node.watermarks.Durable S ⟨0, 0, 0⟩ fs₂ := by
    refine h.watermarks.of_read (hframe.read_ne ?_)
    rw [h.watermarksPath]
    exact LifecycleConfig.statePath_ne (by decide)
  have hmembership : r.membership.Durable S ⟨0, 0, 0⟩ fs₂ := by
    refine h.membership.of_read (hframe.read_ne ?_)
    rw [h.membershipPath]
    exact LifecycleConfig.statePath_ne (by decide)
  have hbook := openWatermarkBook_proceed (hF .watermark)
    (h.watermarksPath ▸ hpath _ (by decide)) hwatermarks
  have hmember := openMembershipBook_proceed (hF .membership)
    (h.membershipPath ▸ hpath _ (by decide)) hmembership
  rw [h.watermarksPath] at hbook
  rw [h.membershipPath] at hmember
  obtain ⟨fs₅, hconfigure, hframe'⟩ := h.configured.reopen hF fs₂
  rw [h.membershipPath] at hframe'
  have hcheckpoint : CheckpointFile S config.recordLimits
      (fs₅.read (.file (config.statePath "checkpoint"))) base := by
    rw [hframe'.read_ne (LifecycleConfig.statePath_ne (by decide)),
      hframe.read_ne (LifecycleConfig.statePath_ne (by decide))]
    exact h.checkpoint
  have hload := loadExisting_proceed (hF .load) (hpath "checkpoint" (by decide)) hcheckpoint
  have hheld : ∀ record ∈ (baseline base).records ++ r.node.journal.records,
      HoldsBlob S (some b) record := fun record hrecord => (h.held record hrecord).kept hblobs
  have hlisted := h.coherent.listed
  obtain ⟨restored, hrestored⟩ : ∃ restored, (Store.new config.recordLimits).replaceSnapshot S
      (baseline base).records = .ok restored := by
    refine ⟨_, Store.replaceSnapshot_eq_ok (fun r hr => ?_) hlisted.distinct⟩
    exact (Record.valid_normalized S config.recordLimits r).mpr (hlisted.valid r hr)
  have hrestore := restoreCheckpoint_proceed hS hF h.coherent.floor
    (fun record hrecord => hheld record (List.mem_append_left _ hrecord)) hrestored fs₅
  obtain ⟨ino, hopen, _⟩ := h.journal.ensureOpen
  have hreplay := replayJournal_proceed hS hF hopen
    (fun record hrecord => hheld record (List.mem_append_right _ hrecord))
    ((replay_restored hlisted hrestored).symm.trans h.coherent.replay)
    ((base.map Checkpoint.records).getD []).length fs₅
  refine ⟨_, fs₅, openLifecycleRuntime_eq_ok.mpr ⟨henabled, hvalid, hF _ _,
    r.node.journal, _, _, hjournal, _, fs₂, hauthority, _, fs₂, hbook, _, fs₂, hmember,
    _, fs₅, hconfigure, base, fs₅, hload, restored, fs₅, hrestore, _, hreplay, rfl⟩,
    rfl, rfl, rfl, rfl, hle, rfl⟩

end Open

end StreamHive.Lifecycle

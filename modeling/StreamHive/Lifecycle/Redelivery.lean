import StreamHive.Lifecycle.ApplierRun
import StreamHive.Lifecycle.Session

/-!
# Delivering a batch again

A batch that failed at some record is sent again from its start.  The records before
that one are in the store by then and are classified as duplicate or stale; the others
are appended where the first attempt stopped.  What a successful call does to the
journal and the store is a function of the record, the journal and the store, so any
number of interrupted attempts and a complete one end where one complete attempt does.

## Main results

* `Applier.apply_ok`, `Applier.apply_error_core` — what a call does to journal and store;
* `ApplierCore.AdmitsAll.settled` — the records applied so far are no news;
* `RepairSession.Reached.handleBatch` — what an attempt keeps, whatever fails in it;
* `redelivery` — interrupted attempts, then a complete one.
-/

namespace StreamHive.Lifecycle

open Verified ByteString Effect FileSystem Log

/-! ## The effect of a call -/

/-- What a call reads and changes besides the blobs and the files. -/
structure ApplierCore where
  journal : Journal
  store : Store
  limits : Limits

def Applier.core (a : Applier) : ApplierCore := ⟨a.journal, a.store, a.limits⟩

namespace ApplierCore

variable {S : Stdlib} {capabilities : List String} {blobs : Option Blobs} {record r : Record}
  {c : ApplierCore}

/-- The journal and the store with the record, if it is news. -/
def applied (S : Stdlib) (c : ApplierCore) (record : Record) : ApplierCore :=
  match c.store.classify S record with
  | .ok ⟨.applied, _⟩ =>
    if h : c.journal.lastVersion < record.version then
      { c with
        journal := c.journal.appended record (journalEntry S record).length h
        store := { c.store with records := c.store.records.put record } }
    else
      c
  | _ => c

def appliedAll (S : Stdlib) (c : ApplierCore) (records : List Record) : ApplierCore :=
  records.foldl (applied S) c

/-- The store has the record or a newer one of the same key. -/
def Settled (S : Stdlib) (c : ApplierCore) (record : Record) : Prop :=
  ∃ result, c.store.classify S record = .ok result ∧ result.outcome ≠ .applied

/-- The checks of a call, but for those on the context and the disk. -/
structure Admits (S : Stdlib) (capabilities : List String) (blobs : Option Blobs)
    (record : Record) (c : ApplierCore) : Prop where
  capable : hasLifecycleCapability capabilities = true
  valid : record.Valid S c.limits
  classified : ∃ result, c.store.classify S record = .ok result ∧
    (result.outcome = .applied → HoldsBlob S blobs record ∧ c.journal.Accepts S record)

theorem appliedAll_concat (c : ApplierCore) (records : List Record) (record : Record) :
    c.appliedAll S (records ++ [record]) = (c.appliedAll S records).applied S record := by
  simp [appliedAll]

theorem applied_settled (h : c.Settled S record) : c.applied S record = c := by
  obtain ⟨⟨outcome, version⟩, hclass, hne⟩ := h
  unfold applied
  rw [hclass]
  cases outcome with
  | applied => exact absurd rfl hne
  | duplicate | stale => rfl

theorem applied_news {result : ApplyResult} (hclass : c.store.classify S record = .ok result)
    (happlied : result.outcome = .applied) (hnewer : c.journal.lastVersion < record.version) :
    c.applied S record =
      { c with
        journal := c.journal.appended record (journalEntry S record).length hnewer
        store := { c.store with records := c.store.records.put record } } := by
  obtain ⟨outcome, version⟩ := result
  subst happlied
  unfold applied
  rw [hclass]
  exact dif_pos hnewer

/-- A record that is not applied has another in its place that is no older. -/
theorem Settled.previous (h : c.Settled S record) :
    ∃ p, c.store.records.get? record.key = some p ∧ record.version ≤ p.version := by
  obtain ⟨result, hclass, hne⟩ := h
  have heq := Store.classify_eq (Store.valid_of_classify hclass)
  rw [hclass] at heq
  by_contra hno
  refine hne ?_
  have hnewer : ∀ p, c.store.records.get? record.key = some p →
      p.version < record.version := by
    intro p hp
    by_contra hle
    exact hno ⟨p, hp, not_lt.mp hle⟩
  rw [Store.classifyRecord_newer hnewer] at heq
  cases heq
  rfl

theorem limits_applied (c : ApplierCore) (record : Record) :
    (c.applied S record).limits = c.limits := by
  unfold applied
  split
  · split <;> rfl
  · rfl

theorem limits_appliedAll (c : ApplierCore) (records : List Record) :
    (c.appliedAll S records).limits = c.limits := by
  induction records generalizing c with
  | nil => rfl
  | cons record rest ih => exact (ih _).trans (limits_applied c record)

/-- What is settled stays so when other records are applied. -/
theorem Settled.applied (h : c.Settled S r) (record : Record) :
    (c.applied S record).Settled S r := by
  by_cases hsettled : c.Settled S record
  · rw [applied_settled hsettled]
    exact h
  unfold ApplierCore.applied
  split
  · rename_i version hclass
    split
    swap
    · exact h
    obtain ⟨result, hr, hne⟩ := h
    have hvalid : r.Valid S c.store.limits := Store.valid_of_classify hr
    by_cases hkey : record.key = r.key
    · obtain ⟨p, hp, hle⟩ := Settled.previous ⟨result, hr, hne⟩
      have hnewer : p.version < record.version := by
        refine Store.newer_of_classify hclass rfl p ?_
        rw [hkey]
        exact hp
      have hlt : r.version < record.version := lt_of_le_of_lt hle hnewer
      refine Store.classify_superseded hvalid (p := record) ?_ hlt.le
        (fun heq => absurd heq hlt.ne)
      rw [← hkey]
      exact KeyedMap.get?_put_self _ _
    · refine ⟨result, ?_, hne⟩
      rw [Store.classify_eq hvalid] at hr
      refine (Store.classify_eq (s := { c.store with
        records := c.store.records.put record }) hvalid).trans ?_
      change classifyRecord r ((c.store.records.put record).get? r.key) = _
      rw [KeyedMap.get?_put_ne _ _ hkey]
      exact hr
  · exact h

theorem Settled.appliedAll (h : c.Settled S r) (records : List Record) :
    (c.appliedAll S records).Settled S r := by
  induction records generalizing c with
  | nil => exact h
  | cons record rest ih => exact ih (h.applied record)

/-- A record is settled once it has been applied. -/
theorem Admits.settled (h : c.Admits S capabilities blobs record) :
    (c.applied S record).Settled S record := by
  obtain ⟨result, hclass, haccepts⟩ := h.classified
  by_cases happlied : result.outcome = .applied
  · have hvalid : record.Valid S c.store.limits := Store.valid_of_classify hclass
    rw [applied_news hclass happlied (haccepts happlied).2.newer]
    exact Store.classify_superseded hvalid (KeyedMap.get?_put_self _ _) le_rfl fun _ => rfl
  · have hsettled : c.Settled S record := ⟨result, hclass, happlied⟩
    rw [applied_settled hsettled]
    exact hsettled

/-- Every record is admitted when those before it have been applied. -/
def AdmitsAll (S : Stdlib) (capabilities : List String) (blobs : Option Blobs)
    (records : List Record) (c : ApplierCore) : Prop :=
  ∀ before record after, records = before ++ record :: after →
    (c.appliedAll S before).Admits S capabilities blobs record

theorem AdmitsAll.concat {before : List Record}
    (h : c.AdmitsAll S capabilities blobs before)
    (hrecord : (c.appliedAll S before).Admits S capabilities blobs record) :
    c.AdmitsAll S capabilities blobs (before ++ [record]) := by
  intro p r q hsplit
  induction q using List.reverseRecOn with
  | nil =>
    obtain ⟨rfl, hr⟩ := List.append_inj' hsplit rfl
    cases hr
    exact hrecord
  | append_singleton q last _ =>
    rw [← List.cons_append, ← List.append_assoc] at hsplit
    exact h p r q (List.append_inj' hsplit rfl).1

/-- The records applied so far are no news. -/
theorem AdmitsAll.settled {done rest : List Record}
    (h : c.AdmitsAll S capabilities blobs (done ++ rest)) (hr : r ∈ done) :
    (c.appliedAll S done).Settled S r := by
  obtain ⟨before, after, rfl⟩ := List.append_of_mem hr
  have hadmits := h before r (after ++ rest) (by simp)
  have hafter := hadmits.settled.appliedAll after
  rw [← appliedAll_concat] at hafter
  simpa [ApplierCore.appliedAll] using hafter

end ApplierCore

/-! ## Calls -/

/-- An append succeeds when its checks pass and nothing fails. -/
theorem Journal.Accepts.append_none {S : Stdlib} {j : Journal} {record : Record}
    (h : j.Accepts S record) (fs : FS) :
    ∃ d, Journal.append S Oracle.none record ⟨fs, j⟩ = .ok () d := by
  obtain ⟨entry, hentry⟩ := h.encodes
  obtain ⟨ino, hopen⟩ := h.opened
  have hbytes := h.bytes
  rw [← journalEntry_of_encode hentry] at hbytes
  have hentries := h.entries
  have hnot : ¬ record.version.compare j.log.last ≤ 0 := by
    rw [Version.compare_le_zero]
    exact not_le.mpr h.newer
  have hroom : ¬ (j.log.records.length ≥ j.maxEntries ∨
      j.size + entry.length > j.maxBytes) := by omega
  have hseek : seekEnd Oracle.none ⟨ino, false⟩ (⟨fs, j⟩ : OnDisk Journal) =
      .ok () ⟨fs, j⟩ := rfl
  unfold Journal.append
  rw [run_bind_ok (ctxErr_proceed rfl _), run_bind_get,
    run_bind_ok (run_attempt h.valid), run_bind_ok (run_attempt hentry),
    run_bind_ok (run_attempt hopen), dif_neg hnot, run_bind_ok (run_raiseIf hroom),
    run_bind_ok (ctxErr_proceed rfl _), run_bind_ok hseek,
    run_bind_ok (run_onFS (writeFull_proceed rfl ino entry fs)),
    run_bind_ok (syscall_proceed rfl _)]
  exact ⟨_, rfl⟩

namespace Applier

variable {S : Stdlib} {F : Faults} {i : Nat} {capabilities : List String} {record : Record}
  {a a' : Applier}

/-- A record whose blob is held passes the check on it. -/
theorem ensureRecord_none (hS : S.Lawful) (h : HoldsBlob S a.blobs record) :
    ensureRecord S Oracle.none record none a = .ok () a := by
  unfold ensureRecord
  by_cases hp : record.state = .present
  swap
  · rw [if_neg hp]
    rfl
  rw [if_pos hp]
  obtain ⟨b, data, hb, hdata, hsum⟩ := h hp
  have hverify : verifySHA256Key S record.blobKey data = .ok () := by
    refine verifySHA256Key_eq_ok.mpr ⟨?_, hsum⟩
    rw [← hsum]
    exact hS.sha256_length data
  have hget : getBlob Oracle.none b record.blobKey a = .ok data a := by
    unfold getBlob
    rw [run_bind_ok (syscall_proceed rfl a), hdata]
    rfl
  unfold ensureBlob
  rw [run_bind_get, hb]
  exact (run_bind_ok hget).trans (run_attempt hverify)

/-- A call that succeeds has made its checks and applied the record. -/
theorem apply_ok {result : ApplyResult}
    (h : apply S F i capabilities record none a = .ok result a') :
    a.core.Admits S capabilities a.blobs record ∧ a'.core = a.core.applied S record ∧
      a'.blobs = a.blobs := by
  unfold apply at h
  rcases ctxErr_cases (F (.apply i)) 0 a with ⟨_, e, he⟩ | ⟨_, hx⟩
  · rw [run_bind_error he] at h
    cases h
  rw [run_bind_ok hx] at h
  by_cases hcap : hasLifecycleCapability capabilities = false
  · rw [run_bind_error (run_raiseIf_error hcap)] at h
    cases h
  have hcapable : hasLifecycleCapability capabilities = true := by simpa using hcap
  rw [run_bind_ok (run_raiseIf hcap), run_bind_get] at h
  cases hvalid : record.validate S a.limits with
  | error e =>
    rw [hvalid, run_bind_error (run_attempt_error rfl)] at h
    cases h
  | ok _ =>
  rw [hvalid, run_bind_ok (run_attempt rfl)] at h
  cases hclass : a.store.classify S record with
  | error e =>
    rw [hclass, run_bind_error (run_attempt_error rfl)] at h
    cases h
  | ok classification =>
  rw [hclass, run_bind_ok (run_attempt rfl)] at h
  by_cases happlied : classification.outcome = .applied
  swap
  · rw [if_pos happlied] at h
    cases h
    have hsettled : a.core.Settled S record := ⟨_, hclass, happlied⟩
    exact ⟨⟨hcapable, hvalid, _, hclass, fun h => absurd h happlied⟩,
      (ApplierCore.applied_settled hsettled).symm, rfl⟩
  rw [if_neg (not_not.mpr happlied)] at h
  rcases ensureRecord_cases S (F (.blob i)) record none a with
    ⟨e, blobs', hrun, _⟩ | ⟨blobs', hrun, _, hsame, hholds⟩
  · rw [run_bind_error hrun] at h
    cases h
  have hkept : a.withBlobs blobs' = a := by rw [hsame rfl]; rfl
  rw [run_bind_ok hrun, hkept] at h
  rw [hsame rfl] at hholds
  cases happend : Journal.append S (F (.append i)) record ⟨a.fs, a.journal⟩ with
  | error e d =>
    have hjournal : onJournal (Journal.append S (F (.append i)) record) a =
        .error e (a.withJournal d) := run_zoom_error happend
    rw [run_bind_error hjournal] at h
    cases h
  | ok u d =>
    have hjournal : onJournal (Journal.append S (F (.append i)) record) a =
        .ok () (a.withJournal d) := run_zoom happend
    obtain ⟨haccepts, hobj⟩ := Journal.append_ok_obj happend
    have hpublish : publish S record (a.withJournal d) =
        .ok classification ((a.withJournal d).published record) :=
      publish_news hclass happlied
    rw [run_bind_ok hjournal, hpublish] at h
    cases h
    refine ⟨⟨hcapable, hvalid, _, hclass, fun _ => ⟨hholds, haccepts⟩⟩, ?_, rfl⟩
    rw [ApplierCore.applied_news (c := a.core) hclass happlied haccepts.newer]
    change (⟨d.obj, _, _⟩ : ApplierCore) = _
    rw [hobj]
    rfl

/-- A call that fails has changed neither the journal nor the store. -/
theorem apply_error_core {suppliedBlob : Option Bytes} {e : Error}
    (h : apply S F i capabilities record suppliedBlob a = .error e a') :
    a'.core = a.core := by
  rcases apply_cases S F i capabilities record suppliedBlob a with
    ⟨e', blobs', hrun, _⟩ | ⟨res, hrun, _, _⟩ |
    ⟨res, blobs', _, _, _, _, ⟨e', d, happend, hrun⟩ | ⟨d, _, hrun⟩⟩
  · rw [hrun] at h
    cases h
    rfl
  · rw [hrun] at h
    cases h
  · rw [hrun] at h
    cases h
    have hobj := Journal.append_error_obj happend
    change (⟨d.obj, a.store, a.limits⟩ : ApplierCore) = ⟨a.journal, a.store, a.limits⟩
    rw [hobj]
  · rw [hrun] at h
    cases h

/-- A call succeeds when its checks pass and nothing fails. -/
theorem apply_none (hS : S.Lawful) (i : Nat)
    (h : a.core.Admits S capabilities a.blobs record) :
    ∃ result a', apply S Faults.none i capabilities record none a = .ok result a' := by
  obtain ⟨result, hclass, haccepts⟩ := h.classified
  have hvalid : record.validate S a.limits = .ok () := h.valid
  change a.store.classify S record = .ok result at hclass
  have hcap : ¬ hasLifecycleCapability capabilities = false := by simp [h.capable]
  unfold apply
  rw [run_bind_ok (ctxErr_proceed rfl a), run_bind_ok (run_raiseIf hcap), run_bind_get,
    run_bind_ok (run_attempt hvalid), run_bind_ok (run_attempt hclass)]
  by_cases happlied : result.outcome = .applied
  swap
  · rw [if_pos happlied]
    exact ⟨_, _, rfl⟩
  rw [if_neg (not_not.mpr happlied)]
  obtain ⟨hholds, hacc⟩ := haccepts happlied
  obtain ⟨d, happend⟩ := hacc.append_none a.fs
  have hjournal : onJournal (Journal.append S Oracle.none record) a =
      .ok () (a.withJournal d) := run_zoom happend
  have hpublish : publish S record (a.withJournal d) =
      .ok result ((a.withJournal d).published record) := publish_news hclass happlied
  exact ⟨_, _, (run_bind_ok (ensureRecord_none hS hholds)).trans
    ((run_bind_ok hjournal).trans hpublish)⟩

end Applier

/-! ## Batches -/

/-- The session with other contents of the blob store. -/
def SessionState.withBlobs (s : SessionState) (blobs : Option Blobs) : SessionState :=
  { s with node := { s.node with toApplier := s.node.toApplier.withBlobs blobs } }

/-- The journal and the store of the session's node. -/
abbrev SessionState.core (s : SessionState) : ApplierCore := s.node.toApplier.core

/-- The session after a call of the applier. -/
def SessionState.withApplier (s : SessionState) (a : Applier) : SessionState :=
  { s with node := { s.node with toApplier := a } }

/-- The session after a call of the watermark book. -/
def SessionState.withBook (s : SessionState) (d : OnDisk WatermarkBook) : SessionState :=
  { s with node := { s.node with fs := d.fs, watermarks := d.obj } }

namespace RepairSession

variable {S : Stdlib} {F : Faults} {s₀ s : SessionState} {blobs : Option Blobs}
  {batch : RepairBatch} {records rest : List Record} {record : Record}

/-- The session, the watermarks and the limits are those of `s₀`. -/
structure Beside (s₀ s : SessionState) : Prop where
  session : s.session = s₀.session
  limits : s.node.repairLimits = s₀.node.repairLimits
  book : s.node.watermarks = s₀.node.watermarks

/-- The loop has `rest` to do; some of that may have been applied before. -/
structure Walking (S : Stdlib) (s₀ : SessionState) (records rest : List Record)
    (s : SessionState) : Prop extends Beside s₀ s where
  place : ∃ before ahead behind, records = before ++ rest ∧ rest = ahead ++ behind ∧
    s.core = s₀.core.appliedAll S (before ++ ahead)

/-- The invariant rule for the loop over the records of a batch. -/
theorem applyRecords_triple {capabilities : List String}
    {I : List Record → SessionState → Prop} {E : Error → SessionState → Prop}
    (hok : ∀ i record rest s result a, I (record :: rest) s →
      Applier.apply S F i capabilities record none s.node.toApplier = .ok result a →
      I rest (s.withApplier a))
    (herr : ∀ i record rest s e a, I (record :: rest) s →
      Applier.apply S F i capabilities record none s.node.toApplier = .error e a →
      E e (s.withApplier a)) (records : List Record) :
    Triple (I records) (applyRecords S F capabilities records) (fun _ s => I [] s) E := by
  unfold applyRecords
  refine forEach_triple (fun i record rest => ?_) 0 records
  refine Triple.bind (R := fun _ s => I rest s) ?_ fun _ => Triple.pure fun _ h => h
  refine Triple.zoom fun s hs t ht => ?_
  subst ht
  cases hcall : Applier.apply S F i capabilities record none s.node.toApplier with
  | ok result a => exact hok i record rest s result a hs hcall
  | error e a => exact herr i record rest s e a hs hcall

/-- The loop has `rest` to do, and has found all before it admitted. -/
structure Applying (S : Stdlib) (s₀ : SessionState) (records rest : List Record)
    (s : SessionState) : Prop extends Beside s₀ s where
  blobs : s.node.blobs = s₀.node.blobs
  place : ∃ before, records = before ++ rest ∧ s.core = s₀.core.appliedAll S before ∧
    s₀.core.AdmitsAll S s₀.session.capabilities s₀.node.blobs before

/-- A loop that ends has found every record admitted, and has applied them all. -/
theorem applyRecords_ok {s' : SessionState}
    (h : applyRecords S F s.session.capabilities records s = .ok () s') :
    s.core.AdmitsAll S s.session.capabilities s.node.blobs records ∧ Beside s s' ∧
      s'.core = s.core.appliedAll S records := by
  have hloop : Triple (Applying S s records records)
      (applyRecords S F s.session.capabilities records)
      (fun _ t => Applying S s records [] t) fun _ _ => True := by
    refine applyRecords_triple ?_ (fun _ _ _ _ _ _ _ _ => trivial) records
    intro i record rest t result a ht hcall
    obtain ⟨before, hrecords, hcore, hadmits⟩ := ht.place
    obtain ⟨hchecks, hcore', hblobs'⟩ := Applier.apply_ok hcall
    change Applier.core _ = _ at hcore
    rw [hcore, ht.blobs] at hchecks
    refine ⟨⟨ht.session, ht.limits, ht.book⟩, hblobs'.trans ht.blobs, before ++ [record],
      by simp [hrecords], ?_, hadmits.concat hchecks⟩
    rw [ApplierCore.appliedAll_concat, ← hcore]
    exact hcore'
  have hstart : Applying S s records records s :=
    ⟨⟨rfl, rfl, rfl⟩, rfl, [], rfl, rfl, by simp [ApplierCore.AdmitsAll]⟩
  have hend := hloop.ok hstart h
  obtain ⟨before, hrecords, hcore, hadmits⟩ := hend.place
  rw [List.append_nil] at hrecords
  subst hrecords
  exact ⟨hadmits, hend.toBeside, hcore⟩

/-- Some of the records have been applied. -/
def Partway (S : Stdlib) (s₀ : SessionState) (records : List Record) (s : SessionState) :
    Prop :=
  Beside s₀ s ∧ ∃ done rest, records = done ++ rest ∧ s.core = s₀.core.appliedAll S done

theorem Walking.partway (h : Walking S s₀ records rest s) : Partway S s₀ records s := by
  obtain ⟨before, ahead, behind, hrecords, hrest, hcore⟩ := h.place
  refine ⟨h.toBeside, before ++ ahead, behind, ?_, hcore⟩
  rw [hrecords, hrest, List.append_assoc]

theorem Partway.walking (h : Partway S s₀ records s) : Walking S s₀ records records s := by
  obtain ⟨hbeside, done, rest, hrecords, hcore⟩ := h
  exact ⟨hbeside, [], done, rest, rfl, hrecords, hcore⟩

theorem Walking.done (h : Walking S s₀ records [] s) :
    Beside s₀ s ∧ s.core = s₀.core.appliedAll S records := by
  obtain ⟨before, ahead, behind, hrecords, hrest, hcore⟩ := h.place
  obtain ⟨rfl, rfl⟩ := List.append_eq_nil_iff.mp hrest.symm
  refine ⟨h.toBeside, ?_⟩
  rw [hcore, hrecords]

/-- A record applied before is passed over; else it is the next one. -/
theorem Walking.step (hadmits : s₀.core.AdmitsAll S s₀.session.capabilities blobs records)
    (h : Walking S s₀ records (record :: rest) s) {a : Applier}
    (ha : a.core = s.core.applied S record) :
    Walking S s₀ records rest (s.withApplier a) := by
  obtain ⟨before, ahead, behind, hrecords, hrest, hcore⟩ := h.place
  refine ⟨⟨h.session, h.limits, h.book⟩, ?_⟩
  cases ahead with
  | nil =>
    refine ⟨before ++ [record], [], rest, by simp [hrecords], rfl, ?_⟩
    rw [List.append_nil] at hcore
    rw [List.append_nil, ApplierCore.appliedAll_concat, ← hcore]
    exact ha
  | cons r ahead =>
    obtain ⟨rfl, rfl⟩ := List.cons.inj hrest
    have hsplit : records = (before ++ record :: ahead) ++ behind := by simp [hrecords]
    rw [hsplit] at hadmits
    have hsettled := hadmits.settled (r := record) (by simp)
    rw [← hcore] at hsettled
    refine ⟨before ++ [record], ahead, behind, by simp [hrecords], rfl, ?_⟩
    rw [ApplierCore.applied_settled hsettled, hcore] at ha
    rw [List.append_assoc]
    exact ha

/-- The loop of an attempt applies further records, or stops before the end. -/
theorem applyRecords_partway
    (hadmits : s₀.core.AdmitsAll S s₀.session.capabilities blobs records) :
    Triple (Partway S s₀ records) (applyRecords S F s₀.session.capabilities records)
      (fun _ s => Beside s₀ s ∧ s.core = s₀.core.appliedAll S records)
      (fun _ s => Partway S s₀ records s) := by
  refine Triple.weaken (applyRecords_triple (I := Walking S s₀ records)
    (E := fun _ s => Partway S s₀ records s) ?_ ?_ records) (fun _ h => h.walking)
    (fun _ _ h => h.done) fun _ _ h => h
  · intro i record rest s result a hs hcall
    exact hs.step hadmits (Applier.apply_ok hcall).2.1
  · intro i record rest s e a hs hcall
    have hsame : (s.withApplier a).core = s.core := Applier.apply_error_core hcall
    obtain ⟨hbeside, done, rest', hrecords, hcore⟩ := hs.partway
    exact ⟨⟨hbeside.session, hbeside.limits, hbeside.book⟩, done, rest', hrecords,
      hsame.trans hcore⟩

/-- A record that remains is admitted where the loop stands. -/
theorem Walking.admits (hadmits : s₀.core.AdmitsAll S s₀.session.capabilities blobs records)
    (h : Walking S s₀ records (record :: rest) s) :
    s.core.Admits S s₀.session.capabilities blobs record := by
  obtain ⟨before, ahead, behind, hrecords, hrest, hcore⟩ := h.place
  cases ahead with
  | nil =>
    rw [hcore, List.append_nil]
    exact hadmits before record rest hrecords
  | cons r ahead =>
    obtain ⟨rfl, rfl⟩ := List.cons.inj hrest
    have hchecks := hadmits before record (ahead ++ behind) hrecords
    have hsplit : records = (before ++ record :: ahead) ++ behind := by simp [hrecords]
    rw [hsplit] at hadmits
    obtain ⟨result, hclass, hne⟩ := hadmits.settled (r := record) (by simp)
    rw [hcore]
    refine ⟨hchecks.capable, ?_, result, hclass, fun happlied => absurd happlied hne⟩
    rw [ApplierCore.limits_appliedAll]
    have hvalid := hchecks.valid
    rw [ApplierCore.limits_appliedAll] at hvalid
    exact hvalid

/-- Without faults, and with the blobs of a complete run, the loop ends. -/
theorem applyRecords_completes (hS : S.Lawful)
    (hadmits : s₀.core.AdmitsAll S s₀.session.capabilities blobs records) :
    Triple (fun s => Partway S s₀ records s ∧ s.node.blobs = blobs)
      (applyRecords S Faults.none s₀.session.capabilities records)
      (fun _ s => Beside s₀ s ∧ s.core = s₀.core.appliedAll S records)
      (fun _ _ => False) := by
  refine Triple.weaken (applyRecords_triple
    (I := fun rest s => Walking S s₀ records rest s ∧ s.node.blobs = blobs)
    (E := fun _ _ => False) ?_ ?_ records) (fun _ h => ⟨h.1.walking, h.2⟩)
    (fun _ _ h => h.1.done) fun _ _ h => h
  · rintro i record rest s result a ⟨hs, hblobs⟩ hcall
    obtain ⟨_, hcore, hsame⟩ := Applier.apply_ok hcall
    exact ⟨hs.step hadmits hcore, hsame.trans hblobs⟩
  · rintro i record rest s e a ⟨hs, hblobs⟩ hcall
    have hchecks := hs.admits hadmits
    rw [← hblobs] at hchecks
    obtain ⟨result, a', hok⟩ := Applier.apply_none hS i hchecks
    rw [hcall] at hok
    cases hok

/-! ## Attempts -/

/-- The watermarks after the batch has been acknowledged. -/
def ackedBook (s : SessionState) (batch : RepairBatch) : WatermarkBook :=
  s.node.watermarks.withMap (s.node.watermarks.acknowledged s.session.peerID batch.to_)

/-- What the last part of an attempt checks. -/
def Acknowledgeable (S : Stdlib) (batch : RepairBatch) (s₀ : SessionState) : Prop :=
  batch.to_ ≤ (s₀.core.appliedAll S batch.records).journal.lastVersion ∧
    s₀.node.watermarks.Acknowledges S s₀.session.peerID batch.to_ ∧ AckFits S s₀ batch.to_

/-- What a complete run from `s` with these blobs has checked. -/
structure Completes (S : Stdlib) (batch : RepairBatch) (blobs : Option Blobs)
    (s : SessionState) : Prop where
  ready : batch.delivery S s.watermark s.node.repairLimits = .ok .ready
  admits : s.core.AdmitsAll S s.session.capabilities blobs batch.records
  able : Acknowledgeable S batch s

/-- The batch has been applied and acknowledged. -/
structure Finished (S : Stdlib) (batch : RepairBatch) (s₀ s : SessionState) : Prop where
  session : s.session = s₀.session
  limits : s.node.repairLimits = s₀.node.repairLimits
  book : s.node.watermarks = ackedBook s₀ batch
  core : s.core = s₀.core.appliedAll S batch.records

/-- Where interrupted attempts can lead. -/
def Reached (S : Stdlib) (batch : RepairBatch) (s₀ s : SessionState) : Prop :=
  Partway S s₀ batch.records s ∨ Finished S batch s₀ s

/-- The last part of an attempt: record the acknowledgement, and answer. -/
def acknowledgeBatch (S : Stdlib) (F : Faults) (peer : Bytes) (version : Version) :
    EStateM Error SessionState Unit := do
  SessionState.onBook (RepairCoordinator.acknowledge S F (← get).node.journal peer version)
  writeAck S F version

theorem handleBatch_ready (hready : batch.delivery S s.watermark s.node.repairLimits =
    .ok .ready) :
    handleBatch S F batch s = (do
      applyRecords S F s.session.capabilities batch.records
      acknowledgeBatch S F s.session.peerID batch.to_) s := by
  unfold handleBatch
  rw [run_bind_get, run_bind_ok (run_attempt hready)]
  rfl

theorem handleBatch_duplicate (hdup : batch.delivery S s.watermark s.node.repairLimits =
    .ok .duplicate) : handleBatch S F batch s = writeAck S F s.watermark s := by
  unfold handleBatch
  rw [run_bind_get, run_bind_ok (run_attempt hdup)]
  rfl

theorem Finished.wrote (h : Finished S batch s₀ s) (payload : Bytes) :
    Finished S batch s₀ (s.wrote payload) := ⟨h.session, h.limits, h.book, h.core⟩

theorem AckFits.congr {w : Version} (hsession : s.session = s₀.session)
    (hlimits : s.node.repairLimits = s₀.node.repairLimits) :
    AckFits S s w ↔ AckFits S s₀ w := by
  unfold AckFits FrameFits
  rw [hsession, hlimits]

/-- Once the records are applied, the acknowledgement is refused with the watermarks as
they were, or it is recorded; an answer that fails comes after that. -/
theorem Beside.acknowledge (h : Beside s₀ s)
    (hcore : s.core = s₀.core.appliedAll S batch.records) (F : Faults) :
    (∃ e s', acknowledgeBatch S F s₀.session.peerID batch.to_ s = .error e s' ∧
        Reached S batch s₀ s' ∧ (F = Faults.none → ¬ Acknowledgeable S batch s₀)) ∨
      (∃ s', acknowledgeBatch S F s₀.session.peerID batch.to_ s = .ok () s' ∧
        Finished S batch s₀ s' ∧ Acknowledgeable S batch s₀) := by
  have hlast : s.node.journal.lastVersion =
      (s₀.core.appliedAll S batch.records).journal.lastVersion := by
    rw [← hcore]
    rfl
  unfold acknowledgeBatch
  rw [run_bind_get]
  rcases RepairCoordinator.acknowledge_spec (S := S) F s.node.journal s₀.session.peerID
    batch.to_ ⟨s.node.fs, s.node.watermarks⟩ with ⟨e, fs, hrun, hrefused⟩ |
    ⟨⟨fs, book⟩, hrun, ⟨hle, hacc⟩, hsaved⟩
  · have hbook : SessionState.onBook (RepairCoordinator.acknowledge S F s.node.journal
        s₀.session.peerID batch.to_) s = .error e (s.withBook ⟨fs, s.node.watermarks⟩) :=
      run_zoom_error hrun
    refine .inl ⟨e, _, run_bind_error hbook, .inl ⟨⟨h.session, h.limits, h.book⟩,
      batch.records, [], by simp, hcore⟩, ?_⟩
    rintro rfl ⟨hreaches, hacknowledges, _⟩
    rcases (hrefused Faults.none_soft).2 with hnot | ⟨_, _, _, hctx⟩
    · refine hnot ⟨?_, ?_⟩
      · rw [hlast]
        exact hreaches
      · rw [h.book]
        exact hacknowledges
    · exact hctx rfl
  · have hbook : SessionState.onBook (RepairCoordinator.acknowledge S F s.node.journal
        s₀.session.peerID batch.to_) s = .ok () (s.withBook ⟨fs, book⟩) := run_zoom hrun
    have hmap : book = ackedBook s₀ batch := by
      refine hsaved.obj.trans ?_
      rw [h.book]
      rfl
    rw [hmap] at hbook
    rw [hlast] at hle
    rw [h.book] at hacc
    have hfinished : Finished S batch s₀ (s.withBook ⟨fs, ackedBook s₀ batch⟩) :=
      ⟨h.session, h.limits, rfl, hcore⟩
    rw [run_bind_ok hbook]
    rcases writeAck_cases (S := S) F batch.to_ (s.withBook ⟨fs, ackedBook s₀ batch⟩) with
      ⟨e, s', hack, hs', hwhy⟩ | ⟨hack, hfits⟩
    · refine .inl ⟨e, s', hack, .inr ?_, ?_⟩
      · rcases hs' with rfl | rfl
        · exact hfinished
        · exact hfinished.wrote _
      · rintro rfl hable
        rw [AckFits.congr hfinished.session hfinished.limits] at hwhy
        exact hwhy.elim (fun hno => hno hable.2.2) not_frameRefused
    · rw [AckFits.congr hfinished.session hfinished.limits] at hfits
      exact .inr ⟨_, hack, hfinished.wrote _, hle, hacc, hfits⟩

/-- A run that ends has made all its checks, and the batch is acknowledged. -/
theorem handleBatch_ok {s' : SessionState}
    (hready : batch.delivery S s.watermark s.node.repairLimits = .ok .ready)
    (h : handleBatch S F batch s = .ok () s') :
    Completes S batch s.node.blobs s ∧ Finished S batch s s' := by
  rw [handleBatch_ready hready, bind_ok] at h
  obtain ⟨_, t, hloop, h⟩ := h
  obtain ⟨hadmits, hbeside, hcore⟩ := applyRecords_ok hloop
  rcases hbeside.acknowledge hcore F with ⟨e, t', hrun, _⟩ | ⟨t', hrun, hfinished, hable⟩
  · rw [hrun] at h
    cases h
  · rw [hrun] at h
    cases h
    exact ⟨⟨hready, hadmits, hable⟩, hfinished⟩

variable (hC : Completes S batch blobs s₀)
include hC

theorem Completes.watermark_le :
    s₀.watermark ≤ batch.to_ := by
  have hready := hC.ready
  rw [RepairBatch.delivery_eq (RepairBatch.admissible_of_delivery hready)] at hready
  by_cases hle : batch.to_ ≤ s₀.watermark
  · rw [if_pos hle] at hready
    cases hready
  · exact (not_le.mp hle).le

theorem Finished.watermark (h : Finished S batch s₀ s) :
    s.watermark = batch.to_ := by
  unfold SessionState.watermark
  rw [h.session, h.book]
  refine (WatermarkBook.watermark_acknowledged hC.able.2.1).trans ?_
  exact max_eq_right hC.watermark_le

/-- A batch that has been acknowledged is a duplicate. -/
theorem Finished.duplicate (h : Finished S batch s₀ s) :
    batch.delivery S s.watermark s.node.repairLimits = .ok .duplicate := by
  rw [h.limits, h.watermark hC,
    RepairBatch.delivery_eq (RepairBatch.admissible_of_delivery hC.ready), if_pos le_rfl]

theorem Beside.ready (h : Beside s₀ s) :
    batch.delivery S s.watermark s.node.repairLimits = .ok .ready := by
  unfold SessionState.watermark
  rw [h.session, h.book, h.limits]
  exact hC.ready

/-- An attempt finishes the batch, or stops where others can go on. -/
theorem Reached.handleBatch :
    Triple (Reached S batch s₀) (handleBatch S F batch)
      (fun _ s => Finished S batch s₀ s) (fun _ s => Reached S batch s₀ s) := by
  rintro s (hpart | hfinished)
  · have hbeside := hpart.1
    rw [handleBatch_ready (hbeside.ready hC), hbeside.session]
    have hloop := (applyRecords_partway (F := F) hC.admits).weaken (fun _ h => h)
      (fun _ _ h => h) fun _ _ h => (.inl h : Reached S batch s₀ _)
    refine Triple.bind hloop (fun _ t ht => ?_) s hpart
    rcases ht.1.acknowledge ht.2 F with ⟨e, t', hrun, ht', _⟩ | ⟨t', hrun, ht', _⟩
    · rw [hrun]
      exact ht'
    · rw [hrun]
      exact ht'
  · rw [handleBatch_duplicate (hfinished.duplicate hC)]
    have hack : Preserves (Finished S batch s₀) (writeAck S F s.watermark) :=
      writeAck_triple fun _ h => h.wrote _
    exact hack.weaken (fun _ h => h) (fun _ _ h => h) (fun _ _ h => .inr h) s hfinished

/-- An attempt with nothing failing, and with the blobs of a complete run, ends. -/
theorem Reached.completes (hS : S.Lawful)
    (h : Reached S batch s₀ s) (hblobs : s.node.blobs = blobs) :
    ∃ s', RepairSession.handleBatch S Faults.none batch s = .ok () s' := by
  rcases h with hpart | hfinished
  · have hbeside := hpart.1
    rw [handleBatch_ready (hbeside.ready hC), hbeside.session]
    have hloop := applyRecords_completes hS hC.admits s ⟨hpart, hblobs⟩
    cases hrun : applyRecords S Faults.none s₀.session.capabilities batch.records s with
    | error e t =>
      rw [hrun] at hloop
      exact hloop.elim
    | ok u t =>
      rw [hrun] at hloop
      rw [run_bind_ok hrun]
      rcases hloop.1.acknowledge hloop.2 Faults.none with ⟨_, _, _, _, hnot⟩ | ⟨t', hack, _⟩
      · exact absurd hC.able (hnot rfl)
      · exact ⟨t', hack⟩
  · rw [handleBatch_duplicate (hfinished.duplicate hC), hfinished.watermark hC]
    have hfits := (AckFits.congr hfinished.session hfinished.limits).mpr hC.able.2.2
    rcases writeAck_cases (S := S) Faults.none batch.to_ s with ⟨_, _, _, _, hwhy⟩ | ⟨hack, _⟩
    · exact (hwhy.elim (fun hno => hno hfits) not_frameRefused).elim
    · exact ⟨_, hack⟩

end RepairSession

/-! ## The journal file -/

/-- Appends are written and synced, or refused before a byte is written. -/
def Faults.RefusesAppends (F : Faults) : Prop :=
  ∀ i, F (.append i) .sync = .proceed ∧
    (F (.append i) (.write 0) = .proceed ∨ F (.append i) (.write 0) = .fail 0)

/-- The journal's file, which is not the watermark file, holds its records. -/
structure SessionState.OnFile (S : Stdlib) (s : SessionState) : Prop where
  synced : s.node.journal.Synced S s.node.fs
  apart : s.node.journal.path ≠ s.node.watermarks.path

section File

variable {S : Stdlib} {F : Faults} {fs : FS} {path : String}

/-- A call whose append is refused before a byte is written keeps file and journal
together. -/
theorem Applier.apply_synced (hS : S.Lawful) (hF : F.RefusesAppends) {a : Applier}
    (h : a.journal.Synced S a.fs) (i : Nat) (capabilities : List String) (record : Record) :
    (finalState (Applier.apply S F i capabilities record none a)).journal.Synced S
        (finalState (Applier.apply S F i capabilities record none a)).fs ∧
      (finalState (Applier.apply S F i capabilities record none a)).journal.path =
        a.journal.path := by
  rcases apply_cases S F i capabilities record none a with
    ⟨e, blobs', hrun, _⟩ | ⟨res, hrun, _, _⟩ |
    ⟨res, blobs', _, _, _, _, hend⟩
  · rw [hrun]
    exact ⟨h, rfl⟩
  · rw [hrun]
    exact ⟨h, rfl⟩
  rcases Journal.append_cases S (F (.append i)) record ⟨a.fs, a.journal⟩ with
    ⟨e, happend⟩ | ⟨hacc, ino, hopen, _, hcases⟩
  · rw [happend] at hend
    rcases hend with ⟨e', d, hd, hrun⟩ | ⟨d, hd, _⟩
    · cases hd
      rw [hrun]
      exact ⟨h, rfl⟩
    · cases hd
  rcases hcases with ⟨e, n, hwrite, happend⟩ | ⟨e, _, hsync, _⟩ | ⟨_, happend⟩
  · have hn : n = 0 := by
      rcases (hF i).2 with hproceed | hfail
      · rw [hproceed] at hwrite
        rcases hwrite with hwrite | hwrite
        · cases hwrite
        · cases hwrite
      · rw [hfail] at hwrite
        rcases hwrite with hwrite | hwrite
        · cases hwrite
          rfl
        · cases hwrite
    subst hn
    rw [happend] at hend
    rcases hend with ⟨e', d, hd, hrun⟩ | ⟨d, hd, _⟩
    · cases hd
      rw [hrun]
      refine ⟨?_, rfl⟩
      change a.journal.Synced S (a.fs.extend ino [])
      rw [FS.extend_nil]
      exact h
    · cases hd
  · exact absurd (hF i).1 hsync
  · rw [happend] at hend
    rcases hend with ⟨e', d, hd, _⟩ | ⟨d, hd, hrun⟩
    · cases hd
    · cases hd
      rw [hrun]
      exact ⟨h.appended hS hacc hopen, rfl⟩

theorem RepairSession.handleBatch_onFile (hS : S.Lawful) (hF : F.RefusesAppends)
    (batch : RepairBatch) :
    Triple (SessionState.OnFile S) (handleBatch S F batch)
      (fun _ s => s.OnFile S) (fun _ s => s.OnFile S) := by
  have hack : ∀ version, Triple (SessionState.OnFile S) (writeAck S F version)
      (fun _ s => s.OnFile S) (fun _ s => s.OnFile S) :=
    fun version => writeAck_triple fun _ h => ⟨h.synced, h.apart⟩
  have happly : ∀ i capabilities record (s : SessionState), s.OnFile S →
      (s.withApplier (finalState (Applier.apply S F i capabilities record none
        s.node.toApplier))).OnFile S := by
    intro i capabilities record s hs
    obtain ⟨hsynced, hpath⟩ := Applier.apply_synced hS hF hs.synced i capabilities record
    exact ⟨hsynced, fun heq => hs.apart (hpath.symm.trans heq)⟩
  unfold handleBatch
  refine Triple.get_bind fun s hs => ?_
  refine Triple.weaken (P := SessionState.OnFile S) ?_ (fun t ht => ht ▸ hs) (fun _ _ h => h)
    fun _ _ h => h
  refine Triple.bind (Triple.attempt fun _ _ h _ => h) fun _ => Triple.fact fun _ => ?_
  split
  · exact hack _
  refine Triple.bind (applyRecords_triple (I := fun _ s => s.OnFile S) ?_ ?_ _) fun _ => ?_
  · intro i record rest t result a ht hcall
    have hnext := happly i s.session.capabilities record t ht
    rw [hcall] at hnext
    exact hnext
  · intro i record rest t e a ht hcall
    have hnext := happly i s.session.capabilities record t ht
    rw [hcall] at hnext
    exact hnext
  refine Triple.get_bind fun t ht => ?_
  refine Triple.bind (R := fun _ s => s.OnFile S) (Triple.zoom ?_) fun _ => hack _
  intro u hu
  obtain rfl : t = u := hu.symm
  have hbook := RepairCoordinator.acknowledge_inPlace (S := S) t.node.fs
    t.node.watermarks.path F t.node.journal s.session.peerID batch.to_
  have hnext : ∀ d, WatermarkBook.InPlace t.node.fs t.node.watermarks.path d →
      (t.withBook d).OnFile S := by
    rintro d ⟨hfs, hpath⟩
    exact ⟨ht.synced.of_framed hfs ht.apart, hpath ▸ ht.apart⟩
  exact hbook.weaken
    (fun d hd => hd ▸ ⟨(FS.Untouched.refl t.node.fs).framed _, rfl⟩)
    (fun _ d hd => hnext d hd) fun _ d hd => hnext d hd

end File

/-! ## Redelivery -/

/-- One delivery of a batch: what fails in it, and the blobs held at the time. -/
structure Attempt where
  faults : Faults
  blobs : Option Blobs

namespace RepairSession

/-- The session after a batch has been delivered any number of times. -/
def afterAttempts (S : Stdlib) (batch : RepairBatch) (s : SessionState)
    (attempts : List Attempt) : SessionState :=
  attempts.foldl (fun t attempt => finalState
    (handleBatch S attempt.faults batch (t.withBlobs attempt.blobs))) s

theorem Reached.withBlobs {S : Stdlib} {batch : RepairBatch} {s₀ s : SessionState}
    (h : Reached S batch s₀ s) (blobs : Option Blobs) :
    Reached S batch s₀ (s.withBlobs blobs) := by
  rcases h with ⟨hbeside, hplace⟩ | h
  · exact .inl ⟨⟨hbeside.session, hbeside.limits, hbeside.book⟩, hplace⟩
  · exact .inr ⟨h.session, h.limits, h.book, h.core⟩

theorem reached_afterAttempts {S : Stdlib} {batch : RepairBatch} {blobs : Option Blobs}
    {s₀ : SessionState} (hC : Completes S batch blobs s₀) (attempts : List Attempt) :
    ∀ {s : SessionState}, Reached S batch s₀ s →
      Reached S batch s₀ (afterAttempts S batch s attempts) := by
  induction attempts with
  | nil =>
    intro s h
    exact h
  | cons attempt rest ih =>
    intro s h
    have hattempt := (Reached.handleBatch (F := attempt.faults) hC).weaken
      (fun _ h => h) (fun _ _ h => (.inr h : Reached S batch s₀ _)) fun _ _ h => h
    exact ih (hattempt.finalState (h.withBlobs attempt.blobs))

theorem onFile_afterAttempts {S : Stdlib} (hS : S.Lawful) {batch : RepairBatch}
    {attempts : List Attempt} :
    ∀ {s : SessionState}, s.OnFile S → (∀ a ∈ attempts, a.faults.RefusesAppends) →
      (afterAttempts S batch s attempts).OnFile S := by
  induction attempts with
  | nil =>
    intro s h _
    exact h
  | cons attempt rest ih =>
    intro s h hall
    have hF := hall attempt List.mem_cons_self
    have hstart : (s.withBlobs attempt.blobs).OnFile S := ⟨h.synced, h.apart⟩
    exact ih ((handleBatch_onFile hS hF batch).finalState hstart)
      fun a ha => hall a (List.mem_cons_of_mem _ ha)

end RepairSession

open RepairSession in
/-- A batch is ready for a session, and its delivery with some blobs runs to the end.
Then after any number of deliveries from the same state, with anything failing in them
and any blobs held: a delivery with those blobs and nothing failing runs to the end;
and every delivery that does leaves the store, the journal and the watermarks of the
first, with no record twice in the journal.  If the appends that failed had written
nothing, the journal's file holds the same records. -/
theorem redelivery {S : Stdlib} (hS : S.Lawful) {batch : RepairBatch}
    {s once : SessionState} {F : Faults} {blobs : Option Blobs}
    (hready : batch.delivery S s.watermark s.node.repairLimits = .ok .ready)
    (honce : handleBatch S F batch (s.withBlobs blobs) = .ok () once)
    (attempts : List Attempt) :
    let again := afterAttempts S batch s attempts
    (∃ final, handleBatch S Faults.none batch (again.withBlobs blobs) = .ok () final) ∧
    (∀ F' blobs' final, handleBatch S F' batch (again.withBlobs blobs') = .ok () final →
      final.node.store = once.node.store ∧ final.node.journal = once.node.journal ∧
        final.node.watermarks = once.node.watermarks ∧ final.node.journal.records.Nodup ∧
        (s.OnFile S → F'.RefusesAppends → (∀ a ∈ attempts, a.faults.RefusesAppends) →
          final.node.journal.Synced S final.node.fs)) := by
  intro again
  obtain ⟨hchecked, hfinished⟩ := handleBatch_ok (s := s.withBlobs blobs) hready honce
  have hC : Completes S batch blobs s := ⟨hready, hchecked.admits, hchecked.able⟩
  have hstart : Reached S batch s s := .inl ⟨⟨rfl, rfl, rfl⟩, [], batch.records, rfl, rfl⟩
  have hagain : Reached S batch s again := reached_afterAttempts hC attempts hstart
  refine ⟨(hagain.withBlobs blobs).completes hC hS rfl, ?_⟩
  intro F' blobs' final hfinal
  have hend : Finished S batch s final :=
    (Reached.handleBatch hC).ok (hagain.withBlobs blobs') hfinal
  have hcore : final.core = once.core := hend.core.trans hfinished.core.symm
  refine ⟨congrArg ApplierCore.store hcore, congrArg ApplierCore.journal hcore,
    hend.book.trans hfinished.book.symm, ?_, ?_⟩
  · exact final.node.journal.log.ascending.imp fun hlt heq => hlt.ne (congrArg _ heq)
  · intro hfile hF' hall
    have hdisk : again.OnFile S := onFile_afterAttempts hS hfile hall
    have hstart' : (again.withBlobs blobs').OnFile S := ⟨hdisk.synced, hdisk.apart⟩
    exact ((handleBatch_onFile hS hF' batch).ok hstart' hfinal).synced

namespace Sample

/-- A session on a new journal. -/
def receiving : SessionState where
  node :=
    { applier with
      watermarks := WatermarkBook.new "watermarks" ⟨0, 0, 0⟩
      repairLimits := RepairLimits.unset.normalized }
  session := ⟨ascii "a", [lifecycleCapabilityV1], none, "checkpoint",
    defaultMaxRepairFrameBytes, false, false⟩
  outbox := []

/-- A record with a blob and a deletion. -/
def storedAndSecond : RepairBatch :=
  ⟨repairBatchMessageType, Version.zero, second.version, false, [stored, second]⟩

def storedBlob : Option Blobs :=
  some (Function.update (fun _ => none) stored.blobKey (some (ascii "data")))

/-- The second append is refused. -/
def secondRefused : Faults
  | .append 1, .write 0 => .fail 0
  | _, _ => .proceed

/-- The blob is missing; it is there and the second append is refused. -/
def twoFailures : List Attempt := [⟨Faults.none, some fun _ => none⟩, ⟨secondRefused, storedBlob⟩]

theorem twoFailures_refuse : ∀ a ∈ twoFailures, a.faults.RefusesAppends := by
  intro a ha i
  rcases List.mem_cons.mp ha with rfl | ha
  · exact ⟨rfl, .inl rfl⟩
  · rw [List.mem_singleton.mp ha]
    match i with
    | 0 => exact ⟨rfl, .inl rfl⟩
    | 1 => exact ⟨rfl, .inr rfl⟩
    | _ + 2 => exact ⟨rfl, .inl rfl⟩

theorem receiving_onFile : receiving.OnFile goStdlib :=
  ⟨(openJournal_synced openJournal_opened).1, by decide⟩

end Sample

open Sample RepairSession in
/-- After the two failures the journal has the first record; one more delivery ends with
both in the store, in the journal and in its file. -/
theorem redelivery_sample :
    (afterAttempts goStdlib storedAndSecond receiving twoFailures).node.journal.records =
      [stored] ∧
    ∃ final, handleBatch goStdlib Faults.none storedAndSecond
        ((afterAttempts goStdlib storedAndSecond receiving twoFailures).withBlobs
          storedBlob) = .ok () final ∧
      final.node.journal.records = [stored, second] ∧
      final.node.watermarks.watermark (ascii "a") = second.version ∧
      final.node.journal.Synced goStdlib final.node.fs := by
  have hready : storedAndSecond.delivery goStdlib receiving.watermark
      receiving.node.repairLimits = .ok .ready := by decide +kernel
  have hrun : error? (handleBatch goStdlib Faults.none storedAndSecond
      (receiving.withBlobs storedBlob)) = none := by decide +kernel
  have honce := ok_of_error? hrun
  obtain ⟨⟨final, hfinal⟩, hsame⟩ := redelivery goStdlib_lawful hready honce twoFailures
  obtain ⟨_, hjournal, hbook, _, hfile⟩ := hsame _ _ _ hfinal
  refine ⟨by decide +kernel, final, hfinal, ?_, ?_, hfile receiving_onFile ?_ ?_⟩
  · rw [hjournal]
    decide +kernel
  · rw [hbook]
    decide +kernel
  · exact fun _ => ⟨rfl, .inl rfl⟩
  · exact twoFailures_refuse

end StreamHive.Lifecycle

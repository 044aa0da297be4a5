import StreamHive.Lifecycle.Encoding
import StreamHive.Verified.Effect
import StreamHive.Verified.LatestView

/-!
# Record validation, the logical store and checkpoint normalization

`Record.validate`, `Store.apply`, `Store.replaceSnapshot` and
`normalizeCheckpointRecords` as the program computes them.  The store is the
table of current records, each filed under its own key, so
`Store.snapshot` is the table's listing in namespace and key order.

## Main results

* `Store.replay_eq_putAll` — replaying valid records, each newer than what the
  store and the earlier records hold under its key, stores all of them;
* `Store.classify_superseded` — a record that the store already supersedes is
  classified stale or duplicate and changes nothing;
* `normalizeCheckpointRecords_eq_ok` — normalization accepts exactly the
  duplicate-free lists of valid records at or below the watermark, and returns
  their listing.
-/

namespace StreamHive.Lifecycle

open Verified ByteString Effect Log

variable {S : Stdlib} {limits : Limits} {record : Record} {rs : List Record}

/-! ## Validation -/

/-- The bounds on an authority identity. -/
def validateAuthorityID (S : Stdlib) (authorityID : Bytes) (limits : Limits) :
    Except Error Unit :=
  if authorityID = [] then
    .error .authorityEmpty
  else if authorityID.length > limits.normalized.maxAuthorityIDBytes then
    .error .authorityTooLarge
  else if S.isPrintable authorityID = false then
    .error .authorityNotPrintable
  else
    .ok ()

/-- The blob key that a state requires. -/
def validateBlobKey (r : Record) : Except Error Unit :=
  match r.state with
  | .present =>
    if r.blobKey.length ≠ sha256Size then .error .invalidBlobKey else .ok ()
  | .deleted =>
    if r.blobKey.length ≠ 0 then .error .invalidBlobKey else .ok ()
  | .other _ => .error .invalidState

/-- The bounds and invariants required before persistence. -/
def Record.validate (S : Stdlib) (r : Record) (limits : Limits) :
    Except Error Unit :=
  if r.nameSpace.length = 0 then
    .error .namespaceEmpty
  else if r.nameSpace.length > limits.normalized.maxNamespaceBytes then
    .error .namespaceTooLarge
  else if r.logicalKey.length = 0 then
    .error .logicalKeyEmpty
  else if r.logicalKey.length > limits.normalized.maxLogicalKeyBytes then
    .error .logicalKeyTooLarge
  else do
    validateAuthorityID S r.authorityID limits.normalized
    if r.version.IsZero then
      .error .zeroVersion
    else do
      validateBlobKey r
      if (S.record.marshal r).length > limits.normalized.maxRecordBytes then
        .error .recordTooLarge
      else
        .ok ()

/-- The record passes validation under the limits. -/
def Record.Valid (S : Stdlib) (limits : Limits) (r : Record) : Prop :=
  r.validate S limits = .ok ()

instance (S : Stdlib) (limits : Limits) (r : Record) :
    Decidable (r.Valid S limits) :=
  match h : r.validate S limits with
  | .ok () => isTrue h
  | .error e => isFalse (by simp [Record.Valid, h])

/-- What validation establishes. -/
structure Record.Checked (S : Stdlib) (limits : Limits) (r : Record) : Prop where
  authority : S.isPrintable r.authorityID = true
  version : ¬ r.version.IsZero
  blobKey : (r.state = .present ∧ r.blobKey.length = sha256Size) ∨
    (r.state = .deleted ∧ r.blobKey = [])
  size : (S.record.marshal r).length ≤ limits.normalized.maxRecordBytes

theorem Record.Valid.checked {r : Record} (h : r.Valid S limits) : r.Checked S limits := by
  unfold Record.Valid Record.validate at h
  split at h
  · cases h
  split at h
  · cases h
  split at h
  · cases h
  split at h
  · cases h
  have hauthority : validateAuthorityID S r.authorityID limits.normalized = .ok () := by
    cases hv : validateAuthorityID S r.authorityID limits.normalized with
    | ok _ => rfl
    | error e =>
      rw [hv] at h
      cases h
  rw [hauthority] at h
  change (if r.version.IsZero then _ else _) = _ at h
  split at h
  · cases h
  next hzero =>
    have hblob : validateBlobKey r = .ok () := by
      cases hv : validateBlobKey r with
      | ok _ => rfl
      | error e =>
        rw [hv] at h
        cases h
    rw [hblob] at h
    change (if _ > _ then _ else _) = _ at h
    split at h
    · cases h
    next hsize =>
      refine ⟨?_, hzero, ?_, not_lt.mp hsize⟩
      · unfold validateAuthorityID at hauthority
        split at hauthority
        · cases hauthority
        split at hauthority
        · cases hauthority
        split at hauthority
        · cases hauthority
        next hprint => simpa using hprint
      · unfold validateBlobKey at hblob
        split at hblob
        · next hstate =>
            split at hblob
            · cases hblob
            · next hlen => exact .inl ⟨hstate, not_not.mp hlen⟩
        · next hstate =>
            split at hblob
            · cases hblob
            · next hlen =>
                exact .inr ⟨hstate, List.length_eq_zero_iff.mp (not_not.mp hlen)⟩
        · cases hblob

theorem Record.Checked.clean {r : Record} (h : r.Checked S limits) : r.Clean S where
  authority := h.authority
  state := by
    rcases h.blobKey with hp | hd
    · exact .inl hp.1
    · exact .inr hd.1

theorem Record.Valid.clean {r : Record} (h : r.Valid S limits) : r.Clean S := h.checked.clean

variable (S)

@[simp] theorem Record.validate_normalized (limits : Limits) (r : Record) :
    r.validate S limits.normalized = r.validate S limits := by
  simp [Record.validate]

@[simp] theorem Record.valid_normalized (limits : Limits) (r : Record) :
    r.Valid S limits.normalized ↔ r.Valid S limits := by
  simp [Record.Valid]

/-! ## The store -/

/-- The classification of one application. -/
inductive ApplyOutcome where
  | applied
  | duplicate
  | stale
  deriving DecidableEq, Repr

/-- The outcome for one record, with the version the key then has. -/
structure ApplyResult where
  outcome : ApplyOutcome
  version : Version
  deriving DecidableEq, Repr

/-- The table of current records. -/
abbrev Table := KeyedMap LogicalKey.cmp Record.key

/-- The table that a list of records leaves, the last record of each key. -/
abbrev tableOf (records : List Record) : Table :=
  KeyedMap.view LogicalKey.cmp Record.key records

/-- The logical state view. -/
structure Store where
  limits : Limits
  records : Table

variable {s : Store}

def classifyRecord (record : Record) (previous : Option Record) :
    Except Error ApplyResult :=
  match previous with
  | none => .ok ⟨.applied, record.version⟩
  | some previous =>
    if record.version.compare previous.version > 0 then
      .ok ⟨.applied, record.version⟩
    else if record.version.compare previous.version < 0 then
      .ok ⟨.stale, previous.version⟩
    else if record.bodyEqual previous then
      .ok ⟨.duplicate, previous.version⟩
    else
      .error .conflict

namespace Store

/-- An empty state view. -/
def new (limits : Limits) : Store := ⟨limits.normalized, KeyedMap.empty⟩

/-- The outcome of a record, without changing the state. -/
def classify (s : Store) (record : Record) : Except Error ApplyResult := do
  record.validate S s.limits
  classifyRecord record (s.records.get? record.key)

/-- Apply a record according to version and same-version conflict rules. -/
def apply (s : Store) (record : Record) : Except Error (ApplyResult × Store) := do
  record.validate S s.limits
  let result ← classifyRecord record (s.records.get? record.key)
  if result.outcome = .applied then
    .ok (result, { s with records := s.records.put record })
  else
    .ok (result, s)

/-- Apply a list of records, in order. -/
def replay (s : Store) : List Record → Except Error Store
  | [] => .ok s
  | r :: rest =>
    match s.apply S r with
    | .ok (_, s') => replay s' rest
    | .error e => .error e

/-- The records in namespace and key order. -/
def snapshot (s : Store) : List Record := s.records.values

/-- The loop of `replaceSnapshot`. -/
def collect (limits : Limits) (next : Table) : List Record → Except Error Table
  | [] => .ok next
  | r :: rest => do
    r.validate S limits
    if (next.get? r.key).isSome then
      .error .duplicateLogicalKey
    else
      collect limits (next.put r) rest

/-- Replace the view with a validated, duplicate-free set. -/
def replaceSnapshot (s : Store) (records : List Record) : Except Error Store := do
  let next ← collect S s.limits KeyedMap.empty records
  .ok { s with records := next }

/-- Namespace and key bounds. -/
def validateKey (s : Store) (nameSpace key : Bytes) : Except Error Unit :=
  if nameSpace.length = 0 then
    .error .namespaceEmpty
  else if nameSpace.length > s.limits.normalized.maxNamespaceBytes then
    .error .namespaceTooLarge
  else if key.length = 0 then
    .error .logicalKeyEmpty
  else if key.length > s.limits.normalized.maxLogicalKeyBytes then
    .error .logicalKeyTooLarge
  else
    .ok ()

/-! ### Classification -/

theorem classifyRecord_newer {previous : Option Record}
    (h : ∀ p, previous = some p → p.version < record.version) :
    classifyRecord record previous = .ok ⟨.applied, record.version⟩ := by
  cases previous with
  | none => rfl
  | some p =>
    have hlt := h p rfl
    simp [classifyRecord, hlt]

theorem classifyRecord_applied {previous : Option Record} {result : ApplyResult}
    (h : classifyRecord record previous = .ok result) (happlied : result.outcome = .applied) :
    ∀ p, previous = some p → p.version < record.version := by
  intro p hp
  subst hp
  simp only [classifyRecord, Version.compare_pos, Version.compare_lt_zero] at h
  split at h
  · next hlt => exact hlt
  · split at h
    · cases h
      cases happlied
    · split at h
      · cases h
        cases happlied
      · cases h

theorem classifyRecord_superseded {p : Record} (hle : record.version ≤ p.version)
    (hsame : record.version = p.version → record = p) :
    ∃ result, classifyRecord record (some p) = .ok result ∧
      result.outcome ≠ .applied := by
  simp only [classifyRecord, Version.compare_pos, Version.compare_lt_zero,
    if_neg (not_lt.mpr hle)]
  by_cases hlt : record.version < p.version
  · rw [if_pos hlt]
    exact ⟨_, rfl, by simp⟩
  · have heq : record = p := hsame (le_antisymm hle (not_lt.mp hlt))
    rw [if_neg hlt, heq, if_pos (Record.bodyEqual_self p)]
    exact ⟨_, rfl, by simp⟩

variable {S}

theorem classify_eq (h : record.Valid S s.limits) :
    s.classify S record = classifyRecord record (s.records.get? record.key) := by
  unfold classify
  rw [show record.validate S s.limits = .ok () from h]
  rfl

theorem valid_of_classify {result : ApplyResult} (h : s.classify S record = .ok result) :
    record.Valid S s.limits := by
  unfold classify at h
  unfold Record.Valid
  cases hv : record.validate S s.limits with
  | ok _ => rfl
  | error e =>
    rw [hv] at h
    cases h

/-- A record that the store supersedes is stale or duplicate. -/
theorem classify_superseded {p : Record} (hvalid : record.Valid S s.limits)
    (hp : s.records.get? record.key = some p) (hle : record.version ≤ p.version)
    (hsame : record.version = p.version → record = p) :
    ∃ result, s.classify S record = .ok result ∧ result.outcome ≠ .applied := by
  rw [classify_eq hvalid, hp]
  exact classifyRecord_superseded hle hsame

/-- A classification as applied says that the record is newer than what the
store holds under its key. -/
theorem newer_of_classify {result : ApplyResult} (h : s.classify S record = .ok result)
    (happlied : result.outcome = .applied) :
    ∀ p, s.records.get? record.key = some p → p.version < record.version := by
  rw [classify_eq (valid_of_classify h)] at h
  exact classifyRecord_applied h happlied

/-- Applying a record newer than what the store holds stores it. -/
theorem apply_newer (hvalid : record.Valid S s.limits)
    (hnewer : ∀ p, s.records.get? record.key = some p →
      p.version < record.version) : s.apply S record =
      .ok (⟨.applied, record.version⟩, { s with records := s.records.put record }) := by
  unfold apply
  rw [show record.validate S s.limits = .ok () from hvalid,
    classifyRecord_newer hnewer]
  rfl

/-! ### Replay -/

/-- Each record is newer than what the table, and the records before it, hold
under its key. -/
def Newer (m : Table) : List Record → Prop
  | [] => True
  | r :: rest =>
    (∀ p, m.get? r.key = some p → p.version < r.version) ∧ Newer (m.put r) rest

theorem replay_eq_putAll (hvalid : ∀ r ∈ rs, r.Valid S s.limits) (hnewer : Newer s.records rs) :
    s.replay S rs = .ok { s with records := s.records.putAll rs } := by
  induction rs generalizing s with
  | nil => rfl
  | cons r rest ih =>
    have hr := apply_newer (hvalid r (by simp)) hnewer.1
    simp only [replay, hr]
    exact ih (fun r' hr' => hvalid r' (by simp [hr'])) hnewer.2

theorem newer_of_ascending {m : Table} (hasc : Ascending Record.version rs)
    (hm : ∀ k p, m.get? k = some p → ∀ r ∈ rs, p.version < r.version) : Newer m rs := by
  induction rs generalizing m with
  | nil => trivial
  | cons r rest ih =>
    refine ⟨fun p hp => hm _ p hp r (by simp), ih hasc.tail ?_⟩
    intro k p hp r' hr'
    by_cases hk : r.key = k
    · rw [← hk, KeyedMap.get?_put_self] at hp
      cases hp
      exact hasc.head_lt r' hr'
    · rw [KeyedMap.get?_put_ne m r hk] at hp
      exact hm k p hp r' (by simp [hr'])

theorem newer_of_distinct {m : Table} (hne : rs.Pairwise fun a b => a.key ≠ b.key)
    (hm : ∀ r ∈ rs, m.get? r.key = none) : Newer m rs := by
  induction rs generalizing m with
  | nil => trivial
  | cons r rest ih =>
    obtain ⟨hhead, htail⟩ := List.pairwise_cons.mp hne
    refine ⟨?_, ih htail ?_⟩
    · intro p hp
      rw [hm r (by simp)] at hp
      cases hp
    · intro r' hr'
      rw [KeyedMap.get?_put_ne m r (hhead r' hr')]
      exact hm r' (by simp [hr'])

theorem Newer.append {m : Table} {ss : List Record} (hr : Newer m rs)
    (hs : Newer (m.putAll rs) ss) : Newer m (rs ++ ss) := by
  induction rs generalizing m with
  | nil => exact hs
  | cons r rest ih => exact ⟨hr.1, ih hr.2 hs⟩

/-- A base with distinct keys followed by an ascending log above it. -/
theorem newer_base_append {base : List Record} {floor : Version}
    (hne : base.Pairwise fun a b => a.key ≠ b.key) (hbase : ∀ r ∈ base, r.version ≤ floor)
    (hasc : Ascending Record.version rs) (hrs : ∀ r ∈ rs, floor < r.version) :
    Newer KeyedMap.empty (base ++ rs) := by
  refine Newer.append (newer_of_distinct hne fun r _ => KeyedMap.get?_empty _) ?_
  refine newer_of_ascending hasc ?_
  intro k p hp r hr
  have hmem := (KeyedMap.mem_of_view hp).1
  exact lt_of_le_of_lt (hbase p hmem) (hrs r hr)

/-! ### Replacing the view -/

theorem collect_eq_ok {next : Table} (hvalid : ∀ r ∈ rs, r.Valid S limits)
    (hne : rs.Pairwise fun a b => a.key ≠ b.key) (hnext : ∀ r ∈ rs, next.get? r.key = none) :
    collect S limits next rs = .ok (next.putAll rs) := by
  induction rs generalizing next with
  | nil => rfl
  | cons r rest ih =>
    obtain ⟨hhead, htail⟩ := List.pairwise_cons.mp hne
    unfold collect
    rw [show r.validate S limits = .ok () from hvalid r (by simp)]
    change (if (next.get? r.key).isSome then _ else _) = _
    rw [hnext r (by simp), if_neg (by simp)]
    refine ih (fun r' hr' => hvalid r' (by simp [hr'])) htail ?_
    intro r' hr'
    rw [KeyedMap.get?_put_ne next r (hhead r' hr')]
    exact hnext r' (by simp [hr'])

theorem replaceSnapshot_eq_ok (hvalid : ∀ r ∈ rs, r.Valid S s.limits)
    (hne : rs.Pairwise fun a b => a.key ≠ b.key) : s.replaceSnapshot S rs =
      .ok { s with records := tableOf rs } := by
  unfold replaceSnapshot
  rw [collect_eq_ok hvalid hne fun r _ => KeyedMap.get?_empty _]
  rfl

end Store

/-! ## Checkpoint normalization -/

/-- Namespace order, then key order. -/
def Record.keyLE (a b : Record) : Prop := (LogicalKey.cmp a.key b.key).isLE = true

instance : DecidableRel Record.keyLE := fun a b =>
  inferInstanceAs (Decidable ((LogicalKey.cmp a.key b.key).isLE = true))

/-- Two neighbours have the same namespace and key. -/
def hasAdjacentDuplicate : List Record → Bool
  | a :: b :: rest =>
    (a.nameSpace == b.nameSpace && a.logicalKey == b.logicalKey) ||
      hasAdjacentDuplicate (b :: rest)
  | _ => false

/-- The validation loop of `normalizeCheckpointRecords`. -/
def validateCheckpointRecords (watermark : Version) (limits : Limits) :
    List Record → Except Error Unit
  | [] => .ok ()
  | r :: rest => do
    r.validate S limits
    if r.version.compare watermark > 0 then
      .error (.errorf "lifecycle: record exceeds checkpoint watermark" .conflict)
    else
      validateCheckpointRecords watermark limits rest

def normalizeCheckpointRecords (records : List Record) (watermark : Version) (limits : Limits) :
    Except Error (List Record) :=
  if watermark.IsZero ∧ records.length > 0 then
    .error .zeroVersion
  else do
    validateCheckpointRecords S watermark limits.normalized records
    let out := records.insertionSort Record.keyLE
    if hasAdjacentDuplicate out then
      .error .duplicateLogicalKey
    else
      .ok out

/-- The records form a checkpoint at the watermark. -/
structure CheckpointRecords (S : Stdlib) (limits : Limits) (watermark : Version)
    (records : List Record) : Prop where
  zero : watermark.IsZero → records = []
  valid : ∀ r ∈ records, r.Valid S limits
  bounded : ∀ r ∈ records, r.version ≤ watermark
  distinct : records.Pairwise fun a b => a.key ≠ b.key

variable {S}

theorem validateCheckpointRecords_eq_ok {watermark : Version} {records : List Record} :
    validateCheckpointRecords S watermark limits records = .ok () ↔
      (∀ r ∈ records, r.Valid S limits) ∧ ∀ r ∈ records, r.version ≤ watermark := by
  induction records with
  | nil => simp [validateCheckpointRecords]
  | cons r rest ih =>
    unfold validateCheckpointRecords
    cases hv : r.validate S limits with
    | error e =>
      constructor
      · intro h
        cases h
      · rintro ⟨h, _⟩
        have hr := h r (by simp)
        rw [Record.Valid, hv] at hr
        cases hr
    | ok _ =>
      change (if r.version.compare watermark > 0 then _ else _) = _ ↔ _
      simp only [Version.compare_pos, List.mem_cons, forall_eq_or_imp]
      by_cases hw : watermark < r.version
      · rw [if_pos hw]
        constructor
        · intro h
          cases h
        · rintro ⟨_, hle, _⟩
          exact absurd hle (not_le.mpr hw)
      · rw [if_neg hw, ih]
        constructor
        · rintro ⟨hvalid, hle⟩
          exact ⟨⟨hv, hvalid⟩, not_lt.mp hw, hle⟩
        · rintro ⟨⟨_, hvalid⟩, _, hle⟩
          exact ⟨hvalid, hle⟩

private theorem cmp_cases {a b : LogicalKey} (h : (LogicalKey.cmp a b).isLE = true) :
    LogicalKey.cmp a b = .lt ∨ a = b := by
  cases hc : LogicalKey.cmp a b with
  | lt => exact .inl rfl
  | eq => exact .inr (Std.LawfulEqCmp.eq_of_compare hc)
  | gt =>
    rw [hc] at h
    cases h

instance : Std.Total Record.keyLE where
  total := by
    intro a b
    unfold Record.keyLE
    rw [show LogicalKey.cmp a.key b.key = (LogicalKey.cmp b.key a.key).swap from
      Std.OrientedCmp.eq_swap]
    cases LogicalKey.cmp b.key a.key <;> decide

instance : IsTrans Record Record.keyLE where
  trans := by
    intro a b c hab hbc
    exact Std.TransCmp.isLE_trans hab hbc

private theorem key_eq_iff {a b : Record} :
    (a.nameSpace == b.nameSpace && a.logicalKey == b.logicalKey) = true ↔
      a.key = b.key := by
  simp [Record.key]

/-- In a sorted list without equal neighbours all keys ascend strictly. -/
theorem keyAscending_of_sorted (hsorted : rs.Pairwise Record.keyLE)
    (hdup : hasAdjacentDuplicate rs = false) :
    KeyedMap.KeyAscending LogicalKey.cmp Record.key rs := by
  induction rs with
  | nil => exact List.Pairwise.nil
  | cons a rest ih =>
    obtain ⟨hhead, htail⟩ := List.pairwise_cons.mp hsorted
    cases rest with
    | nil => exact List.pairwise_singleton _ _
    | cons b rest =>
      simp only [hasAdjacentDuplicate, Bool.or_eq_false_iff] at hdup
      have hrest := ih htail hdup.2
      have hab : LogicalKey.cmp a.key b.key = .lt := by
        rcases cmp_cases (hhead b (by simp)) with hlt | heq
        · exact hlt
        · rw [key_eq_iff.mpr heq] at hdup
          cases hdup.1
      refine List.pairwise_cons.mpr ⟨List.forall_mem_cons.mpr ⟨hab, fun c hc => ?_⟩, hrest⟩
      exact Std.TransCmp.lt_trans hab ((List.pairwise_cons.mp hrest).1 c hc)

theorem hasAdjacentDuplicate_of_distinct (h : rs.Pairwise fun a b => a.key ≠ b.key) :
    hasAdjacentDuplicate rs = false := by
  induction rs with
  | nil => rfl
  | cons a rest ih =>
    obtain ⟨hhead, htail⟩ := List.pairwise_cons.mp h
    cases rest with
    | nil => rfl
    | cons b rest =>
      simp only [hasAdjacentDuplicate, Bool.or_eq_false_iff]
      refine ⟨?_, ih htail⟩
      rw [Bool.eq_false_iff]
      intro heq
      exact hhead b (by simp) (key_eq_iff.mp heq)

/-- Sorting a duplicate-free list gives the listing of the table it builds. -/
theorem insertionSort_eq_values (h : rs.Pairwise fun a b => a.key ≠ b.key) :
    rs.insertionSort Record.keyLE =
      (tableOf rs).values := by
  have hperm := List.perm_insertionSort Record.keyLE rs
  have hne : (rs.insertionSort Record.keyLE).Pairwise fun a b => a.key ≠ b.key :=
    hperm.symm.pairwise h fun hab => Ne.symm hab
  have hasc := keyAscending_of_sorted (List.pairwise_insertionSort Record.keyLE rs)
    (hasAdjacentDuplicate_of_distinct hne)
  refine KeyedMap.KeyAscending.eq_of_mem_iff hasc (KeyedMap.values_ascending _) ?_
  intro r
  rw [hperm.mem_iff]
  exact (KeyedMap.mem_values_putAll_empty h r).symm

/-- Normalization accepts exactly the duplicate-free lists of valid records at
or below the watermark, and returns their listing. -/
theorem normalizeCheckpointRecords_eq_ok {records out : List Record} {watermark : Version} :
    normalizeCheckpointRecords S records watermark limits = .ok out ↔
      CheckpointRecords S limits watermark records ∧
        out = (tableOf records).values := by
  unfold normalizeCheckpointRecords
  by_cases hzero : watermark.IsZero ∧ records.length > 0
  · rw [if_pos hzero]
    constructor
    · intro h
      cases h
    · rintro ⟨h, _⟩
      rw [h.zero hzero.1] at hzero
      simp at hzero
  · rw [if_neg hzero]
    cases hv : validateCheckpointRecords S watermark limits.normalized records with
    | error e =>
      constructor
      · intro h
        cases h
      · rintro ⟨h, _⟩
        have := validateCheckpointRecords_eq_ok.mpr
          ⟨fun r hr => (Record.valid_normalized S limits r).mpr (h.valid r hr),
            h.bounded⟩
        rw [hv] at this
        cases this
    | ok _ =>
      obtain ⟨hvalid, hbounded⟩ := validateCheckpointRecords_eq_ok.mp hv
      change (if hasAdjacentDuplicate (records.insertionSort Record.keyLE)
        then _ else _) = _ ↔ _
      by_cases hdup : hasAdjacentDuplicate
          (records.insertionSort Record.keyLE) = true
      · rw [if_pos hdup]
        constructor
        · intro h
          cases h
        · rintro ⟨h, _⟩
          have hperm := List.perm_insertionSort Record.keyLE records
          rw [hasAdjacentDuplicate_of_distinct
            (hperm.symm.pairwise h.distinct fun hab => Ne.symm hab)] at hdup
          cases hdup
      · rw [if_neg hdup]
        have hasc := keyAscending_of_sorted
          (List.pairwise_insertionSort Record.keyLE records)
          (Bool.eq_false_iff.mpr hdup)
        have hdistinct : records.Pairwise fun a b => a.key ≠ b.key :=
          (List.perm_insertionSort Record.keyLE records).pairwise hasc.key_ne
            fun hab => Ne.symm hab
        rw [insertionSort_eq_values hdistinct]
        constructor
        · intro h
          cases h
          refine ⟨⟨?_, ?_, hbounded, hdistinct⟩, rfl⟩
          · intro hw
            by_contra hne
            exact hzero ⟨hw, List.length_pos_iff.mpr hne⟩
          · intro r hr
            exact (Record.valid_normalized S limits r).mp (hvalid r hr)
        · rintro ⟨_, rfl⟩
          rfl

namespace CheckpointRecords

variable {watermark : Version} {records : List Record}

/-- A listing of a table is already normal. -/
theorem view_values (m : Table) :
    (tableOf m.values).values = m.values := by
  exact congrArg KeyedMap.values (KeyedMap.putAll_values m)

variable (h : CheckpointRecords S limits watermark records)
include h

theorem normalize :
    normalizeCheckpointRecords S records watermark limits =
      .ok (tableOf records).values :=
  normalizeCheckpointRecords_eq_ok.mpr ⟨h, rfl⟩

theorem mem_values (r : Record) :
    r ∈ (tableOf records).values ↔ r ∈ records :=
  KeyedMap.mem_values_putAll_empty h.distinct r

/-- The listing of a checkpoint is a checkpoint. -/
theorem values :
    CheckpointRecords S limits watermark
      (tableOf records).values where
  zero := by
    intro hw
    rw [h.zero hw]
    rfl
  valid := fun r hr => h.valid r ((h.mem_values r).mp hr)
  bounded := fun r hr => h.bounded r ((h.mem_values r).mp hr)
  distinct := (KeyedMap.values_ascending _).key_ne

theorem clean :
    Record.AllClean S records := fun r hr => (h.valid r hr).clean

/-- The records are their own listing, up to order. -/
theorem perm_values :
    records.Perm (tableOf records).values := by
  rw [← insertionSort_eq_values h.distinct]
  exact (List.perm_insertionSort Record.keyLE records).symm

/-- Replaying a checkpoint and then newer records gives the table of both. -/
theorem replay_append
    (hasc : Ascending Record.version rs) (habove : ∀ r ∈ rs, watermark < r.version)
    (hvalid : ∀ r ∈ rs, r.Valid S limits) : (Store.new limits).replay S (records ++ rs) =
      .ok ⟨limits.normalized, tableOf (records ++ rs)⟩ := by
  refine Store.replay_eq_putAll ?_ ?_
  · intro r hr
    have hr' : r.Valid S limits := (List.mem_append.mp hr).elim (h.valid r) (hvalid r)
    simpa [Store.new] using hr'
  · exact Store.newer_base_append h.distinct h.bounded hasc habove

end CheckpointRecords

namespace Store

theorem replay_append (S : Stdlib) (s : Store) (rs ss : List Record) :
    s.replay S (rs ++ ss) = s.replay S rs >>= fun s' => s'.replay S ss := by
  induction rs generalizing s with
  | nil => rfl
  | cons r rest ih =>
    simp only [List.cons_append, replay]
    cases s.apply S r with
    | ok p => exact ih p.2
    | error e => rfl

theorem replay_limits {s' : Store} (h : s.replay S rs = .ok s') : s'.limits = s.limits := by
  induction rs generalizing s with
  | nil =>
    cases h
    rfl
  | cons r rest ih =>
    simp only [replay] at h
    cases happly : s.apply S r with
    | error e =>
      rw [happly] at h
      cases h
    | ok p =>
      rw [happly] at h
      rw [ih h]
      unfold apply at happly
      rw [except_bind_ok] at happly
      obtain ⟨_, _, happly⟩ := happly
      rw [except_bind_ok] at happly
      obtain ⟨result, _, happly⟩ := happly
      split at happly
      · cases happly
        rfl
      · cases happly
        rfl

/-- Every record of a successful replay is valid. -/
theorem valid_of_replay {s' : Store} (h : s.replay S rs = .ok s') :
    ∀ r ∈ rs, r.Valid S s.limits := by
  induction rs generalizing s with
  | nil => simp
  | cons r rest ih =>
    simp only [replay] at h
    cases happly : s.apply S r with
    | error e =>
      rw [happly] at h
      cases h
    | ok p =>
      rw [happly] at h
      unfold apply at happly
      rw [except_bind_ok] at happly
      obtain ⟨_, hvalid, happly⟩ := happly
      rw [except_bind_ok] at happly
      obtain ⟨_, _, happly⟩ := happly
      have hlimits : p.2.limits = s.limits := by
        split at happly <;> cases happly <;> rfl
      have hrest := ih h
      rw [hlimits] at hrest
      exact List.forall_mem_cons.mpr ⟨hvalid, hrest⟩

end Store

end StreamHive.Lifecycle

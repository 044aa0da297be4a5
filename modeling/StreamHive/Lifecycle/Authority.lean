import StreamHive.Lifecycle.Sidecar

/-!
# The version authority

`OpenAuthority` and `Authority.Next`: a durable counter that allocates the
versions of local mutations, each above the last one and above the journal.

`Next` assigns the new token before it writes it, so after a failed write the
token in memory is ahead of the file.  The specifications therefore speak of the
token that the file holds (`Authority.Stored`), and of what can separate it from
the one in memory.

## Main results

* `Authority.next_spec` — a successful call stores and returns the successor of
  the larger of the previous token and the observed version; a failed call never
  lowers the token, and if the disk works, nothing is cancelled after the token
  is chosen and the file has room, it stores nothing and raises the token at most
  to the observed version;
* `openAuthority_triple` — opening never lowers the stored token, and a
  successful call stands at the stored one;
* `openAuthority_reopen` — reopening gives the larger of the stored token and
  the journal's last version.
-/

namespace StreamHive.Lifecycle

open Verified ByteString Effect FileSystem

/-! ## The program -/

def defaultMaxAuthorityStateBytes : Int := 2 ^ 20

/-- Bounds on the allocator state, and the version it must start above. -/
structure AuthorityOptions where
  limits : Limits
  maxBytes : Int
  observed : Version

def AuthorityOptions.normalized (o : AuthorityOptions) : AuthorityOptions where
  limits := o.limits.normalized
  maxBytes := orDefault o.maxBytes defaultMaxAuthorityStateBytes
  observed := o.observed

/-- A version allocator with the file that holds its state. -/
structure Authority where
  path : String
  authorityID : Bytes
  limits : Limits
  maxBytes : Int
  current : Version

variable (S : Stdlib)

/-- The file of an authority. -/
def authorityFile : Sidecar AuthorityState where
  json := S.authority
  corrupt := .authorityCorrupt
  checksum := .authorityChecksum
  limit := .authorityLimit

def initialAuthorityVersion (o : Oracle) (random : UInt64) (observed : Version) :
    EStateM Error FS Version :=
  if observed.epoch ≠ 0 then
    pure observed
  else do
    syscall o .random
    pure ⟨if random = 0 then 1 else random, 0⟩

/-- `math.MaxUint64` -/
def maxUint64 : UInt64 := 0xFFFFFFFFFFFFFFFF

def incrementAuthorityVersion (current : Version) : Except Error Version :=
  if current.epoch = 0 then
    .error .authorityVersion
  else if current.sequence < maxUint64 then
    .ok ⟨current.epoch, current.sequence + 1⟩
  else if current.epoch = maxUint64 then
    .error .authorityExhausted
  else
    .ok ⟨current.epoch + 1, 1⟩

def validateAuthorityVersion (version : Version) : Except Error Unit :=
  if version.epoch = 0 then .error .authorityVersion else .ok ()

namespace Authority

/-- The allocator before it knows its version. -/
def new (path : String) (authorityID : Bytes) (options : AuthorityOptions) : Authority where
  path := path
  authorityID := authorityID
  limits := options.normalized.limits
  maxBytes := options.normalized.maxBytes
  current := Version.zero

/-- The allocator at a version. -/
def withVersion (a : Authority) (version : Version) : Authority := { a with current := version }

def persistLocked (o : Oracle) (a : Authority) : EStateM Error FS Unit :=
  (authorityFile S).persist S o a.path a.maxBytes ⟨a.authorityID, a.current⟩

/-- The version held by the contents of the file. -/
def storedVersion (a : Authority) (data : Bytes) : Except Error Version := do
  let state ← (authorityFile S).decode S a.maxBytes data
  if state.authorityID ≠ a.authorityID then
    .error .authorityMismatch
  else do
    validateAuthorityVersion state.version
    .ok state.version

/-- Adopt a newer version than the current one. -/
def observe (observed : Version) : EStateM Error (OnDisk Authority) Unit := do
  let a := (← get).obj
  if observed.compare a.current > 0 then do
    raiseIf (observed.epoch = 0) .authorityVersion
    modify fun s => { s with obj := a.withVersion observed }
  else
    pure ()

/-- Take a version and write it. -/
def issue (o : Oracle) (version : Version) : EStateM Error (OnDisk Authority) Unit := do
  let a := (← get).obj.withVersion version
  modify fun s => { s with obj := a }
  onFS (a.persistLocked S o)

/-- Allocate a version after the stored one and the observed one. -/
def next (o : Oracle) (observed : Version) : EStateM Error (OnDisk Authority) Version := do
  ctxErr o 2
  observe observed
  let a := (← get).obj
  let version ← attempt (incrementAuthorityVersion a.current)
  issue S o version
  pure version

end Authority

/-- Open or create the allocator; a newer observed version is adopted. -/
def openAuthority (o : Oracle) (random : UInt64) (path : String) (authorityID : Bytes)
    (options : AuthorityOptions) : EStateM Error FS Authority := do
  raiseIf (path = "") .nilAuthorityPath
  attempt (validateAuthorityID S authorityID options.normalized.limits)
  ctxErr o 2
  let authority := Authority.new path authorityID options
  match ← readFile o path with
  | none => do
    let current ← initialAuthorityVersion o random options.observed
    (authority.withVersion current).persistLocked S o
    pure (authority.withVersion current)
  | some data => do
    let stored ← attempt (authority.storedVersion S data)
    if options.observed.compare stored > 0 then do
      raiseIf (options.observed.epoch = 0) .authorityVersion
      (authority.withVersion options.observed).persistLocked S o
      pure (authority.withVersion options.observed)
    else
      pure (authority.withVersion stored)

/-! ## The stored version -/

theorem Version.epoch_ne_zero_of_lt {v w : Version} (hv : v.epoch ≠ 0) (h : v < w) :
    w.epoch ≠ 0 := by
  intro hw
  rw [Version.lt_iff, hw] at h
  have hpos : v.epoch.toNat ≠ 0 := fun hzero => hv (UInt64.toNat_inj.mp hzero)
  have hzero : (0 : UInt64).toNat = 0 := by decide
  omega

namespace Authority

variable {S : Stdlib} {a : Authority} {fs fs' : FS} {version : Version}

/-- The file holds this version. -/
def Stored (S : Stdlib) (fs : FS) (a : Authority) (version : Version) : Prop :=
  ∃ data, fs.read (.file a.path) = some data ∧ a.storedVersion S data = .ok version

/-- Every state of this authority fits its file. -/
def Fits (S : Stdlib) (a : Authority) : Prop :=
  ∀ version, (authorityFile S).Writable S a.maxBytes ⟨a.authorityID, version⟩

theorem Stored.of_read {v : Version} (h : a.Stored S fs v)
    (hread : fs'.read (.file a.path) = fs.read (.file a.path)) : a.Stored S fs' v := by
  obtain ⟨data, hdata, hv⟩ := h
  exact ⟨data, hread.trans hdata, hv⟩

theorem Stored.withVersion {v : Version} (h : a.Stored S fs v) (version : Version) :
    (a.withVersion version).Stored S fs v := h

theorem storedVersion_ok {data : Bytes} (h : a.storedVersion S data = .ok version) :
    version.epoch ≠ 0 := by
  unfold storedVersion at h
  rw [except_bind_ok] at h
  obtain ⟨state, _, h⟩ := h
  rw [except_guard_ok, except_bind_ok] at h
  obtain ⟨_, _, hepoch, h⟩ := h
  unfold validateAuthorityVersion at hepoch
  rw [except_guard_ok] at hepoch
  rw [← Except.ok.inj h]
  exact hepoch.1

/-- A version written to the file is the one stored. -/
theorem stored_of_replaced (hS : S.Lawful) (hid : S.isPrintable a.authorityID = true)
    (hepoch : version.epoch ≠ 0)
    (hfits : (authorityFile S).Writable S a.maxBytes ⟨a.authorityID, version⟩)
    (hfs : FS.Replaced fs a.path ((authorityFile S).bytes S ⟨a.authorityID, version⟩) fs') :
    a.Stored S fs' version := by
  refine ⟨_, hfs.read, ?_⟩
  have hdecode : (authorityFile S).decode S a.maxBytes
      ((authorityFile S).bytes S ⟨a.authorityID, version⟩) = .ok ⟨a.authorityID, version⟩ :=
    Sidecar.decode_bytes hS.authority hid hfits
  unfold storedVersion
  rw [except_bind_ok]
  refine ⟨_, hdecode, ?_⟩
  rw [except_guard_ok, except_bind_ok]
  refine ⟨fun h => h rfl, (), ?_, rfl⟩
  unfold validateAuthorityVersion
  rw [if_neg hepoch]

/-! ## Allocation -/

private theorem toNat_succ {n : UInt64} (h : n < maxUint64) :
    (n + 1).toNat = n.toNat + 1 := by
  rw [UInt64.lt_iff_toNat_lt] at h
  have hmax : maxUint64.toNat = 2 ^ 64 - 1 := by decide
  have hone : (1 : UInt64).toNat = 1 := by decide
  rw [UInt64.toNat_add, hone, Nat.mod_eq_of_lt (by omega)]

/-- The version after another; the sums are of natural numbers. -/
def Follows (u v : Version) : Prop :=
  (v.epoch = u.epoch ∧ v.sequence.toNat = u.sequence.toNat + 1) ∨
    (u.sequence = maxUint64 ∧ v.sequence = 1 ∧ v.epoch.toNat = u.epoch.toNat + 1)

theorem Follows.lt {u v : Version} (h : Follows u v) : u < v := by
  rw [Version.lt_iff]
  rcases h with ⟨hepoch, hsequence⟩ | ⟨_, _, hepoch⟩
  · refine .inr ⟨by rw [hepoch], ?_⟩
    omega
  · exact .inl (by omega)

theorem incrementAuthorityVersion_follows {current next : Version}
    (h : incrementAuthorityVersion current = .ok next) : Follows current next := by
  unfold incrementAuthorityVersion at h
  rw [except_guard_ok] at h
  obtain ⟨_, h⟩ := h
  have hval : maxUint64.toNat = 2 ^ 64 - 1 := by decide
  split at h
  · next hlt =>
      cases h
      exact .inl ⟨rfl, toNat_succ hlt⟩
  · next hge =>
      rw [except_guard_ok] at h
      obtain ⟨hmax, h⟩ := h
      cases h
      have hsequence : current.sequence = maxUint64 := by
        have hbound : current.sequence.toNat < 2 ^ 64 := current.sequence.toNat_lt
        rw [UInt64.lt_iff_toNat_lt] at hge
        rw [← UInt64.toNat_inj]
        omega
      have hlt : current.epoch < maxUint64 := by
        have hbound : current.epoch.toNat < 2 ^ 64 := current.epoch.toNat_lt
        have hne : current.epoch.toNat ≠ maxUint64.toNat :=
          fun heq => hmax (UInt64.toNat_inj.mp heq)
        rw [UInt64.lt_iff_toNat_lt]
        omega
      exact .inr ⟨hsequence, rfl, toNat_succ hlt⟩

theorem incrementAuthorityVersion_ok {current next : Version}
    (h : incrementAuthorityVersion current = .ok next) :
    current < next ∧ next.epoch ≠ 0 := by
  have hlt := (incrementAuthorityVersion_follows h).lt
  unfold incrementAuthorityVersion at h
  rw [except_guard_ok] at h
  exact ⟨hlt, Version.epoch_ne_zero_of_lt h.1 hlt⟩

theorem observe_cases (observed : Version) (s : OnDisk Authority) :
    (∃ e, observe observed s = .error e s) ∨
      (observe observed s = .ok () { s with obj := s.obj.withVersion (max s.obj.current observed) } ∧
        (s.obj.current.epoch ≠ 0 → (max s.obj.current observed).epoch ≠ 0)) := by
  unfold observe
  rw [run_bind_get]
  simp only [Version.compare_pos]
  by_cases hnew : s.obj.current < observed
  · rw [if_pos hnew, max_eq_right (le_of_lt hnew)]
    by_cases hepoch : observed.epoch = 0
    · exact .inl ⟨_, run_bind_error (run_raiseIf_error hepoch)⟩
    · refine .inr ⟨(run_bind_ok (run_raiseIf hepoch)).trans rfl, fun _ => hepoch⟩
  · rw [if_neg hnew, max_eq_left (not_lt.mp hnew)]
    exact .inr ⟨rfl, id⟩

/-- An authority with a valid version adopts a newer one. -/
theorem observe_ok {s : OnDisk Authority} (hepoch : s.obj.current.epoch ≠ 0)
    (observed : Version) : observe observed s =
      .ok () { s with obj := s.obj.withVersion (max s.obj.current observed) } := by
  unfold observe
  rw [run_bind_get]
  simp only [Version.compare_pos]
  by_cases hnew : s.obj.current < observed
  · have hne := Version.epoch_ne_zero_of_lt hepoch hnew
    rw [if_pos hnew, max_eq_right (le_of_lt hnew)]
    exact (run_bind_ok (run_raiseIf hne)).trans rfl
  · rw [if_neg hnew, max_eq_left (not_lt.mp hnew)]
    rfl

/-- The file is as before, or it holds this version. -/
def OldOrNew (S : Stdlib) (a : Authority) (version : Version) (fs fs' : FS) : Prop :=
  (authorityFile S).OldOrNew S a.path a.maxBytes ⟨a.authorityID, version⟩ fs fs'

/-- The file is new and holds this version. -/
structure Wrote (S : Stdlib) (a : Authority) (version : Version) (fs fs' : FS) : Prop where
  fits : (authorityFile S).Writable S a.maxBytes ⟨a.authorityID, version⟩
  replaced : FS.Replaced fs a.path ((authorityFile S).bytes S ⟨a.authorityID, version⟩) fs'

/-- Why the write of a version did not take place. -/
def Unwritten (S : Stdlib) (o : Oracle) (a : Authority) : Prop :=
  ¬ a.Fits S ∨ ∃ i < 2, o (.ctxErr i) ≠ .proceed

theorem persistLocked_spec (o : Oracle) (a : Authority) (fs : FS) :
    (∃ e fs', a.persistLocked S o fs = .error e fs' ∧ a.OldOrNew S a.current fs fs' ∧
        (o.Soft → FS.Untouched fs fs' ∧ a.Unwritten S o)) ∨
      (∃ fs', a.persistLocked S o fs = .ok () fs' ∧ a.Wrote S a.current fs fs') := by
  unfold persistLocked
  rcases @Sidecar.persist_spec _ S (authorityFile S) a.maxBytes ⟨a.authorityID, a.current⟩
    o a.path fs with ⟨e, fs', he, hfile, hsoft⟩ | ⟨fs', hok, hfits, hfs⟩
  · refine .inl ⟨e, fs', he, hfile, fun ho => ⟨(hsoft ho).1, ?_⟩⟩
    exact (hsoft ho).2.imp_left fun hnot hall => hnot (hall a.current)
  · exact .inr ⟨fs', hok, hfits, hfs⟩

theorem issue_spec (o : Oracle) (version : Version) (s : OnDisk Authority) :
    (∃ e fs', issue S o version s = .error e ⟨fs', s.obj.withVersion version⟩ ∧
        s.obj.OldOrNew S version s.fs fs' ∧
        (o.Soft → FS.Untouched s.fs fs' ∧ s.obj.Unwritten S o)) ∨
      (∃ fs', issue S o version s = .ok () ⟨fs', s.obj.withVersion version⟩ ∧
        s.obj.Wrote S version s.fs fs') := by
  have hrun : issue S o version s = onFS ((s.obj.withVersion version).persistLocked S o)
      ⟨s.fs, s.obj.withVersion version⟩ := rfl
  rw [hrun]
  rcases persistLocked_spec o (s.obj.withVersion version) s.fs with
    ⟨e, fs', he, hfile, hsoft⟩ | ⟨fs', hok, hwrote⟩
  · exact .inl ⟨e, fs', run_onFS_error he, hfile, hsoft⟩
  · exact .inr ⟨fs', run_onFS hok, hwrote.fits, hwrote.replaced⟩

/-- A call that fails does not lower the version in memory, and leaves the old
file or the version it chose; when the disk works it leaves the old file, and in
memory at most the observed version unless the write was cancelled or had no
room.  A successful call stores the successor of both versions. -/
theorem next_spec (o : Oracle) (observed : Version) (s : OnDisk Authority) :
    (∃ e s' v, next S o observed s = .error e s' ∧ s'.obj = s.obj.withVersion v ∧
        s.obj.current ≤ v ∧ (s.obj.current.epoch ≠ 0 → v.epoch ≠ 0) ∧
        s.obj.OldOrNew S v s.fs s'.fs ∧
        (o.Soft → FS.Untouched s.fs s'.fs ∧
          (v ≤ max s.obj.current observed ∨ s.obj.Unwritten S o))) ∨
      (∃ v s', next S o observed s = .ok v s' ∧ s'.obj = s.obj.withVersion v ∧
        incrementAuthorityVersion (max s.obj.current observed) = .ok v ∧
        s.obj.Wrote S v s.fs s'.fs) := by
  have hrefl := FS.Untouched.refl s.fs
  have hle : s.obj.current ≤ max s.obj.current observed := le_max_left _ _
  unfold next
  rcases ctxErr_cases o 2 s with ⟨_, e, he⟩ | ⟨_, hx⟩
  · exact .inl ⟨e, s, s.obj.current, run_bind_error he, rfl, le_refl _, id, .inl hrefl,
      fun _ => ⟨hrefl, .inl hle⟩⟩
  rw [run_bind_ok hx]
  rcases observe_cases observed s with ⟨e, he⟩ | ⟨hobs, hepoch⟩
  · exact .inl ⟨e, s, s.obj.current, run_bind_error he, rfl, le_refl _, id, .inl hrefl,
      fun _ => ⟨hrefl, .inl hle⟩⟩
  rw [run_bind_ok hobs, run_bind_get]
  simp only
  change (∃ e s' v, (attempt (incrementAuthorityVersion (max s.obj.current observed)) >>= _)
    _ = .error e s' ∧ _) ∨ (∃ v s', (attempt (incrementAuthorityVersion
      (max s.obj.current observed)) >>= _) _ = .ok v s' ∧ _)
  cases hinc : incrementAuthorityVersion (max s.obj.current observed) with
  | error e =>
    exact .inl ⟨e, _, _, run_bind_error (run_attempt_error rfl), rfl, hle, hepoch,
      .inl hrefl, fun _ => ⟨hrefl, .inl (le_refl _)⟩⟩
  | ok v =>
  obtain ⟨hlt, hne⟩ := incrementAuthorityVersion_ok hinc
  rw [run_bind_ok (run_attempt rfl)]
  rcases issue_spec o v ⟨s.fs, s.obj.withVersion (max s.obj.current observed)⟩ with
    ⟨e, fs', he, hfile, hsoft⟩ | ⟨fs', hok, hwrote⟩
  · exact .inl ⟨e, _, v, run_bind_error he, rfl, hle.trans (le_of_lt hlt), fun _ => hne,
      hfile, fun ho => ⟨(hsoft ho).1, .inr (hsoft ho).2⟩⟩
  · exact .inr ⟨v, _, run_bind_ok hok, rfl, rfl, hwrote.fits, hwrote.replaced⟩

/-- With no version left, a call whose context is live reports exhaustion. -/
theorem next_exhausted {o : Oracle} (ho : o (.ctxErr 2) = .proceed) {observed : Version}
    {s : OnDisk Authority} (hepoch : s.obj.current.epoch ≠ 0)
    (hmax : max s.obj.current observed = ⟨maxUint64, maxUint64⟩) :
    ∃ s', next S o observed s = .error .authorityExhausted s' ∧ s'.fs = s.fs := by
  have hexhausted : incrementAuthorityVersion ⟨maxUint64, maxUint64⟩ =
      .error .authorityExhausted := by decide
  unfold next
  rw [run_bind_ok (ctxErr_proceed ho s), run_bind_ok (observe_ok hepoch observed),
    run_bind_get, hmax]
  exact ⟨_, run_bind_error (run_attempt_error hexhausted), rfl⟩

end Authority

/-! ## Opening -/

section Opening

variable {S : Stdlib} {path : String} {authorityID : Bytes} {options : AuthorityOptions}
  {random : UInt64} {fs fs' : FS} {a : Authority}

theorem validateAuthorityID_printable {limits : Limits}
    (h : validateAuthorityID S authorityID limits = .ok ()) :
    S.isPrintable authorityID = true := by
  unfold validateAuthorityID at h
  simp only [except_guard_ok] at h
  simpa using h.2.2.1

theorem initialAuthorityVersion_triple (o : Oracle) (observed : Version) (fs₀ : FS) :
    Triple (fun fs => fs = fs₀) (initialAuthorityVersion o random observed)
      (fun v fs => fs = fs₀ ∧ v.epoch ≠ 0) (fun _ fs => fs = fs₀) := by
  unfold initialAuthorityVersion
  split
  · next hepoch => exact Triple.pure fun _ h => ⟨h, hepoch⟩
  · refine Triple.bind (syscall_triple o .random _) fun _ => Triple.pure fun _ h => ⟨h, ?_⟩
    show (if random = 0 then 1 else random) ≠ 0
    split
    · decide
    · assumption

namespace Authority

/-- The version is at or above the stored one, if there is a file at all. -/
def Covers (S : Stdlib) (fs : FS) (a : Authority) (version : Version) : Prop :=
  fs.read (.file a.path) = none ∨ ∃ stored, a.Stored S fs stored ∧ stored ≤ version

/-- The file is as before, or holds a valid version that covers it. -/
def Raised (S : Stdlib) (fs : FS) (a : Authority) (fs' : FS) : Prop :=
  FS.Untouched fs fs' ∨ ∃ version, S.isPrintable a.authorityID = true ∧
    version.epoch ≠ 0 ∧ a.Covers S fs version ∧ a.Wrote S version fs fs'

/-- The authority stands at a valid version that covers the file, and the file
holds it. -/
structure OpenedAt (S : Stdlib) (fs : FS) (blank a : Authority) (fs' : FS) : Prop where
  eq : a = blank.withVersion a.current
  printable : S.isPrintable a.authorityID = true
  epoch : a.current.epoch ≠ 0
  covers : a.Covers S fs a.current
  raised : a.Raised S fs fs'
  stored : a.Stored S fs' a.current

theorem persistLocked_triple (hS : S.Lawful) (o : Oracle) {blank : Authority}
    {version : Version} (hprint : S.isPrintable blank.authorityID = true)
    (hepoch : version.epoch ≠ 0) (hcovers : blank.Covers S fs version) :
    Triple (fun t => t = fs) ((blank.withVersion version).persistLocked S o)
      (fun _ t => OpenedAt S fs blank (blank.withVersion version) t)
      (fun _ t => blank.Raised S fs t) := by
  intro t ht
  subst ht
  rcases persistLocked_spec o (blank.withVersion version) t with
    ⟨e, fs', he, hfile, _⟩ | ⟨fs', hok, hwrote⟩
  · rw [he]
    rcases hfile with huntouched | hwrote
    · exact .inl huntouched
    · exact .inr ⟨version, hprint, hepoch, hcovers, hwrote.1, hwrote.2⟩
  · rw [hok]
    exact
      { eq := rfl
        printable := hprint
        epoch := hepoch
        covers := hcovers
        raised := .inr ⟨version, hprint, hepoch, hcovers, hwrote⟩
        stored := stored_of_replaced hS hprint hepoch hwrote.fits hwrote.replaced }

end Authority

/-- Opening leaves the file or raises its version; an opened authority stands at
the version its file holds. -/
theorem openAuthority_triple (hS : S.Lawful) (o : Oracle) (fs : FS) :
    Triple (fun t => t = fs) (openAuthority S o random path authorityID options)
      (fun a t => Authority.OpenedAt S fs (Authority.new path authorityID options) a t)
      (fun _ t => (Authority.new path authorityID options).Raised S fs t) := by
  have hrefl : ∀ t, t = fs → (Authority.new path authorityID options).Raised S fs t :=
    fun t ht => .inl (ht ▸ FS.Untouched.refl fs)
  refine Triple.bind (Triple.raiseIf fun t ht _ => hrefl t ht) fun _ => Triple.fact fun _ => ?_
  refine Triple.bind (Triple.attempt fun t e ht _ => hrefl t ht) fun _ =>
    Triple.fact fun hid => ?_
  have hprint := validateAuthorityID_printable hid
  refine Triple.bind ((ctxErr_triple o 2 _).weaken (fun _ h => h) (fun _ _ h => h)
    fun _ t ht => hrefl t ht) fun _ => ?_
  refine Triple.bind ((readFile_triple o path fs).weaken (fun _ h => h) (fun _ _ h => h)
    fun _ t ht => hrefl t ht) fun data => Triple.fact fun hdata => ?_
  cases data with
  | none =>
    refine Triple.bind ((initialAuthorityVersion_triple o options.observed fs).weaken
      (fun _ h => h) (fun _ _ h => h) fun _ t ht => hrefl t ht) fun v =>
      Triple.fact fun hepoch => ?_
    exact Triple.bind (Authority.persistLocked_triple hS o hprint hepoch (.inl hdata.symm))
      fun _ => Triple.pure fun _ h => h
  | some data =>
    refine Triple.bind (Triple.attempt fun t e ht _ => hrefl t ht) fun stored =>
      Triple.fact fun hstored => ?_
    have hfile : (Authority.new path authorityID options).Stored S fs stored :=
      ⟨data, hdata.symm, hstored⟩
    have hvalid := Authority.storedVersion_ok hstored
    simp only [Version.compare_pos]
    split
    · next hnew =>
        refine Triple.bind (Triple.raiseIf fun t ht _ => hrefl t ht) fun _ =>
          Triple.fact fun hepoch => ?_
        exact Triple.bind (Authority.persistLocked_triple hS o hprint hepoch
          (.inr ⟨stored, hfile, le_of_lt hnew⟩)) fun _ => Triple.pure fun _ h => h
    · refine Triple.pure fun t ht => ?_
      subst ht
      exact ⟨rfl, hprint, hvalid, .inr ⟨stored, hfile, le_refl _⟩, .inl (FS.Untouched.refl t),
        hfile⟩

/-- Reopening gives the larger of the stored version and the observed one. -/
theorem openAuthority_reopen {o : Oracle} (ho : ∀ c, o c = .proceed) (hpath : path ≠ "")
    (hid : validateAuthorityID S authorityID options.normalized.limits = .ok ())
    {stored : Version}
    (hstored : (Authority.new path authorityID options).Stored S fs stored)
    (hfits : (Authority.new path authorityID options).Fits S) :
    ∃ fs', openAuthority S o random path authorityID options fs =
        .ok ((Authority.new path authorityID options).withVersion
          (max stored options.observed)) fs' ∧ FS.Framed fs path fs' := by
  obtain ⟨data, hfile, hdata⟩ := hstored
  have hread : fs.read (.file path) = some data := hfile
  unfold openAuthority
  rw [run_bind_ok (run_raiseIf hpath), run_bind_ok (run_attempt hid),
    run_bind_ok (ctxErr_proceed (ho _) fs), run_bind_ok (readFile_proceed ho path fs), hread]
  simp only [Version.compare_pos]
  rw [run_bind_ok (run_attempt hdata)]
  by_cases hnew : stored < options.observed
  · have hepoch : options.observed.epoch ≠ 0 :=
      Version.epoch_ne_zero_of_lt (Authority.storedVersion_ok hdata) hnew
    have hsoft : o.Soft := ⟨fun c _ => ho c, fun c n => by simp [ho c]⟩
    rw [if_pos hnew, max_eq_right (le_of_lt hnew), run_bind_ok (run_raiseIf hepoch)]
    rcases Authority.persistLocked_spec o ((Authority.new path authorityID
        options).withVersion options.observed) fs with ⟨e, fs', _, _, hwhy⟩ |
      ⟨fs', hok, hwrote⟩
    · rcases (hwhy hsoft).2 with hnot | ⟨i, _, hi⟩
      · exact absurd hfits hnot
      · exact absurd (ho _) hi
    · exact ⟨fs', run_bind_ok hok, hwrote.replaced.framed⟩
  · rw [if_neg hnew, max_eq_left (not_lt.mp hnew)]
    exact ⟨fs, rfl, (FS.Untouched.refl fs).framed path⟩

end Opening

end StreamHive.Lifecycle

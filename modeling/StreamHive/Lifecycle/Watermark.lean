import StreamHive.Lifecycle.Journal
import StreamHive.Lifecycle.Sidecar

/-!
# Peer watermarks

The watermark book keeps, for every peer, the version that the peer has
acknowledged.  A change is written to its file before it becomes visible, so the
map in memory is always the one that opening the file again would give.  The
coordinator passes a change on only when the version lies in the local journal.

The entries of a decoded map are checked in key order; the program ranges over a
Go map, whose order decides only which of two errors is reported.

## Main results

* `RepairCoordinator.acknowledge_spec`, `RepairCoordinator.reconcile_spec` — when
  the disk works, a call fails and changes nothing, or saves the new map;
* `WatermarkBook.Saved.durable` — a saved map is the one that is read back.
-/

namespace StreamHive.Lifecycle

open Verified ByteString Effect FileSystem

/-! ## The book -/

def defaultMaxRepairPeers : Int := 1024
def defaultMaxRepairPeerIDBytes : Int := 128
def defaultMaxRepairWatermarkBytes : Int := 2 ^ 20

/-- Bounds on acknowledgement state. -/
structure WatermarkOptions where
  maxPeers : Int
  maxPeerIDBytes : Int
  maxBytes : Int
  deriving DecidableEq, Repr

def WatermarkOptions.normalized (o : WatermarkOptions) : WatermarkOptions where
  maxPeers := orDefault o.maxPeers defaultMaxRepairPeers
  maxPeerIDBytes := orDefault o.maxPeerIDBytes defaultMaxRepairPeerIDBytes
  maxBytes := orDefault o.maxBytes defaultMaxRepairWatermarkBytes

/-- Acknowledgements by peer, with the file that holds them. -/
structure WatermarkBook where
  path : String
  maxPeers : Int
  maxPeerID : Int
  maxBytes : Int
  watermarks : WatermarkMap

variable (S : Stdlib)

/-- The file of a watermark book. -/
def watermarkFile : Sidecar (Option WatermarkMap) where
  json := S.watermarks
  corrupt := .watermarkCorrupt
  checksum := .watermarkChecksum
  limit := .watermarkLimit

namespace WatermarkBook

/-- An empty book. -/
def new (path : String) (options : WatermarkOptions) : WatermarkBook where
  path := path
  maxPeers := options.normalized.maxPeers
  maxPeerID := options.normalized.maxPeerIDBytes
  maxBytes := options.normalized.maxBytes
  watermarks := ∅

def validatePeer (b : WatermarkBook) (peer : Bytes) : Except Error Unit :=
  if peer = [] ∨ peer.length > b.maxPeerID ∨ S.isPrintable peer = false then
    .error .watermarkPeerInvalid
  else
    .ok ()

/-- The loop of `validateState`. -/
def validateEntries (b : WatermarkBook) : List (Bytes × Version) → Except Error Unit
  | [] => .ok ()
  | (peer, version) :: rest => do
    (b.validatePeer S peer).mapError (.joined .watermarkCorrupt)
    if version.IsZero then
      .error .watermarkCorrupt
    else
      b.validateEntries rest

/-- The map of a decoded state. -/
def validateState (b : WatermarkBook) : Option WatermarkMap → Except Error WatermarkMap
  | none => .error .watermarkCorrupt
  | some watermarks =>
    if watermarks.size > b.maxPeers then
      .error .watermarkLimit
    else do
      b.validateEntries S watermarks.toList
      .ok watermarks

/-- The book for the contents of its file. -/
def ofFile (path : String) (options : WatermarkOptions) :
    Option Bytes → Except Error WatermarkBook
  | none => .ok (new path options)
  | some data => do
    let state ← (watermarkFile S).decode S (new path options).maxBytes data
    let watermarks ← (new path options).validateState S state
    .ok { new path options with watermarks := watermarks }

/-- The acknowledged version of a peer, zero when it is unknown. -/
def watermark (b : WatermarkBook) (peer : Bytes) : Version :=
  b.watermarks.getD peer Version.zero

/-- Write a new map to the file, then make it visible. -/
def install (o : Oracle) (next : WatermarkMap) : EStateM Error (OnDisk WatermarkBook) Unit := do
  let b := (← get).obj
  onFS ((watermarkFile S).persist S o b.path b.maxBytes (some next))
  modify fun s => { s with obj := { b with watermarks := next } }

/-- Advance one peer. -/
def acknowledge (F : Faults) (peer : Bytes) (version : Version) :
    EStateM Error (OnDisk WatermarkBook) Unit := do
  ctxErr (F .coordinator) 1
  let b := (← get).obj
  attempt (b.validatePeer S peer)
  if version.IsZero then
    pure ()
  else if version.compare (b.watermark peer) < 0 then
    throw .watermarkRegression
  else if version.compare (b.watermark peer) = 0 ∧ peer ∈ b.watermarks then
    pure ()
  else do
    raiseIf (peer ∉ b.watermarks ∧ b.watermarks.size ≥ b.maxPeers) .watermarkLimit
    install S (F .watermark) (b.watermarks.insert peer version)

/-- Replace one peer's version by the one the peer reports. -/
def reconcile (F : Faults) (peer : Bytes) (version : Version) :
    EStateM Error (OnDisk WatermarkBook) Unit := do
  ctxErr (F .coordinator) 1
  let b := (← get).obj
  attempt (b.validatePeer S peer)
  if b.watermarks[peer]? = some version then
    pure ()
  else if version.IsZero then
    install S (F .watermark) (b.watermarks.erase peer)
  else do
    raiseIf (peer ∉ b.watermarks ∧ b.watermarks.size ≥ b.maxPeers) .watermarkLimit
    install S (F .watermark) (b.watermarks.insert peer version)

/-- Remove one peer; a peer that is not known is no error. -/
def forget (F : Faults) (peer : Bytes) : EStateM Error (OnDisk WatermarkBook) Unit := do
  ctxErr (F .coordinator) 1
  let b := (← get).obj
  attempt (b.validatePeer S peer)
  if peer ∉ b.watermarks then
    pure ()
  else
    install S (F .watermark) (b.watermarks.erase peer)

end WatermarkBook

/-- Open a watermark book; a missing file is an empty one. -/
def openWatermarkBook (o : Oracle) (path : String) (options : WatermarkOptions) :
    EStateM Error FS WatermarkBook := do
  raiseIf (path = "") .nilWatermarkPath
  let data ← readFile o path
  attempt (WatermarkBook.ofFile S path options data)

namespace RepairCoordinator

/-- The checks in front of a call on the book: the version must lie in the
journal. -/
def withinJournal (F : Faults) (journal : Journal) (peer : Bytes) (version : Version)
    (call : EStateM Error (OnDisk WatermarkBook) Unit) :
    EStateM Error (OnDisk WatermarkBook) Unit := do
  ctxErr (F .coordinator) 0
  attempt ((← get).obj.validatePeer S peer)
  raiseIf (¬ version.IsZero ∧ version.compare journal.lastVersion > 0)
    .repairAcknowledgement
  call

/-- Record an acknowledgement. -/
def acknowledge (F : Faults) (journal : Journal) (peer : Bytes) (version : Version) :
    EStateM Error (OnDisk WatermarkBook) Unit :=
  withinJournal S F journal peer version (WatermarkBook.acknowledge S F peer version)

/-- Record a startup report. -/
def reconcile (F : Faults) (journal : Journal) (peer : Bytes) (version : Version) :
    EStateM Error (OnDisk WatermarkBook) Unit :=
  withinJournal S F journal peer version (WatermarkBook.reconcile S F peer version)

end RepairCoordinator

/-! ## Saving -/

namespace WatermarkBook

/-- The map fits the file. -/
def CanStore (b : WatermarkBook) (next : WatermarkMap) : Prop :=
  (watermarkFile S).Writable S b.maxBytes (some next)

/-- The map in memory is `next`; if the file was written, it holds `next`. -/
structure Saved (S : Stdlib) (s : OnDisk WatermarkBook) (next : WatermarkMap)
    (s' : OnDisk WatermarkBook) : Prop where
  obj : s'.obj = { s.obj with watermarks := next }
  file : (s'.fs = s.fs ∧ next = s.obj.watermarks) ∨
    (s.obj.CanStore S next ∧
      FS.Replaced s.fs s.obj.path ((watermarkFile S).bytes S (some next)) s'.fs)

theorem Saved.refl (s : OnDisk WatermarkBook) :
    Saved S s s.obj.watermarks s := ⟨rfl, .inl ⟨rfl, rfl⟩⟩

theorem Saved.path {S : Stdlib} {s s' : OnDisk WatermarkBook} {next : WatermarkMap}
    (h : Saved S s next s') : s'.obj.path = s.obj.path := by
  rw [h.obj]

/-- Installing a map fails with the book as it was, or saves the map.  When the
disk works, a failure leaves every file as it was. -/
theorem install_spec {S : Stdlib} (o : Oracle) (next : WatermarkMap)
    (s : OnDisk WatermarkBook) :
    (∃ e fs', install S o next s = .error e { s with fs := fs' } ∧
        (o.Soft → FS.Untouched s.fs fs' ∧
          (¬ s.obj.CanStore S next ∨ ∃ i, o (.ctxErr i) ≠ .proceed))) ∨
      (∃ s', install S o next s = .ok () s' ∧ s.obj.CanStore S next ∧
        Saved S s next s') := by
  unfold install
  rw [run_bind_get]
  cases hrun : (watermarkFile S).persist S o s.obj.path s.obj.maxBytes (some next) s.fs with
  | error e fs' =>
    refine .inl ⟨e, fs', run_bind_error (run_onFS_error hrun), ?_⟩
    intro ho
    rcases Sidecar.persist_soft ho s.obj.path s.fs with ⟨e', fs₁, he, hfs, hwhy⟩ |
      ⟨fs₁, hok, _⟩
    · rw [hrun] at he
      cases he
      exact ⟨hfs, hwhy.imp_right fun ⟨i, _, hi⟩ => ⟨i, hi⟩⟩
    · rw [hrun] at hok
      cases hok
  | ok u fs' =>
    obtain ⟨hfits, hfs⟩ := Sidecar.persist_ok hrun
    refine .inr ⟨_, (run_bind_ok (run_onFS hrun)).trans rfl, hfits, rfl, ?_⟩
    exact .inr ⟨hfits, hfs⟩

/-- The map after an acknowledgement. -/
def acknowledged (b : WatermarkBook) (peer : Bytes) (version : Version) : WatermarkMap :=
  if version.IsZero ∨ b.watermarks[peer]? = some version then
    b.watermarks
  else
    b.watermarks.insert peer version

/-- The map after a startup report. -/
def reconciled (b : WatermarkBook) (peer : Bytes) (version : Version) : WatermarkMap :=
  if b.watermarks[peer]? = some version then
    b.watermarks
  else if version.IsZero then
    b.watermarks.erase peer
  else
    b.watermarks.insert peer version

/-- The book has room for a peer and its file for the map. -/
structure HasRoom (S : Stdlib) (b : WatermarkBook) (peer : Bytes) (next : WatermarkMap) :
    Prop where
  peers : peer ∈ b.watermarks ∨ b.watermarks.size < b.maxPeers
  bytes : b.CanStore S next

/-- An acknowledgement is accepted. -/
structure Acknowledges (S : Stdlib) (b : WatermarkBook) (peer : Bytes)
    (version : Version) : Prop where
  known : b.validatePeer S peer = .ok ()
  forward : version.IsZero ∨ b.watermark peer ≤ version
  room : version.IsZero ∨ b.watermarks[peer]? = some version ∨
    b.HasRoom S peer (b.watermarks.insert peer version)

/-- A startup report is accepted. -/
structure Reconciles (S : Stdlib) (b : WatermarkBook) (peer : Bytes)
    (version : Version) : Prop where
  known : b.validatePeer S peer = .ok ()
  room : b.watermarks[peer]? = some version ∨
    (version.IsZero ∧ b.CanStore S (b.watermarks.erase peer)) ∨
    (¬ version.IsZero ∧ b.HasRoom S peer (b.watermarks.insert peer version))

variable {S : Stdlib} {b : WatermarkBook} {peer : Bytes} {version : Version}

theorem watermark_of_getElem? {v : Version} (h : b.watermarks[peer]? = some v) :
    b.watermark peer = v := by
  unfold watermark
  rw [Std.ExtTreeMap.getD_eq_getD_getElem?, h]
  rfl

/-- Known at the version, in the words of the program. -/
theorem known_iff :
    (version.compare (b.watermark peer) = 0 ∧ peer ∈ b.watermarks) ↔
      b.watermarks[peer]? = some version := by
  rw [Version.compare_eq_zero]
  constructor
  · rintro ⟨heq, hmem⟩
    have hget := Std.ExtTreeMap.getElem?_eq_some_getElem hmem
    rw [watermark_of_getElem? hget] at heq
    rw [hget, heq]
  · intro h
    exact ⟨(watermark_of_getElem? h).symm, Std.ExtTreeMap.mem_iff_isSome_getElem?.mpr (by simp [h])⟩

/-- One step of the two calls after their checks: look for room, then install. -/
private theorem installIfRoom_spec (o : Oracle) (next : WatermarkMap)
    (s : OnDisk WatermarkBook) :
    (∃ e fs', (raiseIf (peer ∉ s.obj.watermarks ∧
          s.obj.watermarks.size ≥ s.obj.maxPeers) Error.watermarkLimit >>=
          fun _ => install S o next) s = .error e { s with fs := fs' } ∧
        (o.Soft → FS.Untouched s.fs fs' ∧
          (¬ s.obj.HasRoom S peer next ∨ ∃ i, o (.ctxErr i) ≠ .proceed))) ∨
      (∃ s', (raiseIf (peer ∉ s.obj.watermarks ∧
          s.obj.watermarks.size ≥ s.obj.maxPeers) Error.watermarkLimit >>=
          fun _ => install S o next) s = .ok () s' ∧ s.obj.HasRoom S peer next ∧
        Saved S s next s') := by
  by_cases hfull : peer ∉ s.obj.watermarks ∧ (s.obj.watermarks.size : Int) ≥ s.obj.maxPeers
  · refine .inl ⟨_, s.fs, run_bind_error (run_raiseIf_error hfull), fun _ =>
      ⟨FS.Untouched.refl s.fs, .inl fun hroom => ?_⟩⟩
    rcases hroom.peers with hmem | hlt
    · exact hfull.1 hmem
    · exact absurd hfull.2 (not_le.mpr hlt)
  · have hpeers : peer ∈ s.obj.watermarks ∨
        (s.obj.watermarks.size : Int) < s.obj.maxPeers := by
      by_cases hmem : peer ∈ s.obj.watermarks
      · exact .inl hmem
      · exact .inr (not_le.mp fun hle => hfull ⟨hmem, hle⟩)
    rw [run_bind_ok (run_raiseIf hfull)]
    rcases install_spec o next s with ⟨e, fs', he, hsoft⟩ | ⟨s', hok, hfits, hsaved⟩
    · refine .inl ⟨e, fs', he, fun ho => ⟨(hsoft ho).1, ?_⟩⟩
      rcases (hsoft ho).2 with hnot | hctx
      · exact .inl fun hroom => hnot hroom.bytes
      · exact .inr hctx
    · exact .inr ⟨s', hok, ⟨hpeers, hfits⟩, hsaved⟩

/-- A context check of a site is refused. -/
def CtxRefused (F : Faults) (sites : List Site) : Prop :=
  ∃ site ∈ sites, ∃ i, F site (.ctxErr i) ≠ .proceed

/-- Why a call failed when the disk works; every named file is then as it was. -/
def Refused (F : Faults) (accepted : Prop) (fs fs' : FS) : Prop :=
  F.Soft → FS.Untouched fs fs' ∧ (¬ accepted ∨ CtxRefused F [.coordinator, .watermark])

theorem Refused.not_accepted {F : Faults} {accepted : Prop} (fs : FS) (h : ¬ accepted) :
    Refused F accepted fs fs := fun _ => ⟨FS.Untouched.refl fs, .inl h⟩

theorem Refused.canceled {F : Faults} {accepted : Prop} (fs : FS) {i : Nat}
    (h : F .coordinator (.ctxErr i) ≠ .proceed) : Refused F accepted fs fs :=
  fun _ => ⟨FS.Untouched.refl fs, .inr ⟨_, by simp, i, h⟩⟩

/-- The call fails with the book as it was, or it is accepted and the map is
saved. -/
def Outcome (S : Stdlib) (F : Faults) (accepted : Prop) (next : WatermarkMap)
    (s : OnDisk WatermarkBook) (result : EStateM.Result Error (OnDisk WatermarkBook) Unit) :
    Prop :=
  (∃ e fs', result = .error e { s with fs := fs' } ∧ Refused F accepted s.fs fs') ∨
    (∃ s', result = .ok () s' ∧ accepted ∧ Saved S s next s')

theorem acknowledge_spec (F : Faults) (peer : Bytes) (version : Version)
    (s : OnDisk WatermarkBook) :
    Outcome S F (s.obj.Acknowledges S peer version) (s.obj.acknowledged peer version) s
      (acknowledge S F peer version s) := by
  unfold acknowledge
  rcases ctxErr_cases (F .coordinator) 1 s with ⟨hctx, e, he⟩ | ⟨_, hx⟩
  · exact .inl ⟨e, s.fs, run_bind_error he, Refused.canceled s.fs hctx⟩
  rw [run_bind_ok hx, run_bind_get]
  cases hpeer : s.obj.validatePeer S peer with
  | error e =>
    refine .inl ⟨e, s.fs, run_bind_error (run_attempt_error rfl),
      Refused.not_accepted s.fs fun h => ?_⟩
    rw [h.known] at hpeer
    cases hpeer
  | ok _ =>
  rw [run_bind_ok (run_attempt rfl)]
  unfold acknowledged
  by_cases hzero : version.IsZero
  · rw [if_pos hzero, if_pos (.inl hzero)]
    exact .inr ⟨s, rfl, ⟨hpeer, .inl hzero, .inl hzero⟩, Saved.refl S s⟩
  rw [if_neg hzero]
  simp only [Version.compare_lt_zero, known_iff]
  by_cases hback : version < s.obj.watermark peer
  · rw [if_pos hback]
    refine .inl ⟨.watermarkRegression, s.fs, rfl, Refused.not_accepted s.fs fun h => ?_⟩
    exact absurd (h.forward.resolve_left hzero) (not_le.mpr hback)
  rw [if_neg hback]
  have hforward : s.obj.watermark peer ≤ version := not_lt.mp hback
  by_cases hknown : s.obj.watermarks[peer]? = some version
  · rw [if_pos hknown, if_pos (.inr hknown)]
    exact .inr ⟨s, rfl, ⟨hpeer, .inr hforward, .inr (.inl hknown)⟩, Saved.refl S s⟩
  rw [if_neg hknown, if_neg (not_or.mpr ⟨hzero, hknown⟩)]
  rcases installIfRoom_spec (F .watermark) (s.obj.watermarks.insert peer version) s with
    ⟨e, fs', he, hsoft⟩ | ⟨s', hok, hroom, hsaved⟩
  · refine .inl ⟨e, fs', he, fun hF => ⟨(hsoft (hF _)).1, ?_⟩⟩
    rcases (hsoft (hF _)).2 with hnot | ⟨i, hi⟩
    · exact .inl fun h => hnot ((h.room.resolve_left hzero).resolve_left hknown)
    · exact .inr ⟨_, by simp, i, hi⟩
  · exact .inr ⟨s', hok, ⟨hpeer, .inr hforward, .inr (.inr hroom)⟩, hsaved⟩

theorem reconcile_spec (F : Faults) (peer : Bytes) (version : Version)
    (s : OnDisk WatermarkBook) :
    Outcome S F (s.obj.Reconciles S peer version) (s.obj.reconciled peer version) s
      (reconcile S F peer version s) := by
  unfold reconcile
  rcases ctxErr_cases (F .coordinator) 1 s with ⟨hctx, e, he⟩ | ⟨_, hx⟩
  · exact .inl ⟨e, s.fs, run_bind_error he, Refused.canceled s.fs hctx⟩
  rw [run_bind_ok hx, run_bind_get]
  cases hpeer : s.obj.validatePeer S peer with
  | error e =>
    refine .inl ⟨e, s.fs, run_bind_error (run_attempt_error rfl),
      Refused.not_accepted s.fs fun h => ?_⟩
    rw [h.known] at hpeer
    cases hpeer
  | ok _ =>
  rw [run_bind_ok (run_attempt rfl)]
  unfold reconciled
  by_cases hknown : s.obj.watermarks[peer]? = some version
  · rw [if_pos hknown, if_pos hknown]
    exact .inr ⟨s, rfl, ⟨hpeer, .inl hknown⟩, Saved.refl S s⟩
  rw [if_neg hknown, if_neg hknown]
  by_cases hzero : version.IsZero
  · rw [if_pos hzero, if_pos hzero]
    rcases install_spec (F .watermark) (s.obj.watermarks.erase peer) s with
      ⟨e, fs', he, hsoft⟩ | ⟨s', hok, hfits, hsaved⟩
    · refine .inl ⟨e, fs', he, fun hF => ⟨(hsoft (hF _)).1, ?_⟩⟩
      rcases (hsoft (hF _)).2 with hnot | ⟨i, hi⟩
      · refine .inl fun h => ?_
        rcases h.room.resolve_left hknown with ⟨_, hfits⟩ | ⟨hne, _⟩
        · exact hnot hfits
        · exact hne hzero
      · exact .inr ⟨_, by simp, i, hi⟩
    · exact .inr ⟨s', hok, ⟨hpeer, .inr (.inl ⟨hzero, hfits⟩)⟩, hsaved⟩
  rw [if_neg hzero, if_neg hzero]
  rcases installIfRoom_spec (F .watermark) (s.obj.watermarks.insert peer version) s with
    ⟨e, fs', he, hsoft⟩ | ⟨s', hok, hroom, hsaved⟩
  · refine .inl ⟨e, fs', he, fun hF => ⟨(hsoft (hF _)).1, ?_⟩⟩
    rcases (hsoft (hF _)).2 with hnot | ⟨i, hi⟩
    · refine .inl fun h => ?_
      rcases h.room.resolve_left hknown with ⟨hz, _⟩ | ⟨_, hroom⟩
      · exact hzero hz
      · exact hnot hroom
    · exact .inr ⟨_, by simp, i, hi⟩
  · exact .inr ⟨s', hok, ⟨hpeer, .inr (.inr ⟨hzero, hroom⟩)⟩, hsaved⟩

/-! ### What the book then says -/

/-- The book with another map. -/
def withMap (b : WatermarkBook) (next : WatermarkMap) : WatermarkBook :=
  { b with watermarks := next }

theorem watermark_withMap (next : WatermarkMap) (other : Bytes) :
    (b.withMap next).watermark other = next.getD other Version.zero := rfl

theorem getD_insert_of_ne {other : Bytes} (h : other ≠ peer) :
    (b.watermarks.insert peer version).getD other Version.zero = b.watermark other := by
  rw [Std.ExtTreeMap.getD_insert, if_neg]
  · rfl
  · intro heq
    exact h (Std.LawfulEqCmp.eq_of_compare heq).symm

theorem watermark_acknowledged (h : b.Acknowledges S peer version) :
    (b.withMap (b.acknowledged peer version)).watermark peer =
      max (b.watermark peer) version := by
  rw [watermark_withMap]
  unfold acknowledged
  by_cases hzero : version.IsZero
  · rw [if_pos (.inl hzero), show version = Version.zero from hzero,
      max_eq_left (Version.zero_le _)]
    rfl
  · rw [max_eq_right (h.forward.resolve_left hzero)]
    by_cases hknown : b.watermarks[peer]? = some version
    · rw [if_pos (.inr hknown)]
      exact watermark_of_getElem? hknown
    · rw [if_neg (not_or.mpr ⟨hzero, hknown⟩), Std.ExtTreeMap.getD_insert_self]

theorem watermark_reconciled :
    (b.withMap (b.reconciled peer version)).watermark peer = version := by
  rw [watermark_withMap]
  unfold reconciled
  split
  · next hknown => exact watermark_of_getElem? hknown
  · split
    · next hzero =>
        rw [Std.ExtTreeMap.getD_erase_self]
        exact (show version = Version.zero from hzero).symm
    · rw [Std.ExtTreeMap.getD_insert_self]

/-! ## Reading back -/

/-- The map passes the checks made when it is read. -/
structure ValidMap (S : Stdlib) (b : WatermarkBook) (m : WatermarkMap) : Prop where
  count : m.size ≤ b.maxPeers
  entries : ∀ peer version, m[peer]? = some version →
    b.validatePeer S peer = .ok () ∧ ¬ version.IsZero

theorem validateEntries_eq_ok {entries : List (Bytes × Version)} :
    b.validateEntries S entries = .ok () ↔
      ∀ entry ∈ entries, b.validatePeer S entry.1 = .ok () ∧ ¬ entry.2.IsZero := by
  induction entries with
  | nil => simp [validateEntries]
  | cons entry rest ih =>
    unfold validateEntries
    rw [except_bind_ok]
    simp only [except_mapError_ok, except_guard_ok, ih, List.mem_cons, forall_eq_or_imp]
    constructor
    · rintro ⟨_, hpeer, hzero, hrest⟩
      exact ⟨⟨hpeer, hzero⟩, hrest⟩
    · rintro ⟨⟨hpeer, hzero⟩, hrest⟩
      exact ⟨(), hpeer, hzero, hrest⟩

theorem validateState_eq_ok {state : Option WatermarkMap} {m : WatermarkMap} :
    b.validateState S state = .ok m ↔ state = some m ∧ b.ValidMap S m := by
  cases state with
  | none => simp [validateState]
  | some m' =>
    unfold validateState
    rw [except_guard_ok, except_bind_ok, not_lt]
    simp only [Except.ok.injEq, Option.some.injEq]
    constructor
    · rintro ⟨hcount, _, hentries, rfl⟩
      refine ⟨rfl, hcount, fun peer version hget => ?_⟩
      exact validateEntries_eq_ok.mp hentries (peer, version)
        (Std.ExtTreeMap.mem_toList_iff_getElem?_eq_some.mpr hget)
    · rintro ⟨rfl, hcount, hentries⟩
      refine ⟨hcount, (), validateEntries_eq_ok.mpr fun entry hmem => ?_, rfl⟩
      exact hentries entry.1 entry.2
        (Std.ExtTreeMap.mem_toList_iff_getElem?_eq_some.mp hmem)

theorem ValidMap.printable {m : WatermarkMap} (h : b.ValidMap S m) :
    ∀ peer ∈ m, S.isPrintable peer = true := by
  intro peer hmem
  have hpeer := (h.entries peer _ (Std.ExtTreeMap.getElem?_eq_some_getElem hmem)).1
  unfold validatePeer at hpeer
  rw [except_guard_ok] at hpeer
  simpa using fun hp => hpeer.1 (.inr (.inr hp))

theorem ValidMap.insert (h : b.ValidMap S b.watermarks)
    (hpeer : b.validatePeer S peer = .ok ()) (hzero : ¬ version.IsZero)
    (hroom : peer ∈ b.watermarks ∨ b.watermarks.size < b.maxPeers) :
    b.ValidMap S (b.watermarks.insert peer version) where
  count := by
    have hcount := h.count
    rw [Std.ExtTreeMap.size_insert]
    split
    · exact hcount
    · next hmem =>
        have hlt := hroom.resolve_left hmem
        omega
  entries := by
    intro other v hget
    rw [Std.ExtTreeMap.getElem?_insert] at hget
    split at hget
    · next heq =>
        cases hget
        rw [← Std.LawfulEqCmp.eq_of_compare heq]
        exact ⟨hpeer, hzero⟩
    · exact h.entries other v hget

theorem ValidMap.erase (h : b.ValidMap S b.watermarks) :
    b.ValidMap S (b.watermarks.erase peer) where
  count := by
    have hcount := h.count
    have hle : (b.watermarks.erase peer).size ≤ b.watermarks.size :=
      Std.ExtTreeMap.size_erase_le
    omega
  entries := by
    intro other v hget
    rw [Std.ExtTreeMap.getElem?_erase] at hget
    split at hget
    · cases hget
    · exact h.entries other v hget

theorem ValidMap.acknowledged (h : b.ValidMap S b.watermarks)
    (hacc : b.Acknowledges S peer version) :
    b.ValidMap S (b.acknowledged peer version) := by
  unfold WatermarkBook.acknowledged
  split
  · exact h
  · next hnew =>
      obtain ⟨hzero, hknown⟩ := not_or.mp hnew
      have hroom := (hacc.room.resolve_left hzero).resolve_left hknown
      exact h.insert hacc.known hzero hroom.peers

theorem ValidMap.reconciled (h : b.ValidMap S b.watermarks)
    (hacc : b.Reconciles S peer version) :
    b.ValidMap S (b.reconciled peer version) := by
  unfold WatermarkBook.reconciled
  split
  · exact h
  · next hknown =>
      split
      · exact h.erase
      · next hzero =>
          rcases hacc.room.resolve_left hknown with ⟨hz, _⟩ | ⟨_, hroom⟩
          · exact absurd hz hzero
          · exact h.insert hacc.known hzero hroom.peers

/-- Opening the file gives this book. -/
def Durable (S : Stdlib) (options : WatermarkOptions) (fs : FS) (b : WatermarkBook) :
    Prop := ofFile S b.path options (fs.read (.file b.path)) = .ok b

variable {options : WatermarkOptions} {fs : FS}

/-- What is read from a file: an empty book, or the map that passed the checks. -/
theorem ofFile_ok {path : String} {data : Option Bytes}
    (h : ofFile S path options data = .ok b) :
    ∃ m, b = (WatermarkBook.new path options).withMap m ∧
      (WatermarkBook.new path options).ValidMap S m := by
  unfold ofFile at h
  split at h
  · refine ⟨∅, (Except.ok.inj h).symm, ?_, by simp⟩
    have hpos : 0 < orDefault options.maxPeers defaultMaxRepairPeers :=
      orDefault_pos _ _ (by decide)
    have hempty : (∅ : WatermarkMap).size = 0 := Std.ExtTreeMap.size_empty
    change ((∅ : WatermarkMap).size : Int) ≤ orDefault options.maxPeers defaultMaxRepairPeers
    omega
  · rw [except_bind_ok] at h
    obtain ⟨state, _, h⟩ := h
    rw [except_bind_ok] at h
    obtain ⟨m, hstate, h⟩ := h
    exact ⟨m, (Except.ok.inj h).symm, (validateState_eq_ok.mp hstate).2⟩

theorem Durable.new (h : b.Durable S options fs) :
    ∃ m, b = (WatermarkBook.new b.path options).withMap m ∧ b.ValidMap S m := by
  obtain ⟨m, hb, hm⟩ := ofFile_ok h
  refine ⟨m, hb, ?_⟩
  rw [hb]
  exact ⟨hm.count, hm.entries⟩

theorem Durable.valid (h : b.Durable S options fs) : b.ValidMap S b.watermarks := by
  obtain ⟨m, hb, hm⟩ := h.new
  have hmap : b.watermarks = m := by
    rw [hb]
    rfl
  rw [hmap]
  exact hm

theorem Durable.of_read {fs' : FS} (h : b.Durable S options fs)
    (hread : fs'.read (.file b.path) = fs.read (.file b.path)) :
    b.Durable S options fs' := by
  unfold Durable
  rw [hread]
  exact h

/-- The book that is read from the file of a valid map. -/
theorem ofFile_bytes (hS : S.Lawful) {path : String} {m : WatermarkMap}
    (hvalid : (WatermarkBook.new path options).ValidMap S m)
    (hfits : (WatermarkBook.new path options).CanStore S m) :
    ofFile S path options (some ((watermarkFile S).bytes S (some m))) =
      .ok ((WatermarkBook.new path options).withMap m) := by
  have hdecode : (watermarkFile S).decode S (WatermarkBook.new path options).maxBytes
      ((watermarkFile S).bytes S (some m)) = .ok (some m) :=
    Sidecar.decode_bytes hS.watermarks ⟨m, rfl, hvalid.printable⟩ hfits
  have hstate : (WatermarkBook.new path options).validateState S (some m) = .ok m :=
    validateState_eq_ok.mpr ⟨rfl, hvalid⟩
  unfold ofFile
  rw [except_bind_ok]
  refine ⟨_, hdecode, ?_⟩
  rw [except_bind_ok]
  exact ⟨_, hstate, rfl⟩

/-- A saved map is the one that is read back. -/
theorem Saved.durable (hS : S.Lawful) {s s' : OnDisk WatermarkBook} {next : WatermarkMap}
    (h : Saved S s next s') (hold : s.obj.Durable S options s.fs)
    (hnext : s.obj.ValidMap S next) : s'.obj.Durable S options s'.fs := by
  rw [h.obj]
  rcases h.file with ⟨hfs, hsame⟩ | ⟨hfits, hfs⟩
  · rw [hfs, hsame]
    exact hold
  obtain ⟨m, hb, _⟩ := hold.new
  have hread : s'.fs.read (.file s.obj.path) =
      some ((watermarkFile S).bytes S (some next)) := hfs.read
  rw [hb] at hnext hfits
  change ofFile S s.obj.path options (s'.fs.read (.file s.obj.path)) = _
  rw [hread, ofFile_bytes hS ⟨hnext.count, hnext.entries⟩ hfits]
  conv_rhs => rw [hb]
  rfl

end WatermarkBook

section Open

variable {S : Stdlib} {o : Oracle} {path : String} {options : WatermarkOptions}
  {b : WatermarkBook} {fs fs' : FS}

theorem openWatermarkBook_ok (h : openWatermarkBook S o path options fs = .ok b fs') :
    path ≠ "" ∧ fs' = fs ∧ b.path = path ∧ b.Durable S options fs := by
  unfold openWatermarkBook at h
  rw [bind_ok] at h
  obtain ⟨_, t, hraise, h⟩ := h
  obtain ⟨hpath, rfl⟩ := raiseIf_ok.mp hraise
  rw [bind_ok] at h
  obtain ⟨data, t, hread, h⟩ := h
  obtain ⟨rfl, rfl⟩ := readFile_ok hread
  obtain ⟨hfile, rfl⟩ := attempt_ok.mp h
  obtain ⟨m, hb, _⟩ := WatermarkBook.ofFile_ok hfile
  have hsame : b.path = path := by
    rw [hb]
    rfl
  subst hsame
  exact ⟨hpath, rfl, rfl, hfile⟩

theorem openWatermarkBook_proceed (ho : ∀ c, o c = .proceed) (hpath : path ≠ "")
    (h : WatermarkBook.ofFile S path options (fs.read (.file path)) = .ok b) :
    openWatermarkBook S o path options fs = .ok b fs := by
  unfold openWatermarkBook
  rw [run_bind_ok (run_raiseIf hpath), run_bind_ok (readFile_proceed ho path fs)]
  exact run_attempt h

end Open

/-! ## The coordinator -/

namespace RepairCoordinator

open WatermarkBook (Outcome Refused)

variable {S : Stdlib}

/-- The check that the coordinator adds. -/
theorem within_journal {version last : Version} :
    ¬ (¬ version.IsZero ∧ version.compare last > 0) ↔ version ≤ last := by
  rw [Version.compare_pos, not_and, not_lt]
  constructor
  · intro h
    by_cases hzero : version.IsZero
    · rw [show version = Version.zero from hzero]
      exact Version.zero_le last
    · exact h hzero
  · intro h _
    exact h

theorem withinJournal_spec (F : Faults) (journal : Journal) (peer : Bytes)
    (version : Version) {call : EStateM Error (OnDisk WatermarkBook) Unit}
    {accepted : Prop} {next : WatermarkMap} (s : OnDisk WatermarkBook)
    (hpeer : accepted → s.obj.validatePeer S peer = .ok ())
    (hcall : Outcome S F accepted next s (call s)) :
    Outcome S F (version ≤ journal.lastVersion ∧ accepted) next s
      (withinJournal S F journal peer version call s) := by
  unfold withinJournal
  rcases ctxErr_cases (F .coordinator) 0 s with ⟨hctx, e, he⟩ | ⟨_, hx⟩
  · exact .inl ⟨e, s.fs, run_bind_error he, Refused.canceled s.fs hctx⟩
  rw [run_bind_ok hx, run_bind_get]
  cases hvalid : s.obj.validatePeer S peer with
  | error e =>
    refine .inl ⟨e, s.fs, run_bind_error (run_attempt_error rfl),
      Refused.not_accepted s.fs fun h => ?_⟩
    rw [hpeer h.2] at hvalid
    cases hvalid
  | ok _ =>
  rw [run_bind_ok (run_attempt rfl)]
  by_cases hin : ¬ (¬ version.IsZero ∧ version.compare journal.lastVersion > 0)
  swap
  · exact .inl ⟨_, s.fs, run_bind_error (run_raiseIf_error (not_not.mp hin)),
      Refused.not_accepted s.fs fun h => hin (within_journal.mpr h.1)⟩
  rw [run_bind_ok (run_raiseIf hin)]
  have hle := within_journal.mp hin
  rcases hcall with ⟨e, fs', he, hrefused⟩ | ⟨s', hok, hacc, hsaved⟩
  · refine .inl ⟨e, fs', he, fun hF => ⟨(hrefused hF).1, ?_⟩⟩
    rcases (hrefused hF).2 with hnot | hctx
    · exact .inl fun h => hnot h.2
    · exact .inr hctx
  · exact .inr ⟨s', hok, ⟨hle, hacc⟩, hsaved⟩

/-- An acknowledgement fails and leaves the book as it was, or is saved. -/
theorem acknowledge_spec (F : Faults) (journal : Journal) (peer : Bytes)
    (version : Version) (s : OnDisk WatermarkBook) :
    Outcome S F (version ≤ journal.lastVersion ∧ s.obj.Acknowledges S peer version)
      (s.obj.acknowledged peer version) s (acknowledge S F journal peer version s) :=
  withinJournal_spec F journal peer version s (fun h => h.known)
    (WatermarkBook.acknowledge_spec F peer version s)

/-- A startup report fails and leaves the book as it was, or is saved. -/
theorem reconcile_spec (F : Faults) (journal : Journal) (peer : Bytes)
    (version : Version) (s : OnDisk WatermarkBook) :
    Outcome S F (version ≤ journal.lastVersion ∧ s.obj.Reconciles S peer version)
      (s.obj.reconciled peer version) s (reconcile S F journal peer version s) :=
  withinJournal_spec F journal peer version s (fun h => h.known)
    (WatermarkBook.reconcile_spec F peer version s)

end RepairCoordinator

/-! ## The other files -/

/-- No file but the book's has changed. -/
def WatermarkBook.InPlace (fs : FS) (path : String) (s : OnDisk WatermarkBook) : Prop :=
  FS.Framed fs path s.fs ∧ s.obj.path = path

section InPlace

variable {S : Stdlib} {fs : FS} {path : String}

theorem WatermarkBook.install_inPlace (o : Oracle) (next : WatermarkMap) :
    Preserves (InPlace fs path) (install S o next) := by
  refine Triple.of_finalState fun s hs => ?_
  obtain ⟨hfs, rfl⟩ := hs
  unfold install
  rw [run_bind_get]
  rcases @Sidecar.persist_spec _ S (watermarkFile S) s.obj.maxBytes (some next) o s.obj.path
    s.fs with ⟨e, fs', hrun, hold | ⟨_, hnew⟩, _⟩ | ⟨fs', hrun, _, hnew⟩
  · rw [run_bind_error (run_onFS_error hrun)]
    exact ⟨hfs.trans (hold.framed _), rfl⟩
  · rw [run_bind_error (run_onFS_error hrun)]
    exact ⟨hfs.trans hnew.framed, rfl⟩
  · rw [run_bind_ok (run_onFS hrun)]
    exact ⟨hfs.trans hnew.framed, rfl⟩

theorem WatermarkBook.acknowledge_inPlace (F : Faults) (peer : Bytes) (version : Version) :
    Preserves (InPlace fs path) (acknowledge S F peer version) := by
  unfold acknowledge
  refine Triple.bind (ctxErr_triple _ _ _) fun _ => ?_
  refine Triple.get_bind fun s hs => ?_
  refine Triple.weaken (P := InPlace fs path) ?_ (fun t ht => ht ▸ hs) (fun _ _ h => h)
    fun _ _ h => h
  refine Triple.bind (Triple.attempt fun _ _ h _ => h) fun _ => Triple.fact fun _ => ?_
  split
  · exact Triple.pure fun _ h => h
  split
  · exact Triple.throw fun _ h => h
  split
  · exact Triple.pure fun _ h => h
  refine Triple.bind (Triple.raiseIf fun _ h _ => h) fun _ => Triple.fact fun _ => ?_
  exact install_inPlace _ _

theorem WatermarkBook.reconcile_inPlace (F : Faults) (peer : Bytes) (version : Version) :
    Preserves (InPlace fs path) (reconcile S F peer version) := by
  unfold reconcile
  refine Triple.bind (ctxErr_triple _ _ _) fun _ => ?_
  refine Triple.get_bind fun s hs => ?_
  refine Triple.weaken (P := InPlace fs path) ?_ (fun t ht => ht ▸ hs) (fun _ _ h => h)
    fun _ _ h => h
  refine Triple.bind (Triple.attempt fun _ _ h _ => h) fun _ => Triple.fact fun _ => ?_
  split
  · exact Triple.pure fun _ h => h
  split
  · exact install_inPlace _ _
  refine Triple.bind (Triple.raiseIf fun _ h _ => h) fun _ => Triple.fact fun _ => ?_
  exact install_inPlace _ _

namespace RepairCoordinator

theorem withinJournal_inPlace (F : Faults) (journal : Journal) (peer : Bytes)
    (version : Version) {call : EStateM Error (OnDisk WatermarkBook) Unit}
    (hcall : Preserves (WatermarkBook.InPlace fs path) call) :
    Preserves (WatermarkBook.InPlace fs path) (withinJournal S F journal peer version call) := by
  unfold withinJournal
  refine Triple.bind (ctxErr_triple _ _ _) fun _ => ?_
  refine Triple.get_bind fun s hs => ?_
  refine Triple.weaken (P := WatermarkBook.InPlace fs path) ?_ (fun t ht => ht ▸ hs)
    (fun _ _ h => h) fun _ _ h => h
  refine Triple.bind (Triple.attempt fun _ _ h _ => h) fun _ => Triple.fact fun _ => ?_
  exact Triple.bind (Triple.raiseIf fun _ h _ => h) fun _ => Triple.fact fun _ => hcall

theorem acknowledge_inPlace (fs : FS) (path : String) (F : Faults) (journal : Journal)
    (peer : Bytes) (version : Version) :
    Preserves (WatermarkBook.InPlace fs path) (acknowledge S F journal peer version) :=
  withinJournal_inPlace F journal peer version
    (WatermarkBook.acknowledge_inPlace F peer version)

theorem reconcile_inPlace (fs : FS) (path : String) (F : Faults) (journal : Journal)
    (peer : Bytes) (version : Version) :
    Preserves (WatermarkBook.InPlace fs path) (reconcile S F journal peer version) :=
  withinJournal_inPlace F journal peer version
    (WatermarkBook.reconcile_inPlace F peer version)

end RepairCoordinator

end InPlace

end StreamHive.Lifecycle

import StreamHive.Lifecycle.Watermark

/-!
# Replica membership

The membership book keeps the set of replicas that an operator has configured,
sorted and without duplicates.  `watermarksAt` is the fence in front of a
compaction: it collects the acknowledgements of all members and refuses if one
of them is behind.

## Main results

* `MembershipBook.replace_spec` — when the disk works, a call fails and changes
  nothing, or the normalized members are saved;
* `MembershipBook.Durable.of_replace` — the saved set is the one read back;
* `MembershipBook.watermarksAt_ok` — the fence lets through only targets that
  every member has acknowledged.
-/

namespace StreamHive.Lifecycle

open Verified ByteString Effect FileSystem

/-! ## The program -/

def defaultMaxMembershipPeers : Int := defaultMaxRepairPeers
def defaultMaxMembershipPeerIDBytes : Int := defaultMaxRepairPeerIDBytes
def defaultMaxMembershipBytes : Int := defaultMaxRepairWatermarkBytes

/-- Bounds on membership state. -/
structure MembershipOptions where
  maxPeers : Int
  maxPeerIDBytes : Int
  maxBytes : Int
  deriving DecidableEq, Repr

def MembershipOptions.normalized (o : MembershipOptions) : MembershipOptions where
  maxPeers := orDefault o.maxPeers defaultMaxMembershipPeers
  maxPeerIDBytes := orDefault o.maxPeerIDBytes defaultMaxMembershipPeerIDBytes
  maxBytes := orDefault o.maxBytes defaultMaxMembershipBytes

/-- The configured members, with the file that holds them. -/
structure MembershipBook where
  path : String
  maxPeers : Int
  maxPeerID : Int
  maxBytes : Int
  configured : Bool
  members : List Bytes

variable (S : Stdlib)

/-- The file of a membership book. -/
def membershipFile : Sidecar (List Bytes) where
  json := S.members
  corrupt := .membershipCorrupt
  checksum := .membershipChecksum
  limit := .membershipLimit

/-- Byte order of identities, as `sort.Strings` uses it. -/
def memberLE (a b : Bytes) : Prop := (compare a b).isLE = true

instance : DecidableRel memberLE := fun a b =>
  inferInstanceAs (Decidable ((compare a b).isLE = true))

/-- Two neighbours are equal. -/
def hasEqualNeighbours : List Bytes → Bool
  | a :: b :: rest => a == b || hasEqualNeighbours (b :: rest)
  | _ => false

namespace MembershipBook

/-- A book without a configured set. -/
def new (path : String) (options : MembershipOptions) : MembershipBook where
  path := path
  maxPeers := options.normalized.maxPeers
  maxPeerID := options.normalized.maxPeerIDBytes
  maxBytes := options.normalized.maxBytes
  configured := false
  members := []

/-- The book with a configured set. -/
def withMembers (b : MembershipBook) (members : List Bytes) : MembershipBook :=
  { b with configured := true, members := members }

/-- The validation loop of `normalizeMembers`. -/
def validateMembers (b : MembershipBook) : List Bytes → Except Error Unit
  | [] => .ok ()
  | member :: rest =>
    if member = [] ∨ member.length > b.maxPeerID ∨ S.isPrintable member = false then
      .error .membershipPeerInvalid
    else
      b.validateMembers rest

def normalizeMembers (b : MembershipBook) (members : List Bytes) : Except Error (List Bytes) :=
  if members.length > b.maxPeers then
    .error .membershipLimit
  else do
    b.validateMembers S members
    let normalized := members.insertionSort memberLE
    if hasEqualNeighbours normalized then
      .error .membershipDuplicate
    else
      .ok normalized

/-- The book for the contents of its file. -/
def ofFile (path : String) (options : MembershipOptions) :
    Option Bytes → Except Error MembershipBook
  | none => .ok (new path options)
  | some data => do
    let state ← (membershipFile S).decode S (new path options).maxBytes data
    let members ← ((new path options).normalizeMembers S state).mapError
      (.joined .membershipCorrupt)
    .ok ((new path options).withMembers members)

/-- Replace the configured set. -/
def replace (o : Oracle) (members : List Bytes) :
    EStateM Error (OnDisk MembershipBook) Unit := do
  ctxErr o 2
  let b := (← get).obj
  let normalized ← attempt (b.normalizeMembers S members)
  onFS ((membershipFile S).persist S o b.path b.maxBytes normalized)
  modify fun s => { s with obj := b.withMembers normalized }

/-- The loop of `watermarksAt`. -/
def collectWatermarks (o : Oracle) (watermarks : WatermarkBook) (target : Version) :
    Nat → List Bytes → Except Error (List Version)
  | _, [] => .ok []
  | i, member :: rest => do
    ctxCheck o i
    let version := watermarks.watermark member
    if version.compare target < 0 then
      .error (.joined .membershipBehind (.memberAcknowledged member version target))
    else do
      let versions ← collectWatermarks o watermarks target (i + 1) rest
      .ok (version :: versions)

/-- The acknowledgement of every member, each at or above the target. -/
def watermarksAt (o : Oracle) (b : MembershipBook) (watermarks : WatermarkBook)
    (target : Version) : Except Error (List Version) := do
  ctxCheck o 0
  if target.IsZero then
    .error .membershipWatermarkInvalid
  else if b.configured = false then
    .error .membershipNotConfigured
  else
    collectWatermarks o watermarks target 1 b.members

end MembershipBook

/-- Open a membership book; a missing file is an unconfigured one. -/
def openMembershipBook (o : Oracle) (path : String) (options : MembershipOptions) :
    EStateM Error FS MembershipBook := do
  raiseIf (path = "") .nilMembershipPath
  let data ← readFile o path
  attempt (MembershipBook.ofFile S path options data)

/-! ## Normal sets -/

instance : Std.Total memberLE where
  total := by
    intro a b
    unfold memberLE
    rw [show compare a b = (compare b a).swap from Std.OrientedCmp.eq_swap]
    cases compare b a <;> decide

instance : IsTrans Bytes memberLE where
  trans := by
    intro a b c hab hbc
    exact Std.TransCmp.isLE_trans hab hbc

namespace MembershipBook

variable {S : Stdlib} {b : MembershipBook} {members normalized : List Bytes}

theorem validateMembers_eq_ok :
    b.validateMembers S members = .ok () ↔ ∀ m ∈ members,
      ¬ (m = [] ∨ m.length > b.maxPeerID ∨ S.isPrintable m = false) := by
  induction members with
  | nil => simp [validateMembers]
  | cons m rest ih =>
    unfold validateMembers
    rw [except_guard_ok, ih]
    simp only [List.mem_cons, forall_eq_or_imp]

theorem normalizeMembers_eq_ok :
    b.normalizeMembers S members = .ok normalized ↔
      members.length ≤ b.maxPeers ∧
        (∀ m ∈ members, ¬ (m = [] ∨ m.length > b.maxPeerID ∨ S.isPrintable m = false)) ∧
        hasEqualNeighbours (members.insertionSort memberLE) = false ∧
        normalized = members.insertionSort memberLE := by
  unfold normalizeMembers
  rw [except_guard_ok, except_bind_ok, not_lt]
  simp only [except_guard_ok, Bool.not_eq_true, Except.ok.injEq]
  constructor
  · rintro ⟨hcount, _, hvalid, hdup, rfl⟩
    exact ⟨hcount, validateMembers_eq_ok.mp hvalid, hdup, rfl⟩
  · rintro ⟨hcount, hvalid, hdup, rfl⟩
    exact ⟨hcount, (), validateMembers_eq_ok.mpr hvalid, hdup, rfl⟩

/-- A normal set is normal. -/
theorem normalizeMembers_normalized (h : b.normalizeMembers S members = .ok normalized) :
    b.normalizeMembers S normalized = .ok normalized := by
  obtain ⟨hcount, hvalid, hdup, rfl⟩ := normalizeMembers_eq_ok.mp h
  have hsorted : (members.insertionSort memberLE).insertionSort memberLE =
      members.insertionSort memberLE :=
    (List.pairwise_insertionSort memberLE members).insertionSort_eq
  have hperm := List.perm_insertionSort memberLE members
  rw [normalizeMembers_eq_ok, hsorted]
  refine ⟨?_, fun m hm => hvalid m (hperm.mem_iff.mp hm), hdup, rfl⟩
  rw [hperm.length_eq]
  exact hcount

theorem printable_of_normalize (h : b.normalizeMembers S members = .ok normalized) :
    ∀ m ∈ normalized, S.isPrintable m = true := by
  obtain ⟨_, hvalid, _, rfl⟩ := normalizeMembers_eq_ok.mp h
  intro m hm
  have hm' := hvalid m ((List.perm_insertionSort memberLE members).mem_iff.mp hm)
  simpa using fun hp => hm' (.inr (.inr hp))

/-- The bounds of a book do not depend on its members. -/
theorem normalizeMembers_withMembers (other : List Bytes) :
    (b.withMembers other).normalizeMembers S members = b.normalizeMembers S members := by
  have hsame : ∀ ms, (b.withMembers other).validateMembers S ms =
      b.validateMembers S ms := by
    intro ms
    induction ms with
    | nil => rfl
    | cons m rest ih =>
      unfold validateMembers
      rw [ih]
      rfl
  unfold normalizeMembers
  rw [hsame]
  rfl

/-! ## Replacing the set -/

/-- Opening the file gives this book. -/
def Durable (S : Stdlib) (options : MembershipOptions) (fs : FS) (b : MembershipBook) :
    Prop := ofFile S b.path options (fs.read (.file b.path)) = .ok b

variable {options : MembershipOptions} {fs fs' : FS}

theorem Durable.of_read (h : b.Durable S options fs)
    (hread : fs'.read (.file b.path) = fs.read (.file b.path)) :
    b.Durable S options fs' := by
  unfold Durable
  rw [hread]
  exact h

/-- What is read from a file: the book without a set, or a set in normal form. -/
theorem ofFile_ok {path : String} {data : Option Bytes}
    (h : ofFile S path options data = .ok b) :
    b = MembershipBook.new path options ∨
      ∃ ms, b = (MembershipBook.new path options).withMembers ms ∧
        (MembershipBook.new path options).normalizeMembers S ms = .ok ms := by
  unfold ofFile at h
  split at h
  · exact .inl (Except.ok.inj h).symm
  · rw [except_bind_ok] at h
    obtain ⟨state, _, h⟩ := h
    rw [except_bind_ok] at h
    obtain ⟨ms, hnormal, h⟩ := h
    rw [except_mapError_ok] at hnormal
    exact .inr ⟨ms, (Except.ok.inj h).symm, normalizeMembers_normalized hnormal⟩

theorem Durable.new (h : b.Durable S options fs) :
    b = MembershipBook.new b.path options ∨
      ∃ ms, b = (MembershipBook.new b.path options).withMembers ms := by
  rcases ofFile_ok h with hb | ⟨ms, hb, _⟩
  · exact .inl hb
  · exact .inr ⟨ms, hb⟩

/-- Replacing the set fails, and when the disk works it then changes nothing, or saves
the normal form. -/
theorem replace_spec (o : Oracle) (members : List Bytes) (s : OnDisk MembershipBook) :
    (∃ e fs', replace S o members s = .error e { s with fs := fs' } ∧
        (o.Soft → FS.Untouched s.fs fs' ∧
          ((∃ i, o (.ctxErr i) ≠ .proceed) ∨
            ∀ ms, s.obj.normalizeMembers S members = .ok ms →
              ¬ (membershipFile S).Writable S s.obj.maxBytes ms))) ∨
      (∃ ms fs', replace S o members s = .ok () ⟨fs', s.obj.withMembers ms⟩ ∧
        s.obj.normalizeMembers S members = .ok ms ∧
        (membershipFile S).Writable S s.obj.maxBytes ms ∧
        FS.Replaced s.fs s.obj.path ((membershipFile S).bytes S ms) fs') := by
  have hrefl := FS.Untouched.refl s.fs
  unfold replace
  rcases ctxErr_cases o 2 s with ⟨hctx, e, he⟩ | ⟨_, hx⟩
  · exact .inl ⟨e, s.fs, run_bind_error he, fun _ => ⟨hrefl, .inl ⟨2, hctx⟩⟩⟩
  rw [run_bind_ok hx, run_bind_get]
  cases hnormal : s.obj.normalizeMembers S members with
  | error e =>
    exact .inl ⟨e, s.fs, run_bind_error (run_attempt_error rfl),
      fun _ => ⟨hrefl, .inr nofun⟩⟩
  | ok ms =>
  rw [run_bind_ok (run_attempt rfl)]
  rcases Sidecar.persist_spec o s.obj.path s.fs with ⟨e, fs', he, _, hwhy⟩ |
    ⟨fs', hok, hfits, hfs⟩
  · refine .inl ⟨e, fs', run_bind_error (run_onFS_error he), fun ho => ⟨(hwhy ho).1, ?_⟩⟩
    rcases (hwhy ho).2 with hnot | ⟨i, _, hi⟩
    · refine .inr fun ms' hms => ?_
      cases hms
      exact hnot
    · exact .inl ⟨i, hi⟩
  · exact .inr ⟨ms, fs', (run_bind_ok (run_onFS hok)).trans rfl, rfl, hfits, hfs⟩

/-- The book that is read from the file of a set in normal form. -/
theorem ofFile_bytes (hS : S.Lawful) {path : String}
    (hnormal : (MembershipBook.new path options).normalizeMembers S members = .ok normalized)
    (hfits : (membershipFile S).Writable S (MembershipBook.new path options).maxBytes
      normalized) :
    ofFile S path options (some ((membershipFile S).bytes S normalized)) =
      .ok ((MembershipBook.new path options).withMembers normalized) := by
  have hdecode : (membershipFile S).decode S (MembershipBook.new path options).maxBytes
      ((membershipFile S).bytes S normalized) = .ok normalized :=
    Sidecar.decode_bytes hS.members (printable_of_normalize hnormal) hfits
  unfold ofFile
  rw [except_bind_ok]
  refine ⟨normalized, hdecode, ?_⟩
  rw [except_bind_ok]
  refine ⟨normalized, ?_, rfl⟩
  rw [except_mapError_ok]
  exact normalizeMembers_normalized hnormal

/-- The saved set is the one read back. -/
theorem Durable.of_replace (hS : S.Lawful) (h : b.Durable S options fs)
    (hnormal : b.normalizeMembers S members = .ok normalized)
    (hfits : (membershipFile S).Writable S b.maxBytes normalized)
    (hfs : FS.Replaced fs b.path ((membershipFile S).bytes S normalized) fs') :
    (b.withMembers normalized).Durable S options fs' := by
  have hread : fs'.read (.file b.path) = some ((membershipFile S).bytes S normalized) :=
    hfs.read
  change ofFile S b.path options (fs'.read (.file b.path)) = _
  rw [hread]
  rcases h.new with hb | ⟨ms, hb⟩
  · rw [hb] at hnormal hfits
    rw [ofFile_bytes hS hnormal hfits, ← hb]
  · rw [hb, normalizeMembers_withMembers] at hnormal
    rw [hb] at hfits
    rw [ofFile_bytes hS hnormal hfits]
    conv_rhs => rw [hb]
    rfl

/-! ## The fence -/

theorem collectWatermarks_ok {o : Oracle} {watermarks : WatermarkBook} {target : Version} :
    ∀ {i : Nat} {members : List Bytes} {versions : List Version},
      collectWatermarks o watermarks target i members = .ok versions →
      versions = members.map watermarks.watermark ∧ ∀ v ∈ versions, target ≤ v := by
  intro i members
  induction members generalizing i with
  | nil =>
    intro versions h
    cases h
    simp
  | cons m rest ih =>
    intro versions h
    unfold collectWatermarks at h
    rw [except_bind_ok] at h
    obtain ⟨_, _, h⟩ := h
    rw [except_guard_ok, Version.compare_lt_zero, not_lt, except_bind_ok] at h
    obtain ⟨hle, vs, hvs, h⟩ := h
    obtain ⟨hmap, hall⟩ := ih hvs
    cases h
    exact ⟨by rw [hmap]; rfl, List.forall_mem_cons.mpr ⟨hle, hall⟩⟩

/-- The fence lets through only targets that every member has acknowledged. -/
theorem watermarksAt_ok {o : Oracle} {watermarks : WatermarkBook} {target : Version}
    {versions : List Version} (h : b.watermarksAt o watermarks target = .ok versions) :
    b.configured = true ∧ versions = b.members.map watermarks.watermark ∧
      ∀ v ∈ versions, target ≤ v := by
  unfold watermarksAt at h
  rw [except_bind_ok] at h
  obtain ⟨_, _, h⟩ := h
  rw [except_guard_ok, except_guard_ok] at h
  obtain ⟨_, hconfigured, h⟩ := h
  exact ⟨by simpa using hconfigured, collectWatermarks_ok h⟩

end MembershipBook

section Open

variable {S : Stdlib} {o : Oracle} {path : String} {options : MembershipOptions}
  {b : MembershipBook} {fs fs' : FS}

theorem openMembershipBook_ok (h : openMembershipBook S o path options fs = .ok b fs') :
    path ≠ "" ∧ fs' = fs ∧ b.path = path ∧ b.Durable S options fs := by
  unfold openMembershipBook at h
  rw [bind_ok] at h
  obtain ⟨_, t, hraise, h⟩ := h
  obtain ⟨hpath, rfl⟩ := raiseIf_ok.mp hraise
  rw [bind_ok] at h
  obtain ⟨data, t, hread, h⟩ := h
  obtain ⟨rfl, rfl⟩ := readFile_ok hread
  obtain ⟨hfile, rfl⟩ := attempt_ok.mp h
  have hsame : b.path = path := by
    rcases MembershipBook.ofFile_ok hfile with hb | ⟨ms, hb, _⟩
    · rw [hb]
      rfl
    · rw [hb]
      rfl
  subst hsame
  exact ⟨hpath, rfl, rfl, hfile⟩

theorem openMembershipBook_proceed (ho : ∀ c, o c = .proceed) (hpath : path ≠ "")
    (h : MembershipBook.ofFile S path options (fs.read (.file path)) = .ok b) :
    openMembershipBook S o path options fs = .ok b fs := by
  unfold openMembershipBook
  rw [run_bind_ok (run_raiseIf hpath), run_bind_ok (readFile_proceed ho path fs)]
  exact run_attempt h

end Open

end StreamHive.Lifecycle

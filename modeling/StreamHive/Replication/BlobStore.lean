import StreamHive.Replication.Exchange

/-!
# Blob stores

The two stores of the program, one in memory and one in files, hold data under
non-empty keys.  A 32-byte key is a SHA-256 digest; the file store verifies the
data under such a key whenever it reads it, the memory store never does.  No call
that replication makes removes a key.

## Main results

* `BlobStore.put_triple` — whatever calls fail, a put leaves the store as it was or
  with the data under the key;
* `BlobStore.get_cases` — every way in which a read can end.
-/

namespace StreamHive.Replication

open Verified.ByteString Verified.Effect
open StreamHive.Lifecycle (Error Oracle Stdlib sha256Size verifySHA256Key
  verifySHA256Key_eq_ok ctxErr ctxCheck ctxCheck_ok ctxErr_triple perform perform_triple)

/-! ## The program -/

inductive StoreKind where
  | memory
  | file
  deriving DecidableEq, Repr

/-- A store and its contents; an empty key is refused by every operation. -/
structure BlobStore where
  kind : StoreKind
  blobs : Std.ExtTreeMap Bytes Bytes compare
  key_ne_nil : ∀ key ∈ blobs, key ≠ []

namespace BlobStore

/-- The data under a key. -/
def data? (store : BlobStore) (key : Bytes) : Option Bytes := store.blobs[key]?

/-- The store with data under a key. -/
def insert (store : BlobStore) (key data : Bytes) (hkey : key ≠ []) : BlobStore where
  kind := store.kind
  blobs := store.blobs.insert key data
  key_ne_nil := by
    intro k hk
    rcases Std.ExtTreeMap.mem_insert.mp hk with hk | hk
    · rw [← Std.LawfulEqCmp.eq_of_compare hk]
      exact hkey
    · exact store.key_ne_nil k hk

/-- A read of the file under a key, or of the table in memory. -/
def read (o : Oracle) (call : Lifecycle.Call) (store : BlobStore) (key : Bytes) :
    Except Error (Option Bytes) :=
  match o call with
  | .proceed => .ok (store.data? key)
  | .fail _ => .error (.io call)
  | .crash _ => .error .crash

/-- `Get`; a file store verifies content-addressed data. -/
def get (S : Stdlib) (o : Oracle) (store : BlobStore) (key : Bytes) : Except Error Bytes := do
  ctxCheck o 0
  if key = [] then .error .storageKeyEmpty
  else do
    match ← store.read o .blobGet key with
    | none => .error .blobNotFound
    | some data =>
      match store.kind with
      | .memory => .ok data
      | .file =>
        match verifySHA256Key S key data with
        | .ok _ => .ok data
        | .error e => if e.is .invalidSHA256Key then .ok data else .error e

/-- `Has`; a file store reports a key with corrupt data as missing. -/
def has (S : Stdlib) (o : Oracle) (store : BlobStore) (key : Bytes) : Except Error Bool := do
  ctxCheck o 0
  if key = [] then .error .storageKeyEmpty
  else do
    match ← store.read o .blobHas key with
    | none => .ok false
    | some data =>
      match store.kind with
      | .memory => .ok true
      | .file =>
        if key.length = sha256Size then .ok (verifySHA256Key S key data).isOk
        else .ok true

/-- `Put`; a failing call may have stored the data. -/
def put (o : Oracle) (key data : Bytes) : EStateM Error BlobStore Unit := do
  ctxErr o 0
  if hkey : key = [] then throw .storageKeyEmpty
  else do
    ctxErr o 1
    perform o .blobPut fun store => store.insert key data hkey

/-- Both stores list their keys and page through them. -/
def lister (store : BlobStore) : Lister where
  keys := store.blobs.keys
  nodup := by
    refine (Std.ExtTreeMap.distinct_keys (t := store.blobs)).imp ?_
    intro a b hne heq
    rw [heq] at hne
    exact hne Std.ReflCmp.compare_self
  paged := true

end BlobStore

/-- `verifyContentKeyIfSHA256`: a key of another length is opaque. -/
def verifyContentKeyIfSHA256 (S : Stdlib) (key data : Bytes) : Except Error Unit :=
  if key.length ≠ sha256Size then .ok () else verifySHA256Key S key data

/-! ## Contents -/

/-- Under every 32-byte key, the data that hashes to it. -/
def Matching (S : Stdlib) (store : BlobStore) : Prop :=
  ∀ key data, store.data? key = some data → key.length = sha256Size → S.sha256 data = key

/-- Every key is the hash of its data. -/
def ContentAddressed (S : Stdlib) (store : BlobStore) : Prop :=
  ∀ key data, store.data? key = some data → S.sha256 data = key

theorem ContentAddressed.matching {S : Stdlib} {store : BlobStore}
    (h : ContentAddressed S store) : Matching S store :=
  fun key data hdata _ => h key data hdata

namespace BlobStore

variable {S : Stdlib} {o : Oracle} {store : BlobStore} {key data : Bytes}

@[simp] theorem data?_insert_self (hkey : key ≠ []) :
    (store.insert key data hkey).data? key = some data := by
  simp [data?, insert]

theorem data?_insert_ne (hkey : key ≠ []) {other : Bytes} (h : other ≠ key) :
    (store.insert key data hkey).data? other = store.data? other := by
  unfold data? insert
  rw [Std.ExtTreeMap.getElem?_insert, if_neg]
  intro hc
  exact h (Std.LawfulEqCmp.eq_of_compare hc).symm

theorem mem_keys_iff : key ∈ store.lister.keys ↔ ∃ data, store.data? key = some data := by
  show key ∈ store.blobs.keys ↔ _
  rw [Std.ExtTreeMap.mem_keys]
  constructor
  · intro h
    exact ⟨_, Std.ExtTreeMap.getElem?_eq_some_getElem h⟩
  · intro ⟨data, h⟩
    exact Std.ExtTreeMap.mem_iff_isSome_getElem?.mpr (by rw [show store.blobs[key]? = _ from h]; rfl)

theorem ne_nil_of_data? (h : store.data? key = some data) : key ≠ [] := by
  apply store.key_ne_nil key
  exact Std.ExtTreeMap.mem_iff_isSome_getElem?.mpr (by rw [show store.blobs[key]? = _ from h]; rfl)

/-- The check of a file store passes on matching data and on opaque keys. -/
theorem verifySHA256Key_matching (h : key.length = sha256Size → S.sha256 data = key) :
    verifySHA256Key S key data = .ok () ∨
      key.length ≠ sha256Size ∧ verifySHA256Key S key data = .error .invalidSHA256Key := by
  by_cases hlength : key.length = sha256Size
  · exact .inl (verifySHA256Key_eq_ok.mpr ⟨hlength, h hlength⟩)
  · refine .inr ⟨hlength, ?_⟩
    unfold verifySHA256Key
    rw [if_pos hlength]

/-- Every way in which a read can end. -/
theorem get_cases (S : Stdlib) (o : Oracle) (store : BlobStore) (key : Bytes) :
    (o (.ctxErr 0) ≠ .proceed ∧ ∃ e, store.get S o key = .error e ∧ (e = .canceled ∨ e = .crash)) ∨
    (key = [] ∧ store.get S o key = .error .storageKeyEmpty) ∨
    ((∃ n, o .blobGet = .fail n) ∧ store.get S o key = .error (.io .blobGet)) ∨
    ((∃ n, o .blobGet = .crash n) ∧ store.get S o key = .error .crash) ∨
    (store.data? key = none ∧ store.get S o key = .error .blobNotFound) ∨
    ∃ data, store.data? key = some data ∧ (store.get S o key = .ok data ∨
      (key.length = sha256Size ∧ S.sha256 data ≠ key ∧
        store.get S o key = .error .sha256Mismatch)) := by
  unfold get
  by_cases hctx : o (.ctxErr 0) = .proceed
  swap
  · left
    refine ⟨hctx, ?_⟩
    unfold ctxCheck
    cases hverdict : o (.ctxErr 0) with
    | proceed => exact absurd hverdict hctx
    | fail n => exact ⟨_, rfl, .inl rfl⟩
    | crash n => exact ⟨_, rfl, .inr rfl⟩
  right
  rw [ctxCheck_ok.mpr hctx]
  by_cases hkey : key = []
  · exact .inl ⟨hkey, if_pos hkey⟩
  right
  rw [if_neg hkey]
  unfold read
  cases hverdict : o .blobGet with
  | fail n => exact .inl ⟨⟨n, rfl⟩, rfl⟩
  | crash n => exact .inr (.inl ⟨⟨n, rfl⟩, rfl⟩)
  | proceed =>
    refine .inr (.inr ?_)
    cases hdata : store.data? key with
    | none => exact .inl ⟨rfl, rfl⟩
    | some data =>
      refine .inr ⟨data, rfl, ?_⟩
      cases hkind : store.kind with
      | memory => exact .inl rfl
      | file =>
        dsimp only [bind, Except.bind]
        by_cases hmatch : key.length = sha256Size → S.sha256 data = key
        · left
          rcases verifySHA256Key_matching hmatch with hok | ⟨_, herror⟩
          · rw [hok]
          · rw [herror]
            rfl
        · obtain ⟨hlength, hne⟩ := Classical.not_imp.mp hmatch
          refine .inr ⟨hlength, hne, ?_⟩
          unfold verifySHA256Key
          rw [if_neg (not_not.mpr hlength), if_pos (Ne.symm hne)]
          rfl

/-- A read without faults of a store whose content-addressed data matches. -/
theorem get_run (hm : Matching S store) (hkey : key ≠ []) :
    store.get S Oracle.none key =
      match store.data? key with
      | none => .error .blobNotFound
      | some data => .ok data := by
  rcases get_cases S Oracle.none store key with ⟨hctx, _⟩ | ⟨hnil, _⟩ | ⟨⟨_, hfail⟩, _⟩ |
    ⟨⟨_, hcrash⟩, _⟩ | ⟨hdata, hget⟩ | ⟨data, hdata, hget | ⟨hlength, hne, _⟩⟩
  · exact absurd rfl hctx
  · exact absurd hnil hkey
  · cases hfail
  · cases hcrash
  · rw [hdata, hget]
  · rw [hdata, hget]
  · exact absurd (hm key data hdata hlength) hne

/-- A probe without faults of a store whose content-addressed data matches. -/
theorem has_run (hm : Matching S store) (hkey : key ≠ []) :
    store.has S Oracle.none key = .ok (store.data? key).isSome := by
  have hread : store.has S Oracle.none key =
      match store.data? key with
      | none => .ok false
      | some data =>
        match store.kind with
        | .memory => .ok true
        | .file =>
          if key.length = sha256Size then .ok (verifySHA256Key S key data).isOk
          else .ok true := by
    unfold has
    rw [if_neg hkey]
    rfl
  rw [hread]
  cases hdata : store.data? key with
  | none => rfl
  | some data =>
    simp only
    cases store.kind with
    | memory => rfl
    | file =>
      rcases verifySHA256Key_matching (hm key data hdata) with hok | ⟨hlength, _⟩
      · rw [hok]
        simp [Except.isOk, Except.toBool]
      · rw [if_neg hlength]
        rfl

/-- Whatever fails, data that is read is in the store. -/
theorem get_ok (h : store.get S o key = .ok data) : store.data? key = some data := by
  rcases get_cases S o store key with ⟨_, e, hget, _⟩ | ⟨_, hget⟩ | ⟨_, hget⟩ | ⟨_, hget⟩ |
    ⟨_, hget⟩ | ⟨found, hdata, hget | ⟨_, _, hget⟩⟩
  all_goals rw [hget] at h
  all_goals cases h
  exact hdata

/-- A put without faults. -/
theorem put_run (hkey : key ≠ []) :
    put Oracle.none key data store = .ok () (store.insert key data hkey) := by
  unfold put
  rw [run_bind_ok (show ctxErr Oracle.none 0 store = .ok () store from rfl), dif_neg hkey]
  rfl

/-- Whatever fails, a put stores the data or leaves the store as it was. -/
theorem put_triple (o : Oracle) (store : BlobStore) (key data : Bytes) :
    Triple (fun s => s = store) (put o key data)
      (fun _ s => ∃ hkey, s = store.insert key data hkey)
      (fun _ s => s = store ∨ ∃ hkey, s = store.insert key data hkey) := by
  have hctx : ∀ i, Triple (fun s => s = store) (ctxErr o i) (fun _ s => s = store)
      (fun _ s => s = store ∨ ∃ hkey, s = store.insert key data hkey) := fun i =>
    (ctxErr_triple o i _).weaken (fun _ hs => hs) (fun _ _ hs => hs) fun _ _ hs => .inl hs
  unfold put
  apply Triple.bind (hctx 0)
  intro _
  by_cases hkey : key = []
  · simp only [dif_pos hkey]
    exact Triple.throw fun _ hs => .inl hs
  · simp only [dif_neg hkey]
    apply Triple.bind (hctx 1)
    intro _
    apply (perform_triple o .blobPut _ store).weaken (fun _ hs => hs)
    · intro _ s hs
      exact ⟨hkey, hs⟩
    · intro _ s hs
      exact hs.imp id fun hs => ⟨hkey, hs⟩

end BlobStore

namespace Sample

def blob : Bytes := ascii "data"

def blobKey : Bytes := Lifecycle.goStdlib.sha256 blob

theorem blobKey_ne_nil : blobKey ≠ [] := by decide +kernel

/-- A store that holds nothing. -/
def emptyStore : BlobStore := ⟨.memory, ∅, by simp⟩

/-- A store that holds one blob under its hash. -/
def oneBlob : BlobStore := emptyStore.insert blobKey blob blobKey_ne_nil

@[simp] theorem emptyStore_data? (key : Bytes) : emptyStore.data? key = none := by
  simp [emptyStore, BlobStore.data?]

end Sample

end StreamHive.Replication

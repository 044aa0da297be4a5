import StreamHive.Replication.Exchange
import StreamHive.Verified.Transition

/-!
# Listings of a directory through several file stores

A file store keeps an index of the keys and trusts it while the modification time that
it remembers is the directory's.  Its own writes change the index and remember the new
time.  A write through one store after a write through another therefore takes the
other's change for its own: the index misses it and is trusted.

Calls are complete and no input or output fails.  The temporary file of a put is gone
when the put returns, so a directory is its blob files and a time, and nothing changes
it while an index is read.  How far each change moves the time is a parameter of the
call.

## Main results

* `System.lists_iff` — in a state with sound indexes, a write keeps them sound exactly
  if its store's index agrees with the directory about the other keys;
* `listings_current_iff` — every listing of a run is the directory's exactly if every
  write of the run finds its store's index so;
* `write_hides_other_handle` — a run in which one does not.
-/

namespace StreamHive.Storage

open Verified ByteString
open StreamHive.Replication (normalizeKeyPageLimit)

/-! ## The program -/

/-- The blob files of a directory, by key, and its modification time. -/
structure Directory where
  blobs : Std.ExtTreeMap Bytes Bytes compare
  key_ne_nil : ∀ key ∈ blobs, key ≠ []
  modTime : Nat

namespace Directory

theorem empty_keys : ∀ key ∈ (∅ : Std.ExtTreeMap Bytes Bytes compare), key ≠ [] := by simp

/-- A change moves the time on. -/
def touch (d : Directory) (tick : Nat) : Directory :=
  { d with modTime := d.modTime + tick + 1 }

def write (d : Directory) (key data : Bytes) (hkey : key ≠ []) (tick : Nat) : Directory where
  blobs := d.blobs.insert key data
  key_ne_nil := by
    intro k hk
    cases Std.ExtTreeMap.mem_insert.mp hk with
    | inl heq =>
      rw [← Std.LawfulEqCmp.eq_of_compare heq]
      exact hkey
    | inr hmem => exact d.key_ne_nil k hmem
  modTime := d.modTime + tick + 1

def remove (d : Directory) (key : Bytes) (tick : Nat) : Directory where
  blobs := d.blobs.erase key
  key_ne_nil := fun k hk => d.key_ne_nil k (Std.ExtTreeMap.mem_erase.mp hk).2
  modTime := d.modTime + tick + 1

end Directory

/-- A store on the directory: its index, and the time that it remembers. -/
structure FileStore where
  keys : Option (Std.ExtTreeSet Bytes compare)
  indexModTime : Nat

/-- `NewFileStore`. -/
def FileStore.new : FileStore := ⟨none, 0⟩

/-- The index of the names in the directory. -/
def readKeyIndex (d : Directory) : Std.ExtTreeSet Bytes compare :=
  d.blobs.keys.foldl (fun index key => index.insert key) ∅

/-- `AscendGreaterOrEqual` with the callback of a page. -/
def scanPage (after : Bytes) (limit : Nat) : List Bytes → List Bytes → List Bytes
  | page, [] => page
  | page, key :: rest =>
    if after ≠ [] ∧ key = after then
      scanPage after limit page rest
    else if (page ++ [key]).length < limit then
      scanPage after limit (page ++ [key]) rest
    else
      page ++ [key]

namespace FileStore

/-- Change the index, if there is one, and remember the time. -/
def update (s : FileStore) (d : Directory)
    (f : Std.ExtTreeSet Bytes compare → Std.ExtTreeSet Bytes compare) : FileStore :=
  match s.keys with
  | none => s
  | some keys => ⟨some (f keys), d.modTime⟩

/-- Read the index unless the time is the remembered one. -/
def ensureKeyIndex (s : FileStore) (d : Directory) : FileStore :=
  if s.keys.isSome ∧ d.modTime = s.indexModTime then s
  else ⟨some (readKeyIndex d), d.modTime⟩

/-- A put makes a temporary file and renames it; an empty key is refused. -/
def put (s : FileStore) (d : Directory) (key data : Bytes) (created renamed : Nat) :
    FileStore × Directory :=
  if hkey : key ≠ [] then
    let d' := (d.touch created).write key data hkey renamed
    (s.update d' fun keys => keys.insert key, d')
  else
    (s, d)

/-- A delete of a missing key leaves the directory alone. -/
def delete (s : FileStore) (d : Directory) (key : Bytes) (removed : Nat) :
    FileStore × Directory :=
  if key = [] then (s, d)
  else if key ∈ d.blobs then
    let d' := d.remove key removed
    (s.update d' fun keys => keys.erase key, d')
  else
    (s.update d fun keys => keys.erase key, d)

/-- The keys of the index, in order. -/
def indexed (s : FileStore) : List Bytes :=
  match s.keys with
  | none => []
  | some keys => keys.toList

def listKeys (s : FileStore) (d : Directory) : List Bytes × FileStore :=
  ((s.ensureKeyIndex d).indexed, s.ensureKeyIndex d)

def listKeyPage (s : FileStore) (d : Directory) (after : Bytes) (limit : Int) :
    List Bytes × Option Bytes × FileStore :=
  let s' := s.ensureKeyIndex d
  let page := scanPage after (normalizeKeyPageLimit limit).toNat []
    (s'.indexed.filter fun key => (compare after key).isLE)
  (page, page.getLast?, s')

end FileStore

/-! ## Stores on one directory -/

/-- A directory and the stores that are open on it. -/
structure System (H : Type) where
  dir : Directory
  store : H → FileStore

/-- A complete call on one of the stores. -/
inductive Call (H : Type) where
  | put (h : H) (key data : Bytes) (created renamed : Nat)
  | delete (h : H) (key : Bytes) (removed : Nat)
  | listKeys (h : H)
  | listKeyPage (h : H) (after : Bytes) (limit : Int)

namespace System

variable {H : Type}

/-- One store and the directory after a call. -/
def set [DecidableEq H] (s : System H) (h : H) (result : FileStore × Directory) : System H :=
  ⟨result.2, Function.update s.store h result.1⟩

def step [DecidableEq H] (s : System H) : Call H → System H
  | .put h key data created renamed =>
    s.set h ((s.store h).put s.dir key data created renamed)
  | .delete h key removed => s.set h ((s.store h).delete s.dir key removed)
  | .listKeys h => s.set h (((s.store h).listKeys s.dir).2, s.dir)
  | .listKeyPage h after limit =>
    s.set h (((s.store h).listKeyPage s.dir after limit).2.2, s.dir)

/-- Listings through a store return what is in the directory. -/
structure Lists (s : System H) (h : H) : Prop where
  keys : ((s.store h).listKeys s.dir).1 = s.dir.blobs.keys
  page : ∀ (after : Bytes) (limit : Int),
    ((s.store h).listKeyPage s.dir after limit).1 =
      (Paging.above compare after s.dir.blobs.keys).take (normalizeKeyPageLimit limit).toNat

/-- The store's index, if it has one, agrees with the directory about all other keys. -/
def AgreesExcept (s : System H) (h : H) (key : Bytes) : Prop :=
  ∀ keys, (s.store h).keys = some keys → ∀ k, k ≠ key → (k ∈ keys ↔ k ∈ s.dir.blobs)

/-- A write is made through a store whose index agrees about the other keys. -/
def Sees (s : System H) : Call H → Prop
  | .put h key _ _ _ => key ≠ [] → s.AgreesExcept h key
  | .delete h key _ => key ≠ [] → s.AgreesExcept h key
  | .listKeys _ => True
  | .listKeyPage _ _ _ => True

/-- An index is not newer than the directory, and is right when it is as new. -/
structure SoundIndexes (s : System H) : Prop where
  older : ∀ h keys, (s.store h).keys = some keys → (s.store h).indexModTime ≤ s.dir.modTime
  right : ∀ h keys, (s.store h).keys = some keys → (s.store h).indexModTime = s.dir.modTime →
    ∀ k, k ∈ keys ↔ k ∈ s.dir.blobs

end System

/-! ## Listings -/

theorem mem_foldl_insert {keys : List Bytes} {k : Bytes} :
    ∀ {index : Std.ExtTreeSet Bytes compare},
      k ∈ keys.foldl (fun index key => index.insert key) index ↔ k ∈ keys ∨ k ∈ index := by
  induction keys with
  | nil =>
    intro index
    simp
  | cons key rest ih =>
    intro index
    rw [List.foldl_cons, ih, Std.ExtTreeSet.mem_insert, Std.LawfulEqCmp.compare_eq_iff_eq,
      List.mem_cons, eq_comm]
    tauto

theorem mem_readKeyIndex {d : Directory} {k : Bytes} : k ∈ readKeyIndex d ↔ k ∈ d.blobs := by
  unfold readKeyIndex
  rw [mem_foldl_insert, Std.ExtTreeMap.mem_keys]
  simp

/-- The page is the unskipped keys up to the limit. -/
theorem scanPage_eq (after : Bytes) (limit : Nat) (rest : List Bytes) :
    ∀ {page : List Bytes}, page.length < limit →
      scanPage after limit page rest =
        page ++ (rest.filter fun k => ¬ (after ≠ [] ∧ k = after)).take
          (limit - page.length) := by
  induction rest with
  | nil =>
    intro page _
    simp [scanPage]
  | cons key rest ih =>
    intro page hpage
    unfold scanPage
    by_cases hskip : after ≠ [] ∧ key = after
    · rw [if_pos hskip, ih hpage, List.filter_cons_of_neg (by simp [hskip])]
    · rw [if_neg hskip, List.filter_cons_of_pos (by rw [decide_eq_true_eq]; exact hskip)]
      have hlen : (page ++ [key]).length = page.length + 1 := by simp
      have htake : limit - page.length = (limit - (page.length + 1)) + 1 := by omega
      by_cases hmore : (page ++ [key]).length < limit
      · rw [if_pos hmore, ih hmore, hlen, htake, List.take_succ_cons, List.append_assoc]
        rfl
      · rw [if_neg hmore, htake, show limit - (page.length + 1) = 0 by omega]
        simp

theorem normalizeKeyPageLimit_pos (limit : Int) : 0 < (normalizeKeyPageLimit limit).toNat := by
  unfold normalizeKeyPageLimit Replication.defaultKeyPageSize
  split <;> omega

/-- A page of keys that are not empty. -/
theorem scanPage_keys {keys : List Bytes} (hkeys : ∀ k ∈ keys, k ≠ []) (after : Bytes)
    (limit : Int) :
    scanPage after (normalizeKeyPageLimit limit).toNat []
        (keys.filter fun key => (compare after key).isLE) =
      (Paging.above compare after keys).take (normalizeKeyPageLimit limit).toNat := by
  rw [scanPage_eq after _ _ (normalizeKeyPageLimit_pos limit), Paging.filter_scan]
  · rfl
  · intro k _ hlt hskip
    have hself : compare after after = .eq := Std.ReflCmp.compare_self
    rw [hskip.2, hself] at hlt
    cases hlt
  · intro k hk hcmp hkeep
    have heq : after = k := Std.LawfulEqCmp.eq_of_compare hcmp
    exact hkeep ⟨heq ▸ hkeys k hk, heq.symm⟩

/-- A right index lists the keys of the blobs. -/
theorem toList_eq_keys {blobs : Std.ExtTreeMap Bytes Bytes compare}
    {keys : Std.ExtTreeSet Bytes compare} (h : ∀ k, k ∈ keys ↔ k ∈ blobs) :
    keys.toList = blobs.keys := by
  have hindex : Paging.Sorted compare keys.toList := Std.ExtTreeSet.ordered_toList
  have hblobs : Paging.Sorted compare blobs.keys := Std.ExtTreeMap.ordered_keys
  refine hindex.eq_of_mem_iff hblobs ?_
  intro k
  rw [Std.ExtTreeSet.mem_toList, Std.ExtTreeMap.mem_keys]
  exact h k

theorem Directory.keys_ne_nil (d : Directory) : ∀ k ∈ d.blobs.keys, k ≠ [] :=
  fun k hk => d.key_ne_nil k (Std.ExtTreeMap.mem_keys.mp hk)

namespace System

variable {H : Type} {s : System H}

/-- The index that a listing reads is right. -/
theorem SoundIndexes.ensured (hs : s.SoundIndexes) (h : H) :
    ∃ keys, (s.store h).ensureKeyIndex s.dir = ⟨some keys, s.dir.modTime⟩ ∧
      ∀ k, k ∈ keys ↔ k ∈ s.dir.blobs := by
  unfold FileStore.ensureKeyIndex
  by_cases hfresh : (s.store h).keys.isSome ∧ s.dir.modTime = (s.store h).indexModTime
  · rw [if_pos hfresh]
    obtain ⟨keys, hkeys⟩ := Option.isSome_iff_exists.mp hfresh.1
    refine ⟨keys, ?_, hs.right h keys hkeys hfresh.2.symm⟩
    rw [← hkeys, hfresh.2]
  · rw [if_neg hfresh]
    exact ⟨readKeyIndex s.dir, rfl, fun k => mem_readKeyIndex⟩

theorem SoundIndexes.lists (hs : s.SoundIndexes) (h : H) : s.Lists h := by
  obtain ⟨keys, hensured, hright⟩ := hs.ensured h
  have hlist := toList_eq_keys hright
  constructor
  · unfold FileStore.listKeys
    rw [hensured]
    exact hlist
  · intro after limit
    unfold FileStore.listKeyPage
    rw [hensured]
    show scanPage after _ [] (keys.toList.filter _) = _
    rw [hlist]
    exact scanPage_keys s.dir.keys_ne_nil after limit

/-- A store whose index is as new as the directory lists its index. -/
theorem Lists.right {h : H} {keys : Std.ExtTreeSet Bytes compare} (hl : s.Lists h)
    (hstore : s.store h = ⟨some keys, s.dir.modTime⟩) :
    ∀ k, k ∈ keys ↔ k ∈ s.dir.blobs := by
  have hensured : (s.store h).ensureKeyIndex s.dir = ⟨some keys, s.dir.modTime⟩ := by
    unfold FileStore.ensureKeyIndex
    rw [hstore]
    exact if_pos ⟨rfl, rfl⟩
  have hkeys := hl.keys
  unfold FileStore.listKeys at hkeys
  rw [hensured] at hkeys
  intro k
  rw [← Std.ExtTreeSet.mem_toList, ← Std.ExtTreeMap.mem_keys, ← hkeys]
  rfl

/-! ## Writes -/

section Writes

/-- A store and the directory change: the index of the store has to be sound, and the
directory may not change without moving its time on. -/
theorem SoundIndexes.set [DecidableEq H] (hs : s.SoundIndexes) {h : H} {d : Directory}
    {store : FileStore} (htime : s.dir.modTime ≤ d.modTime)
    (hothers : s.dir.modTime = d.modTime → d.blobs = s.dir.blobs)
    (hown : ∀ keys, store.keys = some keys → store.indexModTime ≤ d.modTime ∧
      (store.indexModTime = d.modTime → ∀ k, k ∈ keys ↔ k ∈ d.blobs)) :
    (s.set h (store, d)).SoundIndexes := by
  constructor
  · intro g keys hkeys
    by_cases hg : g = h
    · subst hg
      simp only [System.set, Function.update_self] at hkeys ⊢
      exact (hown keys hkeys).1
    · simp only [System.set, Function.update_of_ne hg] at hkeys ⊢
      exact le_trans (hs.older g keys hkeys) htime
  · intro g keys hkeys hsame k
    by_cases hg : g = h
    · subst hg
      simp only [System.set, Function.update_self] at hkeys hsame ⊢
      exact (hown keys hkeys).2 hsame k
    · simp only [System.set, Function.update_of_ne hg] at hkeys hsame ⊢
      have hold := hs.older g keys hkeys
      have heq : s.dir.modTime = d.modTime := by omega
      rw [hothers heq]
      exact hs.right g keys hkeys (by omega) k

/-- A write of one key: index and directory change in the same way at the key, and
nowhere else. -/
structure WritesKey (dir : Directory) (key : Bytes) (d : Directory)
    (f : Std.ExtTreeSet Bytes compare → Std.ExtTreeSet Bytes compare) : Prop where
  time : dir.modTime ≤ d.modTime
  moves : dir.modTime = d.modTime → d.blobs = dir.blobs
  written : ∀ keys, key ∈ f keys ↔ key ∈ d.blobs
  index : ∀ keys k, k ≠ key → (k ∈ f keys ↔ k ∈ keys)
  blobs : ∀ k, k ≠ key → (k ∈ d.blobs ↔ k ∈ dir.blobs)

variable {h : H} {key : Bytes} {d : Directory}
  {f : Std.ExtTreeSet Bytes compare → Std.ExtTreeSet Bytes compare}

theorem WritesKey.right_iff (hw : WritesKey s.dir key d f) :
    s.AgreesExcept h key ↔
      ∀ keys, (s.store h).keys = some keys → ∀ k, k ∈ f keys ↔ k ∈ d.blobs := by
  constructor
  · intro hagrees keys hkeys k
    by_cases hk : k = key
    · rw [hk]
      exact hw.written keys
    · rw [hw.index keys k hk, hw.blobs k hk]
      exact hagrees keys hkeys k hk
  · intro hright keys hkeys k hk
    rw [← hw.index keys k hk, ← hw.blobs k hk]
    exact hright keys hkeys k

variable [DecidableEq H]

theorem WritesKey.sound (hw : WritesKey s.dir key d f) (hs : s.SoundIndexes)
    (hagrees : s.AgreesExcept h key) :
    (s.set h ((s.store h).update d f, d)).SoundIndexes := by
  refine hs.set hw.time hw.moves ?_
  intro keys hkeys
  unfold FileStore.update at hkeys ⊢
  cases hold : (s.store h).keys with
  | none =>
    rw [hold] at hkeys
    simp only at hkeys
    rw [hold] at hkeys
    cases hkeys
  | some old =>
    rw [hold] at hkeys
    cases hkeys
    exact ⟨le_refl _, fun _ => hw.right_iff.mp hagrees old hold⟩

/-- A store that lists the directory right after its write agreed about the other keys
before it. -/
theorem WritesKey.agrees (hw : WritesKey s.dir key d f)
    (hl : (s.set h ((s.store h).update d f, d)).Lists h) : s.AgreesExcept h key := by
  refine hw.right_iff.mpr ?_
  intro keys hkeys
  refine hl.right ?_
  show Function.update s.store h ((s.store h).update d f) h = _
  rw [Function.update_self]
  unfold FileStore.update
  rw [hkeys]
  rfl

theorem writesKey_put (dir : Directory) {key : Bytes} (hkey : key ≠ []) (data : Bytes)
    (created renamed : Nat) :
    WritesKey dir key ((dir.touch created).write key data hkey renamed)
      fun keys => keys.insert key where
  time := by
    simp only [Directory.write, Directory.touch]
    omega
  moves := by
    simp only [Directory.write, Directory.touch]
    omega
  written := by
    intro keys
    simp [Directory.write]
  index := by
    intro keys k hk
    rw [Std.ExtTreeSet.mem_insert, Std.LawfulEqCmp.compare_eq_iff_eq]
    exact ⟨fun h => h.resolve_left (Ne.symm hk), .inr⟩
  blobs := by
    intro k hk
    simp only [Directory.write, Directory.touch]
    rw [Std.ExtTreeMap.mem_insert, Std.LawfulEqCmp.compare_eq_iff_eq]
    exact ⟨fun h => h.resolve_left (Ne.symm hk), .inr⟩

theorem writesKey_delete (dir : Directory) (key : Bytes) (removed : Nat) :
    WritesKey dir key (dir.remove key removed) fun keys => keys.erase key where
  time := by
    simp only [Directory.remove]
    omega
  moves := by
    simp only [Directory.remove]
    omega
  written := by
    intro keys
    simp [Directory.remove]
  index := fun keys k hk => by simp [Ne.symm hk]
  blobs := by
    intro k hk
    simp only [Directory.remove]
    rw [Std.ExtTreeMap.mem_erase, ne_eq, Std.LawfulEqCmp.compare_eq_iff_eq]
    exact ⟨fun h => h.2, fun h => ⟨Ne.symm hk, h⟩⟩

theorem writesKey_missing {dir : Directory} {key : Bytes} (hmissing : key ∉ dir.blobs) :
    WritesKey dir key dir fun keys => keys.erase key where
  time := le_refl _
  moves := fun _ => rfl
  written := by
    intro keys
    simp [hmissing]
  index := fun keys k hk => by simp [Ne.symm hk]
  blobs := fun k _ => Iff.rfl

/-! ## Steps and runs -/

theorem set_self (s : System H) (h : H) : s.set h (s.store h, s.dir) = s := by
  unfold System.set
  rw [Function.update_eq_self]

/-- A listing leaves a sound index. -/
theorem SoundIndexes.listed (hs : s.SoundIndexes) (h : H) :
    (s.set h ((s.store h).ensureKeyIndex s.dir, s.dir)).SoundIndexes := by
  obtain ⟨keys, hensured, hright⟩ := hs.ensured h
  refine hs.set (le_refl _) (fun _ => rfl) ?_
  intro keys' hkeys
  rw [hensured] at hkeys ⊢
  cases hkeys
  exact ⟨le_refl _, fun _ => hright⟩

/-- A call writes a key through a store, or needs nothing of the index and at most
reads it anew. -/
theorem step_cases (s : System H) (c : Call H) :
    (s.Sees c ∧ (s.step c = s ∨
        ∃ h, s.step c = s.set h ((s.store h).ensureKeyIndex s.dir, s.dir))) ∨
      ∃ h key d f, WritesKey s.dir key d f ∧ (s.Sees c ↔ s.AgreesExcept h key) ∧
        s.step c = s.set h ((s.store h).update d f, d) := by
  cases c with
  | put h key data created renamed =>
    by_cases hkey : key ≠ []
    · refine .inr ⟨h, key, _, _, writesKey_put s.dir hkey data created renamed, ?_, ?_⟩
      · exact ⟨fun hsees => hsees hkey, fun hagrees _ => hagrees⟩
      · show s.set h ((s.store h).put s.dir key data created renamed) = _
        unfold FileStore.put
        rw [dif_pos hkey]
    · refine .inl ⟨fun hne => absurd hne hkey, .inl ?_⟩
      show s.set h ((s.store h).put s.dir key data created renamed) = s
      unfold FileStore.put
      rw [dif_neg hkey, set_self]
  | delete h key removed =>
    by_cases hkey : key = []
    · refine .inl ⟨fun hne => absurd hkey hne, .inl ?_⟩
      show s.set h ((s.store h).delete s.dir key removed) = s
      unfold FileStore.delete
      rw [if_pos hkey, set_self]
    · have hsees : s.Sees (.delete h key removed) ↔ s.AgreesExcept h key :=
        ⟨fun hsees => hsees hkey, fun hagrees _ => hagrees⟩
      by_cases hmem : key ∈ s.dir.blobs
      · refine .inr ⟨h, key, _, _, writesKey_delete s.dir key removed, hsees, ?_⟩
        show s.set h ((s.store h).delete s.dir key removed) = _
        unfold FileStore.delete
        rw [if_neg hkey, if_pos hmem]
      · refine .inr ⟨h, key, _, _, writesKey_missing hmem, hsees, ?_⟩
        show s.set h ((s.store h).delete s.dir key removed) = _
        unfold FileStore.delete
        rw [if_neg hkey, if_neg hmem]
  | listKeys h | listKeyPage h after limit => exact .inl ⟨trivial, .inr ⟨h, rfl⟩⟩

theorem SoundIndexes.step (hs : s.SoundIndexes) {c : Call H} (hsees : s.Sees c) :
    (s.step c).SoundIndexes := by
  rcases s.step_cases c with ⟨_, hsame | ⟨h, hlisted⟩⟩ | ⟨h, key, d, f, hw, hiff, hwritten⟩
  · rw [hsame]
    exact hs
  · rw [hlisted]
    exact hs.listed h
  · rw [hwritten]
    exact hw.sound hs (hiff.mp hsees)

/-- After a write through an index that disagrees, the store lists the wrong keys. -/
theorem sees_of_lists {c : Call H} (hl : ∀ h, (s.step c).Lists h) : s.Sees c := by
  rcases s.step_cases c with ⟨hsees, _⟩ | ⟨h, key, d, f, hw, hiff, hwritten⟩
  · exact hsees
  · rw [hwritten] at hl
    exact hiff.mpr (hw.agrees (hl h))

/-- In a state with sound indexes, the listings of a run are right as long as its writes
are made through indexes that agree about the other keys, and no longer. -/
theorem lists_iff (hs : s.SoundIndexes) (calls : List (Call H)) :
    (∀ before after, calls = before ++ after →
        ∀ h, (Transition.run System.step s before).Lists h) ↔
      Transition.Along System.step System.Sees s calls := by
  induction calls generalizing s with
  | nil =>
    refine ⟨fun _ => trivial, ?_⟩
    intro _ before after hsplit h
    rw [(List.append_eq_nil_iff.mp hsplit.symm).1]
    exact hs.lists h
  | cons c rest ih =>
    constructor
    · intro hl
      have hsees : s.Sees c := sees_of_lists fun h => hl [c] rest rfl h
      refine ⟨hsees, (ih (hs.step hsees)).mp ?_⟩
      intro before after hsplit h
      exact hl (c :: before) after (by rw [hsplit]; rfl) h
    · rintro ⟨hsees, halong⟩ before after hsplit h
      cases before with
      | nil => exact hs.lists h
      | cons b before =>
        rw [List.cons_append, List.cons.injEq] at hsplit
        obtain ⟨rfl, hrest⟩ := hsplit
        exact (ih (hs.step hsees)).mpr halong before after hrest h

end Writes

/-- The stores have just been opened. -/
def opened (d : Directory) : System H := ⟨d, fun _ => FileStore.new⟩

theorem opened_sound (d : Directory) : (opened d : System H).SoundIndexes := by
  constructor
  · intro h keys hkeys
    cases hkeys
  · intro h keys hkeys
    cases hkeys

end System

/-- For any stores that are opened on a directory and any complete calls on them, the
listings through every store are the directory's at every point exactly if every put and
delete is made through a store without an index, or with one that agrees with the
directory about all other keys. -/
theorem listings_current_iff {H : Type} [DecidableEq H] (d : Directory)
    (calls : List (Call H)) :
    (∀ before after, calls = before ++ after →
        ∀ h, (Transition.run System.step (System.opened d) before).Lists h) ↔
      Transition.Along System.step System.Sees (System.opened d) calls :=
  System.lists_iff (System.opened_sound d) calls

namespace Sample

def emptyDirectory : Directory := ⟨∅, Directory.empty_keys, 0⟩

/-- The first store lists, the second puts a key, and the first puts another. -/
def maskedPut : List (Call Bool) :=
  [.listKeys true, .put false [1] [10] 0 0, .put true [2] [20] 0 0]

/-- The first store lists, the second puts a key, and the first deletes a key that is
not there. -/
def maskedDelete : List (Call Bool) :=
  [.listKeys true, .put false [1] [10] 0 0, .delete true [2] 0]

def after (calls : List (Call Bool)) : System Bool :=
  Transition.run System.step (System.opened emptyDirectory) calls

end Sample

open Sample in
/-- Both keys are in the directory and the first store lists one; after the delete it
lists none. -/
theorem write_hides_other_handle :
    (after maskedPut).dir.blobs.keys = [[1], [2]] ∧
      (((after maskedPut).store true).listKeys (after maskedPut).dir).1 = [[2]] ∧
      (after maskedDelete).dir.blobs.keys = [[1]] ∧
      (((after maskedDelete).store true).listKeys (after maskedDelete).dir).1 = [] := by
  decide +kernel

end StreamHive.Storage

import StreamHive.Storage.FileListing

/-!
# Paging through a store that changes

A scan asks for page after page, each behind the last key of the one before, until a
page is empty.  Between two pages the store may change in any way.  Both stores keep an
ordered index of their keys; a memory store that was not made by its constructor may be
without one and then looks through its map, in whatever order the map is iterated.

## Main results

* `MemoryStore.listKeyPage_ok`, `insertKeyPage_foldl` — a page is the next keys of the
  store, with or without an index;
* `System.Exact.change` — a single file store keeps its index in step with its directory;
* `Pager.Lawful.scans` — both make a scan in the sense of `Verified.Paging`;
* `live_paging` — what a whole scan returns;
* `indexed_pages_agree` — whether there is an index makes no difference to a page.
-/

namespace StreamHive.Storage

open Verified ByteString Effect
open StreamHive.Lifecycle (Error Oracle ctxErr ctxErr_proceed ctxCheck ctxCheck_ok)
open StreamHive.Replication (normalizeKeyPageLimit)

variable {keys : List Bytes}

/-! ## The memory store -/

/-- An order in which a map is iterated. -/
structure MapOrder where
  visit : List Bytes → List Bytes
  perm : ∀ keys, (visit keys).Perm keys

/-- The blobs and, once there is one, the index of their keys. -/
structure MemoryStore where
  data : Std.ExtTreeMap Bytes Bytes compare
  keys : Option (Std.ExtTreeSet Bytes compare)
  key_ne_nil : ∀ key ∈ data, key ≠ []
  keys_exact : ∀ index, keys = some index → ∀ k, k ∈ index ↔ k ∈ data

/-- Visit keys until the visitor stops; the context is checked before each. -/
def visitKeys {α : Type} (o : Oracle) (visit : α → Bytes → α × Bool) :
    Nat → α → List Bytes → Except Error α
  | _, acc, [] => .ok acc
  | i, acc, key :: rest => do
    ctxCheck o i
    if (visit acc key).2 then visitKeys o visit (i + 1) (visit acc key).1 rest
    else .ok (visit acc key).1

/-- The callback of a page. -/
def pageVisitor (after : Bytes) (limit : Nat) (page : List Bytes) (key : Bytes) :
    List Bytes × Bool :=
  if after ≠ [] ∧ key = after then (page, true)
  else (page ++ [key], (page ++ [key]).length < limit)

/-- Keep the smallest keys after `after`, at most `limit` of them. -/
def insertKeyPage (after : Bytes) (limit : Nat) (page : List Bytes) (key : Bytes) :
    List Bytes :=
  if after ≠ [] ∧ (compare key after).isLE then page
  else if (page.dropWhile fun k => compare k key = .lt).head? = some key then page
  else if limit ≤ page.length ∧ page.dropWhile (fun k => compare k key = .lt) = [] then page
  else (Paging.insert compare key page).take limit

namespace MemoryStore

/-- `NewMemoryStore`. -/
def new : MemoryStore := ⟨∅, some ∅, Directory.empty_keys, by simp⟩

/-- The index of a map; a set, so the order of the iteration is no matter. -/
def ensureKeyIndex (m : MemoryStore) : MemoryStore :=
  match m.keys with
  | some _ => m
  | none =>
    { m with
      keys := some (m.data.keys.foldl (fun index key => index.insert key) ∅)
      keys_exact := by
        intro index hindex k
        cases hindex
        rw [mem_foldl_insert, Std.ExtTreeMap.mem_keys]
        simp }

/-- A blob in the map, and its key in the index unless it was there. -/
def insert (m : MemoryStore) (key value : Bytes) (hkey : key ≠ []) : MemoryStore where
  data := m.data.insert key value
  keys := m.keys.map fun index => if key ∈ m.data then index else index.insert key
  key_ne_nil := by
    intro k hk
    rcases Std.ExtTreeMap.mem_insert.mp hk with heq | hmem
    · rw [← Std.LawfulEqCmp.eq_of_compare heq]
      exact hkey
    · exact m.key_ne_nil k hmem
  keys_exact := by
    intro index hindex k
    obtain ⟨old, hold, hnew⟩ := Option.map_eq_some_iff.mp hindex
    have hexact := m.keys_exact old hold
    rw [← hnew, Std.ExtTreeMap.mem_insert, Std.LawfulEqCmp.compare_eq_iff_eq, ← hexact k]
    by_cases hmem : key ∈ m.data
    · rw [if_pos hmem]
      refine ⟨.inr, fun h => h.elim (fun heq => ?_) id⟩
      rw [← heq, hexact key]
      exact hmem
    · rw [if_neg hmem, Std.ExtTreeSet.mem_insert, Std.LawfulEqCmp.compare_eq_iff_eq]

def erase (m : MemoryStore) (key : Bytes) : MemoryStore where
  data := m.data.erase key
  keys := m.keys.map fun index => index.erase key
  key_ne_nil := fun k hk => m.key_ne_nil k (Std.ExtTreeMap.mem_of_mem_erase hk)
  keys_exact := by
    intro index hindex k
    obtain ⟨old, hold, hnew⟩ := Option.map_eq_some_iff.mp hindex
    rw [← hnew, Std.ExtTreeMap.mem_erase, Std.ExtTreeSet.mem_erase, m.keys_exact old hold k]

def put (o : Oracle) (key value : Bytes) : EStateM Error MemoryStore Unit := do
  ctxErr o 0
  if hkey : key = [] then throw .storageKeyEmpty
  else do
    ctxErr o 1
    modify fun m => m.ensureKeyIndex.insert key value hkey

def delete (o : Oracle) (key : Bytes) : EStateM Error MemoryStore Unit := do
  ctxErr o 0
  if key = [] then throw .storageKeyEmpty
  else do
    ctxErr o 1
    modify fun m => if key ∈ m.data then m.erase key else m

def listKeys (o : Oracle) (order : MapOrder) (m : MemoryStore) : Except Error (List Bytes) := do
  ctxCheck o 0
  match m.keys with
  | some index => visitKeys o (fun keys key => (keys ++ [key], true)) 1 [] index.toList
  | none => .ok (Paging.sort compare (order.visit m.data.keys))

def listKeyPage (o : Oracle) (order : MapOrder) (after : Bytes) (limit : Int) (m : MemoryStore) :
    Except Error (List Bytes × Option Bytes) := do
  ctxCheck o 0
  let limit := (normalizeKeyPageLimit limit).toNat
  match m.keys with
  | some index => do
    let page ← visitKeys o (pageVisitor after limit) 1 []
      (index.toList.filter fun key => (compare after key).isLE)
    .ok (page, page.getLast?)
  | none => do
    let page ← visitKeys o (fun page key => (insertKeyPage after limit page key, true)) 1 []
      (order.visit m.data.keys)
    ctxCheck o (m.data.size + 1)
    .ok (page, page.getLast?)

end MemoryStore

/-! ## Pages of a memory store -/

section Visits

variable {α : Type} {o : Oracle}

/-- A visitor that never stops sees every key. -/
theorem visitKeys_ok_foldl {f : α → Bytes → α} {i : Nat} {acc result : α}
    (h : visitKeys o (fun acc key => (f acc key, true)) i acc keys = .ok result) :
    result = keys.foldl f acc := by
  induction keys generalizing i acc with
  | nil => exact (Except.ok.inj h).symm
  | cons key rest ih =>
    unfold visitKeys at h
    obtain ⟨_, _, h⟩ := except_bind_ok.mp h
    exact ih h

/-- The visitor of a page stops where the page is full. -/
theorem visitKeys_ok_page {after : Bytes} {limit i : Nat} {page result : List Bytes}
    (h : visitKeys o (pageVisitor after limit) i page keys = .ok result) :
    result = scanPage after limit page keys := by
  induction keys generalizing i page with
  | nil => exact (Except.ok.inj h).symm
  | cons key rest ih =>
    unfold visitKeys pageVisitor at h
    obtain ⟨_, _, h⟩ := except_bind_ok.mp h
    unfold scanPage
    by_cases hskip : after ≠ [] ∧ key = after
    · simp only [if_pos hskip, if_true] at h ⊢
      exact ih h
    · simp only [if_neg hskip, decide_eq_true_eq] at h ⊢
      by_cases hmore : (page ++ [key]).length < limit
      · rw [if_pos hmore] at h ⊢
        exact ih h
      · rw [if_neg hmore] at h ⊢
        exact (Except.ok.inj h).symm

theorem visitKeys_live (ho : ∀ n, o (.ctxErr n) = .proceed) (visit : α → Bytes → α × Bool)
    (i : Nat) (acc : α) (keys : List Bytes) :
    ∃ result, visitKeys o visit i acc keys = .ok result := by
  induction keys generalizing i acc with
  | nil => exact ⟨acc, rfl⟩
  | cons key rest ih =>
    unfold visitKeys
    rw [ctxCheck_ok.mpr (ho i)]
    by_cases hmore : (visit acc key).2 = true
    · obtain ⟨result, hresult⟩ := ih (i + 1) (visit acc key).1
      refine ⟨result, ?_⟩
      rw [← hresult]
      exact if_pos hmore
    · exact ⟨(visit acc key).1, if_neg hmore⟩

end Visits

theorem compare_nil_lt {key : Bytes} (h : key ≠ []) : compare [] key = .lt := by
  cases key with
  | nil => exact absurd rfl h
  | cons b bs => rfl

/-- One key looked at: the smallest keys are kept. -/
theorem insertKeyPage_eq {after key : Bytes} {limit : Nat} {kept : List Bytes} (hkey : key ≠ [])
    (hfresh : key ∉ kept) :
    insertKeyPage after limit (kept.take limit) key =
      if compare after key = .lt then (Paging.insert compare key kept).take limit
      else kept.take limit := by
  have hskip : (after ≠ [] ∧ (compare key after).isLE) ↔ compare after key ≠ .lt := by
    have hswap : compare key after = (compare after key).swap := Std.OrientedCmp.eq_swap
    constructor
    · rintro ⟨_, hle⟩ hlt
      rw [hswap, hlt] at hle
      cases hle
    · intro hnot
      refine ⟨fun hnil => hnot (by rw [hnil]; exact compare_nil_lt hkey), ?_⟩
      rw [hswap]
      cases hcmp : compare after key with
      | lt => exact absurd hcmp hnot
      | eq | gt => rfl
  unfold insertKeyPage
  by_cases hlt : compare after key = .lt
  swap
  · rw [if_pos (hskip.mpr hlt), if_neg hlt]
  rw [if_neg (fun h => hskip.mp h hlt), if_pos hlt]
  have hhead : ((kept.take limit).dropWhile fun k => compare k key = .lt).head? ≠ some key := by
    intro h
    have hmem := List.mem_of_mem_head? (Option.mem_def.mpr h)
    exact hfresh (List.mem_of_mem_take ((List.dropWhile_sublist _).subset hmem))
  rw [if_neg hhead]
  by_cases hfull : limit ≤ (kept.take limit).length ∧
      (kept.take limit).dropWhile (fun k => compare k key = .lt) = []
  · -- every kept key is smaller, and there is no room behind them
    rw [if_pos hfull, ← Paging.insert_take]
    have hall : (kept.take limit).takeWhile (fun k => compare k key = .lt) = kept.take limit := by
      have hsplit := List.takeWhile_append_dropWhile (p := fun k => compare k key = .lt)
        (l := kept.take limit)
      rw [hfull.2, List.append_nil] at hsplit
      exact hsplit
    unfold Paging.insert
    rw [hall, hfull.2, List.take_append_of_le_length hfull.1, List.take_take, Nat.min_self]
  · rw [if_neg hfull, Paging.insert_take]

/-- Looking at keys in any order keeps the smallest above the cursor. -/
theorem insertKeyPage_foldl (after : Bytes) (limit : Nat) (keys seen kept : List Bytes)
    (hkeys : ∀ k ∈ keys, k ≠ []) (hnodup : keys.Nodup) (hfresh : ∀ k ∈ keys, k ∉ seen)
    (hsorted : Paging.Sorted compare kept)
    (hkept : ∀ k, k ∈ kept ↔ k ∈ seen ∧ compare after k = .lt) :
    ∃ all, Paging.Sorted compare all ∧
      (∀ k, k ∈ all ↔ (k ∈ seen ∨ k ∈ keys) ∧ compare after k = .lt) ∧
      keys.foldl (insertKeyPage after limit) (kept.take limit) = all.take limit := by
  induction keys generalizing seen kept with
  | nil => exact ⟨kept, hsorted, fun k => by simpa using hkept k, rfl⟩
  | cons key rest ih =>
    obtain ⟨hnew, hrest⟩ := List.nodup_cons.mp hnodup
    have hnot : key ∉ kept := fun h => hfresh key (List.mem_cons_self ..) ((hkept key).mp h).1
    have hfresh' : ∀ k ∈ rest, k ∉ key :: seen := by
      intro k hk hmem
      rcases List.mem_cons.mp hmem with rfl | hmem
      · exact hnew hk
      · exact hfresh k (List.mem_cons_of_mem _ hk) hmem
    have hkeys' : ∀ k ∈ rest, k ≠ [] := fun k hk => hkeys k (List.mem_cons_of_mem _ hk)
    rw [List.foldl_cons, insertKeyPage_eq (hkeys key (List.mem_cons_self ..)) hnot]
    by_cases hlt : compare after key = .lt
    · rw [if_pos hlt]
      obtain ⟨all, hall, hmem, hfold⟩ := ih (key :: seen) (Paging.insert compare key kept)
        hkeys' hrest hfresh' (hsorted.insert hnot) (by
          intro k
          rw [Paging.mem_insert, List.mem_cons, hkept k]
          constructor
          · rintro (rfl | h)
            · exact ⟨.inl rfl, hlt⟩
            · exact ⟨.inr h.1, h.2⟩
          · rintro ⟨rfl | h, hk⟩
            · exact .inl rfl
            · exact .inr ⟨h, hk⟩)
      refine ⟨all, hall, fun k => ?_, hfold⟩
      rw [hmem k, List.mem_cons, List.mem_cons]
      tauto
    · rw [if_neg hlt]
      obtain ⟨all, hall, hmem, hfold⟩ := ih (key :: seen) kept hkeys' hrest hfresh' hsorted (by
          intro k
          rw [List.mem_cons, hkept k]
          constructor
          · exact fun h => ⟨.inr h.1, h.2⟩
          · rintro ⟨rfl | h, hk⟩
            · exact absurd hk hlt
            · exact ⟨h, hk⟩)
      refine ⟨all, hall, fun k => ?_, hfold⟩
      rw [hmem k, List.mem_cons, List.mem_cons]
      tauto

namespace MemoryStore

variable {m : MemoryStore} {o : Oracle} {order : MapOrder}

theorem keys_ne_nil (m : MemoryStore) : ∀ k ∈ m.data.keys, k ≠ [] :=
  fun k hk => m.key_ne_nil k (Std.ExtTreeMap.mem_keys.mp hk)

theorem keys_sorted (m : MemoryStore) : Paging.Sorted compare m.data.keys :=
  Std.ExtTreeMap.ordered_keys

theorem keys_nodup (m : MemoryStore) : m.data.keys.Nodup := by
  refine (Std.ExtTreeMap.distinct_keys (t := m.data)).imp ?_
  intro a b hne heq
  rw [heq] at hne
  exact hne Std.ReflCmp.compare_self

/-- A listing returns the keys of the map. -/
theorem listKeys_ok (h : m.listKeys o order = .ok keys) : keys = m.data.keys := by
  unfold listKeys at h
  obtain ⟨_, _, h⟩ := except_bind_ok.mp h
  cases hindex : m.keys with
  | some index =>
    rw [hindex] at h
    have hall : keys = index.toList.foldl (fun keys key => keys ++ [key]) [] :=
      visitKeys_ok_foldl h
    rw [hall, List.foldl_append_eq_append, ← List.flatMap_def, List.flatMap_singleton',
      List.nil_append]
    exact toList_eq_keys (m.keys_exact index hindex)
  | none =>
    rw [hindex] at h
    cases h
    have hnodup : (order.visit m.data.keys).Nodup :=
      (order.perm m.data.keys).nodup_iff.mpr m.keys_nodup
    refine (Paging.sort_sorted hnodup).eq_of_mem_iff m.keys_sorted fun k => ?_
    rw [(Paging.sort_perm _).mem_iff, (order.perm _).mem_iff]

/-- A page is the next keys of the map. -/
theorem listKeyPage_ok {after : Bytes} {limit : Int} {page : List Bytes} {next : Option Bytes}
    (h : m.listKeyPage o order after limit = .ok (page, next)) :
    page = (Paging.above compare after m.data.keys).take (normalizeKeyPageLimit limit).toNat ∧
      next = page.getLast? := by
  unfold listKeyPage at h
  obtain ⟨_, _, h⟩ := except_bind_ok.mp h
  cases hindex : m.keys with
  | some index =>
    rw [hindex] at h
    obtain ⟨found, hvisit, h⟩ := except_bind_ok.mp h
    cases h
    refine ⟨?_, rfl⟩
    rw [visitKeys_ok_page hvisit, toList_eq_keys (m.keys_exact index hindex),
      scanPage_keys m.keys_ne_nil]
  | none =>
    rw [hindex] at h
    obtain ⟨found, hvisit, h⟩ := except_bind_ok.mp h
    obtain ⟨_, _, h⟩ := except_bind_ok.mp h
    cases h
    refine ⟨?_, rfl⟩
    have hperm := order.perm m.data.keys
    obtain ⟨all, hsorted, hmem, hfold⟩ := insertKeyPage_foldl after
      (normalizeKeyPageLimit limit).toNat (order.visit m.data.keys) [] []
      (fun k hk => m.keys_ne_nil k (hperm.mem_iff.mp hk)) (hperm.nodup_iff.mpr m.keys_nodup)
      (by simp) List.Pairwise.nil (by simp)
    rw [List.take_nil] at hfold
    rw [visitKeys_ok_foldl hvisit, hfold]
    congr 1
    refine hsorted.eq_of_mem_iff (m.keys_sorted.above after) fun k => ?_
    rw [hmem k, hperm.mem_iff]
    simp [Paging.above]

/-- With a live context a page is read. -/
theorem listKeyPage_live (ho : ∀ n, o (.ctxErr n) = .proceed) (order : MapOrder) (after : Bytes)
    (limit : Int) (m : MemoryStore) : ∃ result, m.listKeyPage o order after limit = .ok result := by
  have hstart : ctxCheck o 0 = .ok () := ctxCheck_ok.mpr (ho 0)
  unfold listKeyPage
  cases m.keys with
  | some index =>
    obtain ⟨page, hpage⟩ := visitKeys_live ho
      (pageVisitor after (normalizeKeyPageLimit limit).toNat) 1 []
      (index.toList.filter fun key => (compare after key).isLE)
    refine ⟨(page, page.getLast?), except_bind_ok.mpr ⟨(), hstart, ?_⟩⟩
    exact except_bind_ok.mpr ⟨page, hpage, rfl⟩
  | none =>
    obtain ⟨page, hpage⟩ := visitKeys_live ho
      (fun page key => (insertKeyPage after (normalizeKeyPageLimit limit).toNat page key, true))
      1 [] (order.visit m.data.keys)
    refine ⟨(page, page.getLast?), except_bind_ok.mpr ⟨(), hstart, ?_⟩⟩
    refine except_bind_ok.mpr ⟨page, hpage, ?_⟩
    exact except_bind_ok.mpr ⟨(), ctxCheck_ok.mpr (ho _), rfl⟩

end MemoryStore

/-! ## One file store -/

/-- A call on the only store of a directory, or a put that fails before its rename and
leaves nothing but the change of the directory's time. -/
inductive FileChange where
  | call (c : Call Unit)
  | abandonedPut (created removed : Nat)

namespace System

def change (s : System Unit) : FileChange → System Unit
  | .call c => s.step c
  | .abandonedPut created removed => { s with dir := (s.dir.touch created).touch removed }

/-- The index of the only store is that of the directory, whatever the times. -/
structure Exact (s : System Unit) : Prop where
  older : ∀ keys, (s.store ()).keys = some keys → (s.store ()).indexModTime ≤ s.dir.modTime
  right : ∀ keys, (s.store ()).keys = some keys → ∀ k, k ∈ keys ↔ k ∈ s.dir.blobs

variable {s : System Unit}

theorem Exact.sound (h : s.Exact) : s.SoundIndexes where
  older := fun _ => h.older
  right := fun _ keys hkeys _ => h.right keys hkeys

/-- The only store and its directory after a call. -/
theorem exact_set {store : FileStore} {d : Directory}
    (hindex : ∀ keys, store.keys = some keys →
      store.indexModTime ≤ d.modTime ∧ ∀ k, k ∈ keys ↔ k ∈ d.blobs) :
    (s.set () (store, d)).Exact where
  older := fun keys hkeys => (hindex keys hkeys).1
  right := fun keys hkeys => (hindex keys hkeys).2

theorem Exact.listed (h : s.Exact) :
    (s.set () ((s.store ()).ensureKeyIndex s.dir, s.dir)).Exact := by
  obtain ⟨keys, hensured, hright⟩ := h.sound.ensured ()
  refine exact_set fun keys' hkeys' => ?_
  rw [hensured] at hkeys' ⊢
  cases hkeys'
  exact ⟨Nat.le_refl _, hright⟩

theorem Exact.step (h : s.Exact) (c : Call Unit) : (s.step c).Exact := by
  rcases s.step_cases c with ⟨_, hsame | ⟨_, hlisted⟩⟩ | ⟨_, key, d, f, hw, _, hwritten⟩
  · rw [hsame]
    exact h
  · rw [hlisted]
    exact h.listed
  · rw [hwritten]
    have hagrees : s.AgreesExcept () key := fun keys hkeys k _ => h.right keys hkeys k
    refine exact_set fun keys hkeys => ?_
    unfold FileStore.update at hkeys ⊢
    cases hold : (s.store ()).keys with
    | none =>
      rw [hold] at hkeys
      simp only [hold] at hkeys
      cases hkeys
    | some old =>
      rw [hold] at hkeys
      cases hkeys
      exact ⟨Nat.le_refl _, hw.right_iff.mp hagrees old hold⟩

theorem Exact.change (h : s.Exact) (c : FileChange) : (s.change c).Exact := by
  cases c with
  | call c => exact h.step c
  | abandonedPut created removed =>
    refine ⟨fun keys hkeys => ?_, h.right⟩
    have hold := h.older keys hkeys
    show (s.store ()).indexModTime ≤ s.dir.modTime + created + 1 + removed + 1
    omega

theorem opened_exact (d : Directory) : (opened d : System Unit).Exact where
  older := fun _ hkeys => by cases hkeys
  right := fun _ hkeys => by cases hkeys

end System

/-! ## Scans -/

/-- A store that is paged through while it changes: `ρ` is what a call depends on
besides the store. -/
structure Pager (σ ε ρ : Type) where
  change : σ → ε → σ
  present : σ → List Bytes
  listKeys : ρ → σ → Except Error (List Bytes)
  listKeyPage : ρ → Bytes → Int → σ → Except Error ((List Bytes × Option Bytes) × σ)

/-- The changes before a page, and the call that reads the page. -/
structure Turn (ε ρ : Type) where
  changes : List ε
  call : ρ
  limit : Int

namespace Pager

variable {σ ε ρ : Type}

/-- Page after page, each from the cursor that the one before returned, until a page is
empty or the turns are used up. -/
def scan (P : Pager σ ε ρ) : σ → Bytes → List (Turn ε ρ) → Except Error (List (Paging.Read Bytes))
  | _, _, [] => .ok []
  | s, after, turn :: rest => do
    let s := turn.changes.foldl P.change s
    let ((page, next), s') ← P.listKeyPage turn.call after turn.limit s
    match next with
    | none => .ok [⟨P.present s, page⟩]
    | some next => do
      let reads ← P.scan s' next rest
      .ok (⟨P.present s, page⟩ :: reads)

/-- Listings and pages are those of what is present, in every state that the changes
reach. -/
structure Lawful (P : Pager σ ε ρ) (Inv : σ → Prop) : Prop where
  change : ∀ {s}, Inv s → ∀ e, Inv (P.change s e)
  sorted : ∀ {s}, Inv s → Paging.Sorted compare (P.present s)
  keys_ne_nil : ∀ {s}, Inv s → ∀ k ∈ P.present s, k ≠ []
  listKeys : ∀ {s}, Inv s → ∀ {call keys}, P.listKeys call s = .ok keys → keys = P.present s
  listKeyPage : ∀ {s}, Inv s → ∀ {call after limit page next s'},
    P.listKeyPage call after limit s = .ok ((page, next), s') →
      page = (Paging.above compare after (P.present s)).take (normalizeKeyPageLimit limit).toNat ∧
      next = page.getLast? ∧ Inv s' ∧ P.present s' = P.present s

variable {P : Pager σ ε ρ} {Inv : σ → Prop}

theorem Lawful.changes (hP : P.Lawful Inv) {s : σ} (hs : Inv s) (changes : List ε) :
    Inv (changes.foldl P.change s) := by
  induction changes generalizing s with
  | nil => exact hs
  | cons e rest ih => exact ih (hP.change hs e)

/-- A page that is cut at a limit is empty only if there is nothing. -/
theorem take_eq_nil {limit : Int} (h : keys.take (normalizeKeyPageLimit limit).toNat = []) :
    keys = [] := by
  rcases List.take_eq_nil_iff.mp h with h | h
  · have hpos := normalizeKeyPageLimit_pos limit
    omega
  · exact h

/-- The reads of a scan, in a store whose pages are lawful.  A scan that does not reach
an empty page has used all its turns. -/
theorem Lawful.scans (hP : P.Lawful Inv) {s : σ} (hs : Inv s) {after : Bytes}
    {turns : List (Turn ε ρ)} {reads : List (Paging.Read Bytes)}
    (h : P.scan s after turns = .ok reads) :
    Paging.Scans compare after reads ∧
      (Paging.Ended reads ∨ (reads.length = turns.length ∧ ∀ r ∈ reads, r.page ≠ [])) ∧
      (∀ r ∈ reads, ∀ k ∈ r.present, k ≠ []) ∧
      ((∀ turn ∈ turns, turn.changes = []) → ∀ r ∈ reads, r.present = P.present s) := by
  induction turns generalizing s after reads with
  | nil =>
    cases h
    exact ⟨trivial, .inr ⟨rfl, by simp⟩, by simp, by simp⟩
  | cons turn rest ih =>
    unfold scan at h
    obtain ⟨⟨⟨page, next⟩, s'⟩, hcall, h⟩ := except_bind_ok.mp h
    have hbefore := hP.changes hs turn.changes
    obtain ⟨hpage, hnext, hs', hsame⟩ := hP.listKeyPage hbefore hcall
    have hfront : page <+: Paging.above compare after
        (P.present (turn.changes.foldl P.change s)) := by
      rw [hpage]
      exact List.take_prefix ..
    have hempty : page = [] → Paging.above compare after
        (P.present (turn.changes.foldl P.change s)) = [] :=
      fun hnil => take_eq_nil (hpage.symm.trans hnil)
    have hunchanged : turn.changes = [] → P.present (turn.changes.foldl P.change s) =
        P.present s := fun hnil => by rw [hnil]; rfl
    cases next with
    | none =>
      cases h
      have hnil : page = [] := List.getLast?_eq_none_iff.mp hnext.symm
      refine ⟨⟨hP.sorted hbefore, hfront, hempty, trivial⟩, .inl ⟨[], _, rfl, hnil⟩, ?_, ?_⟩
      · intro r hr
        rw [List.mem_singleton.mp hr]
        exact hP.keys_ne_nil hbefore
      · intro hall r hr
        rw [List.mem_singleton.mp hr]
        exact hunchanged (hall turn (List.mem_cons_self ..))
    | some next =>
      obtain ⟨later, hlater, h⟩ := except_bind_ok.mp h
      cases h
      have hcursor : Paging.lastOr after page = next := by
        unfold Paging.lastOr
        rw [← hnext]
        rfl
      have hne : page ≠ [] := by
        intro hnil
        rw [hnil] at hnext
        cases hnext
      obtain ⟨hscans, hstop, hkeys, hkept⟩ := ih hs' hlater
      refine ⟨⟨hP.sorted hbefore, hfront, hempty, hcursor ▸ hscans⟩, ?_, ?_, ?_⟩
      · rcases hstop with ⟨front, r, hsplit, hr⟩ | ⟨hlength, hpages⟩
        · exact .inl ⟨_ :: front, r, by rw [hsplit]; rfl, hr⟩
        · refine .inr ⟨by rw [List.length_cons, List.length_cons, hlength], ?_⟩
          exact List.forall_mem_cons.mpr ⟨hne, hpages⟩
      · exact List.forall_mem_cons.mpr ⟨hP.keys_ne_nil hbefore, hkeys⟩
      · intro hall r hr
        have hhere := hunchanged (hall turn (List.mem_cons_self ..))
        rcases List.mem_cons.mp hr with rfl | hr
        · exact hhere
        · rw [hkept (fun t ht => hall t (List.mem_cons_of_mem _ ht)) r hr, hsame, hhere]

/-- A scan in which every page can be read. -/
theorem scan_total {turns : List (Turn ε ρ)}
    (hread : ∀ turn ∈ turns, ∀ after s, ∃ result,
      P.listKeyPage turn.call after turn.limit s = .ok result) (s : σ) (after : Bytes) :
    ∃ reads, P.scan s after turns = .ok reads := by
  induction turns generalizing s after with
  | nil => exact ⟨[], rfl⟩
  | cons turn rest ih =>
    obtain ⟨⟨⟨page, next⟩, s'⟩, hcall⟩ :=
      hread turn (List.mem_cons_self ..) after (turn.changes.foldl P.change s)
    unfold scan
    cases next with
    | none => exact ⟨_, except_bind_ok.mpr ⟨_, hcall, rfl⟩⟩
    | some next =>
      obtain ⟨reads, hreads⟩ := ih (fun t ht => hread t (List.mem_cons_of_mem _ ht)) s' next
      exact ⟨_, except_bind_ok.mpr ⟨_, hcall, except_bind_ok.mpr ⟨reads, hreads, rfl⟩⟩⟩

/-- What a scan from the start returns of a store that changes. -/
structure LiveScan (reads : List (Paging.Read Bytes)) : Prop where
  ascending : Paging.Sorted compare (Paging.pages reads)
  present : ∀ r ∈ reads, ∀ k ∈ r.page, k ∈ r.present
  once : ∀ k, (∀ r ∈ reads, k ∈ r.present) → (Paging.pages reads).count k = 1

/-- A scan that reaches an empty page is a live scan, and a listing if nothing changes.
Scans of readable pages fail nowhere, and reach an empty page in a store that does not
change. -/
structure Guarantee (P : Pager σ ε ρ) (Readable : ρ → Prop) (s : σ) : Prop where
  live : ∀ turns reads, P.scan s [] turns = .ok reads → Paging.Ended reads → LiveScan reads
  listing : ∀ turns reads, P.scan s [] turns = .ok reads → Paging.Ended reads →
    (∀ turn ∈ turns, turn.changes = []) →
      ∀ call keys, P.listKeys call s = .ok keys → Paging.pages reads = keys
  total : ∀ turns, (∀ turn ∈ turns, Readable turn.call) →
    ∃ reads, P.scan s [] turns = .ok reads ∧
      ((∀ turn ∈ turns, turn.changes = []) → (P.present s).length < turns.length →
        Paging.Ended reads)

theorem above_nil (h : ∀ k ∈ keys, k ≠ []) : Paging.above compare [] keys = keys :=
  Paging.above_eq_self fun k hk => compare_nil_lt (h k hk)

theorem liveScan_of_scans {reads : List (Paging.Read Bytes)} (h : Paging.Scans compare [] reads)
    (hended : Paging.Ended reads) (hkeys : ∀ r ∈ reads, ∀ k ∈ r.present, k ≠ []) :
    LiveScan reads := by
  refine ⟨h.sorted, h.mem, fun k hall => ?_⟩
  have hnodup : (Paging.pages reads).Nodup := by
    refine h.sorted.imp ?_
    intro a b hlt heq
    have hself : compare b b = .eq := Std.ReflCmp.compare_self
    rw [heq, hself] at hlt
    cases hlt
  have hk : compare [] k = .lt := by
    obtain ⟨front, last, hsplit, _⟩ := hended
    have hlast : last ∈ reads := by
      rw [hsplit]
      simp
    exact compare_nil_lt (hkeys last hlast k (hall last hlast))
  exact List.count_eq_one_of_mem hnodup (h.complete hended hk hall)

/-- A lawful pager keeps the promise in every state with its invariant. -/
theorem Lawful.guarantee (hP : P.Lawful Inv) {Readable : ρ → Prop}
    (hread : ∀ call, Readable call → ∀ after limit s, ∃ result,
      P.listKeyPage call after limit s = .ok result) {s : σ} (hs : Inv s) :
    P.Guarantee Readable s where
  live := by
    intro turns reads h hended
    obtain ⟨hscans, _, hkeys, _⟩ := hP.scans hs h
    exact liveScan_of_scans hscans hended hkeys
  listing := by
    intro turns reads h hended hunchanged call keys hlist
    obtain ⟨hscans, _, _, hkept⟩ := hP.scans hs h
    rw [hP.listKeys hs hlist, hscans.eq_of_unchanged hended (hP.sorted hs) (hkept hunchanged)]
    exact above_nil (hP.keys_ne_nil hs)
  total := by
    intro turns hturns
    obtain ⟨reads, h⟩ := scan_total
      (fun turn hturn after s => hread turn.call (hturns turn hturn) after turn.limit s) s []
    refine ⟨reads, h, fun hunchanged hlong => ?_⟩
    obtain ⟨hscans, hstop, _, hkept⟩ := hP.scans hs h
    refine hstop.resolve_right ?_
    rintro ⟨hlength, hpages⟩
    have hle := hscans.length_le (hkept hunchanged) hpages
    rw [above_nil (hP.keys_ne_nil hs)] at hle
    omega

end Pager

/-! ## Both stores -/

/-- A call that may change a memory store; a failing one does not. -/
inductive MemoryChange where
  | put (o : Oracle) (key value : Bytes)
  | delete (o : Oracle) (key : Bytes)

def MemoryStore.change (m : MemoryStore) : MemoryChange → MemoryStore
  | .put o key value => finalState (MemoryStore.put o key value m)
  | .delete o key => finalState (MemoryStore.delete o key m)

def memoryPager : Pager MemoryStore MemoryChange (Oracle × MapOrder) where
  change := MemoryStore.change
  present m := m.data.keys
  listKeys call m := m.listKeys call.1 call.2
  listKeyPage call after limit m := do
    let result ← m.listKeyPage call.1 call.2 after limit
    .ok (result, m)

def filePager : Pager (System Unit) FileChange Unit where
  change := System.change
  present s := s.dir.blobs.keys
  listKeys _ s := .ok ((s.store ()).listKeys s.dir).1
  listKeyPage _ after limit s :=
    let (page, next, _) := (s.store ()).listKeyPage s.dir after limit
    .ok ((page, next), s.step (.listKeyPage () after limit))

theorem memoryPager_lawful : memoryPager.Lawful fun _ => True where
  change := fun _ _ => trivial
  sorted := fun {m} _ => m.keys_sorted
  keys_ne_nil := fun {m} _ => m.keys_ne_nil
  listKeys := fun _ => MemoryStore.listKeys_ok
  listKeyPage := by
    intro m _ call after limit page next m' h
    obtain ⟨result, hpage, h⟩ := except_bind_ok.mp h
    cases h
    obtain ⟨hpage, hnext⟩ := MemoryStore.listKeyPage_ok hpage
    exact ⟨hpage, hnext, trivial, rfl⟩

theorem filePager_lawful : filePager.Lawful System.Exact where
  change := fun hs e => hs.change e
  sorted := fun _ => Std.ExtTreeMap.ordered_keys
  keys_ne_nil := fun {s} _ => s.dir.keys_ne_nil
  listKeys := by
    intro s hs call keys h
    cases h
    exact (hs.sound.lists ()).keys
  listKeyPage := by
    intro s hs call after limit page next s' h
    cases h
    exact ⟨(hs.sound.lists ()).page after limit, rfl, hs.step _, rfl⟩

/-- A scan of a memory store, or of a file store that is the only one on its directory,
that starts with an empty cursor and goes on to an empty page: however the store changes
between the pages, the keys come in ascending order, each was there when its page was
read, and a key that was there each time comes exactly once.  If nothing changes the
scan is the listing. -/
theorem live_paging :
    (∀ m : MemoryStore,
      memoryPager.Guarantee (fun call => ∀ n, call.1 (.ctxErr n) = .proceed) m) ∧
    ∀ d : Directory, filePager.Guarantee (fun _ => True) (System.opened d) := by
  constructor
  · intro m
    refine memoryPager_lawful.guarantee ?_ trivial
    intro call hlive after limit m
    obtain ⟨result, hresult⟩ := MemoryStore.listKeyPage_live hlive call.2 after limit m
    exact ⟨(result, m), except_bind_ok.mpr ⟨result, hresult, rfl⟩⟩
  · intro d
    refine filePager_lawful.guarantee ?_ (System.opened_exact d)
    intro call _ after limit s
    exact ⟨_, rfl⟩

namespace Sample

theorem one_ne_nil : ([1] : Bytes) ≠ [] := by decide

theorem two_ne_nil : ([2] : Bytes) ≠ [] := by decide

def twoBlobs : MemoryStore :=
  (MemoryStore.new.insert [1] [10] one_ne_nil).insert [2] [20] two_ne_nil

/-- The map in order. -/
def inOrder : MapOrder := ⟨id, fun _ => List.Perm.refl _⟩

/-- The cursor's key is deleted behind the first page and comes back behind the second,
while keys are put below and above it. -/
def restless : List (Turn MemoryChange (Oracle × MapOrder)) :=
  [⟨[], (Oracle.none, inOrder), 1⟩,
    ⟨[.delete Oracle.none [1], .put Oracle.none [0] [], .put Oracle.none [3] []],
      (Oracle.none, inOrder), 1⟩,
    ⟨[.put Oracle.none [1] [11]], (Oracle.none, inOrder), 5⟩,
    ⟨[], (Oracle.none, inOrder), 5⟩]

def restlessReads : List (Paging.Read Bytes) :=
  [⟨[[1], [2]], [[1]]⟩, ⟨[[0], [2], [3]], [[2]]⟩, ⟨[[0], [1], [2], [3]], [[3]]⟩,
    ⟨[[0], [1], [2], [3]], []⟩]

end Sample

theorem live_paging_sample :
    memoryPager.scan Sample.twoBlobs [] Sample.restless = .ok Sample.restlessReads ∧
      Pager.LiveScan Sample.restlessReads := by
  have hscan : memoryPager.scan Sample.twoBlobs [] Sample.restless =
      .ok Sample.restlessReads := by
    decide +kernel
  refine ⟨hscan, (live_paging.1 Sample.twoBlobs).live _ _ hscan ?_⟩
  exact ⟨Sample.restlessReads.take 3, _, rfl, rfl⟩

/-! ## With and without an index -/

namespace MemoryStore

/-- The same blobs in a store that was not made by its constructor. -/
def unindexed (m : MemoryStore) : MemoryStore :=
  { m with keys := none, keys_exact := fun _ h => nomatch h }

theorem ensureKeyIndex_data (m : MemoryStore) : m.ensureKeyIndex.data = m.data := by
  unfold ensureKeyIndex
  split <;> rfl

theorem ensureKeyIndex_isSome (m : MemoryStore) : m.ensureKeyIndex.keys.isSome = true := by
  unfold ensureKeyIndex
  split
  · next hindex => rw [hindex]; rfl
  · rfl

theorem put_isSome {o : Oracle} (ho : ∀ n, o (.ctxErr n) = .proceed) {key : Bytes}
    (hkey : key ≠ []) (value : Bytes) (m : MemoryStore) :
    (m.change (.put o key value)).keys.isSome = true := by
  have hput : MemoryStore.put o key value m = .ok () (m.ensureKeyIndex.insert key value hkey) := by
    unfold MemoryStore.put
    rw [run_bind_ok (ctxErr_proceed (ho 0) m), dif_neg hkey,
      run_bind_ok (ctxErr_proceed (ho 1) m)]
    rfl
  show (finalState (MemoryStore.put o key value m)).keys.isSome = true
  rw [hput]
  exact Option.isSome_map.trans m.ensureKeyIndex_isSome

/-- The page depends on nothing but the map. -/
theorem listKeyPage_eq {data : Std.ExtTreeMap Bytes Bytes compare} {m : MemoryStore}
    (hdata : m.data = data) {o : Oracle} (ho : ∀ n, o (.ctxErr n) = .proceed) (order : MapOrder)
    (after : Bytes) (limit : Int) {page : List Bytes} (hpage : page =
      (Paging.above compare after data.keys).take (normalizeKeyPageLimit limit).toNat) :
    m.listKeyPage o order after limit = .ok (page, page.getLast?) := by
  obtain ⟨⟨found, next⟩, hresult⟩ := listKeyPage_live ho order after limit m
  obtain ⟨hfound, hnext⟩ := listKeyPage_ok hresult
  rw [hdata, ← hpage] at hfound
  rw [hresult, hnext, hfound]

end MemoryStore

/-- Looking through the map in any order and walking the index return the same page: the
first keys above the cursor.  Whatever is put and deleted, an index that exists holds exactly
the keys of the map, and a put that is made leaves one. -/
theorem indexed_pages_agree (m : MemoryStore) :
    (∀ (o o' : Oracle) (order order' : MapOrder) (after : Bytes) (limit : Int) (page : List Bytes),
      (∀ n, o (.ctxErr n) = .proceed) → (∀ n, o' (.ctxErr n) = .proceed) →
      page = (Paging.above compare after m.data.keys).take (normalizeKeyPageLimit limit).toNat →
      m.unindexed.listKeyPage o order after limit = .ok (page, page.getLast?) ∧
      m.ensureKeyIndex.listKeyPage o' order' after limit = .ok (page, page.getLast?)) ∧
    ∀ changes : List MemoryChange,
      (∀ index, (changes.foldl MemoryStore.change m).keys = some index →
        ∀ k, k ∈ index ↔ k ∈ (changes.foldl MemoryStore.change m).data) ∧
      ∀ (o : Oracle) (key value : Bytes), key ≠ [] → (∀ n, o (.ctxErr n) = .proceed) →
        ((changes.foldl MemoryStore.change m).change (.put o key value)).keys.isSome = true := by
  refine ⟨?_, fun changes => ⟨(changes.foldl MemoryStore.change m).keys_exact, ?_⟩⟩
  · intro o o' order order' after limit page ho ho' hpage
    exact ⟨MemoryStore.listKeyPage_eq rfl ho order after limit hpage,
      MemoryStore.listKeyPage_eq m.ensureKeyIndex_data ho' order' after limit hpage⟩
  · intro o key value hkey ho
    exact MemoryStore.put_isSome ho hkey value _

theorem indexed_pages_agree_reversed :
    Sample.twoBlobs.unindexed.listKeyPage Oracle.none ⟨List.reverse, List.reverse_perm⟩ [] 1 =
      .ok ([[1]], some [1]) ∧
    Sample.twoBlobs.ensureKeyIndex.listKeyPage Oracle.none Sample.inOrder [] 1 =
      .ok ([[1]], some [1]) :=
  (indexed_pages_agree Sample.twoBlobs).1 Oracle.none Oracle.none _ _ [] 1 [[1]]
    (fun _ => rfl) (fun _ => rfl) (by decide +kernel)

end StreamHive.Storage

import StreamHive.Replication.BlobStore
import StreamHive.Storage.LivePaging

/-!
# Inventories

`SummarizeInventory` and `InspectInventory` walk over the keys that a lister names: page by
page if it is a pager, and else over the whole list, which they sort.  The first feeds each
key, behind its length, to SHA-256.  The second reads the blob under each key and counts it as
verified, opaque, corrupt or missing.

The context, the lister and the store may answer differently at each call, so the state of a
scan is the number of calls that it has made.  The loop over the pages takes fuel; without any
left it is still going, and there is no summary.  Counters are unbounded, and the summary that
comes with an error is left out.

## Main results

* `scanInventory_ok`, `scanInventory_live` — a scan visits the keys in ascending order, however
  they are listed;
* `keyStream_inj` — the bytes that are hashed determine the keys;
* `inventory_fingerprint`, `integrity_scan` — what the summaries say.
-/

namespace StreamHive.Storage

open Verified ByteString Effect
open StreamHive.Lifecycle (Error Oracle Stdlib ctxCheck ctxCheck_ok sha256Size verifySHA256Key
  verifySHA256Key_eq_ok)
open StreamHive.Replication (BlobStore defaultKeyPageSize)

/-! ## The program -/

/-- `pagerInvalid` is `ErrInventoryPagerInvalid` with the text that is wrapped with it. -/
inductive InventoryError where
  | keyEmpty
  | pagerInvalid (detail : String)
  | other (e : Error)
  deriving DecidableEq, Repr

abbrev Scan := EStateM InventoryError Nat

/-- A call that is answered from outside. -/
def outside {α : Type} (answer : Nat → Except Error α) : Scan α := fun t =>
  match answer t with
  | .ok a => .ok a (t + 1)
  | .error e => .error (.other e) (t + 1)

/-- `ctx.Err()` -/
def checkContext (env : Nat → Oracle) : Scan Unit := outside fun t => ctxCheck (env t) 0

/-- A pager is also a lister, but only its pages are asked for. -/
inductive InventoryLister where
  | plain (listKeys : Nat → Except Error (List Bytes))
  | pager (listKeyPage : Nat → Bytes → Int → Except Error (List Bytes × Bytes))

/-- What is returned for a page that breaks the contract of a pager. -/
structure PageErrors where
  emptyCursor : InventoryError
  mismatch : InventoryError
  stalled : InventoryError
  unsorted : InventoryError

/-- The checks of a page, key by key. -/
def validatePage (env : Nat → Oracle) (errs : PageErrors) (cursor : Option Bytes) :
    Option Bytes → List Bytes → Scan Unit
  | _, [] => pure ()
  | previous, key :: rest => do
    checkContext env
    raiseIf (key = []) .keyEmpty
    raiseIf (cursor.any fun c => (compare key c).isLE) errs.stalled
    raiseIf (previous.any fun p => (compare key p).isLE) errs.unsorted
    validatePage env errs cursor (some key) rest

section Scans

variable {σ : Type} (env : Nat → Oracle) (errs : PageErrors) (visit : σ → Bytes → Scan σ)

/-- The loop of `summarizePagedInventory` and `inspectPagedInventory`; there is a cursor behind
the first page. -/
def walkPages (listKeyPage : Nat → Bytes → Int → Except Error (List Bytes × Bytes)) :
    Nat → Option Bytes → σ → Scan (Option σ)
  | 0, _, _ => pure none
  | fuel + 1, cursor, acc => do
    checkContext env
    let (keys, next) ← outside fun t => listKeyPage t (cursor.getD []) defaultKeyPageSize
    if keys = [] then do
      raiseIf (next ≠ []) errs.emptyCursor
      pure (some acc)
    else do
      raiseIf (keys.length > defaultKeyPageSize ∨ next = [] ∨ keys.getLast? ≠ some next)
        errs.mismatch
      validatePage env errs cursor none keys
      let acc ← keys.foldlM visit acc
      walkPages listKeyPage fuel (some next) acc

/-- The common part of `SummarizeInventory` and `InspectInventory`. -/
def scanInventory (init : σ) (fuel : Nat) : Option InventoryLister → Scan (Option σ)
  | none => throw (.other (.text "storage: nil inventory lister"))
  | some lister => do
    checkContext env
    match lister with
    | .pager listKeyPage => walkPages env errs visit listKeyPage fuel none init
    | .plain listKeys => do
      let keys ← outside listKeys
      let acc ← (Paging.sort compare keys).foldlM visit init
      pure (some acc)

end Scans

/-- A summary in the making, with all that was written to the digest. -/
structure InventoryProgress where
  keyCount : Nat
  keyBytes : Nat
  written : Bytes

structure InventorySummary (δ : Type) where
  keyCount : Nat
  keyBytes : Nat
  digest : δ
  deriving DecidableEq, Repr

def appendInventoryKey (env : Nat → Oracle) (summary : InventoryProgress) (key : Bytes) :
    Scan InventoryProgress := do
  checkContext env
  raiseIf (key = []) .keyEmpty
  raiseIf (key.length > 2 ^ 32 - 1)
    (.other (.text ("storage: inventory key too large: " ++ toString key.length)))
  pure ⟨summary.keyCount + 1, summary.keyBytes + key.length,
    summary.written ++ (beEncode 4 key.length ++ key)⟩

def summarizeErrors : PageErrors where
  emptyCursor := .pagerInvalid "empty page returned cursor"
  mismatch := .pagerInvalid "page size or cursor mismatch"
  stalled := .pagerInvalid "page does not advance"
  unsorted := .pagerInvalid "page is not strictly sorted"

def summarizeInventory {δ : Type} (sha256 : Bytes → δ) (env : Nat → Oracle) (fuel : Nat)
    (lister : Option InventoryLister) : Scan (Option (InventorySummary δ)) := do
  let done ← scanInventory env summarizeErrors (appendInventoryKey env) ⟨0, 0, []⟩ fuel lister
  pure (done.map fun s => ⟨s.keyCount, s.keyBytes, sha256 s.written⟩)

structure IntegritySummary where
  keyCount : Nat
  keyBytes : Nat
  contentAddressedKeys : Nat
  verifiedKeys : Nat
  verifiedBytes : Nat
  opaqueKeys : Nat
  opaqueBytes : Nat
  corruptKeys : Nat
  missingKeys : Nat
  deriving DecidableEq, Repr

namespace IntegritySummary

def zero : IntegritySummary := ⟨0, 0, 0, 0, 0, 0, 0, 0, 0⟩

/-- A key is counted before its blob is read. -/
def meet (s : IntegritySummary) (key : Bytes) : IntegritySummary :=
  let s := { s with keyCount := s.keyCount + 1, keyBytes := s.keyBytes + key.length }
  if key.length = sha256Size then { s with contentAddressedKeys := s.contentAddressedKeys + 1 }
  else { s with opaqueKeys := s.opaqueKeys + 1 }

def missing (s : IntegritySummary) : IntegritySummary :=
  { s with missingKeys := s.missingKeys + 1 }

def corrupt (s : IntegritySummary) : IntegritySummary :=
  { s with corruptKeys := s.corruptKeys + 1 }

def verified (s : IntegritySummary) (data : Bytes) : IntegritySummary :=
  { s with verifiedKeys := s.verifiedKeys + 1, verifiedBytes := s.verifiedBytes + data.length }

def opaqueData (s : IntegritySummary) (data : Bytes) : IntegritySummary :=
  { s with opaqueBytes := s.opaqueBytes + data.length }

end IntegritySummary

/-- One turn of the loop of `inspectInventoryKeys`. -/
def inspectInventoryKey (S : Stdlib) (env : Nat → Oracle) (store : BlobStore)
    (summary : IntegritySummary) (key : Bytes) : Scan IntegritySummary := do
  checkContext env
  raiseIf (key = []) .keyEmpty
  let summary := summary.meet key
  match ← outside fun t => .ok (store.get S (env t) key) with
  | .error e =>
    if e.is .blobNotFound then pure summary.missing
    else if key.length = sha256Size ∧ e.is .sha256Mismatch then pure summary.corrupt
    else throw (.other e)
  | .ok data => do
    checkContext env
    if key.length = sha256Size then
      match verifySHA256Key S key data with
      | .error e => if e.is .sha256Mismatch then pure summary.corrupt else throw (.other e)
      | .ok _ => pure (summary.verified data)
    else pure (summary.opaqueData data)

/-- The first text is joined to the sentinel; the other errors are the sentinel itself. -/
def inspectErrors : PageErrors where
  emptyCursor := .pagerInvalid "storage: empty page returned cursor"
  mismatch := .pagerInvalid ""
  stalled := .pagerInvalid ""
  unsorted := .pagerInvalid ""

/-- A pager's summary is read when its pages have been walked. -/
def inspectInventory (S : Stdlib) (env : Nat → Oracle) (fuel : Nat) (store : Option BlobStore)
    (lister : Option InventoryLister) : Scan (Option IntegritySummary) :=
  match store with
  | none => throw (.other (.text "storage: nil blob store"))
  | some store =>
    scanInventory env inspectErrors (inspectInventoryKey S env store) .zero fuel lister

/-! ## Listers -/

variable {keys : List Bytes}

/-- A page of an ascending list of keys, behind the cursor. -/
structure IsPage (keys : List Bytes) (cursor : Bytes) (page : List Bytes) (next : Bytes) :
    Prop where
  front : page <+: Paging.above compare cursor keys
  last : page = [] → Paging.above compare cursor keys = []
  bound : page.length ≤ defaultKeyPageSize
  next : next = Paging.lastOr [] page

namespace InventoryLister

/-- Whatever is listed are the keys: all of them in any order, or in pages of any sizes. -/
def Lists (keys : List Bytes) : InventoryLister → Prop
  | plain listKeys => ∀ t listed, listKeys t = .ok listed → listed.Perm keys
  | pager listKeyPage => (∀ k ∈ keys, k ≠ []) ∧
      ∀ t cursor page next, cursor = [] ∨ cursor ∈ keys →
        listKeyPage t cursor defaultKeyPageSize = .ok (page, next) → IsPage keys cursor page next

/-- The calls that a scan makes do not fail. -/
def Answers (keys : List Bytes) : InventoryLister → Prop
  | plain listKeys => ∀ t, ∃ listed, listKeys t = .ok listed
  | pager listKeyPage => ∀ t cursor, cursor = [] ∨ cursor ∈ keys →
      ∃ page next, listKeyPage t cursor defaultKeyPageSize = .ok (page, next)

end InventoryLister

section Visits

variable {σ : Type} {env : Nat → Oracle} {errs : PageErrors} {visit : σ → Bytes → Scan σ}
  {f : σ → Bytes → σ} {t t' : Nat} {acc acc' : σ} {α : Type} {a : α}
  {answer : Nat → Except Error α}

/-- What a visit makes of what was found so far. -/
def Computes (visit : σ → Bytes → Scan σ) (f : σ → Bytes → σ) : Prop :=
  ∀ acc key t acc' t', visit acc key t = .ok acc' t' → acc' = f acc key

/-- A visit to one of the keys does not fail. -/
def Succeeds (visit : σ → Bytes → Scan σ) (keys : List Bytes) : Prop :=
  ∀ acc, ∀ key ∈ keys, ∀ t, ∃ acc' t', visit acc key t = .ok acc' t'

theorem outside_ok : outside answer t = .ok a t' ↔ answer t = .ok a ∧ t' = t + 1 := by
  unfold outside
  cases answer t with
  | ok b => simp [eq_comm]
  | error e => simp

theorem checkContext_live (hlive : ∀ t, env t (.ctxErr 0) = .proceed) (t : Nat) :
    checkContext env t = .ok () (t + 1) :=
  outside_ok.mpr ⟨ctxCheck_ok.mpr (hlive t), rfl⟩

theorem Computes.foldlM (hvisit : Computes visit f)
    (h : keys.foldlM visit acc t = .ok acc' t') : acc' = keys.foldl f acc := by
  induction keys generalizing acc t with
  | nil =>
    cases h
    rfl
  | cons key rest ih =>
    rw [List.foldlM_cons] at h
    obtain ⟨acc₁, t₁, hkey, h⟩ := bind_ok.mp h
    rw [List.foldl_cons, ← hvisit _ _ _ _ _ hkey]
    exact ih h

theorem Succeeds.foldlM (hvisit : Succeeds visit keys) (acc : σ) (t : Nat) :
    ∃ acc' t', keys.foldlM visit acc t = .ok acc' t' := by
  induction keys generalizing acc t with
  | nil => exact ⟨acc, t, rfl⟩
  | cons key rest ih =>
    obtain ⟨acc₁, t₁, hkey⟩ := hvisit acc key List.mem_cons_self t
    obtain ⟨acc', t', hrest⟩ :=
      ih (fun acc k hk => hvisit acc k (List.mem_cons_of_mem key hk)) acc₁ t₁
    refine ⟨acc', t', ?_⟩
    rw [List.foldlM_cons]
    exact bind_ok.mpr ⟨acc₁, t₁, hkey, hrest⟩

variable (hsorted : Paging.Sorted compare keys)
include hsorted

/-- The cursor of the next page is behind this one. -/
theorem IsPage.above_next {cursor next : Bytes} {page rest : List Bytes}
    (h : IsPage keys cursor page next) (hne : page ≠ [])
    (hrest : page ++ rest = Paging.above compare cursor keys) :
    next ∈ keys ∧ Paging.above compare next keys = rest := by
  have hlast : Paging.lastOr cursor page = next := by
    rw [h.next]
    exact Option.some.inj ((Paging.getLast?_eq_lastOr hne cursor).symm.trans
      (Paging.getLast?_eq_lastOr hne []))
  refine ⟨?_, hlast ▸ Paging.above_lastOr hsorted hrest.symm⟩
  have hmem : next ∈ page := hlast ▸ Paging.lastOr_mem hne
  exact (List.mem_filter.mp (h.front.subset hmem)).1

variable {listKeyPage : Nat → Bytes → Int → Except Error (List Bytes × Bytes)}
  {cursor : Option Bytes}

omit hsorted in
theorem cursor_getD (hcursor : ∀ c ∈ cursor, c ∈ keys) :
    cursor.getD [] = [] ∨ cursor.getD [] ∈ keys := by
  cases cursor with
  | none => exact .inl rfl
  | some c => exact .inr (hcursor c rfl)

/-- Walking over pages visits what is behind the cursor. -/
theorem walkPages_ok (hlists : (InventoryLister.pager listKeyPage).Lists keys)
    (hvisit : Computes visit f) {fuel : Nat} (hcursor : ∀ c ∈ cursor, c ∈ keys)
    (h : walkPages env errs visit listKeyPage fuel cursor acc t = .ok (some acc') t') :
    acc' = (Paging.above compare (cursor.getD []) keys).foldl f acc := by
  induction fuel generalizing cursor acc t with
  | zero => cases h
  | succ fuel ih =>
    unfold walkPages at h
    obtain ⟨_, t₁, _, h⟩ := bind_ok.mp h
    obtain ⟨⟨page, next⟩, t₂, hcall, h⟩ := bind_ok.mp h
    have hpage := hlists.2 t₁ _ page next (cursor_getD hcursor) (outside_ok.mp hcall).1
    dsimp only at h
    split at h
    · next hnil =>
      obtain ⟨_, _, _, h⟩ := bind_ok.mp h
      cases h
      rw [hpage.last hnil]
      rfl
    · next hne =>
      obtain ⟨_, _, _, h⟩ := bind_ok.mp h
      obtain ⟨_, _, _, h⟩ := bind_ok.mp h
      obtain ⟨acc₁, _, hfold, h⟩ := bind_ok.mp h
      obtain ⟨rest, hrest⟩ := hpage.front
      obtain ⟨hmem, habove⟩ := hpage.above_next hsorted hne hrest
      have hnext : ∀ c ∈ some next, c ∈ keys := fun c hc => Option.some.inj hc ▸ hmem
      rw [ih hnext h, hvisit.foldlM hfold, ← hrest, List.foldl_append]
      show (Paging.above compare next keys).foldl f _ = _
      rw [habove]

omit hsorted in
/-- A page of ascending keys behind the cursor passes the checks. -/
theorem validatePage_live (hlive : ∀ t, env t (.ctxErr 0) = .proceed) {page : List Bytes}
    (hne : ∀ k ∈ page, k ≠ []) (hsorted : Paging.Sorted compare page)
    (hcursor : ∀ c ∈ cursor, ∀ k ∈ page, compare c k = .lt) {previous : Option Bytes}
    (hprevious : ∀ p ∈ previous, ∀ k ∈ page, compare p k = .lt) (t : Nat) :
    ∃ t', validatePage env errs cursor previous page t = .ok () t' := by
  induction page generalizing previous t with
  | nil => exact ⟨t, rfl⟩
  | cons key rest ih =>
    obtain ⟨hkey, hrest⟩ := List.pairwise_cons.mp hsorted
    obtain ⟨t', hvalid⟩ := ih (fun k hk => hne k (List.mem_cons_of_mem key hk)) hrest
      (fun c hc k hk => hcursor c hc k (List.mem_cons_of_mem key hk))
      (fun p hp k hk => Option.some.inj hp ▸ hkey k hk) (t + 1)
    have hbehind : ∀ {o : Option Bytes}, (∀ c ∈ o, ∀ k ∈ key :: rest, compare c k = .lt) →
        ¬ (o.any fun c => (compare key c).isLE) = true := by
      intro o ho hany
      obtain ⟨c, hc, hle⟩ := (Option.any_eq_true _ _).mp hany
      exact Std.OrientedCmp.not_isLE_of_lt (ho c hc key List.mem_cons_self) hle
    refine ⟨t', ?_⟩
    unfold validatePage
    rw [run_bind_ok (checkContext_live hlive t),
      run_bind_ok (run_raiseIf (hne key List.mem_cons_self)),
      run_bind_ok (run_raiseIf (hbehind hcursor)), run_bind_ok (run_raiseIf (hbehind hprevious))]
    exact hvalid

/-- With enough fuel the pages are walked to their end. -/
theorem walkPages_live (hlists : (InventoryLister.pager listKeyPage).Lists keys)
    (hanswers : (InventoryLister.pager listKeyPage).Answers keys)
    (hlive : ∀ t, env t (.ctxErr 0) = .proceed)
    (hvisit : Succeeds visit keys) {fuel : Nat} (hcursor : ∀ c ∈ cursor, c ∈ keys)
    (hfuel : (Paging.above compare (cursor.getD []) keys).length < fuel) (acc : σ) (t : Nat) :
    ∃ acc' t', walkPages env errs visit listKeyPage fuel cursor acc t = .ok (some acc') t' := by
  induction fuel generalizing cursor acc t with
  | zero => exact absurd hfuel (Nat.not_lt_zero _)
  | succ fuel ih =>
    have hplace := cursor_getD hcursor
    obtain ⟨page, next, hcall⟩ := hanswers (t + 1) _ hplace
    have hpage := hlists.2 _ _ page next hplace hcall
    have hin : ∀ k ∈ page, k ∈ Paging.above compare (cursor.getD []) keys :=
      fun k hk => hpage.front.subset hk
    have hread : (outside fun t => listKeyPage t (cursor.getD []) defaultKeyPageSize) (t + 1) =
        .ok (page, next) (t + 1 + 1) := outside_ok.mpr ⟨hcall, rfl⟩
    unfold walkPages
    rw [run_bind_ok (checkContext_live hlive t), run_bind_ok hread]
    dsimp only
    by_cases hnil : page = []
    · have hend : next = [] := by rw [hpage.next, hnil]; rfl
      refine ⟨acc, t + 1 + 1, ?_⟩
      rw [if_pos hnil, run_bind_ok (run_raiseIf (not_not.mpr hend))]
      rfl
    obtain ⟨rest, hrest⟩ := hpage.front
    obtain ⟨hmem, habove⟩ := hpage.above_next hsorted hnil hrest
    have hmismatch : ¬ ((page.length : Int) > defaultKeyPageSize ∨ next = [] ∨
        page.getLast? ≠ some next) := by
      rintro (hbig | hempty | hother)
      · exact absurd hpage.bound (not_le.mpr hbig)
      · exact hlists.1 next hmem hempty
      · exact hother (hpage.next ▸ Paging.getLast?_eq_lastOr hnil [])
    have hbehind : ∀ c ∈ cursor, ∀ k ∈ page, compare c k = .lt := by
      intro c hc k hk
      have hlt := Paging.lt_of_mem_above (hin k hk)
      rw [Option.mem_def.mp hc] at hlt
      exact hlt
    obtain ⟨t₁, hvalid⟩ : ∃ t₁, validatePage env errs cursor none page (t + 1 + 1) = .ok () t₁ :=
      validatePage_live hlive (fun k hk => hlists.1 k (List.mem_filter.mp (hin k hk)).1)
        (List.Pairwise.sublist hpage.front.sublist (hsorted.above _)) hbehind (by simp) _
    have hpageVisit : Succeeds visit page :=
      fun acc k hk => hvisit acc k (List.mem_filter.mp (hin k hk)).1
    obtain ⟨acc₁, t₂, hfold⟩ := hpageVisit.foldlM acc t₁
    have hshorter : (Paging.above compare ((some next).getD []) keys).length < fuel := by
      have hlength := congrArg List.length hrest
      rw [List.length_append] at hlength
      have hpos := List.length_pos_iff.mpr hnil
      show (Paging.above compare next keys).length < fuel
      rw [habove]
      omega
    obtain ⟨acc', t', hwalk⟩ :=
      ih (fun c hc => Option.some.inj hc ▸ hmem) hshorter acc₁ t₂
    refine ⟨acc', t', ?_⟩
    rw [if_neg hnil, run_bind_ok (run_raiseIf hmismatch), run_bind_ok hvalid, run_bind_ok hfold]
    exact hwalk

variable {lister : InventoryLister}

/-- However the keys are listed, a scan visits them in ascending order. -/
theorem scanInventory_ok (hlists : lister.Lists keys)
    (hvisit : Computes visit f) {fuel : Nat}
    (h : scanInventory env errs visit acc fuel (some lister) t = .ok (some acc') t') :
    acc' = keys.foldl f acc := by
  obtain ⟨_, t₁, _, h⟩ := bind_ok.mp h
  cases lister with
  | pager listKeyPage =>
    rw [walkPages_ok hsorted hlists hvisit (by simp) h]
    exact congrArg (List.foldl f acc) (Pager.above_nil hlists.1)
  | plain listKeys =>
    obtain ⟨listed, t₂, hlisted, h⟩ := bind_ok.mp h
    obtain ⟨result, t₃, hfold, h⟩ := bind_ok.mp h
    cases h
    rw [hsorted.sort_perm (hlists t₁ listed (outside_ok.mp hlisted).1)] at hfold
    exact hvisit.foldlM hfold

theorem scanInventory_live (hlists : lister.Lists keys)
    (hanswers : lister.Answers keys) (hlive : ∀ t, env t (.ctxErr 0) = .proceed)
    (hvisit : Succeeds visit keys) {fuel : Nat} (hfuel : keys.length < fuel) (acc : σ) (t : Nat) :
    ∃ acc' t', scanInventory env errs visit acc fuel (some lister) t = .ok (some acc') t' := by
  cases lister with
  | pager listKeyPage =>
    obtain ⟨acc', t', hwalk⟩ : ∃ acc' t', walkPages env errs visit listKeyPage fuel none acc
        (t + 1) = .ok (some acc') t' :=
      walkPages_live hsorted hlists hanswers hlive hvisit (by simp)
        (Nat.lt_of_le_of_lt (List.length_filter_le _ _) hfuel) acc (t + 1)
    exact ⟨acc', t', bind_ok.mpr ⟨(), t + 1, checkContext_live hlive t, hwalk⟩⟩
  | plain listKeys =>
    obtain ⟨listed, hlisted⟩ := hanswers (t + 1)
    obtain ⟨acc', t', hfold⟩ := hvisit.foldlM acc (t + 1 + 1)
    rw [← hsorted.sort_perm (hlists _ listed hlisted)] at hfold
    refine ⟨acc', t', bind_ok.mpr ⟨(), t + 1, checkContext_live hlive t, ?_⟩⟩
    refine bind_ok.mpr ⟨listed, t + 1 + 1, outside_ok.mpr ⟨hlisted, rfl⟩, ?_⟩
    exact bind_ok.mpr ⟨acc', t', hfold, rfl⟩

end Visits

/-- The pages of a memory store. -/
def MemoryStore.inventoryPager (env : Nat → Oracle) (order : MapOrder) (m : MemoryStore) :
    InventoryLister :=
  .pager fun t cursor limit => do
    let (page, next) ← m.listKeyPage (env t) order cursor limit
    .ok (page, next.getD [])

theorem MemoryStore.inventoryPager_lists (env : Nat → Oracle) (order : MapOrder)
    (m : MemoryStore) : (m.inventoryPager env order).Lists m.data.keys := by
  refine ⟨m.keys_ne_nil, fun t cursor page next _ h => ?_⟩
  obtain ⟨⟨found, last⟩, hcall, h⟩ := except_bind_ok.mp h
  cases h
  obtain ⟨hpage, rfl⟩ := listKeyPage_ok hcall
  refine ⟨hpage ▸ List.take_prefix .., ?_, ?_, rfl⟩
  · exact fun hnil => Pager.take_eq_nil (hpage.symm.trans hnil)
  · rw [hpage, List.length_take]
    show ((min 256 _ : Nat) : Int) ≤ 256
    omega

theorem MemoryStore.inventoryPager_answers (env : Nat → Oracle)
    (henv : ∀ t n, env t (.ctxErr n) = .proceed) (order : MapOrder) (m : MemoryStore) :
    (m.inventoryPager env order).Answers m.data.keys := by
  intro t cursor _
  obtain ⟨⟨page, last⟩, hcall⟩ := m.listKeyPage_live (henv t) order cursor defaultKeyPageSize
  exact ⟨page, last.getD [], except_bind_ok.mpr ⟨_, hcall, rfl⟩⟩

/-! ## The fingerprint -/

/-- The bytes that are hashed. -/
def keyStream (keys : List Bytes) : Bytes :=
  keys.flatMap fun key => beEncode 4 key.length ++ key

namespace InventoryProgress

/-- A summary with one more key. -/
def add (s : InventoryProgress) (key : Bytes) : InventoryProgress :=
  ⟨s.keyCount + 1, s.keyBytes + key.length, s.written ++ (beEncode 4 key.length ++ key)⟩

theorem foldl_add (keys : List Bytes) (s : InventoryProgress) : keys.foldl add s =
    ⟨s.keyCount + keys.length, s.keyBytes + (keys.map List.length).sum,
      s.written ++ keyStream keys⟩ := by
  induction keys generalizing s with
  | nil => simp [keyStream]
  | cons key rest ih =>
    rw [List.foldl_cons, ih]
    simp only [add, keyStream, List.length_cons, List.map_cons, List.sum_cons,
      List.flatMap_cons, List.append_assoc, mk.injEq, and_true]
    omega

end InventoryProgress

theorem appendInventoryKey_computes (env : Nat → Oracle) :
    Computes (appendInventoryKey env) InventoryProgress.add := by
  intro s key t s' t' h
  obtain ⟨_, _, _, h⟩ := bind_ok.mp h
  obtain ⟨_, _, _, h⟩ := bind_ok.mp h
  obtain ⟨_, _, _, h⟩ := bind_ok.mp h
  cases h
  rfl

theorem appendInventoryKey_succeeds {env : Nat → Oracle}
    (hlive : ∀ t, env t (.ctxErr 0) = .proceed)
    (hkeys : ∀ k ∈ keys, k ≠ [] ∧ k.length < 2 ^ 32) : Succeeds (appendInventoryKey env) keys := by
  intro s key hkey t
  obtain ⟨hne, hlength⟩ := hkeys key hkey
  refine ⟨s.add key, t + 1, ?_⟩
  unfold appendInventoryKey
  rw [run_bind_ok (checkContext_live hlive t), run_bind_ok (run_raiseIf hne),
    run_bind_ok (run_raiseIf (by omega))]
  rfl

/-- A key and what follows it can be told from the bytes behind each other. -/
theorem append_key_inj {a b rest rest' : Bytes} (ha : a.length < 2 ^ 32) (hb : b.length < 2 ^ 32)
    (h : beEncode 4 a.length ++ (a ++ rest) = beEncode 4 b.length ++ (b ++ rest')) :
    a = b ∧ rest = rest' := by
  obtain ⟨hword, hrest⟩ := List.append_inj h (by rw [length_beEncode, length_beEncode])
  have hlength : a.length = b.length := by
    rw [← beDecode_beEncode 4 a.length (by omega), hword, beDecode_beEncode 4 b.length (by omega)]
  exact List.append_inj hrest hlength

theorem keyStream_inj {xs ys : List Bytes} (hxs : ∀ k ∈ xs, k.length < 2 ^ 32)
    (hys : ∀ k ∈ ys, k.length < 2 ^ 32) (h : keyStream xs = keyStream ys) : xs = ys := by
  have hnil : ∀ key rest, keyStream (key :: rest) ≠ [] := by
    intro key rest hnil
    have hlength := congrArg List.length hnil
    simp [keyStream] at hlength
  induction xs generalizing ys with
  | nil =>
    cases ys with
    | nil => rfl
    | cons key rest => exact absurd h.symm (hnil key rest)
  | cons x xs ih =>
    cases ys with
    | nil => exact absurd h (hnil x xs)
    | cons y ys =>
      simp only [keyStream, List.flatMap_cons, List.append_assoc] at h
      obtain ⟨hkey, hrest⟩ := append_key_inj (hxs x List.mem_cons_self)
        (hys y List.mem_cons_self) h
      rw [hkey, ih (fun k hk => hxs k (List.mem_cons_of_mem x hk))
        (fun k hk => hys k (List.mem_cons_of_mem y hk)) hrest]

/-- However the keys are listed, the summary is that of the set of keys; the bytes that are
hashed are the same for no other set. -/
theorem inventory_fingerprint {δ : Type} (sha256 : Bytes → δ)
    (hsorted : Paging.Sorted compare keys) (hkeys : ∀ k ∈ keys, k ≠ [] ∧ k.length < 2 ^ 32) :
    (∀ (lister : InventoryLister) (env : Nat → Oracle) (fuel t : Nat), lister.Lists keys →
      lister.Answers keys → (∀ t, env t (.ctxErr 0) = .proceed) → keys.length < fuel →
      ∃ t', summarizeInventory sha256 env fuel (some lister) t =
        .ok (some ⟨keys.length, (keys.map List.length).sum, sha256 (keyStream keys)⟩) t') ∧
    ∀ keys', Paging.Sorted compare keys' → (∀ k ∈ keys', k ≠ [] ∧ k.length < 2 ^ 32) →
      (keyStream keys = keyStream keys' ↔ ∀ k, k ∈ keys ↔ k ∈ keys') := by
  constructor
  · intro lister env fuel t hlists hanswers hlive hfuel
    obtain ⟨done, t', hscan⟩ : ∃ done t', scanInventory env summarizeErrors
        (appendInventoryKey env) ⟨0, 0, []⟩ fuel (some lister) t = .ok (some done) t' :=
      scanInventory_live hsorted hlists hanswers hlive (appendInventoryKey_succeeds hlive hkeys)
        hfuel _ t
    have hdone := scanInventory_ok hsorted hlists (appendInventoryKey_computes env) hscan
    rw [InventoryProgress.foldl_add] at hdone
    refine ⟨t', bind_ok.mpr ⟨some done, t', hscan, ?_⟩⟩
    rw [hdone]
    simp only [Nat.zero_add, List.nil_append]
    rfl
  · intro keys' hsorted' hkeys'
    constructor
    · intro h k
      rw [keyStream_inj (fun k hk => (hkeys k hk).2) (fun k hk => (hkeys' k hk).2) h]
    · intro h
      rw [hsorted.eq_of_mem_iff hsorted' h]

theorem inventory_fingerprint_twoBlobs :
    ∃ t, summarizeInventory id (fun _ => Oracle.none) 3
      (some (Sample.twoBlobs.inventoryPager (fun _ => Oracle.none) Sample.inOrder)) 0 =
        .ok (some ⟨2, 2, [0, 0, 0, 1, 1, 0, 0, 0, 1, 2]⟩) t := by
  have hkeys : Sample.twoBlobs.data.keys = [[1], [2]] := by decide +kernel
  have hlists := Sample.twoBlobs.inventoryPager_lists (fun _ => Oracle.none) Sample.inOrder
  have hanswers := Sample.twoBlobs.inventoryPager_answers (fun _ => Oracle.none)
    (fun _ _ => rfl) Sample.inOrder
  rw [hkeys] at hlists hanswers
  exact (inventory_fingerprint id (hkeys ▸ Sample.twoBlobs.keys_sorted) (by decide)).1 _ _ 3 0
    hlists hanswers (fun _ => rfl) (by decide)

/-! ## The integrity of a store -/

section Integrity

variable (S : Stdlib) (store : BlobStore)

/-- What is counted for a key, by what the store holds under it. -/
def IntegritySummary.tally (s : IntegritySummary) (key : Bytes) : IntegritySummary :=
  match store.data? key with
  | none => (s.meet key).missing
  | some data =>
    if key.length = sha256Size then
      if S.sha256 data = key then (s.meet key).verified data else (s.meet key).corrupt
    else (s.meet key).opaqueData data

/-- A 32-byte key over other data than it is the hash of. -/
def damaged (key : Bytes) : Bool :=
  key.length = sha256Size && (store.data? key).any fun data => S.sha256 data ≠ key

/-- Whether or not the store verifies what it reads, a key is counted by what is there. -/
theorem inspectInventoryKey_computes (env : Nat → Oracle) :
    Computes (inspectInventoryKey S env store) (IntegritySummary.tally S store) := by
  intro s key t s' t' h
  obtain ⟨_, t₁, _, h⟩ := bind_ok.mp h
  obtain ⟨_, t₂, _, h⟩ := bind_ok.mp h
  obtain ⟨answer, t₃, hanswer, h⟩ := bind_ok.mp h
  have hread : store.get S (env t₂) key = answer := Except.ok.inj (outside_ok.mp hanswer).1
  have hother : ∀ {e : Error}, answer = .error e → e.is .blobNotFound = false →
      e.is .sha256Mismatch = false → s' = IntegritySummary.tally S store s key := by
    rintro e rfl hfound hmatch
    simp [hfound, hmatch] at h
    cases h
  rcases store.get_cases S (env t₂) key with ⟨_, e, hget, rfl | rfl⟩ | ⟨_, hget⟩ | ⟨_, hget⟩ |
    ⟨_, hget⟩ | ⟨hdata, hget⟩ | ⟨data, hdata, hget | ⟨hlength, hne, hget⟩⟩
  all_goals rw [hget] at hread
  iterate 5 exact hother hread.symm rfl rfl
  all_goals
    cases hread
    unfold IntegritySummary.tally
    rw [hdata]
  · cases h
    rfl
  · obtain ⟨_, _, _, h⟩ := bind_ok.mp h
    by_cases hlength : key.length = sha256Size
    · rw [if_pos hlength] at h
      dsimp only
      rw [if_pos hlength]
      by_cases heq : S.sha256 data = key
      · rw [verifySHA256Key_eq_ok.mpr ⟨hlength, heq⟩] at h
        cases h
        rw [if_pos heq]
      · unfold verifySHA256Key at h
        rw [if_neg (not_not.mpr hlength), if_pos (Ne.symm heq)] at h
        cases h
        rw [if_neg heq]
    · rw [if_neg hlength] at h
      cases h
      dsimp only
      rw [if_neg hlength]
  · dsimp only
    rw [if_pos hlength, if_neg hne]
    dsimp only at h
    rw [if_neg (by decide), if_pos ⟨hlength, rfl⟩] at h
    cases h
    rfl

/-- What the counters gain from `s` to `r` over a list of keys. -/
structure Counted (s r : IntegritySummary) (keys : List Bytes) : Prop where
  keyCount : r.keyCount = s.keyCount + keys.length
  classes : r.contentAddressedKeys + r.opaqueKeys =
    s.contentAddressedKeys + s.opaqueKeys + keys.length
  addressed : r.contentAddressedKeys + s.verifiedKeys + s.corruptKeys =
    s.contentAddressedKeys + r.verifiedKeys + r.corruptKeys +
      keys.countP fun k => k.length = sha256Size ∧ store.data? k = none
  missing : r.missingKeys = s.missingKeys + keys.countP fun k => store.data? k = none
  corrupt : r.corruptKeys = s.corruptKeys + keys.countP (damaged S store)

theorem tally_counted (s : IntegritySummary) (key : Bytes) :
    Counted S store s (s.tally S store key) [key] := by
  unfold IntegritySummary.tally
  cases hdata : store.data? key with
  | none =>
    by_cases hlength : key.length = sha256Size <;> constructor <;>
      simp [hdata, hlength, IntegritySummary.meet, IntegritySummary.missing, damaged] <;> omega
  | some data =>
    by_cases hlength : key.length = sha256Size <;> by_cases heq : S.sha256 data = key <;>
      constructor <;>
      simp [hdata, hlength, heq, IntegritySummary.meet, IntegritySummary.verified,
        IntegritySummary.corrupt, IntegritySummary.opaqueData, damaged] <;> omega

variable {S store}

theorem Counted.append {s r q : IntegritySummary} {rest : List Bytes}
    (h : Counted S store s r keys) (h' : Counted S store r q rest) :
    Counted S store s q (keys ++ rest) := by
  obtain ⟨hcount, hclasses, haddressed, hmissing, hcorrupt⟩ := h
  obtain ⟨hcount', hclasses', haddressed', hmissing', hcorrupt'⟩ := h'
  constructor <;> simp only [List.length_append, List.countP_append] <;> omega

theorem foldl_counted (keys : List Bytes) (s : IntegritySummary) :
    Counted S store s (keys.foldl (IntegritySummary.tally S store) s) keys := by
  induction keys generalizing s with
  | nil => constructor <;> simp
  | cons key rest ih => exact (tally_counted S store s key).append (ih _)

theorem not_damaged_iff {key : Bytes} : damaged S store key = false ∧ store.data? key ≠ none ↔
    ∃ data, store.data? key = some data ∧ (key.length = sha256Size → S.sha256 data = key) := by
  unfold damaged
  cases store.data? key with
  | none => simp
  | some data => simp [imp_iff_not_or]

/-- A scan that succeeds has put every key into one class, by what the store holds; its
counters are the same however the keys were listed. -/
theorem integrity_scan (hsorted : Paging.Sorted compare keys) {lister : InventoryLister}
    (hlists : lister.Lists keys) {env : Nat → Oracle} {fuel t t' : Nat}
    {summary : IntegritySummary}
    (h : inspectInventory S env fuel (some store) (some lister) t = .ok (some summary) t') :
    summary.keyCount = summary.contentAddressedKeys + summary.opaqueKeys ∧
    summary.keyCount = keys.length ∧
    summary.contentAddressedKeys = summary.verifiedKeys + summary.corruptKeys +
      keys.countP (fun k => k.length = sha256Size ∧ store.data? k = none) ∧
    summary.missingKeys = keys.countP (fun k => store.data? k = none) ∧
    (summary.corruptKeys = 0 ∧ summary.missingKeys = 0 ↔ ∀ k ∈ keys, ∃ data,
      store.data? k = some data ∧ (k.length = sha256Size → S.sha256 data = k)) ∧
    ∀ (lister' : InventoryLister) (env' : Nat → Oracle) (fuel' u u' : Nat)
      (summary' : IntegritySummary), lister'.Lists keys →
      inspectInventory S env' fuel' (some store) (some lister') u = .ok (some summary') u' →
        summary' = summary := by
  have hresult := scanInventory_ok hsorted hlists (inspectInventoryKey_computes S store env) h
  have hcounted : Counted S store .zero summary keys := hresult ▸ foldl_counted keys .zero
  obtain ⟨hcount, hclasses, haddressed, hmissing, hcorrupt⟩ := hcounted
  simp only [IntegritySummary.zero, Nat.zero_add, Nat.add_zero] at hcount hclasses haddressed
  simp only [IntegritySummary.zero, Nat.zero_add] at hmissing hcorrupt
  refine ⟨by omega, hcount, haddressed, hmissing, ?_, ?_⟩
  · rw [hcorrupt, hmissing, List.countP_eq_zero, List.countP_eq_zero, ← forall₂_and]
    refine forall₂_congr fun k _ => ?_
    rw [← not_damaged_iff]
    simp
  · intro lister' env' fuel' u u' summary' hlists' h'
    rw [hresult]
    exact scanInventory_ok hsorted hlists' (inspectInventoryKey_computes S store env') h'

end Integrity

namespace Sample

/-- An opaque key that is missing, and the blob of the store. -/
def listed : List Bytes := [[1], Replication.Sample.blobKey]

def reversed : InventoryLister := .plain fun _ => .ok listed.reverse

end Sample

theorem integrity_scan_missing :
    value? (inspectInventory Lifecycle.goStdlib (fun _ => Oracle.none) 0
      (some Replication.Sample.oneBlob) (some Sample.reversed) 0) =
        some (some ⟨2, 33, 1, 1, 4, 1, 0, 0, 1⟩) ∧
    ¬ ∀ k ∈ Sample.listed, ∃ data, Replication.Sample.oneBlob.data? k = some data ∧
      (k.length = sha256Size → Lifecycle.goStdlib.sha256 data = k) := by
  have hrun : value? (inspectInventory Lifecycle.goStdlib (fun _ => Oracle.none) 0
      (some Replication.Sample.oneBlob) (some Sample.reversed) 0) =
        some (some ⟨2, 33, 1, 1, 4, 1, 0, 0, 1⟩) := by decide +kernel
  have hsorted : Paging.Sorted compare Sample.listed := by
    unfold Paging.Sorted
    decide +kernel
  have hlists : Sample.reversed.Lists Sample.listed := by
    rintro t listed hlisted
    cases hlisted
    exact List.reverse_perm _
  have hscan := integrity_scan hsorted hlists (ok_of_value? hrun)
  refine ⟨hrun, fun hall => ?_⟩
  exact absurd (hscan.2.2.2.2.1.mpr hall).2 (by decide)

end StreamHive.Storage

import StreamHive.Replication.Exchange

/-!
# Walking the whole inventory

Exchanges are repeated, each from the cursor that the one before returned.  A
plain lister, or a byte budget that never ends between two pages, gives the
expected walk: every exchange advances, and together they advertise the sorted
key set once.  When the byte budget ends between two pages, the exchange
returns the empty cursor of the page that it did not start, and the walk begins
again.  A batch size near the largest `int` makes the end of a slice overflow.

## Main results

* `sendPages_run`, `sendInventoryExchange_run` — what one exchange does;
* `exchange_within_budget` — one exchange stays within its budgets and advertises
  something unless nothing is left, exactly if no slice of it overflows;
* `exchanges_cover_inventory` — the walk covers the inventory exactly if no
  exchange of it overflows or is interrupted between two pages.
-/

namespace StreamHive.Replication

open Verified ByteString Effect Paging
open StreamHive.Lifecycle (Error Oracle Faults Call orDefault orDefault_pos ctxErr syscall
  maxInt64)

variable {sentKeys : Nat}

/-! ## One page of the store -/

/-- The keys behind a cursor, in order. -/
abbrev Lister.above (lister : Lister) (cursor : Bytes) : List Bytes :=
  Paging.above compare cursor (sortKeys lister.keys)

/-- The next page of the keys that remain. -/
def nextPage (cfg : Config) (rest : List Bytes) (sentKeys : Nat) : List Bytes :=
  rest.take (pageLimit cfg sentKeys).toNat

theorem compare_nil_lt {k : Bytes} (h : k ≠ []) : compare ([] : Bytes) k = .lt := by
  cases k with
  | nil => exact absurd rfl h
  | cons b k => rfl

theorem compare_nil_ne_lt (k : Bytes) : compare k ([] : Bytes) ≠ .lt := by
  cases k with
  | nil => decide
  | cons b k =>
    intro h
    cases h

section Lister

variable {cfg : Config} {lister : Lister}

theorem Lister.sorted (lister : Lister) : Sorted compare (sortKeys lister.keys) :=
  sort_sorted lister.nodup

theorem Lister.mem_sortKeys {k : Bytes} : k ∈ sortKeys lister.keys ↔ k ∈ lister.keys :=
  (sort_perm lister.keys).mem_iff

theorem Lister.above_subset (cursor : Bytes) : lister.above cursor ⊆ lister.keys := by
  intro k hk
  exact Lister.mem_sortKeys.mp (List.mem_filter.mp hk).1

theorem Lister.above_nil (h : Advertisable cfg lister.keys) :
    lister.above [] = sortKeys lister.keys := by
  apply above_eq_self
  intro k hk
  exact compare_nil_lt (h.ne_nil (Lister.mem_sortKeys.mp hk))

/-- The ascending scan from the cursor on, without the cursor itself. -/
theorem scan_eq_above (h : Advertisable cfg lister.keys) (after : Bytes) :
    ((sortKeys lister.keys).filter fun k => (compare after k).isLE).filter
      (fun k => after = [] ∨ k ≠ after) = lister.above after := by
  refine filter_scan ?_ ?_
  · intro k _ hlt
    refine .inr ?_
    intro heq
    have hself : compare after after = .eq := Std.ReflCmp.compare_self
    rw [heq, hself] at hlt
    cases hlt
  · intro k hk hcmp
    have hne : k ≠ [] := h.ne_nil (Lister.mem_sortKeys.mp hk)
    have heq : after = k := Std.LawfulEqCmp.eq_of_compare hcmp
    simp [heq, hne]

theorem listKeyPage_run {σ : Type} (h : Advertisable cfg lister.keys) (after : Bytes)
    (hlimit : 0 < pageLimit cfg sentKeys) (s : σ) :
    lister.listKeyPage Oracle.none after (pageLimit cfg sentKeys) s =
      .ok (nextPage cfg (lister.above after) sentKeys,
        lastOr [] (nextPage cfg (lister.above after) sentKeys)) s := by
  have hnormal : normalizeKeyPageLimit (pageLimit cfg sentKeys) = pageLimit cfg sentKeys := by
    unfold normalizeKeyPageLimit
    rw [if_neg (by omega)]
  unfold Lister.listKeyPage
  rw [run_bind_ok (show syscall Oracle.none Call.listKeys s = .ok () s from rfl),
    scan_eq_above h after, hnormal]
  rfl

theorem pageLimit_bounds (h : ¬KeysSpent cfg sentKeys) :
    0 < pageLimit cfg sentKeys ∧
      pageLimit cfg sentKeys ≤ inventoryBatchSize cfg.limits ∧
      (0 < cfg.budget.maxKeys → pageLimit cfg sentKeys ≤ cfg.budget.maxKeys - sentKeys) := by
  have hbatch := inventoryBatchSize_pos cfg.limits
  unfold KeysSpent at h
  have hsize : 0 < pageSize cfg ∧ pageSize cfg ≤ inventoryBatchSize cfg.limits := by
    unfold pageSize
    simp only
    split <;> split <;> omega
  unfold pageLimit
  split <;> omega

theorem isPage_nextPage (h : ¬KeysSpent cfg sentKeys) (rest : List Bytes) (sentBytes : Nat) :
    IsPage cfg ⟨0, nextPage cfg rest sentKeys, sentKeys, sentBytes⟩ := by
  obtain ⟨_, hbatch, hkeys⟩ := pageLimit_bounds h
  have hlength : (nextPage cfg rest sentKeys).length =
      min (pageLimit cfg sentKeys).toNat rest.length := List.length_take
  constructor
  · simp only [hlength]
    omega
  · intro hmax
    have := hkeys hmax
    simp only [hlength]
    omega

theorem nextPage_ne_nil (h : ¬KeysSpent cfg sentKeys) {rest : List Bytes} (hrest : rest ≠ []) :
    nextPage cfg rest sentKeys ≠ [] := by
  have hpos := (pageLimit_bounds h).1
  have hlength : 0 < rest.length := List.length_pos_iff.mpr hrest
  apply List.length_pos_iff.mp
  unfold nextPage
  rw [List.length_take]
  omega

theorem nextPage_take_one (h : ¬KeysSpent cfg sentKeys) (rest : List Bytes) :
    (nextPage cfg rest sentKeys).take 1 = rest.take 1 := by
  have hpos := (pageLimit_bounds h).1
  unfold nextPage
  rw [List.take_take, Nat.min_eq_left (by omega)]

theorem nextPage_append (cfg : Config) (sentKeys : Nat) (rest : List Bytes) :
    rest = nextPage cfg rest sentKeys ++ rest.drop (nextPage cfg rest sentKeys).length := by
  unfold nextPage
  rw [List.length_take]
  by_cases hle : (pageLimit cfg sentKeys).toNat ≤ rest.length
  · rw [Nat.min_eq_left hle, List.take_append_drop]
  · rw [Nat.min_eq_right (by omega), List.take_of_length_le (by omega), List.drop_length,
      List.append_nil]

end Lister

/-! ## One exchange -/

/-- The next page, as the middle loop gets it. -/
def Position.page (s : Position) (cfg : Config) : Position :=
  ⟨0, nextPage cfg s.rest s.sentKeys, s.sentKeys, s.sentBytes⟩

/-- Behind a page that was sent in full. -/
def Position.behindPage (s : Position) (cfg : Config) : Position :=
  ⟨0, s.rest.drop (s.page cfg).rest.length, s.sentKeys + (s.page cfg).rest.length,
    s.sentBytes + pageLength cfg (s.page cfg).rest⟩

/-- The outer loop comes to a page with the property: the pages before it were sent in
full, the key budget is not used up, and keys remain. -/
inductive Reaches (cfg : Config) (P : Position → Prop) : Position → Prop
  | here {s : Position} (hrest : s.rest ≠ []) (hkeys : ¬KeysSpent cfg s.sentKeys) (h : P s) :
      Reaches cfg P s
  | later {s : Position} (hrest : s.rest ≠ []) (hkeys : ¬KeysSpent cfg s.sentKeys)
      (hfits : PageFits cfg (s.page cfg)) (hnext : Reaches cfg P (s.behindPage cfg)) :
      Reaches cfg P s

/-- Something was sent, and the bytes left have no room for the frame of the next key. -/
def StopsAt (cfg : Config) (s : Position) : Prop :=
  0 < s.sentKeys ∧ OverBudget cfg s.sentBytes (hasLength (s.rest.take 1))

def PageOverflows (cfg : Config) (s : Position) : Prop := Overflows cfg (s.page cfg)

/-- What an exchange does with the keys behind its cursor. -/
structure Exchanged (cfg : Config) (interrupted : Prop) (rest : List Bytes) (after : Bytes)
    (sentKeys : Nat) (frames : List (List Bytes)) (cursor : Bytes) (complete : Bool) : Prop where
  advertised : ∃ left, rest = frames.flatten ++ left ∧ (complete = true → left = [])
  stopped : interrupted → complete = false ∧ cursor = []
  advanced : ¬interrupted → cursor = lastOr after frames.flatten
  sends_some : complete = false → sentKeys = 0 → frames.flatten ≠ []
  fits : ∀ frame ∈ frames, frame ≠ [] ∧
    (frame.length : Int) ≤ inventoryBatchSize cfg.limits ∧
      (hasLength frame : Int) ≤ cfg.maxPayload
  unlimited : cfg.budget.maxKeys ≤ 0 → cfg.budget.maxBytes ≤ 0 → complete = true

theorem lastOr_eq_of_ne_nil {keys : List Bytes} (h : keys ≠ []) (a b : Bytes) :
    lastOr a keys = lastOr b keys := by
  have ha := getLast?_eq_lastOr h a
  rw [getLast?_eq_lastOr h b] at ha
  exact (Option.some.inj ha).symm

section Pages

variable {cfg : Config}

variable {P : Position → Prop} {s : Position}

theorem Reaches.rest_ne_nil (h : Reaches cfg P s) : s.rest ≠ [] := by
  cases h with
  | here hrest | later hrest => exact hrest

theorem Reaches.not_spent (h : Reaches cfg P s) : ¬KeysSpent cfg s.sentKeys := by
  cases h with
  | here _ hkeys | later _ hkeys => exact hkeys

theorem reaches_complete (hrest : s.rest ≠ []) (hkeys : ¬KeysSpent cfg s.sentKeys)
    (hfits : PageFits cfg (s.page cfg)) (hnot : ¬P s) :
    Reaches cfg P s ↔ Reaches cfg P (s.behindPage cfg) := by
  refine ⟨fun h => ?_, .later hrest hkeys hfits⟩
  cases h with
  | here _ _ h => exact absurd h hnot
  | later _ _ _ hnext => exact hnext

theorem reaches_incomplete (hrest : s.rest ≠ []) (hkeys : ¬KeysSpent cfg s.sentKeys)
    (hfits : ¬PageFits cfg (s.page cfg)) : Reaches cfg P s ↔ P s := by
  refine ⟨fun h => ?_, .here hrest hkeys⟩
  cases h with
  | here _ _ h => exact h
  | later _ _ hc _ => exact absurd hc hfits

/-- A page is cut off exactly if nothing of it is sent. -/
theorem stopsAt_iff (hrest : s.rest ≠ []) (hkeys : ¬KeysSpent cfg s.sentKeys)
    {frames : List (List Bytes)} {left : List Bytes}
    (hsends : Sends cfg (s.page cfg) frames left) : StopsAt cfg s ↔ frames = [] := by
  rw [hsends.nothing_iff (isPage_nextPage hkeys _ _) (nextPage_ne_nil hkeys hrest)]
  unfold StopsAt Position.page
  rw [nextPage_take_one hkeys]

variable {A B : Prop} {frames more : List (List Bytes)} {left : List Bytes} {after cursor : Bytes}
  {complete : Bool} {n : Nat}

/-- No key remains. -/
theorem Exchanged.finished (hnot : ¬A) : Exchanged cfg A [] after n [] after true where
  advertised := ⟨[], rfl, fun _ => rfl⟩
  stopped := fun hs => absurd hs hnot
  advanced := fun _ => rfl
  sends_some := by simp
  fits := by simp
  unlimited := fun _ _ => rfl

variable (hadv : Advertisable cfg (s.page cfg).rest) (hne : (s.page cfg).rest ≠ [])
include hadv hne

/-- A page is sent in full, and the exchange goes on behind it. -/
theorem Exchanged.page (hsends : Sends cfg (s.page cfg) frames []) (hiff : A ↔ B)
    (h : Exchanged cfg B (s.behindPage cfg).rest (lastOr after (s.page cfg).rest) n more cursor
      complete) : Exchanged cfg A s.rest after s.sentKeys (frames ++ more) cursor complete := by
  have hpage : (s.page cfg).rest = frames.flatten := by simpa using hsends.eq_append
  obtain ⟨rest, hrests, hdone⟩ := h.advertised
  exact {
    advertised := by
      refine ⟨rest, ?_, hdone⟩
      rw [List.flatten_append, ← hpage, List.append_assoc, ← hrests]
      exact nextPage_append cfg s.sentKeys s.rest
    stopped := fun hs => h.stopped (hiff.mp hs)
    advanced := by
      intro hs
      rw [h.advanced fun hc => hs (hiff.mpr hc), List.flatten_append, ← hpage, lastOr_append]
    sends_some := by
      intro _ _ hnil
      rw [List.flatten_append, ← hpage] at hnil
      exact hne (List.append_eq_nil_iff.mp hnil).1
    fits := List.forall_mem_append.mpr ⟨hsends.frame_fits hadv, h.fits⟩
    unlimited := h.unlimited }

/-- A page is sent in part, and its cursor is returned. -/
theorem Exchanged.part (hsends : Sends cfg (s.page cfg) frames left) (hleft : left ≠ [])
    (hiff : A ↔ frames = []) :
    Exchanged cfg A s.rest after s.sentKeys frames (lastOr [] frames.flatten) false where
  advertised := by
    refine ⟨left ++ (s.behindPage cfg).rest, ?_, by simp⟩
    rw [← List.append_assoc, ← hsends.eq_append]
    exact nextPage_append cfg s.sentKeys s.rest
  stopped := by
    intro hs
    rw [hiff.mp hs]
    exact ⟨rfl, rfl⟩
  advanced := by
    intro hs
    apply lastOr_eq_of_ne_nil
    intro hnil
    obtain ⟨frame, hframe⟩ := List.exists_mem_of_ne_nil frames fun hc => hs (hiff.mpr hc)
    exact (hsends.frame_fits hadv frame hframe).1 (List.flatten_eq_nil_iff.mp hnil frame hframe)
  sends_some := fun _ hzero => hsends.sends_some hzero hne
  fits := hsends.frame_fits hadv
  unlimited := fun hk hb => absurd (hsends.unlimited hk hb) hleft

end Pages

section Exchange

variable {cfg : Config} {lister : Lister}

/-- One iteration of the outer loop with keys to send. -/
theorem sendPages_page (h : Advertisable cfg lister.keys) {cursor : Bytes}
    (hrest : lister.above cursor ≠ []) (hkeys : ¬KeysSpent cfg sentKeys)
    (fuel page sentBytes : Nat) (out : List Bytes) :
    sendPages Faults.none cfg lister (fuel + 1) page cursor sentKeys sentBytes out =
      (do
        let sent ← sendBlobHasKeysBudget Faults.none cfg page
          (nextPage cfg (lister.above cursor) sentKeys) sentKeys sentBytes
        if sent.complete then
          sendPages Faults.none cfg lister fuel (page + 1)
            (lastOr cursor (nextPage cfg (lister.above cursor) sentKeys))
            sent.sentKeys sent.sentBytes
        else
          pure (sent.cursor, false)) out := by
  have hne := nextPage_ne_nil hkeys hrest
  have hmem : lastOr [] (nextPage cfg (lister.above cursor) sentKeys) ∈ lister.above cursor :=
    List.take_subset _ _ (lastOr_mem hne)
  have hlast : ¬(lastOr [] (nextPage cfg (lister.above cursor) sentKeys) = [] ∨
      (nextPage cfg (lister.above cursor) sentKeys).getLast? ≠
        some (lastOr [] (nextPage cfg (lister.above cursor) sentKeys))) := by
    intro hc
    rcases hc with hc | hc
    · exact h.ne_nil (Lister.above_subset cursor hmem) hc
    · exact hc (getLast?_eq_lastOr hne [])
  have hadvances : ¬(cursor ≠ [] ∧
      compare (lastOr [] (nextPage cfg (lister.above cursor) sentKeys)) cursor ≠ .gt) := by
    intro ⟨_, hc⟩
    exact hc (Std.OrientedCmp.gt_iff_lt.mpr (lt_of_mem_above hmem))
  rw [lastOr_eq_of_ne_nil hne cursor [], sendPages,
    run_bind_ok (show ctxErr (Faults.none (.page page)) 0 out = .ok () out from rfl),
    if_neg hkeys,
    run_bind_ok (show lister.listKeyPage (Faults.none (.page page)) cursor _ out = _ from
      listKeyPage_run h cursor (pageLimit_bounds hkeys).1 out)]
  simp only
  rw [if_neg hne, run_bind_ok (run_raiseIf hlast), run_bind_ok (run_raiseIf hadvances)]

theorem not_reaches_stopsAt (h : cfg.budget.maxBytes ≤ 0) (s : Position) :
    ¬Reaches cfg (StopsAt cfg) s := by
  intro hs
  induction hs with
  | here _ _ hstops => exact absurd hstops.2.1 (by omega)
  | later _ _ _ _ ih => exact ih

theorem Lister.length_above_le (lister : Lister) (cursor : Bytes) :
    (lister.above cursor).length ≤ lister.keys.length := by
  rw [← (sort_perm lister.keys).length_eq]
  exact List.length_filter_le _ _

/-- The outer loop. -/
theorem sendPages_run (h : Advertisable cfg lister.keys) (hint : IntSized cfg lister.keys.length)
    {fuel : Nat} (cursor : Bytes) (hfuel : (lister.above cursor).length < fuel)
    (page sentKeys sentBytes : Nat) (out : List Bytes) :
    let s : Position := ⟨0, lister.above cursor, sentKeys, sentBytes⟩
    (Reaches cfg (PageOverflows cfg) s ∧ ∃ e out',
      sendPages Faults.none cfg lister fuel page cursor sentKeys sentBytes out = .error e out') ∨
    ¬Reaches cfg (PageOverflows cfg) s ∧ ∃ frames cursor' complete,
      sendPages Faults.none cfg lister fuel page cursor sentKeys sentBytes out =
        .ok (cursor', complete) (out ++ frames.map hasPayload) ∧
      Exchanged cfg (Reaches cfg (StopsAt cfg) s) s.rest cursor sentKeys frames cursor' complete ∧
      WithinBudget cfg sentKeys sentBytes frames := by
  induction fuel generalizing cursor page sentKeys sentBytes out with
  | zero => omega
  | succ fuel ih =>
    intro s
    have hadv : Advertisable cfg s.rest := h.sublist (Lister.above_subset cursor)
    by_cases hkeys : KeysSpent cfg sentKeys
    · -- the key budget is used up
      refine .inr ⟨fun hc => hc.not_spent hkeys, [], cursor, false, ?_, ?_, .nil cfg _ _⟩
      · unfold sendPages
        rw [run_bind_ok (show ctxErr (Faults.none (.page page)) 0 out = .ok () out from rfl),
          if_pos hkeys]
        simp [pure, EStateM.pure]
      exact {
        advertised := ⟨s.rest, rfl, by simp⟩
        stopped := fun hs => absurd hkeys hs.not_spent
        advanced := fun _ => rfl
        sends_some := by
          intro _ hzero
          unfold KeysSpent at hkeys
          omega
        fits := by simp
        unlimited := by
          intro hmax _
          unfold KeysSpent at hkeys
          omega }
    by_cases hrest : s.rest = []
    · -- no key remains
      have hpage : nextPage cfg (lister.above cursor) sentKeys = [] := by
        rw [show lister.above cursor = [] from hrest]
        exact List.take_nil
      refine .inr ⟨fun hc => hc.rest_ne_nil hrest, [], cursor, true, ?_, ?_, .nil cfg _ _⟩
      · unfold sendPages
        rw [run_bind_ok (show ctxErr (Faults.none (.page page)) 0 out = .ok () out from rfl),
          if_neg hkeys,
          run_bind_ok (show lister.listKeyPage (Faults.none (.page page)) cursor _ out = _ from
            listKeyPage_run h cursor (pageLimit_bounds hkeys).1 out)]
        simp only
        rw [if_pos hpage]
        simp [pure, EStateM.pure]
      rw [hrest]
      exact .finished fun hs => hs.rest_ne_nil hrest
    -- a page is advertised, in full or in part
    have hpageAdv : Advertisable cfg (s.page cfg).rest := hadv.sublist (List.take_subset _ _)
    have hne : (s.page cfg).rest ≠ [] := nextPage_ne_nil hkeys hrest
    have happend : s.rest = (s.page cfg).rest ++ (s.behindPage cfg).rest :=
      nextPage_append cfg sentKeys s.rest
    have hsizes := congrArg List.length happend
    rw [List.length_append] at hsizes
    change s.rest.length < fuel + 1 at hfuel
    have hpageInt : IntSized cfg ((s.page cfg).start + (s.page cfg).rest.length) := by
      have hall : s.rest.length ≤ lister.keys.length := lister.length_above_le cursor
      have hlength := hint.length
      refine ⟨hint.maxKeys, ?_⟩
      show ((0 + (s.page cfg).rest.length : Nat) : Int) ≤ maxInt64
      omega
    rw [sendPages_page h hrest hkeys]
    rcases sendKeys_run hpageAdv hpageInt (Nat.lt_succ_self _) page [] out with
      ⟨hover, e, out', hrun⟩ | ⟨hover, frames, left, hsends, hrun⟩
    · exact .inl ⟨.here hrest hkeys hover, e, out',
        run_bind_error (show sendBlobHasKeysBudget _ _ _ _ _ _ out = _ from hrun)⟩
    have hsplit := hsends.eq_append
    have hcomplete := hsends.complete_iff hpageAdv (isPage_nextPage hkeys _ _)
    have hstops := stopsAt_iff hrest hkeys hsends
    by_cases hleft : left = []
    · -- in full: the next page follows
      subst hleft
      rw [List.append_nil] at hsplit
      have hfits := hcomplete.1.mp rfl
      have hbehind : lister.above (lastOr cursor (s.page cfg).rest) = (s.behindPage cfg).rest :=
        above_lastOr lister.sorted happend
      have hpos := List.length_pos_iff.mpr hne
      have hsome : frames ≠ [] := by
        rintro rfl
        exact hne hsplit
      have hnext := ih (lastOr cursor (s.page cfg).rest) (by rw [hbehind]; omega) (page + 1)
        (sentKeys + (s.page cfg).rest.length) (sentBytes + pageLength cfg (s.page cfg).rest)
        (out ++ frames.map hasPayload)
      rw [hbehind] at hnext
      have hoverIff := reaches_complete (P := PageOverflows cfg) hrest hkeys hfits hover
      have hiff := reaches_complete (P := StopsAt cfg) hrest hkeys hfits fun hc =>
        hsome (hstops.mp hc)
      rw [← hsplit, hcomplete.2 rfl] at hrun
      rw [run_bind_ok (show sendBlobHasKeysBudget Faults.none cfg page
        (nextPage cfg (lister.above cursor) sentKeys) sentKeys sentBytes out = _ from hrun)]
      simp only [decide_true, if_true]
      rcases hnext with ⟨hover', hfails⟩ |
        ⟨hover', more, cursor', complete, hmore, hexchanged, hbudget⟩
      · exact .inl ⟨hoverIff.mpr hover', hfails⟩
      refine .inr ⟨fun hc => hover' (hoverIff.mp hc), frames ++ more, cursor', complete, ?_, ?_, ?_⟩
      · rw [List.map_append, ← List.append_assoc]
        exact hmore
      · exact .page hpageAdv hne hsends hiff hexchanged
      · refine (hsends.withinBudget hpageAdv).append (by rw [← hsplit]; exact hpos) ?_
        rw [← hsplit, hcomplete.2 rfl]
        exact hbudget
    · -- in part: the cursor of the page is returned
      have hfits : ¬PageFits cfg (s.page cfg) := fun hc => hleft (hcomplete.1.mpr hc)
      have hiff := (reaches_incomplete hrest hkeys hfits).trans hstops
      refine .inr ⟨fun hc => hover ((reaches_incomplete hrest hkeys hfits).mp hc), frames,
        lastOr [] frames.flatten, false, ?_, ?_, hsends.withinBudget hpageAdv⟩
      · rw [run_bind_ok (show sendBlobHasKeysBudget Faults.none cfg page
          (nextPage cfg (lister.above cursor) sentKeys) sentKeys sentBytes out = _ from hrun)]
        simp [hleft, pure, EStateM.pure]
      exact .part hpageAdv hne hsends hleft hiff

/-- Where an exchange starts. -/
abbrev Lister.behind (lister : Lister) (after : Bytes) : Position :=
  ⟨0, lister.above after, 0, 0⟩

/-- The exchange is cut off between two pages of its store. -/
def Interrupted (cfg : Config) (lister : Lister) (after : Bytes) : Prop :=
  lister.paged = true ∧ Reaches cfg (StopsAt cfg) (lister.behind after)

/-- Without a byte budget no exchange is interrupted. -/
theorem not_interrupted (h : cfg.budget.maxBytes ≤ 0) (after : Bytes) :
    ¬Interrupted cfg lister after := fun hc => not_reaches_stopsAt h _ hc.2

/-- The exchange comes to a slice that is out of bounds. -/
def Overflowing (cfg : Config) (lister : Lister) (after : Bytes) : Prop :=
  if lister.paged = true then Reaches cfg (PageOverflows cfg) (lister.behind after)
  else Overflows cfg (lister.behind after)

/-- The binary search of a plain lister finds the keys behind the cursor. -/
theorem search_eq_above (h : Advertisable cfg lister.keys) (after : Bytes) :
    (sortKeys lister.keys).dropWhile (fun k => ¬(after = [] ∨ compare k after = .gt)) =
      lister.above after := by
  by_cases hnil : after = []
  · subst hnil
    rw [Lister.above_nil h]
    cases sortKeys lister.keys <;> simp
  · refine Eq.trans ?_ (dropWhile_eq_above lister.sorted)
    congr 1
    funext k
    simp [hnil, Std.OrientedCmp.gt_iff_lt]

theorem sendInventoryExchange_run (h : Advertisable cfg lister.keys)
    (hint : IntSized cfg lister.keys.length) (after : Bytes) (out : List Bytes) :
    (Overflowing cfg lister after ∧
      ∃ e out', sendInventoryExchange Faults.none cfg lister after out = .error e out') ∨
    ¬Overflowing cfg lister after ∧ ∃ frames cursor complete,
      sendInventoryExchange Faults.none cfg lister after out =
        .ok (cursor, complete) (out ++ frames.map hasPayload) ∧
      Exchanged cfg (Interrupted cfg lister after) (lister.above after) after 0 frames cursor
        complete ∧ WithinBudget cfg 0 0 frames := by
  have hlength := lister.length_above_le after
  unfold Overflowing sendInventoryExchange
  by_cases hpaged : lister.paged = true
  · have hiff : Interrupted cfg lister after ↔ Reaches cfg (StopsAt cfg) (lister.behind after) := by
      simp [Interrupted, hpaged]
    unfold sendPagedBlobHasBudget
    rw [if_pos hpaged, if_pos hpaged, hiff]
    exact sendPages_run h hint after (Nat.lt_succ_of_le hlength) 0 0 0 out
  · have hwhole : ¬Interrupted cfg lister after := fun hc => hpaged hc.1
    rw [if_neg hpaged, if_neg hpaged,
      run_bind_ok (show syscall (Faults.none .load) Call.listKeys out = .ok () out from rfl),
      search_eq_above h after]
    by_cases hrest : lister.above after = []
    · rw [if_pos hrest]
      refine .inr ⟨fun hc => hc.rest_ne_nil hrest, [], after, true, by simp [pure, EStateM.pure],
        ?_, .nil cfg _ _⟩
      rw [hrest]
      exact .finished hwhole
    rw [if_neg hrest]
    have hadv : Advertisable cfg (lister.behind after).rest :=
      h.sublist (Lister.above_subset after)
    have hsize : IntSized cfg (0 + (lister.above after).length) := by
      have := hint.length
      exact ⟨hint.maxKeys, by omega⟩
    rcases sendKeys_run hadv hsize (Nat.lt_succ_self _) 0 [] out with
      ⟨hover, e, out', hrun⟩ | ⟨hover, frames, left, hsends, hrun⟩
    · exact .inl ⟨hover, e, out',
        run_bind_error (show sendBlobHasKeysBudget _ _ _ _ _ _ out = _ from hrun)⟩
    refine .inr ⟨hover, frames, lastOr [] frames.flatten, decide (left = []), ?_, ?_,
      hsends.withinBudget hadv⟩
    · rw [run_bind_ok (show sendBlobHasKeysBudget _ _ _ _ _ _ out = _ from hrun)]
      rfl
    exact {
      advertised := ⟨left, hsends.eq_append, by simp⟩
      stopped := fun hs => absurd hs hwhole
      advanced := fun _ => lastOr_eq_of_ne_nil (hsends.sends_some rfl hrest) _ _
      sends_some := fun _ _ => hsends.sends_some rfl hrest
      fits := hsends.frame_fits hadv
      unlimited := fun hk hb => by simp [hsends.unlimited hk hb] }

/-- No exchange overflows if the number of keys and the batch size together are within
`int`. -/
theorem not_overflowing
    (h : lister.keys.length + inventoryBatchSize cfg.limits ≤ maxInt64) (after : Bytes) :
    ¬Overflowing cfg lister after := by
  have hlength := lister.length_above_le after
  unfold Overflowing
  split
  · suffices hpages : ∀ s, Reaches cfg (PageOverflows cfg) s →
        ¬s.rest.length ≤ lister.keys.length from fun hc => hpages _ hc hlength
    intro s hs hle
    induction hs with
    | @here s _ _ hover =>
      have : (s.page cfg).rest.length ≤ s.rest.length := List.length_take_le' _ _
      refine not_overflows ?_ hover
      show ((0 : Nat) : Int) + (s.page cfg).rest.length + _ ≤ _
      omega
    | later _ _ _ _ ih => exact ih ((List.drop_sublist _ _).length_le.trans hle)
  · refine not_overflows ?_
    show ((0 : Nat) : Int) + (lister.above after).length + _ ≤ _
    omega

/-- One exchange over a fixed key set.  Every frame can be sent; the advertised keys
are the first ones behind the cursor, in order; a budget that is set bounds them, up to
the one frame of one key that may pass the byte budget; an exchange that is not complete
has advertised something, and a complete one everything.  That is so exactly if the end
of no slice overflows. -/
theorem exchange_within_budget (cfg : Config) (lister : Lister)
    (h : Advertisable cfg lister.keys) (hint : IntSized cfg lister.keys.length)
    (after : Bytes) (out : List Bytes) :
    (∃ frames cursor complete,
      sendInventoryExchange Faults.none cfg lister after out =
        .ok (cursor, complete) (out ++ frames.map hasPayload) ∧
      (∀ frame ∈ frames, 1 ≤ frame.length ∧
        (frame.length : Int) ≤ (normalizeLimits cfg.limits).maxKeys ∧
        ((hasPayload frame).length : Int) ≤ cfg.maxPayload) ∧
      frames.flatten <+: (sortKeys lister.keys).filter (fun k => compare after k = .lt) ∧
      Sorted compare frames.flatten ∧
      (0 < cfg.budget.maxKeys → (frames.flatten.length : Int) ≤ cfg.budget.maxKeys) ∧
      (0 < cfg.budget.maxBytes →
        ((frames.map fun frame => (hasPayload frame).length).sum : Int) ≤ cfg.budget.maxBytes ∨
          ∃ key, frames = [[key]]) ∧
      (complete = false → frames.flatten ≠ []) ∧
      (complete = true →
        frames.flatten = (sortKeys lister.keys).filter (fun k => compare after k = .lt))) ↔
    ¬Overflowing cfg lister after := by
  rcases sendInventoryExchange_run h hint after out with
    ⟨hover, e, out', hfails⟩ | ⟨hover, frames, cursor, complete, hrun, hexchanged, hbudget⟩
  · refine ⟨?_, fun hc => absurd hover hc⟩
    rintro ⟨frames, cursor, complete, hrun, _⟩
    rw [hfails] at hrun
    cases hrun
  refine ⟨fun _ => hover, fun _ => ?_⟩
  obtain ⟨left, hleft, hcomplete⟩ := hexchanged.advertised
  have hsorted : Sorted compare (lister.above after) := lister.sorted.filter _
  refine ⟨frames, cursor, complete, hrun, ?_, ⟨left, hleft.symm⟩, ?_, ?_, ?_, ?_, ?_⟩
  · intro frame hframe
    obtain ⟨hne, hbatch, hfits⟩ := hexchanged.fits frame hframe
    rw [inventoryBatchSize_eq] at hbatch
    exact ⟨List.length_pos_iff.mpr hne, hbatch, hfits⟩
  · rw [hleft] at hsorted
    exact (List.pairwise_append.mp hsorted).1
  · intro hpos
    have hkeys := hbudget.keys hpos (by omega)
    omega
  · intro hpos
    refine (hbudget.bytes hpos (by omega)).imp (fun hbytes => ?_) And.right
    rw [Nat.zero_add] at hbytes
    exact hbytes
  · exact fun hc => hexchanged.sends_some hc rfl
  · intro hc
    rw [hcomplete hc, List.append_nil] at hleft
    exact hleft.symm

end Exchange

/-! ## The walk -/

/-- One exchange of a walk: the cursor it was given, the payloads it sent and what
it returned. -/
structure ExchangeCall where
  after : Bytes
  sent : List Bytes
  cursor : Bytes
  complete : Bool
  error : Option Error

def exchangeCall (cfg : Config) (lister : Lister) (after : Bytes) : ExchangeCall :=
  match sendInventoryExchange Faults.none cfg lister after [] with
  | .error e sent => ⟨after, sent, [], false, some e⟩
  | .ok (cursor, complete) sent => ⟨after, sent, cursor, complete, none⟩

/-- Repeat the exchange from the cursor that it returned, until it is complete or fails,
at most `n` times. -/
def exchanges (cfg : Config) (lister : Lister) : Nat → Bytes → List ExchangeCall
  | 0, _ => []
  | n + 1, after =>
    let call := exchangeCall cfg lister after
    call :: if call.complete ∨ call.error.isSome then [] else exchanges cfg lister n call.cursor

/-- The keys that a receiver with the same limits reads from a payload. -/
def advertisedKeys (C : Codec) (limits : Limits) (payload : Bytes) : List Bytes :=
  match decode C payload limits with
  | .ok m => m.keys
  | .error _ => []

/-- The keys that an exchange advertised. -/
def ExchangeCall.advertised (C : Codec) (cfg : Config) (call : ExchangeCall) : List Bytes :=
  call.sent.flatMap (advertisedKeys C cfg.limits)

/-- The walk covers the inventory: no exchange fails; an incomplete one returns the last
key that it advertised, which is above the cursor it was given; the last exchange is
complete; and together they advertise the sorted keys. -/
structure CoversInventory (C : Codec) (cfg : Config) (sorted : List Bytes)
    (calls : List ExchangeCall) : Prop where
  succeeds : ∀ call ∈ calls, call.error = none
  advances : ∀ call ∈ calls, call.complete = false →
    (call.advertised C cfg).getLast? = some call.cursor ∧
      compare call.after call.cursor = .lt
  finishes : ∃ call, calls.getLast? = some call ∧ call.complete = true
  advertises : calls.flatMap (ExchangeCall.advertised C cfg) = sorted

section Walk

variable {C : Codec} {cfg : Config} {lister : Lister}

theorem advertisedKeys_hasPayload (hC : C.Lawful) {frame : List Bytes}
    (hadv : Advertisable cfg frame) (hne : frame ≠ [])
    (hbatch : (frame.length : Int) ≤ inventoryBatchSize cfg.limits) :
    advertisedKeys C cfg.limits (hasPayload frame) = frame := by
  obtain ⟨hvalid, _⟩ := encodeKeyListMessage_ok.mp (hadv.encode hne hbatch)
  have hdecode : decode C (hasPayload frame) cfg.limits = .ok ⟨.blobHas, [], frame, []⟩ :=
    decode_marshal hC trivial hvalid
  unfold advertisedKeys
  rw [hdecode]

/-- What an exchange of a walk does that does not overflow. -/
structure Step (C : Codec) (cfg : Config) (lister : Lister) (call : ExchangeCall) : Prop where
  succeeds : call.error = none
  advertised : ∃ left, lister.above call.after = call.advertised C cfg ++ left ∧
    (call.complete = true → left = [])
  stopped : Interrupted cfg lister call.after → call.complete = false ∧ call.cursor = []
  advanced : ¬Interrupted cfg lister call.after →
    call.cursor = lastOr call.after (call.advertised C cfg)
  sends_some : call.complete = false → call.advertised C cfg ≠ []

theorem exchangeCall_after (after : Bytes) : (exchangeCall cfg lister after).after = after := by
  unfold exchangeCall
  split <;> rfl

theorem exchangeCall_step (hC : C.Lawful) (h : Advertisable cfg lister.keys)
    (hint : IntSized cfg lister.keys.length) (after : Bytes) :
    (Overflowing cfg lister after ∧ (exchangeCall cfg lister after).error ≠ none) ∨
      ¬Overflowing cfg lister after ∧ Step C cfg lister (exchangeCall cfg lister after) := by
  unfold exchangeCall
  rcases sendInventoryExchange_run h hint after [] with
    ⟨hover, e, out', hfails⟩ | ⟨hover, frames, cursor, complete, hrun, hexchanged, _⟩
  · rw [hfails]
    exact .inl ⟨hover, by simp⟩
  rw [hrun]
  obtain ⟨left, hleft, hcomplete⟩ := hexchanged.advertised
  have hkeys : ∀ frame ∈ frames, advertisedKeys C cfg.limits (hasPayload frame) = frame := by
    intro frame hframe
    obtain ⟨hne, hbatch, _⟩ := hexchanged.fits frame hframe
    have hsub : frame ⊆ lister.keys := by
      intro k hk
      apply Lister.above_subset after
      rw [hleft]
      exact List.mem_append_left _ (List.mem_flatten.mpr ⟨frame, hframe, hk⟩)
    exact advertisedKeys_hasPayload hC (h.sublist hsub) hne hbatch
  have hadvertised : ExchangeCall.advertised C cfg
      ⟨after, [] ++ frames.map hasPayload, cursor, complete, none⟩ = frames.flatten := by
    show (frames.map hasPayload).flatMap (advertisedKeys C cfg.limits) = frames.flatten
    rw [List.flatMap_map, List.flatMap_def, List.map_congr_left hkeys, List.map_id']
  refine .inr ⟨hover, rfl, ?_, hexchanged.stopped, ?_, ?_⟩
  · rw [hadvertised]
    exact ⟨left, hleft, hcomplete⟩
  · rw [hadvertised]
    exact hexchanged.advanced
  · rw [hadvertised]
    exact fun hc => hexchanged.sends_some hc rfl

theorem mem_exchanges {n : Nat} {after : Bytes} {call : ExchangeCall}
    (hcall : call ∈ exchanges cfg lister n after) :
    call = exchangeCall cfg lister call.after := by
  induction n generalizing after with
  | zero => simp [exchanges] at hcall
  | succ n ih =>
    rcases List.mem_cons.mp hcall with rfl | hcall
    · rw [exchangeCall_after]
    · split at hcall
      · simp at hcall
      · exact ih hcall

/-- A walk none of whose exchanges overflows or is interrupted covers the keys behind its
first cursor. -/
theorem covers_of_not_interrupted (hC : C.Lawful) (h : Advertisable cfg lister.keys)
    (hint : IntSized cfg lister.keys.length) (n : Nat) (after : Bytes)
    (hn : (lister.above after).length < n)
    (hwhole : ∀ call ∈ exchanges cfg lister n after,
      ¬Overflowing cfg lister call.after ∧ ¬Interrupted cfg lister call.after) :
    CoversInventory C cfg (lister.above after) (exchanges cfg lister n after) := by
  induction n generalizing after with
  | zero => omega
  | succ n ih =>
    have hhere := hwhole _ List.mem_cons_self
    have hafter : (exchangeCall cfg lister after).after = after := exchangeCall_after after
    unfold exchanges at hwhole ⊢
    obtain ⟨_, hstep⟩ := (exchangeCall_step hC h hint after).resolve_left fun hc =>
      hhere.1 (by rw [hafter]; exact hc.1)
    generalize exchangeCall cfg lister after = call at *
    subst hafter
    obtain ⟨left, hleft, hcomplete⟩ := hstep.advertised
    have hcursor := hstep.advanced hhere.2
    simp only [hstep.succeeds, Option.isSome_none, Bool.false_eq_true, or_false] at hwhole ⊢
    cases hdone : call.complete with
    | true =>
      rw [if_pos rfl]
      refine ⟨by simpa using hstep.succeeds, ?_, ⟨call, rfl, hdone⟩, ?_⟩
      · intro other hother hincomplete
        rw [List.mem_singleton.mp hother, hdone] at hincomplete
        cases hincomplete
      · rw [hcomplete hdone, List.append_nil] at hleft
        rw [hleft]
        simp
    | false =>
      rw [if_neg (by simp)]
      rw [hdone, if_neg (by simp)] at hwhole
      have hsome := hstep.sends_some hdone
      have hbehind : lister.above call.cursor = left := by
        rw [hcursor]
        exact above_lastOr lister.sorted hleft
      have hshorter : (lister.above call.cursor).length < n := by
        have hpos := List.length_pos_iff.mpr hsome
        have := congrArg List.length hleft
        rw [List.length_append] at this
        rw [hbehind]
        omega
      have hcovers := ih call.cursor hshorter fun other hother =>
        hwhole other (List.mem_cons_of_mem _ hother)
      constructor
      · exact List.forall_mem_cons.mpr ⟨hstep.succeeds, hcovers.succeeds⟩
      · intro other hother hincomplete
        rcases List.mem_cons.mp hother with rfl | hother
        · have hlast : other.cursor ∈ _ := hcursor ▸ lastOr_mem hsome
          refine ⟨(getLast?_eq_lastOr hsome _).trans (congrArg some hcursor.symm), ?_⟩
          exact lt_of_mem_above (hleft ▸ List.mem_append_left _ hlast)
        · exact hcovers.advances other hother hincomplete
      · obtain ⟨other, hlast, hfinal⟩ := hcovers.finishes
        exact ⟨other, by rw [List.getLast?_cons, hlast]; rfl, hfinal⟩
      · rw [List.flatMap_cons, hcovers.advertises, hbehind]
        exact hleft.symm

/-- Starting from the empty cursor and making at most one exchange more than there
are keys, the walk covers the inventory exactly if none of its exchanges overflows or is
interrupted between two pages. -/
theorem exchanges_cover_inventory (hC : C.Lawful) (cfg : Config) (lister : Lister)
    (h : Advertisable cfg lister.keys) (hint : IntSized cfg lister.keys.length) :
    CoversInventory C cfg (sortKeys lister.keys)
        (exchanges cfg lister (lister.keys.length + 1) []) ↔
      ∀ call ∈ exchanges cfg lister (lister.keys.length + 1) [],
        ¬Overflowing cfg lister call.after ∧ ¬Interrupted cfg lister call.after := by
  have hall := Lister.above_nil h
  constructor
  · intro hcovers call hcall
    have hstep := exchangeCall_step hC h hint call.after
    rw [← mem_exchanges hcall] at hstep
    rcases hstep with ⟨_, hfails⟩ | ⟨hover, hstep⟩
    · exact absurd (hcovers.succeeds call hcall) hfails
    refine ⟨hover, fun hinterrupted => ?_⟩
    obtain ⟨hincomplete, hcursor⟩ := hstep.stopped hinterrupted
    have hlt := (hcovers.advances call hcall hincomplete).2
    rw [hcursor] at hlt
    exact compare_nil_ne_lt _ hlt
  · intro hwhole
    rw [← hall]
    apply covers_of_not_interrupted hC h hint _ [] ?_ hwhole
    rw [hall, (sort_perm lister.keys).length_eq]
    exact Nat.lt_succ_self _

end Walk

/-- Two keys in a paged store. -/
def twoKeys : Lister := ⟨[[1], [2]], by decide, true⟩

theorem twoKeys_advertisable {cfg : Config}
    (hone : encodeBlobHas [[1]] cfg.limits = .ok (hasPayload [[1]]))
    (htwo : encodeBlobHas [[2]] cfg.limits = .ok (hasPayload [[2]])) (h : 35 ≤ cfg.maxPayload) :
    Advertisable cfg twoKeys.keys := by
  intro k hk
  simp only [twoKeys, List.mem_cons, List.not_mem_nil, or_false] at hk
  rcases hk with rfl | rfl
  · exact ⟨_, hone, h⟩
  · exact ⟨_, htwo, h⟩

/-- Pages of one key, and a byte budget for one frame and a bit more. -/
def oneFrameBudget : Config := ⟨⟨0, 1, 0, 0⟩, 0, ⟨40, 0⟩⟩

theorem exchange_restarts :
    sendInventoryExchange Faults.none oneFrameBudget twoKeys [] [] =
      .ok ([], false) [hasPayload [[1]]] := by
  rfl

/-- The walk advertises the first key again and again, and never the second. -/
theorem walk_restarts_forever :
    Advertisable oneFrameBudget twoKeys.keys ∧ IntSized oneFrameBudget twoKeys.keys.length ∧
      (∀ n, exchanges oneFrameBudget twoKeys n [] =
        List.replicate n ⟨[], [hasPayload [[1]]], [], false, none⟩) ∧
      ¬CoversInventory goCodec oneFrameBudget (sortKeys twoKeys.keys)
        (exchanges oneFrameBudget twoKeys (twoKeys.keys.length + 1) []) := by
  have hwalk : ∀ n, exchanges oneFrameBudget twoKeys n [] =
      List.replicate n ⟨[], [hasPayload [[1]]], [], false, none⟩ := by
    intro n
    induction n with
    | zero => rfl
    | succ n ih =>
      unfold exchanges exchangeCall
      rw [exchange_restarts]
      simp [ih, List.replicate_succ]
  refine ⟨twoKeys_advertisable rfl rfl (by decide), ⟨by decide, by decide⟩, hwalk, ?_⟩
  intro hcovers
  obtain ⟨call, hlast, hcomplete⟩ := hcovers.finishes
  rw [hwalk] at hlast
  cases hlast
  cases hcomplete

/-- With a budget of one key for each exchange the walk covers both keys. -/
theorem exchanges_cover_twoKeys :
    CoversInventory goCodec ⟨⟨0, 1, 0, 0⟩, 0, ⟨0, 1⟩⟩ (sortKeys twoKeys.keys)
      (exchanges ⟨⟨0, 1, 0, 0⟩, 0, ⟨0, 1⟩⟩ twoKeys (twoKeys.keys.length + 1) []) :=
  (exchanges_cover_inventory goCodec_lawful _ twoKeys (twoKeys_advertisable rfl rfl (by decide))
    ⟨by decide, by decide⟩).mpr fun _ _ =>
      ⟨not_overflowing (by decide) _, not_interrupted (by decide) _⟩

/-- Under the byte budget the first exchange sends its one key and is within the budget. -/
theorem exchange_within_budget_twoKeys :
    ∃ (frames : List (List Bytes)) (cursor : Bytes) (complete : Bool),
      sendInventoryExchange Faults.none oneFrameBudget twoKeys [] [] =
        .ok (cursor, complete) (frames.map hasPayload) ∧
      frames.flatten <+: (sortKeys twoKeys.keys).filter (fun k => compare [] k = .lt) ∧
      (complete = false → frames.flatten ≠ []) := by
  obtain ⟨frames, cursor, complete, hrun, _, hfirst, _, _, _, hsome, _⟩ :=
    (exchange_within_budget oneFrameBudget twoKeys (twoKeys_advertisable rfl rfl (by decide))
      ⟨by decide, by decide⟩ [] []).mpr (not_overflowing (by decide) [])
  exact ⟨frames, cursor, complete, hrun, hfirst, hsome⟩

/-- Batches of the largest `int` and frames of one key: the first frame is sent, and the
end of the second slice overflows. -/
theorem exchange_panics :
    Advertisable ⟨⟨0, maxInt64, 0, 0⟩, 40, ⟨0, 0⟩⟩ twoKeys.keys ∧
      IntSized ⟨⟨0, maxInt64, 0, 0⟩, 40, ⟨0, 0⟩⟩ twoKeys.keys.length ∧
      sendInventoryExchange Faults.none ⟨⟨0, maxInt64, 0, 0⟩, 40, ⟨0, 0⟩⟩ twoKeys [] [] =
        .error .panic [hasPayload [[1]]] :=
  ⟨twoKeys_advertisable rfl rfl (by decide), ⟨by decide, by decide⟩, rfl⟩

end StreamHive.Replication

import StreamHive.Lifecycle.GoStdlib
import StreamHive.Lifecycle.Membership
import StreamHive.Verified.Transition

/-!
# The sidecar books over whole runs

A watermark book and a membership book write their value to the file before it
becomes visible.  A write that fails may have replaced the file or not, so memory
and file come apart until a later call succeeds.  This module follows the two books
through any sequence of calls, with any verdict on every disk operation.

## Main results

* `WatermarkCall.run_eq` and `MembershipBook.replace_cases` — a call changes nothing, or
  is one attempt to install a value;
* `Tracks` — the file holds the value in memory, or one that failed to be written since
  the last success;
* `sidecar_books_consistent` — the books can always be opened again.
-/

namespace StreamHive.Lifecycle

open Verified ByteString Effect FileSystem

variable {b : WatermarkBook}

/-! ## Memory and file -/

section Tracks

variable {α : Type}

/-- The file holds the value in memory, or one of those that failed to be written. -/
def Tracks (memory : α) (attempted : List α) (stored : α) : Prop :=
  stored = memory ∨ stored ∈ attempted

/-- The values that failing calls tried to write since the last success. -/
def attemptedAfter (succeeded : Bool) (attempt : Option α) (attempted : List α) : List α :=
  match attempt with
  | none => attempted
  | some value => if succeeded then [] else value :: attempted

theorem Tracks.failed {memory stored stored' value : α} {attempted : List α}
    (h : Tracks memory attempted stored) (hstored : stored' = stored ∨ stored' = value) :
    Tracks memory (value :: attempted) stored' := by
  rcases hstored with rfl | rfl
  · exact h.imp id (List.mem_cons_of_mem _)
  · exact .inr (List.mem_cons_self ..)

end Tracks

/-- A book with its file, and the books that failing calls tried to write since the
last success. -/
structure Followed (α : Type) where
  disk : OnDisk α
  attempted : List α

/-- Follow one call that attempts to write a book. -/
def Followed.after {α : Type} (r : Followed α) (attempt : Option α)
    (result : EStateM.Result Error (OnDisk α) Unit) : Followed α where
  disk := finalState result
  attempted := attemptedAfter (error? result).isNone attempt r.attempted

/-! ## The calls of a watermark book -/

inductive WatermarkCall where
  | acknowledge (peer : Bytes) (version : Version)
  | reconcile (peer : Bytes) (version : Version)
  | forget (peer : Bytes)

namespace WatermarkCall

variable (S : Stdlib) (F : Faults)

def run : WatermarkCall → EStateM Error (OnDisk WatermarkBook) Unit
  | acknowledge peer version => WatermarkBook.acknowledge S F peer version
  | reconcile peer version => WatermarkBook.reconcile S F peer version
  | forget peer => WatermarkBook.forget S F peer

/-- The peer of a call. -/
def peer : WatermarkCall → Bytes
  | acknowledge peer _ | reconcile peer _ | forget peer => peer

/-- The call comes to write a map, once its context and its peer are accepted. -/
def Writes (b : WatermarkBook) : WatermarkCall → Prop
  | acknowledge peer version => ¬version.IsZero ∧ b.watermark peer ≤ version ∧
      b.watermarks[peer]? ≠ some version ∧
      (peer ∈ b.watermarks ∨ b.watermarks.size < b.maxPeers)
  | reconcile peer version => b.watermarks[peer]? ≠ some version ∧
      (version.IsZero ∨ peer ∈ b.watermarks ∨ b.watermarks.size < b.maxPeers)
  | forget peer => peer ∈ b.watermarks

instance (b : WatermarkBook) : DecidablePred (Writes b)
  | acknowledge _ _ => inferInstanceAs (Decidable (_ ∧ _))
  | reconcile _ _ => inferInstanceAs (Decidable (_ ∧ _))
  | forget _ => inferInstanceAs (Decidable (_ ∈ _))

/-- The map that the call wants to write. -/
def next (b : WatermarkBook) : WatermarkCall → WatermarkMap
  | acknowledge peer version => b.watermarks.insert peer version
  | reconcile peer version =>
    if version.IsZero then b.watermarks.erase peer else b.watermarks.insert peer version
  | forget peer => b.watermarks.erase peer

/-- The checks that every call makes first. -/
def Checked (b : WatermarkBook) (call : WatermarkCall) : Prop :=
  F .coordinator (.ctxErr 1) = .proceed ∧ (b.validatePeer S call.peer).isOk = true

instance (S : Stdlib) (F : Faults) (b : WatermarkBook) : DecidablePred (Checked S F b) :=
  fun _ => inferInstanceAs (Decidable (_ ∧ _))

/-- The book that the call attempts to write, if it gets that far. -/
def attempt (b : WatermarkBook) (call : WatermarkCall) : Option WatermarkBook :=
  if call.Checked S F b ∧ call.Writes b then some (b.withMap (call.next b)) else none

/-- Follow one call of a watermark book. -/
def step (r : Followed WatermarkBook) (event : Faults × WatermarkCall) :
    Followed WatermarkBook :=
  r.after (event.2.attempt S event.1 r.disk.obj) (event.2.run S event.1 r.disk)

/-- What a call does after its checks. -/
def body (b : WatermarkBook) : WatermarkCall → EStateM Error (OnDisk WatermarkBook) Unit
  | acknowledge peer version =>
    if version.IsZero then pure ()
    else if version.compare (b.watermark peer) < 0 then throw .watermarkRegression
    else if version.compare (b.watermark peer) = 0 ∧ peer ∈ b.watermarks then pure ()
    else do
      raiseIf (peer ∉ b.watermarks ∧ b.watermarks.size ≥ b.maxPeers) .watermarkLimit
      WatermarkBook.install S (F .watermark) (b.watermarks.insert peer version)
  | reconcile peer version =>
    if b.watermarks[peer]? = some version then pure ()
    else if version.IsZero then
      WatermarkBook.install S (F .watermark) (b.watermarks.erase peer)
    else do
      raiseIf (peer ∉ b.watermarks ∧ b.watermarks.size ≥ b.maxPeers) .watermarkLimit
      WatermarkBook.install S (F .watermark) (b.watermarks.insert peer version)
  | forget peer =>
    if peer ∉ b.watermarks then pure ()
    else WatermarkBook.install S (F .watermark) (b.watermarks.erase peer)

/-- A call is the checks and then its own part. -/
theorem run_eq_body (call : WatermarkCall) : call.run S F = (do
      ctxErr (F .coordinator) 1
      let s : OnDisk WatermarkBook ← get
      Effect.attempt (s.obj.validatePeer S call.peer)
      call.body S F s.obj) := by
  cases call <;> rfl

section Run

variable {S : Stdlib} {F : Faults} {call : WatermarkCall} {s : OnDisk WatermarkBook}

theorem run_of_checked (h : call.Checked S F s.obj) :
    call.run S F s = call.body S F s.obj s := by
  obtain ⟨hctx, hpeer⟩ := h
  rw [run_eq_body, run_bind_ok (ctxErr_proceed hctx s), run_bind_get]
  cases hvalid : s.obj.validatePeer S call.peer with
  | error e =>
    rw [hvalid] at hpeer
    cases hpeer
  | ok _ => exact run_bind_ok (run_attempt rfl)

theorem run_of_not_checked (h : ¬call.Checked S F s.obj) :
    ∃ e, call.run S F s = .error e s := by
  rw [run_eq_body]
  rcases ctxErr_cases (F .coordinator) 1 s with ⟨_, e, he⟩ | ⟨hctx, hx⟩
  · exact ⟨e, run_bind_error he⟩
  rw [run_bind_ok hx, run_bind_get]
  cases hpeer : s.obj.validatePeer S call.peer with
  | error e => exact ⟨e, run_bind_error (run_attempt_error rfl)⟩
  | ok _ =>
    refine absurd ⟨hctx, ?_⟩ h
    rw [hpeer]
    rfl

/-- The test for room, in the words of the program. -/
private theorem room_iff {peer : Bytes} :
    ¬(peer ∉ b.watermarks ∧ (b.watermarks.size : Int) ≥ b.maxPeers) ↔
      peer ∈ b.watermarks ∨ (b.watermarks.size : Int) < b.maxPeers := by
  rw [not_and_or, not_not, not_le]

/-- Installing a map if there is room for its peer. -/
private theorem installIfRoom (o : Oracle) (peer : Bytes) (next : WatermarkMap) :
    (peer ∈ s.obj.watermarks ∨ (s.obj.watermarks.size : Int) < s.obj.maxPeers →
      (raiseIf (peer ∉ s.obj.watermarks ∧ s.obj.watermarks.size ≥ s.obj.maxPeers)
        Error.watermarkLimit >>= fun _ => WatermarkBook.install S o next) s =
        WatermarkBook.install S o next s) ∧
    (¬(peer ∈ s.obj.watermarks ∨ (s.obj.watermarks.size : Int) < s.obj.maxPeers) →
      finalState ((raiseIf (peer ∉ s.obj.watermarks ∧ s.obj.watermarks.size ≥ s.obj.maxPeers)
        Error.watermarkLimit >>= fun _ => WatermarkBook.install S o next) s) = s) := by
  rw [← room_iff]
  refine ⟨fun hroom => run_bind_ok (run_raiseIf hroom), fun hfull => ?_⟩
  rw [run_bind_error (run_raiseIf_error (not_not.mp hfull))]
  rfl

theorem body_eq (call : WatermarkCall) :
    (call.Writes s.obj →
      call.body S F s.obj s = WatermarkBook.install S (F .watermark) (call.next s.obj) s) ∧
    (¬call.Writes s.obj → finalState (call.body S F s.obj s) = s) := by
  cases call with
  | acknowledge peer version =>
    have hroom := @installIfRoom S s (F .watermark) peer (s.obj.watermarks.insert peer version)
    unfold body Writes next
    simp only [Version.compare_lt_zero, WatermarkBook.known_iff]
    by_cases hzero : version.IsZero
    · exact ⟨fun h => absurd hzero h.1, fun _ => by rw [if_pos hzero]; rfl⟩
    rw [if_neg hzero]
    by_cases hback : version < s.obj.watermark peer
    · exact ⟨fun h => absurd h.2.1 (not_le.mpr hback), fun _ => by rw [if_pos hback]; rfl⟩
    rw [if_neg hback]
    by_cases hknown : s.obj.watermarks[peer]? = some version
    · exact ⟨fun h => absurd hknown h.2.2.1, fun _ => by rw [if_pos hknown]; rfl⟩
    rw [if_neg hknown]
    refine ⟨fun h => hroom.1 h.2.2.2, fun h => hroom.2 fun hr => h ?_⟩
    exact ⟨hzero, not_lt.mp hback, hknown, hr⟩
  | reconcile peer version =>
    have hroom := @installIfRoom S s (F .watermark) peer (s.obj.watermarks.insert peer version)
    unfold body Writes next
    dsimp only
    by_cases hknown : s.obj.watermarks[peer]? = some version
    · exact ⟨fun h => absurd hknown h.1, fun _ => by rw [if_pos hknown]; rfl⟩
    rw [if_neg hknown]
    by_cases hzero : version.IsZero
    · rw [if_pos hzero, if_pos hzero]
      exact ⟨fun _ => rfl, fun h => absurd ⟨hknown, .inl hzero⟩ h⟩
    rw [if_neg hzero, if_neg hzero]
    refine ⟨fun h => hroom.1 (h.2.resolve_left hzero), fun h => hroom.2 fun hr => h ?_⟩
    exact ⟨hknown, .inr hr⟩
  | forget peer =>
    unfold body Writes next
    dsimp only
    by_cases hmem : peer ∈ s.obj.watermarks
    · rw [if_neg (not_not.mpr hmem)]
      exact ⟨fun _ => rfl, fun h => absurd hmem h⟩
    · rw [if_pos hmem]
      exact ⟨fun h => absurd h hmem, fun _ => rfl⟩

/-- A call that comes to write is one installation of its map; any other call leaves
the book and its file alone. -/
theorem run_eq (S : Stdlib) (F : Faults) (call : WatermarkCall) (s : OnDisk WatermarkBook) :
    call.Checked S F s.obj ∧ call.Writes s.obj ∧
        call.attempt S F s.obj = some (s.obj.withMap (call.next s.obj)) ∧
        call.run S F s = WatermarkBook.install S (F .watermark) (call.next s.obj) s ∨
      call.attempt S F s.obj = none ∧ finalState (call.run S F s) = s := by
  unfold attempt
  by_cases hchecked : call.Checked S F s.obj
  · rw [run_of_checked hchecked]
    by_cases hwrites : call.Writes s.obj
    · exact .inl ⟨hchecked, hwrites, if_pos ⟨hchecked, hwrites⟩, (body_eq call).1 hwrites⟩
    · exact .inr ⟨if_neg fun h => hwrites h.2, (body_eq call).2 hwrites⟩
  · obtain ⟨e, he⟩ := run_of_not_checked hchecked
    exact .inr ⟨if_neg fun h => hchecked h.1, by rw [he]; rfl⟩

end Run

/-- The map that a call writes passes the checks made when it is read. -/
theorem valid_next {S : Stdlib} {call : WatermarkCall}
    (hpeer : (b.validatePeer S call.peer).isOk = true) (hwrites : call.Writes b)
    (h : b.ValidMap S b.watermarks) : b.ValidMap S (call.next b) := by
  have hvalid : b.validatePeer S call.peer = .ok () := by
    cases hv : b.validatePeer S call.peer with
    | ok _ => rfl
    | error e =>
      rw [hv] at hpeer
      cases hpeer
  cases call with
  | acknowledge peer version => exact h.insert hvalid hwrites.1 hwrites.2.2.2
  | reconcile peer version =>
    unfold next
    dsimp only
    split
    · exact h.erase
    · next hzero => exact h.insert hvalid hzero (hwrites.2.resolve_left hzero)
  | forget peer => exact h.erase

end WatermarkCall

/-! ## The watermark book stays consistent -/

namespace WatermarkBook

variable {S : Stdlib} {options : WatermarkOptions}

/-- Installing a map fails with the book as it was and the old file or the new one, or
it makes the map visible and durable. -/
theorem install_cases (o : Oracle) (next : WatermarkMap) (s : OnDisk WatermarkBook) :
    (∃ e fs', install S o next s = .error e { s with fs := fs' } ∧
        (watermarkFile S).OldOrNew S s.obj.path s.obj.maxBytes (some next) s.fs fs') ∨
      (∃ fs', install S o next s = .ok () ⟨fs', s.obj.withMap next⟩ ∧
        s.obj.CanStore S next ∧
        FS.Replaced s.fs s.obj.path ((watermarkFile S).bytes S (some next)) fs') := by
  unfold install
  rw [run_bind_get]
  rcases Sidecar.persist_spec o s.obj.path s.fs with ⟨e, fs', he, hfile, _⟩ |
    ⟨fs', hok, hfits, hfs⟩
  · exact .inl ⟨e, fs', run_bind_error (run_onFS_error he), hfile⟩
  · exact .inr ⟨fs', (run_bind_ok (run_onFS hok)).trans rfl, hfits, hfs⟩

/-- The books that calls under the options leave behind. -/
structure Sound (S : Stdlib) (path : String) (options : WatermarkOptions)
    (b : WatermarkBook) : Prop where
  bounds : b = (new path options).withMap b.watermarks
  valid : (new path options).ValidMap S b.watermarks

/-- A book in a run: it is sound, and its file holds it or one that failed to be
written. -/
structure Kept (S : Stdlib) (path : String) (options : WatermarkOptions)
    (r : Followed WatermarkBook) : Prop where
  sound : Sound S path options r.disk.obj
  stored : ∃ stored, Tracks r.disk.obj r.attempted stored ∧
    ofFile S path options (r.disk.fs.read (.file path)) = .ok stored

variable {path : String}

theorem Sound.path_eq (h : Sound S path options b) : b.path = path := by
  rw [h.bounds]
  rfl

theorem Sound.new_map {m : WatermarkMap} (hm : (WatermarkBook.new path options).ValidMap S m) :
    Sound S path options ((WatermarkBook.new path options).withMap m) := ⟨rfl, hm⟩

/-- What can be read from a file is sound. -/
theorem Sound.of_file {data : Option Bytes} (h : ofFile S path options data = .ok b) :
    Sound S path options b := by
  obtain ⟨m, rfl, hm⟩ := ofFile_ok h
  exact Sound.new_map hm

/-- The map of a sound book is valid in its own terms. -/
theorem Sound.validMap (h : Sound S path options b) : b.ValidMap S b.watermarks := by
  have hvalid := h.valid
  rw [h.bounds]
  exact ⟨hvalid.count, hvalid.entries⟩

/-- A call writes a sound book, which its file then holds. -/
theorem Sound.next (hS : S.Lawful) {s : OnDisk WatermarkBook} (h : Sound S path options s.obj)
    {F : Faults} {call : WatermarkCall} (hchecked : call.Checked S F s.obj)
    (hwrites : call.Writes s.obj) :
    Sound S path options (s.obj.withMap (call.next s.obj)) ∧
      ∀ {fs'}, s.obj.CanStore S (call.next s.obj) →
        FS.Replaced s.fs s.obj.path ((watermarkFile S).bytes S (some (call.next s.obj))) fs' →
        ofFile S path options (fs'.read (.file path)) =
          .ok (s.obj.withMap (call.next s.obj)) := by
  have hnext := WatermarkCall.valid_next hchecked.2 hwrites h.validMap
  have hpath := h.path_eq
  generalize call.next s.obj = next at hnext
  have hbook : s.obj.withMap next = (WatermarkBook.new path options).withMap next := by
    conv_lhs => rw [h.bounds]
    rfl
  have hvalid : (WatermarkBook.new path options).ValidMap S next := by
    rw [h.bounds] at hnext
    exact ⟨hnext.count, hnext.entries⟩
  rw [hbook]
  refine ⟨Sound.new_map hvalid, ?_⟩
  intro fs' hfits hfs
  have hread : fs'.read (.file path) = some ((watermarkFile S).bytes S (some next)) := by
    rw [← hpath]
    exact hfs.read
  rw [hread]
  rw [h.bounds] at hfits
  exact ofFile_bytes hS hvalid hfits

theorem Kept.step (hS : S.Lawful) {r : Followed WatermarkBook} (h : Kept S path options r)
    (event : Faults × WatermarkCall) : Kept S path options (WatermarkCall.step S r event) := by
  obtain ⟨F, call⟩ := event
  obtain ⟨stored, htracks, hread⟩ := h.stored
  unfold WatermarkCall.step Followed.after
  dsimp only
  rcases WatermarkCall.run_eq S F call r.disk with
    ⟨hchecked, hwrites, hattempt, hrun⟩ | ⟨hattempt, hsame⟩
  swap
  · rw [hattempt, hsame]
    exact ⟨h.sound, stored, htracks, hread⟩
  obtain ⟨hnext, hwritten⟩ := h.sound.next hS hchecked hwrites
  rw [hattempt, hrun]
  rcases install_cases (F .watermark) (call.next r.disk.obj) r.disk with
    ⟨e, fs', he, hfile⟩ | ⟨fs', hok, hfits, hfs⟩
  · rw [he]
    refine ⟨h.sound, ?_⟩
    rcases hfile with huntouched | ⟨hfits, hfs⟩
    · refine ⟨stored, htracks.failed (.inl rfl), ?_⟩
      rw [← huntouched.read path] at hread
      exact hread
    · exact ⟨_, htracks.failed (.inr rfl), hwritten hfits hfs⟩
  · rw [hok]
    exact ⟨hnext, _, .inl rfl, hwritten hfits hfs⟩

/-- The file of a sidecar that can be read is within its bound. -/
theorem ofFile_bounded {data : Bytes} (h : ofFile S path options (some data) = .ok b) :
    (data.length : Int) ≤ options.normalized.maxBytes := by
  unfold ofFile at h
  rw [except_bind_ok] at h
  obtain ⟨state, hdecode, _⟩ := h
  exact Sidecar.length_of_decode hdecode

/-- The book is within its limits and can be opened again. -/
structure Consistent (S : Stdlib) (path : String) (options : WatermarkOptions)
    (r : Followed WatermarkBook) : Prop where
  reopens : ∃ book, openWatermarkBook S Oracle.none path options r.disk.fs = .ok book r.disk.fs ∧
    (book = r.disk.obj ∨ book ∈ r.attempted) ∧
    book.watermarks.size ≤ options.normalized.maxPeers ∧
    ∀ (peer : Bytes) (version : Version),
      book.watermarks[peer]? = some version → ¬version.IsZero
  entries : r.disk.obj.watermarks.size ≤ options.normalized.maxPeers
  nonzero : ∀ (peer : Bytes) (version : Version),
    r.disk.obj.watermarks[peer]? = some version → ¬version.IsZero
  bytes : ∀ data, r.disk.fs.read (.file path) = some data →
    (data.length : Int) ≤ options.normalized.maxBytes

theorem Kept.consistent (hpath : path ≠ "") {r : Followed WatermarkBook}
    (h : Kept S path options r) : Consistent S path options r := by
  obtain ⟨stored, htracks, hread⟩ := h.stored
  have hsound := Sound.of_file hread
  refine ⟨⟨stored, openWatermarkBook_proceed (fun _ => rfl) hpath hread, htracks,
    hsound.valid.count, fun peer version hget => (hsound.valid.entries peer version hget).2⟩,
    h.sound.valid.count, fun peer version hget => (h.sound.valid.entries peer version hget).2, ?_⟩
  intro data hdata
  rw [hdata] at hread
  exact ofFile_bounded hread

end WatermarkBook

namespace WatermarkCall

variable {S : Stdlib} {F : Faults} {call : WatermarkCall} {s s' : OnDisk WatermarkBook}

/-- The book after a call: as it was, or with the map that the call writes. -/
theorem obj_cases (S : Stdlib) (F : Faults) (call : WatermarkCall) (s : OnDisk WatermarkBook) :
    (finalState (call.run S F s)).obj = s.obj ∨
      call.Writes s.obj ∧ (error? (call.run S F s)) = none ∧
        (finalState (call.run S F s)).obj = s.obj.withMap (call.next s.obj) := by
  rcases run_eq S F call s with ⟨_, hwrites, _, hrun⟩ | ⟨_, hsame⟩
  · rw [hrun]
    rcases WatermarkBook.install_cases (F .watermark) (call.next s.obj) s with
      ⟨e, fs', he, _⟩ | ⟨fs', hok, _⟩
    · rw [he]
      exact .inl rfl
    · rw [hok]
      exact .inr ⟨hwrites, rfl, rfl⟩
  · rw [hsame]
    exact .inl rfl

/-- A call that fails leaves the map as it was. -/
theorem obj_of_error {e : Error} (h : call.run S F s = .error e s') : s'.obj = s.obj := by
  rcases obj_cases S F call s with hsame | ⟨_, hnone, _⟩
  · rw [h] at hsame
    exact hsame
  · rw [h] at hnone
    cases hnone

theorem watermark_next_ne {peer : Bytes} (h : peer ≠ call.peer) :
    (b.withMap (call.next b)).watermark peer = b.watermark peer := by
  have herase : (b.watermarks.erase call.peer).getD peer Version.zero = b.watermark peer := by
    rw [Std.ExtTreeMap.getD_erase, if_neg]
    · rfl
    · intro heq
      exact h (Std.LawfulEqCmp.eq_of_compare heq).symm
  rw [WatermarkBook.watermark_withMap]
  cases call with
  | acknowledge p version => exact WatermarkBook.getD_insert_of_ne h
  | reconcile p version =>
    unfold next
    dsimp only
    split
    · exact herase
    · exact WatermarkBook.getD_insert_of_ne h
  | forget p => exact herase

/-- Only a report or a removal of the peer itself lowers its watermark. -/
theorem lowers {peer : Bytes}
    (h : (finalState (call.run S F s)).obj.watermark peer < s.obj.watermark peer) :
    call = .forget peer ∨ ∃ version, call = .reconcile peer version := by
  rcases obj_cases S F call s with hsame | ⟨hwrites, _, hnext⟩
  · rw [hsame] at h
    exact absurd h (lt_irrefl _)
  rw [hnext] at h
  by_cases hpeer : peer = call.peer
  swap
  · rw [watermark_next_ne hpeer] at h
    exact absurd h (lt_irrefl _)
  subst hpeer
  cases call with
  | acknowledge p version =>
    have hself : (s.obj.withMap (next s.obj (.acknowledge p version))).watermark p =
        version := Std.ExtTreeMap.getD_insert_self
    have hforward : s.obj.watermark p ≤ version := hwrites.2.1
    change (s.obj.withMap (next s.obj (.acknowledge p version))).watermark p <
      s.obj.watermark p at h
    rw [hself] at h
    exact absurd h (not_lt.mpr hforward)
  | reconcile p version => exact .inr ⟨version, rfl⟩
  | forget p => exact .inl rfl

end WatermarkCall

/-! ## The membership book stays consistent -/

namespace MembershipBook

variable {S : Stdlib} {path : String} {options : MembershipOptions}

/-- The book that `Replace` attempts to write, if it gets that far. -/
def replacement (S : Stdlib) (o : Oracle) (b : MembershipBook) (members : List Bytes) :
    Option MembershipBook :=
  if o (.ctxErr 2) = .proceed then
    (b.normalizeMembers S members).toOption.map b.withMembers
  else none

/-- Follow one call of a membership book. -/
def step (S : Stdlib) (r : Followed MembershipBook) (event : Oracle × List Bytes) :
    Followed MembershipBook :=
  r.after (replacement S event.1 r.disk.obj event.2) (replace S event.1 event.2 r.disk)

/-- `Replace` leaves the book and its file alone, or is one attempt to write the set. -/
theorem replace_cases (o : Oracle) (members : List Bytes) (s : OnDisk MembershipBook) :
    (replacement S o s.obj members = none ∧ ∃ e, replace S o members s = .error e s) ∨
      ∃ ms, s.obj.normalizeMembers S members = .ok ms ∧
        replacement S o s.obj members = some (s.obj.withMembers ms) ∧
        ((∃ e fs', replace S o members s = .error e { s with fs := fs' } ∧
            (membershipFile S).OldOrNew S s.obj.path s.obj.maxBytes ms s.fs fs') ∨
          (∃ fs', replace S o members s = .ok () ⟨fs', s.obj.withMembers ms⟩ ∧
            (membershipFile S).Writable S s.obj.maxBytes ms ∧
            FS.Replaced s.fs s.obj.path ((membershipFile S).bytes S ms) fs')) := by
  unfold replacement replace
  rcases ctxErr_cases o 2 s with ⟨hctx, e, he⟩ | ⟨hctx, hx⟩
  · exact .inl ⟨if_neg hctx, e, run_bind_error he⟩
  rw [run_bind_ok hx, if_pos hctx, run_bind_get]
  cases hnormal : s.obj.normalizeMembers S members with
  | error e => exact .inl ⟨rfl, e, run_bind_error (run_attempt_error rfl)⟩
  | ok ms =>
  rw [run_bind_ok (run_attempt rfl)]
  refine .inr ⟨ms, rfl, rfl, ?_⟩
  rcases Sidecar.persist_spec o s.obj.path s.fs with ⟨e, fs', he, hfile, _⟩ |
    ⟨fs', hok, hfits, hfs⟩
  · exact .inl ⟨e, fs', run_bind_error (run_onFS_error he), hfile⟩
  · exact .inr ⟨fs', (run_bind_ok (run_onFS hok)).trans rfl, hfits, hfs⟩

/-- The books that calls under the options leave behind: without a set, or with one in
normal form. -/
def Sound (S : Stdlib) (path : String) (options : MembershipOptions) (b : MembershipBook) :
    Prop :=
  b = new path options ∨ ∃ ms, b = (new path options).withMembers ms ∧
    (new path options).normalizeMembers S ms = .ok ms

/-- A book in a run: it is sound, and its file holds it or one that failed to be
written. -/
structure Kept (S : Stdlib) (path : String) (options : MembershipOptions)
    (r : Followed MembershipBook) : Prop where
  sound : Sound S path options r.disk.obj
  stored : ∃ stored, Tracks r.disk.obj r.attempted stored ∧
    ofFile S path options (r.disk.fs.read (.file path)) = .ok stored

/-- The bounds of a sound book are those of the options. -/
theorem Sound.bounds {b : MembershipBook} (h : Sound S path options b) :
    b.path = path ∧ b.maxBytes = (new path options).maxBytes ∧
      (∀ members, b.normalizeMembers S members =
        (new path options).normalizeMembers S members) ∧
      ∀ ms, b.withMembers ms = (new path options).withMembers ms := by
  rcases h with rfl | ⟨ms, rfl, _⟩
  · exact ⟨rfl, rfl, fun _ => rfl, fun _ => rfl⟩
  · exact ⟨rfl, rfl, fun _ => normalizeMembers_withMembers ms, fun _ => rfl⟩

theorem Sound.count {b : MembershipBook} (h : Sound S path options b) :
    (b.members.length : Int) ≤ options.normalized.maxPeers := by
  rcases h with rfl | ⟨ms, rfl, hnormal⟩
  · have hpos : 0 < orDefault options.maxPeers defaultMaxMembershipPeers :=
      orDefault_pos _ _ (by decide)
    exact hpos.le
  · exact (normalizeMembers_eq_ok.mp hnormal).1

theorem Kept.step (hS : S.Lawful) {r : Followed MembershipBook} (h : Kept S path options r)
    (event : Oracle × List Bytes) : Kept S path options (MembershipBook.step S r event) := by
  obtain ⟨o, members⟩ := event
  obtain ⟨stored, htracks, hread⟩ := h.stored
  obtain ⟨hpath, hmax, hnormalize, hwith⟩ := h.sound.bounds
  unfold MembershipBook.step Followed.after
  dsimp only
  rcases replace_cases (S := S) o members r.disk with
    ⟨hnone, e, he⟩ | ⟨ms, hnormal, hsome, hcases⟩
  · rw [hnone, he]
    exact ⟨h.sound, stored, htracks, hread⟩
  rw [hnormalize] at hnormal
  have hwritten : ∀ {fs'}, (membershipFile S).Writable S r.disk.obj.maxBytes ms →
      FS.Replaced r.disk.fs r.disk.obj.path ((membershipFile S).bytes S ms) fs' →
      ofFile S path options (fs'.read (.file path)) = .ok (r.disk.obj.withMembers ms) := by
    intro fs' hfits hfs
    have hbytes : fs'.read (.file path) = some ((membershipFile S).bytes S ms) := by
      rw [← hpath]
      exact hfs.read
    rw [hmax] at hfits
    rw [hbytes, hwith]
    exact ofFile_bytes hS hnormal hfits
  rw [hsome]
  rcases hcases with ⟨e, fs', he, hfile⟩ | ⟨fs', hok, hfits, hfs⟩
  · rw [he]
    refine ⟨h.sound, ?_⟩
    rcases hfile with huntouched | ⟨hfits, hfs⟩
    · refine ⟨stored, htracks.failed (.inl rfl), ?_⟩
      rw [← huntouched.read path] at hread
      exact hread
    · exact ⟨_, htracks.failed (.inr rfl), hwritten hfits hfs⟩
  · rw [hok]
    refine ⟨.inr ⟨ms, hwith ms, normalizeMembers_normalized hnormal⟩, _, .inl rfl, ?_⟩
    exact hwritten hfits hfs

/-- The book is within its limits and can be opened again. -/
structure Consistent (S : Stdlib) (path : String) (options : MembershipOptions)
    (r : Followed MembershipBook) : Prop where
  reopens : ∃ book, openMembershipBook S Oracle.none path options r.disk.fs = .ok book r.disk.fs ∧
    (book = r.disk.obj ∨ book ∈ r.attempted) ∧
    book.members.length ≤ options.normalized.maxPeers
  entries : r.disk.obj.members.length ≤ options.normalized.maxPeers
  bytes : ∀ data, r.disk.fs.read (.file path) = some data →
    (data.length : Int) ≤ options.normalized.maxBytes

theorem Kept.consistent (hpath : path ≠ "") {r : Followed MembershipBook}
    (h : Kept S path options r) : Consistent S path options r := by
  obtain ⟨stored, htracks, hread⟩ := h.stored
  have hsound : Sound S path options stored := ofFile_ok hread
  refine ⟨⟨stored, openMembershipBook_proceed (fun _ => rfl) hpath hread, htracks,
    hsound.count⟩, h.sound.count, ?_⟩
  intro data hdata
  rw [hdata] at hread
  unfold ofFile at hread
  rw [except_bind_ok] at hread
  obtain ⟨state, hdecode, _⟩ := hread
  exact Sidecar.length_of_decode hdecode

theorem obj_of_error {o : Oracle} {members : List Bytes} {s s' : OnDisk MembershipBook}
    {e : Error} (h : replace S o members s = .error e s') : s'.obj = s.obj := by
  rcases replace_cases (S := S) o members s with
    ⟨_, e', he⟩ | ⟨ms, _, _, ⟨e', fs', he, _⟩ | ⟨fs', hok, _⟩⟩
  · rw [he] at h
    cases h
    rfl
  · rw [he] at h
    cases h
    rfl
  · rw [hok] at h
    cases h

end MembershipBook

/-! ## Whole runs -/

/-- The sidecar books stay consistent through any sequence of calls, whatever becomes
of their disk operations.  After every run the book is within its limits and its file
opens again, as the book in memory or as one that a failing call tried to write since
the last success; a failing call leaves the book in memory as it was; a watermark is
lowered only by a report or a removal of its own peer. -/
theorem sidecar_books_consistent {S : Stdlib} (hS : S.Lawful) :
    (∀ (options : WatermarkOptions) (path : String) (o : Oracle) (fs fs' : FS)
        (book : WatermarkBook) (events : List (Faults × WatermarkCall)),
      openWatermarkBook S o path options fs = .ok book fs' →
      let r := Transition.run (WatermarkCall.step S) ⟨⟨fs', book⟩, []⟩ events
      WatermarkBook.Consistent S path options r ∧
        ∀ (F : Faults) (call : WatermarkCall),
          (∀ e s', call.run S F r.disk = .error e s' → s'.obj = r.disk.obj) ∧
          ∀ peer, (finalState (call.run S F r.disk)).obj.watermark peer <
              r.disk.obj.watermark peer →
            call = .forget peer ∨ ∃ version, call = .reconcile peer version) ∧
    ∀ (options : MembershipOptions) (path : String) (o : Oracle) (fs fs' : FS)
        (book : MembershipBook) (events : List (Oracle × List Bytes)),
      openMembershipBook S o path options fs = .ok book fs' →
      let r := Transition.run (MembershipBook.step S) ⟨⟨fs', book⟩, []⟩ events
      MembershipBook.Consistent S path options r ∧
        ∀ (o : Oracle) (members : List Bytes) e s',
          MembershipBook.replace S o members r.disk = .error e s' → s'.obj = r.disk.obj := by
  constructor
  · intro options path o fs fs' book events hopen
    obtain ⟨hpath, rfl, rfl, hdurable⟩ := openWatermarkBook_ok hopen
    have hstart : WatermarkBook.Kept S book.path options ⟨⟨fs', book⟩, []⟩ :=
      ⟨WatermarkBook.Sound.of_file hdurable, book, .inl rfl, hdurable⟩
    have hkept : WatermarkBook.Kept S book.path options
        (Transition.run (WatermarkCall.step S) ⟨⟨fs', book⟩, []⟩ events) :=
      Transition.run_invariant (P := fun _ _ => True) (fun r e _ h => h.step hS e)
        (Transition.along_of_forall fun _ _ _ => trivial) hstart
    exact ⟨hkept.consistent hpath, fun F call =>
      ⟨fun e s' => WatermarkCall.obj_of_error, fun peer => WatermarkCall.lowers⟩⟩
  · intro options path o fs fs' book events hopen
    obtain ⟨hpath, rfl, rfl, hdurable⟩ := openMembershipBook_ok hopen
    have hstart : MembershipBook.Kept S book.path options ⟨⟨fs', book⟩, []⟩ :=
      ⟨MembershipBook.ofFile_ok hdurable, book, .inl rfl, hdurable⟩
    have hkept : MembershipBook.Kept S book.path options
        (Transition.run (MembershipBook.step S) ⟨⟨fs', book⟩, []⟩ events) :=
      Transition.run_invariant (P := fun _ _ => True) (fun r e _ h => h.step hS e)
        (Transition.along_of_forall fun _ _ _ => trivial) hstart
    exact ⟨hkept.consistent hpath, fun o members e s' => MembershipBook.obj_of_error⟩

namespace Sample

/-- An acknowledgement whose new file is not synced to the directory, then another. -/
def acknowledgements : List (Faults × WatermarkCall) :=
  [(Faults.single .watermark .syncDirectory (.fail 0),
      .acknowledge (ascii "replica") first.version),
    (Faults.none, .acknowledge (ascii "replica") second.version)]

end Sample

open Sample in
/-- Both books, opened without a file, through calls that fail and calls that succeed. -/
theorem sidecar_books_consistent_sample :
    (openWatermarkBook goStdlib Oracle.none "watermarks" ⟨0, 0, 0⟩ FS.empty =
        .ok (WatermarkBook.new "watermarks" ⟨0, 0, 0⟩) FS.empty ∧
      WatermarkBook.Consistent goStdlib "watermarks" ⟨0, 0, 0⟩
        (Transition.run (WatermarkCall.step goStdlib)
          ⟨⟨FS.empty, WatermarkBook.new "watermarks" ⟨0, 0, 0⟩⟩, []⟩ acknowledgements)) ∧
    (openMembershipBook goStdlib Oracle.none "members" ⟨0, 0, 0⟩ FS.empty =
        .ok (MembershipBook.new "members" ⟨0, 0, 0⟩) FS.empty ∧
      MembershipBook.Consistent goStdlib "members" ⟨0, 0, 0⟩
        (Transition.run (MembershipBook.step goStdlib)
          ⟨⟨FS.empty, MembershipBook.new "members" ⟨0, 0, 0⟩⟩, []⟩
          [(Oracle.none, [ascii "replica"])])) := by
  have hwatermarks : openWatermarkBook goStdlib Oracle.none "watermarks" ⟨0, 0, 0⟩ FS.empty =
      .ok (WatermarkBook.new "watermarks" ⟨0, 0, 0⟩) FS.empty :=
    openWatermarkBook_proceed (fun _ => rfl) (by decide) rfl
  have hmembers : openMembershipBook goStdlib Oracle.none "members" ⟨0, 0, 0⟩ FS.empty =
      .ok (MembershipBook.new "members" ⟨0, 0, 0⟩) FS.empty :=
    openMembershipBook_proceed (fun _ => rfl) (by decide) rfl
  obtain ⟨hfirst, hsecond⟩ := sidecar_books_consistent goStdlib_lawful
  exact ⟨⟨hwatermarks, (hfirst _ _ _ _ _ _ acknowledgements hwatermarks).1⟩,
    hmembers, (hsecond _ _ _ _ _ _ _ hmembers).1⟩

end StreamHive.Lifecycle

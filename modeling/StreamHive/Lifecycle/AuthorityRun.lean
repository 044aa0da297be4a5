import StreamHive.Lifecycle.Authority
import StreamHive.Lifecycle.GoStdlib

/-!
# Tokens over many process lifetimes

A run of the authority is any sequence of openings, allocations and process
stops on one path and identity.  Every call on the disk and the context may fail
or be the point of a crash, so after each failure the token in memory and the
token in the file may differ in either direction.

What carries the argument is a bound below both: every token returned so far is
at most the version that any later opening reads from the file, and at most the
version that the running process holds (`Fenced`).  One event preserves it
(`Fenced.start`, `Fenced.next`), and a returned token is above it.

## Main results

* `tokens_never_reused` — over every run the returned tokens strictly increase;
  each follows the token in memory and the observed version without wrapping
  around, has a non-zero epoch, and exhaustion is reported.
-/

namespace StreamHive.Lifecycle

open Verified ByteString Effect FileSystem

/-! ## Runs -/

/-- The disk, and the authority of the process that runs, if one does. -/
structure AuthorityProcess where
  fs : FS
  live : Option Authority

/-- What can happen to the authority of one path and identity. -/
inductive AuthorityEvent where
  | start (o : Oracle) (random : UInt64) (options : AuthorityOptions)
  | next (o : Oracle) (observed : Version)
  | stop

/-- One call of `Next`, with the version then in memory and what it returned. -/
structure Allocation where
  oracle : Oracle
  observed : Version
  current : Version
  result : Except Error Version

namespace AuthorityProcess

/-- The process after `OpenAuthority`. -/
def opened : EStateM.Result Error FS Authority → AuthorityProcess
  | .ok a fs => ⟨fs, some a⟩
  | .error _ fs => ⟨fs, none⟩

/-- The process after `Next`; a crash ends it. -/
def continued : EStateM.Result Error (OnDisk Authority) Version → AuthorityProcess
  | .ok _ s => ⟨s.fs, some s.obj⟩
  | .error .crash s => ⟨s.fs, none⟩
  | .error _ s => ⟨s.fs, some s.obj⟩

/-- What `Next` returned. -/
def returned : EStateM.Result Error (OnDisk Authority) Version → Except Error Version
  | .ok v _ => .ok v
  | .error e _ => .error e

def step (S : Stdlib) (path : String) (authorityID : Bytes) (p : AuthorityProcess) :
    AuthorityEvent → AuthorityProcess
  | .start o random options =>
    opened (openAuthority S o random path authorityID options p.fs)
  | .next o observed =>
    match p.live with
    | none => p
    | some a => continued (Authority.next S o observed ⟨p.fs, a⟩)
  | .stop => ⟨p.fs, none⟩

/-- The allocation that an event makes. -/
def allocations (S : Stdlib) (p : AuthorityProcess) : AuthorityEvent → List Allocation
  | .next o observed =>
    match p.live with
    | none => []
    | some a =>
      [⟨o, observed, a.current, returned (Authority.next S o observed ⟨p.fs, a⟩)⟩]
  | _ => []

/-- All allocations of a run, in order. -/
def run (S : Stdlib) (path : String) (authorityID : Bytes) :
    AuthorityProcess → List AuthorityEvent → List Allocation
  | _, [] => []
  | p, e :: rest => p.allocations S e ++ run S path authorityID (p.step S path authorityID e) rest

end AuthorityProcess

/-- The tokens that calls returned. -/
def tokens (calls : List Allocation) : List Version :=
  calls.filterMap fun c => c.result.toOption

/-- What one call promises. -/
structure Allocation.Sound (c : Allocation) : Prop where
  follows : ∀ v, c.result = .ok v → Authority.Follows (max c.current c.observed) v
  observed : ∀ v, c.result = .ok v → c.observed < v
  epoch : ∀ v, c.result = .ok v → v.epoch ≠ 0
  exhausted : c.oracle (.ctxErr 2) = .proceed →
    max c.current c.observed = ⟨maxUint64, maxUint64⟩ →
      c.result = .error .authorityExhausted

/-! ## The bound below file and memory -/

section

variable {S : Stdlib} {path : String} {authorityID : Bytes} {bound : Version}
  {fs fs' : FS} {a : Authority}

/-- Nothing else is read from a file than the version it was written with. -/
theorem Authority.Wrote.stored (hS : S.Lawful) {version : Version}
    (h : a.Wrote S version fs fs') (hprint : S.isPrintable a.authorityID = true)
    {b : Authority} (hpath : b.path = a.path) {found : Version}
    (hfound : b.Stored S fs' found) : found = version := by
  obtain ⟨data, hdata, hdecode⟩ := hfound
  rw [hpath, h.replaced.read] at hdata
  have hbytes := Option.some.inj hdata
  unfold Authority.storedVersion at hdecode
  rw [except_bind_ok] at hdecode
  obtain ⟨state, hstate, hdecode⟩ := hdecode
  have heq : state = ⟨a.authorityID, version⟩ := by
    rw [← hbytes] at hstate
    exact Sidecar.eq_of_decode_bytes (f := authorityFile S) hS.authority hprint h.fits hstate
  rw [except_guard_ok, except_bind_ok] at hdecode
  obtain ⟨_, _, _, hversion⟩ := hdecode
  have hfound : state.version = found := Except.ok.inj hversion
  rw [← hfound, heq]

/-- Whatever is read from the file of the authority is at least the bound, and
there is a file unless the bound is zero. -/
structure Kept (S : Stdlib) (path : String) (authorityID : Bytes) (bound : Version)
    (fs : FS) : Prop where
  exists_file : fs.read (.file path) = none → bound = Version.zero
  bounded : ∀ (a : Authority) (version : Version), a.path = path →
    a.authorityID = authorityID → a.Stored S fs version → bound ≤ version

namespace Kept

theorem zero (fs : FS) : Kept S path authorityID Version.zero fs where
  exists_file := fun _ => rfl
  bounded := fun _ version _ _ _ => Version.zero_le version

/-- A version that covers the file is at least the bound. -/
theorem le (h : Kept S path authorityID bound fs) (hpath : a.path = path)
    (hid : a.authorityID = authorityID) {version : Version}
    (hcovers : a.Covers S fs version) : bound ≤ version := by
  rcases hcovers with hnone | ⟨stored, hstored, hle⟩
  · rw [hpath] at hnone
    rw [h.exists_file hnone]
    exact Version.zero_le version
  · exact (h.bounded a stored hpath hid hstored).trans hle

theorem untouched (h : Kept S path authorityID bound fs) (hfs : FS.Untouched fs fs') :
    Kept S path authorityID bound fs' where
  exists_file := by
    rw [hfs.read]
    exact h.exists_file
  bounded := by
    intro b version hpath hid hstored
    refine h.bounded b version hpath hid (hstored.of_read ?_)
    exact (hfs.read b.path).symm

theorem wrote (hS : S.Lawful) (hpath : a.path = path)
    (hprint : S.isPrintable a.authorityID = true) {version : Version}
    (hwrote : a.Wrote S version fs fs') (hle : bound ≤ version) :
    Kept S path authorityID bound fs' where
  exists_file := by
    intro hnone
    rw [← hpath, hwrote.replaced.read] at hnone
    cases hnone
  bounded := by
    intro b found hpath' _ hstored
    rw [hwrote.stored hS hprint (hpath'.trans hpath.symm) hstored]
    exact hle

theorem raised (hS : S.Lawful) (h : Kept S path authorityID bound fs) (hpath : a.path = path)
    (hid : a.authorityID = authorityID) (hraised : a.Raised S fs fs') :
    Kept S path authorityID bound fs' := by
  rcases hraised with huntouched | ⟨version, hprint, _, hcovers, hwrote⟩
  · exact h.untouched huntouched
  · exact wrote hS hpath hprint hwrote (h.le hpath hid hcovers)

end Kept

/-- The authority of a running process is one of this path and identity at a
valid version, at or above the bound. -/
structure Live (S : Stdlib) (path : String) (authorityID : Bytes) (bound : Version)
    (a : Authority) : Prop where
  path : a.path = path
  id : a.authorityID = authorityID
  printable : S.isPrintable a.authorityID = true
  epoch : a.current.epoch ≠ 0
  bounded : bound ≤ a.current

/-- File and memory are at or above the bound. -/
structure Fenced (S : Stdlib) (path : String) (authorityID : Bytes) (bound : Version)
    (p : AuthorityProcess) : Prop where
  kept : Kept S path authorityID bound p.fs
  live : ∀ a, p.live = some a → Live S path authorityID bound a

/-! ## One event -/

namespace Fenced

variable {p : AuthorityProcess}

theorem stopped (h : Kept S path authorityID bound fs) :
    Fenced S path authorityID bound ⟨fs, none⟩ where
  kept := h
  live := nofun

theorem start (hS : S.Lawful) (h : Fenced S path authorityID bound p) (o : Oracle)
    (random : UInt64) (options : AuthorityOptions) :
    Fenced S path authorityID bound
      (p.step S path authorityID (.start o random options)) := by
  have hopen := @openAuthority_triple S path authorityID options random hS o p.fs p.fs rfl
  show Fenced S path authorityID bound
    (AuthorityProcess.opened (openAuthority S o random path authorityID options p.fs))
  cases hrun : openAuthority S o random path authorityID options p.fs with
  | error e fs' =>
    rw [hrun] at hopen
    exact stopped (h.kept.raised hS rfl rfl hopen)
  | ok a fs' =>
    rw [hrun] at hopen
    have hpath : a.path = path := by rw [hopen.eq]; rfl
    have hid : a.authorityID = authorityID := by rw [hopen.eq]; rfl
    refine ⟨h.kept.raised hS hpath hid hopen.raised, ?_⟩
    intro b hb
    cases hb
    exact ⟨hpath, hid, hopen.printable, hopen.epoch, h.kept.le hpath hid hopen.covers⟩

/-- A failed call keeps the bound; a token is above it and becomes the new
bound. -/
theorem next (hS : S.Lawful) (h : Fenced S path authorityID bound p) {a : Authority}
    (hlive : p.live = some a) (o : Oracle) (observed : Version) :
    (∃ e s', Authority.next S o observed ⟨p.fs, a⟩ = .error e s' ∧
        Fenced S path authorityID bound (AuthorityProcess.continued (.error e s'))) ∨
      (∃ v s', Authority.next S o observed ⟨p.fs, a⟩ = .ok v s' ∧ bound < v ∧
        incrementAuthorityVersion (max a.current observed) = .ok v ∧
        Fenced S path authorityID v (AuthorityProcess.continued (.ok v s'))) := by
  have ha := h.live a hlive
  rcases Authority.next_spec (S := S) o observed ⟨p.fs, a⟩ with
    ⟨e, s', v, he, hobj, hle, hepoch, hfile, _⟩ | ⟨v, s', hok, hobj, hinc, hwrote⟩
  · refine .inl ⟨e, s', he, ?_⟩
    have hkept : Kept S path authorityID bound s'.fs := by
      rcases hfile with huntouched | ⟨hfits, hreplaced⟩
      · exact h.kept.untouched huntouched
      · exact Kept.wrote hS ha.path ha.printable ⟨hfits, hreplaced⟩
          (ha.bounded.trans hle)
    have hrunning : Fenced S path authorityID bound ⟨s'.fs, some s'.obj⟩ := by
      refine ⟨hkept, ?_⟩
      intro b hb
      cases hb
      rw [hobj]
      exact ⟨ha.path, ha.id, ha.printable, hepoch ha.epoch, ha.bounded.trans hle⟩
    unfold AuthorityProcess.continued
    split
    · next heq => cases heq
    · next heq =>
        cases heq
        exact stopped hkept
    · next heq =>
        cases heq
        exact hrunning
  · obtain ⟨hlt, hepoch⟩ := Authority.incrementAuthorityVersion_ok hinc
    have hbound : bound < v := ha.bounded.trans_lt ((le_max_left _ _).trans_lt hlt)
    refine .inr ⟨v, s', hok, hbound, hinc, ?_, ?_⟩
    · exact Kept.wrote hS ha.path ha.printable hwrote (le_refl v)
    · intro b hb
      cases hb
      rw [hobj]
      exact ⟨ha.path, ha.id, ha.printable, hepoch, le_refl v⟩

end Fenced

/-! ## Runs keep the bound -/

/-- The tokens of the calls ascend from the bound, and every call is sound. -/
structure Ascends (bound : Version) (calls : List Allocation) : Prop where
  above : ∀ v ∈ tokens calls, bound < v
  ascending : (tokens calls).Pairwise (· < ·)
  sound : ∀ c ∈ calls, c.Sound

theorem Ascends.nil : Ascends bound [] where
  above := by simp [tokens]
  ascending := by simp [tokens]
  sound := by simp

theorem Ascends.failed {c : Allocation} {rest : List Allocation} {e : Error}
    (hc : c.result = .error e) (hsound : c.Sound) (h : Ascends bound rest) :
    Ascends bound (c :: rest) := by
  have htokens : tokens (c :: rest) = tokens rest := by
    simp [tokens, hc, Except.toOption]
  refine ⟨?_, ?_, ?_⟩
  · rw [htokens]
    exact h.above
  · rw [htokens]
    exact h.ascending
  · exact List.forall_mem_cons.mpr ⟨hsound, h.sound⟩

theorem Ascends.issued {c : Allocation} {rest : List Allocation} {v : Version}
    (hc : c.result = .ok v) (hsound : c.Sound) (hlt : bound < v) (h : Ascends v rest) :
    Ascends bound (c :: rest) := by
  have htokens : tokens (c :: rest) = v :: tokens rest := by
    simp [tokens, hc, Except.toOption]
  refine ⟨?_, ?_, ?_⟩
  · rw [htokens]
    exact List.forall_mem_cons.mpr ⟨hlt, fun w hw => hlt.trans (h.above w hw)⟩
  · rw [htokens]
    exact List.pairwise_cons.mpr ⟨h.above, h.ascending⟩
  · exact List.forall_mem_cons.mpr ⟨hsound, h.sound⟩

/-- One call of a live authority is sound. -/
theorem Live.sound (ha : Live S path authorityID bound a) (fs : FS) (o : Oracle)
    (observed : Version) : Allocation.Sound ⟨o, observed, a.current,
      AuthorityProcess.returned (Authority.next S o observed ⟨fs, a⟩)⟩ := by
  have htoken : ∀ v, AuthorityProcess.returned (Authority.next S o observed ⟨fs, a⟩) =
      .ok v → incrementAuthorityVersion (max a.current observed) = .ok v := by
    intro v hv
    rcases Authority.next_spec (S := S) o observed ⟨fs, a⟩ with
      ⟨e, s', w, he, _⟩ | ⟨w, s', hok, _, hinc, _⟩
    · rw [he] at hv
      cases hv
    · rw [hok] at hv
      cases hv
      exact hinc
  refine ⟨?_, ?_, ?_, ?_⟩
  · intro v hv
    exact Authority.incrementAuthorityVersion_follows (htoken v hv)
  · intro v hv
    have hlt := (Authority.incrementAuthorityVersion_ok (htoken v hv)).1
    exact (le_max_right _ _).trans_lt hlt
  · intro v hv
    exact (Authority.incrementAuthorityVersion_ok (htoken v hv)).2
  · intro ho hmax
    obtain ⟨s', he, _⟩ := Authority.next_exhausted (S := S) (s := ⟨fs, a⟩) ho ha.epoch hmax
    show AuthorityProcess.returned (Authority.next S o observed ⟨fs, a⟩) = _
    rw [he]
    rfl

/-- A run from a fenced process ascends from the bound. -/
theorem Fenced.run (hS : S.Lawful) {p : AuthorityProcess}
    (h : Fenced S path authorityID bound p) (events : List AuthorityEvent) :
    Ascends bound (p.run S path authorityID events) := by
  induction events generalizing p bound with
  | nil => exact Ascends.nil
  | cons e rest ih =>
    unfold AuthorityProcess.run
    cases e with
    | start o random options => exact ih (h.start hS o random options)
    | stop => exact ih (stopped h.kept)
    | next o observed =>
      unfold AuthorityProcess.allocations AuthorityProcess.step
      cases hlive : p.live with
      | none => exact ih h
      | some a =>
        have hsound := (h.live a hlive).sound p.fs o observed
        rcases h.next hS hlive o observed with ⟨e, s', he, hfenced⟩ |
          ⟨v, s', hok, hlt, _, hfenced⟩
        · simp only [he] at hsound ⊢
          exact Ascends.failed rfl hsound (ih hfenced)
        · simp only [hok] at hsound ⊢
          exact Ascends.issued rfl hsound hlt (ih hfenced)

/-- Whatever fails and however often the process restarts, tokens ascend. -/
theorem tokens_never_reused (hS : S.Lawful) (path : String) (authorityID : Bytes) (fs : FS)
    (events : List AuthorityEvent) :
    (tokens ((AuthorityProcess.mk fs none).run S path authorityID events)).Pairwise
        (· < ·) ∧
      ∀ c ∈ (AuthorityProcess.mk fs none).run S path authorityID events, c.Sound := by
  have hfenced : Fenced S path authorityID Version.zero ⟨fs, none⟩ :=
    Fenced.stopped (Kept.zero fs)
  have hrun := hfenced.run hS events
  exact ⟨hrun.ascending, hrun.sound⟩

end

namespace Sample

/-- An allocation; one whose directory sync fails after the file is replaced; a
restart; an allocation that crashes before the file is replaced; a restart; an
allocation at the end of an epoch. -/
def authorityRun : List AuthorityEvent :=
  let options : AuthorityOptions := ⟨Limits.unset, 0, Version.zero⟩
  [.start Oracle.none 7 options, .next Oracle.none ⟨7, 4⟩,
    .next (Oracle.single .syncDirectory (.fail 0)) Version.zero, .stop,
    .start Oracle.none 9 options, .next (Oracle.single (.write 0) (.crash 3)) Version.zero,
    .start Oracle.none 9 options, .next Oracle.none ⟨7, maxUint64⟩]

end Sample

theorem tokens_never_reused_sample :
    tokens ((AuthorityProcess.mk FS.empty none).run goStdlib "authority" (ascii "node")
        Sample.authorityRun) = [⟨7, 5⟩, ⟨8, 1⟩] ∧
      (tokens ((AuthorityProcess.mk FS.empty none).run goStdlib "authority" (ascii "node")
        Sample.authorityRun)).Pairwise (· < ·) ∧
      ∀ c ∈ (AuthorityProcess.mk FS.empty none).run goStdlib "authority" (ascii "node")
        Sample.authorityRun, c.Sound :=
  ⟨by decide +kernel,
    tokens_never_reused goStdlib_lawful "authority" (ascii "node") FS.empty
      Sample.authorityRun⟩

end StreamHive.Lifecycle

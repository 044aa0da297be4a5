import StreamHive.Lifecycle.Types
import StreamHive.Verified.Effect
import StreamHive.Verified.FileSystem

/-!
# System calls that may fail

An `Oracle` decides, for every call a function makes on the operating system or
on its context, whether the call is performed, fails, or is the point at which
the process crashes.  A failing or crashing write may persist any part of its
bytes first.  A theorem quantified over oracles therefore speaks about every
failure of every call.

Paths are compared after `filepath.Clean` in the program; a path of the model
is a name in that form.

## Main result

* `atomicWrite_cases` — replacing a file through a temporary file either leaves
  every named file as it was, or installs the new bytes completely; an error
  with the new bytes installed comes from the directory sync alone.
-/

namespace StreamHive.Lifecycle

open Verified ByteString Effect FileSystem

/-- What becomes of one call. -/
inductive Verdict where
  | proceed
  | fail (persisted : Nat)
  | crash (persisted : Nat)
  deriving DecidableEq, Repr

/-- The verdict on every call of one function activation. -/
abbrev Oracle := Call → Verdict

/-- Every call is performed. -/
def Oracle.none : Oracle := fun _ => .proceed

/-- Exactly one call is not performed. -/
def Oracle.single (c : Call) (v : Verdict) : Oracle :=
  fun c' => if c' = c then v else .proceed

variable {σ : Type} {fs : FS} {o : Oracle} {i : Nat}

/-- A call on the operating system whose effect, if any, follows it. -/
def syscall (o : Oracle) (c : Call) : EStateM Error σ Unit :=
  match o c with
  | .proceed => pure ()
  | .fail _ => throw (.io c)
  | .crash _ => throw .crash

/-- A call whose effect may have happened although it failed. -/
def perform (o : Oracle) (c : Call) (effect : σ → σ) : EStateM Error σ Unit :=
  match o c with
  | .proceed => modify effect
  | .fail happened => do
    modify fun s => if happened = 0 then s else effect s
    throw (.io c)
  | .crash happened => do
    modify fun s => if happened = 0 then s else effect s
    throw .crash

/-- `ctx.Err()`, numbered within the activation. -/
def ctxErr (o : Oracle) (i : Nat) : EStateM Error σ Unit :=
  match o (.ctxErr i) with
  | .proceed => pure ()
  | .fail _ => throw .canceled
  | .crash _ => throw .crash

/-- `ctx.Err()` in a function without state. -/
def ctxCheck (o : Oracle) (i : Nat) : Except Error Unit :=
  match o (.ctxErr i) with
  | .proceed => .ok ()
  | .fail _ => .error .canceled
  | .crash _ => .error .crash

/-- Write all bytes at the end of an inode; a failing write may persist any
part of them. -/
def writeFull (o : Oracle) (i ino : Nat) (data : Bytes) : EStateM Error FS Unit :=
  match o (.write i) with
  | .proceed => modify fun fs => fs.extend ino data
  | .fail persisted => do
    modify fun fs => fs.extend ino (data.take persisted)
    throw (.io (.write i))
  | .crash persisted => do
    modify fun fs => fs.extend ino (data.take persisted)
    throw .crash

/-- `os.CreateTemp`: a new inode under a new temporary name. -/
def createTemp (o : Oracle) : EStateM Error FS Nat := do
  syscall o .createTemp
  let fs ← get
  set (fs.create (.temp fs.fresh))
  pure fs.fresh

/-- The deferred removal of a temporary file; a crashed process removes
nothing. -/
def removeTemp (n : Nat) (e : Error) (fs : FS) : FS :=
  if e = .crash then fs else fs.unlink (.temp n)

/-- Fill a temporary file and rename it; on an error it is removed. -/
def installTemp (o : Oracle) (n : Nat) (path : String) (data : Bytes) :
    EStateM Error FS Unit :=
  onError (removeTemp n) do
    writeFull o 0 n data
    syscall o .sync
    syscall o .close
    ctxErr o 1
    syscall o .rename
    modify fun fs => fs.rename (.temp n) (.file path)

/-- Replace a file through a synced temporary file and a rename. -/
def atomicWrite (o : Oracle) (path : String) (data : Bytes) :
    EStateM Error FS Unit := do
  ctxErr o 0
  let n ← createTemp o
  installTemp o n path data
  syscall o .syncDirectory

/-- An object of the program together with the file system it lives on. -/
structure OnDisk (α : Type) where
  fs : FS
  obj : α

/-- The object is the same; an inode has more bytes. -/
def OnDisk.extend {α : Type} (s : OnDisk α) (ino : Nat) (bytes : Bytes) : OnDisk α :=
  { s with fs := s.fs.extend ino bytes }

/-- Run a file operation beside an object. -/
def onFS {α β : Type} (x : EStateM Error FS β) : EStateM Error (OnDisk α) β :=
  zoom OnDisk.fs (fun s fs => { s with fs := fs }) x

theorem run_onFS {α β : Type} {x : EStateM Error FS β} {s : OnDisk α} {b : β}
    (h : x s.fs = .ok b fs) : onFS x s = .ok b { s with fs := fs } :=
  run_zoom h

theorem run_onFS_error {α β : Type} {x : EStateM Error FS β} {s : OnDisk α} {e : Error}
    (h : x s.fs = .error e fs) : onFS x s = .error e { s with fs := fs } := run_zoom_error h

/-- The places at which the operations above the file layer make their calls. -/
inductive Site where
  | entry
  | apply (i : Nat)
  | blob (i : Nat)
  | append (i : Nat)
  | install
  | checkpoint
  | rewrite
  | authority
  | coordinator
  | watermark
  | membership
  | journal
  | load
  | verify (i : Nat)
  | frame
  | page (i : Nat)
  | advertise (page start : Nat)
  | probe (i : Nat)
  | send (i : Nat)
  deriving DecidableEq, Repr

/-- The verdict on every call of one operation. -/
abbrev Faults := Site → Oracle

/-- Every call is performed. -/
def Faults.none : Faults := fun _ => Oracle.none

/-- Exactly one call is not performed. -/
def Faults.single (site : Site) (c : Call) (v : Verdict) : Faults :=
  fun site' => if site' = site then Oracle.single c v else Oracle.none

theorem Faults.single_ne_proceed {site site' : Site} {c c' : Call} {v : Verdict}
    (h : Faults.single site c v site' c' ≠ .proceed) : site' = site ∧ c' = c := by
  unfold Faults.single at h
  split at h
  · next hsite =>
      unfold Oracle.single at h
      split at h
      · next hc => exact ⟨hsite, hc⟩
      · exact absurd rfl h
  · exact absurd rfl h

theorem Faults.single_of_ne {site site' : Site} (hne : site' ≠ site) (c c' : Call)
    (v : Verdict) : Faults.single site c v site' c' = .proceed := by
  unfold Faults.single
  rw [if_neg hne]
  rfl

/-! ## Running single calls -/

theorem syscall_proceed {c : Call} (h : o c = .proceed) (s : σ) : syscall o c s = .ok () s := by
  unfold syscall
  rw [h]
  rfl

theorem syscall_refused {c : Call} (h : o c ≠ .proceed) (s : σ) :
    ∃ e, syscall o c s = .error e s := by
  unfold syscall
  cases hv : o c with
  | proceed => exact absurd hv h
  | fail _ | crash _ => exact ⟨_, rfl⟩

theorem ctxErr_proceed (h : o (.ctxErr i) = .proceed) (s : σ) : ctxErr o i s = .ok () s := by
  unfold ctxErr
  rw [h]
  rfl

theorem ctxErr_refused (h : o (.ctxErr i) ≠ .proceed) (s : σ) : ∃ e, ctxErr o i s = .error e s := by
  unfold ctxErr
  cases hv : o (.ctxErr i) with
  | proceed => exact absurd hv h
  | fail _ | crash _ => exact ⟨_, rfl⟩

theorem syscall_ok {c : Call} {s s' : σ} {u : Unit} (h : syscall o c s = .ok u s') :
    o c = .proceed ∧ s = s' := by
  by_cases hp : o c = .proceed
  · rw [syscall_proceed hp] at h
    cases h
    exact ⟨hp, rfl⟩
  · obtain ⟨e, he⟩ := syscall_refused hp s
    rw [he] at h
    cases h

theorem ctxErr_ok {s s' : σ} {u : Unit} (h : ctxErr o i s = .ok u s') :
    o (.ctxErr i) = .proceed ∧ s = s' := by
  by_cases hp : o (.ctxErr i) = .proceed
  · rw [ctxErr_proceed hp] at h
    cases h
    exact ⟨hp, rfl⟩
  · obtain ⟨e, he⟩ := ctxErr_refused hp s
    rw [he] at h
    cases h

theorem ctxCheck_ok : ctxCheck o i = .ok () ↔ o (.ctxErr i) = .proceed := by
  unfold ctxCheck
  cases o (.ctxErr i) <;> simp

theorem writeFull_proceed (h : o (.write i) = .proceed) (ino : Nat) (data : Bytes) (fs : FS) :
    writeFull o i ino data fs = .ok () (fs.extend ino data) := by
  unfold writeFull
  rw [h]
  rfl

theorem writeFull_refused (h : o (.write i) ≠ .proceed) (ino : Nat) (data : Bytes) (fs : FS) :
    ∃ e persisted,
      (o (.write i) = .fail persisted ∨ o (.write i) = .crash persisted) ∧
      writeFull o i ino data fs = .error e (fs.extend ino (data.take persisted)) := by
  unfold writeFull
  cases hv : o (.write i) with
  | proceed => exact absurd hv h
  | fail p => exact ⟨_, p, .inl rfl, rfl⟩
  | crash p => exact ⟨_, p, .inr rfl, rfl⟩

theorem writeFull_ok {ino : Nat} {data : Bytes} {fs' : FS} {u : Unit}
    (h : writeFull o i ino data fs = .ok u fs') :
    o (.write i) = .proceed ∧ fs' = fs.extend ino data := by
  by_cases hp : o (.write i) = .proceed
  · rw [writeFull_proceed hp] at h
    cases h
    exact ⟨hp, rfl⟩
  · obtain ⟨e, p, _, he⟩ := writeFull_refused hp ino data fs
    rw [he] at h
    cases h

theorem createTemp_proceed (h : o .createTemp = .proceed) (fs : FS) :
    createTemp o fs = .ok fs.fresh (fs.create (.temp fs.fresh)) := by
  unfold createTemp
  rw [run_bind_ok (syscall_proceed h fs)]
  rfl

theorem createTemp_refused (h : o .createTemp ≠ .proceed) (fs : FS) :
    ∃ e, createTemp o fs = .error e fs := by
  obtain ⟨e, he⟩ := syscall_refused h fs
  refine ⟨e, ?_⟩
  unfold createTemp
  rw [run_bind_error he]

theorem syscall_cases (o : Oracle) (c : Call) (s : σ) :
    (o c ≠ .proceed ∧ ∃ e, syscall o c s = .error e s) ∨
      (o c = .proceed ∧ syscall o c s = .ok () s) := by
  by_cases h : o c = .proceed
  · exact .inr ⟨h, syscall_proceed h s⟩
  · exact .inl ⟨h, syscall_refused h s⟩

theorem ctxErr_cases (o : Oracle) (i : Nat) (s : σ) :
    (o (.ctxErr i) ≠ .proceed ∧ ∃ e, ctxErr o i s = .error e s) ∨
      (o (.ctxErr i) = .proceed ∧ ctxErr o i s = .ok () s) := by
  by_cases h : o (.ctxErr i) = .proceed
  · exact .inr ⟨h, ctxErr_proceed h s⟩
  · exact .inl ⟨h, ctxErr_refused h s⟩

theorem syscall_error {c : Call} {s s' : σ} {e : Error} (h : syscall o c s = .error e s') :
    s' = s ∧ (e = .io c ∨ e = .crash) := by
  unfold syscall at h
  cases hv : o c with
  | proceed =>
    rw [hv] at h
    cases h
  | fail _ =>
    rw [hv] at h
    cases h
    exact ⟨rfl, .inl rfl⟩
  | crash _ =>
    rw [hv] at h
    cases h
    exact ⟨rfl, .inr rfl⟩

theorem ctxErr_error {s s' : σ} {e : Error} (h : ctxErr o i s = .error e s') :
    s' = s ∧ (e = .canceled ∨ e = .crash) := by
  unfold ctxErr at h
  cases hv : o (.ctxErr i) with
  | proceed =>
    rw [hv] at h
    cases h
  | fail _ =>
    rw [hv] at h
    cases h
    exact ⟨rfl, .inl rfl⟩
  | crash _ =>
    rw [hv] at h
    cases h
    exact ⟨rfl, .inr rfl⟩

theorem syscall_triple (o : Oracle) (c : Call) (P : σ → Prop) :
    Triple P (syscall o c) (fun _ s => P s) (fun _ s => P s) := by
  intro s hs
  rcases syscall_cases o c s with ⟨_, e, he⟩ | ⟨_, hok⟩
  · rw [he]
    exact hs
  · rw [hok]
    exact hs

theorem ctxErr_triple (o : Oracle) (i : Nat) (P : σ → Prop) :
    Triple P (ctxErr o i) (fun _ s => P s) (fun _ s => P s) := by
  intro s hs
  rcases ctxErr_cases o i s with ⟨_, e, he⟩ | ⟨_, hok⟩
  · rw [he]
    exact hs
  · rw [hok]
    exact hs

theorem perform_triple (o : Oracle) (c : Call) (effect : σ → σ) (s₀ : σ) :
    Triple (fun s => s = s₀) (perform o c effect) (fun _ s => s = effect s₀)
      (fun _ s => s = s₀ ∨ s = effect s₀) := by
  intro s hs
  subst hs
  unfold perform
  cases o c with
  | proceed => rfl
  | fail happened | crash happened =>
    by_cases hzero : happened = 0
    · exact .inl (if_pos hzero)
    · exact .inr (if_neg hzero)

/-! ## Temporary files -/

/-- The file system while a temporary file of number `n` holds `data`. -/
structure Staged (fs : FS) (n : Nat) (data : Bytes) (fs' : FS) : Prop where
  untouched : FS.Untouched fs fs'
  number : fs.fresh ≤ n
  linked : fs'.dir (.temp n) = some n
  content : fs'.content n = data

theorem Staged.create (fs : FS) :
    Staged fs fs.fresh [] (fs.create (.temp fs.fresh)) where
  untouched :=
    { dir := by
        intro name
        simp [FS.create]
      content := by
        intro i hi
        simp [FS.create, Nat.ne_of_lt hi]
      fresh := by
        simp [FS.create] }
  number := le_refl _
  linked := by simp [FS.create]
  content := by simp [FS.create]

theorem Staged.extend {fs' : FS} {n : Nat} {data : Bytes} (h : Staged fs n data fs')
    (more : Bytes) : Staged fs n (data ++ more) (fs'.extend n more) where
  untouched :=
    { dir := h.untouched.dir
      content := by
        intro i hi
        have hne : i ≠ n := by
          have := h.number
          omega
        simp only [FS.extend, FS.store, Function.update_of_ne hne]
        exact h.untouched.content i hi
      fresh := h.untouched.fresh }
  number := h.number
  linked := h.linked
  content := by simp [FS.extend, FS.store, h.content]

/-- Whatever happens to a staged file, its removal or its loss in a crash leaves
the named files as they were. -/
theorem Staged.removeTemp {fs' : FS} {n : Nat} {data : Bytes} (h : Staged fs n data fs')
    (e : Error) : FS.Untouched fs (removeTemp n e fs') := by
  unfold Lifecycle.removeTemp
  split
  · exact h.untouched
  · exact
      { dir := by
          intro name
          simp only [FS.unlink]
          rw [Function.update_of_ne (by simp)]
          exact h.untouched.dir name
        content := h.untouched.content
        fresh := h.untouched.fresh }

theorem Staged.rename {fs' : FS} {n : Nat} {data : Bytes} (h : Staged fs n data fs')
    (path : String) : FS.Replaced fs path data (fs'.rename (.temp n) (.file path)) where
  here := by
    refine ⟨n, ?_, h.number, h.content⟩
    simp only [FS.rename, if_true]
    exact h.linked
  dir := by
    intro other hne
    simp only [FS.rename, Path.file.injEq, hne, if_false, reduceCtorEq]
    exact h.untouched.dir other
  content := h.untouched.content
  fresh := h.untouched.fresh

/-- The calls of `atomicWrite` up to the rename. -/
def atomicWriteCalls : List Call :=
  [.ctxErr 0, .createTemp, .write 0, .sync, .close, .ctxErr 1, .rename]

theorem installTemp_cases (o : Oracle) (path : String) (data : Bytes) {fs₁ : FS} {n : Nat}
    (h : Staged fs n [] fs₁) :
    (∃ e fs', installTemp o n path data fs₁ = .error e fs' ∧
        FS.Untouched fs fs' ∧ ∃ c ∈ atomicWriteCalls, o c ≠ .proceed) ∨
      (∃ fs', installTemp o n path data fs₁ = .ok () fs' ∧
        FS.Replaced fs path data fs' ∧
        ∀ c ∈ [.write 0, .sync, .close, .ctxErr 1, .rename], o c = .proceed) := by
  have hdata := h.extend data
  rw [List.nil_append] at hdata
  by_cases hwrite : o (.write 0) = .proceed
  swap
  · obtain ⟨e, p, _, he⟩ := writeFull_refused hwrite n data fs₁
    exact .inl ⟨e, _, run_onError_error (run_bind_error he),
      (h.extend (data.take p)).removeTemp e, .write 0, by decide, hwrite⟩
  have hw := writeFull_proceed hwrite n data fs₁
  rcases syscall_cases o .sync (fs₁.extend n data) with ⟨hsync, e, he⟩ | ⟨hsync, hs⟩
  · refine .inl ⟨e, _, run_onError_error ?_, hdata.removeTemp e, .sync, by decide, hsync⟩
    rw [run_bind_ok hw, run_bind_error he]
  rcases syscall_cases o .close (fs₁.extend n data) with ⟨hclose, e, he⟩ | ⟨hclose, hc⟩
  · refine .inl ⟨e, _, run_onError_error ?_, hdata.removeTemp e, .close, by decide,
      hclose⟩
    rw [run_bind_ok hw, run_bind_ok hs, run_bind_error he]
  rcases ctxErr_cases o 1 (fs₁.extend n data) with ⟨hctx, e, he⟩ | ⟨hctx, hx⟩
  · refine .inl ⟨e, _, run_onError_error ?_, hdata.removeTemp e, .ctxErr 1, by decide,
      hctx⟩
    rw [run_bind_ok hw, run_bind_ok hs, run_bind_ok hc, run_bind_error he]
  rcases syscall_cases o .rename (fs₁.extend n data) with ⟨hrename, e, he⟩ | ⟨hrename, hr⟩
  · refine .inl ⟨e, _, run_onError_error ?_, hdata.removeTemp e, .rename, by decide,
      hrename⟩
    rw [run_bind_ok hw, run_bind_ok hs, run_bind_ok hc, run_bind_ok hx,
      run_bind_error he]
  refine .inr ⟨_, run_onError ?_, hdata.rename path, ?_⟩
  · rw [run_bind_ok hw, run_bind_ok hs, run_bind_ok hc, run_bind_ok hx, run_bind_ok hr]
    rfl
  · simp [hwrite, hsync, hclose, hctx, hrename]

/-- Replacing a file leaves every named file as it was, or installs the new
bytes completely. -/
theorem atomicWrite_cases (o : Oracle) (path : String) (data : Bytes) (fs : FS) :
    (∃ e fs', atomicWrite o path data fs = .error e fs' ∧ FS.Untouched fs fs' ∧
        ∃ c ∈ atomicWriteCalls, o c ≠ .proceed) ∨
      (∃ e fs', atomicWrite o path data fs = .error e fs' ∧
        FS.Replaced fs path data fs' ∧ (∀ c ∈ atomicWriteCalls, o c = .proceed) ∧
        o .syncDirectory ≠ .proceed) ∨
      (∃ fs', atomicWrite o path data fs = .ok () fs' ∧
        FS.Replaced fs path data fs' ∧ (∀ c ∈ atomicWriteCalls, o c = .proceed) ∧
        o .syncDirectory = .proceed) := by
  unfold atomicWrite
  rcases ctxErr_cases o 0 fs with ⟨hctx, e, he⟩ | ⟨hctx, hx⟩
  · exact .inl ⟨e, fs, run_bind_error he, FS.Untouched.refl fs, .ctxErr 0,
      by decide, hctx⟩
  rw [run_bind_ok hx]
  by_cases htemp : o .createTemp = .proceed
  swap
  · obtain ⟨e, he⟩ := createTemp_refused htemp fs
    exact .inl ⟨e, fs, run_bind_error he, FS.Untouched.refl fs, .createTemp,
      by decide, htemp⟩
  rw [run_bind_ok (createTemp_proceed htemp fs)]
  rcases installTemp_cases o path data (Staged.create fs) with
    ⟨e, fs', hrun, huntouched, hcall⟩ | ⟨fs', hrun, hreplaced, hcalls⟩
  · exact .inl ⟨e, fs', run_bind_error hrun, huntouched, hcall⟩
  have hall : ∀ c ∈ atomicWriteCalls, o c = .proceed := by
    intro c hc
    simp only [atomicWriteCalls, List.mem_cons] at hc
    rcases hc with rfl | rfl | hc
    · exact hctx
    · exact htemp
    · exact hcalls c (by simpa using hc)
  rw [run_bind_ok hrun]
  rcases syscall_cases o .syncDirectory fs' with ⟨hsync, e, he⟩ | ⟨hsync, hs⟩
  · exact .inr (.inl ⟨e, fs', he, hreplaced, hall, hsync⟩)
  · exact .inr (.inr ⟨fs', hs, hreplaced, hall, hsync⟩)

/-! ## Runs in which the disk works -/

/-- The calls on the disk; the others are checks of the context, calls on the
blob store and frames written to a peer. -/
def Call.OnDisk : Call → Prop
  | .ctxErr _ | .blobGet | .blobPut | .blobHas | .listKeys | .writeFrame => False
  | _ => True

/-- Every call on the disk is performed and the process does not crash; contexts
may be cancelled, and calls on the blob store and the peer may fail. -/
structure Oracle.Soft (o : Oracle) : Prop where
  disk : ∀ c : Call, c.OnDisk → o c = .proceed
  alive : ∀ c n, o c ≠ .crash n

def Faults.Soft (F : Faults) : Prop := ∀ site, (F site).Soft

theorem Faults.none_soft : Faults.none.Soft := by
  intro site
  exact ⟨fun _ _ => rfl, fun _ _ => nofun⟩

/-- When the disk works, an atomic write fails only with its context, and then
changes nothing. -/
theorem atomicWrite_soft (ho : o.Soft) (path : String) (data : Bytes) (fs : FS) :
    (∃ e fs', atomicWrite o path data fs = .error e fs' ∧ FS.Untouched fs fs' ∧
        ∃ i < 2, o (.ctxErr i) ≠ .proceed) ∨
      (∃ fs', atomicWrite o path data fs = .ok () fs' ∧ FS.Replaced fs path data fs') := by
  rcases atomicWrite_cases o path data fs with ⟨e, fs', hrun, hfs, c, hc, hrefused⟩ |
    ⟨e, fs', _, _, _, hsync⟩ | ⟨fs', hrun, hfs, _⟩
  · refine .inl ⟨e, fs', hrun, hfs, ?_⟩
    simp only [atomicWriteCalls, List.mem_cons, List.not_mem_nil, or_false] at hc
    rcases hc with rfl | rfl | rfl | rfl | rfl | rfl | rfl
    · exact ⟨0, by omega, hrefused⟩
    iterate 4 exact (hrefused (ho.disk _ trivial)).elim
    · exact ⟨1, by omega, hrefused⟩
    · exact (hrefused (ho.disk _ trivial)).elim
  · exact (hsync (ho.disk _ trivial)).elim
  · exact .inr ⟨fs', hrun, hfs⟩

end StreamHive.Lifecycle

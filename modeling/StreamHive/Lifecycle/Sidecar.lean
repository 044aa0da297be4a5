import StreamHive.Lifecycle.Envelope
import StreamHive.Lifecycle.Disk

/-!
# Sidecar files

The watermark book, the authority and the membership book each keep one JSON
value in one checksummed envelope, replaced as a whole.  They differ in the type
of the value, in the bound on the file and in the errors they report.  A
`Sidecar` names these; the two functions that the three books share are written
once over it.

## Main results

* `Sidecar.persist_spec` — a value is written completely or not at all, and
  written when the call succeeds;
* `Sidecar.decode_bytes` — the value written is the value read.
-/

namespace StreamHive.Lifecycle

open Verified ByteString Effect FileSystem

/-- The JSON of a file and the errors it is reported with. -/
structure Sidecar (α : Type) where
  json : Json α
  corrupt : Error
  checksum : Error
  limit : Error

/-- `os.ReadFile`; `none` when the file does not exist. -/
def readFile (o : Oracle) (path : String) : EStateM Error FS (Option Bytes) := do
  syscall o .openFile
  let fs ← get
  match fs.read (.file path) with
  | none => pure none
  | some data => do
    syscall o .read
    pure (some data)

theorem readFile_proceed {o : Oracle} (ho : ∀ c, o c = .proceed) (path : String)
    (fs : FS) : readFile o path fs = .ok (fs.read (.file path)) fs := by
  unfold readFile
  rw [run_bind_ok (syscall_proceed (ho _) fs), run_bind_get]
  cases fs.read (.file path) with
  | none => rfl
  | some data => exact run_bind_ok (syscall_proceed (ho _) fs)

theorem readFile_triple (o : Oracle) (path : String) (fs₀ : FS) :
    Triple (fun fs => fs = fs₀) (readFile o path)
      (fun data fs => fs = fs₀ ∧ data = fs₀.read (.file path)) (fun _ fs => fs = fs₀) := by
  refine Triple.bind (syscall_triple o .openFile _) fun _ => ?_
  refine Triple.get_bind fun fs hfs => ?_
  subst hfs
  cases hread : fs.read (.file path) with
  | none => exact Triple.pure fun _ h => ⟨h, rfl⟩
  | some data =>
    exact Triple.bind (syscall_triple o .read _) fun _ => Triple.pure fun _ h => ⟨h, rfl⟩

theorem readFile_ok {o : Oracle} {path : String} {fs fs' : FS} {data : Option Bytes}
    (h : readFile o path fs = .ok data fs') :
    fs' = fs ∧ data = fs.read (.file path) := (readFile_triple o path fs).ok rfl h

namespace Sidecar

variable {α : Type}

/-- Encode a value, check its size and replace the file. -/
def persist (S : Stdlib) (o : Oracle) (f : Sidecar α) (path : String) (maxBytes : Int)
    (value : α) : EStateM Error FS Unit := do
  let bytes ← attempt ((encodeEnvelope S (f.json.marshal value)).mapError
    (.joined f.corrupt))
  raiseIf (bytes.length > maxBytes) f.limit
  atomicWrite o path bytes

/-- The value held by the bytes of a file. -/
def decode (S : Stdlib) (f : Sidecar α) (maxBytes : Int) (data : Bytes) :
    Except Error α :=
  if data.length = 0 then
    .error f.corrupt
  else if data.length > maxBytes then
    .error f.limit
  else do
    let (payload, next) ← decodeEnvelope S data 0 maxBytes f.corrupt f.checksum
    if next ≠ data.length then
      .error f.corrupt
    else
      match f.json.decode payload with
      | .one value => .ok value
      | .malformed => .error (.joined f.corrupt .json)
      | .second => .error f.corrupt
      | .garbage => .error (.joined f.corrupt .json)

/-- The bytes of the file for a value. -/
def bytes (S : Stdlib) (f : Sidecar α) (value : α) : Bytes :=
  envelope S (f.json.marshal value)

/-- The value fits its file. -/
structure Writable (S : Stdlib) (f : Sidecar α) (maxBytes : Int) (value : α) : Prop where
  nonempty : f.json.marshal value ≠ []
  word : (f.json.marshal value).length ≤ maxUint32
  bytes : (f.bytes S value).length ≤ maxBytes

variable {S : Stdlib} {f : Sidecar α} {maxBytes : Int} {value : α}

/-- A value that does not fit is refused; one that fits is written. -/
theorem persist_cases (o : Oracle) (path : String) (fs : FS) :
    (∃ e, f.persist S o path maxBytes value fs = .error e fs ∧
        ¬ f.Writable S maxBytes value) ∨
      (f.Writable S maxBytes value ∧
        f.persist S o path maxBytes value fs = atomicWrite o path (f.bytes S value) fs) := by
  unfold persist
  cases hencode : encodeEnvelope S (f.json.marshal value) with
  | error e =>
    refine .inl ⟨.joined f.corrupt e, run_bind_error (run_attempt_error rfl), ?_⟩
    intro h
    rw [encodeEnvelope_eq_ok.mpr ⟨h.nonempty, h.word, rfl⟩] at hencode
    cases hencode
  | ok bytes =>
    obtain ⟨hne, hword, rfl⟩ := encodeEnvelope_eq_ok.mp hencode
    have hok : (Except.ok (envelope S (f.json.marshal value))).mapError
        (Error.joined f.corrupt) = .ok (envelope S (f.json.marshal value)) := rfl
    rw [hok, run_bind_ok (run_attempt rfl)]
    by_cases hlen : ((envelope S (f.json.marshal value)).length : Int) > maxBytes
    · refine .inl ⟨f.limit, run_bind_error (run_raiseIf_error hlen), ?_⟩
      intro h
      exact absurd h.bytes (not_le.mpr hlen)
    · refine .inr ⟨⟨hne, hword, not_lt.mp hlen⟩, ?_⟩
      rw [run_bind_ok (run_raiseIf hlen)]
      rfl

/-- The file is as before, or it holds the value. -/
def OldOrNew (S : Stdlib) (f : Sidecar α) (path : String) (maxBytes : Int) (value : α)
    (fs fs' : FS) : Prop :=
  FS.Untouched fs fs' ∨
    (f.Writable S maxBytes value ∧ FS.Replaced fs path (f.bytes S value) fs')

/-- A failed call leaves the old file or the new one, and the old one when the
disk works; a successful call has written the value. -/
theorem persist_spec (o : Oracle) (path : String) (fs : FS) :
    (∃ e fs', f.persist S o path maxBytes value fs = .error e fs' ∧
        f.OldOrNew S path maxBytes value fs fs' ∧
        (o.Soft → FS.Untouched fs fs' ∧
          (¬ f.Writable S maxBytes value ∨ ∃ i < 2, o (.ctxErr i) ≠ .proceed))) ∨
      (∃ fs', f.persist S o path maxBytes value fs = .ok () fs' ∧
        f.Writable S maxBytes value ∧ FS.Replaced fs path (f.bytes S value) fs') := by
  rcases @persist_cases α S f maxBytes value o path fs with ⟨e, he, hnot⟩ | ⟨hfits, heq⟩
  · have hrefl := FS.Untouched.refl fs
    exact .inl ⟨e, fs, he, .inl hrefl, fun _ => ⟨hrefl, .inl hnot⟩⟩
  rw [heq]
  rcases atomicWrite_cases o path (f.bytes S value) fs with ⟨e, fs', he, hfs, _⟩ |
    ⟨e, fs', he, hfs, _⟩ | ⟨fs', hok, hfs, _⟩
  · refine .inl ⟨e, fs', he, .inl hfs, fun ho => ?_⟩
    rcases atomicWrite_soft ho path (f.bytes S value) fs with ⟨_, _, he', _, hctx⟩ |
      ⟨_, hok, _⟩
    · exact ⟨hfs, .inr hctx⟩
    · rw [hok] at he
      cases he
  · refine .inl ⟨e, fs', he, .inr ⟨hfits, hfs⟩, fun ho => ?_⟩
    rcases atomicWrite_soft ho path (f.bytes S value) fs with ⟨_, _, he', hfs', hctx⟩ |
      ⟨_, hok, _⟩
    · rw [he'] at he
      cases he
      exact ⟨hfs', .inr hctx⟩
    · rw [hok] at he
      cases he
  · exact .inr ⟨fs', hok, hfits, hfs⟩

/-- When the disk works, a value is written completely or nothing changes. -/
theorem persist_soft {o : Oracle} (ho : o.Soft) (path : String) (fs : FS) :
    (∃ e fs', f.persist S o path maxBytes value fs = .error e fs' ∧
        FS.Untouched fs fs' ∧
        (¬ f.Writable S maxBytes value ∨ ∃ i < 2, o (.ctxErr i) ≠ .proceed)) ∨
      (∃ fs', f.persist S o path maxBytes value fs = .ok () fs' ∧
        f.Writable S maxBytes value ∧ FS.Replaced fs path (f.bytes S value) fs') := by
  rcases @persist_spec α S f maxBytes value o path fs with ⟨e, fs', he, _, hsoft⟩ | hok
  · exact .inl ⟨e, fs', he, hsoft ho⟩
  · exact .inr hok

/-- A successful call has written the value. -/
theorem persist_ok {o : Oracle} {path : String} {fs fs' : FS} {u : Unit}
    (h : f.persist S o path maxBytes value fs = .ok u fs') :
    f.Writable S maxBytes value ∧ FS.Replaced fs path (f.bytes S value) fs' := by
  rcases @persist_spec α S f maxBytes value o path fs with ⟨e, fs₁, he, _⟩ |
    ⟨fs₁, hok, hwritten⟩
  · rw [he] at h
    cases h
  · rw [hok] at h
    cases h
    exact hwritten

/-- The value written is the value read. -/
theorem decode_bytes {P : α → Prop} (hjson : f.json.RoundTrips P) (hvalue : P value)
    (h : f.Writable S maxBytes value) :
    f.decode S maxBytes (f.bytes S value) = .ok value := by
  have hbytes := h.bytes
  have hlen : (f.bytes S value).length = (f.json.marshal value).length + 8 := by
    unfold bytes
    rw [length_envelope]
    omega
  have hdecode := decodeEnvelope_envelope S h.nonempty h.word
    (show ((f.json.marshal value).length : Int) ≤ maxBytes by omega) f.corrupt f.checksum
  unfold decode
  rw [except_guard_ok, except_guard_ok, except_bind_ok]
  refine ⟨by omega, by omega, _, hdecode, ?_⟩
  rw [except_guard_ok]
  refine ⟨by simp [bytes], ?_⟩
  rw [hjson.decode_marshal value hvalue]

/-- A file that can be read is within the bound. -/
theorem length_of_decode {data : Bytes} (h : f.decode S maxBytes data = .ok value) :
    (data.length : Int) ≤ maxBytes := by
  unfold decode at h
  rw [except_guard_ok, except_guard_ok] at h
  exact not_lt.mp h.2.1

/-- Under any bound, nothing else is read from the file of a value. -/
theorem eq_of_decode_bytes {P : α → Prop} (hjson : f.json.RoundTrips P) (hvalue : P value)
    (hfits : f.Writable S maxBytes value) {bound : Int} {found : α}
    (h : f.decode S bound (f.bytes S value) = .ok found) : found = value := by
  have hbound : ((f.bytes S value).length : Int) ≤ bound := length_of_decode h
  rw [decode_bytes hjson hvalue ⟨hfits.nonempty, hfits.word, hbound⟩] at h
  exact (Except.ok.inj h).symm

end Sidecar

end StreamHive.Lifecycle

import StreamHive.Verified.ByteReader
import StreamHive.Verified.Effect

/-!
# Frames on a stream

A frame is the magic, the length of the payload in four bytes, and the payload.  The
declared length tells where the next frame begins, so a stream of frames is read back
payload by payload, whatever pieces it arrives in; a stream that is cut gives the
payloads of its complete frames and then an error.

## Main result

* `frame_stream` — reading a stream of frames, and every proper prefix of it.
-/

namespace StreamHive.Transport

open Verified ByteString ByteReader Effect

variable {payload : Bytes} {r : Reader}

/-! ## The program -/

def frameMagic : Bytes := ascii "SHV1"

/-- The largest payload when no bound is given. -/
def defaultMaxFrameBytes : Int := 4194304

inductive FrameError where
  | badMagic
  | frameTooLarge
  | read (e : ReadError)
  | write
  deriving DecidableEq, Repr

/-- The bound on a payload, the default when it is not positive. -/
def payloadBound (maxPayload : Int) : Int :=
  if maxPayload ≤ 0 then defaultMaxFrameBytes else maxPayload

/-- The magic and the length of the payload, as 32 bits. -/
def frameHeader (payload : Bytes) : Bytes :=
  frameMagic ++ beEncode 4 (payload.length % 2 ^ 32)

/-- Write one frame with two writes. -/
def writeFrame {σ : Type} (write : Bytes → EStateM FrameError σ Unit) (payload : Bytes)
    (maxPayload : Int) : EStateM FrameError σ Unit := do
  raiseIf (payload.length > payloadBound maxPayload) .frameTooLarge
  write (frameHeader payload)
  write payload

/-- Read one frame. -/
def readFrame (maxPayload : Int) : EStateM FrameError Reader Bytes := do
  let magic ← Reader.readFull .read 4
  raiseIf (magic ≠ frameMagic) .badMagic
  let lenBuf ← Reader.readFull .read 4
  let n := beDecode lenBuf
  raiseIf (n > payloadBound maxPayload) .frameTooLarge
  if n = 0 then
    pure []
  else
    Reader.readFull .read n

/-! ## Series of calls -/

/-- A writer that keeps what is written. -/
def keep (data : Bytes) : EStateM FrameError Bytes Unit := modify (· ++ data)

/-- Write the payloads one after another. -/
def writeFrames (maxPayload : Int) (payloads : List Bytes) : EStateM FrameError Bytes Unit :=
  forEach (fun _ payload => writeFrame keep payload maxPayload) 0 payloads

/-- The results of `n` calls of `readFrame`, and the reader after them. -/
def readFrames (maxPayload : Int) : Nat → Reader → List (Except FrameError Bytes) × Reader
  | 0, r => ([], r)
  | n + 1, r =>
    match readFrame maxPayload r with
    | .ok payload r' => ((readFrames maxPayload n r').map (.ok payload :: ·) id)
    | .error e r' => ((readFrames maxPayload n r').map (.error e :: ·) id)

/-! ## One frame -/

/-- The bytes of a frame. -/
def frameBytes (payload : Bytes) : Bytes := frameHeader payload ++ payload

section Frames

variable {m : Int}

theorem payloadBound_of_pos (h : 1 ≤ m) : payloadBound m = m :=
  if_neg (by omega)

theorem length_frameMagic : frameMagic.length = 4 := rfl

theorem run_writeFrame (hm : 1 ≤ m) (hfit : payload.length ≤ m) (out : Bytes) :
    writeFrame keep payload m out = .ok () (out ++ frameBytes payload) := by
  unfold writeFrame
  rw [run_bind_ok (run_raiseIf (by rw [payloadBound_of_pos hm]; omega))]
  show EStateM.Result.ok () ((out ++ frameHeader payload) ++ payload) = _
  rw [List.append_assoc]
  rfl

theorem run_writeFrames (hm : 1 ≤ m) {payloads : List Bytes}
    (hfit : ∀ p ∈ payloads, p.length ≤ m) (out : Bytes) :
    writeFrames m payloads out = .ok () (out ++ payloads.flatMap frameBytes) := by
  unfold writeFrames
  generalize 0 = i
  induction payloads generalizing i out with
  | nil =>
    simp [forEach]
    rfl
  | cons p rest ih =>
    unfold forEach
    rw [run_bind_ok (run_writeFrame hm (hfit p List.mem_cons_self) out)]
    rw [ih (fun q hq => hfit q (List.mem_cons_of_mem p hq))]
    rw [List.flatMap_cons, List.append_assoc]

/-- The length that a header declares. -/
theorem beDecode_length (h : payload.length < 2 ^ 32) :
    beDecode (beEncode 4 (payload.length % 2 ^ 32)) = payload.length := by
  rw [Nat.mod_eq_of_lt h]
  exact beDecode_beEncode 4 _ (by omega)

/-- After the magic and the length, the payload is what is left to read. -/
theorem run_readFrame_body (hm : 1 ≤ m) (hword : m < 2 ^ 32) (hfit : payload.length ≤ m)
    {r₁ r₂ : Reader} (hmagic : Reader.readFull FrameError.read 4 r = .ok frameMagic r₁)
    (hlength : Reader.readFull FrameError.read 4 r₁ =
      .ok (beEncode 4 (payload.length % 2 ^ 32)) r₂) : readFrame m r =
      (if payload.length = 0 then pure []
        else Reader.readFull FrameError.read payload.length : EStateM FrameError Reader Bytes)
        r₂ := by
  have hdeclared := @beDecode_length payload (by omega)
  unfold readFrame
  rw [run_bind_ok hmagic, run_bind_ok (run_raiseIf (fun h => h rfl)), run_bind_ok hlength]
  simp only [hdeclared]
  rw [run_bind_ok (run_raiseIf (by rw [payloadBound_of_pos hm]; omega))]

theorem frameBytes_append (payload rest : Bytes) :
    frameBytes payload ++ rest =
      frameMagic ++ (beEncode 4 (payload.length % 2 ^ 32) ++ (payload ++ rest)) := by
  unfold frameBytes frameHeader
  simp only [List.append_assoc]

/-- A complete frame is read, and what follows it is left. -/
theorem readFrame_ok (hm : 1 ≤ m) (hword : m < 2 ^ 32) {rest : Bytes}
    (hfit : payload.length ≤ m) (h : r.unread = frameBytes payload ++ rest) :
    ∃ r', readFrame m r = .ok payload r' ∧ r'.unread = rest := by
  rw [frameBytes_append] at h
  obtain ⟨r₁, hmagic, hrest₁⟩ := Reader.run_readFull_append FrameError.read h length_frameMagic
  obtain ⟨r₂, hlength, hrest₂⟩ :=
    Reader.run_readFull_append FrameError.read hrest₁ (length_beEncode 4 _)
  rw [run_readFrame_body hm hword hfit hmagic hlength]
  by_cases hempty : payload.length = 0
  · rw [if_pos hempty, List.length_eq_zero_iff.mp hempty]
    rw [List.length_eq_zero_iff.mp hempty] at hrest₂
    exact ⟨r₂, rfl, hrest₂⟩
  · rw [if_neg hempty]
    exact Reader.run_readFull_append FrameError.read hrest₂ rfl

/-- A frame that declares more than the bound is refused. -/
theorem readFrame_large (hm : 1 ≤ m) {rest : Bytes} (hword : payload.length < 2 ^ 32)
    (hlarge : m < payload.length) (h : r.unread = frameBytes payload ++ rest) :
    ∃ r', readFrame m r = .error .frameTooLarge r' := by
  rw [frameBytes_append] at h
  obtain ⟨r₁, hmagic, hrest₁⟩ := Reader.run_readFull_append FrameError.read h length_frameMagic
  obtain ⟨r₂, hlength, _⟩ := Reader.run_readFull_append FrameError.read hrest₁
    (length_beEncode 4 _)
  refine ⟨r₂, ?_⟩
  unfold readFrame
  rw [run_bind_ok hmagic, run_bind_ok (run_raiseIf (fun h => h rfl)), run_bind_ok hlength]
  refine run_bind_error (run_raiseIf_error ?_)
  rw [payloadBound_of_pos hm, beDecode_length hword]
  exact hlarge

/-- A frame that is cut is not read, and nothing is left. -/
theorem readFrame_cut (hm : 1 ≤ m) (hword : m < 2 ^ 32) (hfit : payload.length ≤ m)
    (h : r.unread <+: frameBytes payload) (hne : r.unread ≠ frameBytes payload) :
    ∃ e r', readFrame m r = .error e r' ∧ r'.unread = [] := by
  have hsplit := frameBytes_append payload []
  rw [List.append_nil, List.append_nil] at hsplit
  rw [hsplit] at h hne
  cases Reader.run_readFull_prefix FrameError.read h length_frameMagic with
  | inl hcut =>
    obtain ⟨e, r', hread, hnil⟩ := hcut
    exact ⟨_, r', run_bind_error hread, hnil⟩
  | inr hread₁ =>
    obtain ⟨r₁, hmagic, heq₁, hpre₁⟩ := hread₁
    cases Reader.run_readFull_prefix FrameError.read hpre₁ (length_beEncode 4 _) with
    | inl hcut =>
      obtain ⟨e, r', hread, hnil⟩ := hcut
      refine ⟨.read e, r', ?_, hnil⟩
      unfold readFrame
      rw [run_bind_ok hmagic, run_bind_ok (run_raiseIf (fun h => h rfl))]
      exact run_bind_error hread
    | inr hread₂ =>
      obtain ⟨r₂, hlength, heq₂, hpre₂⟩ := hread₂
      -- the payload is cut, so it is not empty
      have hshort : r₂.unread.length < payload.length := by
        refine lt_of_le_of_ne hpre₂.length_le fun hlen => hne ?_
        rw [heq₁, heq₂, hpre₂.eq_of_length hlen]
      rw [run_readFrame_body hm hword hfit hmagic hlength, if_neg (by omega)]
      obtain ⟨r', hread, hnil⟩ := Reader.run_readFull_error FrameError.read hshort
      exact ⟨_, r', hread, hnil⟩

/-- At the end of a stream every read fails. -/
theorem readFrame_end (h : r.unread = []) :
    ∃ e r', readFrame m r = .error e r' ∧ r'.unread = [] := by
  have hshort : r.unread.length < 4 := by
    rw [h]
    decide
  obtain ⟨r', hread, hnil⟩ := Reader.run_readFull_error FrameError.read hshort
  exact ⟨_, r', run_bind_error hread, hnil⟩

/-! ## A stream of frames -/

theorem readFrames_succ_ok {r' : Reader} (h : readFrame m r = .ok payload r') (n : Nat) :
    readFrames m (n + 1) r = (readFrames m n r').map (.ok payload :: ·) id := by
  rw [readFrames, h]

theorem readFrames_succ_error {r' : Reader} {e : FrameError} (h : readFrame m r = .error e r')
    (n : Nat) : readFrames m (n + 1) r = (readFrames m n r').map (.error e :: ·) id := by
  rw [readFrames, h]

theorem readFrames_ok (hm : 1 ≤ m) (hword : m < 2 ^ 32) {payloads : List Bytes}
    (hfit : ∀ p ∈ payloads, p.length ≤ m) {rest : Bytes} (n : Nat) :
    ∀ {r : Reader}, r.unread = payloads.flatMap frameBytes ++ rest →
      ∃ r', r'.unread = rest ∧ readFrames m (payloads.length + n) r =
        (readFrames m n r').map (payloads.map Except.ok ++ ·) id := by
  induction payloads with
  | nil =>
    intro r h
    refine ⟨r, h, ?_⟩
    rw [List.length_nil, Nat.zero_add]
    rfl
  | cons p payloads ih =>
    intro r h
    rw [List.flatMap_cons, List.append_assoc] at h
    obtain ⟨r₁, hread, hrest⟩ := readFrame_ok hm hword (hfit p List.mem_cons_self) h
    obtain ⟨r', hrest', hreads⟩ := ih (fun q hq => hfit q (List.mem_cons_of_mem p hq)) hrest
    refine ⟨r', hrest', ?_⟩
    rw [List.length_cons, Nat.add_right_comm]
    rw [readFrames_succ_ok hread, hreads]
    rfl

theorem readFrames_end (n : Nat) :
    ∀ {r : Reader}, r.unread = [] →
      ∃ errors : List FrameError, errors.length = n ∧
        (readFrames m n r).1 = errors.map Except.error := by
  induction n with
  | zero =>
    intro r _
    exact ⟨[], rfl, rfl⟩
  | succ n ih =>
    intro r h
    obtain ⟨e, r', hread, hnil⟩ := @readFrame_end r m h
    obtain ⟨errors, hlen, hreads⟩ := ih hnil
    refine ⟨e :: errors, by rw [List.length_cons, hlen], ?_⟩
    rw [readFrames_succ_error hread]
    show Except.error e :: (readFrames m n r').1 = _
    rw [hreads]
    rfl

/-- The reads of a stream that is cut inside its first frame fail. -/
theorem readFrames_cut (hm : 1 ≤ m) (hword : m < 2 ^ 32) (hfit : payload.length ≤ m)
    (h : r.unread <+: frameBytes payload) (hne : r.unread ≠ frameBytes payload) (n : Nat) :
    ∃ errors : List FrameError, errors.length = n ∧
      (readFrames m n r).1 = errors.map Except.error := by
  cases n with
  | zero => exact ⟨[], rfl, rfl⟩
  | succ n =>
    obtain ⟨e, r', hread, hnil⟩ := readFrame_cut hm hword hfit h hne
    obtain ⟨errors, hlen, hreads⟩ := @readFrames_end m n r' hnil
    refine ⟨e :: errors, by rw [List.length_cons, hlen], ?_⟩
    rw [readFrames_succ_error hread]
    show Except.error e :: (readFrames m n r').1 = _
    rw [hreads]
    rfl

/-- The frames that are complete in a proper prefix of a stream. -/
theorem complete_frames {payloads : List Bytes} :
    ∀ {data : Bytes}, data <+: payloads.flatMap frameBytes →
      data ≠ payloads.flatMap frameBytes →
      ∃ done p rest cut, payloads = done ++ p :: rest ∧
        data = done.flatMap frameBytes ++ cut ∧ cut <+: frameBytes p ∧ cut ≠ frameBytes p := by
  induction payloads with
  | nil =>
    intro data h hne
    exact absurd (List.prefix_nil.mp h) hne
  | cons p payloads ih =>
    intro data h hne
    rw [List.flatMap_cons] at h hne
    by_cases hfirst : frameBytes p <+: data
    · obtain ⟨tail, rfl⟩ := hfirst
      rw [List.prefix_append_right_inj] at h
      have hne' : tail ≠ payloads.flatMap frameBytes := fun heq => hne (by rw [heq])
      obtain ⟨done, q, rest, cut, hpayloads, htail, hcut, hshort⟩ := ih h hne'
      refine ⟨p :: done, q, rest, cut, by rw [hpayloads]; rfl, ?_, hcut, hshort⟩
      rw [htail, List.flatMap_cons, List.append_assoc]
    · refine ⟨[], p, payloads, data, rfl, rfl, ?_, ?_⟩
      · cases List.prefix_or_prefix_of_prefix h (List.prefix_append _ _) with
        | inl hle => exact hle
        | inr hle => exact absurd hle hfirst
      · intro heq
        exact hfirst (heq ▸ List.prefix_rfl)

end Frames

/-- The frames of payloads within the bound, read from any reader of that stream and
any bytes after it, give the payloads in order and leave the bytes after it.  From a
reader of a proper prefix, the payloads whose frames are complete are read, and every
call after them fails. -/
theorem frame_stream {m : Int} (hm : 1 ≤ m) (hword : m < 2 ^ 32) {payloads : List Bytes}
    (hfit : ∀ p ∈ payloads, p.length ≤ m) :
    ∃ stream, writeFrames m payloads [] = .ok () stream ∧
      (∀ (trailing : Bytes) (r : Reader), r.unread = stream ++ trailing →
        ∃ r', readFrames m payloads.length r = (payloads.map Except.ok, r') ∧
          r'.unread = trailing) ∧
      ∀ r : Reader, r.unread <+: stream → r.unread ≠ stream →
        ∃ done p rest, payloads = done ++ p :: rest ∧
          done.flatMap frameBytes <+: r.unread ∧
          ¬ (done ++ [p]).flatMap frameBytes <+: r.unread ∧
          ∀ n, ∃ errors : List FrameError, errors.length = n ∧
            (readFrames m (done.length + n) r).1 =
              done.map Except.ok ++ errors.map Except.error := by
  refine ⟨payloads.flatMap frameBytes, ?_, ?_, ?_⟩
  · rw [run_writeFrames hm hfit, List.nil_append]
  · intro trailing r h
    obtain ⟨r', hrest, hreads⟩ := readFrames_ok hm hword hfit 0 h
    refine ⟨r', ?_, hrest⟩
    rw [Nat.add_zero] at hreads
    rw [hreads]
    show (payloads.map Except.ok ++ [], r') = _
    rw [List.append_nil]
  · intro r hpre hne
    obtain ⟨done, p, rest, cut, rfl, hunread, hcut, hshort⟩ := complete_frames hpre hne
    have hdone : ∀ q ∈ done, q.length ≤ m := fun q hq => hfit q (by simp [hq])
    have hp : p.length ≤ m := hfit p (by simp)
    refine ⟨done, p, rest, rfl, by rw [hunread]; exact List.prefix_append _ _, ?_, ?_⟩
    · intro hall
      rw [hunread, List.flatMap_append, List.prefix_append_right_inj, List.flatMap_singleton]
        at hall
      exact hshort (hcut.eq_of_length_le hall.length_le)
    · intro n
      obtain ⟨r', hrest, hreads⟩ := readFrames_ok hm hword hdone n hunread
      have hcut' : r'.unread <+: frameBytes p := by rw [hrest]; exact hcut
      have hshort' : r'.unread ≠ frameBytes p := by rw [hrest]; exact hshort
      obtain ⟨errors, hlen, herrors⟩ := readFrames_cut hm hword hp hcut' hshort' n
      refine ⟨errors, hlen, ?_⟩
      rw [hreads]
      show done.map Except.ok ++ (readFrames m n r').1 = _
      rw [herrors]

namespace Sample

def payloads : List Bytes := [ascii "hive", [], ascii "stream"]

/-- The second byte of the last payload and what follows it are missing. -/
def cutReader : Reader :=
  ⟨16, [], [(payloads.flatMap frameBytes).take 5, [],
    ((payloads.flatMap frameBytes).take 29).drop 5]⟩

end Sample

open Sample in
/-- Two of three frames are complete, and arrive in pieces that do not end with them. -/
theorem frame_stream_sample :
    ∃ done p rest, payloads = done ++ p :: rest ∧ done.flatMap frameBytes <+: cutReader.unread ∧
      ¬ (done ++ [p]).flatMap frameBytes <+: cutReader.unread ∧
      ∀ n, ∃ errors : List FrameError, errors.length = n ∧
        (readFrames 6 (done.length + n) cutReader).1 =
          done.map Except.ok ++ errors.map Except.error := by
  obtain ⟨stream, hwrite, _, hcut⟩ :=
    @frame_stream 6 (by decide) (by decide) payloads (by decide)
  have hstream : stream = payloads.flatMap frameBytes := by
    have hrun : writeFrames 6 payloads [] = .ok () (payloads.flatMap frameBytes) := rfl
    rw [hrun] at hwrite
    exact (EStateM.Result.ok.inj hwrite).2.symm
  rw [hstream] at hcut
  exact hcut cutReader (by decide +kernel) (by decide +kernel)

end StreamHive.Transport

import Mathlib.Algebra.Order.BigOperators.Group.List
import StreamHive.Transport.Frame
import StreamHive.Verified.JsonText
import StreamHive.Verified.Paging

/-!
# Peer authentication

Before a connection is used, the dialer sends a frame with its token, its identity
and the capabilities that it declares; the acceptor checks it and answers with its own
identity and capabilities, or with a rejection.  The two sides validate each other
through two payloads with separate checks, and agree on the outcome.

`encoding/json` is the parameter `AuthCodec`; a proof may assume of it only that a
message of valid texts is read back.  Deadlines are left out: a read waits for the
bytes that the other side sends, or for the end of its stream when it has closed the
connection.

## Main results

* `normalizePeerAuthCapabilities_eq_ok` — which capabilities are accepted, and what is made
  of them;
* `capabilities_as_set` — only the set of the capabilities counts;
* `peer_auth_agreement` — both sides succeed or both fail.
-/

namespace StreamHive.Transport

open Verified ByteString ByteReader Effect

variable {rejectUnknown : Bool} {out : List Bytes}
open StreamHive.Verified.JsonText hiding Reader

variable {capabilities : List Bytes} {identity payload : Bytes}

/-! ## Messages -/

inductive AuthError where
  /-- the handshake is malformed or incomplete -/
  | failed
  | failedBy (cause : FrameError)
  | rejected
  | identityInvalid
  | identityRequiresToken
  | identityNotAllowed
  | payloadTooLarge
  | capabilitiesRequiresToken
  | capabilitiesTooMany
  | capabilityTooLarge
  | capabilitiesTooLarge
  | capabilityInvalid
  | capabilityDuplicate
  | capabilityUnknown
  deriving DecidableEq, Repr

structure PeerAuthMessage where
  type : Bytes
  version : Bytes
  token : Bytes
  identity : Bytes
  error : Bytes
  capabilities : List Bytes
  deriving DecidableEq, Repr

/-- `json.Marshal` and `json.Unmarshal` of a message, and `utf8.ValidString`. -/
structure AuthCodec where
  marshal : PeerAuthMessage → Bytes
  unmarshal : Bytes → Option PeerAuthMessage
  validUTF8 : Bytes → Bool

/-- The texts of the message are ones that JSON preserves. -/
structure PeerAuthMessage.Clean (C : AuthCodec) (m : PeerAuthMessage) : Prop where
  type : C.validUTF8 m.type = true
  version : C.validUTF8 m.version = true
  token : C.validUTF8 m.token = true
  identity : C.validUTF8 m.identity = true
  error : C.validUTF8 m.error = true
  capabilities : ∀ c ∈ m.capabilities, C.validUTF8 c = true

/-- A message of valid texts is read back, and ASCII is valid. -/
structure AuthCodec.Lawful (C : AuthCodec) : Prop where
  unmarshal_marshal : ∀ m : PeerAuthMessage, m.Clean C → C.unmarshal (C.marshal m) = some m
  ascii : ∀ s : Bytes, (∀ b ∈ s, b.toNat < 128) → C.validUTF8 s = true

def handshakeVersionV1 : Bytes := ascii "streamhive/1"
def handshakeTypePeerAuth : Bytes := ascii "peer.auth"
def handshakeTypePeerAuthOK : Bytes := ascii "peer.auth.ok"
def handshakeTypePeerAuthReject : Bytes := ascii "peer.auth.reject"

def maxPeerAuthIdentityBytes : Nat := 128
def capabilityLifecycleV1 : Bytes := ascii "lifecycle.v1"
def capabilityLifecycleRepairReconcileV1 : Bytes := ascii "lifecycle.repair-reconcile.v1"
def maxPeerAuthCapabilities : Nat := 16
def maxPeerAuthCapabilityBytes : Nat := 64
def maxPeerAuthCapabilitiesBytes : Nat := 512
def maxPeerAuthPayloadBytes : Nat := 4096

/-! ## The program -/

/-- A byte that is not a visible ASCII character. -/
def unprintable (b : UInt8) : Bool := b.toNat < 0x21 || b.toNat > 0x7e

def validatePeerIdentity (identity : Bytes) : Except AuthError Unit :=
  if identity = [] then .ok ()
  else if identity.length > maxPeerAuthIdentityBytes then .error .identityInvalid
  else if identity.any unprintable then .error .identityInvalid
  else .ok ()

def validatePeerAuthAllowlist : List Bytes → Except AuthError Unit
  | [] => .ok ()
  | identity :: rest =>
    if identity = [] then .error .identityInvalid
    else do
      validatePeerIdentity identity
      validatePeerAuthAllowlist rest

def peerAuthIdentityAllowed (identity : Bytes) (allowedIdentities : List Bytes) : Bool :=
  allowedIdentities.any (identity == ·)

/-- The capabilities that this version knows. -/
def knownCapability (capability : Bytes) : Bool :=
  capability == capabilityLifecycleV1 || capability == capabilityLifecycleRepairReconcileV1

/-- The loop over the declared capabilities. -/
def normalizeEach (rejectUnknown : Bool) (seen : List Bytes) (totalBytes : Nat)
    (normalized : List Bytes) : List Bytes → Except AuthError (List Bytes)
  | [] => .ok normalized
  | capability :: rest =>
    if capability.length > maxPeerAuthCapabilityBytes then .error .capabilityTooLarge
    else if totalBytes + capability.length > maxPeerAuthCapabilitiesBytes then
      .error .capabilitiesTooLarge
    else if capability = [] then .error .capabilityInvalid
    else if capability.any unprintable then .error .capabilityInvalid
    else if capability ∈ seen then .error .capabilityDuplicate
    else if knownCapability capability = false then
      if rejectUnknown then .error .capabilityUnknown
      else
        normalizeEach rejectUnknown (capability :: seen) (totalBytes + capability.length)
          normalized rest
    else
      normalizeEach rejectUnknown (capability :: seen) (totalBytes + capability.length)
        (normalized ++ [capability]) rest

def normalizePeerAuthCapabilities (capabilities : List Bytes) (rejectUnknown : Bool) :
    Except AuthError (List Bytes) :=
  if capabilities.length > maxPeerAuthCapabilities then .error .capabilitiesTooMany
  else do
    let normalized ← normalizeEach rejectUnknown [] 0 [] capabilities
    .ok (Paging.sort compare normalized)

section Program

variable (C : AuthCodec)

def marshalPeerAuthMessage (message : PeerAuthMessage) : Except AuthError Bytes :=
  if (C.marshal message).length > maxPeerAuthPayloadBytes then .error .payloadTooLarge
  else .ok (C.marshal message)

def encodePeerAuth (token identity : Bytes) (capabilities : List Bytes) :
    Except AuthError Bytes := do
  let normalized ← normalizePeerAuthCapabilities capabilities true
  marshalPeerAuthMessage C
    ⟨handshakeTypePeerAuth, handshakeVersionV1, token, identity, [], normalized⟩

def encodePeerAuthOK (identity : Bytes) (capabilities : List Bytes) :
    Except AuthError Bytes := do
  let normalized ← normalizePeerAuthCapabilities capabilities true
  marshalPeerAuthMessage C
    ⟨handshakeTypePeerAuthOK, handshakeVersionV1, [], identity, [], normalized⟩

/-- The answer to a payload that was not accepted. -/
def rejectMessage : PeerAuthMessage :=
  ⟨handshakeTypePeerAuthReject, handshakeVersionV1, [], [], ascii "unauthorized", []⟩

def encodePeerAuthReject : Except AuthError Bytes := marshalPeerAuthMessage C rejectMessage

/-- What the acceptor makes of a payload. -/
def validatePeerAuthPayload (payload token : Bytes) (allowedIdentities : List Bytes) :
    Except AuthError (Bytes × List Bytes) :=
  if payload.length > maxPeerAuthPayloadBytes then .error .payloadTooLarge
  else
    match C.unmarshal payload with
    | none => .error .failed
    | some msg =>
      if msg.type ≠ handshakeTypePeerAuth ∨ msg.version ≠ handshakeVersionV1 then
        .error .failed
      else if msg.token ≠ token then .error .rejected
      else do
        validatePeerIdentity msg.identity
        if allowedIdentities ≠ [] ∧
            peerAuthIdentityAllowed msg.identity allowedIdentities = false then
          .error .identityNotAllowed
        else do
          let capabilities ← normalizePeerAuthCapabilities msg.capabilities false
          .ok (msg.identity, capabilities)

/-- What the dialer makes of the answer. -/
def validatePeerAuthAck (payload : Bytes) : Except AuthError (Bytes × List Bytes) :=
  if payload.length > maxPeerAuthPayloadBytes then .error .payloadTooLarge
  else
    match C.unmarshal payload with
    | none => .error .failed
    | some msg =>
      if msg.version ≠ handshakeVersionV1 then .error .failed
      else if msg.type = handshakeTypePeerAuthOK then do
        validatePeerIdentity msg.identity
        let capabilities ← normalizePeerAuthCapabilities msg.capabilities false
        .ok (msg.identity, capabilities)
      else if msg.type = handshakeTypePeerAuthReject then .error .rejected
      else .error .failed

end Program

/-- The fields of a transport that authentication reads. -/
structure AuthConfig where
  maxFrameBytes : Int
  peerAuthToken : Bytes
  peerAuthIdentity : Bytes
  peerAuthAllowedIdentities : List Bytes
  peerAuthCapabilities : List Bytes

/-- A connection during authentication, seen from one side. -/
structure AuthPeer where
  reader : Reader
  sent : Bytes
  authIdentity : Bytes
  authCapabilities : List Bytes

variable {p : AuthPeer}

namespace AuthPeer

def write (data : Bytes) : EStateM FrameError AuthPeer Unit :=
  modify fun p => { p with sent := p.sent ++ data }

def readFrame (maxPayload : Int) : EStateM FrameError AuthPeer Bytes :=
  zoom AuthPeer.reader (fun p reader => { p with reader }) (Transport.readFrame maxPayload)

/-- The identity and the capabilities of the other side. -/
def record (identity : Bytes) (capabilities : List Bytes) (p : AuthPeer) : AuthPeer :=
  { p with authIdentity := identity, authCapabilities := capabilities }

end AuthPeer

namespace AuthConfig

def peerAuthEnabled (t : AuthConfig) : Bool := t.peerAuthToken ≠ []

def validatePeerAuthConfig (t : AuthConfig) : Except AuthError Unit :=
  if (t.peerAuthIdentity ≠ [] ∨ t.peerAuthAllowedIdentities ≠ []) ∧
      t.peerAuthEnabled = false then
    .error .identityRequiresToken
  else if t.peerAuthCapabilities ≠ [] ∧ t.peerAuthEnabled = false then
    .error .capabilitiesRequiresToken
  else do
    validatePeerIdentity t.peerAuthIdentity
    validatePeerAuthAllowlist t.peerAuthAllowedIdentities
    let _ ← normalizePeerAuthCapabilities t.peerAuthCapabilities true
    .ok ()

def maxFrame (t : AuthConfig) : Int :=
  if t.maxFrameBytes > 0 then t.maxFrameBytes else defaultMaxFrameBytes

def maxPeerAuthFrame (t : AuthConfig) : Int :=
  if t.maxFrame > maxPeerAuthPayloadBytes then maxPeerAuthPayloadBytes else t.maxFrame

def authenticateInbound (C : AuthCodec) (t : AuthConfig) : EStateM AuthError AuthPeer Unit :=
  if t.peerAuthEnabled = false then pure ()
  else do
    let payload ← rethrow .failedBy (AuthPeer.readFrame t.maxPeerAuthFrame)
    match validatePeerAuthPayload C payload t.peerAuthToken t.peerAuthAllowedIdentities with
    | .error e => do
      match encodePeerAuthReject C with
      | .ok rejectPayload =>
        ignoring (writeFrame AuthPeer.write rejectPayload t.maxPeerAuthFrame)
      | .error _ => pure ()
      throw e
    | .ok (identity, capabilities) => do
      modify (AuthPeer.record identity capabilities)
      let ackPayload ← attempt (encodePeerAuthOK C t.peerAuthIdentity t.peerAuthCapabilities)
      rethrow .failedBy (writeFrame AuthPeer.write ackPayload t.maxPeerAuthFrame)

def authenticateOutbound (C : AuthCodec) (t : AuthConfig) : EStateM AuthError AuthPeer Unit :=
  if t.peerAuthEnabled = false then pure ()
  else do
    let payload ←
      attempt (encodePeerAuth C t.peerAuthToken t.peerAuthIdentity t.peerAuthCapabilities)
    rethrow .failedBy (writeFrame AuthPeer.write payload t.maxPeerAuthFrame)
    let ackPayload ← rethrow .failedBy (AuthPeer.readFrame t.maxPeerAuthFrame)
    let (identity, capabilities) ← attempt (validatePeerAuthAck C ackPayload)
    modify (AuthPeer.record identity capabilities)

end AuthConfig

/-! ## Capabilities -/

/-- The capabilities may be declared: known, different, and within the bounds. -/
structure Declarable (capabilities : List Bytes) : Prop where
  count : capabilities.length ≤ maxPeerAuthCapabilities
  known : ∀ c ∈ capabilities, knownCapability c = true
  nodup : capabilities.Nodup
  bytes : (capabilities.map List.length).sum ≤ maxPeerAuthCapabilitiesBytes

theorem knownCapability_iff {c : Bytes} : knownCapability c = true ↔
    c = capabilityLifecycleV1 ∨ c = capabilityLifecycleRepairReconcileV1 := by
  unfold knownCapability
  simp

/-- The text of a capability passes the checks that are made of it alone. -/
def CapabilityText (c : Bytes) : Prop :=
  c.length ≤ maxPeerAuthCapabilityBytes ∧ c ≠ [] ∧ c.any unprintable = false

/-- The capabilities may be received: valid, different, and within the bounds. -/
structure Acceptable (rejectUnknown : Bool) (capabilities : List Bytes) : Prop where
  count : capabilities.length ≤ maxPeerAuthCapabilities
  each : ∀ c ∈ capabilities, CapabilityText c ∧ (rejectUnknown = true → knownCapability c = true)
  nodup : capabilities.Nodup
  bytes : (capabilities.map List.length).sum ≤ maxPeerAuthCapabilitiesBytes

theorem known_text {c : Bytes} (h : knownCapability c = true) : CapabilityText c := by
  cases knownCapability_iff.mp h with
  | inl h | inr h =>
    rw [h]
    unfold CapabilityText
    decide

theorem normalizeEach_cons {c : Bytes} {rest seen normalized : List Bytes} {totalBytes : Nat} :
    normalizeEach rejectUnknown seen totalBytes normalized (c :: rest) = .ok out ↔
      CapabilityText c ∧ c ∉ seen ∧ (rejectUnknown = true → knownCapability c = true) ∧
      totalBytes + c.length ≤ maxPeerAuthCapabilitiesBytes ∧
      normalizeEach rejectUnknown (c :: seen) (totalBytes + c.length)
        (normalized ++ [c].filter knownCapability) rest = .ok out := by
  unfold CapabilityText
  rw [normalizeEach]
  simp only [except_guard_ok, not_lt, gt_iff_lt, Bool.not_eq_true]
  cases hknown : knownCapability c <;> cases rejectUnknown <;> simp [hknown] <;> tauto

/-- The loop checks each capability and the running total, and keeps the known ones. -/
theorem normalizeEach_eq_ok (rest : List Bytes) {seen normalized : List Bytes}
    {totalBytes : Nat} (htotal : totalBytes ≤ maxPeerAuthCapabilitiesBytes) :
    normalizeEach rejectUnknown seen totalBytes normalized rest = .ok out ↔
      (∀ c ∈ rest, CapabilityText c ∧ (rejectUnknown = true → knownCapability c = true)) ∧
      (∀ c ∈ rest, c ∉ seen) ∧ rest.Nodup ∧
      totalBytes + (rest.map List.length).sum ≤ maxPeerAuthCapabilitiesBytes ∧
      out = normalized ++ rest.filter knownCapability := by
  induction rest generalizing seen normalized totalBytes with
  | nil =>
    rw [normalizeEach]
    simp only [List.not_mem_nil, false_implies, implies_true, List.nodup_nil, List.map_nil,
      List.sum_nil, Nat.add_zero, htotal, List.filter_nil, List.append_nil, true_and,
      Except.ok.injEq]
    exact eq_comm
  | cons c rest ih =>
    have happend : normalized ++ [c].filter knownCapability ++ rest.filter knownCapability =
        normalized ++ (c :: rest).filter knownCapability := by
      rw [List.append_assoc, ← List.filter_append, List.singleton_append]
    rw [normalizeEach_cons, List.map_cons, List.sum_cons, List.nodup_cons,
      List.forall_mem_cons, List.forall_mem_cons, ← Nat.add_assoc]
    constructor
    · rintro ⟨htext, hseen, hknown, hbytes, hrest⟩
      obtain ⟨heach, hnew, hnodup, hsum, hout⟩ := (ih hbytes).mp hrest
      refine ⟨⟨⟨htext, hknown⟩, heach⟩, ⟨hseen, ?_⟩, ⟨?_, hnodup⟩, hsum, hout.trans happend⟩
      · exact fun d hd => List.not_mem_of_not_mem_cons (hnew d hd)
      · exact fun hmem => hnew c hmem List.mem_cons_self
    · rintro ⟨⟨⟨htext, hknown⟩, heach⟩, ⟨hseen, hnew⟩, ⟨hfresh, hnodup⟩, hsum, hout⟩
      have hbytes : totalBytes + c.length ≤ maxPeerAuthCapabilitiesBytes := by omega
      refine ⟨htext, hseen, hknown, hbytes, (ih hbytes).mpr
        ⟨heach, fun d hd => ?_, hnodup, hsum, hout.trans happend.symm⟩⟩
      exact List.not_mem_cons_of_ne_of_not_mem (fun heq => hfresh (heq ▸ hd)) (hnew d hd)

/-- What is accepted, and what is made of it. -/
theorem normalizePeerAuthCapabilities_eq_ok :
    normalizePeerAuthCapabilities capabilities rejectUnknown = .ok out ↔
      Acceptable rejectUnknown capabilities ∧
        out = Paging.sort compare (capabilities.filter knownCapability) := by
  unfold normalizePeerAuthCapabilities
  rw [except_guard_ok, except_bind_ok, not_lt]
  simp only [normalizeEach_eq_ok capabilities (Nat.zero_le _), Nat.zero_add, List.nil_append]
  constructor
  · rintro ⟨hcount, _, ⟨heach, -, hnodup, hbytes, rfl⟩, hout⟩
    exact ⟨⟨hcount, heach, hnodup, hbytes⟩, (Except.ok.inj hout).symm⟩
  · rintro ⟨⟨hcount, heach, hnodup, hbytes⟩, rfl⟩
    exact ⟨hcount, _, ⟨heach, fun _ _ => List.not_mem_nil, hnodup, hbytes, rfl⟩, rfl⟩

theorem Declarable.acceptable (h : Declarable capabilities) (rejectUnknown : Bool) :
    Acceptable rejectUnknown capabilities :=
  ⟨h.count, fun c hc => ⟨known_text (h.known c hc), fun _ => h.known c hc⟩, h.nodup, h.bytes⟩

theorem Acceptable.declarable (h : Acceptable rejectUnknown capabilities) :
    Declarable (capabilities.filter knownCapability) := by
  have hsub : (capabilities.filter knownCapability).Sublist capabilities :=
    List.filter_sublist
  refine ⟨hsub.length_le.trans h.count, fun c hc => (List.mem_filter.mp hc).2,
    h.nodup.sublist hsub, ?_⟩
  exact ((hsub.map List.length).sum_le_sum fun _ _ => Nat.zero_le _).trans h.bytes

theorem Acceptable.strict (h : Acceptable true capabilities) : Declarable capabilities :=
  ⟨h.count, fun c hc => (h.each c hc).2 rfl, h.nodup, h.bytes⟩

theorem Acceptable.of_perm {permuted : List Bytes} (hperm : permuted.Perm capabilities)
    (h : Acceptable rejectUnknown capabilities) : Acceptable rejectUnknown permuted := by
  refine ⟨?_, fun c hc => h.each c (hperm.mem_iff.mp hc), hperm.symm.nodup h.nodup, ?_⟩
  · rw [hperm.length_eq]
    exact h.count
  · rw [List.Perm.sum_nat (hperm.map List.length)]
    exact h.bytes

/-- What was declared may be declared again in order. -/
theorem Declarable.sort (h : Declarable capabilities) :
    Declarable (Paging.sort compare capabilities) :=
  ((h.acceptable true).of_perm (Paging.sort_perm capabilities)).strict

theorem normalizePeerAuthCapabilities_strict
    (h : normalizePeerAuthCapabilities capabilities true = .ok out) :
    Declarable capabilities ∧ out = Paging.sort compare capabilities := by
  obtain ⟨haccept, hout⟩ := normalizePeerAuthCapabilities_eq_ok.mp h
  have hdeclared := haccept.strict
  rw [List.filter_eq_self.mpr hdeclared.known] at hout
  exact ⟨hdeclared, hout⟩

theorem normalizePeerAuthCapabilities_of_declarable (h : Declarable capabilities)
    (rejectUnknown : Bool) : normalizePeerAuthCapabilities capabilities rejectUnknown =
      .ok (Paging.sort compare capabilities) := by
  refine normalizePeerAuthCapabilities_eq_ok.mpr ⟨h.acceptable rejectUnknown, ?_⟩
  rw [List.filter_eq_self.mpr h.known]

theorem Acceptable.cons (h : Acceptable rejectUnknown capabilities) {c : Bytes}
    (htext : CapabilityText c) (hknown : rejectUnknown = true → knownCapability c = true)
    (hnew : c ∉ capabilities) (hcount : capabilities.length + 1 ≤ maxPeerAuthCapabilities)
    (hbytes : (capabilities.map List.length).sum + c.length ≤ maxPeerAuthCapabilitiesBytes) :
    Acceptable rejectUnknown (c :: capabilities) := by
  refine ⟨hcount, List.forall_mem_cons.mpr ⟨⟨htext, hknown⟩, h.each⟩,
    List.nodup_cons.mpr ⟨hnew, h.nodup⟩, ?_⟩
  rw [List.map_cons, List.sum_cons, Nat.add_comm]
  exact hbytes

theorem normalizePeerAuthCapabilities_perm {permuted : List Bytes}
    (hperm : permuted.Perm capabilities) :
    normalizePeerAuthCapabilities permuted rejectUnknown = .ok out ↔
      normalizePeerAuthCapabilities capabilities rejectUnknown = .ok out := by
  have himp : ∀ {xs ys : List Bytes}, xs.Perm ys →
      normalizePeerAuthCapabilities ys rejectUnknown = .ok out →
      normalizePeerAuthCapabilities xs rejectUnknown = .ok out := by
    intro xs ys hperm h
    obtain ⟨haccept, rfl⟩ := normalizePeerAuthCapabilities_eq_ok.mp h
    refine normalizePeerAuthCapabilities_eq_ok.mpr ⟨haccept.of_perm hperm, ?_⟩
    exact Paging.sort_eq_of_perm (hperm.filter _).symm (haccept.nodup.filter _)
  exact ⟨himp hperm.symm, himp hperm⟩

/-- What is accepted, and what is made of it, depends only on the set of capabilities.  The
result is in normal form, and a valid capability that is not known does not change it. -/
theorem capabilities_as_set (capabilities : List Bytes) (rejectUnknown : Bool) :
    (∀ permuted, permuted.Perm capabilities → ∀ out,
      normalizePeerAuthCapabilities permuted rejectUnknown = .ok out ↔
        normalizePeerAuthCapabilities capabilities rejectUnknown = .ok out) ∧
    ∀ out, normalizePeerAuthCapabilities capabilities rejectUnknown = .ok out →
      Paging.Sorted compare out ∧ out.Nodup ∧
      (∀ c, c ∈ out ↔ c ∈ capabilities ∧ knownCapability c = true) ∧
      (∀ again, normalizePeerAuthCapabilities out again = .ok out) ∧
      (rejectUnknown = false → ∀ before after c, capabilities = before ++ after →
        CapabilityText c → c ∉ capabilities → knownCapability c = false →
        capabilities.length + 1 ≤ maxPeerAuthCapabilities →
        (capabilities.map List.length).sum + c.length ≤ maxPeerAuthCapabilitiesBytes →
        normalizePeerAuthCapabilities (before ++ c :: after) rejectUnknown = .ok out) := by
  refine ⟨fun _ hperm _ => normalizePeerAuthCapabilities_perm hperm, fun out hout => ?_⟩
  obtain ⟨haccept, rfl⟩ := normalizePeerAuthCapabilities_eq_ok.mp hout
  have hdeclared := haccept.declarable
  have hperm : (Paging.sort compare (capabilities.filter knownCapability)).Perm _ :=
    Paging.sort_perm _
  have hsorted : Paging.Sorted compare _ := Paging.sort_sorted hdeclared.nodup
  refine ⟨hsorted, hperm.symm.nodup hdeclared.nodup, ?_, ?_, ?_⟩
  · intro c
    rw [hperm.mem_iff, List.mem_filter]
  · intro again
    rw [normalizePeerAuthCapabilities_of_declarable hdeclared.sort, Paging.sort_eq_self hsorted]
  · rintro rfl before after c rfl htext hnew hunknown hcount hbytes
    rw [normalizePeerAuthCapabilities_perm List.perm_middle]
    refine normalizePeerAuthCapabilities_eq_ok.mpr ⟨?_, ?_⟩
    · exact haccept.cons htext (fun h => nomatch h) hnew hcount hbytes
    · rw [List.filter_cons_of_neg (by rw [hunknown]; decide)]

theorem capabilities_as_set_unknown :
    normalizePeerAuthCapabilities [ascii "x.v1", capabilityLifecycleV1] false =
      .ok [capabilityLifecycleV1] ∧
    normalizePeerAuthCapabilities [ascii "x.v1", ascii "y.v1", capabilityLifecycleV1] false =
      .ok [capabilityLifecycleV1] := by
  have haccept : normalizePeerAuthCapabilities [ascii "x.v1", capabilityLifecycleV1] false =
      .ok [capabilityLifecycleV1] := by decide
  have hset := ((capabilities_as_set _ false).2 _ haccept).2.2.2.2
  exact ⟨haccept, hset rfl [ascii "x.v1"] [capabilityLifecycleV1] (ascii "y.v1") rfl
    (by unfold CapabilityText; decide) (by decide) (by decide) (by decide) (by decide)⟩

/-! ## Payloads -/

section Payloads

variable {C : AuthCodec}

theorem marshalPeerAuthMessage_ok {message : PeerAuthMessage}
    (h : marshalPeerAuthMessage C message = .ok payload) :
    payload = C.marshal message ∧ payload.length ≤ maxPeerAuthPayloadBytes := by
  unfold marshalPeerAuthMessage at h
  rw [except_guard_ok] at h
  obtain ⟨hlen, h⟩ := h
  rw [← Except.ok.inj h]
  exact ⟨rfl, not_lt.mp hlen⟩

theorem printable_valid (hC : C.Lawful) {s : Bytes} (h : s.any unprintable = false) :
    C.validUTF8 s = true := by
  refine hC.ascii s ?_
  intro b hb
  have hprint := List.any_eq_false.mp h b hb
  unfold unprintable at hprint
  simp only [Bool.or_eq_true, decide_eq_true_eq, not_or] at hprint
  omega

theorem identity_valid (hC : C.Lawful) (h : validatePeerIdentity identity = .ok ()) :
    C.validUTF8 identity = true := by
  unfold validatePeerIdentity at h
  by_cases hnil : identity = []
  · rw [hnil]
    exact hC.ascii [] (by simp)
  · rw [if_neg hnil, except_guard_ok, except_guard_ok] at h
    exact printable_valid hC (Bool.not_eq_true _ ▸ h.2.1)

theorem Declarable.valid (hC : C.Lawful) (h : Declarable capabilities) :
    ∀ c ∈ capabilities, C.validUTF8 c = true :=
  fun c hc => printable_valid hC (known_text (h.known c hc)).2.2

/-- The acceptor lets the identity in. -/
def AuthConfig.Allows (t : AuthConfig) (identity : Bytes) : Prop :=
  t.peerAuthAllowedIdentities = [] ∨ identity ∈ t.peerAuthAllowedIdentities

theorem peerAuthIdentityAllowed_iff {allowed : List Bytes} :
    peerAuthIdentityAllowed identity allowed = true ↔ identity ∈ allowed := by
  unfold peerAuthIdentityAllowed
  simp

/-- What the acceptor makes of the dialer's payload. -/
theorem validatePeerAuthPayload_encoded (hC : C.Lawful) {token : Bytes}
    (hutf8 : C.validUTF8 token = true) (hidentity : validatePeerIdentity identity = .ok ())
    (hpayload : encodePeerAuth C token identity capabilities = .ok payload) (t : AuthConfig) :
    (t.peerAuthToken = token ∧ t.Allows identity ∧
        validatePeerAuthPayload C payload t.peerAuthToken t.peerAuthAllowedIdentities =
          .ok (identity, Paging.sort compare capabilities)) ∨
      (¬ (t.peerAuthToken = token ∧ t.Allows identity) ∧
        ∃ e, validatePeerAuthPayload C payload t.peerAuthToken t.peerAuthAllowedIdentities =
          .error e) := by
  unfold encodePeerAuth at hpayload
  rw [except_bind_ok] at hpayload
  obtain ⟨normalized, hnormal, hmarshal⟩ := hpayload
  obtain ⟨hdeclared, rfl⟩ := normalizePeerAuthCapabilities_strict hnormal
  obtain ⟨rfl, hlen⟩ := marshalPeerAuthMessage_ok hmarshal
  have hsorted := hdeclared.sort
  have hread := hC.unmarshal_marshal ⟨handshakeTypePeerAuth, handshakeVersionV1, token, identity,
    [], Paging.sort compare capabilities⟩ ⟨hC.ascii handshakeTypePeerAuth (by decide +kernel),
    hC.ascii handshakeVersionV1 (by decide +kernel), hutf8, identity_valid hC hidentity,
    hC.ascii [] (by simp), hsorted.valid hC⟩
  have hagain : normalizePeerAuthCapabilities (Paging.sort compare capabilities) false =
      .ok (Paging.sort compare capabilities) := by
    rw [normalizePeerAuthCapabilities_of_declarable hsorted,
      Paging.sort_eq_self (Paging.sort_sorted hdeclared.nodup)]
  unfold validatePeerAuthPayload
  rw [if_neg (not_lt.mpr hlen), hread]
  simp only
  rw [if_neg (by simp)]
  by_cases htoken : token = t.peerAuthToken
  · rw [if_neg (not_not.mpr htoken), hidentity]
    by_cases hallowed : t.Allows identity
    · refine .inl ⟨htoken.symm, hallowed, ?_⟩
      have hpass : ¬ (t.peerAuthAllowedIdentities ≠ [] ∧
          peerAuthIdentityAllowed identity t.peerAuthAllowedIdentities = false) := by
        rintro ⟨hne, hno⟩
        cases hallowed with
        | inl hnil => exact hne hnil
        | inr hmem =>
          rw [peerAuthIdentityAllowed_iff.mpr hmem] at hno
          cases hno
      show (if _ then _ else _) = _
      rw [if_neg hpass, hagain]
      rfl
    · refine .inr ⟨fun h => hallowed h.2, .identityNotAllowed, ?_⟩
      unfold AuthConfig.Allows at hallowed
      rw [not_or] at hallowed
      have hno : peerAuthIdentityAllowed identity t.peerAuthAllowedIdentities = false := by
        rw [← Bool.not_eq_true, peerAuthIdentityAllowed_iff]
        exact hallowed.2
      show (if _ then _ else _) = _
      rw [if_pos ⟨hallowed.1, hno⟩]
  · rw [if_pos htoken]
    exact .inr ⟨fun h => htoken h.1.symm, _, rfl⟩

/-- What the dialer makes of the acceptor's answer. -/
theorem validatePeerAuthAck_encoded (hC : C.Lawful)
    (hidentity : validatePeerIdentity identity = .ok ())
    (hpayload : encodePeerAuthOK C identity capabilities = .ok payload) :
    validatePeerAuthAck C payload = .ok (identity, Paging.sort compare capabilities) := by
  unfold encodePeerAuthOK at hpayload
  rw [except_bind_ok] at hpayload
  obtain ⟨normalized, hnormal, hmarshal⟩ := hpayload
  obtain ⟨hdeclared, rfl⟩ := normalizePeerAuthCapabilities_strict hnormal
  obtain ⟨rfl, hlen⟩ := marshalPeerAuthMessage_ok hmarshal
  have hsorted := hdeclared.sort
  have hread := hC.unmarshal_marshal ⟨handshakeTypePeerAuthOK, handshakeVersionV1, [], identity,
    [], Paging.sort compare capabilities⟩ ⟨hC.ascii handshakeTypePeerAuthOK (by decide +kernel),
    hC.ascii handshakeVersionV1 (by decide +kernel), hC.ascii [] (by simp),
    identity_valid hC hidentity, hC.ascii [] (by simp), hsorted.valid hC⟩
  unfold validatePeerAuthAck
  rw [if_neg (not_lt.mpr hlen), hread]
  simp only
  rw [if_neg (by simp), if_pos trivial, hidentity,
    normalizePeerAuthCapabilities_of_declarable hsorted,
    Paging.sort_eq_self (Paging.sort_sorted hdeclared.nodup)]
  rfl

/-- The dialer does not take a rejection for an answer. -/
theorem validatePeerAuthAck_reject (hC : C.Lawful)
    (hpayload : encodePeerAuthReject C = .ok payload) :
    validatePeerAuthAck C payload = .error .rejected := by
  obtain ⟨rfl, hlen⟩ := marshalPeerAuthMessage_ok hpayload
  have hread := hC.unmarshal_marshal rejectMessage ⟨hC.ascii _ (by decide +kernel),
    hC.ascii _ (by decide +kernel), hC.ascii [] (by simp), hC.ascii [] (by simp),
    hC.ascii _ (by decide +kernel), by simp [rejectMessage]⟩
  unfold validatePeerAuthAck
  rw [if_neg (not_lt.mpr hlen), hread]
  rfl

/-- Whatever the payload, it is accepted only if it carries the token and an identity
that is let in. -/
theorem validatePeerAuthPayload_ok {token : Bytes} {allowed : List Bytes}
    (h : validatePeerAuthPayload C payload token allowed = .ok (identity, capabilities)) :
    ∃ msg, C.unmarshal payload = some msg ∧ msg.token = token ∧ msg.identity = identity ∧
      (allowed = [] ∨ identity ∈ allowed) := by
  unfold validatePeerAuthPayload at h
  rw [except_guard_ok] at h
  obtain ⟨_, h⟩ := h
  cases hmsg : C.unmarshal payload with
  | none =>
    rw [hmsg] at h
    cases h
  | some msg =>
    rw [hmsg] at h
    simp only at h
    rw [except_guard_ok, except_guard_ok, except_bind_ok] at h
    obtain ⟨_, htoken, _, _, h⟩ := h
    rw [except_guard_ok, except_bind_ok] at h
    obtain ⟨hallowed, _, _, h⟩ := h
    have hidentity : msg.identity = identity := congrArg Prod.fst (Except.ok.inj h)
    refine ⟨msg, rfl, not_not.mp htoken, hidentity, ?_⟩
    by_cases hnil : allowed = []
    · exact .inl hnil
    · refine .inr (peerAuthIdentityAllowed_iff.mp ?_)
      rw [← hidentity]
      cases hyes : peerAuthIdentityAllowed msg.identity allowed with
      | true => rfl
      | false => exact absurd ⟨hnil, hyes⟩ hallowed

end Payloads

/-! ## The two runs -/

namespace AuthPeer

variable {m : Int}

theorem run_writeFrame (hm : 1 ≤ m) (hfit : payload.length ≤ m) (p : AuthPeer) :
    writeFrame AuthPeer.write payload m p =
      .ok () { p with sent := p.sent ++ frameBytes payload } := by
  unfold writeFrame
  rw [run_bind_ok (run_raiseIf (by rw [payloadBound_of_pos hm]; omega))]
  show EStateM.Result.ok () { p with sent := (p.sent ++ frameHeader payload) ++ payload } = _
  rw [List.append_assoc]
  rfl

theorem run_readFrame {reader : Reader}
    (h : Transport.readFrame m p.reader = .ok payload reader) :
    AuthPeer.readFrame m p = .ok payload { p with reader } :=
  run_zoom h

theorem run_readFrame_error {e : FrameError} {reader : Reader}
    (h : Transport.readFrame m p.reader = .error e reader) :
    AuthPeer.readFrame m p = .error e { p with reader } :=
  run_zoom_error h

end AuthPeer

namespace AuthConfig

theorem maxPeerAuthFrame_pos (t : AuthConfig) : 1 ≤ t.maxPeerAuthFrame := by
  unfold maxPeerAuthFrame maxFrame defaultMaxFrameBytes maxPeerAuthPayloadBytes
  split <;> split <;> omega

theorem maxPeerAuthFrame_word (t : AuthConfig) : t.maxPeerAuthFrame < 2 ^ 32 := by
  unfold maxPeerAuthFrame maxFrame defaultMaxFrameBytes maxPeerAuthPayloadBytes
  split <;> split <;> omega

variable {C : AuthCodec} {t : AuthConfig}

/-- The dialer after its payload has been written. -/
def answered (C : AuthCodec) (t : AuthConfig) : EStateM AuthError AuthPeer Unit := do
  let ackPayload ← rethrow .failedBy (AuthPeer.readFrame t.maxPeerAuthFrame)
  let (identity, capabilities) ← attempt (validatePeerAuthAck C ackPayload)
  modify (AuthPeer.record identity capabilities)

/-- The dialer sends its payload and waits for the answer. -/
theorem run_authenticateOutbound (henabled : t.peerAuthToken ≠ [])
    (hpayload : encodePeerAuth C t.peerAuthToken t.peerAuthIdentity t.peerAuthCapabilities =
      .ok payload) (hfit : payload.length ≤ t.maxPeerAuthFrame) (p : AuthPeer) :
    t.authenticateOutbound C p =
      t.answered C { p with sent := p.sent ++ frameBytes payload } := by
  unfold authenticateOutbound answered
  rw [if_neg (by simp [peerAuthEnabled, henabled]), run_bind_ok (run_attempt hpayload),
    run_bind_ok (run_rethrow (AuthPeer.run_writeFrame t.maxPeerAuthFrame_pos hfit p))]

/-- Waiting for the answer sends nothing. -/
theorem answered_sent (p : AuthPeer) : (finalState (t.answered C p)).sent = p.sent := by
  unfold answered
  cases hread : Transport.readFrame t.maxPeerAuthFrame p.reader with
  | error e reader =>
    rw [run_bind_error (run_rethrow_error (AuthPeer.run_readFrame_error hread))]
    rfl
  | ok ack reader =>
    rw [run_bind_ok (run_rethrow (AuthPeer.run_readFrame hread))]
    cases hack : validatePeerAuthAck C ack with
    | error e =>
      rw [run_bind_error (run_attempt_error rfl)]
      rfl
    | ok answer =>
      rw [run_bind_ok (run_attempt rfl)]
      rfl

/-- The answer is accepted, and the other side is recorded. -/
theorem run_answered {ack rest : Bytes} (hunread : p.reader.unread = frameBytes ack ++ rest)
    (hfit : ack.length ≤ t.maxPeerAuthFrame)
    (hack : validatePeerAuthAck C ack = .ok (identity, capabilities)) :
    ∃ p', t.answered C p = .ok () p' ∧ p'.authIdentity = identity ∧
      p'.authCapabilities = capabilities := by
  obtain ⟨reader, hread, _⟩ :=
    readFrame_ok t.maxPeerAuthFrame_pos t.maxPeerAuthFrame_word hfit hunread
  refine ⟨AuthPeer.record identity capabilities { p with reader }, ?_, rfl, rfl⟩
  unfold answered
  rw [run_bind_ok (run_rethrow (AuthPeer.run_readFrame hread)),
    run_bind_ok (run_attempt hack)]
  rfl

/-- Every answer that is read is refused. -/
theorem run_answered_error
    (h : ∀ ack reader, Transport.readFrame t.maxPeerAuthFrame p.reader = .ok ack reader →
      ∃ e, validatePeerAuthAck C ack = .error e) : ∃ e p', t.answered C p = .error e p' := by
  unfold answered
  cases hread : Transport.readFrame t.maxPeerAuthFrame p.reader with
  | error e reader =>
    exact ⟨_, _, run_bind_error (run_rethrow_error (AuthPeer.run_readFrame_error hread))⟩
  | ok ack reader =>
    obtain ⟨e, hack⟩ := h ack reader hread
    rw [run_bind_ok (run_rethrow (AuthPeer.run_readFrame hread))]
    exact ⟨_, _, run_bind_error (run_attempt_error hack)⟩

/-- The acceptor lets the dialer in. -/
theorem run_authenticateInbound (henabled : t.peerAuthToken ≠ []) {ack rest : Bytes}
    (hunread : p.reader.unread = frameBytes payload ++ rest)
    (hfit : payload.length ≤ t.maxPeerAuthFrame)
    (hvalid : validatePeerAuthPayload C payload t.peerAuthToken t.peerAuthAllowedIdentities =
      .ok (identity, capabilities))
    (hack : encodePeerAuthOK C t.peerAuthIdentity t.peerAuthCapabilities = .ok ack)
    (hackFit : ack.length ≤ t.maxPeerAuthFrame) :
    ∃ p', t.authenticateInbound C p = .ok () p' ∧ p'.sent = p.sent ++ frameBytes ack ∧
      p'.authIdentity = identity ∧ p'.authCapabilities = capabilities := by
  obtain ⟨reader, hread, _⟩ :=
    readFrame_ok t.maxPeerAuthFrame_pos t.maxPeerAuthFrame_word hfit hunread
  refine ⟨{ AuthPeer.record identity capabilities { p with reader } with
    sent := p.sent ++ frameBytes ack }, ?_, rfl, rfl, rfl⟩
  unfold authenticateInbound
  rw [if_neg (by simp [peerAuthEnabled, henabled]),
    run_bind_ok (run_rethrow (AuthPeer.run_readFrame hread)), hvalid]
  show (attempt (encodePeerAuthOK C t.peerAuthIdentity t.peerAuthCapabilities) >>= _)
    (AuthPeer.record identity capabilities { p with reader }) = _
  rw [run_bind_ok (run_attempt hack)]
  exact run_rethrow (AuthPeer.run_writeFrame t.maxPeerAuthFrame_pos hackFit _)

/-- The acceptor refuses the dialer, and says so if the rejection fits a frame. -/
theorem run_authenticateInbound_error (henabled : t.peerAuthToken ≠ []) {rest : Bytes}
    {e : AuthError} (hunread : p.reader.unread = frameBytes payload ++ rest)
    (hfit : payload.length ≤ t.maxPeerAuthFrame)
    (hvalid : validatePeerAuthPayload C payload t.peerAuthToken t.peerAuthAllowedIdentities =
      .error e) :
    ∃ p', t.authenticateInbound C p = .error e p' ∧
      (p'.sent = p.sent ∨ ∃ reject, encodePeerAuthReject C = .ok reject ∧
        p'.sent = p.sent ++ frameBytes reject) := by
  obtain ⟨reader, hread, _⟩ :=
    readFrame_ok t.maxPeerAuthFrame_pos t.maxPeerAuthFrame_word hfit hunread
  unfold authenticateInbound
  rw [if_neg (by simp [peerAuthEnabled, henabled]),
    run_bind_ok (run_rethrow (AuthPeer.run_readFrame hread)), hvalid]
  cases hreject : encodePeerAuthReject C with
  | error e' => exact ⟨{ p with reader }, rfl, .inl rfl⟩
  | ok reject =>
    show ∃ p', ((ignoring (writeFrame AuthPeer.write reject t.maxPeerAuthFrame) >>=
        fun _ => throw e : EStateM AuthError AuthPeer Unit) { p with reader }) =
          .error e p' ∧ _
    by_cases hrejectFit : reject.length ≤ t.maxPeerAuthFrame
    · refine ⟨{ p with reader, sent := p.sent ++ frameBytes reject }, ?_,
        .inr ⟨reject, rfl, rfl⟩⟩
      rw [run_bind_ok run_ignoring,
        AuthPeer.run_writeFrame t.maxPeerAuthFrame_pos hrejectFit]
      rfl
    · refine ⟨{ p with reader }, ?_, .inl rfl⟩
      have hlarge : writeFrame AuthPeer.write reject t.maxPeerAuthFrame { p with reader } =
          .error .frameTooLarge { p with reader } := by
        refine run_bind_error (run_raiseIf_error ?_)
        rw [payloadBound_of_pos t.maxPeerAuthFrame_pos]
        omega
      rw [run_bind_ok run_ignoring, hlarge]
      rfl

/-- Whatever is sent to it, an acceptor succeeds only on a payload that carries its token
and an identity that it lets in. -/
theorem authenticateInbound_ok (henabled : t.peerAuthToken ≠ []) {p' : AuthPeer}
    (h : t.authenticateInbound C p = .ok () p') :
    ∃ payload reader msg, Transport.readFrame t.maxPeerAuthFrame p.reader = .ok payload reader ∧
      C.unmarshal payload = some msg ∧ msg.token = t.peerAuthToken ∧ t.Allows msg.identity := by
  unfold authenticateInbound at h
  rw [if_neg (by simp [peerAuthEnabled, henabled])] at h
  cases hread : Transport.readFrame t.maxPeerAuthFrame p.reader with
  | error e reader =>
    rw [run_bind_error (run_rethrow_error (AuthPeer.run_readFrame_error hread))] at h
    cases h
  | ok payload reader =>
    rw [run_bind_ok (run_rethrow (AuthPeer.run_readFrame hread))] at h
    cases hvalid : validatePeerAuthPayload C payload t.peerAuthToken
        t.peerAuthAllowedIdentities with
    | error e =>
      rw [hvalid] at h
      simp only at h
      cases hreject : encodePeerAuthReject C with
      | error e' =>
        rw [hreject] at h
        cases h
      | ok reject =>
        rw [hreject] at h
        simp only at h
        rw [run_bind_ok run_ignoring] at h
        cases h
    | ok accepted =>
      obtain ⟨msg, hmsg, htoken, hidentity, hallowed⟩ :=
        @validatePeerAuthPayload_ok accepted.2 accepted.1 payload C _ _ hvalid
      rw [← hidentity] at hallowed
      exact ⟨payload, reader, msg, rfl, hmsg, htoken, hallowed⟩

end AuthConfig

/-! ## Agreement -/

/-- The two ends of a fresh lossless connection: each reads what the other sends, in
whatever pieces; a side that has failed closes the connection and sends no more. -/
structure Connected (C : AuthCodec) (dialer acceptor : AuthConfig) (d a : AuthPeer) : Prop where
  dialed : d.sent = []
  accepted : a.sent = []
  forward : ∃ later, a.reader.unread =
    (finalState (dialer.authenticateOutbound C d)).sent ++ later
  backward : ∃ later, d.reader.unread =
      (finalState (acceptor.authenticateInbound C a)).sent ++ later ∧
    (error? (acceptor.authenticateInbound C a) ≠ none → later = [])

/-- The payloads of both sides fit the frames of both sides. -/
def PayloadsFit (C : AuthCodec) (dialer acceptor : AuthConfig) : Prop :=
  ∃ payload ack,
    encodePeerAuth C dialer.peerAuthToken dialer.peerAuthIdentity dialer.peerAuthCapabilities =
      .ok payload ∧
    encodePeerAuthOK C acceptor.peerAuthIdentity acceptor.peerAuthCapabilities = .ok ack ∧
    payload.length ≤ dialer.maxPeerAuthFrame ∧ payload.length ≤ acceptor.maxPeerAuthFrame ∧
    ack.length ≤ dialer.maxPeerAuthFrame ∧ ack.length ≤ acceptor.maxPeerAuthFrame

/-- What a side has recorded of the other. -/
structure Recorded (p : AuthPeer) (other : AuthConfig) : Prop where
  identity : p.authIdentity = other.peerAuthIdentity
  sorted : Paging.Sorted compare p.authCapabilities
  capabilities : ∀ c, c ∈ p.authCapabilities ↔ c ∈ other.peerAuthCapabilities

section Agreement

variable {C : AuthCodec} {dialer acceptor : AuthConfig} {d a : AuthPeer}

theorem AuthConfig.validated {t : AuthConfig} (h : t.validatePeerAuthConfig = .ok ()) :
    validatePeerIdentity t.peerAuthIdentity = .ok () ∧ Declarable t.peerAuthCapabilities := by
  unfold AuthConfig.validatePeerAuthConfig at h
  simp only [except_guard_ok, except_bind_ok] at h
  obtain ⟨_, _, _, hidentity, _, _, _, hcapabilities, _⟩ := h
  exact ⟨hidentity, (normalizePeerAuthCapabilities_strict hcapabilities).1⟩

theorem Recorded.of_sort {t : AuthConfig} (h : Declarable t.peerAuthCapabilities)
    (hidentity : p.authIdentity = t.peerAuthIdentity)
    (hcapabilities : p.authCapabilities = Paging.sort compare t.peerAuthCapabilities) :
    Recorded p t := by
  refine ⟨hidentity, ?_, ?_⟩
  · rw [hcapabilities]
    exact Paging.sort_sorted h.nodup
  · intro c
    rw [hcapabilities]
    exact (Paging.sort_perm _).mem_iff

/-- After a refusal the dialer reads nothing, or the rejection. -/
theorem answer_refused (hC : C.Lawful) {t : AuthConfig} {sent : Bytes} {r reader : Reader}
    {answer : Bytes}
    (hsent : sent = [] ∨ ∃ reject, encodePeerAuthReject C = .ok reject ∧
      sent = frameBytes reject) (hunread : r.unread = sent)
    (hread : readFrame t.maxPeerAuthFrame r = .ok answer reader) :
    ∃ e, validatePeerAuthAck C answer = .error e := by
  cases hsent with
  | inl hnil =>
    rw [hnil] at hunread
    obtain ⟨e, r', herror, _⟩ := @readFrame_end r t.maxPeerAuthFrame hunread
    rw [herror] at hread
    cases hread
  | inr hrejected =>
    obtain ⟨reject, hreject, hframe⟩ := hrejected
    have hlen := (marshalPeerAuthMessage_ok hreject).2
    rw [hframe, ← List.append_nil (frameBytes reject)] at hunread
    by_cases hfit : reject.length ≤ t.maxPeerAuthFrame
    · obtain ⟨r', hok, _⟩ :=
        readFrame_ok t.maxPeerAuthFrame_pos t.maxPeerAuthFrame_word hfit hunread
      rw [hok] at hread
      cases hread
      exact ⟨_, validatePeerAuthAck_reject hC hreject⟩
    · have hword : reject.length < 2 ^ 32 := by
        unfold maxPeerAuthPayloadBytes at hlen
        omega
      obtain ⟨r', hlarge⟩ := readFrame_large t.maxPeerAuthFrame_pos hword (by omega) hunread
      rw [hlarge] at hread
      cases hread

/-- Every way of delivering what is sent makes a connection. -/
theorem exists_connected (hdialer : dialer.peerAuthToken ≠ [])
    (hpayload : encodePeerAuth C dialer.peerAuthToken dialer.peerAuthIdentity
      dialer.peerAuthCapabilities = .ok payload)
    (hfit : payload.length ≤ dialer.maxPeerAuthFrame) {toAcceptor toDialer : Bytes → Reader}
    (hforward : ∀ data, (toAcceptor data).unread = data)
    (hbackward : ∀ data, (toDialer data).unread = data) :
    ∃ d a, Connected C dialer acceptor d a := by
  let a : AuthPeer := ⟨toAcceptor (frameBytes payload), [], [], []⟩
  let d : AuthPeer :=
    ⟨toDialer (finalState (acceptor.authenticateInbound C a)).sent, [], [], []⟩
  refine ⟨d, a, rfl, rfl, ⟨[], ?_⟩, ⟨[], ?_, fun _ => rfl⟩⟩
  · rw [AuthConfig.run_authenticateOutbound hdialer hpayload hfit, AuthConfig.answered_sent,
      List.append_nil]
    exact hforward _
  · rw [List.append_nil]
    exact hbackward _

end Agreement

/-- Two transports with valid configurations and tokens, whose payloads fit, over a
lossless connection: both authenticate exactly when the tokens are equal and the
acceptor lets the dialer's identity in, and then each has recorded the identity and the
capabilities of the other; otherwise both fail.  Whatever bytes an acceptor reads, it
succeeds only on a payload that carries its token and an identity that it lets in. -/
theorem peer_auth_agreement {C : AuthCodec} (hC : C.Lawful) {dialer acceptor : AuthConfig}
    (hdialer : dialer.validatePeerAuthConfig = .ok ())
    (hacceptor : acceptor.validatePeerAuthConfig = .ok ())
    (hdialerToken : dialer.peerAuthToken ≠ [])
    (hdialerUTF8 : C.validUTF8 dialer.peerAuthToken = true)
    (hacceptorToken : acceptor.peerAuthToken ≠ []) :
    (PayloadsFit C dialer acceptor → ∀ d a : AuthPeer, Connected C dialer acceptor d a →
      (acceptor.peerAuthToken = dialer.peerAuthToken ∧
          acceptor.Allows dialer.peerAuthIdentity →
        ∃ d' a', dialer.authenticateOutbound C d = .ok () d' ∧
          acceptor.authenticateInbound C a = .ok () a' ∧
          Recorded d' acceptor ∧ Recorded a' dialer) ∧
      (¬ (acceptor.peerAuthToken = dialer.peerAuthToken ∧
          acceptor.Allows dialer.peerAuthIdentity) →
        (∃ e d', dialer.authenticateOutbound C d = .error e d') ∧
          ∃ e a', acceptor.authenticateInbound C a = .error e a')) ∧
    ∀ a a' : AuthPeer, acceptor.authenticateInbound C a = .ok () a' →
      ∃ payload reader msg, readFrame acceptor.maxPeerAuthFrame a.reader = .ok payload reader ∧
        C.unmarshal payload = some msg ∧ msg.token = acceptor.peerAuthToken ∧
        acceptor.Allows msg.identity := by
  refine ⟨?_, fun a a' h => AuthConfig.authenticateInbound_ok hacceptorToken h⟩
  rintro ⟨payload, ack, hpayload, hack, hfit, hfitA, hackD, hackFit⟩ d a hconn
  obtain ⟨hidentityD, hcapsD⟩ := AuthConfig.validated hdialer
  obtain ⟨hidentityA, hcapsA⟩ := AuthConfig.validated hacceptor
  have hout := AuthConfig.run_authenticateOutbound hdialerToken hpayload hfit d
  have hsent : (finalState (dialer.authenticateOutbound C d)).sent = frameBytes payload := by
    rw [hout, AuthConfig.answered_sent, hconn.dialed]
    rfl
  obtain ⟨later, hforward⟩ := hconn.forward
  rw [hsent] at hforward
  obtain ⟨later', hbackward, hclosed⟩ := hconn.backward
  cases validatePeerAuthPayload_encoded hC hdialerUTF8 hidentityD hpayload acceptor with
  | inl hadmit =>
    obtain ⟨htoken, hallowed, hvalid⟩ := hadmit
    refine ⟨fun _ => ?_, fun hno => absurd ⟨htoken, hallowed⟩ hno⟩
    obtain ⟨a', hin, hsentA, hrecordI, hrecordC⟩ :=
      AuthConfig.run_authenticateInbound hacceptorToken hforward hfitA hvalid hack hackFit
    rw [hin] at hbackward
    have hunread : d.reader.unread = frameBytes ack ++ later' := by
      rw [hbackward]
      show a'.sent ++ later' = _
      rw [hsentA, hconn.accepted]
      rfl
    obtain ⟨d', hanswer, hrecordI', hrecordC'⟩ := AuthConfig.run_answered (C := C)
      (t := dialer) (p := { d with sent := d.sent ++ frameBytes payload }) hunread hackD
      (validatePeerAuthAck_encoded hC hidentityA hack)
    exact ⟨d', a', hout.trans hanswer, hin, .of_sort hcapsA hrecordI' hrecordC',
      .of_sort hcapsD hrecordI hrecordC⟩
  | inr hrefuse =>
    obtain ⟨hno, e, hvalid⟩ := hrefuse
    refine ⟨fun hyes => absurd hyes hno, fun _ => ?_⟩
    obtain ⟨a', hin, hsentA⟩ :=
      AuthConfig.run_authenticateInbound_error hacceptorToken hforward hfitA hvalid
    refine ⟨?_, e, a', hin⟩
    rw [hin] at hbackward hclosed
    rw [hclosed (by simp [error?]), List.append_nil] at hbackward
    rw [hout]
    refine AuthConfig.run_answered_error fun answer reader hread => ?_
    rw [hconn.accepted] at hsentA
    exact answer_refused hC hsentA hbackward hread

/-! ## A codec to run the model with -/

/-- The text from the member `capabilities` on. -/
def capabilitiesText (m : PeerAuthMessage) : Bytes :=
  omitEmpty ",\"capabilities\":" (writeList bracket writeString) m.capabilities ++ ascii "\x7d"

def errorText (m : PeerAuthMessage) : Bytes :=
  omitEmpty ",\"error\":" writeString m.error ++ capabilitiesText m

def identityText (m : PeerAuthMessage) : Bytes :=
  omitEmpty ",\"identity\":" writeString m.identity ++ errorText m

def tokenText (m : PeerAuthMessage) : Bytes :=
  omitEmpty ",\"token\":" writeString m.token ++ identityText m

def writeAuthMessage (m : PeerAuthMessage) : Bytes :=
  ascii "\x7b\"type\":" ++ (writeString m.type ++ (ascii ",\"version\":" ++
    (writeString m.version ++ tokenText m)))

def readAuthMessage (input : Bytes) : Option PeerAuthMessage := do
  let input ← expect (ascii "\x7b\"type\":") input
  let (type, input) ← readString input
  let input ← expect (ascii ",\"version\":") input
  let (version, input) ← readString input
  let (token, input) ← readMember ",\"token\":" readString input
  let (identity, input) ← readMember ",\"identity\":" readString input
  let (error, input) ← readMember ",\"error\":" readString input
  let (capabilities, input) ←
    readMember ",\"capabilities\":" (readList bracket readString) input
  let input ← expect (ascii "\x7d") input
  if input = [] then some ⟨type, version, token, identity, error, capabilities⟩ else none

theorem readAuthMessage_write (m : PeerAuthMessage) :
    readAuthMessage (writeAuthMessage m) = some m := by
  have hcapabilities : readMember ",\"capabilities\":" (readList bracket readString)
      (capabilitiesText m) = some (m.capabilities, ascii "\x7d") :=
    readMember_omitEmpty m.capabilities
      (readList_write readsString (.inl rfl) (fun _ _ => trivial) _) rfl
  have herror : readMember ",\"error\":" readString (errorText m) =
      some (m.error, capabilitiesText m) :=
    readMember_omitEmpty m.error (readString_write _ _)
      (expect_omitEmpty m.capabilities rfl fun _ => rfl)
  have hidentity : readMember ",\"identity\":" readString (identityText m) =
      some (m.identity, errorText m) :=
    readMember_omitEmpty m.identity (readString_write _ _)
      (expect_omitEmpty m.error (expect_omitEmpty m.capabilities rfl fun _ => rfl) fun _ => rfl)
  have htoken : readMember ",\"token\":" readString (tokenText m) =
      some (m.token, identityText m) :=
    readMember_omitEmpty m.token (readString_write _ _)
      (expect_omitEmpty m.identity (expect_omitEmpty m.error
        (expect_omitEmpty m.capabilities rfl fun _ => rfl) fun _ => rfl) fun _ => rfl)
  unfold readAuthMessage writeAuthMessage
  simp only [expect_append, Option.bind_eq_bind, Option.bind_some, readString_write, htoken,
    hidentity, herror, hcapabilities, expect_self, if_true]

/-- The codec of exactly the texts that are written, for ASCII. -/
def goAuthCodec : AuthCodec where
  marshal := writeAuthMessage
  unmarshal := readAuthMessage
  validUTF8 := fun s => s.all fun b => b.toNat < 128

theorem goAuthCodec_lawful : goAuthCodec.Lawful where
  unmarshal_marshal := fun m _ => readAuthMessage_write m
  ascii := by
    intro s h
    exact List.all_eq_true.mpr fun b hb => decide_eq_true (h b hb)

namespace Sample

def hiveNode : AuthConfig :=
  ⟨0, ascii "secret", ascii "node-a", [], [capabilityLifecycleRepairReconcileV1,
    capabilityLifecycleV1]⟩

def closedNode : AuthConfig :=
  ⟨0, ascii "secret", ascii "node-b", [ascii "node-a"], [capabilityLifecycleV1]⟩

def otherNode : AuthConfig := ⟨0, ascii "guess", ascii "node-a", [], []⟩

/-- The payload of a dialer that declares these capabilities in order. -/
def authPayload (t : AuthConfig) (capabilities : List Bytes) : Bytes :=
  writeAuthMessage ⟨handshakeTypePeerAuth, handshakeVersionV1, t.peerAuthToken,
    t.peerAuthIdentity, [], capabilities⟩

def ackPayload (t : AuthConfig) (capabilities : List Bytes) : Bytes :=
  writeAuthMessage ⟨handshakeTypePeerAuthOK, handshakeVersionV1, [], t.peerAuthIdentity, [],
    capabilities⟩

end Sample

open Sample in
/-- An identity on the list is let in; a wrong token is not, on either side. -/
theorem peer_auth_agreement_sample :
    (∃ d a d' a', hiveNode.authenticateOutbound goAuthCodec d = .ok () d' ∧
      closedNode.authenticateInbound goAuthCodec a = .ok () a' ∧
      Recorded d' closedNode ∧ Recorded a' hiveNode) ∧
    ∃ d a, (∃ e d', otherNode.authenticateOutbound goAuthCodec d = .error e d') ∧
      ∃ e a', closedNode.authenticateInbound goAuthCodec a = .error e a' := by
  have hgood : PayloadsFit goAuthCodec hiveNode closedNode :=
    ⟨authPayload hiveNode [capabilityLifecycleRepairReconcileV1, capabilityLifecycleV1],
      ackPayload closedNode [capabilityLifecycleV1], by decide +kernel, by decide +kernel,
      by decide +kernel, by decide +kernel, by decide +kernel, by decide +kernel⟩
  have hbad : PayloadsFit goAuthCodec otherNode closedNode :=
    ⟨authPayload otherNode [], ackPayload closedNode [capabilityLifecycleV1],
      by decide +kernel, by decide +kernel, by decide +kernel, by decide +kernel,
      by decide +kernel, by decide +kernel⟩
  have hwhole : ∀ data : Bytes, (Reader.mk 4096 [] [data]).unread = data := by
    intro data
    simp [Reader.unread]
  constructor
  · obtain ⟨payload, _, hpayload, _, hfit, _⟩ := id hgood
    obtain ⟨d, a, hconn⟩ := @exists_connected payload goAuthCodec hiveNode closedNode
      (by decide) hpayload hfit _ _ hwhole hwhole
    obtain ⟨d', a', hresult⟩ := ((peer_auth_agreement goAuthCodec_lawful rfl rfl (by decide)
      (by decide) (by decide)).1 hgood d a hconn).1 ⟨rfl, .inr (by decide)⟩
    exact ⟨d, a, d', a', hresult⟩
  · obtain ⟨payload, _, hpayload, _, hfit, _⟩ := id hbad
    obtain ⟨d, a, hconn⟩ := @exists_connected payload goAuthCodec otherNode closedNode
      (by decide) hpayload hfit _ _ hwhole hwhole
    exact ⟨d, a, ((peer_auth_agreement goAuthCodec_lawful rfl rfl (by decide) (by decide)
      (by decide)).1 hbad d a hconn).2 (fun h => absurd h.1 (by decide))⟩

end StreamHive.Transport

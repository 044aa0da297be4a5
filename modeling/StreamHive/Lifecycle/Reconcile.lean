import Mathlib.Data.List.Permutation
import StreamHive.Lifecycle.Session

/-!
# Startup watermarks

When both peers have negotiated reconciliation, each reports its watermark for
the other and replaces its own by the report it receives.  Nothing orders the
report of one side against the handling of the other's, so a side may report the
watermark it had before, or the one it has just adopted.

This module follows the two reports through every interleaving of the four calls
over an in-order connection.  If one side handles the other's report before it
sends its own, both end with one watermark.  If both reports are sent first, the
two watermarks change places.

## Main results

* `exchanges` — when the four calls succeed, and what they leave;
* `startup_agrees` — the two sides agree, and accept each other's first batch,
  exactly if the watermarks were equal or one side handled before it sent, and
  the bounds of each side admit what the other sends.
-/

namespace StreamHive.Lifecycle

open Verified ByteString Effect FileSystem Log

/-! ## The connection -/

/-- The two ends of a connection. -/
inductive Side where
  | a
  | b
  deriving DecidableEq, Repr

namespace Side

def other : Side → Side
  | .a => .b
  | .b => .a

@[simp] theorem other_other (x : Side) : x.other.other = x := by
  cases x <;> rfl

@[simp] theorem other_ne (x : Side) : x.other ≠ x := by
  cases x <;> decide

@[simp] theorem ne_other (x : Side) : x ≠ x.other := by
  cases x <;> decide

/-- What holds of a side and of the other one holds of both. -/
theorem both {P : Side → Prop} (x : Side) : (∀ y, P y) ↔ P x ∧ P x.other := by
  constructor
  · intro h
    exact ⟨h x, h x.other⟩
  · rintro ⟨h, h'⟩ y
    cases x <;> cases y <;> assumption

end Side

/-- The sessions at the two ends; the outbox of one is the inbox of the other. -/
abbrev Connection := Side → SessionState

/-- The calls at startup. -/
inductive Startup where
  | send (x : Side)
  | handle (x : Side)
  deriving DecidableEq, Repr

namespace Connection

/-- A side reports its watermark.  The step stands for the read of the watermark: the other
side finds the frame later, in a step of its own. -/
def send (S : Stdlib) (c : Connection) (x : Side) : Except Error Connection :=
  match RepairSession.sendStartupWatermark S Faults.none (c x) with
  | .ok _ s => .ok (Function.update c x s)
  | .error e _ => .error e

/-- A side handles the next frame of the other; without a frame it waits. -/
def receive (S : Stdlib) (c : Connection) (x : Side) : Except Error Connection :=
  match (c x.other).outbox with
  | [] => .ok c
  | payload :: rest =>
    match RepairSession.handle S Faults.none payload (c x) with
    | .ok _ s => .ok (Function.update (Function.update c x s) x.other
        { c x.other with outbox := rest })
    | .error e _ => .error e

def step (S : Stdlib) (c : Connection) : Startup → Except Error Connection
  | .send x => c.send S x
  | .handle x => c.receive S x

/-- Calls one after the other, until one fails. -/
def run (S : Stdlib) (c : Connection) : List Startup → Except Error Connection
  | [] => .ok c
  | event :: rest => do
    let c' ← c.step S event
    run S c' rest

end Connection

/-- Each side sends its report once and handles the other's once, after it has
been sent. -/
def Interleaving (l : List Startup) : Prop :=
  l.Perm [.send .a, .send .b, .handle .a, .handle .b] ∧
    ∀ x : Side, l.idxOf (.send x) < l.idxOf (.handle x.other)

/-- A side handles the other's report before it sends its own. -/
def HandlesFirst (l : List Startup) (x : Side) : Prop :=
  l.idxOf (.handle x) < l.idxOf (.send x)

instance (l : List Startup) (x : Side) : Decidable (HandlesFirst l x) :=
  inferInstanceAs (Decidable (_ < _))

/-- Both reports are sent before either is handled, or one after the other. -/
theorem Interleaving.cases {l : List Startup} (h : Interleaving l) :
    (∃ x y : Side, l = [.send x, .send x.other, .handle y, .handle y.other]) ∨
      ∃ x : Side, l = [.send x, .handle x.other, .send x.other, .handle x] := by
  have hmem := List.mem_permutations'.mpr h.1
  have hall : ∀ l ∈ [Startup.send .a, .send .b, .handle .a, .handle .b].permutations',
      l.idxOf (.send .a) < l.idxOf (.handle .b) →
      l.idxOf (.send .b) < l.idxOf (.handle .a) →
      l ∈ [[.send .a, .send .b, .handle .a, .handle .b],
        [.send .a, .send .b, .handle .b, .handle .a],
        [.send .b, .send .a, .handle .a, .handle .b],
        [.send .b, .send .a, .handle .b, .handle .a]] ∨
      l ∈ [[.send .a, .handle .b, .send .b, .handle .a],
        [.send .b, .handle .a, .send .a, .handle .b]] := by
    decide
  have hcases := hall l hmem (h.2 .a) (h.2 .b)
  simp only [List.mem_cons, List.not_mem_nil, or_false] at hcases
  rcases hcases with (rfl | rfl | rfl | rfl) | (rfl | rfl)
  · exact .inl ⟨.a, .a, rfl⟩
  · exact .inl ⟨.a, .b, rfl⟩
  · exact .inl ⟨.b, .a, rfl⟩
  · exact .inl ⟨.b, .b, rfl⟩
  · exact .inr ⟨.a, rfl⟩
  · exact .inr ⟨.b, rfl⟩

/-! ## Single calls -/

/-- The session takes the next acknowledgement for a startup report. -/
structure Greets (s : SessionState) : Prop where
  capable : hasLifecycleCapability s.session.capabilities = true
  reconciles : s.session.reconcilePeer = true
  first : s.session.helloReceived = false
  nonempty : ¬ s.node.journal.lastVersion.IsZero

/-- The bounds of a session admit a report and its book can record it. -/
structure Receives (S : Stdlib) (s : SessionState) (v : Version) : Prop where
  frame : (ackPayload S v).length ≤ s.node.repairLimits.normalized.maxFrameBytes
  book : s.node.watermarks.Reconciles S s.session.peerID v

/-- The session after it has adopted a report. -/
structure Adopted (s : SessionState) (v : Version) (s' : SessionState) : Prop where
  watermark : s'.watermark = v
  journal : s'.node.journal = s.node.journal
  limits : s'.node.repairLimits = s.node.repairLimits
  bound : s'.session.maxFrameBytes = s.session.maxFrameBytes

section Calls

variable {S : Stdlib} {s s' : SessionState} {v : Version}

theorem sendStartupWatermark_eq_ok :
    RepairSession.sendStartupWatermark S Faults.none s = .ok () s' ↔
      RepairSession.AckFits S s s.watermark ∧ s' = s.wrote (ackPayload S s.watermark) := by
  have hsend : RepairSession.sendStartupWatermark S Faults.none s =
      RepairSession.writeAck S Faults.none s.watermark s := rfl
  rw [hsend]
  rcases RepairSession.writeAck_cases (S := S) Faults.none s.watermark s with
    ⟨e, t, hrun, _, hwhy⟩ | ⟨hrun, hfits⟩
  · have hno := hwhy.resolve_right RepairSession.not_frameRefused
    simp [hrun, hno]
  · rw [hrun]
    constructor
    · intro h
      cases h
      exact ⟨hfits, rfl⟩
    · rintro ⟨_, rfl⟩
      rfl

theorem not_ctxRefused {sites : List Site} :
    ¬ WatermarkBook.CtxRefused Faults.none sites := by
  rintro ⟨_, _, _, h⟩
  exact h rfl

/-- A startup report is handled exactly if it is admitted; then it replaces the
watermark. -/
theorem handle_report (hS : S.Lawful) (hs : Greets s)
    (hv : v ≤ s.node.journal.lastVersion) :
    (∃ e t, RepairSession.handle S Faults.none (ackPayload S v) s = .error e t ∧
        ¬ Receives S s v) ∨
      (∃ t, RepairSession.handle S Faults.none (ackPayload S v) s = .ok () t ∧
        Receives S s v ∧ Adopted s v t ∧ t.outbox = s.outbox) := by
  rcases RepairSession.handle_cases (S := S) Faults.none (ackPayload S v) s with
    ⟨e, hrun, hno⟩ | ⟨frame, hframe, _, hrun⟩
  · refine .inl ⟨e, s, hrun, ?_⟩
    intro hr
    exact hno ⟨rfl, hs.capable, _, (decodeRepairFrame_ack hS).mpr ⟨hr.frame, rfl⟩⟩
  obtain ⟨hlen, rfl⟩ := (decodeRepairFrame_ack hS).mp hframe
  rw [hrun]
  change (∃ e t, RepairSession.handleAck S Faults.none ⟨repairAckMessageType, v⟩ s =
      .error e t ∧ _) ∨ ∃ t, RepairSession.handleAck S Faults.none
        ⟨repairAckMessageType, v⟩ s = .ok () t ∧ _
  have hack : RepairSession.handleAck S Faults.none ⟨repairAckMessageType, v⟩ s =
      SessionState.onBook (RepairCoordinator.reconcile S Faults.none s.node.journal
        s.session.peerID v)
        { s with session := { s.session with helloReceived := true } } := by
    unfold RepairSession.handleAck
    rw [run_bind_get, if_pos ⟨hs.reconciles, hs.first⟩, if_pos hs.nonempty]
    rfl
  rw [hack]
  rcases RepairCoordinator.reconcile_spec (S := S) Faults.none s.node.journal
      s.session.peerID v ⟨s.node.fs, s.node.watermarks⟩ with
    ⟨e, fs', hbook, hrefused⟩ | ⟨d, hbook, ⟨_, hacc⟩, hsaved⟩
  · refine .inl ⟨e, _, run_zoom_error hbook, ?_⟩
    intro hr
    exact (hrefused Faults.none_soft).2.resolve_right not_ctxRefused ⟨hv, hr.book⟩
  · refine .inr ⟨_, run_zoom hbook, ⟨hlen, hacc⟩, ⟨?_, rfl, rfl, rfl⟩, rfl⟩
    change d.obj.watermark s.session.peerID = v
    rw [hsaved.obj]
    exact WatermarkBook.watermark_reconciled

end Calls

/-! ## The four calls -/

/-- The report of one side is in flight. -/
def Connection.sent (S : Stdlib) (c : Connection) (x : Side) : Connection :=
  Function.update c x ((c x).wrote (ackPayload S (c x).watermark))

theorem Connection.sent_self (S : Stdlib) (c : Connection) (x : Side) :
    c.sent S x x = (c x).wrote (ackPayload S (c x).watermark) := Function.update_self _ _ _

theorem Connection.sent_other (S : Stdlib) (c : Connection) (x : Side) :
    c.sent S x x.other = c x.other := Function.update_of_ne (Side.other_ne x) _ _

section Calls

variable {S : Stdlib} {c c' : Connection}

theorem Connection.send_eq_ok {x : Side} :
    c.send S x = .ok c' ↔
      RepairSession.AckFits S (c x) (c x).watermark ∧ c' = c.sent S x := by
  unfold Connection.send Connection.sent
  cases hrun : RepairSession.sendStartupWatermark S Faults.none (c x) with
  | ok u s =>
    obtain ⟨hfits, rfl⟩ := sendStartupWatermark_eq_ok.mp hrun
    simp [hfits, eq_comm]
  | error e s =>
    have hno : ¬ RepairSession.AckFits S (c x) (c x).watermark := by
      intro hfits
      rw [sendStartupWatermark_eq_ok.mpr ⟨hfits, rfl⟩] at hrun
      cases hrun
    simp [hno]

/-- Handling the report that is next on the connection. -/
theorem Connection.receive_spec (hS : S.Lawful) {x : Side} {v : Version}
    (hframe : (c x.other).outbox = [ackPayload S v]) (hs : Greets (c x))
    (hv : v ≤ (c x).node.journal.lastVersion) :
    (Receives S (c x) v → ∃ c', c.receive S x = .ok c') ∧
      ∀ c', c.receive S x = .ok c' → Receives S (c x) v ∧
        Adopted (c x) v (c' x) ∧ (c' x).outbox = (c x).outbox ∧
        c' x.other = { c x.other with outbox := [] } := by
  unfold Connection.receive
  rw [hframe]
  rcases handle_report hS hs hv with ⟨e, t, hrun, hno⟩ | ⟨t, hrun, hr, hadopted, hout⟩
  · simp [hrun, hno]
  · simp only [hrun]
    refine ⟨fun _ => ⟨_, rfl⟩, ?_⟩
    intro c' hc'
    have hc'' := Except.ok.inj hc'
    rw [← hc'']
    simp only [Function.update_self, Function.update_of_ne (Side.ne_other x)]
    exact ⟨hr, hadopted, hout, trivial⟩

end Calls

/-- Two sessions at the start of a connection: no frame is in flight, and each
watermark is at most both journals' last versions. -/
structure Startable (c : Connection) : Prop where
  greets : ∀ x, Greets (c x)
  quiet : ∀ x, (c x).outbox = []
  bounded : ∀ x y, (c x).watermark ≤ (c y).node.journal.lastVersion

/-- What a side reports: its watermark, or the other's if it has adopted that
before. -/
def reported (c : Connection) (l : List Startup) (x : Side) : Version :=
  if HandlesFirst l x then (c x.other).watermark else (c x).watermark

/-- The four calls succeed exactly if both reports can be sent and received, and
each side then holds what the other reported. -/
structure Exchanges (S : Stdlib) (c : Connection) (l : List Startup) : Prop where
  succeeds : (∀ x, RepairSession.AckFits S (c x) (reported c l x)) →
    (∀ x, Receives S (c x) (reported c l x.other)) → ∃ c', c.run S l = .ok c'
  sends : ∀ c', c.run S l = .ok c' → ∀ x, RepairSession.AckFits S (c x) (reported c l x)
  receives : ∀ c', c.run S l = .ok c' → ∀ x, Receives S (c x) (reported c l x.other)
  adopts : ∀ c', c.run S l = .ok c' → ∀ x, Adopted (c x) (reported c l x.other) (c' x)

section Interleavings

variable {S : Stdlib} {c c' : Connection}

theorem Greets.wrote {s : SessionState} (h : Greets s) (payload : Bytes) :
    Greets (s.wrote payload) := ⟨h.capable, h.reconciles, h.first, h.nonempty⟩

/-- Frames in flight do not matter to what a session receives. -/
theorem receives_congr {s t : SessionState} {v : Version} (hnode : t.node = s.node)
    (hsession : t.session = s.session) : Receives S t v ↔ Receives S s v := by
  constructor
  · rintro ⟨hframe, hbook⟩
    rw [hnode] at hframe hbook
    rw [hsession] at hbook
    exact ⟨hframe, hbook⟩
  · rintro ⟨hframe, hbook⟩
    refine ⟨?_, ?_⟩
    · rw [hnode]
      exact hframe
    · rw [hnode, hsession]
      exact hbook

theorem Connection.run_four {e₁ e₂ e₃ e₄ : Startup} :
    c.run S [e₁, e₂, e₃, e₄] = .ok c' ↔
      ∃ c₁, c.step S e₁ = .ok c₁ ∧ ∃ c₂, c₁.step S e₂ = .ok c₂ ∧
        ∃ c₃, c₂.step S e₃ = .ok c₃ ∧ c₃.step S e₄ = .ok c' := by
  have hlast : ∀ c₃ : Connection, (do let c₄ ← c₃.step S e₄; Except.ok c₄) = .ok c' ↔
      c₃.step S e₄ = .ok c' := by
    intro c₃
    rw [except_bind_ok]
    constructor
    · rintro ⟨c₄, h, h'⟩
      cases h'
      exact h
    · intro h
      exact ⟨c', h, rfl⟩
  simp only [Connection.run, except_bind_ok, hlast]

theorem reported_concurrent (c : Connection) (x y z : Side) :
    reported c [.send x, .send x.other, .handle y, .handle y.other] z =
      (c z).watermark := by
  have hno : ¬ HandlesFirst [.send x, .send x.other, .handle y, .handle y.other] z := by
    cases x <;> cases y <;> cases z <;> decide
  unfold reported
  rw [if_neg hno]

theorem reported_sequential (c : Connection) (x z : Side) :
    reported c [.send x, .handle x.other, .send x.other, .handle x] z =
      (c x).watermark := by
  unfold reported
  cases x <;> cases z <;> rfl

/-- Both reports are in flight. -/
def inFlight (S : Stdlib) (c : Connection) : Connection :=
  fun z => (c z).wrote (ackPayload S (c z).watermark)

theorem send_both {x : Side} :
    (∃ c₁, c.send S x = .ok c₁ ∧ c₁.send S x.other = .ok c') ↔
      (∀ z, RepairSession.AckFits S (c z) (c z).watermark) ∧ c' = inFlight S c := by
  have hboth : (c.sent S x).sent S x.other = inFlight S c := by
    funext z
    have hz : z = x ∨ z = x.other := by
      cases x <;> cases z <;> simp [Side.other]
    rcases hz with rfl | rfl
    · have hkept := Connection.sent_other S (c.sent S z) z.other
      rw [Side.other_other] at hkept
      rw [hkept, Connection.sent_self]
      rfl
    · rw [Connection.sent_self, Connection.sent_other]
      rfl
  rw [Side.both x]
  constructor
  · rintro ⟨c₁, h₁, h₂⟩
    obtain ⟨hx, rfl⟩ := Connection.send_eq_ok.mp h₁
    obtain ⟨hy, rfl⟩ := Connection.send_eq_ok.mp h₂
    rw [Connection.sent_other] at hy
    exact ⟨⟨hx, hy⟩, hboth⟩
  · rintro ⟨⟨hx, hy⟩, rfl⟩
    refine ⟨_, Connection.send_eq_ok.mpr ⟨hx, rfl⟩, Connection.send_eq_ok.mpr ?_⟩
    rw [Connection.sent_other]
    exact ⟨hy, hboth.symm⟩

/-- Both reports are sent, then both are handled: the watermarks change places. -/
theorem exchanges_concurrent (hS : S.Lawful) (h : Startable c) (x y : Side) :
    Exchanges S c [.send x, .send x.other, .handle y, .handle y.other] := by
  have hfirst := Connection.receive_spec hS (c := inFlight S c) (x := y)
    (v := (c y.other).watermark) (by simp [inFlight, SessionState.wrote, h.quiet])
    ((h.greets y).wrote _) (h.bounded _ _)
  rw [receives_congr (s := c y) (t := inFlight S c y) rfl rfl] at hfirst
  -- the second call finds the report of `y` and a session that only lost its frame
  have hsecond : ∀ c₃, (inFlight S c).receive S y = .ok c₃ →
      (Receives S (c y.other) (c y).watermark → ∃ c', c₃.receive S y.other = .ok c') ∧
        ∀ c', c₃.receive S y.other = .ok c' → Receives S (c y.other) (c y).watermark ∧
          Adopted (c y) (c y.other).watermark (c' y) ∧
          Adopted (c y.other) (c y).watermark (c' y.other) := by
    intro c₃ hc₃
    obtain ⟨_, hadopted, hout, hother⟩ := hfirst.2 c₃ hc₃
    have hspec := Connection.receive_spec hS (c := c₃) (x := y.other)
      (v := (c y).watermark) (by
        rw [Side.other_other, hout]
        simp [inFlight, SessionState.wrote, h.quiet])
      (by
        rw [hother]
        have hg := h.greets y.other
        exact ⟨hg.capable, hg.reconciles, hg.first, hg.nonempty⟩)
      (by
        rw [hother]
        exact h.bounded y y.other)
    rw [Side.other_other, hother, receives_congr (s := c y.other)
      (t := { inFlight S c y.other with outbox := [] }) rfl rfl] at hspec
    refine ⟨hspec.1, ?_⟩
    intro c' hc'
    obtain ⟨hr, hadopted', _, hlast⟩ := hspec.2 c' hc'
    rw [hlast]
    exact ⟨hr, ⟨hadopted.watermark, hadopted.journal, hadopted.limits, hadopted.bound⟩,
      ⟨hadopted'.watermark, hadopted'.journal, hadopted'.limits, hadopted'.bound⟩⟩
  have hrun : ∀ c', c.run S [.send x, .send x.other, .handle y, .handle y.other] =
      .ok c' ↔ (∀ z, RepairSession.AckFits S (c z) (c z).watermark) ∧
        ∃ c₃, (inFlight S c).receive S y = .ok c₃ ∧ c₃.receive S y.other = .ok c' := by
    intro c'
    rw [Connection.run_four]
    constructor
    · rintro ⟨c₁, h₁, c₂, h₂, c₃, h₃, h₄⟩
      obtain ⟨hfits, rfl⟩ := send_both.mp ⟨c₁, h₁, h₂⟩
      exact ⟨hfits, c₃, h₃, h₄⟩
    · rintro ⟨hfits, c₃, h₃, h₄⟩
      obtain ⟨c₁, h₁, h₂⟩ := send_both.mpr ⟨hfits, rfl⟩
      exact ⟨c₁, h₁, _, h₂, c₃, h₃, h₄⟩
  refine ⟨?_, ?_, ?_, ?_⟩
  · simp only [reported_concurrent]
    intro hfits hreceives
    obtain ⟨c₃, h₃⟩ := hfirst.1 (hreceives y)
    have hr := hreceives y.other
    rw [Side.other_other] at hr
    obtain ⟨c', h₄⟩ := (hsecond c₃ h₃).1 hr
    exact ⟨c', (hrun c').mpr ⟨hfits, c₃, h₃, h₄⟩⟩
  · simp only [reported_concurrent]
    intro c' hc'
    exact ((hrun c').mp hc').1
  · simp only [reported_concurrent]
    intro c' hc'
    obtain ⟨_, c₃, h₃, h₄⟩ := (hrun c').mp hc'
    rw [Side.both y, Side.other_other]
    exact ⟨(hfirst.2 c₃ h₃).1, ((hsecond c₃ h₃).2 c' h₄).1⟩
  · simp only [reported_concurrent]
    intro c' hc'
    obtain ⟨_, c₃, h₃, h₄⟩ := (hrun c').mp hc'
    rw [Side.both y, Side.other_other]
    exact ((hsecond c₃ h₃).2 c' h₄).2

/-- One side handles the other's report before it sends its own: both end with the
watermark of the side that sent first. -/
theorem exchanges_sequential (hS : S.Lawful) (h : Startable c) (x : Side) :
    Exchanges S c [.send x, .handle x.other, .send x.other, .handle x] := by
  have hsent := c.sent_self S x
  have hother := c.sent_other S x
  have hfirst := Connection.receive_spec hS (c := c.sent S x) (x := x.other)
    (v := (c x).watermark) (by
      rw [Side.other_other, hsent]
      simp [SessionState.wrote, h.quiet])
    (by
      rw [hother]
      exact h.greets x.other)
    (by
      rw [hother]
      exact h.bounded x x.other)
  rw [Side.other_other, hother, hsent] at hfirst
  -- after the first report the other side reports the watermark it has adopted
  have hreply : ∀ c₂, (c.sent S x).receive S x.other = .ok c₂ → ∀ c₃,
      (c₂.send S x.other = .ok c₃ ↔
        RepairSession.AckFits S (c x.other) (c x).watermark ∧ c₃ = c₂.sent S x.other) := by
    intro c₂ h₂ c₃
    obtain ⟨_, hadopted, _, _⟩ := hfirst.2 c₂ h₂
    rw [Connection.send_eq_ok, hadopted.watermark]
    unfold RepairSession.AckFits RepairSession.FrameFits
    rw [hadopted.limits, hadopted.bound]
  have hlast : ∀ c₂, (c.sent S x).receive S x.other = .ok c₂ →
      (Receives S (c x) (c x).watermark →
        ∃ c', (c₂.sent S x.other).receive S x = .ok c') ∧
        ∀ c', (c₂.sent S x.other).receive S x = .ok c' →
          Receives S (c x) (c x).watermark ∧ Adopted (c x) (c x).watermark (c' x) ∧
          Adopted (c x.other) (c x).watermark (c' x.other) := by
    intro c₂ h₂
    obtain ⟨_, hadopted, hout, hkept⟩ := hfirst.2 c₂ h₂
    have hx : c₂.sent S x.other x =
        { (c x).wrote (ackPayload S (c x).watermark) with outbox := [] } := by
      have hsame := c₂.sent_other S x.other
      rw [Side.other_other] at hsame
      rw [hsame, hkept]
    have hspec := Connection.receive_spec hS (c := c₂.sent S x.other) (x := x)
      (v := (c x).watermark) (by
        rw [Connection.sent_self, hadopted.watermark]
        simp [SessionState.wrote, hout, h.quiet])
      (by
        rw [hx]
        have hg := h.greets x
        exact ⟨hg.capable, hg.reconciles, hg.first, hg.nonempty⟩)
      (by
        rw [hx]
        exact h.bounded x x)
    rw [hx, Connection.sent_self, receives_congr (s := c x)
      (t := { (c x).wrote (ackPayload S (c x).watermark) with outbox := [] })
      rfl rfl] at hspec
    refine ⟨hspec.1, ?_⟩
    intro c' hc'
    obtain ⟨hr, hown, _, hend⟩ := hspec.2 c' hc'
    rw [hend]
    exact ⟨hr, ⟨hown.watermark, hown.journal, hown.limits, hown.bound⟩,
      ⟨hadopted.watermark, hadopted.journal, hadopted.limits, hadopted.bound⟩⟩
  have hrun : ∀ c', c.run S [.send x, .handle x.other, .send x.other, .handle x] =
      .ok c' ↔ RepairSession.AckFits S (c x) (c x).watermark ∧
        ∃ c₂, (c.sent S x).receive S x.other = .ok c₂ ∧
          ∃ c₃, c₂.send S x.other = .ok c₃ ∧ c₃.receive S x = .ok c' := by
    intro c'
    rw [Connection.run_four]
    constructor
    · rintro ⟨c₁, h₁, c₂, h₂, c₃, h₃, h₄⟩
      obtain ⟨hfits, rfl⟩ := Connection.send_eq_ok.mp h₁
      exact ⟨hfits, c₂, h₂, c₃, h₃, h₄⟩
    · rintro ⟨hfits, c₂, h₂, c₃, h₃, h₄⟩
      exact ⟨_, Connection.send_eq_ok.mpr ⟨hfits, rfl⟩, c₂, h₂, c₃, h₃, h₄⟩
  refine ⟨?_, ?_, ?_, ?_⟩
  · simp only [reported_sequential]
    intro hfits hreceives
    obtain ⟨c₂, h₂⟩ := hfirst.1 (hreceives x.other)
    have h₃ := (hreply c₂ h₂ _).mpr ⟨hfits x.other, rfl⟩
    obtain ⟨c', h₄⟩ := (hlast c₂ h₂).1 (hreceives x)
    exact ⟨c', (hrun c').mpr ⟨hfits x, c₂, h₂, _, h₃, h₄⟩⟩
  · simp only [reported_sequential]
    intro c' hc'
    obtain ⟨hfits, c₂, h₂, c₃, h₃, _⟩ := (hrun c').mp hc'
    rw [Side.both x]
    exact ⟨hfits, ((hreply c₂ h₂ c₃).mp h₃).1⟩
  · simp only [reported_sequential]
    intro c' hc'
    obtain ⟨_, c₂, h₂, c₃, h₃, h₄⟩ := (hrun c').mp hc'
    rw [((hreply c₂ h₂ c₃).mp h₃).2] at h₄
    rw [Side.both x]
    exact ⟨((hlast c₂ h₂).2 c' h₄).1, (hfirst.2 c₂ h₂).1⟩
  · simp only [reported_sequential]
    intro c' hc'
    obtain ⟨_, c₂, h₂, c₃, h₃, h₄⟩ := (hrun c').mp hc'
    rw [((hreply c₂ h₂ c₃).mp h₃).2] at h₄
    rw [Side.both x]
    exact ((hlast c₂ h₂).2 c' h₄).2

/-- Every interleaving exchanges the two reports. -/
theorem exchanges (hS : S.Lawful) (h : Startable c) {l : List Startup}
    (hl : Interleaving l) : Exchanges S c l := by
  rcases hl.cases with ⟨x, y, rfl⟩ | ⟨x, rfl⟩
  · exact exchanges_concurrent hS h x y
  · exact exchanges_sequential hS h x

/-- Both sides report one watermark exactly if theirs were equal or one side
handled before it sent. -/
theorem reported_eq_iff (c : Connection) {l : List Startup} (hl : Interleaving l) :
    (∀ x, reported c l x = reported c l x.other) ↔
      (c .a).watermark = (c .b).watermark ∨ ∃ x, HandlesFirst l x := by
  rcases hl.cases with ⟨x, y, rfl⟩ | ⟨x, rfl⟩
  · have hno : ¬ ∃ z, HandlesFirst
        [.send x, .send x.other, .handle y, .handle y.other] z := by
      rintro ⟨z, hz⟩
      cases x <;> cases y <;> cases z <;> revert hz <;> decide
    simp only [reported_concurrent, hno, or_false]
    constructor
    · intro h
      exact h .a
    · intro h x
      cases x
      · exact h
      · exact h.symm
  · have hyes : ∃ z, HandlesFirst [.send x, .handle x.other, .send x.other, .handle x] z := by
      refine ⟨x.other, ?_⟩
      cases x <;> decide
    simp only [reported_sequential, hyes, or_true, implies_true]

end Interleavings

/-! ## Agreement -/

/-- The batch that a journal yields at a watermark passes the limits of the other
side. -/
def AdmittedBy (S : Stdlib) (s t : SessionState) (w : Version) : Prop :=
  ∀ batch, s.node.journal.repairBatch S Oracle.none w s.node.repairLimits = .ok batch →
    validateRepairBatch S batch t.node.repairLimits.normalized = .ok ()

/-- All four calls succeed, the watermarks are equal, and the first batch that
either side plans is classified by the other. -/
def Agrees (S : Stdlib) (c : Connection) (l : List Startup) : Prop :=
  ∃ c', c.run S l = .ok c' ∧ (∀ x, (c' x).watermark = (c' x.other).watermark) ∧
    ∀ x batch, (c' x).node.journal.repairBatch S Oracle.none (c' x).watermark
        (c' x).node.repairLimits = .ok batch →
      ∃ delivery, batch.delivery S (c' x.other).watermark
        (c' x.other).node.repairLimits = .ok delivery

/-- The condition for agreement, on the two sessions before the exchange and on
the order of the calls. -/
structure AgreesWhen (S : Stdlib) (c : Connection) (l : List Startup) : Prop where
  order : (c .a).watermark = (c .b).watermark ∨ ∃ x, HandlesFirst l x
  sends : ∀ x, RepairSession.AckFits S (c x) (reported c l x)
  receives : ∀ x, Receives S (c x) (reported c l x.other)
  admits : ∀ x, AdmittedBy S (c x) (c x.other) (reported c l x.other)

/-- A batch planned from the watermark that the receiver expects is classified
exactly if it passes the receiver's limits. -/
theorem delivery_at_watermark {S : Stdlib} {s : SessionState} {w : Version}
    {batch : RepairBatch} {limits : RepairLimits}
    (h : s.node.journal.repairBatch S Oracle.none w s.node.repairLimits = .ok batch) :
    (∃ delivery, batch.delivery S w limits = .ok delivery) ↔
      validateRepairBatch S batch limits.normalized = .ok () := by
  have hfrom : batch.from_ = w := by
    obtain ⟨_, n, rfl, _⟩ := Journal.repairBatch_ok h
    rfl
  constructor
  · rintro ⟨delivery, hd⟩
    exact validateRepairBatch_eq_ok.mpr (RepairBatch.admissible_of_delivery hd)
  · intro hvalid
    rw [RepairBatch.delivery_eq (validateRepairBatch_eq_ok.mp hvalid)]
    by_cases hle : batch.to_ ≤ w
    · exact ⟨.duplicate, if_pos hle⟩
    · exact ⟨.ready, by rw [if_neg hle, if_pos hfrom]⟩

/-- For every interleaving of the two startup reports and the two calls that handle
them: both calls succeed, the nodes hold one watermark for each other and accept
each other's first batch, exactly if the watermarks were equal before or one side
handled the other's report before it sent its own, and each side's bounds admit
the report and the batch of the other. -/
theorem startup_agrees {S : Stdlib} (hS : S.Lawful) (c : Connection) (h : Startable c)
    (l : List Startup) (hl : Interleaving l) : Agrees S c l ↔ AgreesWhen S c l := by
  have hex := exchanges hS h hl
  constructor
  · rintro ⟨c', hrun, hsame, hplan⟩
    have hadopts := hex.adopts c' hrun
    have hreported : ∀ x, reported c l x = reported c l x.other := by
      intro x
      have hx := (hadopts x).watermark
      have hy := (hadopts x.other).watermark
      rw [Side.other_other] at hy
      rw [← hx, ← hy, hsame x]
    refine ⟨(reported_eq_iff c hl).mp hreported, hex.sends c' hrun, hex.receives c' hrun, ?_⟩
    intro x batch hbatch
    have hbatch' : (c' x).node.journal.repairBatch S Oracle.none (c' x).watermark
        (c' x).node.repairLimits = .ok batch := by
      rw [(hadopts x).journal, (hadopts x).watermark, (hadopts x).limits]
      exact hbatch
    have hd := hplan x batch hbatch'
    rw [← hsame x, delivery_at_watermark hbatch', (hadopts x.other).limits] at hd
    exact hd
  · rintro ⟨horder, hsends, hreceives, hadmits⟩
    obtain ⟨c', hrun⟩ := hex.succeeds hsends hreceives
    have hadopts := hex.adopts c' hrun
    have hreported := (reported_eq_iff c hl).mpr horder
    have hsame : ∀ x, (c' x).watermark = (c' x.other).watermark := by
      intro x
      rw [(hadopts x).watermark, (hadopts x.other).watermark, Side.other_other]
      exact (hreported x).symm
    refine ⟨c', hrun, hsame, ?_⟩
    intro x batch hbatch
    rw [← hsame x, delivery_at_watermark hbatch, (hadopts x.other).limits]
    rw [(hadopts x).journal, (hadopts x).watermark, (hadopts x).limits] at hbatch
    exact hadmits x batch hbatch

namespace Sample

/-- A book that has recorded one acknowledgement. -/
def book (peer : Bytes) (version : Version) : OnDisk WatermarkBook :=
  finalState (WatermarkBook.acknowledge goStdlib Faults.none peer version
    ⟨twoRecords.fs, WatermarkBook.new "watermarks" ⟨0, 0, 0⟩⟩)

/-- A reconciling session on a journal of two records. -/
def greeting (peer : Bytes) (version : Version) : SessionState where
  node :=
    { fs := (book peer version).fs
      journal := twoRecords.obj
      store := ⟨Limits.unset.normalized, tableOf [first, second]⟩
      blobs := some fun _ => none
      limits := Limits.unset.normalized
      watermarks := (book peer version).obj
      repairLimits := RepairLimits.unset.normalized }
  session := ⟨peer, [lifecycleCapabilityV1], none, "checkpoint",
    defaultMaxRepairFrameBytes, true, false⟩
  outbox := []

/-- Both nodes have both records; the acknowledgement of the second was lost. -/
def lostAck : Connection
  | .a => greeting (ascii "b") first.version
  | .b => greeting (ascii "a") second.version

/-- Both sides send before they handle. -/
def bothSend : List Startup := [.send .a, .send .b, .handle .a, .handle .b]

/-- One side handles before it sends. -/
def inTurn : List Startup := [.send .a, .handle .b, .send .b, .handle .a]

theorem lostAck_startable : Startable lostAck where
  greets := by
    intro x
    cases x <;> exact ⟨by decide, rfl, rfl, by decide +kernel⟩
  quiet := by
    intro x
    cases x <;> rfl
  bounded := by
    intro x y
    cases x <;> cases y <;> decide +kernel

theorem bothSend_interleaving : Interleaving bothSend := by
  refine ⟨List.Perm.refl _, ?_⟩
  intro x
  cases x <;> decide

theorem inTurn_interleaving : Interleaving inTurn := by
  refine ⟨by decide, ?_⟩
  intro x
  cases x <;> decide

end Sample

open Sample in
/-- Both reports are sent before either is handled: the watermarks change places,
and the first batch of one side is refused by the other. -/
theorem startup_watermarks_change_places :
    Startable lostAck ∧ Interleaving bothSend ∧
      ∃ c, lostAck.run goStdlib bothSend = .ok c ∧
        (c .a).watermark = second.version ∧ (c .b).watermark = first.version ∧
        ∃ batch, (c .a).node.journal.repairBatch goStdlib Oracle.none (c .a).watermark
            (c .a).node.repairLimits = .ok batch ∧
          batch.delivery goStdlib (c .b).watermark (c .b).node.repairLimits =
            .error .repairWatermarkMismatch := by
  have hex := exchanges goStdlib_lawful lostAck_startable bothSend_interleaving
  obtain ⟨c, hrun⟩ := hex.succeeds
    (by
      intro x
      cases x <;> decide +kernel)
    (by
      intro x
      cases x <;> exact ⟨by decide +kernel, by decide +kernel, .inr (.inr ⟨by decide +kernel,
        .inl (by decide +kernel), by decide +kernel, by decide +kernel,
        by decide +kernel⟩)⟩)
  have ha : Adopted (lostAck .a) second.version (c .a) := by
    have h := hex.adopts c hrun .a
    exact h
  have hb : Adopted (lostAck .b) first.version (c .b) := by
    have h := hex.adopts c hrun .b
    exact h
  refine ⟨lostAck_startable, bothSend_interleaving, c, hrun, ha.watermark, hb.watermark, ?_⟩
  rw [ha.watermark, hb.watermark, ha.journal, ha.limits, hb.limits]
  exact ⟨⟨repairBatchMessageType, second.version, second.version, false, []⟩,
    by decide +kernel, by decide +kernel⟩

open Sample in
/-- From the same state, one side handles before it sends, and both agree. -/
theorem startup_agrees_in_turn : Agrees goStdlib lostAck inTurn := by
  refine (startup_agrees goStdlib_lawful lostAck lostAck_startable inTurn
    inTurn_interleaving).mpr ⟨.inr ⟨.b, by decide⟩, ?_, ?_, ?_⟩
  · intro x
    cases x <;> decide +kernel
  · intro x
    cases x with
    | a => exact ⟨by decide +kernel, by decide +kernel, .inl (by decide +kernel)⟩
    | b =>
      exact ⟨by decide +kernel, by decide +kernel, .inr (.inr ⟨by decide +kernel,
        .inl (by decide +kernel), by decide +kernel, by decide +kernel,
        by decide +kernel⟩)⟩
  · intro x batch hbatch
    have hplan : (do
        let batch ← (lostAck x).node.journal.repairBatch goStdlib Oracle.none
          (reported lostAck inTurn x.other) (lostAck x).node.repairLimits
        validateRepairBatch goStdlib batch
          (lostAck x.other).node.repairLimits.normalized) = .ok () := by
      cases x <;> decide +kernel
    rw [hbatch] at hplan
    exact hplan

end StreamHive.Lifecycle

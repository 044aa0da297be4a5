import StreamHive.Verified.ByteString
import StreamHive.Verified.Table
import StreamHive.Verified.Threads
import StreamHive.Verified.Transition

/-!
# Waiting for acknowledgments

`sendBlobWithAck` registers its peer and key with a shared tracker, writes the frame and
waits until the tracker closes its channel.  When the timer or the context comes first it
removes the entry; an entry that is not there any more is taken for acknowledged.  The
tracker has one entry for a peer and key, so a second call for them replaces the entry of
the first, and the first removes the entry of the second.

Every critical section of the tracker is one step, and so is every choice that a call
makes between two of them.

## Main results

* `Tracked.step` — what every step keeps, if no call registers for a peer and key that
  another call is waiting for;
* `ack_tracking_sound` — whole runs of such steps;
* `second_call_unacknowledged` — a run with a step that is not.
-/

namespace StreamHive.Replication

open Verified ByteString Threads

/-! ## The tracker -/

structure PutAckID where
  remote : String
  key : Bytes
  deriving DecidableEq, Repr

/-- An order for the map of the tracker. -/
def PutAckID.cmp : PutAckID → PutAckID → Ordering :=
  compareLex (compareOn PutAckID.remote) (compareOn PutAckID.key)

instance : Std.TransCmp PutAckID.cmp :=
  inferInstanceAs (Std.TransCmp (compareLex (compareOn PutAckID.remote) (compareOn PutAckID.key)))

instance : Std.LawfulEqCmp PutAckID.cmp where
  eq_of_compare := by
    intro a b h
    have hboth : compare a.remote b.remote = .eq ∧ compare a.key b.key = .eq :=
      Ordering.then_eq_eq.mp h
    obtain ⟨remote, key⟩ := a
    obtain ⟨remote', key'⟩ := b
    rw [PutAckID.mk.injEq]
    exact ⟨Std.LawfulEqCmp.eq_of_compare hboth.1, Std.LawfulEqCmp.eq_of_compare hboth.2⟩

/-- The entries with their channels, which are numbered, the channels that were closed,
and the gauge.  `acks` are the acknowledgments that were processed. -/
structure PutAckTracker where
  pending : Std.ExtTreeMap PutAckID Nat PutAckID.cmp
  made : Nat
  closed : List (PutAckID × Nat)
  blobAcksPending : Int
  acks : List PutAckID

namespace PutAckTracker

/-- `newPutAckTracker`. -/
def new : PutAckTracker := ⟨∅, 0, [], 0, []⟩

/-- A new channel; an entry that is there is replaced. -/
def register (t : PutAckTracker) (id : PutAckID) : PutAckTracker × Nat :=
  ({ t with
      pending := t.pending.insert id t.made
      made := t.made + 1
      blobAcksPending := t.blobAcksPending + 1 }, t.made)

def ack (t : PutAckTracker) (id : PutAckID) : PutAckTracker :=
  match t.pending[id]? with
  | none => { t with acks := t.acks ++ [id] }
  | some ch =>
    { t with
      pending := t.pending.erase id
      closed := (id, ch) :: t.closed
      blobAcksPending := t.blobAcksPending - 1
      acks := t.acks ++ [id] }

def remove (t : PutAckTracker) (id : PutAckID) : PutAckTracker × Bool :=
  if id ∈ t.pending then
    ({ t with
        pending := t.pending.erase id
        blobAcksPending := t.blobAcksPending - 1 }, true)
  else
    (t, false)

end PutAckTracker

/-! ## Calls -/

inductive BlobOutcome where
  | writeError
  | canceled
  | ackTimeout
  deriving DecidableEq, Repr

structure BlobDeliveryError where
  kind : BlobOutcome
  attempts : Int
  deriving DecidableEq, Repr

/-- What a call of `sendBlobWithAck` does next. -/
inductive SendPhase where
  | registering (attempt : Nat)
  | writing (attempt ch : Nat)
  | writeFailed (attempt : Nat)
  | waiting (attempt ch : Nat)
  | canceling (attempt : Nat)
  | timingOut (attempt : Nat)
  | pausing (attempt : Nat)
  | returned (err : Option BlobDeliveryError)
  deriving DecidableEq, Repr

/-- A call; `since` is the number of acknowledgments that were processed when it first
registered. -/
structure SendCall where
  id : PutAckID
  retries : Int
  phase : SendPhase
  since : Option Nat
  deriving DecidableEq, Repr

/-- A call, or the handling of a `blob.ack` message. -/
inductive AckThread where
  | send (c : SendCall)
  | receive (id : PutAckID)
  deriving DecidableEq, Repr

/-- What happens to a call between two sections. -/
inductive AckChoice where
  | proceed
  | fail
  | timeout
  | cancel
  deriving DecidableEq, Repr

namespace SendCall

def new (id : PutAckID) (retries : Int) : SendCall := ⟨id, retries, .registering 0, none⟩

/-- The next section of a call. -/
def next (choice : AckChoice) (t : PutAckTracker) (c : SendCall) :
    Option (PutAckTracker × SendCall) :=
  match c.phase with
  | .registering attempt =>
    if attempt ≤ c.retries then
      let (t', ch) := t.register c.id
      some (t', { c with
        phase := .writing attempt ch, since := some (c.since.getD t.acks.length) })
    else
      some (t, { c with phase := .returned (some ⟨.ackTimeout, c.retries + 1⟩) })
  | .writing attempt ch =>
    match choice with
    | .fail => some (t, { c with phase := .writeFailed attempt })
    | _ => some (t, { c with phase := .waiting attempt ch })
  | .writeFailed attempt =>
    some ((t.remove c.id).1, { c with phase := .returned (some ⟨.writeError, attempt + 1⟩) })
  | .waiting attempt ch =>
    match choice with
    | .proceed =>
      if (c.id, ch) ∈ t.closed then some (t, { c with phase := .returned none }) else none
    | .cancel => some (t, { c with phase := .canceling attempt })
    | .timeout => some (t, { c with phase := .timingOut attempt })
    | .fail => none
  | .canceling attempt =>
    match t.remove c.id with
    | (t', true) => some (t', { c with phase := .returned (some ⟨.canceled, attempt + 1⟩) })
    | (t', false) => some (t', { c with phase := .returned none })
  | .timingOut attempt =>
    match t.remove c.id with
    | (t', true) =>
      if attempt = c.retries then
        some (t', { c with phase := .returned (some ⟨.ackTimeout, attempt + 1⟩) })
      else
        some (t', { c with phase := .pausing attempt })
    | (t', false) => some (t', { c with phase := .returned none })
  | .pausing attempt =>
    match choice with
    | .timeout => some (t, { c with phase := .registering (attempt + 1) })
    | .cancel => some (t, { c with phase := .returned (some ⟨.canceled, attempt + 1⟩) })
    | _ => none
  | .returned _ => none

end SendCall

def AckThread.next : Program AckChoice PutAckTracker AckThread := fun choice t th =>
  match th with
  | .send c => (c.next choice t).map fun (t, c) => (t, [.send c])
  | .receive id => some (t.ack id, [])

/-! ## Runs -/

abbrev AckSystem := Pool PutAckTracker AckThread

/-- A call is made, an acknowledgment arrives, or a thread runs. -/
inductive AckAction where
  | call (id : PutAckID) (retries : Int)
  | arrive (id : PutAckID)
  | run (i : Nat) (choice : AckChoice)
  deriving DecidableEq, Repr

/-- The call is between its registration and the end of its wait. -/
def SendCall.awaiting (c : SendCall) : Bool :=
  match c.phase with
  | .writing _ _ | .writeFailed _ | .waiting _ _ | .canceling _ | .timingOut _ => true
  | _ => false

def AckThread.awaits (id : PutAckID) : AckThread → Bool
  | .send c => c.id = id ∧ c.awaiting
  | .receive _ => false

/-- The thread is about to register. -/
def AckThread.registers? : AckThread → Option PutAckID
  | .send ⟨id, retries, .registering attempt, _⟩ => if attempt ≤ retries then some id else none
  | _ => none

namespace AckSystem

def new : AckSystem := ⟨.new, []⟩

def step (s : AckSystem) : AckAction → AckSystem
  | .call id retries => Pool.start s (.send (.new id retries))
  | .arrive id => Pool.start s (.receive id)
  | .run i choice => Pool.run AckThread.next s i choice

/-- No call registers for a peer and key that another call is waiting for. -/
def Apart (s : AckSystem) : AckAction → Prop
  | .run i _ => ∀ id ∈ s.threads[i]?.bind AckThread.registers?, ∀ th ∈ s.threads,
      th.awaits id = false
  | _ => True

instance (s : AckSystem) : ∀ a : AckAction, Decidable (s.Apart a)
  | .call _ _ => isTrue trivial
  | .arrive _ => isTrue trivial
  | .run _ _ => inferInstanceAs (Decidable (∀ id ∈ _, ∀ th ∈ _, _))

/-- A call that returned without an error saw an acknowledgment for its peer and key after
it had registered; the gauge is the number of entries, and zero when all calls have
returned. -/
structure Sound (s : AckSystem) : Prop where
  acknowledged : ∀ c, .send c ∈ s.threads → c.phase = .returned none →
    ∃ n, c.since = some n ∧ c.id ∈ s.shared.acks.drop n
  gauge : s.shared.blobAcksPending = s.shared.pending.size
  settled : (∀ c, .send c ∈ s.threads → ∃ err, c.phase = .returned err) →
    s.shared.blobAcksPending = 0

end AckSystem

/-! ## Sections of the tracker -/

variable {t' : PutAckTracker} {c c' : SendCall}

namespace PutAckTracker

variable {t : PutAckTracker} {id k : PutAckID}

@[simp] theorem pending_register (t : PutAckTracker) (id k : PutAckID) :
    (t.register id).1.pending[k]? = if k = id then some t.made else t.pending[k]? :=
  Table.getElem?_insert_of_lawful ..

@[simp] theorem pending_ack (t : PutAckTracker) (id k : PutAckID) :
    (t.ack id).pending[k]? = if k = id then none else t.pending[k]? := by
  unfold ack
  cases hentry : t.pending[id]? with
  | none =>
    by_cases hk : k = id
    · rw [if_pos hk, hk]
      exact hentry
    · rw [if_neg hk]
  | some ch => exact Table.getElem?_erase_of_lawful ..

@[simp] theorem acks_ack (t : PutAckTracker) (id : PutAckID) :
    (t.ack id).acks = t.acks ++ [id] := by
  unfold ack
  cases t.pending[id]? <;> rfl

@[simp] theorem made_ack (t : PutAckTracker) (id : PutAckID) : (t.ack id).made = t.made := by
  unfold ack
  cases t.pending[id]? <;> rfl

theorem closed_ack (t : PutAckTracker) (id : PutAckID) {p : PutAckID × Nat}
    (hp : p ∈ (t.ack id).closed) : p ∈ t.closed ∨ (p.1 = id ∧ t.pending[id]? = some p.2) := by
  unfold ack at hp
  cases hentry : t.pending[id]? with
  | none =>
    rw [hentry] at hp
    exact .inl hp
  | some ch =>
    rw [hentry] at hp
    rcases List.mem_cons.mp hp with rfl | hp
    · exact .inr ⟨rfl, rfl⟩
    · exact .inl hp

/-- A removal erases the entry, and says whether there was one. -/
theorem remove_cases (t : PutAckTracker) (id : PutAckID) :
    (id ∈ t.pending ∧ t.remove id = ({ t with
        pending := t.pending.erase id, blobAcksPending := t.blobAcksPending - 1 }, true)) ∨
      (id ∉ t.pending ∧ t.remove id = (t, false)) := by
  unfold remove
  by_cases h : id ∈ t.pending
  · exact .inl ⟨h, if_pos h⟩
  · exact .inr ⟨h, if_neg h⟩

theorem notMem_of_remove (h : t.remove id = (t', false)) : id ∉ t.pending := by
  rcases t.remove_cases id with ⟨_, hremove⟩ | ⟨hnot, _⟩
  · rw [hremove] at h
    cases h
  · exact hnot

@[simp] theorem pending_remove (t : PutAckTracker) (id k : PutAckID) :
    (t.remove id).1.pending[k]? = if k = id then none else t.pending[k]? := by
  rcases t.remove_cases id with ⟨_, hremove⟩ | ⟨hnot, hremove⟩
  · rw [hremove]
    exact Table.getElem?_erase_of_lawful ..
  · rw [hremove]
    by_cases hk : k = id
    · rw [if_pos hk, hk]
      exact Std.ExtTreeMap.getElem?_eq_none hnot
    · rw [if_neg hk]

theorem remove_keeps (t : PutAckTracker) (id : PutAckID) :
    (t.remove id).1.made = t.made ∧ (t.remove id).1.closed = t.closed ∧
      (t.remove id).1.acks = t.acks := by
  rcases t.remove_cases id with ⟨_, hremove⟩ | ⟨_, hremove⟩ <;> rw [hremove] <;>
    exact ⟨rfl, rfl, rfl⟩

/-- What holds of the tracker by itself. -/
structure Valid (t : PutAckTracker) : Prop where
  gauge : t.blobAcksPending = t.pending.size
  pending_lt : ∀ (id : PutAckID) ch, t.pending[id]? = some ch → ch < t.made
  closed_lt : ∀ p ∈ t.closed, p.2 < t.made
  unclosed : ∀ (id : PutAckID) ch, t.pending[id]? = some ch → (id, ch) ∉ t.closed

theorem Valid.new : Valid .new where
  gauge := rfl
  pending_lt := by simp [PutAckTracker.new]
  closed_lt := by simp [PutAckTracker.new]
  unclosed := by simp [PutAckTracker.new]

/-- The gauge stays right if no entry is replaced. -/
theorem Valid.register (h : t.Valid) (hid : id ∉ t.pending) : (t.register id).1.Valid where
  gauge := by
    have hsize : (t.register id).1.pending.size = t.pending.size + 1 :=
      Table.size_insert_of_notMem hid t.made
    rw [hsize]
    show t.blobAcksPending + 1 = _
    rw [h.gauge]
    omega
  pending_lt := by
    intro k ch hk
    show ch < t.made + 1
    rw [pending_register] at hk
    split at hk
    · cases hk
      exact Nat.lt_succ_self _
    · exact Nat.lt_succ_of_lt (h.pending_lt k ch hk)
  closed_lt := fun p hp => Nat.lt_succ_of_lt (h.closed_lt p hp)
  unclosed := by
    intro k ch hk hclosed
    rw [pending_register] at hk
    split at hk
    · cases hk
      exact Nat.lt_irrefl _ (h.closed_lt _ hclosed)
    · exact h.unclosed k ch hk hclosed

theorem Valid.ack (h : t.Valid) (id : PutAckID) : (t.ack id).Valid where
  gauge := by
    unfold PutAckTracker.ack
    cases hentry : t.pending[id]? with
    | none => exact h.gauge
    | some ch =>
      have hsize := Table.size_erase_of_mem (Table.mem_iff_exists.mpr ⟨ch, hentry⟩)
      show t.blobAcksPending - 1 = ((t.pending.erase id).size : Int)
      rw [h.gauge]
      omega
  pending_lt := by
    intro k ch hk
    rw [pending_ack] at hk
    rw [made_ack]
    split at hk
    · cases hk
    · exact h.pending_lt k ch hk
  closed_lt := by
    intro p hp
    rw [made_ack]
    rcases t.closed_ack id hp with hold | ⟨_, hentry⟩
    · exact h.closed_lt p hold
    · exact h.pending_lt id p.2 hentry
  unclosed := by
    intro k ch hk hclosed
    rw [pending_ack] at hk
    split at hk
    · cases hk
    · next hne =>
        rcases t.closed_ack id hclosed with hold | ⟨hsame, _⟩
        · exact h.unclosed k ch hk hold
        · exact hne hsame

theorem Valid.remove (h : t.Valid) (id : PutAckID) : (t.remove id).1.Valid := by
  rcases t.remove_cases id with ⟨hmem, hremove⟩ | ⟨_, hremove⟩
  swap
  · rw [hremove]
    exact h
  have hpending := t.pending_remove id
  rw [hremove] at hpending ⊢
  constructor
  · have hsize := Table.size_erase_of_mem hmem
    show t.blobAcksPending - 1 = ((t.pending.erase id).size : Int)
    rw [h.gauge]
    omega
  · intro k ch hk
    rw [hpending] at hk
    split at hk
    · cases hk
    · exact h.pending_lt k ch hk
  · exact h.closed_lt
  · intro k ch hk
    rw [hpending] at hk
    split at hk
    · cases hk
    · exact h.unclosed k ch hk

end PutAckTracker

/-! ## What a call relies on -/

namespace SendCall

variable {t : PutAckTracker} {id : PutAckID}

/-- An acknowledgment for the call was processed after it had registered. -/
def Heard (t : PutAckTracker) (c : SendCall) : Prop :=
  ∃ n, c.since = some n ∧ c.id ∈ t.acks.drop n

/-- The channel that the call waits for. -/
def channel? (c : SendCall) : Option Nat :=
  match c.phase with
  | .writing _ ch | .waiting _ ch => some ch
  | _ => none

/-- A call that is waiting has its entry or was acknowledged; its entry has its channel;
and a closed channel or a return without an error mean that it was acknowledged. -/
structure Tracked (t : PutAckTracker) (c : SendCall) : Prop where
  since_le : ∀ n, c.since = some n → n ≤ t.acks.length
  entry : c.awaiting = true → c.since ≠ none ∧ (c.id ∈ t.pending ∨ c.Heard t)
  channel : ∀ ch, c.channel? = some ch →
    (∀ ch', t.pending[c.id]? = some ch' → ch' = ch) ∧ ((c.id, ch) ∈ t.closed → c.Heard t)
  returned : c.phase = .returned none → c.Heard t

theorem Heard.mono (h : c.Heard t) (hacks : t.acks <+: t'.acks) : c.Heard t' := by
  obtain ⟨n, hn, hmem⟩ := h
  obtain ⟨later, hlater⟩ := hacks
  refine ⟨n, hn, ?_⟩
  rw [← hlater, List.drop_append]
  exact List.mem_append_left _ hmem

theorem awaiting_of_channel? {ch : Nat} (h : c.channel? = some ch) : c.awaiting = true := by
  unfold channel? at h
  unfold awaiting
  cases hphase : c.phase <;> rw [hphase] at h <;> first | rfl | cases h

/-- An acknowledgment reaches the call that waits for it. -/
theorem Tracked.ack (h : c.Tracked t) (id : PutAckID) : c.Tracked (t.ack id) := by
  have hacks : t.acks <+: (t.ack id).acks := by
    rw [PutAckTracker.acks_ack]
    exact List.prefix_append ..
  have hheard : c.awaiting = true → c.id = id → c.Heard (t.ack id) := by
    intro hawaiting hid
    obtain ⟨n, hn⟩ := Option.ne_none_iff_exists'.mp (h.entry hawaiting).1
    refine ⟨n, hn, ?_⟩
    rw [PutAckTracker.acks_ack, List.drop_append_of_le_length (h.since_le n hn), hid]
    simp
  refine ⟨?_, ?_, ?_, fun hphase => (h.returned hphase).mono hacks⟩
  · intro n hn
    exact Nat.le_trans (h.since_le n hn) hacks.length_le
  · intro hawaiting
    obtain ⟨hsince, hentry⟩ := h.entry hawaiting
    refine ⟨hsince, ?_⟩
    by_cases hid : c.id = id
    · exact .inr (hheard hawaiting hid)
    · refine hentry.imp (fun hmem => ?_) fun hold => hold.mono hacks
      rw [Table.mem_iff_exists] at hmem ⊢
      rwa [PutAckTracker.pending_ack, if_neg hid]
  · intro ch hch
    obtain ⟨hown, hclosed⟩ := h.channel ch hch
    constructor
    · intro ch' hch'
      rw [PutAckTracker.pending_ack] at hch'
      split at hch'
      · cases hch'
      · exact hown ch' hch'
    · intro hmem
      rcases t.closed_ack id hmem with hold | ⟨hid, _⟩
      · exact (hclosed hold).mono hacks
      · exact hheard (awaiting_of_channel? hch) hid

/-- A section of another call, which touches the entry of its own peer and key only. -/
theorem Tracked.frame (h : c.Tracked t) (hclosed : t'.closed = t.closed)
    (hacks : t'.acks = t.acks)
    (hpending : c.awaiting = true → t'.pending[c.id]? = t.pending[c.id]?) : c.Tracked t' := by
  have hheard : c.Heard t → c.Heard t' := fun hold => hold.mono (by rw [hacks])
  refine ⟨?_, ?_, ?_, fun hphase => hheard (h.returned hphase)⟩
  · rw [hacks]
    exact h.since_le
  · intro hawaiting
    obtain ⟨hsince, hentry⟩ := h.entry hawaiting
    refine ⟨hsince, hentry.imp (fun hmem => ?_) hheard⟩
    rw [Table.mem_iff_exists] at hmem ⊢
    rwa [hpending hawaiting]
  · intro ch hch
    obtain ⟨hown, hold⟩ := h.channel ch hch
    rw [hpending (awaiting_of_channel? hch), hclosed]
    exact ⟨hown, fun hmem => hheard (hold hmem)⟩

theorem Tracked.register (h : c.Tracked t) (hid : c.awaiting = true → c.id ≠ id) :
    c.Tracked (t.register id).1 :=
  h.frame rfl rfl fun hawaiting => by
    rw [PutAckTracker.pending_register, if_neg (hid hawaiting)]

theorem Tracked.remove (h : c.Tracked t) (hid : c.awaiting = true → c.id ≠ id) :
    c.Tracked (t.remove id).1 :=
  h.frame (t.remove_keeps id).2.1 (t.remove_keeps id).2.2 fun hawaiting => by
    rw [PutAckTracker.pending_remove, if_neg (hid hawaiting)]

/-- What one section of a call does. -/
inductive Does (t : PutAckTracker) (c : SendCall) : PutAckTracker → SendCall → Prop
  | registers {attempt : Nat} (hphase : c.phase = .registering attempt)
      (hattempt : attempt ≤ c.retries) :
      Does t c (t.register c.id).1 { c with
        phase := .writing attempt t.made, since := some (c.since.getD t.acks.length) }
  | moves {phase : SendPhase} (hawaiting : ({ c with phase := phase } : SendCall).awaiting =
        c.awaiting)
      (hchannel : ∀ ch, ({ c with phase := phase } : SendCall).channel? = some ch →
        c.channel? = some ch) (hreturned : phase ≠ .returned none) :
      Does t c t { c with phase := phase }
  | receives {ch : Nat} (hchannel : c.channel? = some ch) (hclosed : (c.id, ch) ∈ t.closed) :
      Does t c t { c with phase := .returned none }
  | removes {phase : SendPhase} (hawaiting : c.awaiting = true)
      (hdone : ({ c with phase := phase } : SendCall).awaiting = false)
      (hreturned : phase = .returned none → c.id ∉ t.pending) :
      Does t c (t.remove c.id).1 { c with phase := phase }

theorem next_does {choice : AckChoice} (h : c.next choice t = some (t', c')) : c.Does t t' c' := by
  unfold next at h
  cases hphase : c.phase with
  | registering attempt =>
    simp only [hphase] at h
    split at h
    · next hattempt =>
        cases h
        exact .registers hphase hattempt
    · cases h
      refine .moves ?_ ?_ ?_ <;> simp [awaiting, channel?, hphase]
  | writing attempt ch | pausing attempt =>
    simp only [hphase] at h
    split at h <;> cases h <;> refine .moves ?_ ?_ ?_ <;> simp [awaiting, channel?, hphase]
  | writeFailed attempt =>
    simp only [hphase] at h
    cases h
    refine .removes ?_ ?_ ?_ <;> simp [awaiting, hphase]
  | waiting attempt ch =>
    simp only [hphase] at h
    cases choice with
    | proceed =>
      simp only at h
      split at h
      · next hclosed =>
          cases h
          exact .receives (by simp [channel?, hphase]) hclosed
      · cases h
    | fail => cases h
    | timeout | cancel =>
      cases h
      refine .moves ?_ ?_ ?_ <;> simp [awaiting, channel?, hphase]
  | canceling attempt | timingOut attempt =>
    rcases hremove : t.remove c.id with ⟨t₁, _ | _⟩
    all_goals
      simp only [hphase, hremove] at h
      obtain rfl : (t.remove c.id).1 = t₁ := congrArg Prod.fst hremove
    · cases h
      refine .removes ?_ ?_ fun _ => PutAckTracker.notMem_of_remove hremove
      all_goals simp [awaiting, hphase]
    · repeat' split at h
      all_goals
        cases h
        refine .removes ?_ ?_ ?_ <;> simp [awaiting, hphase]
  | returned err =>
    simp only [hphase] at h
    cases h

/-- After its own section a call still has what it relies on. -/
theorem Does.tracked (hdoes : c.Does t t' c') (ht : t.Valid) (h : c.Tracked t) : c'.Tracked t' := by
  cases hdoes with
  | registers hphase hattempt =>
    refine ⟨?_, ?_, ?_, ?_⟩
    · intro n hn
      cases hn
      show c.since.getD t.acks.length ≤ t.acks.length
      cases hsince : c.since with
      | none => exact Nat.le_refl _
      | some n => exact h.since_le n hsince
    · intro _
      refine ⟨by simp, .inl ?_⟩
      rw [Table.mem_iff_exists]
      exact ⟨t.made, by rw [PutAckTracker.pending_register, if_pos rfl]⟩
    · intro ch hch
      cases hch
      constructor
      · intro ch' hch'
        rw [PutAckTracker.pending_register, if_pos rfl] at hch'
        cases hch'
        rfl
      · intro hmem
        exact absurd (ht.closed_lt _ hmem) (Nat.lt_irrefl _)
    · intro hreturned
      cases hreturned
  | moves hawaiting hchannel hreturned =>
    refine ⟨h.since_le, ?_, ?_, fun hphase => absurd hphase hreturned⟩
    · intro hnow
      exact h.entry (hawaiting ▸ hnow)
    · intro ch hch
      exact h.channel ch (hchannel ch hch)
  | receives hchannel hclosed =>
    refine ⟨h.since_le, ?_, ?_, fun _ => (h.channel _ hchannel).2 hclosed⟩
    · intro hnow
      cases hnow
    · intro ch hch
      cases hch
  | @removes phase hawaiting hdone hreturned =>
    obtain ⟨_, _, hacks⟩ := t.remove_keeps c.id
    refine ⟨?_, ?_, ?_, ?_⟩
    · rw [hacks]
      exact h.since_le
    · intro hnow
      rw [hdone] at hnow
      cases hnow
    · intro ch hch
      have hnow := awaiting_of_channel? hch
      rw [hdone] at hnow
      cases hnow
    · intro hphase
      -- the entry was not there, so an acknowledgment has taken it away
      have hheard := (h.entry hawaiting).2.resolve_left (hreturned hphase)
      exact Heard.mono hheard (by rw [hacks])

end SendCall

/-! ## Steps and runs -/

namespace AckSystem

/-- The calls that wait for a peer and key. -/
def waiters (id : PutAckID) (threads : List AckThread) : Nat :=
  count (AckThread.awaits id) threads

/-- Every call has what it relies on, no two wait for the same peer and key, and one
waits for every entry. -/
structure Tracked (s : AckSystem) : Prop where
  tracker : s.shared.Valid
  calls : ∀ th ∈ s.threads, ∀ c, th = .send c → c.Tracked s.shared
  single : ∀ id, waiters id s.threads ≤ 1
  awaited : ∀ id ∈ s.shared.pending, 0 < waiters id s.threads

theorem Tracked.new : Tracked .new where
  tracker := .new
  calls := by simp [AckSystem.new]
  single := fun id => by simp [AckSystem.new, waiters]
  awaited := by simp [AckSystem.new, PutAckTracker.new]

theorem waiters_start (id : PutAckID) (threads : List AckThread) {th : AckThread}
    (h : th.awaits id = false) : waiters id (threads ++ [th]) = waiters id threads := by
  simp [waiters, h]

variable {s : AckSystem} {before after : List AckThread}

/-- A new thread that waits for nothing. -/
theorem Tracked.start (h : s.Tracked) {th : AckThread} (hidle : ∀ id, th.awaits id = false)
    (hcall : ∀ c, th = .send c → c.Tracked s.shared) : Tracked (Pool.start s th) where
  tracker := h.tracker
  calls := by
    intro th' hth' c hc
    rcases List.mem_append.mp hth' with hth' | hth'
    · exact h.calls th' hth' c hc
    · exact hcall c ((List.mem_singleton.mp hth').symm.trans hc)
  single := fun id => by
    have hsame := waiters_start id s.threads (hidle id)
    have hold := h.single id
    exact hsame ▸ hold
  awaited := fun id hid => by
    have hsame := waiters_start id s.threads (hidle id)
    have hold := h.awaited id hid
    exact hsame ▸ hold

theorem Tracked.receive {t : PutAckTracker} {id : PutAckID}
    (h : Tracked ⟨t, before ++ .receive id :: after⟩) :
    Tracked ⟨t.ack id, before ++ [] ++ after⟩ := by
  have hwaiters : ∀ k, waiters k (before ++ [] ++ after) =
      waiters k (before ++ .receive id :: after) :=
    fun k => count_replace before after [] (.receive id) (p := AckThread.awaits k)
  refine ⟨h.tracker.ack id, ?_, ?_, ?_⟩
  · refine forall_replace h.calls (fun th _ hth c hc => (hth c hc).ack id) ?_
    intro th hth
    cases hth
  · intro k
    show waiters k (before ++ [] ++ after) ≤ 1
    rw [hwaiters]
    exact h.single k
  · intro k hk
    show 0 < waiters k (before ++ [] ++ after)
    rw [hwaiters]
    refine h.awaited k ?_
    show k ∈ t.pending
    rw [Table.mem_iff_exists] at hk ⊢
    obtain ⟨ch, hch⟩ := hk
    rw [PutAckTracker.pending_ack] at hch
    split at hch
    · cases hch
    · exact ⟨ch, hch⟩

/-- The waiters after the section of a call. -/
theorem waiters_send (k : PutAckID) (before after : List AckThread) (c c' : SendCall) :
    waiters k (before ++ [.send c'] ++ after) + (if c.id = k ∧ c.awaiting = true then 1 else 0) =
      waiters k (before ++ .send c :: after) +
        (if c'.id = k ∧ c'.awaiting = true then 1 else 0) := by
  have hreplace := count_replace before after [.send c'] (.send c) (p := AckThread.awaits k)
  have hone : count (AckThread.awaits k) [.send c'] =
      if c'.id = k ∧ c'.awaiting = true then 1 else 0 := by
    simp [AckThread.awaits]
  rw [hone] at hreplace
  unfold waiters
  rw [← hreplace]
  simp [AckThread.awaits]

/-- A call that starts to wait. -/
theorem waiters_joins (c' : SendCall) (hc : c.awaiting = false) (hid : c'.id = c.id)
    (hc' : c'.awaiting = true) (k : PutAckID) (before after : List AckThread) :
    waiters k (before ++ [.send c'] ++ after) =
      waiters k (before ++ .send c :: after) + if c.id = k then 1 else 0 := by
  have hsend := waiters_send k before after c c'
  simpa [hid, hc, hc'] using hsend

theorem waiters_stays (hc : c'.awaiting = c.awaiting) (hid : c'.id = c.id) (k : PutAckID)
    (before after : List AckThread) :
    waiters k (before ++ [.send c'] ++ after) = waiters k (before ++ .send c :: after) := by
  have hsend := waiters_send k before after c c'
  rw [hid, hc] at hsend
  exact Nat.add_right_cancel hsend

/-- A call that waits no longer. -/
theorem waiters_leaves (c' : SendCall) (hc : c.awaiting = true) (hc' : c'.awaiting = false)
    (k : PutAckID) (before after : List AckThread) :
    waiters k (before ++ [.send c'] ++ after) + (if c.id = k then 1 else 0) =
      waiters k (before ++ .send c :: after) := by
  have hsend := waiters_send k before after c c'
  simpa [hc, hc'] using hsend

/-- The section of a call, given what it does to the others and to the waiters. -/
theorem Tracked.replace {t : PutAckTracker} (h : Tracked ⟨t, before ++ .send c :: after⟩)
    (hdoes : c.Does t t' c') (ht' : t'.Valid)
    (hothers : ∀ d, .send d ∈ before ++ after → d.Tracked t → d.Tracked t')
    (hsingle : ∀ k, waiters k (before ++ [.send c'] ++ after) ≤ 1)
    (hawaited : ∀ k ∈ t'.pending, 0 < waiters k (before ++ [.send c'] ++ after)) :
    Tracked ⟨t', before ++ [.send c'] ++ after⟩ := by
  refine ⟨ht', ?_, hsingle, hawaited⟩
  refine forall_replace h.calls ?_ ?_
  · intro th hth hold d hd
    rw [hd] at hth
    exact hothers d hth (hold d hd)
  · intro th hth d hd
    rw [List.mem_singleton.mp hth] at hd
    cases hd
    exact hdoes.tracked h.tracker (h.calls (.send c) (by simp) c rfl)

theorem Tracked.send {t : PutAckTracker} (h : Tracked ⟨t, before ++ .send c :: after⟩)
    (hdoes : c.Does t t' c')
    (hapart : ∀ attempt : Nat, c.phase = .registering attempt → attempt ≤ c.retries →
      ∀ th ∈ before ++ .send c :: after, th.awaits c.id = false) :
    Tracked ⟨t', before ++ [.send c'] ++ after⟩ := by
  have hsingle : ∀ k, waiters k (before ++ .send c :: after) ≤ 1 := h.single
  have hawaited : ∀ k ∈ t.pending, 0 < waiters k (before ++ .send c :: after) := h.awaited
  have hcall : c.Tracked t := h.calls (.send c) (by simp) c rfl
  have hdoes' := hdoes
  cases hdoes with
  | @registers attempt hphase hattempt =>
    have hnone := hapart _ hphase hattempt
    have hzero : waiters c.id (before ++ .send c :: after) = 0 := count_eq_zero hnone
    have hidle : c.awaiting = false := by
      unfold SendCall.awaiting
      rw [hphase]
    have hnot : c.id ∉ t.pending := by
      intro hmem
      have hpos := hawaited c.id hmem
      omega
    have hjoins := fun k => waiters_joins { c with
      phase := .writing attempt t.made, since := some (c.since.getD t.acks.length) }
      hidle rfl rfl k before after
    refine h.replace hdoes' (h.tracker.register hnot) ?_ ?_ ?_
    · intro d hd hold
      refine hold.register fun hawaiting heq => ?_
      have hd' : AckThread.send d ∈ before ++ .send c :: after := by
        rcases List.mem_append.mp hd with hd | hd <;> simp [hd]
      have hfalse := hnone _ hd'
      simp [AckThread.awaits, heq, hawaiting] at hfalse
    · intro k
      rw [hjoins k]
      by_cases hk : c.id = k
      · rw [if_pos hk, ← hk, hzero]
      · rw [if_neg hk]
        exact hsingle k
    · intro k hk
      rw [hjoins k]
      by_cases hid : c.id = k
      · rw [if_pos hid]
        exact Nat.succ_pos _
      · rw [if_neg hid]
        refine hawaited k ?_
        rw [Table.mem_iff_exists] at hk ⊢
        rwa [PutAckTracker.pending_register, if_neg (Ne.symm hid)] at hk
  | moves hawaiting hchannel hreturned =>
    refine h.replace hdoes' h.tracker (fun _ _ hold => hold) ?_ ?_
    · intro k
      rw [waiters_stays hawaiting rfl]
      exact hsingle k
    · intro k hk
      rw [waiters_stays hawaiting rfl]
      exact hawaited k hk
  | @receives ch hchannel hclosed =>
    have hleaves := waiters_leaves { c with phase := .returned none }
      (SendCall.awaiting_of_channel? hchannel) rfl
    refine h.replace hdoes' h.tracker (fun _ _ hold => hold) ?_ ?_
    · intro k
      have hk := hleaves k before after
      have hold := hsingle k
      omega
    · intro k hk
      have hleft := hleaves k before after
      have hold := hawaited k hk
      -- the entry is not that of the call, whose channel is closed
      have hid : c.id ≠ k := by
        rintro rfl
        obtain ⟨ch', hch'⟩ := Table.mem_iff_exists.mp hk
        rw [(hcall.channel ch hchannel).1 ch' hch'] at hch'
        exact h.tracker.unclosed c.id ch hch' hclosed
      rw [if_neg hid] at hleft
      omega
  | @removes phase hawaiting hdone hreturned =>
    have hleaves := waiters_leaves { c with phase := phase } hawaiting hdone
    refine h.replace hdoes' (h.tracker.remove c.id) ?_ ?_ ?_
    · intro d hd hold
      refine hold.remove fun hd_awaiting heq => ?_
      have hfalse := eq_false_of_count_le (hsingle c.id)
        (by simp [AckThread.awaits, hawaiting]) hd
      simp [AckThread.awaits, heq, hd_awaiting] at hfalse
    · intro k
      have hk := hleaves k before after
      have hold := hsingle k
      omega
    · intro k hk
      have hleft := hleaves k before after
      rw [Table.mem_iff_exists] at hk
      obtain ⟨ch, hch⟩ := hk
      rw [PutAckTracker.pending_remove] at hch
      split at hch
      · cases hch
      · next hne =>
          have hold := hawaited k (Table.mem_iff_exists.mpr ⟨ch, hch⟩)
          rw [if_neg (Ne.symm hne)] at hleft
          omega

/-- What every step keeps, if no call registers for what another call is waiting for. -/
theorem Tracked.step (h : s.Tracked) {a : AckAction} (hapart : s.Apart a) :
    (s.step a).Tracked := by
  cases a with
  | call id retries =>
    refine h.start (fun k => by simp [AckThread.awaits, SendCall.new, SendCall.awaiting]) ?_
    intro c hc
    cases hc
    refine ⟨?_, ?_, ?_, ?_⟩ <;> simp [SendCall.new, SendCall.awaiting, SendCall.channel?]
  | arrive id =>
    refine h.start (fun k => rfl) ?_
    intro c hc
    cases hc
  | run i choice =>
    show Tracked (Pool.run AckThread.next s i choice)
    rcases Pool.run_cases AckThread.next s i choice with hsame |
      ⟨before, th, after, t', ts, hsplit, hget, hnext, hrun⟩
    · rw [hsame]
      exact h
    rw [hrun]
    have hthreads : s.threads = before ++ th :: after := congrArg Pool.threads hsplit
    rw [hsplit] at h
    cases th with
    | receive id =>
      cases hnext
      exact h.receive
    | send c =>
      obtain ⟨⟨t₁, c'⟩, hcall, heq⟩ := Option.map_eq_some_iff.mp hnext
      cases heq
      refine h.send (SendCall.next_does hcall) ?_
      intro attempt hphase hattempt u hu
      rw [← hthreads] at hu
      refine hapart c.id ?_ u hu
      rw [hget]
      obtain ⟨id, retries, phase, since⟩ := c
      obtain rfl : phase = .registering attempt := hphase
      exact if_pos hattempt

/-- Every call that returned without an error was acknowledged after it had registered,
and the gauge counts the entries, in every state of a run in which no call registers for
a peer and key that another call is waiting for. -/
theorem ack_tracking_sound (actions : List AckAction)
    (h : Transition.Along step Apart new actions) : Sound (Transition.run step new actions) := by
  have hend : Tracked (Transition.run step new actions) :=
    Transition.run_invariant (I := Tracked) (fun s a hapart hs => hs.step hapart) h .new
  refine ⟨?_, hend.tracker.gauge, ?_⟩
  · intro c hc hphase
    exact (hend.calls (.send c) hc c rfl).returned hphase
  · intro hall
    rw [hend.tracker.gauge]
    have hempty : ∀ id, id ∉ (Transition.run step new actions).shared.pending := by
      intro id hid
      have hpos := hend.awaited id hid
      have hzero : waiters id (Transition.run step new actions).threads = 0 := by
        refine count_eq_zero fun th hth => ?_
        cases th with
        | receive _ => rfl
        | send c =>
          obtain ⟨err, herr⟩ := hall c hth
          simp [AckThread.awaits, SendCall.awaiting, herr]
      omega
    have hnil : (Transition.run step new actions).shared.pending.keys = [] := by
      rw [List.eq_nil_iff_forall_not_mem]
      intro id hid
      exact hempty id (Std.ExtTreeMap.mem_keys.mp hid)
    rw [← Std.ExtTreeMap.length_keys, hnil]
    rfl

namespace Sample

def peerKey : PutAckID := ⟨"peer", [1]⟩

def otherKey : PutAckID := ⟨"peer", [2]⟩

/-- A call in the given place registers, writes its frame and times out. -/
def timesOut (i : Nat) : List AckAction := [.run i .timeout, .run i .proceed]

/-- Two calls for the same peer and key register, and both time out.  No acknowledgment
arrives. -/
def overlapping : List AckAction :=
  [.call peerKey 0, .call peerKey 0, .run 0 .proceed, .run 1 .proceed, .run 0 .proceed,
    .run 1 .proceed] ++ timesOut 0 ++ timesOut 1

/-- Two calls for different keys, one of which is acknowledged. -/
def separate : List AckAction :=
  [.call peerKey 0, .call otherKey 0, .run 0 .proceed, .run 1 .proceed, .run 0 .proceed,
    .run 1 .proceed, .arrive peerKey, .run 2 .proceed, .run 0 .proceed] ++ timesOut 1

end Sample

/-- The first call removes the entry of the second.  The second finds no entry and returns
without an error, and the gauge keeps counting the entry that was replaced. -/
theorem second_call_unacknowledged :
    (Transition.run step new Sample.overlapping).threads =
        [.send ⟨Sample.peerKey, 0, .returned (some ⟨.ackTimeout, 1⟩), some 0⟩,
          .send ⟨Sample.peerKey, 0, .returned none, some 0⟩] ∧
      (Transition.run step new Sample.overlapping).shared.acks = [] ∧
      (Transition.run step new Sample.overlapping).shared.pending.size = 0 ∧
      (Transition.run step new Sample.overlapping).shared.blobAcksPending = 1 := by
  decide +kernel

theorem ack_tracking_sound_sample :
    Transition.Along step Apart new Sample.separate ∧
      Sound (Transition.run step new Sample.separate) := by
  have hapart : Transition.Along step Apart new Sample.separate := by
    decide +kernel
  exact ⟨hapart, ack_tracking_sound Sample.separate hapart⟩

end AckSystem

end StreamHive.Replication

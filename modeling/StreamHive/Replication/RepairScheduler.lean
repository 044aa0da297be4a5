import StreamHive.Replication.InventoryScheduler
import StreamHive.Replication.Protocol

/-!
# Scheduling of repair continuations

`repairContinuationScheduler` collects the keys that a repair deferred, for each peer, and
sends them after a delay.  A run takes all pending keys, sends outside the lock, and puts
what was deferred again back once.  Requests that come meanwhile are added to the pending
keys, up to a limit.

Every critical section is one step, and so are the check of the context before a section
and the return of a send, whose result is any.

## Main results

* `RepairThread.performs_of_next` — what a section can do;
* `Valid.performs` — limits, gauges and keys that are owed, in every section;
* `Steady.performs` — one goroutine for each entry, and the number of runs that it has left,
  as long as its peer is not scheduled again after it was forgotten;
* `repair_continuations_bounded` — whole runs.
-/

namespace StreamHive.Replication

open Verified ByteString Threads

/-! ## The scheduler -/

def maxRepairContinuationAttempts : Nat := 1

abbrev KeySet := Std.ExtTreeSet Bytes compare

structure RepairContinuationEntry where
  peer : Peer
  pending : KeySet
  inFlight : Nat
  attempt : Nat
  running : Bool
  scheduled : Bool

/-- What was done for a key of a peer: keys were scheduled, and some perhaps dropped; a
run took keys; a run was completed; an entry was forgotten, by `Forget` or because the
context has ended. -/
inductive RepairEvent where
  | scheduled (id : String) (keys : List Bytes) (dropped : Bool)
  | ran (id : String) (keys : List Bytes)
  | completed (id : String)
  | forgot (id : String) (ended : Bool)
  deriving DecidableEq, Repr

/-- The entries by key, the gauges and the counter.  `log` is what was done, the latest
first. -/
structure RepairContinuationScheduler where
  cancelled : Bool
  maxKeys : Int
  entries : Std.ExtTreeMap String RepairContinuationEntry compare
  active : Nat
  keysPending : Nat
  dropped : Nat
  log : List RepairEvent

/-- A goroutine: what it does next.  `dropping` is `forgetID` at the end of the context,
`forgetting` is `Forget`. -/
inductive RepairThread where
  | scheduling (peer : Peer) (keys : List Bytes)
  | merging (peer : Peer) (keys : List Bytes)
  | forgetting (id : String)
  | waiting (id : String)
  | dropping (id : String)
  | launched (id : String)
  | sending (id : String) (attempt : Nat) (peer : Peer) (keys : List Bytes)
  | settling (id : String) (attempt : Nat) (deferred : Option (List Bytes))
  deriving DecidableEq, Repr

/-- What happens between two sections: the timer or the context, or the result of the
send. -/
inductive RepairChoice where
  | proceed
  | cancel
  | sent (deferred : List Bytes)
  | failed
  deriving DecidableEq, Repr

/-- Add keys up to the limit; whether any was left out. -/
def mergeRepairContinuationKeys (maxKeys : Int) : KeySet → List Bytes → KeySet × Bool
  | dst, [] => (dst, false)
  | dst, key :: rest =>
    if key ∈ dst then
      mergeRepairContinuationKeys maxKeys dst rest
    else if (if maxKeys ≤ 0 then defaultMaxKeys else maxKeys) ≤ dst.size then
      ((mergeRepairContinuationKeys maxKeys dst rest).1, true)
    else
      mergeRepairContinuationKeys maxKeys (dst.insert key) rest

/-- The keys in order. -/
def repairContinuationKeys (pending : KeySet) : List Bytes := pending.toList

namespace RepairContinuationEntry

def new (peer : Peer) : RepairContinuationEntry := ⟨peer, ∅, 0, 0, false, false⟩

def isActive (entry : RepairContinuationEntry) : Bool := entry.scheduled || entry.running

def load (entry : RepairContinuationEntry) : Nat := entry.pending.size + entry.inFlight

/-- A running entry starts over; one that is not scheduled is scheduled, which launches its
goroutine. -/
def enqueue (entry : RepairContinuationEntry) : RepairContinuationEntry × Bool :=
  if entry.running then ({ entry with attempt := 0 }, false)
  else if !entry.scheduled then ({ entry with attempt := 0, scheduled := true }, true)
  else (entry, false)

end RepairContinuationEntry

namespace RepairContinuationScheduler

/-- `newRepairContinuationScheduler`. -/
def new (limits : Limits) : RepairContinuationScheduler where
  cancelled := false
  maxKeys := if limits.maxKeys ≤ 0 then defaultMaxKeys else limits.maxKeys
  entries := ∅
  active := 0
  keysPending := 0
  dropped := 0
  log := []

variable (s : RepairContinuationScheduler)

/-- The number of entries that are scheduled or running. -/
def activeCount : Nat :=
  ((Table.values s.entries).map fun entry => if entry.isActive then 1 else 0).sum

/-- The keys that are pending or in flight. -/
def keyCount : Nat :=
  ((Table.values s.entries).map RepairContinuationEntry.load).sum

def updateGaugesLocked : RepairContinuationScheduler :=
  { s with active := s.activeCount, keysPending := s.keyCount }

/-- Count a drop. -/
def drop (dropped : Bool) : RepairContinuationScheduler :=
  { s with dropped := if dropped then s.dropped + 1 else s.dropped }

/-- Write an entry, log and publish. -/
def write (id : String) (entry : RepairContinuationEntry)
    (event : RepairEvent) : RepairContinuationScheduler :=
  updateGaugesLocked { s with entries := s.entries.insert id entry, log := event :: s.log }

/-- The entry of a peer, or a new one. -/
def entryOf (peer : Peer) : RepairContinuationEntry :=
  { (s.entries[repairPeerKey peer]?).getD (.new peer) with peer := peer }

/-- The section of `Schedule`, with the goroutine that it launches. -/
def schedule (peer : Peer) (keys : List Bytes) :
    RepairContinuationScheduler × List RepairThread :=
  let id := repairPeerKey peer
  let entry := s.entryOf peer
  let merged := mergeRepairContinuationKeys s.maxKeys entry.pending keys
  let (entry, launch) := RepairContinuationEntry.enqueue { entry with pending := merged.1 }
  ((s.drop merged.2).write id entry (.scheduled id keys merged.2),
    if launch then [.waiting id] else [])

/-- The first section of `run`. -/
def claim (id : String) :
    RepairContinuationScheduler × List RepairThread :=
  match s.entries[id]? with
  | none => (s, [])
  | some entry =>
    let keys := repairContinuationKeys entry.pending
    (s.write id { entry with
        scheduled := false, running := true, pending := ∅, inFlight := keys.length }
        (.ran id keys),
      [.sending id entry.attempt entry.peer keys])

/-- The pending keys and the attempt after a send. -/
def putBack (entry : RepairContinuationEntry) (attempt : Nat)
    (deferred : Option (List Bytes)) : RepairContinuationEntry × Bool :=
  match deferred with
  | some (key :: rest) =>
    if attempt < maxRepairContinuationAttempts then
      let (pending, dropped) := mergeRepairContinuationKeys s.maxKeys entry.pending (key :: rest)
      ({ entry with
          running := false, inFlight := 0, pending := pending, attempt := attempt + 1 }, dropped)
    else
      ({ entry with running := false, inFlight := 0 }, false)
  | _ => ({ entry with running := false, inFlight := 0 }, false)

/-- The last section of `run`. -/
def settle (id : String) (attempt : Nat)
    (deferred : Option (List Bytes)) : RepairContinuationScheduler × List RepairThread :=
  match s.entries[id]? with
  | none => ({ s with log := .completed id :: s.log }, [])
  | some entry =>
    let (entry, dropped) := s.putBack entry attempt deferred
    if entry.pending.isEmpty then
      (updateGaugesLocked { s.drop dropped with
        entries := s.entries.erase id, log := .completed id :: s.log }, [])
    else
      ((s.drop dropped).write id { entry with scheduled := true } (.completed id),
        [.waiting id])

def forgetID (id : String) (ended : Bool) :
    RepairContinuationScheduler :=
  match s.entries[id]? with
  | none => s.updateGaugesLocked
  | some entry =>
    updateGaugesLocked { s.drop (entry.scheduled || entry.running || !entry.pending.isEmpty ||
        0 < entry.inFlight) with
      entries := s.entries.erase id, log := .forgot id ended :: s.log }

end RepairContinuationScheduler

def RepairThread.next : Program RepairChoice RepairContinuationScheduler RepairThread :=
  fun choice s th =>
  match th with
  | .scheduling peer keys =>
    some (s, if keys = [] ∨ s.cancelled then [] else [.merging peer keys])
  | .merging peer keys => some (s.schedule peer keys)
  | .forgetting id => some (s.forgetID id false, [])
  | .waiting id =>
    match choice with
    | .proceed => some (s, [.launched id])
    | .cancel => if s.cancelled then some (s, [.dropping id]) else none
    | _ => none
  | .dropping id => some (s.forgetID id true, [])
  | .launched id => some (s.claim id)
  | .sending id attempt _ _ =>
    match choice with
    | .sent deferred => some (s, [.settling id attempt (some deferred)])
    | .failed => some (s, [.settling id attempt none])
    | _ => none
  | .settling id attempt deferred => some (s.settle id attempt deferred)

/-- What the sections of a goroutine can do. -/
inductive RepairThread.Performs (s : RepairContinuationScheduler) :
    RepairThread → RepairContinuationScheduler × List RepairThread → Prop
  | declines (peer : Peer) (keys : List Bytes) : Performs s (.scheduling peer keys) (s, [])
  | enters (peer : Peer) (keys : List Bytes) :
      Performs s (.scheduling peer keys) (s, [.merging peer keys])
  | merges (peer : Peer) (keys : List Bytes) :
      Performs s (.merging peer keys) (s.schedule peer keys)
  | forgets (id : String) : Performs s (.forgetting id) (s.forgetID id false, [])
  | fires (id : String) : Performs s (.waiting id) (s, [.launched id])
  | stops (id : String) : Performs s (.waiting id) (s, [.dropping id])
  | drops (id : String) : Performs s (.dropping id) (s.forgetID id true, [])
  | claims (id : String) : Performs s (.launched id) (s.claim id)
  | returns (id : String) (attempt : Nat) (peer : Peer) (keys : List Bytes)
      (deferred : Option (List Bytes)) :
      Performs s (.sending id attempt peer keys) (s, [.settling id attempt deferred])
  | settles (id : String) (attempt : Nat) (deferred : Option (List Bytes)) :
      Performs s (.settling id attempt deferred) (s.settle id attempt deferred)

theorem RepairThread.performs_of_next {choice : RepairChoice} {s : RepairContinuationScheduler}
    {th : RepairThread} {r : RepairContinuationScheduler × List RepairThread}
    (h : th.next choice s = some r) : th.Performs s r := by
  cases th with
  | scheduling peer keys =>
    cases h
    split
    · exact .declines peer keys
    · exact .enters peer keys
  | merging peer keys =>
    rw [← Option.some.inj h]
    exact .merges peer keys
  | forgetting id =>
    cases h
    exact .forgets id
  | waiting id =>
    simp only [RepairThread.next] at h
    split at h
    · cases h
      exact .fires id
    · split at h
      · cases h
        exact .stops id
      · cases h
    · cases h
  | dropping id =>
    cases h
    exact .drops id
  | launched id =>
    rw [← Option.some.inj h]
    exact .claims id
  | sending id attempt peer keys =>
    simp only [RepairThread.next] at h
    split at h
    · cases h
      exact .returns id attempt peer keys _
    · cases h
      exact .returns id attempt peer keys _
    · cases h
  | settling id attempt deferred =>
    rw [← Option.some.inj h]
    exact .settles id attempt deferred

/-! ## Runs -/

abbrev RepairSystem := Pool RepairContinuationScheduler RepairThread

/-- `Schedule` or `Forget` is called, the context ends, or a goroutine runs. -/
inductive RepairAction where
  | schedule (peer : Peer) (keys : List Bytes)
  | forget (peer : Peer)
  | cancel
  | run (i : Nat) (choice : RepairChoice)
  deriving DecidableEq, Repr

/-- Not scheduled again after `Forget` has removed it. -/
def NotRescheduled (id : String) : List RepairEvent → Prop
  | [] => True
  | .scheduled id' _ _ :: earlier =>
    (id' = id → .forgot id false ∉ earlier) ∧ NotRescheduled id earlier
  | _ :: earlier => NotRescheduled id earlier

instance NotRescheduled.decidable (id : String) :
    ∀ log : List RepairEvent, Decidable (NotRescheduled id log)
  | [] => isTrue trivial
  | .scheduled _ _ _ :: earlier => @instDecidableAnd _ _ _ (NotRescheduled.decidable id earlier)
  | .ran _ _ :: earlier => NotRescheduled.decidable id earlier
  | .completed _ :: earlier => NotRescheduled.decidable id earlier
  | .forgot _ _ :: earlier => NotRescheduled.decidable id earlier

/-- The number of runs that were completed since the last time it was scheduled. -/
def completedSince (id : String) : List RepairEvent → Nat
  | [] => 0
  | .scheduled id' _ _ :: earlier => if id' = id then 0 else completedSince id earlier
  | .completed id' :: earlier => (if id' = id then 1 else 0) + completedSince id earlier
  | _ :: earlier => completedSince id earlier

namespace RepairSystem

def new (limits : Limits) : RepairSystem := ⟨.new limits, []⟩

def step (s : RepairSystem) : RepairAction → RepairSystem
  | .schedule peer keys => Pool.start s (.scheduling peer keys)
  | .forget peer => Pool.start s (.forgetting (repairPeerKey peer))
  | .cancel => ⟨{ s.shared with cancelled := true }, s.threads⟩
  | .run i choice => Pool.run RepairThread.next s i choice

/-- The queues are within the limit, the gauges are right, and no key is lost: a key that
was scheduled, in a call that dropped none, is pending until a run takes it or its peer is
forgotten. -/
structure Bounded (s : RepairContinuationScheduler) : Prop where
  capacity : ∀ (id : String) entry, s.entries[id]? = some entry →
    (entry.pending.size : Int) ≤ s.maxKeys ∧ (entry.inFlight : Int) ≤ s.maxKeys
  gauges : s.active = s.activeCount ∧ s.keysPending = s.keyCount
  kept : ∀ later id keys earlier, s.log = later ++ .scheduled id keys false :: earlier →
    ∀ key ∈ keys, (∃ entry, s.entries[id]? = some entry ∧ key ∈ entry.pending) ∨
      (∃ ran, .ran id ran ∈ later ∧ key ∈ ran) ∨ ∃ ended, .forgot id ended ∈ later

end RepairSystem

/-! ## Merging -/

variable {log : List RepairEvent} {entry : RepairContinuationEntry}

section Merge

variable {maxKeys : Int} {dst : KeySet} {keys : List Bytes}

/-- Nothing is taken out. -/
theorem mem_merge_of_mem {k : Bytes} (h : k ∈ dst) :
    k ∈ (mergeRepairContinuationKeys maxKeys dst keys).1 := by
  induction keys generalizing dst with
  | nil => exact h
  | cons key rest ih =>
    unfold mergeRepairContinuationKeys
    by_cases hmem : key ∈ dst
    · rw [if_pos hmem]
      exact ih h
    rw [if_neg hmem]
    by_cases hfull : (if maxKeys ≤ 0 then defaultMaxKeys else maxKeys) ≤ dst.size
    · rw [if_pos hfull]
      exact ih h
    · rw [if_neg hfull]
      exact ih (Std.ExtTreeSet.mem_insert.mpr (.inr h))

/-- Every key is in if none was dropped. -/
theorem mem_merge_of_not_dropped (h : (mergeRepairContinuationKeys maxKeys dst keys).2 = false) :
    ∀ k ∈ keys, k ∈ (mergeRepairContinuationKeys maxKeys dst keys).1 := by
  induction keys generalizing dst with
  | nil => simp
  | cons key rest ih =>
    unfold mergeRepairContinuationKeys at h ⊢
    by_cases hmem : key ∈ dst
    · rw [if_pos hmem] at h ⊢
      exact List.forall_mem_cons.mpr ⟨mem_merge_of_mem hmem, ih h⟩
    rw [if_neg hmem] at h ⊢
    by_cases hfull : (if maxKeys ≤ 0 then defaultMaxKeys else maxKeys) ≤ dst.size
    · rw [if_pos hfull] at h
      cases h
    · rw [if_neg hfull] at h ⊢
      exact List.forall_mem_cons.mpr
        ⟨mem_merge_of_mem Std.ExtTreeSet.mem_insert_self, ih h⟩

/-- The limit is kept. -/
theorem size_merge_le (hpos : 0 < maxKeys) (h : (dst.size : Int) ≤ maxKeys) :
    ((mergeRepairContinuationKeys maxKeys dst keys).1.size : Int) ≤ maxKeys := by
  induction keys generalizing dst with
  | nil => exact h
  | cons key rest ih =>
    unfold mergeRepairContinuationKeys
    rw [if_neg (Int.not_le.mpr hpos)]
    by_cases hmem : key ∈ dst
    · rw [if_pos hmem]
      exact ih h
    rw [if_neg hmem]
    by_cases hfull : maxKeys ≤ dst.size
    · rw [if_pos hfull]
      exact ih h
    · rw [if_neg hfull]
      refine ih ?_
      rw [Std.ExtTreeSet.size_insert, if_neg (by simpa using hmem)]
      omega

end Merge

/-! ## Limits, gauges and keys that are owed -/

/-- The key was scheduled for the peer, in a call that dropped none, and neither has a run
taken it nor was the peer forgotten since. -/
def Owed (id : String) (key : Bytes) : List RepairEvent → Prop
  | [] => False
  | .scheduled id' keys dropped :: earlier =>
    (id' = id ∧ dropped = false ∧ key ∈ keys) ∨ Owed id key earlier
  | .ran id' keys :: earlier => ¬(id' = id ∧ key ∈ keys) ∧ Owed id key earlier
  | .completed _ :: earlier => Owed id key earlier
  | .forgot id' _ :: earlier => id' ≠ id ∧ Owed id key earlier

/-- A scheduled key is owed until a run takes it or its peer is forgotten. -/
theorem owed_or_done {id : String} {keys : List Bytes} {key : Bytes} (hkey : key ∈ keys)
    (later earlier : List RepairEvent) :
    Owed id key (later ++ .scheduled id keys false :: earlier) ∨
      (∃ ran, .ran id ran ∈ later ∧ key ∈ ran) ∨ ∃ ended, .forgot id ended ∈ later := by
  induction later with
  | nil => exact .inl (.inl ⟨rfl, rfl, hkey⟩)
  | cons event later ih =>
    rcases ih with howed | ⟨ran, hran, hmem⟩ | ⟨ended, hforgot⟩
    · cases event with
      | scheduled id' keys' dropped => exact .inl (.inr howed)
      | completed id' => exact .inl howed
      | ran id' keys' =>
        by_cases htaken : id' = id ∧ key ∈ keys'
        · obtain ⟨rfl, htaken⟩ := htaken
          exact .inr (.inl ⟨keys', List.mem_cons_self .., htaken⟩)
        · exact .inl ⟨htaken, howed⟩
      | forgot id' ended =>
        by_cases hid : id' = id
        · subst hid
          exact .inr (.inr ⟨ended, List.mem_cons_self ..⟩)
        · exact .inl ⟨hid, howed⟩
    · exact .inr (.inl ⟨ran, List.mem_cons_of_mem _ hran, hmem⟩)
    · exact .inr (.inr ⟨ended, List.mem_cons_of_mem _ hforgot⟩)

/-- The key of the peer that an event is about. -/
def RepairEvent.id : RepairEvent → String
  | .scheduled id _ _ | .ran id _ | .completed id | .forgot id _ => id

theorem owed_of_other {k : String} {key : Bytes} {event : RepairEvent} (hk : event.id ≠ k)
    (h : Owed k key (event :: log)) : Owed k key log := by
  cases event with
  | scheduled id keys dropped => exact h.resolve_left fun hnew => hk hnew.1
  | ran id keys | forgot id ended => exact h.2
  | completed id => exact h

namespace RepairContinuationScheduler

/-- What holds of the scheduler by itself. -/
structure Valid (s : RepairContinuationScheduler) : Prop where
  positive : 0 < s.maxKeys
  capacity : ∀ (id : String) entry, s.entries[id]? = some entry →
    (entry.pending.size : Int) ≤ s.maxKeys ∧ (entry.inFlight : Int) ≤ s.maxKeys
  gauges : s.active = s.activeCount ∧ s.keysPending = s.keyCount
  owed : ∀ id key, Owed id key s.log → ∃ entry, s.entries[id]? = some entry ∧ key ∈ entry.pending

variable {s : RepairContinuationScheduler} {id : String} {event : RepairEvent}

theorem Valid.new (limits : Limits) : Valid (.new limits) where
  positive := by
    unfold RepairContinuationScheduler.new defaultMaxKeys
    dsimp only
    split <;> omega
  capacity := by simp [RepairContinuationScheduler.new]
  gauges := ⟨rfl, rfl⟩
  owed := fun _ _ h => absurd h id

theorem Valid.drop (h : s.Valid) (dropped : Bool) : (s.drop dropped).Valid :=
  ⟨h.positive, h.capacity, h.gauges, h.owed⟩

/-- An entry is written. -/
theorem Valid.write (h : s.Valid) (hevent : event.id = id)
    (hcapacity : (entry.pending.size : Int) ≤ s.maxKeys ∧ (entry.inFlight : Int) ≤ s.maxKeys)
    (howed : ∀ key, Owed id key (event :: s.log) → key ∈ entry.pending) :
    (s.write id entry event).Valid where
  positive := h.positive
  capacity := by
    intro k entry' hentry'
    change (s.entries.insert id entry)[k]? = some entry' at hentry'
    rw [Table.getElem?_insert_of_lawful] at hentry'
    split at hentry'
    · cases hentry'
      exact hcapacity
    · exact h.capacity k entry' hentry'
  gauges := ⟨rfl, rfl⟩
  owed := by
    intro k key hk
    show ∃ entry', (s.entries.insert id entry)[k]? = some entry' ∧ key ∈ entry'.pending
    rw [Table.getElem?_insert_of_lawful]
    by_cases hid : k = id
    · rw [if_pos hid]
      exact ⟨entry, rfl, howed key (hid ▸ hk)⟩
    · rw [if_neg hid]
      exact h.owed k key (owed_of_other (by rw [hevent]; exact Ne.symm hid) hk)

/-- An entry is deleted. -/
theorem Valid.erase (h : s.Valid) (hevent : event.id = id)
    (howed : ∀ key, ¬Owed id key (event :: s.log)) :
    Valid (updateGaugesLocked
      { s with entries := s.entries.erase id, log := event :: s.log }) where
  positive := h.positive
  capacity := by
    intro k entry' hentry'
    change (s.entries.erase id)[k]? = some entry' at hentry'
    rw [Table.getElem?_erase_of_lawful] at hentry'
    split at hentry'
    · cases hentry'
    · exact h.capacity k entry' hentry'
  gauges := ⟨rfl, rfl⟩
  owed := by
    intro k key hk
    show ∃ entry', (s.entries.erase id)[k]? = some entry' ∧ key ∈ entry'.pending
    rw [Table.getElem?_erase_of_lawful]
    by_cases hid : k = id
    · exact absurd (hid ▸ hk) (howed key)
    · rw [if_neg hid]
      exact h.owed k key (owed_of_other (by rw [hevent]; exact Ne.symm hid) hk)

/-- What is owed is among the pending keys of the entry. -/
theorem Valid.pending_of_owed (h : s.Valid) (hentry : s.entries[id]? = some entry) {key : Bytes}
    (howed : Owed id key s.log) : key ∈ entry.pending := by
  obtain ⟨entry', hentry', hmem⟩ := h.owed id key howed
  rw [hentry] at hentry'
  cases hentry'
  exact hmem

theorem Valid.forgetID (h : s.Valid) (id : String) (ended : Bool) :
    (s.forgetID id ended).Valid := by
  unfold RepairContinuationScheduler.forgetID
  cases hentry : s.entries[id]? with
  | none => exact ⟨h.positive, h.capacity, ⟨rfl, rfl⟩, h.owed⟩
  | some entry => exact (h.drop _).erase rfl fun key howed => howed.1 rfl

theorem Valid.claim (h : s.Valid) (id : String) : (s.claim id).1.Valid := by
  unfold RepairContinuationScheduler.claim
  cases hentry : s.entries[id]? with
  | none => exact h
  | some entry =>
    obtain ⟨hpending, _⟩ := h.capacity id entry hentry
    refine h.write rfl ⟨?_, ?_⟩ fun key howed => ?_
    · simpa using Int.le_of_lt h.positive
    · rw [repairContinuationKeys, Std.ExtTreeSet.length_toList]
      exact hpending
    · -- the run takes every pending key
      have hmem := h.pending_of_owed hentry howed.2
      exact absurd ⟨rfl, Std.ExtTreeSet.mem_toList.mpr hmem⟩ howed.1

/-- The pending keys stay pending, within the limit. -/
theorem putBack_pending (h : s.Valid) (hentry : s.entries[id]? = some entry) (attempt : Nat)
    (deferred : Option (List Bytes)) :
    (∀ key ∈ entry.pending, key ∈ (s.putBack entry attempt deferred).1.pending) ∧
      ((s.putBack entry attempt deferred).1.pending.size : Int) ≤ s.maxKeys ∧
      (s.putBack entry attempt deferred).1.inFlight = 0 := by
  obtain ⟨hpending, _⟩ := h.capacity id entry hentry
  unfold putBack
  cases deferred with
  | none => exact ⟨fun key hkey => hkey, hpending, rfl⟩
  | some keys =>
    cases keys with
    | nil => exact ⟨fun key hkey => hkey, hpending, rfl⟩
    | cons key rest =>
      dsimp only
      split
      · exact ⟨fun key hkey => mem_merge_of_mem hkey, size_merge_le h.positive hpending, rfl⟩
      · exact ⟨fun key hkey => hkey, hpending, rfl⟩

theorem Valid.settle (h : s.Valid) (id : String) (attempt : Nat)
    (deferred : Option (List Bytes)) : (s.settle id attempt deferred).1.Valid := by
  unfold RepairContinuationScheduler.settle
  cases hentry : s.entries[id]? with
  | none => exact ⟨h.positive, h.capacity, h.gauges, h.owed⟩
  | some entry =>
    obtain ⟨hkept, hsize, hflight⟩ := putBack_pending h hentry attempt deferred
    dsimp only
    by_cases hempty : (s.putBack entry attempt deferred).1.pending.isEmpty = true
    · rw [if_pos hempty]
      refine (h.drop _).erase rfl fun key howed => ?_
      have hmem := hkept key (h.pending_of_owed hentry howed)
      rw [Std.ExtTreeSet.isEmpty_iff.mp hempty] at hmem
      simp at hmem
    · rw [if_neg hempty]
      refine (h.drop _).write rfl ⟨hsize, ?_⟩ fun key howed => ?_
      · rw [hflight]
        exact Int.le_of_lt h.positive
      · exact hkept key (h.pending_of_owed hentry howed)

/-- What is pending in an entry is merged, and nothing else of it changes but its flags. -/
theorem enqueue_keeps (entry : RepairContinuationEntry) :
    entry.enqueue.1.pending = entry.pending ∧ entry.enqueue.1.inFlight = entry.inFlight ∧
      entry.enqueue.1.running = entry.running := by
  unfold RepairContinuationEntry.enqueue
  split
  · exact ⟨rfl, rfl, rfl⟩
  · split <;> exact ⟨rfl, rfl, rfl⟩

/-- The limits hold for the entry to which keys are added, also if it is new. -/
theorem Valid.entryOf (h : s.Valid) (peer : Peer) :
    ((s.entryOf peer).pending.size : Int) ≤ s.maxKeys ∧
      ((s.entryOf peer).inFlight : Int) ≤ s.maxKeys ∧
      ∀ key, Owed (repairPeerKey peer) key s.log → key ∈ (s.entryOf peer).pending := by
  unfold RepairContinuationScheduler.entryOf
  cases hentry : s.entries[repairPeerKey peer]? with
  | some entry =>
    obtain ⟨hpending, hflight⟩ := h.capacity _ entry hentry
    exact ⟨hpending, hflight, fun key howed => h.pending_of_owed hentry howed⟩
  | none =>
    have hpos := Int.le_of_lt h.positive
    refine ⟨by simpa [RepairContinuationEntry.new] using hpos, hpos, fun key howed => ?_⟩
    obtain ⟨entry, hsome, _⟩ := h.owed _ key howed
    rw [hentry] at hsome
    cases hsome

theorem Valid.schedule (h : s.Valid) (peer : Peer) (keys : List Bytes) :
    (s.schedule peer keys).1.Valid := by
  obtain ⟨hpending, hflight, howed⟩ := h.entryOf peer
  obtain ⟨hsame, hflight', _⟩ := enqueue_keeps { s.entryOf peer with
    pending := (mergeRepairContinuationKeys s.maxKeys (s.entryOf peer).pending keys).1 }
  unfold RepairContinuationScheduler.schedule
  refine (h.drop _).write rfl ⟨?_, ?_⟩ fun key hkey => ?_
  · rw [hsame]
    exact size_merge_le h.positive hpending
  · rw [hflight']
    exact hflight
  · rw [hsame]
    rcases hkey with ⟨_, hnone, hmem⟩ | hold
    · exact mem_merge_of_not_dropped hnone key hmem
    · exact mem_merge_of_mem (howed key hold)

/-- Every section keeps the limits, the gauges and the keys that are owed. -/
theorem Valid.performs (h : s.Valid) {th : RepairThread}
    {r : RepairContinuationScheduler × List RepairThread} (hr : th.Performs s r) : r.1.Valid := by
  cases hr with
  | declines peer keys | enters peer keys | fires id | stops id
  | returns id attempt peer keys deferred => exact h
  | merges peer keys => exact h.schedule peer keys
  | forgets id => exact h.forgetID id false
  | drops id => exact h.forgetID id true
  | claims id => exact h.claim id
  | settles id attempt deferred => exact h.settle id attempt deferred

theorem Valid.bounded (h : s.Valid) : RepairSystem.Bounded s where
  capacity := h.capacity
  gauges := h.gauges
  kept := by
    intro later id keys earlier hlog key hkey
    rcases owed_or_done hkey later earlier with howed | hdone
    · rw [← hlog] at howed
      exact .inl (h.owed id key howed)
    · exact .inr hdone

end RepairContinuationScheduler

/-! ## Runs that are left -/

/-- The key of a goroutine that works for an entry. -/
def RepairThread.worksFor? : RepairThread → Option String
  | .waiting id | .dropping id | .launched id | .sending id _ _ _ | .settling id _ _ => some id
  | _ => none

def RepairThread.worksFor (id : String) (th : RepairThread) : Bool := th.worksFor? = some id

/-- The runs that a scheduled entry has left, if nothing is scheduled any more. -/
def runsLeft (attempt : Nat) : Nat := if attempt < maxRepairContinuationAttempts then 2 else 1

/-- The runs that a running entry has left: the one under way, and then those for what it
puts back or for what is pending already. -/
def runsLeftRunning (attempt : Nat) (entry : RepairContinuationEntry) : Nat :=
  1 + max (if attempt < maxRepairContinuationAttempts then 1 else 0)
    (if entry.pending.isEmpty then 0 else runsLeft entry.attempt)

theorem runsLeft_le (attempt : Nat) : runsLeft attempt ≤ 2 := by
  unfold runsLeft
  split <;> omega

theorem runsLeft_pos (attempt : Nat) : 0 < runsLeft attempt := by
  unfold runsLeft
  split <;> omega

theorem runsLeftRunning_le (attempt : Nat) (entry : RepairContinuationEntry) :
    runsLeftRunning attempt entry ≤ 3 := by
  have hle := runsLeft_le entry.attempt
  unfold runsLeftRunning
  split <;> split <;> omega

theorem runsLeftRunning_of_empty {attempt : Nat} (h : entry.pending = ∅) :
    runsLeftRunning attempt entry = runsLeft attempt := by
  unfold runsLeftRunning runsLeft
  rw [h, if_pos Std.ExtTreeSet.isEmpty_empty]
  split <;> rfl

/-- A goroutine that works for an entry is the one that the entry speaks of, and no more
than three runs are completed before the entry disappears. -/
def RepairThread.Accepts (completed : Nat) (entry : RepairContinuationEntry) : RepairThread → Prop
  | .waiting _ | .dropping _ | .launched _ =>
    entry.scheduled = true ∧ completed + runsLeft entry.attempt ≤ 3
  | .sending _ attempt _ _ | .settling _ attempt _ =>
    entry.running = true ∧ completed + runsLeftRunning attempt entry ≤ 3
  | _ => True

section Accepts

variable {completed : Nat} {entry' : RepairContinuationEntry} {th : RepairThread}

theorem RepairThread.Accepts.active (h : th.Accepts completed entry) (hth : th.worksFor?.isSome) :
    entry.isActive = true := by
  cases th with
  | scheduling peer keys | merging peer keys | forgetting id => cases hth
  | waiting id | dropping id | launched id | sending id attempt peer keys
  | settling id attempt deferred => simp [RepairContinuationEntry.isActive, h.1]

theorem RepairThread.Accepts.completed_lt (h : th.Accepts completed entry)
    (hth : th.worksFor?.isSome) : completed < 3 := by
  have hpos := runsLeft_pos entry.attempt
  cases th with
  | scheduling peer keys | merging peer keys | forgetting id => cases hth
  | waiting id | dropping id | launched id =>
    have hleft := h.2
    omega
  | sending id attempt peer keys | settling id attempt deferred =>
    have hleft := h.2
    unfold runsLeftRunning at hleft
    omega

/-- When keys are scheduled the count starts anew. -/
theorem RepairThread.Accepts.restart (h : th.Accepts completed entry)
    (hscheduled : entry.scheduled = true → entry'.scheduled = true)
    (hrunning : entry.running = true → entry'.running = true) : th.Accepts 0 entry' := by
  have hleft := runsLeft_le entry'.attempt
  cases th with
  | scheduling peer keys | merging peer keys | forgetting id => trivial
  | waiting id | dropping id | launched id => exact ⟨hscheduled h.1, by omega⟩
  | sending id attempt peer keys | settling id attempt deferred =>
    exact ⟨hrunning h.1, by rw [Nat.zero_add]; exact runsLeftRunning_le attempt entry'⟩

end Accepts

/-- A goroutine and the entry under a key, if there is one. -/
def RepairThread.Fits (s : RepairContinuationScheduler) (id : String) (th : RepairThread) : Prop :=
  ∀ entry, s.entries[id]? = some entry → th.Accepts (completedSince id s.log) entry

namespace RepairSystem

/-- The goroutines at work under a key. -/
def workers (id : String) (threads : List RepairThread) : Nat :=
  count (RepairThread.worksFor id) threads

/-- The entry under a key has one goroutine at work, there are never two, and there is none
without an entry unless it was forgotten. -/
structure Steady (id : String) (s : RepairSystem) : Prop where
  single : workers id s.threads ≤ 1
  owned : id ∈ s.shared.entries → 0 < workers id s.threads
  idle : .forgot id false ∉ s.shared.log → id ∉ s.shared.entries → workers id s.threads = 0
  fits : ∀ th ∈ s.threads, th.worksFor? = some id → th.Fits s.shared id

/-- Nothing happens under a key. -/
structure Keeps (t t' : RepairContinuationScheduler) (k : String) : Prop where
  entries : t'.entries[k]? = t.entries[k]?
  completed : completedSince k t'.log = completedSince k t.log
  forgot : .forgot k false ∈ t'.log ↔ .forgot k false ∈ t.log

variable {t t' : RepairContinuationScheduler} {id k : String} {th : RepairThread}
  {before after ts : List RepairThread} {r : RepairContinuationScheduler × List RepairThread}

theorem Keeps.mem (h : Keeps t t' k) : k ∈ t'.entries ↔ k ∈ t.entries := by
  rw [Table.mem_iff_exists, Table.mem_iff_exists, h.entries]

theorem Keeps.fits (h : Keeps t t' k) (hfits : th.Fits t k) : th.Fits t' k := by
  intro entry hentry
  rw [h.entries] at hentry
  rw [h.completed]
  exact hfits entry hentry

/-- A step under another key. -/
theorem Steady.other (h : Steady k ⟨t, before ++ th :: after⟩) (hkeeps : Keeps t t' k)
    (hth : th.worksFor? ≠ some k) (hts : ∀ u ∈ ts, u.worksFor? ≠ some k) :
    Steady k ⟨t', before ++ ts ++ after⟩ := by
  have hsame : workers k (before ++ ts ++ after) = workers k (before ++ th :: after) :=
    count_replace_false before after (decide_eq_false hth)
      fun u hu => decide_eq_false (hts u hu)
  refine ⟨?_, ?_, ?_, ?_⟩
  · exact hsame ▸ h.single
  · intro hmem
    have hpos := h.owned (hkeeps.mem.mp hmem)
    exact hsame ▸ hpos
  · intro hforgot hmem
    have hzero := h.idle (fun hold => hforgot (hkeeps.forgot.mpr hold))
      fun hold => hmem (hkeeps.mem.mpr hold)
    exact hsame ▸ hzero
  · refine forall_replace h.fits (fun u _ hfits hu => hkeeps.fits (hfits hu)) ?_
    intro u hu huk
    exact absurd huk (hts u hu)

/-- A step of the goroutine at work under a key. -/
theorem Steady.work (h : Steady id ⟨t, before ++ th :: after⟩) (hth : th.worksFor? = some id)
    (hts : ∀ u ∈ ts, u.worksFor? = some id ∧ u.Fits t' id) (hlength : ts.length ≤ 1)
    (howned : id ∈ t'.entries → ts ≠ [])
    (hidle : .forgot id false ∉ t'.log → id ∉ t'.entries → ts = []) :
    Steady id ⟨t', before ++ ts ++ after⟩ := by
  have hreplace : workers id (before ++ ts ++ after) + 1 =
      workers id (before ++ th :: after) + ts.length :=
    count_replace_true before after (decide_eq_true hth)
      fun u hu => decide_eq_true (hts u hu).1
  have hsingle : workers id (before ++ th :: after) ≤ 1 := h.single
  have hpos : 0 < workers id (before ++ th :: after) := by
    unfold workers
    rw [count_append, count_cons, if_pos (show th.worksFor id = true from decide_eq_true hth)]
    omega
  have hcount : workers id (before ++ ts ++ after) = ts.length := by omega
  refine ⟨?_, ?_, ?_, ?_⟩
  · exact hcount ▸ hlength
  · intro hmem
    have hsome := List.length_pos_iff.mpr (howned hmem)
    exact hcount ▸ hsome
  · intro hforgot hmem
    rw [hidle hforgot hmem] at hcount ⊢
    exact hcount
  · refine forall_replace h.fits (fun u hu _ huk => ?_) fun u hu _ => (hts u hu).2
    have hfalse := eq_false_of_count_le hsingle (decide_eq_true hth) hu
    exact absurd huk (of_decide_eq_false hfalse)

/-! ## Steps under other keys -/

/-- The entry of a peer with further keys. -/
def merged (t : RepairContinuationScheduler) (peer : Peer) (keys : List Bytes) :
    RepairContinuationEntry :=
  { t.entryOf peer with
    pending := (mergeRepairContinuationKeys t.maxKeys (t.entryOf peer).pending keys).1 }

theorem schedule_entries (t : RepairContinuationScheduler) (peer : Peer) (keys : List Bytes) :
    (t.schedule peer keys).1.entries =
      t.entries.insert (repairPeerKey peer) (merged t peer keys).enqueue.1 := rfl

theorem schedule_threads (t : RepairContinuationScheduler) (peer : Peer) (keys : List Bytes) :
    (t.schedule peer keys).2 =
      if (merged t peer keys).enqueue.2 then [.waiting (repairPeerKey peer)] else [] := rfl

/-- The key that a goroutine acts on. -/
def threadKey : RepairThread → String
  | .scheduling peer _ | .merging peer _ => repairPeerKey peer
  | .forgetting id | .waiting id | .dropping id | .launched id => id
  | .sending id _ _ _ | .settling id _ _ => id

theorem eq_threadKey (h : th.worksFor? = some k) : k = threadKey th := by
  cases th <;> cases h <;> rfl

theorem completedSince_of_other {event : RepairEvent} (h : event.id ≠ k) :
    completedSince k (event :: log) = completedSince k log := by
  cases event with
  | scheduled id keys dropped => exact if_neg h
  | ran id keys | forgot id ended => rfl
  | completed id =>
    show (if id = k then 1 else 0) + completedSince k log = completedSince k log
    have hid : ¬id = k := h
    rw [if_neg hid, Nat.zero_add]

theorem notRescheduled_of_append {later : List RepairEvent}
    (h : NotRescheduled k (later ++ log)) : NotRescheduled k log := by
  induction later with
  | nil => exact h
  | cons event later ih =>
    refine ih ?_
    cases event with
    | scheduled id keys dropped => exact h.2
    | ran id keys | completed id | forgot id ended => exact h

theorem Keeps.of_same (hentries : t'.entries = t.entries) (hlog : t'.log = t.log) :
    Keeps t t' k := by
  refine ⟨by rw [hentries], by rw [hlog], by rw [hlog]⟩

/-- Something is logged for another key. -/
theorem Keeps.of_event (event : RepairEvent) (hevent : event.id ≠ k)
    (hentries : t'.entries[k]? = t.entries[k]?) (hlog : t'.log = event :: t.log) :
    Keeps t t' k := by
  refine ⟨hentries, ?_, ?_⟩
  · rw [hlog, completedSince_of_other hevent]
  · rw [hlog, List.mem_cons]
    refine or_iff_right fun heq => hevent ?_
    rw [← heq]
    rfl

theorem Keeps.insert (event : RepairEvent) (hentries : t'.entries = t.entries.insert id entry)
    (hlog : t'.log = event :: t.log) (hevent : event.id = id) (hk : k ≠ id) : Keeps t t' k := by
  refine .of_event event (by rw [hevent]; exact hk.symm) ?_ hlog
  rw [hentries, Table.getElem?_insert_of_lawful, if_neg hk]

theorem Keeps.erase (event : RepairEvent) (hentries : t'.entries = t.entries.erase id)
    (hlog : t'.log = event :: t.log) (hevent : event.id = id) (hk : k ≠ id) : Keeps t t' k := by
  refine .of_event event (by rw [hevent]; exact hk.symm) ?_ hlog
  rw [hentries, Table.getElem?_erase_of_lawful, if_neg hk]

theorem Keeps.forgetID (hk : k ≠ id) (ended : Bool) : Keeps t (t.forgetID id ended) k := by
  unfold RepairContinuationScheduler.forgetID
  cases t.entries[id]? with
  | none => exact .of_same rfl rfl
  | some entry => exact .erase (.forgot id ended) rfl rfl rfl hk

theorem Keeps.claim (hk : k ≠ id) : Keeps t (t.claim id).1 k := by
  unfold RepairContinuationScheduler.claim
  cases t.entries[id]? with
  | none => exact .of_same rfl rfl
  | some entry => exact .insert (.ran id _) rfl rfl rfl hk

theorem Keeps.settle (hk : k ≠ id) (attempt : Nat) (deferred : Option (List Bytes)) :
    Keeps t (t.settle id attempt deferred).1 k := by
  unfold RepairContinuationScheduler.settle
  cases t.entries[id]? with
  | none => exact .of_event (.completed id) hk.symm rfl rfl
  | some entry =>
    dsimp only
    split
    · exact .erase (.completed id) rfl rfl rfl hk
    · exact .insert (.completed id) rfl rfl rfl hk

/-- A section leaves what is under other keys as it is. -/
theorem Keeps.performs (hr : th.Performs t r) (hk : k ≠ threadKey th) : Keeps t r.1 k := by
  cases hr with
  | declines peer keys | enters peer keys | fires id | stops id
  | returns id attempt peer keys deferred => exact .of_same rfl rfl
  | merges peer keys =>
    exact .insert (.scheduled (repairPeerKey peer) keys _) (schedule_entries t peer keys) rfl rfl hk
  | forgets id => exact .forgetID hk false
  | drops id => exact .forgetID hk true
  | claims id => exact .claim hk
  | settles id attempt deferred => exact .settle hk attempt deferred

/-- What a goroutine becomes or launches acts on the same key. -/
theorem threadKey_performs (hr : th.Performs t r) : ∀ u ∈ r.2, threadKey u = threadKey th := by
  cases hr with
  | declines peer keys | forgets id | drops id => simp
  | enters peer keys | fires id | stops id | returns id attempt peer keys deferred =>
    simp [threadKey]
  | merges peer keys =>
    rw [schedule_threads]
    split <;> simp [threadKey]
  | claims id =>
    unfold RepairContinuationScheduler.claim
    split <;> simp [threadKey]
  | settles id attempt deferred =>
    unfold RepairContinuationScheduler.settle
    split
    · simp
    · dsimp only
      split <;> simp [threadKey]

/-! ## Steps under the same key -/

theorem fits_of_none (h : t.entries[id]? = none) (th : RepairThread) : th.Fits t id := by
  intro entry hentry
  rw [h] at hentry
  cases hentry

/-- A goroutine at work has an entry, unless it was forgotten. -/
theorem Steady.mem (h : Steady id ⟨t, before ++ th :: after⟩) (hth : th.worksFor? = some id)
    (hforgot : .forgot id false ∉ t.log) : id ∈ t.entries := by
  by_contra hmem
  have hzero := h.idle hforgot hmem
  have hfalse := eq_false_of_count_eq_zero hzero th (by simp)
  exact of_decide_eq_false hfalse hth

/-- A goroutine goes on without a change of the scheduler. -/
theorem Steady.moves {u : RepairThread} (h : Steady id ⟨t, before ++ th :: after⟩)
    (hth : th.worksFor? = some id) (hu : u.worksFor? = some id)
    (hfits : th.Fits t id → u.Fits t id) : Steady id ⟨t, before ++ [u] ++ after⟩ := by
  have hnew : u.Fits t id := hfits (h.fits th (by simp) hth)
  refine h.work hth ?_ (by simp) (by simp) fun hforgot hmem => ?_
  · intro v hv
    rw [List.mem_singleton.mp hv]
    exact ⟨hu, hnew⟩
  · exact absurd (h.mem hth hforgot) hmem

/-- A goroutine ends and leaves no entry. -/
theorem Steady.ends (h : Steady id ⟨t, before ++ th :: after⟩) (hth : th.worksFor? = some id)
    (hnone : t'.entries[id]? = none) : Steady id ⟨t', before ++ [] ++ after⟩ := by
  refine h.work hth (by simp) (by simp) ?_ fun _ _ => rfl
  intro hmem
  exact absurd hmem (Table.notMem_of_none hnone)

/-- A goroutine writes its entry and goes on. -/
theorem Steady.writes {u : RepairThread} (h : Steady id ⟨t, before ++ th :: after⟩)
    (hth : th.worksFor? = some id) (hu : u.worksFor? = some id)
    (hentries : t'.entries = t.entries.insert id entry)
    (haccepts : u.Accepts (completedSince id t'.log) entry) :
    Steady id ⟨t', before ++ [u] ++ after⟩ := by
  have hget : t'.entries[id]? = some entry := by
    rw [hentries, Table.getElem?_insert_of_lawful, if_pos rfl]
  refine h.work hth ?_ (by simp) (by simp) fun _ hmem => ?_
  · intro v hv
    rw [List.mem_singleton.mp hv]
    refine ⟨hu, fun entry' hentry' => ?_⟩
    rw [hget] at hentry'
    cases hentry'
    exact haccepts
  · exact absurd (Table.mem_iff_exists.mpr ⟨entry, hget⟩) hmem

theorem forgetID_none (t : RepairContinuationScheduler) (id : String) (ended : Bool) :
    (t.forgetID id ended).entries[id]? = none := by
  unfold RepairContinuationScheduler.forgetID
  cases hentry : t.entries[id]? with
  | none => exact hentry
  | some entry =>
    show (t.entries.erase id)[id]? = none
    rw [Table.getElem?_erase_of_lawful, if_pos rfl]

/-- `Forget` leaves a goroutine without an entry, if there was one. -/
theorem Steady.forgets (h : Steady id ⟨t, before ++ .forgetting id :: after⟩) :
    Steady id ⟨t.forgetID id false, before ++ [] ++ after⟩ := by
  cases hentry : t.entries[id]? with
  | none =>
    refine h.other (.of_same ?_ ?_) (by simp [RepairThread.worksFor?]) (by simp)
    all_goals simp [RepairContinuationScheduler.forgetID, hentry,
      RepairContinuationScheduler.updateGaugesLocked]
  | some entry =>
    have hnone := forgetID_none t id false
    have hlog : (t.forgetID id false).log = .forgot id false :: t.log := by
      simp [RepairContinuationScheduler.forgetID, hentry,
        RepairContinuationScheduler.updateGaugesLocked]
    have hsame : workers id (before ++ [] ++ after) =
        workers id (before ++ .forgetting id :: after) :=
      count_replace_false before after rfl (by simp)
    refine ⟨hsame ▸ h.single, ?_, ?_, fun th _ _ => fits_of_none hnone th⟩
    · intro hmem
      obtain ⟨entry', hentry'⟩ := Table.mem_iff_exists.mp hmem
      rw [hnone] at hentry'
      cases hentry'
    · intro hforgot
      rw [hlog] at hforgot
      exact absurd (List.mem_cons_self ..) hforgot

/-- A run takes the keys: it is the run that the entry had left. -/
theorem Steady.claims (h : Steady id ⟨t, before ++ .launched id :: after⟩) :
    Steady id ⟨(t.claim id).1, before ++ (t.claim id).2 ++ after⟩ := by
  have hfits : RepairThread.Fits t id (.launched id) := h.fits _ (by simp) rfl
  unfold RepairContinuationScheduler.claim
  cases hentry : t.entries[id]? with
  | none => exact h.ends rfl hentry
  | some entry =>
    obtain ⟨_, hleft⟩ := hfits entry hentry
    refine h.writes rfl rfl rfl ⟨rfl, ?_⟩
    rw [runsLeftRunning_of_empty rfl]
    exact hleft

/-- After a run that leaves pending keys, fewer runs are left. -/
theorem runsLeft_putBack (t : RepairContinuationScheduler) (entry : RepairContinuationEntry)
    (attempt : Nat) (deferred : Option (List Bytes))
    (hpending : ¬(t.putBack entry attempt deferred).1.pending.isEmpty = true) :
    1 + runsLeft (t.putBack entry attempt deferred).1.attempt ≤ runsLeftRunning attempt entry := by
  have hsame (h : ¬entry.pending.isEmpty = true) :
      1 + runsLeft entry.attempt ≤ runsLeftRunning attempt entry := by
    unfold runsLeftRunning
    rw [if_neg h]
    omega
  unfold RepairContinuationScheduler.putBack at hpending ⊢
  cases deferred with
  | none => exact hsame hpending
  | some keys =>
    cases keys with
    | nil => exact hsame hpending
    | cons key rest =>
      dsimp only at hpending ⊢
      by_cases hagain : attempt < maxRepairContinuationAttempts
      · rw [if_pos hagain]
        have hlast : runsLeft (attempt + 1) = 1 :=
          if_neg (by unfold maxRepairContinuationAttempts; omega)
        unfold runsLeftRunning
        rw [if_pos hagain, hlast]
        omega
      · rw [if_neg hagain] at hpending ⊢
        exact hsame hpending

/-- A run is completed. -/
theorem Steady.settles {attempt : Nat} {deferred : Option (List Bytes)}
    (h : Steady id ⟨t, before ++ .settling id attempt deferred :: after⟩) :
    Steady id ⟨(t.settle id attempt deferred).1,
      before ++ (t.settle id attempt deferred).2 ++ after⟩ := by
  have hfits : RepairThread.Fits t id (.settling id attempt deferred) := h.fits _ (by simp) rfl
  unfold RepairContinuationScheduler.settle
  cases hentry : t.entries[id]? with
  | none => exact h.ends rfl hentry
  | some entry =>
    obtain ⟨_, hleft⟩ := hfits entry hentry
    dsimp only
    by_cases hempty : (t.putBack entry attempt deferred).1.pending.isEmpty = true
    · rw [if_pos hempty]
      refine h.ends rfl ?_
      show (t.entries.erase id)[id]? = none
      rw [Table.getElem?_erase_of_lawful, if_pos rfl]
    · rw [if_neg hempty]
      refine h.writes rfl rfl rfl ⟨rfl, ?_⟩
      have hfewer := runsLeft_putBack t entry attempt deferred hempty
      show (if id = id then 1 else 0) + completedSince id t.log + runsLeft _ ≤ 3
      rw [if_pos rfl]
      dsimp only
      omega

section Schedule

variable {peer : Peer} {keys : List Bytes}

theorem enqueue_of_active (h : entry.isActive = true) :
    entry.enqueue.2 = false ∧ (entry.scheduled = true → entry.enqueue.1.scheduled = true) := by
  unfold RepairContinuationEntry.isActive at h
  unfold RepairContinuationEntry.enqueue
  by_cases hrunning : entry.running = true
  · rw [if_pos hrunning]
    exact ⟨rfl, fun hscheduled => hscheduled⟩
  · have hscheduled : entry.scheduled = true := by simpa [hrunning] using h
    rw [if_neg hrunning, if_neg (by simp [hscheduled])]
    exact ⟨rfl, fun _ => hscheduled⟩

theorem merged_of_some (keys : List Bytes) (h : t.entries[repairPeerKey peer]? = some entry) :
    (merged t peer keys).scheduled = entry.scheduled ∧
      (merged t peer keys).running = entry.running := by
  simp [merged, RepairContinuationScheduler.entryOf, h]

theorem enqueue_merged_of_none (h : t.entries[repairPeerKey peer]? = none) :
    (merged t peer keys).enqueue =
      ({ merged t peer keys with attempt := 0, scheduled := true }, true) := by
  have hnew : (merged t peer keys).scheduled = false ∧ (merged t peer keys).running = false := by
    simp [merged, RepairContinuationScheduler.entryOf, RepairContinuationEntry.new, h]
  unfold RepairContinuationEntry.enqueue
  rw [if_neg (by simp [hnew.2]), if_pos (by simp [hnew.1])]

theorem schedule_get (t : RepairContinuationScheduler) (peer : Peer) (keys : List Bytes) :
    (t.schedule peer keys).1.entries[repairPeerKey peer]? =
      some (merged t peer keys).enqueue.1 := by
  rw [schedule_entries, Table.getElem?_insert_of_lawful, if_pos rfl]

theorem completedSince_schedule (t : RepairContinuationScheduler) (peer : Peer)
    (keys : List Bytes) :
    completedSince (repairPeerKey peer) (t.schedule peer keys).1.log = 0 := if_pos rfl

/-- Keys are scheduled for an entry, which has its goroutine. -/
theorem Steady.schedules_known (hentry : t.entries[repairPeerKey peer]? = some entry)
    (h : Steady (repairPeerKey peer) ⟨t, before ++ .merging peer keys :: after⟩) :
    Steady (repairPeerKey peer)
      ⟨(t.schedule peer keys).1, before ++ (t.schedule peer keys).2 ++ after⟩ := by
  have hpos := h.owned (Table.mem_iff_exists.mpr ⟨entry, hentry⟩)
  obtain ⟨hscheduled, hrunning⟩ := merged_of_some keys hentry
  obtain ⟨u, hu, hworks⟩ := exists_of_count_pos hpos
  have hactive : entry.isActive = true := by
    have hu' := of_decide_eq_true hworks
    exact (h.fits u hu hu' entry hentry).active (by rw [hu']; rfl)
  have hsame : (merged t peer keys).isActive = true := by
    unfold RepairContinuationEntry.isActive at hactive ⊢
    rw [hscheduled, hrunning]
    exact hactive
  obtain ⟨hlaunch, hstays⟩ := enqueue_of_active hsame
  obtain ⟨_, _, hruns⟩ := RepairContinuationScheduler.enqueue_keeps (merged t peer keys)
  have hnothing : (t.schedule peer keys).2 = [] := by
    rw [schedule_threads, hlaunch]
    rfl
  have hcount : workers (repairPeerKey peer) (before ++ [] ++ after) =
      workers (repairPeerKey peer) (before ++ .merging peer keys :: after) :=
    count_replace_false before after rfl (by simp)
  rw [hnothing]
  refine ⟨?_, ?_, ?_, ?_⟩
  · exact hcount ▸ h.single
  · intro _
    exact hcount ▸ hpos
  · intro _ hnone
    exact absurd (Table.mem_iff_exists.mpr ⟨_, schedule_get t peer keys⟩) hnone
  · refine forall_replace h.fits (fun u _ hfits hu entry' hentry' => ?_) (by simp)
    rw [schedule_get] at hentry'
    cases hentry'
    rw [completedSince_schedule]
    refine (hfits hu entry hentry).restart (fun hs => hstays ?_) fun hr => ?_
    · rw [hscheduled]
      exact hs
    · rw [hruns, hrunning]
      exact hr

/-- A new entry gets its goroutine, and no other is at work. -/
theorem Steady.schedules_new (hentry : t.entries[repairPeerKey peer]? = none)
    (hforgot : .forgot (repairPeerKey peer) false ∉ t.log)
    (h : Steady (repairPeerKey peer) ⟨t, before ++ .merging peer keys :: after⟩) :
    Steady (repairPeerKey peer)
      ⟨(t.schedule peer keys).1, before ++ (t.schedule peer keys).2 ++ after⟩ := by
  have hnone := Table.notMem_of_none hentry
  have hidle := eq_false_of_count_eq_zero (h.idle hforgot hnone)
  have hnew : (t.schedule peer keys).2 = [.waiting (repairPeerKey peer)] := by
    rw [schedule_threads, enqueue_merged_of_none hentry]
    rfl
  have hbefore := count_eq_zero fun u (hu : u ∈ before) => hidle u (by simp [hu])
  have hafter := count_eq_zero fun u (hu : u ∈ after) => hidle u (by simp [hu])
  have hcount : workers (repairPeerKey peer)
      (before ++ [.waiting (repairPeerKey peer)] ++ after) = 1 := by
    simp only [workers, count_append, hbefore, hafter]
    simp [RepairThread.worksFor, RepairThread.worksFor?]
  rw [hnew]
  refine ⟨?_, ?_, ?_, ?_⟩
  · exact Nat.le_of_eq hcount
  · intro _
    exact hcount ▸ Nat.one_pos
  · intro _ hnone'
    exact absurd (Table.mem_iff_exists.mpr ⟨_, schedule_get t peer keys⟩) hnone'
  · refine forall_replace (fun u hu => hidle u hu) (fun u _ hu huk => ?_)
      fun u hu _ entry' hentry' => ?_
    · exact absurd huk (of_decide_eq_false hu)
    · rw [schedule_get, enqueue_merged_of_none hentry] at hentry'
      cases hentry'
      rw [List.mem_singleton.mp hu, completedSince_schedule]
      have hleft := runsLeft_le 0
      exact ⟨rfl, by dsimp only; omega⟩

end Schedule

/-! ## Steps and runs -/

/-- The log grows, and the limit stays. -/
theorem extends_performs (hr : th.Performs t r) :
    (∃ later, r.1.log = later ++ t.log) ∧ r.1.maxKeys = t.maxKeys := by
  have hforgets (id : String) (ended : Bool) : (∃ later, (t.forgetID id ended).log =
      later ++ t.log) ∧ (t.forgetID id ended).maxKeys = t.maxKeys := by
    unfold RepairContinuationScheduler.forgetID
    split
    · exact ⟨⟨[], rfl⟩, rfl⟩
    · exact ⟨⟨[.forgot id ended], rfl⟩, rfl⟩
  cases hr with
  | declines peer keys | enters peer keys | fires id | stops id
  | returns id attempt peer keys deferred => exact ⟨⟨[], rfl⟩, rfl⟩
  | merges peer keys => exact ⟨⟨[.scheduled (repairPeerKey peer) keys _], rfl⟩, rfl⟩
  | forgets id => exact hforgets id false
  | drops id => exact hforgets id true
  | claims id =>
    unfold RepairContinuationScheduler.claim
    split
    · exact ⟨⟨[], rfl⟩, rfl⟩
    · exact ⟨⟨[.ran id _], rfl⟩, rfl⟩
  | settles id attempt deferred =>
    unfold RepairContinuationScheduler.settle
    split
    · exact ⟨⟨[.completed id], rfl⟩, rfl⟩
    · dsimp only
      split
      · exact ⟨⟨[.completed id], rfl⟩, rfl⟩
      · exact ⟨⟨[.completed id], rfl⟩, rfl⟩

/-- A section of a goroutine. -/
theorem Steady.performs (hr : th.Performs t r) (hrescheduled : NotRescheduled k r.1.log)
    (h : NotRescheduled k t.log → Steady k ⟨t, before ++ th :: after⟩) :
    Steady k ⟨r.1, before ++ r.2 ++ after⟩ := by
  have hsteady : Steady k ⟨t, before ++ th :: after⟩ := by
    obtain ⟨⟨later, hlog⟩, _⟩ := extends_performs hr
    rw [hlog] at hrescheduled
    exact h (notRescheduled_of_append hrescheduled)
  by_cases hk : k = threadKey th
  swap
  · refine hsteady.other (.performs hr hk) (fun hth => hk (eq_threadKey hth)) ?_
    intro u hu hworks
    exact hk ((eq_threadKey hworks).trans (threadKey_performs hr u hu))
  cases hr with
  | declines peer keys =>
    exact hsteady.other (.of_same rfl rfl) (by simp [RepairThread.worksFor?]) (by simp)
  | enters peer keys =>
    exact hsteady.other (.of_same rfl rfl) (by simp [RepairThread.worksFor?])
      (by simp [RepairThread.worksFor?])
  | merges peer keys =>
    cases hk
    cases hentry : t.entries[repairPeerKey peer]? with
    | some entry => exact hsteady.schedules_known hentry
    | none => exact hsteady.schedules_new hentry (hrescheduled.1 rfl)
  | forgets id =>
    cases hk
    exact hsteady.forgets
  | fires id | stops id | returns id attempt peer keys deferred =>
    cases hk
    exact hsteady.moves rfl rfl fun hfits => hfits
  | drops id =>
    cases hk
    exact hsteady.ends rfl (forgetID_none t id true)
  | claims id =>
    cases hk
    exact hsteady.claims
  | settles id attempt deferred =>
    cases hk
    exact hsteady.settles

/-- The key under which a goroutine may make an entry. -/
def schedules? : RepairThread → Option String
  | .scheduling peer _ | .merging peer _ => some (repairPeerKey peer)
  | _ => none

/-- Entries are made under the given keys only. -/
structure Within (ids : Finset String) (s : RepairSystem) : Prop where
  entries : ∀ id ∈ s.shared.entries, id ∈ ids
  threads : ∀ th ∈ s.threads, ∀ id, schedules? th = some id → id ∈ ids

theorem none_performs (hr : th.Performs t r) (hth : schedules? th = none)
    (hnone : t.entries[threadKey th]? = none) : r.1.entries[threadKey th]? = none := by
  cases hr with
  | declines peer keys | enters peer keys | merges peer keys => cases hth
  | forgets id => exact forgetID_none t id false
  | fires id | stops id | returns id attempt peer keys deferred => exact hnone
  | drops id => exact forgetID_none t id true
  | claims id =>
    have hentry : t.entries[id]? = none := hnone
    unfold RepairContinuationScheduler.claim
    rw [hentry]
    exact hnone
  | settles id attempt deferred =>
    have hentry : t.entries[id]? = none := hnone
    unfold RepairContinuationScheduler.settle
    rw [hentry]
    exact hnone

/-- Only `Schedule` makes entries. -/
theorem mem_performs (hr : th.Performs t r) (hmem : k ∈ r.1.entries) :
    k ∈ t.entries ∨ schedules? th = some k := by
  by_cases hk : k = threadKey th
  swap
  · exact .inl ((Keeps.performs hr hk).mem.mp hmem)
  cases hth : schedules? th with
  | some id =>
    have hid : id = threadKey th := by
      cases th <;> cases hth <;> rfl
    rw [hid, hk]
    exact .inr rfl
  | none =>
    rw [Table.mem_iff_exists] at hmem ⊢
    obtain ⟨entry, hentry⟩ := hmem
    cases hold : t.entries[k]? with
    | some entry' => exact .inl ⟨entry', rfl⟩
    | none =>
      rw [hk] at hold hentry
      rw [none_performs hr hth hold] at hentry
      cases hentry

/-- What a goroutine becomes makes entries under the same key only. -/
theorem schedules?_performs (hr : th.Performs t r) {u : RepairThread} (hu : u ∈ r.2)
    (hid : schedules? u = some id) : schedules? th = some id := by
  have hkey := threadKey_performs hr u hu
  cases hr with
  | enters peer keys =>
    rw [List.mem_singleton.mp hu] at hid
    exact hid
  | declines peer keys | forgets id | drops id => cases hu
  | merges peer keys =>
    cases u <;> cases hid <;> exact congrArg some hkey.symm
  | fires id | stops id | returns id attempt peer keys deferred =>
    rw [List.mem_singleton.mp hu] at hid; cases hid
  | claims id =>
    unfold RepairContinuationScheduler.claim at hu
    split at hu
    · cases hu
    · rw [List.mem_singleton.mp hu] at hid
      cases hid
  | settles id attempt deferred =>
    unfold RepairContinuationScheduler.settle at hu
    split at hu
    · cases hu
    · dsimp only at hu
      split at hu
      · cases hu
      · rw [List.mem_singleton.mp hu] at hid
        cases hid

variable {s : RepairSystem} {limit : Int} {ids : Finset String} {a : RepairAction}

theorem Within.performs (hr : th.Performs t r)
    (h : Within ids ⟨t, before ++ th :: after⟩) :
    Within ids ⟨r.1, before ++ r.2 ++ after⟩ where
  entries := by
    intro id hmem
    rcases mem_performs hr hmem with hold | hth
    · exact h.entries id hold
    · exact h.threads th (by simp) id hth
  threads := by
    refine forall_replace h.threads (fun u _ hu => hu) fun u hu id hid => ?_
    exact h.threads th (by simp) id (schedules?_performs hr hu hid)

/-- What holds in every state of a run. -/
structure Sound (limit : Int) (s : RepairSystem) : Prop where
  maxKeys : s.shared.maxKeys = limit
  valid : s.shared.Valid
  steady : ∀ id, NotRescheduled id s.shared.log → Steady id s

theorem Steady.start (h : Steady k s) (hth : th.worksFor? = none) :
    Steady k (Pool.start s th) := by
  have hsame : workers k (s.threads ++ [th]) = workers k s.threads := by
    simp [workers, RepairThread.worksFor, hth]
  refine ⟨?_, ?_, ?_, ?_⟩
  · exact hsame ▸ h.single
  · exact hsame ▸ h.owned
  · exact hsame ▸ h.idle
  · intro u hu hworks
    rcases List.mem_append.mp hu with hold | hnew
    · exact h.fits u hold hworks
    · rw [List.mem_singleton.mp hnew, hth] at hworks
      cases hworks

theorem Sound.new (limits : Limits) : Sound (new limits).shared.maxKeys (new limits) where
  maxKeys := rfl
  valid := .new limits
  steady := by
    refine fun id _ => ⟨Nat.zero_le 1, fun hmem => ?_, fun _ _ => rfl, fun th hth => ?_⟩
    · exact absurd hmem Std.ExtTreeMap.not_mem_empty
    · cases hth

/-- What every step keeps. -/
theorem Sound.step (h : Sound limit s) (a : RepairAction) : Sound limit (s.step a) := by
  cases a with
  | schedule peer keys | forget peer =>
    exact ⟨h.maxKeys, h.valid, fun id hid => (h.steady id hid).start rfl⟩
  | cancel =>
    obtain ⟨hlimit, hvalid, hsteady⟩ := h
    refine ⟨hlimit, ⟨hvalid.positive, hvalid.capacity, hvalid.gauges, hvalid.owed⟩, fun id hid => ?_⟩
    obtain ⟨hsingle, howned, hidle, hfits⟩ := hsteady id hid
    exact ⟨hsingle, howned, hidle, hfits⟩
  | run i choice =>
    show Sound limit (Pool.run RepairThread.next s i choice)
    rcases Pool.run_cases RepairThread.next s i choice with hsame |
      ⟨before, th, after, t', ts, hsplit, _, hnext, hrun⟩
    · rw [hsame]
      exact h
    · rw [hrun]
      have hr := RepairThread.performs_of_next hnext
      refine ⟨(extends_performs hr).2.trans h.maxKeys, h.valid.performs hr, fun id hid => ?_⟩
      refine Steady.performs hr hid fun hearlier => ?_
      rw [← hsplit]
      exact h.steady id hearlier

/-- The keys that are scheduled are among the given ones. -/
def Among (ids : Finset String) : RepairAction → Prop
  | .schedule peer _ => repairPeerKey peer ∈ ids
  | _ => True

theorem Within.step (h : Within ids s) (ha : Among ids a) : Within ids (s.step a) := by
  cases a with
  | schedule peer keys =>
    refine ⟨h.entries, fun th hth id hid => ?_⟩
    rcases List.mem_append.mp hth with hold | hnew
    · exact h.threads th hold id hid
    · rw [List.mem_singleton.mp hnew] at hid
      cases hid
      exact ha
  | forget peer =>
    refine ⟨h.entries, fun th hth id hid => ?_⟩
    rcases List.mem_append.mp hth with hold | hnew
    · exact h.threads th hold id hid
    · rw [List.mem_singleton.mp hnew] at hid
      cases hid
  | cancel => exact ⟨h.entries, h.threads⟩
  | run i choice =>
    show Within ids (Pool.run RepairThread.next s i choice)
    rcases Pool.run_cases RepairThread.next s i choice with hsame |
      ⟨before, th, after, t', ts, hsplit, _, hnext, hrun⟩
    · rw [hsame]
      exact h
    · rw [hrun]
      rw [hsplit] at h
      exact h.performs (RepairThread.performs_of_next hnext)

/-- The gauges are bounded by the number of keys that are scheduled. -/
theorem Within.gauges_le (h : Within ids s) (hvalid : s.shared.Valid) :
    s.shared.active ≤ ids.card ∧
      (s.shared.keysPending : Int) ≤ 2 * ids.card * s.shared.maxKeys := by
  have hsize : s.shared.entries.size ≤ ids.card := Table.size_le_card h.entries
  obtain ⟨hactive, hpending⟩ := hvalid.gauges
  have hcapacity := hvalid.capacity
  obtain ⟨bound, hbound⟩ := Int.eq_ofNat_of_zero_le (Int.le_of_lt hvalid.positive)
  rw [hbound] at hcapacity ⊢
  constructor
  · have hsum : s.shared.activeCount ≤ s.shared.entries.size * 1 := by
      refine Table.sum_values_le fun id entry _ => ?_
      split <;> omega
    omega
  · have hsum : s.shared.keyCount ≤ s.shared.entries.size * (2 * bound) := by
      refine Table.sum_values_le fun id entry hentry => ?_
      obtain ⟨hqueue, hflight⟩ := hcapacity id entry hentry
      unfold RepairContinuationEntry.load
      omega
    have hle : s.shared.keysPending ≤ 2 * ids.card * bound := by
      calc s.shared.keysPending = s.shared.keyCount := hpending
        _ ≤ s.shared.entries.size * (2 * bound) := hsum
        _ ≤ ids.card * (2 * bound) := Nat.mul_le_mul_right _ hsize
        _ = 2 * ids.card * bound := by rw [Nat.mul_left_comm, Nat.mul_assoc]
    exact_mod_cast hle

/-- The goroutine of an entry can always go on. -/
theorem exists_next (t : RepairContinuationScheduler) (h : th.worksFor? = some id) :
    ∃ choice, (th.next choice t).isSome := by
  cases th with
  | scheduling peer keys | merging peer keys | forgetting id => cases h
  | waiting id | dropping id | launched id | settling id attempt deferred => exact ⟨.proceed, rfl⟩
  | sending id attempt peer keys => exact ⟨.failed, rfl⟩

/-- An entry is gone after three completed runs. -/
theorem Steady.none_of_completed (h : Steady id s) (hdone : 3 ≤ completedSince id s.shared.log) :
    s.shared.entries[id]? = none := by
  cases hentry : s.shared.entries[id]? with
  | none => rfl
  | some entry =>
    have hpos := h.owned (Table.mem_iff_exists.mpr ⟨entry, hentry⟩)
    obtain ⟨th, hth, hworks⟩ := exists_of_count_pos hpos
    have haccepts := h.fits th hth (of_decide_eq_true hworks) entry hentry
    have hlt := haccepts.completed_lt (by rw [of_decide_eq_true hworks]; rfl)
    omega

/-- The queues are within the limit, the gauges are right, and no key is lost; the gauges
are bounded by the number of peers that are scheduled; and an entry that is not scheduled
again after `Forget` has a goroutine that can go on, and is gone when three runs were
completed since it was last scheduled. -/
structure Governed (limits : Limits) (actions : List RepairAction) (s : RepairSystem) : Prop where
  limit : s.shared.maxKeys = if limits.maxKeys ≤ 0 then defaultMaxKeys else limits.maxKeys
  bounded : Bounded s.shared
  gauges : ∀ ids : Finset String, (∀ a ∈ actions, Among ids a) →
    s.shared.active ≤ ids.card ∧ (s.shared.keysPending : Int) ≤ 2 * ids.card * s.shared.maxKeys
  continued : ∀ id ∈ s.shared.entries, NotRescheduled id s.shared.log →
    ∃ th ∈ s.threads, th.worksFor? = some id ∧ ∃ choice, (th.next choice s.shared).isSome
  gone : ∀ id, NotRescheduled id s.shared.log → 3 ≤ completedSince id s.shared.log →
    s.shared.entries[id]? = none

/-- Repair continuations are bounded in every run. -/
theorem repair_continuations_bounded (limits : Limits) (actions : List RepairAction) :
    Governed limits actions (Transition.run step (new limits) actions) := by
  have hsound : Sound (new limits).shared.maxKeys (Transition.run step (new limits) actions) :=
    Transition.run_invariant (P := fun _ _ => True) (fun s a _ hs => hs.step a)
      (Transition.along_of_forall fun _ _ _ => trivial) (.new limits)
  have hwithin (ids : Finset String) (hids : ∀ a ∈ actions, Among ids a) :
      Within ids (Transition.run step (new limits) actions) := by
    refine Transition.run_invariant (P := fun _ a => Among ids a) (fun s a ha hs => hs.step ha)
      (Transition.along_of_forall fun a ha _ => hids a ha) ⟨fun id hmem => ?_, by simp [new]⟩
    exact absurd hmem Std.ExtTreeMap.not_mem_empty
  refine ⟨hsound.maxKeys, hsound.valid.bounded, fun ids hids => ?_, fun id hmem hid => ?_,
    fun id hid => (hsound.steady id hid).none_of_completed⟩
  · exact (hwithin ids hids).gauges_le hsound.valid
  · obtain ⟨th, hth, hworks⟩ := exists_of_count_pos ((hsound.steady id hid).owned hmem)
    have hworks := of_decide_eq_true hworks
    exact ⟨th, hth, hworks, exists_next _ hworks⟩

namespace Sample

def limits : Limits := ⟨8, 2, 16, 64⟩

/-- Keys are scheduled again while a run is under way.  It is completed, the next one defers
a key, and a third sends it. -/
def threeRuns : List RepairAction :=
  [.schedule Sample.remotePeer [[1], [2]], .run 0 .proceed, .run 0 .proceed, .run 0 .proceed,
    .run 0 .proceed, .schedule Sample.remotePeer [[3], [4]], .run 1 .proceed, .run 1 .proceed,
    .run 0 .failed, .run 0 .proceed, .run 0 .proceed, .run 0 .proceed, .run 0 (.sent [[4]]),
    .run 0 .proceed, .run 0 .proceed, .run 0 .proceed, .run 0 (.sent [[4]]), .run 0 .proceed]

end Sample

/-- Just before the end of the third run the entry is there, and then it is gone. -/
theorem repair_continuations_bounded_sample :
    repairPeerKey Sample.remotePeer ∈
        (Transition.run step (new Sample.limits) Sample.threeRuns.dropLast).shared.entries ∧
      completedSince (repairPeerKey Sample.remotePeer)
        (Transition.run step (new Sample.limits) Sample.threeRuns).shared.log = 3 ∧
      (Transition.run step (new Sample.limits) Sample.threeRuns).shared.entries[
        repairPeerKey Sample.remotePeer]? = none := by
  have hthree : completedSince (repairPeerKey Sample.remotePeer)
      (Transition.run step (new Sample.limits) Sample.threeRuns).shared.log = 3 := by
    decide +kernel
  refine ⟨by decide +kernel, hthree, ?_⟩
  exact (repair_continuations_bounded Sample.limits Sample.threeRuns).gone _
    (by decide +kernel) (Nat.le_of_eq hthree.symm)

end RepairSystem

end StreamHive.Replication

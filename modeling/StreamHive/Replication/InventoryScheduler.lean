import StreamHive.Verified.ByteString
import StreamHive.Verified.Table
import StreamHive.Verified.Threads
import StreamHive.Verified.Transition

/-!
# Scheduling of inventory exchanges

`inventoryExchangeScheduler` keeps an entry for each peer with an exchange under way or
waiting for its timer.  An exchange runs outside the lock and looks its entry up again by
the peer's key when it is done.  If the entry is forgotten and made anew in the meantime,
a second exchange starts while the first is under way, and the first then stores its
cursor in an entry that is not its own.

Every critical section is one step, and so are the check of the context before a section
and the return of an exchange, whose result is any.  Entries under one key are numbered.

## Main results

* `Exclusive.step` — what every step keeps, if no entry is made while a goroutine of an
  earlier entry under the same key is at work;
* `inventory_exchanges_exclusive` — whole runs of such steps;
* `forgotten_exchange_overlaps` — a run with a step that is not.
-/

namespace StreamHive.Replication

open Verified ByteString Threads

variable {number : Nat}

/-! ## Peers -/

/-- A connection; two connections may have the same addresses at different times. -/
structure Peer where
  conn : Nat
  localAddr : Option String
  remoteAddr : String
  isOutbound : Bool
  deriving DecidableEq, Repr

def repairPeerKey (peer : Peer) : String :=
  peer.localAddr.getD "" ++ "\x00" ++ peer.remoteAddr ++ "\x00" ++
    (if peer.isOutbound then "outbound" else "inbound")

def Sample.remotePeer : Peer := ⟨0, none, "peer", true⟩

/-! ## The scheduler -/

structure InventoryExchangeEntry where
  number : Nat
  peer : Peer
  cursor : Bytes
  running : Bool
  scheduled : Bool
  deriving DecidableEq, Repr

/-- An exchange of an entry began at a cursor, or returned incomplete with the next. -/
inductive ExchangeEvent where
  | began (id : String) (number : Nat) (cursor : Bytes)
  | returned (id : String) (number : Nat) (next : Bytes)
  deriving DecidableEq, Repr

/-- The entries by key.  `log` are the exchanges so far, the latest first. -/
structure InventoryExchangeScheduler where
  cancelled : Bool
  entries : Std.ExtTreeMap String InventoryExchangeEntry compare
  made : Nat
  log : List ExchangeEvent

/-- A goroutine: what it does next.  `dropping` is `forgetID` after a failed exchange or
at the end of the context, `forgetting` is `Forget`. -/
inductive InventoryThread where
  | starting (peer : Peer)
  | entering (peer : Peer)
  | forgetting (id : String)
  | launched (id : String)
  | exchanging (id : String) (number : Nat) (peer : Peer) (cursor : Bytes)
  | storing (id : String) (number : Nat) (next : Bytes)
  | finishing (id : String)
  | dropping (id : String)
  | waiting (id : String)
  deriving DecidableEq, Repr

/-- What happens between two sections: the timer or the context, or the result of the
exchange. -/
inductive InventoryChoice where
  | proceed
  | cancel
  | failed
  | complete
  | limited (next : Bytes)
  deriving DecidableEq, Repr

namespace InventoryExchangeScheduler

/-- `newInventoryExchangeScheduler`. -/
def new : InventoryExchangeScheduler := ⟨false, ∅, 0, []⟩

variable (s : InventoryExchangeScheduler)

/-- The entry of a peer for `Start`. -/
def entryFor (peer : Peer) : InventoryExchangeEntry :=
  match s.entries[repairPeerKey peer]? with
  | some entry => { entry with peer := peer }
  | none => ⟨s.made, peer, [], false, false⟩

/-- The section of `Start`, with the goroutine that it launches. -/
def start (peer : Peer) :
    InventoryExchangeScheduler × List InventoryThread :=
  let id := repairPeerKey peer
  let entry := s.entryFor peer
  let made := if id ∈ s.entries then s.made else s.made + 1
  if !entry.running && !entry.scheduled then
    ({ s with made := made, entries := s.entries.insert id { entry with scheduled := true } },
      [.launched id])
  else
    ({ s with made := made, entries := s.entries.insert id entry }, [])

/-- `forgetID` and `finish`. -/
def forgetID (id : String) : InventoryExchangeScheduler :=
  { s with entries := s.entries.erase id }

/-- The first section of `run`. -/
def claim (id : String) :
    InventoryExchangeScheduler × List InventoryThread :=
  match s.entries[id]? with
  | none => (s, [])
  | some entry =>
    ({ s with
        entries := s.entries.insert id { entry with scheduled := false, running := true }
        log := .began id entry.number entry.cursor :: s.log },
      [.exchanging id entry.number entry.peer entry.cursor])

/-- The last section of `run`, after an incomplete exchange. -/
def store (id : String) (next : Bytes) :
    InventoryExchangeScheduler × List InventoryThread :=
  match s.entries[id]? with
  | none => (s, [])
  | some entry =>
    ({ s with
        entries := s.entries.insert id
          { entry with running := false, cursor := next, scheduled := true } },
      [.waiting id])

end InventoryExchangeScheduler

open InventoryExchangeScheduler in
def InventoryThread.next : Program InventoryChoice InventoryExchangeScheduler InventoryThread :=
  fun choice s th =>
  match th with
  | .starting peer => some (s, if s.cancelled then [] else [.entering peer])
  | .entering peer => some (s.start peer)
  | .forgetting id => some (s.forgetID id, [])
  | .launched id => some (s.claim id)
  | .exchanging id number _ _ =>
    match choice with
    | .failed => some (s, [.dropping id])
    | .complete => some (s, [.finishing id])
    | .limited next =>
      some ({ s with log := .returned id number next :: s.log }, [.storing id number next])
    | _ => none
  | .storing id _ next => some (s.store id next)
  | .finishing id => some (s.forgetID id, [])
  | .dropping id => some (s.forgetID id, [])
  | .waiting id =>
    match choice with
    | .proceed => some (s, [.launched id])
    | .cancel => if s.cancelled then some (s, [.dropping id]) else none
    | _ => none

/-! ## Runs -/

/-- The key of a goroutine that works for an entry. -/
def InventoryThread.worksFor? : InventoryThread → Option String
  | .launched id | .exchanging id _ _ _ | .storing id _ _ | .finishing id | .dropping id
  | .waiting id => some id
  | _ => none

def InventoryThread.worksFor (id : String) (th : InventoryThread) : Bool :=
  th.worksFor? = some id

/-- The goroutine is in `sendInventoryExchange` with the peer of the key. -/
def InventoryThread.exchanges (id : String) : InventoryThread → Bool
  | .exchanging id' _ _ _ => id' = id
  | _ => false

abbrev InventorySystem := Pool InventoryExchangeScheduler InventoryThread

/-- `Start` is called for a peer, from a connect callback or the ticker; `Forget` is
called; the context ends; or a goroutine runs. -/
inductive InventoryAction where
  | start (peer : Peer)
  | forget (peer : Peer)
  | cancel
  | run (i : Nat) (choice : InventoryChoice)
  deriving DecidableEq, Repr

/-- The peer for which the goroutine is about to enter the section of `Start`. -/
def InventoryThread.entering? : InventoryThread → Option Peer
  | .entering peer => some peer
  | _ => none

/-- The cursor that the last exchange of an entry returned. -/
def resumeCursor (id : String) (number : Nat) : List ExchangeEvent → Bytes
  | [] => []
  | .returned id' number' next :: earlier =>
    if id' = id ∧ number' = number then next else resumeCursor id number earlier
  | .began _ _ _ :: earlier => resumeCursor id number earlier

/-- Every exchange began with the cursor that the one before it of the same entry returned,
and the first of an entry with the empty one. -/
def Chained : List ExchangeEvent → Prop
  | [] => True
  | .began id number cursor :: earlier =>
    cursor = resumeCursor id number earlier ∧ Chained earlier
  | .returned _ _ _ :: earlier => Chained earlier

namespace InventorySystem

def new : InventorySystem := ⟨.new, []⟩

def step (s : InventorySystem) : InventoryAction → InventorySystem
  | .start peer => Pool.start s (.starting peer)
  | .forget peer => Pool.start s (.forgetting (repairPeerKey peer))
  | .cancel => ⟨{ s.shared with cancelled := true }, s.threads⟩
  | .run i choice => Pool.run InventoryThread.next s i choice

/-- No entry is made while a goroutine of an earlier one under the same key is at work. -/
def Apart (s : InventorySystem) : InventoryAction → Prop
  | .run i _ => ∀ peer ∈ s.threads[i]?.bind InventoryThread.entering?,
      repairPeerKey peer ∉ s.shared.entries →
        ∀ th ∈ s.threads, th.worksFor (repairPeerKey peer) = false
  | _ => True

instance (s : InventorySystem) : ∀ a : InventoryAction, Decidable (s.Apart a)
  | .start _ => isTrue trivial
  | .forget _ => isTrue trivial
  | .cancel => isTrue trivial
  | .run _ _ => inferInstanceAs (Decidable (∀ peer ∈ _, _ → ∀ th ∈ _, _))

end InventorySystem

/-! ## What a goroutine relies on -/

namespace InventoryExchangeScheduler

/-- The entries and the log are numbered, and the exchanges chained. -/
structure Valid (s : InventoryExchangeScheduler) : Prop where
  entries_lt : ∀ (id : String) entry, s.entries[id]? = some entry → entry.number < s.made
  log_lt : ∀ event ∈ s.log, ∀ id number cursor,
    event = .began id number cursor ∨ event = .returned id number cursor → number < s.made
  chained : Chained s.log

theorem Valid.new : Valid .new where
  entries_lt := by simp [InventoryExchangeScheduler.new]
  log_lt := by simp [InventoryExchangeScheduler.new]
  chained := trivial

/-- An entry that has had no exchange starts from the beginning. -/
theorem resumeCursor_eq_nil {id : String} {log : List ExchangeEvent}
    (h : ∀ event ∈ log, ∀ id number' cursor,
      event = .began id number' cursor ∨ event = .returned id number' cursor →
        number' < number) : resumeCursor id number log = [] := by
  induction log with
  | nil => rfl
  | cons event earlier ih =>
    have hearlier := ih fun event' hevent' => h event' (List.mem_cons_of_mem _ hevent')
    cases event with
    | began id' number' cursor => exact hearlier
    | returned id' number' next =>
      have hlt := h _ (List.mem_cons_self ..) id' number' next (.inr rfl)
      unfold resumeCursor
      rw [if_neg (fun hsame => by omega)]
      exact hearlier

/-- Nothing changes under a key, the peer of its entry apart. -/
structure Keeps (s s' : InventoryExchangeScheduler) (id : String) : Prop where
  entry : ∀ entry', s'.entries[id]? = some entry' →
    ∃ entry, s.entries[id]? = some entry ∧ entry' = { entry with peer := entry'.peer }
  log : ∀ number, resumeCursor id number s'.log = resumeCursor id number s.log
  made : s.made ≤ s'.made

variable {t t' : InventoryExchangeScheduler} {id : String}

theorem Keeps.refl (t : InventoryExchangeScheduler) (k : String) : t.Keeps t k :=
  ⟨fun entry hentry => ⟨entry, hentry, rfl⟩, fun _ => rfl, Nat.le_refl _⟩

theorem keeps_forgetID (t : InventoryExchangeScheduler) (id k : String) :
    t.Keeps (t.forgetID id) k := by
  refine ⟨fun entry hentry => ?_, fun _ => rfl, Nat.le_refl _⟩
  unfold forgetID at hentry
  rw [Table.getElem?_erase_of_lawful] at hentry
  split at hentry
  · cases hentry
  · exact ⟨entry, hentry, rfl⟩

theorem Valid.forgetID (h : t.Valid) (id : String) : (t.forgetID id).Valid where
  entries_lt := by
    intro k entry hentry
    obtain ⟨entry₀, hentry₀, heq⟩ := (keeps_forgetID t id k).entry entry hentry
    rw [heq]
    exact h.entries_lt k entry₀ hentry₀
  log_lt := h.log_lt
  chained := h.chained

theorem notMem_forgetID (t : InventoryExchangeScheduler) (id : String) :
    id ∉ (t.forgetID id).entries := by
  unfold InventoryExchangeScheduler.forgetID
  simp

/-- An entry is written, and perhaps an exchange logged, under one key. -/
theorem keeps_insert {k : String} (hk : k ≠ id) (entry : InventoryExchangeEntry)
    (hentries : t'.entries = t.entries.insert id entry) (hmade : t.made ≤ t'.made)
    (hlog : ∀ number, resumeCursor k number t'.log = resumeCursor k number t.log) :
    t.Keeps t' k := by
  refine ⟨fun entry' hentry' => ?_, hlog, hmade⟩
  rw [hentries, Table.getElem?_insert_of_lawful, if_neg hk] at hentry'
  exact ⟨entry', hentry', rfl⟩

theorem Valid.insert (h : t.Valid) {entry : InventoryExchangeEntry}
    (hentries : t'.entries = t.entries.insert id entry) (hmade : t.made ≤ t'.made)
    (hnumber : entry.number < t'.made) (hlog : t'.log = t.log) : t'.Valid where
  entries_lt := by
    intro k entry' hentry'
    rw [hentries, Table.getElem?_insert_of_lawful] at hentry'
    split at hentry'
    · cases hentry'
      exact hnumber
    · exact Nat.lt_of_lt_of_le (h.entries_lt k entry' hentry') hmade
  log_lt := by
    rw [hlog]
    intro event hevent k number cursor hcase
    exact Nat.lt_of_lt_of_le (h.log_lt event hevent k number cursor hcase) hmade
  chained := by
    rw [hlog]
    exact h.chained

/-- An exchange of the entry begins where the one before it returned. -/
theorem Valid.began (h : t.Valid) {cursor : Bytes} (hnumber : number < t.made)
    (hcursor : cursor = resumeCursor id number t.log) :
    Valid { t with log := .began id number cursor :: t.log } where
  entries_lt := h.entries_lt
  log_lt := by
    refine List.forall_mem_cons.mpr ⟨fun k number' cursor' hcase => ?_, h.log_lt⟩
    rcases hcase with hcase | hcase <;> cases hcase
    exact hnumber
  chained := ⟨hcursor, h.chained⟩

theorem Valid.returned (h : t.Valid) (hnumber : number < t.made) (next : Bytes) :
    Valid { t with log := .returned id number next :: t.log } where
  entries_lt := h.entries_lt
  log_lt := by
    refine List.forall_mem_cons.mpr ⟨fun k number' cursor' hcase => ?_, h.log_lt⟩
    rcases hcase with hcase | hcase <;> cases hcase
    exact hnumber
  chained := h.chained

/-- `Start` finds an entry, which is busy, or makes one and launches its goroutine. -/
theorem start_cases (t : InventoryExchangeScheduler) (peer : Peer) :
    (∃ entry, t.entries[repairPeerKey peer]? = some entry ∧
      (entry.running = true ∨ entry.scheduled = true →
        t.start peer = ({ t with
          entries := t.entries.insert (repairPeerKey peer) { entry with peer := peer } }, []))) ∨
    (t.entries[repairPeerKey peer]? = none ∧
      t.start peer = ({ t with
          made := t.made + 1
          entries := t.entries.insert (repairPeerKey peer) ⟨t.made, peer, [], false, true⟩ },
        [.launched (repairPeerKey peer)])) := by
  unfold InventoryExchangeScheduler.start entryFor
  cases hentry : t.entries[repairPeerKey peer]? with
  | some entry =>
    refine .inl ⟨entry, rfl, fun hbusy => ?_⟩
    have hmem : repairPeerKey peer ∈ t.entries := Table.mem_iff_exists.mpr ⟨entry, hentry⟩
    have hcond : (!entry.running && !entry.scheduled) = false := by
      rcases hbusy with hbusy | hbusy <;> simp [hbusy]
    simp only [hcond, if_pos hmem, Bool.false_eq_true, if_false]
  | none =>
    refine .inr ⟨rfl, ?_⟩
    simp only [if_neg (Table.notMem_of_none hentry)]
    rfl

end InventoryExchangeScheduler

namespace InventoryThread

variable {s s' : InventoryExchangeScheduler} {id : String} {th : InventoryThread}

/-- A goroutine that works for an entry is the one that the entry speaks of. -/
def Fits (s : InventoryExchangeScheduler) : InventoryThread → Prop
  | .launched id | .waiting id => ∀ entry, s.entries[id]? = some entry →
      entry.scheduled = true ∧ entry.cursor = resumeCursor id entry.number s.log
  | .exchanging id number _ _ => number < s.made ∧
      ∀ entry, s.entries[id]? = some entry → entry.running = true ∧ entry.number = number
  | .storing id number next => ∀ entry, s.entries[id]? = some entry →
      entry.running = true ∧ entry.number = number ∧ next = resumeCursor id number s.log
  | .finishing id | .dropping id => ∀ entry, s.entries[id]? = some entry →
      entry.running = true ∨ entry.scheduled = true
  | _ => True

/-- What happens under other keys does not matter. -/
theorem Fits.keeps (h : th.Fits s) (hkeeps : ∀ id, th.worksFor? = some id → s.Keeps s' id) :
    th.Fits s' := by
  cases th with
  | starting peer | entering peer | forgetting id => trivial
  | launched id | waiting id | storing id number next =>
    intro entry' hentry'
    obtain ⟨entry, hentry, heq⟩ := (hkeeps id rfl).entry entry' hentry'
    rw [heq, (hkeeps id rfl).log]
    exact h entry hentry
  | exchanging id number peer cursor =>
    refine ⟨Nat.lt_of_lt_of_le h.1 (hkeeps id rfl).made, fun entry' hentry' => ?_⟩
    obtain ⟨entry, hentry, heq⟩ := (hkeeps id rfl).entry entry' hentry'
    rw [heq]
    exact h.2 entry hentry
  | finishing id | dropping id =>
    intro entry' hentry'
    obtain ⟨entry, hentry, heq⟩ := (hkeeps id rfl).entry entry' hentry'
    rw [heq]
    exact h entry hentry

/-- An entry with a goroutine at work is running or scheduled. -/
theorem Fits.busy (h : th.Fits s) (hid : th.worksFor? = some id) {entry : InventoryExchangeEntry}
    (hentry : s.entries[id]? = some entry) : entry.running = true ∨ entry.scheduled = true := by
  cases th with
  | starting peer | entering peer | forgetting id => cases hid
  | launched id | waiting id =>
    cases hid
    exact .inr (h entry hentry).1
  | exchanging id number peer cursor =>
    cases hid
    exact .inl (h.2 entry hentry).1
  | storing id number next =>
    cases hid
    exact .inl (h entry hentry).1
  | finishing id | dropping id =>
    cases hid
    exact h entry hentry

end InventoryThread

/-! ## Steps -/

namespace InventorySystem

open InventoryExchangeScheduler

/-- The goroutines at work under a key. -/
def workers (id : String) (threads : List InventoryThread) : Nat :=
  count (InventoryThread.worksFor id) threads

/-- Every entry has one goroutine at work, under no key there are two, and each is the one
that its entry speaks of. -/
structure Exclusive (s : InventorySystem) : Prop where
  valid : s.shared.Valid
  fits : ∀ th ∈ s.threads, th.Fits s.shared
  single : ∀ id, workers id s.threads ≤ 1
  owned : ∀ id ∈ s.shared.entries, 0 < workers id s.threads

theorem Exclusive.new : Exclusive .new where
  valid := .new
  fits := by simp [InventorySystem.new]
  single := fun id => by simp [InventorySystem.new, workers]
  owned := by simp [InventorySystem.new, InventoryExchangeScheduler.new]

variable {s : InventorySystem} {t t' : InventoryExchangeScheduler} {id : String}
  {before after ts : List InventoryThread} {th : InventoryThread}

section Steps

variable (h : Exclusive ⟨t, before ++ th :: after⟩)
include h

/-- A step of the goroutine at work under a key, which touches that key only. -/
theorem Exclusive.work (hth : th.worksFor? = some id)
    (ht' : t'.Valid) (hkeeps : ∀ k, k ≠ id → t.Keeps t' k)
    (hts : ∀ u ∈ ts, u.worksFor? = some id ∧ u.Fits t')
    (hlength : ts.length ≤ 1) (howned : id ∈ t'.entries → ts ≠ []) :
    Exclusive ⟨t', before ++ ts ++ after⟩ := by
  have hself : workers id (before ++ ts ++ after) + 1 =
      workers id (before ++ th :: after) + ts.length :=
    count_replace_true before after (decide_eq_true hth)
      fun u hu => decide_eq_true (hts u hu).1
  have hother : ∀ k, k ≠ id → workers k (before ++ ts ++ after) =
      workers k (before ++ th :: after) := by
    intro k hk
    refine count_replace_false before after (decide_eq_false ?_) fun u hu =>
      decide_eq_false ?_
    · rw [hth]
      exact fun heq => hk (Option.some.inj heq).symm
    · rw [(hts u hu).1]
      exact fun heq => hk (Option.some.inj heq).symm
  have hsingle : ∀ k, workers k (before ++ th :: after) ≤ 1 := h.single
  refine ⟨ht', ?_, ?_, ?_⟩
  · refine forall_replace h.fits ?_ fun u hu => (hts u hu).2
    intro u hu hfits
    refine hfits.keeps fun k hk => hkeeps k ?_
    rintro rfl
    have hfalse := eq_false_of_count_le (hsingle k) (decide_eq_true hth) hu
    exact of_decide_eq_false hfalse hk
  · intro k
    show workers k (before ++ ts ++ after) ≤ 1
    by_cases hk : k = id
    · subst hk
      have hold := hsingle k
      omega
    · rw [hother k hk]
      exact hsingle k
  · intro k hmem
    show 0 < workers k (before ++ ts ++ after)
    by_cases hk : k = id
    · subst hk
      have hpos : 0 < ts.length := List.length_pos_iff.mpr (howned hmem)
      have hold : 0 < workers k (before ++ th :: after) := by
        unfold workers
        rw [count_append, count_cons, if_pos (show th.worksFor k = true from decide_eq_true hth)]
        omega
      omega
    · rw [hother k hk]
      obtain ⟨entry', hentry'⟩ := Table.mem_iff_exists.mp hmem
      obtain ⟨entry, hentry, _⟩ := (hkeeps k hk).entry entry' hentry'
      exact h.owned k (Table.mem_iff_exists.mpr ⟨entry, hentry⟩)

/-- A step of a goroutine that is not at work under any key, and starts none that is. -/
theorem Exclusive.visit (hth : th.worksFor? = none)
    (ht' : t'.Valid) (hkeeps : ∀ k, t.Keeps t' k) (hts : ∀ u ∈ ts, u.worksFor? = none) :
    Exclusive ⟨t', before ++ ts ++ after⟩ := by
  have hsame : ∀ k, workers k (before ++ ts ++ after) = workers k (before ++ th :: after) := by
    intro k
    refine count_replace_false before after (decide_eq_false ?_) fun u hu =>
      decide_eq_false ?_
    · rw [hth]
      exact fun heq => nomatch heq
    · rw [hts u hu]
      exact fun heq => nomatch heq
  refine ⟨ht', ?_, ?_, ?_⟩
  · refine forall_replace h.fits (fun u _ hfits => hfits.keeps fun k _ => hkeeps k) ?_
    intro u hu
    have hnone := hts u hu
    cases u <;> trivial
  · intro k
    show workers k (before ++ ts ++ after) ≤ 1
    rw [hsame k]
    exact h.single k
  · intro k hmem
    show 0 < workers k (before ++ ts ++ after)
    rw [hsame k]
    obtain ⟨entry', hentry'⟩ := Table.mem_iff_exists.mp hmem
    obtain ⟨entry, hentry, _⟩ := (hkeeps k).entry entry' hentry'
    exact h.owned k (Table.mem_iff_exists.mpr ⟨entry, hentry⟩)

/-- The goroutine forgets or finishes its entry and ends. -/
theorem Exclusive.ends (hth : th.worksFor? = some id) :
    Exclusive ⟨t.forgetID id, before ++ [] ++ after⟩ := by
  refine h.work hth (h.valid.forgetID id) (fun k _ => keeps_forgetID t id k) ?_ (by simp) ?_
  · intro u hu
    cases hu
  · intro hmem
    exact absurd hmem (notMem_forgetID t id)

/-- The goroutine goes on without a change of the scheduler. -/
theorem Exclusive.moves (hth : th.worksFor? = some id)
    {u : InventoryThread} (hu : u.worksFor? = some id) (hfits : u.Fits t) :
    Exclusive ⟨t, before ++ [u] ++ after⟩ := by
  refine h.work hth h.valid (fun k _ => Keeps.refl t k) ?_ (by simp) (by simp)
  intro u' hu'
  rw [List.mem_singleton.mp hu']
  exact ⟨hu, hfits⟩

/-- The goroutine finds its entry forgotten. -/
theorem Exclusive.leaves (hth : th.worksFor? = some id) (hnone : t.entries[id]? = none) :
    Exclusive ⟨t, before ++ [] ++ after⟩ := by
  refine h.work hth h.valid (fun k _ => Keeps.refl t k) ?_ (by simp) ?_
  · intro u hu
    cases hu
  · intro hmem
    exact absurd hmem (Table.notMem_of_none hnone)

end Steps

theorem Exclusive.claim (h : Exclusive ⟨t, before ++ .launched id :: after⟩) :
    Exclusive ⟨(t.claim id).1, before ++ (t.claim id).2 ++ after⟩ := by
  have hfits : InventoryThread.Fits t (.launched id) := h.fits _ (by simp)
  unfold InventoryExchangeScheduler.claim
  cases hentry : t.entries[id]? with
  | none => exact h.leaves rfl hentry
  | some entry =>
    have hnumber := h.valid.entries_lt id entry hentry
    have hlogged := h.valid.began hnumber (hfits entry hentry).2
    refine h.work rfl (hlogged.insert rfl (Nat.le_refl _) hnumber rfl) ?_ ?_ (by simp) (by simp)
    · intro k hk
      exact keeps_insert hk _ rfl (Nat.le_refl _) fun _ => rfl
    · intro u hu
      rw [List.mem_singleton.mp hu]
      refine ⟨rfl, hnumber, fun entry' hentry' => ?_⟩
      rw [Table.getElem?_insert_of_lawful, if_pos rfl] at hentry'
      cases hentry'
      exact ⟨rfl, rfl⟩

theorem Exclusive.returned {peer : Peer} {cursor : Bytes}
    (h : Exclusive ⟨t, before ++ .exchanging id number peer cursor :: after⟩) (next : Bytes) :
    Exclusive ⟨{ t with log := .returned id number next :: t.log },
      before ++ [.storing id number next] ++ after⟩ := by
  have hfits : InventoryThread.Fits t (.exchanging id number peer cursor) := h.fits _ (by simp)
  refine h.work rfl (h.valid.returned hfits.1 next) ?_ ?_ (by simp) (by simp)
  · intro k hk
    refine ⟨fun entry hentry => ⟨entry, hentry, rfl⟩, fun number' => ?_, Nat.le_refl _⟩
    exact if_neg fun hsame => hk hsame.1.symm
  · intro u hu
    rw [List.mem_singleton.mp hu]
    refine ⟨rfl, fun entry hentry => ?_⟩
    obtain ⟨hrunning, hnumber⟩ := hfits.2 entry hentry
    exact ⟨hrunning, hnumber, (if_pos ⟨rfl, rfl⟩).symm⟩

theorem Exclusive.store {next : Bytes}
    (h : Exclusive ⟨t, before ++ .storing id number next :: after⟩) :
    Exclusive ⟨(t.store id next).1, before ++ (t.store id next).2 ++ after⟩ := by
  have hfits : InventoryThread.Fits t (.storing id number next) := h.fits _ (by simp)
  unfold InventoryExchangeScheduler.store
  cases hentry : t.entries[id]? with
  | none => exact h.leaves rfl hentry
  | some entry =>
    have hnumber := h.valid.entries_lt id entry hentry
    obtain ⟨_, hsame, hnext⟩ := hfits entry hentry
    refine h.work rfl (h.valid.insert rfl (Nat.le_refl _) hnumber rfl) ?_ ?_ (by simp) (by simp)
    · intro k hk
      exact keeps_insert hk _ rfl (Nat.le_refl _) fun _ => rfl
    · intro u hu
      rw [List.mem_singleton.mp hu]
      refine ⟨rfl, fun entry' hentry' => ?_⟩
      rw [Table.getElem?_insert_of_lawful, if_pos rfl] at hentry'
      cases hentry'
      exact ⟨rfl, by rw [hsame]; exact hnext⟩

theorem Exclusive.enter {peer : Peer} (h : Exclusive ⟨t, before ++ .entering peer :: after⟩)
    (hapart : repairPeerKey peer ∉ t.entries → ∀ th ∈ before ++ .entering peer :: after,
      th.worksFor (repairPeerKey peer) = false) :
    Exclusive ⟨(t.start peer).1, before ++ (t.start peer).2 ++ after⟩ := by
  rcases start_cases t peer with ⟨entry, hentry, hstart⟩ | ⟨hnone, hstart⟩
  · -- the goroutine of the entry shows that the entry is busy
    have hpos := h.owned _ (Table.mem_iff_exists.mpr ⟨entry, hentry⟩)
    obtain ⟨worker, hworker, hworks⟩ := exists_of_count_pos hpos
    have hbusy := (h.fits worker hworker).busy (of_decide_eq_true hworks) hentry
    rw [hstart hbusy]
    have hnumber := h.valid.entries_lt _ entry hentry
    refine h.visit rfl (h.valid.insert rfl (Nat.le_refl _) hnumber rfl) ?_ (by simp)
    intro k
    refine ⟨fun entry' hentry' => ?_, fun _ => rfl, Nat.le_refl _⟩
    rw [Table.getElem?_insert_of_lawful] at hentry'
    split at hentry'
    · next hk =>
        cases hentry'
        exact ⟨entry, by rw [hk]; exact hentry, rfl⟩
    · exact ⟨entry', hentry', rfl⟩
  · have hidle := hapart (Table.notMem_of_none hnone)
    have hzero : workers (repairPeerKey peer) (before ++ .entering peer :: after) = 0 :=
      count_eq_zero hidle
    have hcount : ∀ k, workers k (before ++ [.launched (repairPeerKey peer)] ++ after) =
        workers k (before ++ .entering peer :: after) +
          if repairPeerKey peer = k then 1 else 0 := by
      intro k
      have hreplace := count_replace before after [.launched (repairPeerKey peer)]
        (.entering peer) (p := InventoryThread.worksFor k)
      simpa [workers, InventoryThread.worksFor, InventoryThread.worksFor?] using hreplace
    have hsingle : ∀ k, workers k (before ++ .entering peer :: after) ≤ 1 := h.single
    rw [hstart]
    refine ⟨h.valid.insert rfl (Nat.le_succ _) (Nat.lt_succ_self _) rfl, ?_, ?_, ?_⟩
    · refine forall_replace h.fits ?_ ?_
      · intro u hu hfits
        refine hfits.keeps fun k hk => keeps_insert ?_ _ rfl (Nat.le_succ _) fun _ => rfl
        rintro rfl
        have hu' : u ∈ before ++ .entering peer :: after := by
          rcases List.mem_append.mp hu with hu | hu <;> simp [hu]
        exact of_decide_eq_false (hidle u hu') hk
      · intro u hu
        rw [List.mem_singleton.mp hu]
        intro entry' hentry'
        rw [Table.getElem?_insert_of_lawful, if_pos rfl] at hentry'
        cases hentry'
        exact ⟨rfl, (resumeCursor_eq_nil h.valid.log_lt).symm⟩
    · intro k
      show workers k (before ++ [.launched (repairPeerKey peer)] ++ after) ≤ 1
      rw [hcount k]
      by_cases hk : repairPeerKey peer = k
      · rw [if_pos hk, ← hk, hzero]
      · rw [if_neg hk]
        exact hsingle k
    · intro k hk
      show 0 < workers k (before ++ [.launched (repairPeerKey peer)] ++ after)
      rw [hcount k]
      by_cases hid : repairPeerKey peer = k
      · rw [if_pos hid]
        exact Nat.succ_pos _
      · rw [if_neg hid]
        obtain ⟨entry', hentry'⟩ := Table.mem_iff_exists.mp hk
        rw [Table.getElem?_insert_of_lawful, if_neg (Ne.symm hid)] at hentry'
        exact h.owned k (Table.mem_iff_exists.mpr ⟨entry', hentry'⟩)

/-- A new goroutine that is not at work under any key. -/
theorem Exclusive.start (h : s.Exclusive) (hth : th.worksFor? = none) :
    Exclusive (Pool.start s th) := by
  have hsame : ∀ k, workers k (s.threads ++ [th]) = workers k s.threads := by
    intro k
    simp [workers, InventoryThread.worksFor, hth]
  refine ⟨h.valid, ?_, ?_, ?_⟩
  · intro u hu
    rcases List.mem_append.mp hu with hu | hu
    · exact h.fits u hu
    · rw [List.mem_singleton.mp hu]
      cases th <;> trivial
  · intro k
    have hold := h.single k
    exact (hsame k).symm ▸ hold
  · intro k hk
    have hold := h.owned k hk
    exact (hsame k).symm ▸ hold

/-- A goroutine's step. -/
theorem Exclusive.next (h : Exclusive ⟨t, before ++ th :: after⟩) {choice : InventoryChoice}
    (hnext : th.next choice t = some (t', ts))
    (hapart : ∀ peer, th = .entering peer → repairPeerKey peer ∉ t.entries →
      ∀ u ∈ before ++ th :: after, u.worksFor (repairPeerKey peer) = false) :
    Exclusive ⟨t', before ++ ts ++ after⟩ := by
  have hfits : th.Fits t := h.fits th (by simp)
  cases th with
  | starting peer =>
    cases hnext
    refine h.visit rfl h.valid (Keeps.refl t) fun u hu => ?_
    split at hu
    · cases hu
    · rw [List.mem_singleton.mp hu]
      rfl
  | entering peer =>
    have hafter := h.enter (hapart peer rfl)
    rwa [Option.some.inj hnext] at hafter
  | forgetting id =>
    cases hnext
    exact h.visit rfl (h.valid.forgetID id) (keeps_forgetID t id) (by simp)
  | launched id =>
    have hafter := h.claim
    rwa [Option.some.inj hnext] at hafter
  | exchanging id number peer cursor =>
    cases choice with
    | proceed | cancel => cases hnext
    | failed | complete =>
      cases hnext
      exact h.moves rfl rfl fun entry hentry => .inl (hfits.2 entry hentry).1
    | limited next =>
      cases hnext
      exact h.returned next
  | storing id number next =>
    have hafter := h.store
    rwa [Option.some.inj hnext] at hafter
  | finishing id | dropping id =>
    cases hnext
    exact h.ends rfl
  | waiting id =>
    cases choice with
    | proceed =>
      cases hnext
      exact h.moves rfl rfl hfits
    | cancel =>
      simp only [InventoryThread.next] at hnext
      split at hnext
      · cases hnext
        exact h.moves rfl rfl fun entry hentry => .inr (hfits entry hentry).1
      · cases hnext
    | failed | complete | limited next => cases hnext

/-- What every step keeps, if no entry is made while a goroutine of an earlier one under
the same key is at work. -/
theorem Exclusive.step (h : s.Exclusive) {a : InventoryAction} (hapart : s.Apart a) :
    (s.step a).Exclusive := by
  cases a with
  | start peer | forget peer => exact h.start rfl
  | cancel =>
    refine ⟨⟨h.valid.entries_lt, h.valid.log_lt, h.valid.chained⟩, ?_, h.single, h.owned⟩
    intro th hth
    refine (h.fits th hth).keeps fun k _ => ?_
    exact ⟨fun entry hentry => ⟨entry, hentry, rfl⟩, fun _ => rfl, Nat.le_refl _⟩
  | run i choice =>
    show Exclusive (Pool.run InventoryThread.next s i choice)
    rcases Pool.run_cases InventoryThread.next s i choice with hsame |
      ⟨before, th, after, t', ts, hsplit, hget, hnext, hrun⟩
    · rw [hsame]
      exact h
    rw [hrun]
    have hthreads : s.threads = before ++ th :: after := congrArg Pool.threads hsplit
    rw [hsplit] at h
    refine h.next hnext fun peer hpeer hmem u hu => ?_
    rw [← hthreads] at hu
    refine hapart peer ?_ hmem u hu
    rw [hget, hpeer]
    rfl

/-- At most one exchange is under way with the peer of a key, and every exchange goes on
from where the one before it of the same entry stopped, in every state of a run in which
no entry is made while a goroutine of an earlier one under the same key is at work. -/
theorem inventory_exchanges_exclusive (actions : List InventoryAction)
    (h : Transition.Along step Apart new actions) :
    (∀ id, count (InventoryThread.exchanges id) (Transition.run step new actions).threads ≤ 1) ∧
      Chained (Transition.run step new actions).shared.log := by
  have hend : Exclusive (Transition.run step new actions) :=
    Transition.run_invariant (I := Exclusive) (fun s a hapart hs => hs.step hapart) h .new
  refine ⟨fun id => ?_, hend.valid.chained⟩
  refine Nat.le_trans (total_mono (fun th => ?_) _) (hend.single id)
  cases th <;> simp [InventoryThread.exchanges, InventoryThread.worksFor, InventoryThread.worksFor?]

namespace Sample

/-- `Start` is called, and its goroutine, in the given place, begins an exchange. -/
def begins (i : Nat) : List InventoryAction :=
  [.start Sample.remotePeer, .run i .proceed, .run i .proceed, .run i .proceed]

/-- The peer is forgotten while its exchange is under way, and started again from an older
list.  The first exchange then returns, and its timer fires. -/
def restarted : List InventoryAction :=
  begins 0 ++ [.forget Sample.remotePeer, .run 1 .proceed] ++ begins 1 ++
    [.run 0 (.limited [5]), .run 0 .proceed, .run 0 .proceed, .run 0 .proceed]

/-- An exchange is cut short and goes on after a while. -/
def resumed : List InventoryAction :=
  begins 0 ++ [.run 0 (.limited [5]), .run 0 .proceed, .run 0 .proceed, .run 0 .proceed,
    .run 0 .complete, .run 0 .proceed] ++ begins 0

end Sample

/-- Two exchanges are under way.  The second of the new entry began at the cursor of the
old one. -/
theorem forgotten_exchange_overlaps :
    count (InventoryThread.exchanges (repairPeerKey Sample.remotePeer))
        (Transition.run step new Sample.restarted).threads = 2 ∧
      (Transition.run step new Sample.restarted).shared.log =
        [.began (repairPeerKey Sample.remotePeer) 1 [5],
          .returned (repairPeerKey Sample.remotePeer) 0 [5],
          .began (repairPeerKey Sample.remotePeer) 1 [],
          .began (repairPeerKey Sample.remotePeer) 0 []] ∧
      ¬Chained (Transition.run step new Sample.restarted).shared.log := by
  have hlog : (Transition.run step new Sample.restarted).shared.log =
        [.began (repairPeerKey Sample.remotePeer) 1 [5],
          .returned (repairPeerKey Sample.remotePeer) 0 [5],
          .began (repairPeerKey Sample.remotePeer) 1 [],
          .began (repairPeerKey Sample.remotePeer) 0 []] := by
    decide +kernel
  refine ⟨by decide +kernel, hlog, ?_⟩
  rw [hlog]
  rintro ⟨hcursor, _⟩
  revert hcursor
  decide +kernel

theorem inventory_exchanges_exclusive_sample :
    Transition.Along step Apart new Sample.resumed ∧
      Chained (Transition.run step new Sample.resumed).shared.log := by
  have hapart : Transition.Along step Apart new Sample.resumed := by
    decide +kernel
  exact ⟨hapart, (inventory_exchanges_exclusive Sample.resumed hapart).2⟩

end InventorySystem

end StreamHive.Replication

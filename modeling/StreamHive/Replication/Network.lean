import StreamHive.Replication.Delivery
import StreamHive.Replication.InventoryRun

/-!
# A network of nodes

Any number of nodes exchange replication messages.  The network delivers any
payload to any node at any time: messages that were sent, in any order, any number
of times or not at all, and payloads that no node ever sent.  Calls of a node may
fail in any way.

## Main result

* `content_addressing_preserved` — over every run, stores keep only matching data
  under 32-byte keys and never lose or change it, and nodes write only honest
  frames.
-/

namespace StreamHive.Replication

open Verified.ByteString Verified.Effect
open StreamHive.Lifecycle (Error Oracle Faults Stdlib sha256Size ctxErr ctxErr_triple
  syscall_triple perform_triple goStdlib)

/-! ## Advertisements under faults -/

/-- Only advertisements were written. -/
def OnlyHas (limits : Limits) (out : List Bytes) : Prop :=
  ∀ payload ∈ out, ∃ keys, encodeBlobHas keys limits = .ok payload

section Advertise

variable {F : Faults} {cfg : Config}

theorem OnlyHas.concat {limits : Limits} {out : List Bytes} (h : OnlyHas limits out)
    {keys : List Bytes} {payload : Bytes} (hencode : encodeBlobHas keys limits = .ok payload) :
    OnlyHas limits (out ++ [payload]) := by
  intro p hp
  rcases List.mem_append.mp hp with hp | hp
  · exact h p hp
  · rw [List.mem_singleton.mp hp]
    exact ⟨keys, hencode⟩

theorem fitFrame_onlyHas (o : Oracle) (s : Position) (fuel n : Nat) :
    Preserves (OnlyHas cfg.limits) (fitFrame o cfg s fuel n) := by
  induction fuel generalizing n with
  | zero => exact Triple.throw fun _ h => h
  | succ fuel ih =>
    unfold fitFrame
    refine Triple.bind (ctxErr_triple _ _ _) ?_
    intro _
    refine Triple.bind (Triple.attempt fun _ _ h _ => h) ?_
    intro payload
    apply Triple.fact
    intro hencode
    by_cases hlong : (payload.length : Int) > cfg.maxPayload
    · rw [if_pos hlong]
      split
      · exact Triple.throw fun _ h => h
      · exact ih (n / 2)
    rw [if_neg hlong]
    split
    · exact ih (n / 2)
    split
    · exact Triple.pure fun _ h => h
    · have hwrite : Preserves (OnlyHas cfg.limits)
          (writePeerFrame o payload cfg.maxFrameBytes) := by
        unfold writePeerFrame writeFrameTo
        refine Triple.bind (Triple.raiseIf fun _ h _ => h) ?_
        intro _ out hout
        have hperform := perform_triple o .writeFrame (fun out => out ++ [payload]) out
        apply hperform.weaken (fun _ ht => ht) ?_ ?_ out rfl
        · intro _ t ht
          rw [ht]
          exact hout.1.concat hencode
        · intro _ t ht
          rcases ht with rfl | rfl
          · exact hout.1
          · exact hout.1.concat hencode
      refine Triple.bind hwrite ?_
      intro _
      exact Triple.pure fun _ h => h

theorem sendKeys_onlyHas (page fuel : Nat) (s : Position) (cursor : Bytes) :
    Preserves (OnlyHas cfg.limits) (sendKeys F cfg page fuel s cursor) := by
  induction fuel generalizing s cursor with
  | zero => exact Triple.throw fun _ h => h
  | succ fuel ih =>
    unfold sendKeys
    split
    · exact Triple.pure fun _ h => h
    split
    · exact Triple.pure fun _ h => h
    split
    · exact Triple.bind (ctxErr_triple _ _ _) fun _ => Triple.throw fun _ h => h
    · refine Triple.bind (fitFrame_onlyHas _ _ _ _) ?_
      intro sent
      cases sent with
      | none => exact Triple.pure fun _ h => h
      | some sent => exact ih _ _

theorem listKeyPage_onlyHas (lister : Lister) (o : Oracle) (after : Bytes) (limit : Int)
    (limits : Limits) :
    Preserves (OnlyHas limits) (lister.listKeyPage o after limit) := by
  unfold Lister.listKeyPage
  refine Triple.bind (syscall_triple o .listKeys _) ?_
  intro _
  exact Triple.pure fun _ h => h

theorem sendPages_onlyHas (lister : Lister) (fuel page : Nat) (cursor : Bytes)
    (sentKeys sentBytes : Nat) :
    Preserves (OnlyHas cfg.limits)
      (sendPages F cfg lister fuel page cursor sentKeys sentBytes) := by
  induction fuel generalizing page cursor sentKeys sentBytes with
  | zero => exact Triple.throw fun _ h => h
  | succ fuel ih =>
    unfold sendPages
    refine Triple.bind (ctxErr_triple _ _ _) ?_
    intro _
    split
    · exact Triple.pure fun _ h => h
    refine Triple.bind (listKeyPage_onlyHas lister _ _ _ _) ?_
    intro listed
    simp only
    split
    · exact Triple.pure fun _ h => h
    refine Triple.bind (Triple.raiseIf fun _ h _ => h) ?_
    intro _
    apply Triple.fact
    intro _
    refine Triple.bind (Triple.raiseIf fun _ h _ => h) ?_
    intro _
    apply Triple.fact
    intro _
    refine Triple.bind (sendKeys_onlyHas _ _ _ _) ?_
    intro sent
    split
    · exact ih _ _ _ _
    · exact Triple.pure fun _ h => h

/-- Whatever fails, an exchange writes only advertisements. -/
theorem sendInventoryExchange_onlyHas (lister : Lister) (after : Bytes) :
    Preserves (OnlyHas cfg.limits) (sendInventoryExchange F cfg lister after) := by
  unfold sendInventoryExchange
  split
  · exact sendPages_onlyHas lister _ _ _ _ _
  · refine Triple.bind (syscall_triple _ _ _) ?_
    intro _
    simp only
    split
    · exact Triple.pure fun _ h => h
    · refine Triple.bind (sendKeys_onlyHas _ _ _ _) ?_
      intro _
      exact Triple.pure fun _ h => h

end Advertise

/-! ## The network -/

/-- The nodes, each with the frames that it wrote. -/
abbrev Network (ι : Type) := ι → Endpoint

/-- What may happen at a node. -/
inductive NetworkEvent (ι : Type) where
  /-- a payload arrives and is handled -/
  | deliver (node : ι) (F : Faults) (payload : Bytes)
  /-- a payload is applied to the store directly -/
  | apply (node : ι) (F : Faults) (payload : Bytes)
  /-- the node advertises its keys -/
  | advertise (node : ι) (F : Faults) (budget : InventoryExchangeBudget) (after : Bytes)
  /-- the node takes up a repair that it deferred -/
  | resume (node : ι) (F : Faults) (keys : List Bytes)

/-- Write the frames of an exchange. -/
def Endpoint.advertise (F : Faults) (cfg : Config) (after : Bytes) (s : Endpoint) : Endpoint :=
  { s with outbox := s.outbox ++
      (finalState (sendInventoryExchange F cfg s.store.lister after [])).map (⟨·, s.store⟩) }

section Run

variable {ι : Type} [DecidableEq ι]

def Network.step (S : Stdlib) (C : Codec) (bounds : ι → Bounds) (net : Network ι) :
    NetworkEvent ι → Network ι
  | .deliver i F payload =>
    Function.update net i (finalState (receive S C F (bounds i) payload (net i)))
  | .apply i F payload =>
    Function.update net i (finalState
      (Replication.apply S C F (bounds i).limits payload (net i)))
  | .advertise i F budget after =>
    Function.update net i ((net i).advertise F
      ⟨(bounds i).limits, (bounds i).maxFrameBytes, budget⟩ after)
  | .resume i F keys =>
    Function.update net i (finalState
      (sendRequestedBlobsResult S F (bounds i) true 0 keys 0 (net i)))

def Network.run (S : Stdlib) (C : Codec) (bounds : ι → Bounds) (net : Network ι)
    (events : List (NetworkEvent ι)) : Network ι :=
  events.foldl (Network.step S C bounds) net

/-- The message that an event brings to its node. -/
def NetworkEvent.message (C : Codec) (bounds : ι → Bounds) : NetworkEvent ι → Option Message
  | .deliver i _ payload | .apply i _ payload =>
    match decode C payload (bounds i).limits with
    | .ok m => some m
    | .error _ => none
  | .advertise .. | .resume .. => none

variable {S : Stdlib} {C : Codec} {bounds : ι → Bounds}

theorem Endpoint.advertise_preserved (S : Stdlib) (received : Bytes → Prop) (F : Faults)
    (cfg : Config) (after : Bytes) (s : Endpoint) :
    Preserved S received s (s.advertise F cfg after) where
  matching := id
  grows := fun _ data h => ⟨data, h⟩
  origin := fun _ _ h _ => .inl h
  emits := by
    refine ⟨_, rfl, ?_⟩
    intro e he
    obtain ⟨payload, hpayload, rfl⟩ := List.mem_map.mp he
    have honly : OnlyHas cfg.limits
        (finalState (sendInventoryExchange F cfg s.store.lister after [])) :=
      (sendInventoryExchange_onlyHas s.store.lister after).finalState (by simp [OnlyHas])
    obtain ⟨keys, hencode⟩ := honly payload hpayload
    exact honest_keys hencode (.inl rfl) s.store

/-- One event changes every node as `Preserved` says. -/
theorem Network.step_preserved {received : Bytes → Prop} (net : Network ι)
    (event : NetworkEvent ι)
    (hreceived : ∀ m, event.message C bounds = some m → m.Addressed S → received m.data)
    (i : ι) : Preserved S received (net i) (net.step S C bounds event i) := by
  -- only the node of the event changes
  have hupdate : ∀ (j : ι) (s : Endpoint), Preserved S received (net j) s →
      Preserved S received (net i) (Function.update net j s i) := by
    intro j s hs
    by_cases hij : i = j
    · subst hij
      rw [Function.update_self]
      exact hs
    · rw [Function.update_of_ne hij]
      exact Preserved.refl S received (net i)
  cases event with
  | deliver j F payload =>
    apply hupdate
    refine Triple.finalState (receive_preserves C F (bounds j) payload ?_) (Preserved.refl ..)
    intro m hdecode haddressed
    apply hreceived m _ haddressed
    simp only [NetworkEvent.message, hdecode]
  | apply j F payload =>
    apply hupdate
    refine Triple.finalState (apply_preserves C F (bounds j).limits payload ?_)
      (Preserved.refl ..)
    intro m hdecode haddressed
    apply hreceived m _ haddressed
    simp only [NetworkEvent.message, hdecode]
  | advertise j F budget after =>
    apply hupdate
    exact Endpoint.advertise_preserved S received F _ after (net j)
  | resume j F keys =>
    apply hupdate
    exact Triple.finalState (sendRequestedBlobsResult_preserves F (bounds j) true 0 keys 0)
      (Preserved.refl ..)

/-- A node whose content-addressed data matches and is among the data considered. -/
structure Sound (S : Stdlib) (considered : Set Bytes) (s : Endpoint) : Prop where
  matching : Matching S s.store
  known : ∀ key data, s.store.data? key = some data → key.length = sha256Size →
    data ∈ considered

/-- No key disappears, data under a 32-byte key never changes, and every new frame is
honest. -/
structure Continues (S : Stdlib) (s s' : Endpoint) : Prop where
  keeps : ∀ key data, s.store.data? key = some data →
    ∃ data', s'.store.data? key = some data' ∧ (key.length = sha256Size → data' = data)
  emits : ∃ new, s'.outbox = s.outbox ++ new ∧ ∀ e ∈ new, e.Honest S

theorem Continues.refl (S : Stdlib) (s : Endpoint) : Continues S s s where
  keeps := fun _ data h => ⟨data, h, fun _ => rfl⟩
  emits := ⟨[], by simp, by simp⟩

theorem Continues.trans {s s' s'' : Endpoint} (h : Continues S s s') (h' : Continues S s' s'') :
    Continues S s s'' where
  keeps := by
    intro key data hdata
    obtain ⟨data', hdata', hsame⟩ := h.keeps key data hdata
    obtain ⟨data'', hdata'', hsame'⟩ := h'.keeps key data' hdata'
    exact ⟨data'', hdata'', fun hlength => (hsame' hlength).trans (hsame hlength)⟩
  emits := by
    obtain ⟨new, hnew, honest⟩ := h.emits
    obtain ⟨more, hmore, honest'⟩ := h'.emits
    refine ⟨new ++ more, by rw [hmore, hnew, List.append_assoc], ?_⟩
    intro e he
    rcases List.mem_append.mp he with he | he
    · exact honest e he
    · exact honest' e he

/-- Data under a 32-byte key is determined by the key, so a sound node cannot change
it. -/
theorem Preserved.continues {considered : Set Bytes} (hinj : Set.InjOn S.sha256 considered)
    {s s' : Endpoint} (h : Preserved S (· ∈ considered) s s') (hs : Sound S considered s) :
    Sound S considered s' ∧ Continues S s s' := by
  have hknown : ∀ key data, s'.store.data? key = some data → key.length = sha256Size →
      data ∈ considered := by
    intro key data hdata hlength
    rcases h.origin key data hdata hlength with hold | hnew
    · exact hs.known key data hold hlength
    · exact hnew
  refine ⟨⟨h.matching hs.matching, hknown⟩, ?_, h.emits⟩
  intro key data hdata
  obtain ⟨data', hdata'⟩ := h.grows key data hdata
  refine ⟨data', hdata', fun hlength => ?_⟩
  apply hinj (hknown key data' hdata' hlength) (hs.known key data hdata hlength)
  rw [h.matching hs.matching key data' hdata' hlength, hs.matching key data hdata hlength]

/-- Over every run of any number of nodes, with any payloads delivered in any order
and any calls failing: stores hold only matching data under 32-byte keys, no key
disappears, data under a 32-byte key never changes, and every frame that a node
writes is honest. -/
theorem content_addressing_preserved (S : Stdlib) (C : Codec) (bounds : ι → Bounds)
    (considered : Set Bytes) (hinj : Set.InjOn S.sha256 considered) (net : Network ι)
    (hnet : ∀ i, Sound S considered (net i)) (events : List (NetworkEvent ι))
    (hevents : ∀ event ∈ events, ∀ m, event.message C bounds = some m → m.Addressed S →
      m.data ∈ considered) (i : ι) :
    Matching S (net.run S C bounds events i).store ∧
      Continues S (net i) (net.run S C bounds events i) := by
  have hrun : ∀ i, Sound S considered (net.run S C bounds events i) ∧
      Continues S (net i) (net.run S C bounds events i) := by
    induction events generalizing net with
    | nil => exact fun i => ⟨hnet i, Continues.refl S (net i)⟩
    | cons event rest ih =>
      have hstep : ∀ i, Sound S considered (net.step S C bounds event i) ∧
          Continues S (net i) (net.step S C bounds event i) := fun i =>
        (net.step_preserved event (hevents event List.mem_cons_self) i).continues hinj (hnet i)
      have hrest := ih (net.step S C bounds event) (fun i => (hstep i).1)
        fun e he => hevents e (List.mem_cons_of_mem _ he)
      exact fun i => ⟨(hrest i).1, (hstep i).2.trans (hrest i).2⟩
  exact ⟨(hrun i).1.matching, (hrun i).2⟩

end Run

namespace Sample

/-- A node that holds nothing. -/
def emptyNode : Endpoint := ⟨emptyStore, []⟩

theorem emptyNode_sound (S : Stdlib) (considered : Set Bytes) : Sound S considered emptyNode where
  matching := by
    intro key data h
    simp [emptyNode] at h
  known := by
    intro key data h
    simp [emptyNode] at h

def put : Message := ⟨.blobPut, blobKey, [], blob⟩

theorem decode_put : decode goCodec (marshal put) bounds.limits = .ok put :=
  decode_marshal goCodec_lawful trivial (by decide +kernel)

def deliveredTwice : List (NetworkEvent Bool) :=
  [.deliver true (Faults.single (.blob 1) .blobPut (.fail 1)) (marshal put),
    .deliver true Faults.none (marshal put)]

end Sample

/-- Two nodes; the same put arrives at one of them twice, and the first attempt to
store it fails after the data was stored. -/
theorem content_addressing_preserved_sample :
    Set.InjOn goStdlib.sha256 {Sample.blob} ∧
      ∀ i : Bool, Matching goStdlib
          (Network.run goStdlib goCodec (fun _ : Bool => Sample.bounds) (fun _ => Sample.emptyNode)
            Sample.deliveredTwice i).store ∧
        Continues goStdlib Sample.emptyNode
          (Network.run goStdlib goCodec (fun _ : Bool => Sample.bounds) (fun _ => Sample.emptyNode)
            Sample.deliveredTwice i) := by
  have hinj : Set.InjOn goStdlib.sha256 {Sample.blob} := Set.injOn_singleton _ _
  refine ⟨hinj, fun i => ?_⟩
  apply content_addressing_preserved goStdlib goCodec (fun _ => Sample.bounds) {Sample.blob} hinj
    (fun _ => Sample.emptyNode) (fun _ => Sample.emptyNode_sound _ _)
  intro event hevent m hm _
  have hmessage : event.message goCodec (fun _ => Sample.bounds) = some Sample.put := by
    simp only [Sample.deliveredTwice, List.mem_cons, List.not_mem_nil, or_false] at hevent
    rcases hevent with rfl | rfl
    · simp only [NetworkEvent.message, Sample.decode_put]
    · simp only [NetworkEvent.message, Sample.decode_put]
  rw [hmessage] at hm
  cases hm
  exact Set.mem_singleton _

end StreamHive.Replication

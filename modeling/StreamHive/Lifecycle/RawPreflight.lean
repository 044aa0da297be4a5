import StreamHive.Lifecycle.RepairSteps

/-!
# Raw bytes before logical records

Before the first repair frame, `beforeRepair` lists the records that the peer does
not have yet and sends their blobs, each acknowledged by the peer.  The list is
made once, while every plan reads the journal again: a record that another
goroutine appends in between is sent without its blob.

## Main results

* `raw_precedes_logical` — in a run in which no other goroutine puts a record between
  the preflight's list and the end of `Run`, the blob of every present record of a
  frame, newer than the preflight's watermark, has been selected and acknowledged
  before the frame is written;
* `put_after_preflight` — a run in which a put falls in between.
-/

namespace StreamHive.Lifecycle

open Verified ByteString Effect Log Transition

/-- The logical records that a frame carries. -/
def RepairFrame.records (frame : RepairFrame) : List Record :=
  (frame.batch.map RepairBatch.records).getD [] ++
    (frame.snapshot.map RepairSnapshot.records).getD []

/-! ## Selection -/

/-- The record needs its blob sent to a peer at the watermark. -/
def Record.Needs (w : Version) (r : Record) : Prop := r.state = .present ∧ w < r.version

/-- The blob of the record is among those of the selected records. -/
def KeySelected (selected : List Record) (r : Record) : Prop :=
  ∃ s ∈ selected, s.blobKey = r.blobKey

theorem KeySelected.mono {selected more : List Record} {r : Record}
    (h : KeySelected selected r) (hsub : selected ⊆ more) : KeySelected more r := by
  obtain ⟨s, hs, hkey⟩ := h
  exact ⟨s, hsub hs, hkey⟩

theorem subset_selectRaw (w : Version) (records : List Record) :
    ∀ selected, selected ⊆ selectRaw w selected records := by
  induction records with
  | nil => exact fun selected => List.Subset.refl selected
  | cons record rest ih =>
    intro selected
    unfold selectRaw
    split
    · exact ih selected
    · split
      · exact ih selected
      · exact List.Subset.trans (List.subset_append_left selected [record]) (ih _)

/-- Every record that needs its blob has it selected. -/
theorem selectRaw_covers {w : Version} (records : List Record) :
    ∀ selected, ∀ r ∈ records, r.Needs w →
      KeySelected (selectRaw w selected records) r := by
  induction records with
  | nil => exact nofun
  | cons record rest ih =>
    intro selected r hr hneeds
    unfold selectRaw
    simp only [Version.compare_le_zero]
    rcases List.mem_cons.mp hr with rfl | hr
    · rw [if_neg (by rw [not_or, not_not, not_le]; exact hneeds)]
      split
      case isTrue hany =>
          obtain ⟨s, hs, hkey⟩ := List.any_eq_true.mp hany
          have hsel : KeySelected selected r := ⟨s, hs, by simpa using hkey⟩
          exact hsel.mono (subset_selectRaw w rest selected)
      case isFalse =>
          have hsel : KeySelected (selected ++ [r]) r := ⟨r, by simp, rfl⟩
          exact hsel.mono (subset_selectRaw w rest _)
    · split
      · exact ih selected r hr hneeds
      · split
        · exact ih selected r hr hneeds
        · exact ih _ r hr hneeds

/-! ## How far the preflight has come -/

/-- The list holds the present records that the journal retains. -/
def Lists (journal : Journal) (records : List Record) : Prop :=
  ∀ r ∈ journal.records, r.state = .present → r ∈ records

/-- What the preflight has selected covers the journal, and the checkpoint at the floor
when the peer is behind it. -/
structure Covers (journal : Journal) (checkpoint : Option Checkpoint)
    (selected : List Record) (w : Version) : Prop where
  retained : ∀ r ∈ journal.records, r.Needs w → KeySelected selected r
  behind : ∀ c, checkpoint = some c → c.watermark = journal.floor → w < journal.floor →
    ∀ r ∈ c.records, r.Needs w → KeySelected selected r

/-- All records of the plan's frame that need their blob have it selected. -/
def PlanCovered (S : Stdlib) (selected : List Record) (w : Version) (plan : RepairPlan) :
    Prop :=
  ∀ limits frame, decodeRepairFrame S plan.payload limits = .ok frame →
    ∀ r ∈ frame.records, r.Needs w → KeySelected selected r

/-- The preflight has selected all that is needed; every selected blob is confirmed, or
still to be sent. -/
def Selected (journal : Journal) (checkpoint : Option Checkpoint) (past : RunHistory)
    (todo : Record → Prop) (w : Version) : Prop :=
  past.preflight = [w] ∧ Covers journal checkpoint past.selected w ∧
    ∀ s ∈ past.selected, s.blobKey ∈ past.confirmed ∨ todo s

/-- Where `Run` is in the preflight, or behind it. -/
def RawStage (S : Stdlib) (journal : Journal) (checkpoint : Option Checkpoint)
    (past : RunHistory) : RunPhase → Prop
  | .start | .greeting _ | .greeted | .asking | .parked | .before | .listing =>
    past.preflight = []
  | .marking records => past.preflight = [] ∧ Lists journal records
  | .bounding records w | .collecting records w =>
    past.preflight = [w] ∧ Lists journal records
  | .syncing rest => ∃ w, Selected journal checkpoint past (KeySelected rest) w
  | .sending _ key _ rest =>
    ∃ w, Selected journal checkpoint past (fun s => s.blobKey = key ∨ KeySelected rest s) w
  | .confirming _ key _ acked rest =>
    (acked = true → key ∈ past.confirmed) ∧
      ∃ w, Selected journal checkpoint past (fun s => s.blobKey = key ∨ KeySelected rest s) w
  | .next | .reading | .planning _ | .awaiting _ | .blocked _ =>
    ∃ w, Selected journal checkpoint past (fun _ => False) w
  | .writing plan =>
    ∃ w, Selected journal checkpoint past (fun _ => False) w ∧
      PlanCovered S past.selected w plan
  | .returned | .failed _ => True

/-! ## The frames that a plan sends -/

section Plans

variable {S : Stdlib} {limits : RepairLimits} {journal : Journal}
  {snapshot : Option Checkpoint} {selected : List Record} {from_ w : Version} {plan : RepairPlan}

/-- What the receiver reads from a planned frame is retained by the journal, or listed
by the checkpoint at the floor. -/
theorem Planned.frame_records (hS : S.Lawful)
    (h : Planned S limits journal from_ snapshot plan) {peer : RepairLimits}
    {frame : RepairFrame} (hframe : decodeRepairFrame S plan.payload peer = .ok frame) :
    ∀ r ∈ frame.records, r ∈ journal.records ∨
      ∃ c, snapshot = some c ∧ c.watermark = journal.floor ∧ r ∈ c.records ∧
        r.version ≤ journal.floor := by
  intro r hr
  cases h with
  | snapshot c hsnapshot _ hwatermark hrecords _ =>
    have hclean := hrecords.values.clean
    obtain ⟨_, _, _, rfl⟩ := (decodeRepairFrame_snapshot hS rfl hclean).mp hframe
    have hr : r ∈ (tableOf (tableOf c.records).values).values := hr
    have hc : r ∈ c.records :=
      KeyedMap.values_view_subset (KeyedMap.values_view_subset hr)
    exact .inr ⟨c, hsnapshot, hwatermark, hc, hwatermark ▸ hrecords.bounded r hc⟩
  | journal n _ _ hadmissible =>
    obtain ⟨_, _, rfl⟩ := (decodeRepairFrame_batch hS rfl hadmissible.clean).mp hframe
    have hr : r ∈ (after Record.version from_ journal.records).take n ++ [] := hr
    rw [List.append_nil] at hr
    exact .inl (mem_after.mp (List.mem_of_mem_take hr)).1

/-- A plan made behind the preflight is covered by it. -/
theorem Covers.planCovered (hS : S.Lawful)
    (h : Covers journal snapshot selected w)
    (hplan : Planned S limits journal from_ snapshot plan) :
    PlanCovered S selected w plan := by
  intro peer frame hframe r hr hneeds
  rcases hplan.frame_records hS hframe r hr with
    hretained | ⟨c, hsnapshot, hwatermark, hc, hfloor⟩
  · exact h.retained r hretained hneeds
  · exact h.behind c hsnapshot hwatermark (lt_of_lt_of_le hneeds.2 hfloor) r hc hneeds

end Plans

/-! ## One step -/

namespace RawStage

variable {S : Stdlib} {r : RunState} {phase : RunPhase} {past : RunHistory}
  {journal journal' : Journal} {checkpoint : Option Checkpoint}

theorem early (h : phase.Early) :
    RawStage S journal checkpoint past phase = (past.preflight = []) := by
  cases phase <;> first | rfl | exact absurd h id

/-- The preflight has selected its records. -/
theorem select {records listed : List Record} {w : Version}
    (hw : past.preflight = [w]) (hlists : Lists journal records) (hsub : records ⊆ listed)
    (hbehind : w < journal.floor → ∀ c, checkpoint = some c → c.records ⊆ listed) :
    RawStage S journal checkpoint { past with selected := selectRaw w [] listed }
      (.syncing (selectRaw w [] listed)) := by
  refine ⟨w, hw, ⟨fun r hr hneeds => ?_, fun c hc _ hfloor r hr hneeds => ?_⟩,
    fun s hs => ?_⟩
  · exact selectRaw_covers listed [] r (hsub (hlists r hr hneeds.1)) hneeds
  · exact selectRaw_covers listed [] r (hbehind hfloor c hc hr) hneeds
  · exact .inr ⟨s, hs, rfl⟩

/-- A plan has been acknowledged, or needs no acknowledgement. -/
theorem settled {plan : RepairPlan}
    (h : ∃ w, Selected journal checkpoint past (fun _ => False) w) :
    RawStage S journal checkpoint past plan.settled := by
  unfold RepairPlan.settled
  split
  · exact h
  · trivial

/-- A step of `Run`. -/
theorem step (hS : S.Lawful)
    (h : RawStage S r.conn.node.journal r.checkpoint r.past r.run)
    (hraw : r.raw.enabled = true) (hsnapshot : r.conn.session.snapshot = r.checkpoint)
    (hadvanced : Advanced S r phase past) :
    RawStage S r.conn.node.journal r.checkpoint past phase := by
  cases hadvanced with
  | stay => exact h
  | fail e | writeFails e _ => trivial
  | early hbefore hafter =>
    rw [early hbefore] at h
    rw [early hafter]
    exact h
  | skip _ hdisabled => exact absurd (hraw.symm.trans hdisabled) nofun
  | list hrun =>
    rw [hrun] at h
    exact ⟨h, fun _ hr _ => hr⟩
  | mark hrun =>
    rw [hrun] at h
    refine ⟨?_, h.2⟩
    show r.past.preflight ++ [r.conn.watermark] = [r.conn.watermark]
    rw [h.1]
    rfl
  | behind hrun _ | ready hrun | read hrun | block hrun | wake hrun =>
    rw [hrun] at h
    exact h
  | select hrun hfloor =>
    rw [hrun] at h
    exact select h.1 h.2 (List.Subset.refl _) fun hbehind =>
      absurd hfloor (not_le.mpr hbehind)
  | collect hrun =>
    rw [hrun] at h
    refine select h.1 h.2 (List.subset_append_left _ _) fun _ c hc => ?_
    unfold RunState.checkpointRecords
    rw [hc]
    exact List.subset_append_right _ _
  | load _ hrun =>
    rw [hrun] at h
    obtain ⟨w, hw, hcovers, hrest⟩ := h
    refine ⟨w, hw, hcovers, fun s hs => (hrest s hs).imp_right ?_⟩
    rintro ⟨t, ht, hkey⟩
    rcases List.mem_cons.mp ht with rfl | ht
    · exact .inl hkey.symm
    · exact .inr ⟨t, ht, hkey⟩
  | send hrun =>
    rw [hrun] at h
    exact ⟨nofun, h⟩
  | confirmed hrun =>
    rw [hrun] at h
    obtain ⟨hacked, w, hw, hcovers, hrest⟩ := h
    refine ⟨w, hw, hcovers, fun s hs => ?_⟩
    rcases hrest s hs with hdone | hkey | htodo
    · exact .inl hdone
    · exact .inl (hkey ▸ hacked rfl)
    · exact .inr htodo
  | blobAcked hrun =>
    rw [hrun] at h
    obtain ⟨_, w, hw, hcovers, hrest⟩ := h
    exact ⟨fun _ => List.mem_append_right _ (List.mem_singleton_self _), w, hw, hcovers,
      fun s hs => (hrest s hs).imp_left (List.mem_append_left _)⟩
  | resend hrun =>
    rw [hrun] at h
    exact h.2
  | synced hrun =>
    rw [hrun] at h
    obtain ⟨w, hw, hcovers, hrest⟩ := h
    refine ⟨w, hw, hcovers, fun s hs => (hrest s hs).imp_right ?_⟩
    exact fun ⟨_, hno, _⟩ => by cases hno
  | plan hrun hplan =>
    rw [hrun] at h
    obtain ⟨w, hselected⟩ := h
    rw [hsnapshot] at hplan
    exact ⟨w, hselected, hselected.2.1.planCovered hS hplan⟩
  | write hrun =>
    rw [hrun] at h
    obtain ⟨w, hselected, _⟩ := h
    unfold RepairPlan.written
    split
    · exact ⟨w, hselected⟩
    · exact settled ⟨w, hselected⟩
  | settle hrun _ =>
    rw [hrun] at h
    exact settled h

/-- The stage depends on the present records of the journal, and on its floor if the
checkpoint is the one at the floor. -/
theorem of_present (h : RawStage S journal checkpoint past phase)
    (hpresent : ∀ r ∈ journal'.records, r.state = .present → r ∈ journal.records)
    (hfloor : journal'.floor = journal.floor ∨
      ∀ c, checkpoint = some c → c.watermark ≠ journal'.floor) :
    RawStage S journal' checkpoint past phase := by
  have hlists : ∀ {records : List Record}, Lists journal records → Lists journal' records :=
    fun hlists r hr hstate => hlists r (hpresent r hr hstate) hstate
  have hselected : ∀ {todo : Record → Prop} {w : Version},
      Selected journal checkpoint past todo w → Selected journal' checkpoint past todo w := by
    rintro todo w ⟨hw, hcovers, hrest⟩
    refine ⟨hw, ⟨fun r hr hneeds => ?_, fun c hc hat => ?_⟩, hrest⟩
    · exact hcovers.retained r (hpresent r hr hneeds.1) hneeds
    · rcases hfloor with hsame | hother
      · rw [hsame] at hat ⊢
        exact hcovers.behind c hc hat
      · exact absurd hat (hother c hc)
  cases phase with
  | marking | bounding | collecting => exact ⟨h.1, hlists h.2⟩
  | confirming => exact ⟨h.1, h.2.imp fun _ => hselected⟩
  | writing => exact h.imp fun _ hw => ⟨hselected hw.1, hw.2⟩
  | syncing | sending | next | reading | planning | awaiting | blocked =>
    exact h.imp fun _ => hselected
  | _ => exact h

/-- The stage does not depend on what the reader has done. -/
theorem of_served {recorded : Bool} {acked : List Version}
    (h : RawStage S journal checkpoint past phase) :
    RawStage S journal checkpoint { past with recorded := recorded, acked := acked } phase := by
  cases phase <;> exact h

end RawStage

/-! ## The other goroutines -/

/-- The phases in which nothing has been listed yet, or nothing more is sent. -/
def RunPhase.Unlisted : RunPhase → Prop
  | .start | .greeting _ | .greeted | .asking | .parked | .before | .listing => True
  | .returned | .failed _ => True
  | _ => False

theorem RawStage.of_unlisted {S : Stdlib} {journal journal' : Journal}
    {checkpoint : Option Checkpoint} {past : RunHistory} {phase : RunPhase}
    (h : RawStage S journal checkpoint past phase) (hphase : phase.Unlisted) :
    RawStage S journal' checkpoint past phase := by
  cases phase <;> first | exact h | exact absurd hphase id

/-- The call applies a tombstone; or a snapshot, but not one that moves the floor to the
checkpoint that the runtime keeps. -/
def ApplierCall.Harmless (r : RunState) : ApplierCall → Prop
  | .apply _ record _ => record.state ≠ .present
  | .applySnapshot _ snapshot _ => ∀ c, r.checkpoint = some c →
      c.watermark = snapshot.watermark → snapshot.watermark = r.conn.node.journal.floor

/-- From the preflight's list to the end of `Run`, the other goroutines put nothing;
the frames received are acknowledgements. -/
def Undisturbed (S : Stdlib) (r : RunState) : RunAction → Prop
  | .other step => r.run.Unlisted ∨ step.call.Harmless r
  | a => a.OfSession S

/-- A tombstone is at most appended. -/
theorem Applier.apply_deletes (S : Stdlib) (F : Faults) (i : Nat)
    (capabilities : List String) {record : Record} (hstate : record.state ≠ .present)
    (suppliedBlob : Option Bytes) (a : Applier) :
    (finalState (discard (Applier.apply S F i capabilities record suppliedBlob
        a))).journal.floor = a.journal.floor ∧
      ∀ r ∈ (finalState (discard (Applier.apply S F i capabilities record suppliedBlob
        a))).journal.records, r.state = .present → r ∈ a.journal.records := by
  have hkept : ∀ log, log = a.journal.log → log.floor = a.journal.floor ∧
      ∀ r ∈ log.records, r.state = .present → r ∈ a.journal.records := by
    rintro _ rfl
    exact ⟨rfl, fun r hr _ => hr⟩
  rcases Applier.apply_cases S F i capabilities record suppliedBlob a with
    ⟨e, blobs', hrun, _⟩ | ⟨res, hrun, _, _⟩ |
    ⟨res, blobs', _, _, _, _, ⟨e, d, happend, hrun⟩ | ⟨d, happend, hrun⟩⟩
  · rw [hrun]
    exact hkept _ rfl
  · rw [hrun]
    exact hkept _ rfl
  · rw [hrun]
    exact hkept _ (congrArg Journal.log (Journal.append_error_obj happend))
  · rw [hrun]
    obtain ⟨hacc, hobj⟩ := Journal.append_ok_obj happend
    show d.obj.log.floor = _ ∧ ∀ r ∈ d.obj.log.records, _
    rw [hobj]
    refine ⟨rfl, fun r hr hpresent => ?_⟩
    rcases List.mem_append.mp (show r ∈ a.journal.records ++ [record] from hr) with hr | hr
    · exact hr
    · rw [List.mem_singleton.mp hr] at hpresent
      exact absurd hpresent hstate

/-- A snapshot leaves the log alone, or resets it to its watermark. -/
theorem Applier.applySnapshot_log {S : Stdlib} (hS : S.Lawful) (F : Faults)
    (capabilities : List String) (snapshot : Checkpoint) (checkpointPath : String)
    (a : Applier) :
    (finalState (Applier.applySnapshot S F capabilities snapshot checkpointPath
        a)).journal.log = a.journal.log ∨
      (finalState (Applier.applySnapshot S F capabilities snapshot checkpointPath
        a)).journal.log = Segment.reset Record.version snapshot.watermark := by
  unfold Applier.applySnapshot
  rcases ctxErr_cases (F (.apply 0)) 0 a with ⟨_, e, he⟩ | ⟨_, hx⟩
  · rw [run_bind_error he]
    exact .inl rfl
  rw [run_bind_ok hx]
  by_cases hcap : hasLifecycleCapability capabilities = false
  · rw [run_bind_error (run_raiseIf_error hcap)]
    exact .inl rfl
  rw [run_bind_ok (run_raiseIf hcap)]
  by_cases hpath : checkpointPath = ""
  · rw [run_bind_error (run_raiseIf_error hpath)]
    exact .inl rfl
  rw [run_bind_ok (run_raiseIf hpath), run_bind_get]
  cases hnormal : normalizeCheckpoint S snapshot a.limits with
  | error e =>
    rw [run_bind_error (run_attempt_error rfl)]
    exact .inl rfl
  | ok c =>
  obtain ⟨_, rfl⟩ := normalizeCheckpoint_eq_ok.mp hnormal
  rw [run_bind_ok (run_attempt rfl)]
  rcases Applier.ensureRecords_cases S F a snapshot.normal.records 0 with
    ⟨e, he⟩ | ⟨hloop, _⟩
  · rw [run_bind_error he]
    exact .inl rfl
  rw [run_bind_ok hloop]
  cases hinstall : Journal.installSnapshot S F checkpointPath snapshot.normal
      ⟨a.fs, a.journal⟩ with
  | error e d =>
    have hjournal : onJournal (Journal.installSnapshot S F checkpointPath
        snapshot.normal) a = .error e (a.withJournal d) := run_zoom_error hinstall
    rw [run_bind_error hjournal]
    exact .inl (Journal.installSnapshot_error_log hS hinstall).1
  | ok u d =>
    have hjournal : onJournal (Journal.installSnapshot S F checkpointPath
        snapshot.normal) a = .ok () (a.withJournal d) := run_zoom hinstall
    have hlog := (Journal.installSnapshot_ok_log hS hinstall).1
    rw [run_bind_ok hjournal, run_bind_get]
    -- the store is replaced behind the journal, and may refuse
    cases hstore : (a.withJournal d).store.replaceSnapshot S snapshot.normal.records with
    | error e | ok store => exact .inr hlog

/-- What a harmless call can do to the journal. -/
theorem ApplierStep.result_harmless {S : Stdlib} (hS : S.Lawful) {r : RunState}
    {step : ApplierStep} (h : step.call.Harmless r) :
    let journal := (finalState (step.result S r.conn.node.toApplier)).journal
    (∀ record ∈ journal.records, record.state = .present →
        record ∈ r.conn.node.journal.records) ∧
      (journal.floor = r.conn.node.journal.floor ∨
        ∀ c, r.checkpoint = some c → c.watermark ≠ journal.floor) := by
  unfold result
  cases hcall : step.call with
  | apply capabilities record suppliedBlob =>
    rw [hcall] at h
    obtain ⟨hfloor, hpresent⟩ := Applier.apply_deletes S step.faults 0 capabilities h
      suppliedBlob (r.conn.node.toApplier.withBlobs step.blobs)
    exact ⟨hpresent, .inl hfloor⟩
  | applySnapshot capabilities snapshot checkpointPath =>
    rw [hcall] at h
    dsimp only
    rcases Applier.applySnapshot_log hS step.faults capabilities snapshot checkpointPath
      (r.conn.node.toApplier.withBlobs step.blobs) with hlog | hlog
    · unfold Journal.records Journal.floor
      rw [hlog]
      exact ⟨fun record hr _ => hr, .inl rfl⟩
    · unfold Journal.records Journal.floor
      rw [hlog]
      refine ⟨nofun, ?_⟩
      by_cases hsame : snapshot.watermark = r.conn.node.journal.floor
      · exact .inl hsame
      · exact .inr fun c hc hat => hsame (h c hc hat)

/-! ## Whole runs -/

/-- A session as `AttachPeer` leaves it: with the preflight, and with the checkpoint
that the runtime keeps. -/
structure RunState.Attached (r : RunState) : Prop where
  start : r.run = .start
  past : r.past = RunHistory.empty
  raw : r.raw.enabled = true
  snapshot : r.conn.session.snapshot = r.checkpoint

/-- What holds in every undisturbed run. -/
structure Preflighted (S : Stdlib) (r : RunState) : Prop where
  raw : r.raw.enabled = true
  snapshot : r.conn.session.snapshot = r.checkpoint
  stage : RawStage S r.conn.node.journal r.checkpoint r.past r.run

section

variable {S : Stdlib} {r : RunState} {a : RunAction}

theorem RunState.Attached.preflighted (h : r.Attached) : Preflighted S r where
  raw := h.raw
  snapshot := h.snapshot
  stage := by
    rw [h.start, h.past]
    rfl

theorem Preflighted.ofSession (hS : S.Lawful) (h : Preflighted S r) (ha : a.OfSession S) :
    Preflighted S (r.step S a) := by
  rcases RunState.step_cases hS r ha with ⟨hkept, hadvanced⟩ | ⟨hserved, _⟩
  · refine ⟨by rw [hkept.raw]; exact h.raw, ?_, ?_⟩
    · rw [hkept.session, hkept.checkpoint]
      exact h.snapshot
    · rw [hkept.node, hkept.checkpoint]
      exact h.stage.step hS h.raw h.snapshot hadvanced
  · refine ⟨by rw [hserved.raw]; exact h.raw, ?_, ?_⟩
    · rw [hserved.session, hserved.checkpoint]
      exact h.snapshot
    · rw [hserved.journal, hserved.checkpoint, hserved.run, hserved.past]
      exact h.stage.of_served

theorem Preflighted.step (hS : S.Lawful) (h : Preflighted S r) (ha : Undisturbed S r a) :
    Preflighted S (r.step S a) := by
  cases a with
  | other step =>
    refine ⟨h.raw, h.snapshot, ?_⟩
    rcases ha with hphase | hharmless
    · exact h.stage.of_unlisted hphase
    · obtain ⟨hpresent, hfloor⟩ := step.result_harmless hS hharmless
      exact h.stage.of_present hpresent hfloor
  | _ => exact h.ofSession hS ha

end

/-- Whenever `Run` is about to write a frame, the preflight has read one watermark, and
every present record that the frame carries above it has had its blob selected, and
acknowledged by the peer. -/
theorem raw_precedes_logical {S : Stdlib} (hS : S.Lawful) {start : RunState}
    (hstart : start.Attached) (actions : List RunAction)
    (hactions : Along (RunState.step S) (Undisturbed S) start actions)
    {plan : RepairPlan} (hwriting : (start.steps S actions).run = .writing plan) :
    ∃ w, (start.steps S actions).past.preflight = [w] ∧
      ∀ limits frame, decodeRepairFrame S plan.payload limits = .ok frame →
        ∀ record ∈ frame.records, record.state = .present → w < record.version →
          (∃ s ∈ (start.steps S actions).past.selected, s.blobKey = record.blobKey) ∧
            record.blobKey ∈ (start.steps S actions).past.confirmed := by
  have hinv : Preflighted S (start.steps S actions) :=
    run_invariant (fun r a ha hr => hr.step hS ha) hactions hstart.preflighted
  have hstage := hinv.stage
  rw [hwriting] at hstage
  obtain ⟨w, ⟨hw, _, hall⟩, hplan⟩ := hstage
  refine ⟨w, hw, fun limits frame hframe record hr hstate hnew => ?_⟩
  obtain ⟨s, hs, hkey⟩ := hplan limits frame hframe record hr ⟨hstate, hnew⟩
  exact ⟨⟨s, hs, hkey⟩, hkey ▸ (hall s hs).resolve_right id⟩

/-! ## A put behind the preflight -/

namespace Sample

/-- A session with the preflight, with a peer that has nothing yet, on a new journal. -/
def attached : RunState where
  conn :=
    { node :=
        { applier with
          watermarks := WatermarkBook.new "watermarks" ⟨0, 0, 0⟩
          repairLimits := RepairLimits.unset.normalized }
      session := ⟨ascii "b", [lifecycleCapabilityV1], none, "checkpoint",
        defaultMaxRepairFrameBytes, false, false⟩
      outbox := [] }
  checkpoint := none
  raw := ⟨true, ⟨0, 0, 0, 0⟩, 0, 0⟩
  helloNotify := false
  ackNotify := false
  run := .start
  reader := .idle
  past := RunHistory.empty

theorem attached_attached : attached.Attached := ⟨rfl, rfl, rfl, rfl⟩

def put : RunAction :=
  .other ⟨.apply [lifecycleCapabilityV1] stored (some (ascii "data")), Faults.none,
    some fun _ => none⟩

def removed : Record := ⟨ascii "ns", ascii "b", .deleted, [], ⟨1, 2⟩, ascii "node"⟩

def delete : RunAction :=
  .other ⟨.apply [lifecycleCapabilityV1] removed none, Faults.none, some fun _ => none⟩

def advances (n : Nat) : List RunAction := List.replicate n (.run Faults.none)

/-- The put falls between the preflight and the plan. -/
def putBehind : RunState :=
  attached.steps goStdlib (advances 6 ++ put :: advances 3)

/-- The put precedes the preflight, which sends its blob; a delete falls in between. -/
def putBefore : List RunAction :=
  put :: (advances 7 ++ .blobAck stored.blobKey :: (advances 2 ++ delete :: advances 3))

def putSynced : RunState := attached.steps goStdlib putBefore

/-- The batch that carries the records. -/
def batchOf (records : List Record) : RepairBatch :=
  candidateBatch Version.zero records records.length

def bothPlan : RepairPlan :=
  ⟨.journal, Version.zero, removed.version, false,
    goStdlib.batch.marshal (batchOf [stored, removed])⟩

end Sample

/-- The put record is about to be sent; the preflight has not selected its blob, and
the peer has not acknowledged it. -/
theorem put_after_preflight :
    Sample.attached.Attached ∧
      Sample.putBehind.run = .writing ⟨.journal, Version.zero, Sample.stored.version, false,
        goStdlib.batch.marshal (Sample.batchOf [Sample.stored])⟩ ∧
      Sample.putBehind.past.preflight = [Version.zero] ∧
      decodeRepairFrame goStdlib (goStdlib.batch.marshal (Sample.batchOf [Sample.stored]))
        RepairLimits.unset = .ok (RepairFrame.ofBatch (Sample.batchOf [Sample.stored])) ∧
      Sample.stored ∈ (RepairFrame.ofBatch (Sample.batchOf [Sample.stored])).records ∧
      Sample.stored.state = .present ∧ Version.zero < Sample.stored.version ∧
      Sample.putBehind.past.selected = [] ∧ Sample.putBehind.past.confirmed = [] :=
  ⟨Sample.attached_attached, by decide +kernel⟩

theorem raw_precedes_logical_sample :
    Sample.putSynced.run = .writing Sample.bothPlan ∧
      Sample.stored.blobKey ∈ Sample.putSynced.past.confirmed := by
  have hrun : Sample.putSynced.run = .writing Sample.bothPlan ∧
      Sample.putSynced.past.preflight = [Version.zero] ∧
      decodeRepairFrame goStdlib Sample.bothPlan.payload RepairLimits.unset =
        .ok (RepairFrame.ofBatch (Sample.batchOf [Sample.stored, Sample.removed])) := by
    decide +kernel
  obtain ⟨hwriting, hpreflight, hframe⟩ := hrun
  have hundisturbed : Along (RunState.step goStdlib) (Undisturbed goStdlib) Sample.attached
      Sample.putBefore :=
    ⟨.inl trivial, trivial, trivial, trivial, trivial, trivial, trivial, trivial, trivial,
      trivial, trivial, .inr (show LifecycleState.deleted ≠ .present by decide), trivial,
      trivial, trivial, trivial⟩
  unfold Sample.putSynced at hwriting hpreflight ⊢
  obtain ⟨w, hw, hall⟩ := raw_precedes_logical goStdlib_lawful Sample.attached_attached
    Sample.putBefore hundisturbed hwriting
  rw [hpreflight] at hw
  obtain rfl : Version.zero = w := (List.cons.inj hw).1
  exact ⟨hwriting, (hall _ _ hframe Sample.stored (by decide +kernel) rfl
    (by decide +kernel)).2⟩

end StreamHive.Lifecycle

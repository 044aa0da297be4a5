import StreamHive.Replication.AckTracker

/-!
# How long a put waits

A put waits for its deliveries no longer than `putWaitTimeout`, which is computed from the
parameters that `sendBlobWithAck` gets: a timer for each attempt and a pause between two
attempts, doubled each time up to a cap.  The additions saturate at the largest duration, so
the result is the exact sum cut at that duration.  No execution of `sendBlobWithAck` starts
timers for longer than the sum.

Durations are 64-bit numbers of nanoseconds.  Everything is said about the integers that they
stand for.

## Main results

* `toInt_retryDelayForAttempt`, `toInt_addDuration` — exact values;
* `foldl_addDuration` — a saturating sum is the sum, cut once;
* `SendCall.next_left` — what one section of a call takes off its time;
* `put_wait_covers` — the budget is enough.
-/

namespace StreamHive.Replication

open Verified

/-! ## The program -/

/-- `500 * time.Millisecond` -/
def maxPutRetryDelay : Int64 := 500000000

/-- `time.Duration(1<<63 - 1)` -/
def maxDuration : Int64 := 9223372036854775807

/-- `time.Second` -/
def second : Int64 := 1000000000

/-- The loop of `retryDelayForAttempt`, for the doublings that are left. -/
def doubleDelay : Nat → Int64 → Int64
  | 0, delay => if delay > maxPutRetryDelay then maxPutRetryDelay else delay
  | n + 1, delay =>
    if delay ≥ maxPutRetryDelay / 2 then maxPutRetryDelay else doubleDelay n (delay * 2)

def retryDelayForAttempt (base : Int64) (attempt : Nat) : Int64 :=
  if base ≤ 0 then 0
  else if base ≥ maxPutRetryDelay then maxPutRetryDelay
  else doubleDelay attempt base

def addDuration (left right : Int64) : Int64 :=
  if right > 0 ∧ left > maxDuration - right then maxDuration else left + right

/-- `retries + 1` wraps around. -/
def putWaitTimeout (ackTimeout retryDelay : Int64) (retries : Int) : Int64 :=
  let total := (List.range (Int.bmod (retries + 1) (2 ^ 64)).toNat).foldl
    (fun total _ => addDuration total ackTimeout) second
  (List.range retries.toNat).foldl
    (fun total attempt => addDuration total (retryDelayForAttempt retryDelay attempt)) total

/-- The timer that a call starts when it enters a phase. -/
def SendPhase.timer (ackTimeout retryDelay : Int64) : SendPhase → Int
  | .waiting _ _ => ackTimeout.toInt
  | .pausing attempt => (retryDelayForAttempt retryDelay attempt).toInt
  | _ => 0

/-- The timers that a call starts in a run.  Each section finds the tracker as the other
calls have left it; a section that cannot be entered is passed over. -/
def SendCall.armed (ackTimeout retryDelay : Int64) :
    SendCall → List (AckChoice × PutAckTracker) → Int
  | _, [] => 0
  | c, (choice, t) :: rest =>
    match c.next choice t with
    | none => c.armed ackTimeout retryDelay rest
    | some (_, c') =>
      c'.phase.timer ackTimeout retryDelay + c'.armed ackTimeout retryDelay rest

/-! ## Durations as integers -/

theorem toInt_maxPutRetryDelay : maxPutRetryDelay.toInt = 500000000 := by decide

theorem toInt_maxDuration : maxDuration.toInt = 9223372036854775807 := by decide

theorem toInt_second : second.toInt = 1000000000 := by decide

/-- A sum of durations that are not negative saturates. -/
theorem toInt_addDuration {left right : Int64} (hleft : 0 ≤ left.toInt)
    (hright : 0 ≤ right.toInt) :
    (addDuration left right).toInt = min maxDuration.toInt (left.toInt + right.toInt) := by
  have hzero : (0 : Int64).toInt = 0 := rfl
  have hmax := toInt_maxDuration
  have hleftMax := left.toInt_lt
  have hrightMax := right.toInt_lt
  have hroom : (maxDuration - right).toInt = maxDuration.toInt - right.toInt := by
    rw [Int64.toInt_sub]
    exact Int.bmod_eq_of_le (by omega) (by omega)
  unfold addDuration
  simp only [gt_iff_lt, Int64.lt_iff_toInt_lt, hroom, hzero]
  split
  · omega
  · rw [Int64.toInt_add, Int.bmod_eq_of_le (by omega) (by omega)]
    omega

/-- A saturating sum is the sum, cut once. -/
theorem foldl_addDuration {α : Type} (duration : α → Int64) (xs : List α)
    (hxs : ∀ x ∈ xs, 0 ≤ (duration x).toInt) {start : Int64} {exact : Int}
    (hexact : 0 ≤ exact) (hstart : start.toInt = min maxDuration.toInt exact) :
    (xs.foldl (fun total x => addDuration total (duration x)) start).toInt =
      min maxDuration.toInt (exact + (xs.map fun x => (duration x).toInt).sum) := by
  have hmax := toInt_maxDuration
  induction xs generalizing start exact with
  | nil =>
    rw [List.map_nil, List.sum_nil, Int.add_zero]
    exact hstart
  | cons x xs ih =>
    have hx := hxs x List.mem_cons_self
    have hnext : (addDuration start (duration x)).toInt =
        min maxDuration.toInt (exact + (duration x).toInt) := by
      rw [toInt_addDuration (by omega) hx]
      omega
    rw [List.foldl_cons, ih (fun y hy => hxs y (List.mem_cons_of_mem x hy)) (by omega) hnext,
      List.map_cons, List.sum_cons, Int.add_assoc]

theorem le_mul_two_pow {d : Int} (h : 0 ≤ d) (n : Nat) : d ≤ d * 2 ^ n := by
  have hone : (1 : Int) ≤ 2 ^ n := Int.pow_pos (by decide)
  have hle := Int.mul_le_mul_of_nonneg_left hone h
  rwa [Int.mul_one] at hle

theorem toInt_doubleDelay (n : Nat) {delay : Int64} (hpos : 0 < delay.toInt) :
    (doubleDelay n delay).toInt = min (delay.toInt * 2 ^ n) maxPutRetryDelay.toInt := by
  have hcap := toInt_maxPutRetryDelay
  have hhalf : (maxPutRetryDelay / 2).toInt = 250000000 := by decide
  induction n generalizing delay with
  | zero =>
    unfold doubleDelay
    simp only [gt_iff_lt, Int64.lt_iff_toInt_lt]
    rw [Int.pow_zero, Int.mul_one]
    split <;> omega
  | succ n ih =>
    have hpow : delay.toInt * 2 ^ (n + 1) = delay.toInt * 2 * 2 ^ n := by
      rw [Int.pow_succ, Int.mul_comm (2 ^ n) 2, Int.mul_assoc]
    unfold doubleDelay
    simp only [ge_iff_le, Int64.le_iff_toInt_le, hhalf]
    rw [hpow]
    by_cases hbig : 250000000 ≤ delay.toInt
    · rw [if_pos hbig]
      have hgrows := le_mul_two_pow (show 0 ≤ delay.toInt * 2 by omega) n
      omega
    · have hdouble : (delay * 2).toInt = delay.toInt * 2 := by
        rw [Int64.toInt_mul, show (2 : Int64).toInt = 2 from rfl]
        exact Int.bmod_eq_of_le (by omega) (by omega)
      rw [if_neg hbig, ih (by omega), hdouble]

theorem toInt_retryDelayForAttempt {base : Int64} (hbase : 0 ≤ base.toInt) (attempt : Nat) :
    (retryDelayForAttempt base attempt).toInt =
      min (base.toInt * 2 ^ attempt) maxPutRetryDelay.toInt := by
  have hcap := toInt_maxPutRetryDelay
  have hzero : (0 : Int64).toInt = 0 := rfl
  unfold retryDelayForAttempt
  simp only [ge_iff_le, Int64.le_iff_toInt_le, hzero]
  by_cases hnone : base.toInt ≤ 0
  · rw [if_pos hnone, show base.toInt = 0 by omega]
    omega
  rw [if_neg hnone]
  by_cases hbig : maxPutRetryDelay.toInt ≤ base.toInt
  · rw [if_pos hbig]
    have hgrows := le_mul_two_pow hbase attempt
    omega
  · rw [if_neg hbig]
    exact toInt_doubleDelay attempt (by omega)

/-! ## The time of a call -/

section Time

variable (ackTimeout retryDelay : Int64)

/-- The time that `n` retries after an attempt take. -/
def retryTime : Nat → Nat → Int
  | 0, _ => 0
  | n + 1, attempt =>
    (retryDelayForAttempt retryDelay attempt).toInt + ackTimeout.toInt +
      retryTime n (attempt + 1)

/-- The time of the timers that a call has still to start. -/
def SendPhase.left (retries : Int) : SendPhase → Int
  | .registering attempt =>
    if attempt ≤ retries then
      ackTimeout.toInt + retryTime ackTimeout retryDelay (retries - attempt).toNat attempt
    else 0
  | .writing attempt _ =>
    ackTimeout.toInt + retryTime ackTimeout retryDelay (retries - attempt).toNat attempt
  | .waiting attempt _ | .timingOut attempt =>
    retryTime ackTimeout retryDelay (retries - attempt).toNat attempt
  | .pausing attempt =>
    ackTimeout.toInt +
      retryTime ackTimeout retryDelay (retries - (attempt + 1)).toNat (attempt + 1)
  | _ => 0

/-- The attempt of a call is one that it may make, and another follows its pause. -/
def SendPhase.Allowed (retries : Int) : SendPhase → Prop
  | .writing attempt _ | .waiting attempt _ | .timingOut attempt => attempt ≤ retries
  | .pausing attempt => attempt < retries
  | _ => True

variable {ackTimeout retryDelay} (hack : 0 ≤ ackTimeout.toInt) (hdelay : 0 ≤ retryDelay.toInt)

include hdelay in
theorem retryDelay_nonneg (attempt : Nat) :
    0 ≤ (retryDelayForAttempt retryDelay attempt).toInt := by
  have hcap := toInt_maxPutRetryDelay
  have hgrows := le_mul_two_pow hdelay attempt
  rw [toInt_retryDelayForAttempt hdelay]
  omega

include hack hdelay in
theorem retryTime_nonneg (n attempt : Nat) : 0 ≤ retryTime ackTimeout retryDelay n attempt := by
  induction n generalizing attempt with
  | zero => exact Int.le_refl 0
  | succ n ih =>
    have hpause := retryDelay_nonneg hdelay attempt
    have hrest := ih (attempt + 1)
    unfold retryTime
    omega

theorem retryTime_eq (n attempt : Nat) : retryTime ackTimeout retryDelay n attempt =
    n * ackTimeout.toInt + ((List.range' attempt n).map fun a =>
      (retryDelayForAttempt retryDelay a).toInt).sum := by
  induction n generalizing attempt with
  | zero => simp [retryTime]
  | succ n ih =>
    rw [retryTime, ih, List.range'_succ, List.map_cons, List.sum_cons, Int.natCast_succ,
      Int.add_mul, Int.one_mul]
    omega

include hack hdelay in
theorem SendPhase.left_nonneg (retries : Int) (phase : SendPhase) :
    0 ≤ phase.left ackTimeout retryDelay retries := by
  have hnonneg := retryTime_nonneg hack hdelay
  cases phase with
  | registering attempt =>
    have hrest := hnonneg (retries - attempt).toNat attempt
    dsimp only [SendPhase.left]
    split <;> omega
  | writing attempt ch =>
    exact Int.add_nonneg hack (hnonneg _ _)
  | waiting attempt ch | timingOut attempt => exact hnonneg _ _
  | pausing attempt => exact Int.add_nonneg hack (hnonneg _ _)
  | writeFailed attempt | canceling attempt | returned err => exact Int.le_refl 0

include hack hdelay in
/-- A section starts its timer out of the time that was left. -/
theorem SendCall.next_left {choice : AckChoice} {t t' : PutAckTracker} {c c' : SendCall}
    (hnext : c.next choice t = some (t', c')) (hallowed : c.phase.Allowed c.retries) :
    c'.retries = c.retries ∧ c'.phase.Allowed c.retries ∧
      c'.phase.timer ackTimeout retryDelay + c'.phase.left ackTimeout retryDelay c.retries ≤
        c.phase.left ackTimeout retryDelay c.retries := by
  have hleft := c.phase.left_nonneg hack hdelay c.retries
  obtain ⟨id, retries, phase, since⟩ := c
  dsimp only at hallowed hleft ⊢
  unfold SendCall.next at hnext
  -- A call that returns, or gives up its wait, starts no timer and has no time left.
  cases phase with
  | registering attempt =>
    dsimp only at hnext
    split at hnext
    · next hle =>
      cases hnext
      refine ⟨rfl, hle, ?_⟩
      dsimp only [SendPhase.timer, SendPhase.left]
      rw [if_pos hle, Int.zero_add]
    · cases hnext
      exact ⟨rfl, trivial, hleft⟩
  | writing attempt ch | writeFailed attempt | waiting attempt ch | canceling attempt =>
    dsimp only at hnext
    repeat' split at hnext
    all_goals cases hnext
    all_goals first
      | exact ⟨rfl, trivial, hleft⟩
      | exact ⟨rfl, hallowed, Int.le_refl _⟩
      | exact ⟨rfl, hallowed, Int.le_of_eq (Int.zero_add _)⟩
  | timingOut attempt =>
    have hle : (attempt : Int) ≤ retries := hallowed
    dsimp only at hnext
    split at hnext
    · split at hnext
      · cases hnext
        exact ⟨rfl, trivial, hleft⟩
      · next hmore =>
        cases hnext
        refine ⟨rfl, show (attempt : Int) < retries by omega, ?_⟩
        obtain ⟨n, rfl⟩ : ∃ n : Nat, retries = attempt + n + 1 :=
          ⟨(retries - attempt - 1).toNat, by omega⟩
        dsimp only [SendPhase.timer, SendPhase.left]
        rw [show ((attempt + n + 1 : Int) - (attempt + 1)).toNat = n by omega,
          show ((attempt + n + 1 : Int) - attempt).toNat = n + 1 by omega, retryTime]
        omega
    · cases hnext
      exact ⟨rfl, trivial, hleft⟩
  | pausing attempt =>
    have hlt : (attempt : Int) < retries := hallowed
    dsimp only at hnext
    split at hnext
    · cases hnext
      refine ⟨rfl, trivial, ?_⟩
      dsimp only [SendPhase.timer, SendPhase.left]
      rw [if_pos (show ((attempt + 1 : Nat) : Int) ≤ retries by omega), Int.zero_add]
      exact Int.le_refl _
    · cases hnext
      exact ⟨rfl, trivial, hleft⟩
    · cases hnext
  | returned err => cases hnext

include hack hdelay in
/-- All timers that a call starts are within the time that was left. -/
theorem SendCall.armed_le (run : List (AckChoice × PutAckTracker)) {c : SendCall}
    (hallowed : c.phase.Allowed c.retries) :
    c.armed ackTimeout retryDelay run ≤ c.phase.left ackTimeout retryDelay c.retries := by
  induction run generalizing c with
  | nil => exact c.phase.left_nonneg hack hdelay c.retries
  | cons entry rest ih =>
    obtain ⟨choice, t⟩ := entry
    unfold SendCall.armed
    split
    · exact ih hallowed
    · next t' c' hnext =>
      obtain ⟨hretries, hallowed', htime⟩ := next_left hack hdelay hnext hallowed
      have hrest := ih (hretries.symm ▸ hallowed')
      rw [hretries] at hrest
      omega

end Time

/-- The durations are the exact ones, cut at the cap and at the largest duration, and no
execution of `sendBlobWithAck` starts timers for longer than a put waits. -/
theorem put_wait_covers (ackTimeout retryDelay : Int64) (hack : 0 < ackTimeout)
    (hdelay : 0 ≤ retryDelay) (retries : Int) (hretries : 0 ≤ retries)
    (hmost : retries < 2 ^ 63 - 1) :
    (∀ attempt, (retryDelayForAttempt retryDelay attempt).toInt =
      min (retryDelay.toInt * 2 ^ attempt) maxPutRetryDelay.toInt) ∧
    (putWaitTimeout ackTimeout retryDelay retries).toInt = min maxDuration.toInt
      (second.toInt + (retries + 1) * ackTimeout.toInt + ((List.range retries.toNat).map
        fun attempt => min (retryDelay.toInt * 2 ^ attempt) maxPutRetryDelay.toInt).sum) ∧
    ∀ id run, (SendCall.new id retries).armed ackTimeout retryDelay run ≤
        (putWaitTimeout ackTimeout retryDelay retries).toInt ∨
      putWaitTimeout ackTimeout retryDelay retries = maxDuration := by
  have hack' : 0 ≤ ackTimeout.toInt := Int.le_of_lt (Int64.lt_iff_toInt_lt.mp hack)
  have hdelay' : 0 ≤ retryDelay.toInt := Int64.le_iff_toInt_le.mp hdelay
  have hattempt := toInt_retryDelayForAttempt hdelay'
  have hmax := toInt_maxDuration
  have hsecond := toInt_second
  have hsum : ((List.range retries.toNat).map fun attempt =>
      min (retryDelay.toInt * 2 ^ attempt) maxPutRetryDelay.toInt) =
      (List.range retries.toNat).map fun attempt =>
        (retryDelayForAttempt retryDelay attempt).toInt :=
    List.map_congr_left fun attempt _ => (hattempt attempt).symm
  have hbudget : (putWaitTimeout ackTimeout retryDelay retries).toInt = min maxDuration.toInt
      (second.toInt + (retries + 1) * ackTimeout.toInt + ((List.range retries.toNat).map
        fun attempt => (retryDelayForAttempt retryDelay attempt).toInt).sum) := by
    have hwraps : Int.bmod (retries + 1) (2 ^ 64) = retries + 1 :=
      Int.bmod_eq_of_le (by omega) (by omega)
    have hacks := foldl_addDuration (fun _ => ackTimeout) (List.range (retries + 1).toNat)
      (fun _ _ => hack') (show 0 ≤ second.toInt by decide)
      (show second.toInt = min maxDuration.toInt second.toInt by decide)
    rw [List.map_const', List.sum_replicate, List.length_range, nsmul_eq_mul,
      show (((retries + 1).toNat : Nat) : Int) = retries + 1 by omega] at hacks
    have hnonneg := Int.mul_nonneg (show 0 ≤ retries + 1 by omega) hack'
    unfold putWaitTimeout
    rw [hwraps]
    exact foldl_addDuration _ _ (fun attempt _ => retryDelay_nonneg hdelay' attempt)
      (by omega) hacks
  refine ⟨hattempt, hsum ▸ hbudget, fun id run => ?_⟩
  -- A call that has not begun has the time of the budget left, without its second.
  have hrun := SendCall.armed_le hack' hdelay' run (c := .new id retries) trivial
  have hleft : SendPhase.left ackTimeout retryDelay retries (.registering 0) =
      (retries + 1) * ackTimeout.toInt + ((List.range retries.toNat).map
        fun attempt => (retryDelayForAttempt retryDelay attempt).toInt).sum := by
    dsimp only [SendPhase.left]
    rw [if_pos (show ((0 : Nat) : Int) ≤ retries from hretries), retryTime_eq,
      ← List.range_eq_range', show (retries - ((0 : Nat) : Int)).toNat = retries.toNat by omega,
      Int.toNat_of_nonneg hretries, Int.add_mul, Int.one_mul]
    omega
  change _ ≤ SendPhase.left ackTimeout retryDelay retries (.registering 0) at hrun
  by_cases hcut : (putWaitTimeout ackTimeout retryDelay retries).toInt = maxDuration.toInt
  · exact .inr (Int64.toInt_inj.mp hcut)
  · left
    omega

/-- With the shortest timeout and pause the sum is exact; with the longest one it is cut. -/
theorem put_wait_covers_extremes :
    (putWaitTimeout 1 1 2).toInt = 1000000006 ∧
    putWaitTimeout maxDuration maxDuration 1 = maxDuration ∧
    ∀ id run, (SendCall.new id 2).armed 1 1 run ≤ (putWaitTimeout 1 1 2).toInt ∨
      putWaitTimeout 1 1 2 = maxDuration :=
  ⟨by decide +kernel, by decide +kernel,
    (put_wait_covers 1 1 (by decide) (by decide) 2 (by decide) (by decide)).2.2⟩

end StreamHive.Replication

import Mathlib.Data.Finset.Card
import Mathlib.Data.Rat.Defs
import Mathlib.Algebra.Order.Field.Rat
import Mathlib.Tactic.Linarith
import Polycopy.Lib.Run

/-!
# The requests of a client

Every request of a `PolymarketClient` goes through `_get`. Any number of calls may be open
at once, and each goes

    check → waiting for a permit → sending → ended
      ↑                               ↓
      └────────── sleeping ───────────┘

`transport_bounded`, over every interleaving of the calls:

* no more requests are in flight than the semaphore has permits;
* a call sends at most three;
* a request to Gamma that is sent although Gamma is to be left alone was waiting for its
  permit when another call was told so. A client used by one call at a time never sends one.
-/

namespace Polycopy.Http

open Runs

def maxRetries : Nat := 3
def backoffBaseSeconds : ℚ := 1 / 2

/-- The header `Retry-After`, as `float` and `parsedate_to_datetime` read it; of a date
what is left until then. -/
inductive RetryHeader
  | missing
  | number (seconds : ℚ)
  | nan
  | infinity (positive : Bool)
  | date (remaining : ℚ)
  | unreadable
  deriving DecidableEq, Repr

/-- `_retry_after_seconds`. -/
def retryAfterSeconds : RetryHeader → ℚ
  | .missing | .unreadable => 60
  | .number seconds | .date seconds => min 300 (max 1 seconds)
  | .nan => 1
  | .infinity positive => if positive then 300 else 1

/-- How a request ends; of a body whether it is JSON. -/
inductive Response
  | transportError
  | status (code : Nat) (retryAfter : RetryHeader) (json : Bool)
  deriving DecidableEq, Repr

inductive CallResult
  | json
  | notJson
  | failed (retryAfter : Option ℚ)
  | cancelled
  deriving DecidableEq, Repr

inductive CallPc
  | check
  | waiting
  | sending
  | sleeping (wakeAt : ℚ)
  | ended (result : CallResult)
  deriving DecidableEq, Repr

/-- A call of `_get`: `gamma_request`, the turn of its loop, and where in the turn it is. -/
structure GetCall where
  gamma : Bool
  attempt : Nat
  pc : CallPc
  deriving DecidableEq, Repr

/-- The top of the loop. -/
def GetCall.checked (c : GetCall) (now backoffUntil : ℚ) : CallPc :=
  if c.gamma = true ∧ now < backoffUntil then .ended (.failed (some (backoffUntil - now)))
  else .waiting

/-- The end of a turn that may be followed by another. -/
def GetCall.again (c : GetCall) (now : ℚ) : CallPc :=
  if c.attempt < maxRetries - 1 then .sleeping (now + backoffBaseSeconds * 2 ^ c.attempt)
  else .ended (.failed none)

/-- A response, with a new `_gamma_backoff_until` if it sets one. -/
def GetCall.responded (c : GetCall) (now : ℚ) : Response → CallPc × Option ℚ
  | .transportError => (c.again now, none)
  | .status code retryAfter json =>
    if code = 200 then (.ended (if json then .json else .notJson), none)
    else if c.gamma = true ∧ code = 429 then
      (.ended (.failed (some (retryAfterSeconds retryAfter))),
        some (now + retryAfterSeconds retryAfter))
    else if code ∈ [429, 500, 502, 503, 504] then (c.again now, none)
    else (.ended (.failed none), none)

/-- A client. -/
structure Transport where
  clock : ℚ
  backoffUntil : ℚ
  permits : Nat
  calls : Nat → Option GetCall

def Transport.start (maxConcurrent : Nat) (clock : ℚ) : Transport :=
  ⟨clock, 0, maxConcurrent, fun _ => none⟩

def Transport.set (s : Transport) (i : Nat) (c : GetCall) : Transport :=
  { s with calls := Function.update s.calls i (some c) }

inductive TransportEvent
  | tick
  | calls (i : Nat)
  | checks (i : Nat)
  | acquires (i : Nat)
  | responds (i : Nat) (r : Response)
  | wakes (i : Nat)
  | cancels (i : Nat)
  deriving DecidableEq

inductive TransportStep (s : Transport) : TransportEvent → Transport → Prop
  | tick (clock : ℚ) : s.clock ≤ clock → TransportStep s .tick { s with clock := clock }
  | calls (i : Nat) (gamma : Bool) : s.calls i = none →
      TransportStep s (.calls i) (s.set i ⟨gamma, 0, .check⟩)
  | checks {i : Nat} {c : GetCall} : s.calls i = some c → c.pc = .check →
      TransportStep s (.checks i) (s.set i { c with pc := c.checked s.clock s.backoffUntil })
  | acquires {i : Nat} {c : GetCall} : s.calls i = some c → c.pc = .waiting → 0 < s.permits →
      TransportStep s (.acquires i) { s.set i { c with pc := .sending } with
        permits := s.permits - 1 }
  | responds {i : Nat} {c : GetCall} (r : Response) : s.calls i = some c → c.pc = .sending →
      TransportStep s (.responds i r)
        { s.set i { c with pc := (c.responded s.clock r).1 } with
          permits := s.permits + 1
          backoffUntil := (c.responded s.clock r).2.getD s.backoffUntil }
  | wakes {i : Nat} {c : GetCall} {wakeAt : ℚ} : s.calls i = some c →
      c.pc = .sleeping wakeAt → wakeAt ≤ s.clock →
      TransportStep s (.wakes i) (s.set i { c with attempt := c.attempt + 1, pc := .check })
  | cancels {i : Nat} {c : GetCall} : s.calls i = some c → (∀ result, c.pc ≠ .ended result) →
      TransportStep s (.cancels i)
        { s.set i { c with pc := .ended .cancelled } with
          permits := s.permits + if c.pc = .sending then 1 else 0 }

/-! ## In flight -/

def Transport.Sending (s : Transport) (i : Nat) : Prop := ∃ c, s.calls i = some c ∧ c.pc = .sending

theorem set_self (s : Transport) (i : Nat) (c : GetCall) :
    (s.set i c).calls i = some c := Function.update_self ..

theorem set_other {s : Transport} {i j : Nat} (hne : j ≠ i) (c : GetCall) :
    (s.set i c).calls j = s.calls j := Function.update_of_ne hne ..

theorem sending_set {s : Transport} {i : Nat} {c : GetCall} (j : Nat) :
    (∃ c', (s.set i c).calls j = some c' ∧ c'.pc = .sending) ↔
    (j = i ∧ c.pc = .sending) ∨ (j ≠ i ∧ s.Sending j) := by
  by_cases hj : j = i
  · subst hj
    rw [set_self]
    simp
  · rw [set_other hj]
    simp [hj, Transport.Sending]

/-- The permits that are out are those of the requests in flight. -/
def Transport.Permitted (maxConcurrent : Nat) (s : Transport) : Prop :=
  ∃ flying : Finset Nat, (∀ i, i ∈ flying ↔ s.Sending i) ∧ flying.card + s.permits = maxConcurrent

theorem checked_pc (c : GetCall) (now backoffUntil : ℚ) :
    c.checked now backoffUntil ≠ .sending := by
  unfold GetCall.checked
  split <;> exact nofun

/-- A turn ends in a sleep, unless it was the last. -/
theorem again_cases (c : GetCall) (now : ℚ) : (c.attempt ≤ 1 ∧ ∃ wakeAt,
    c.again now = .sleeping wakeAt) ∨ ∃ result, c.again now = .ended result := by
  unfold GetCall.again maxRetries
  split
  · next hlt => exact Or.inl ⟨Nat.le_of_lt_succ hlt, _, rfl⟩
  · exact Or.inr ⟨_, rfl⟩

/-- A response ends the turn or the call; one of them leaves Gamma alone. -/
theorem responded_cases (c : GetCall) (now : ℚ) (r : Response) :
    c.responded now r = (c.again now, none) ∨
      (∃ result, c.responded now r = (.ended result, none)) ∨
      ∃ retryAfter json, r = .status 429 retryAfter json ∧ c.gamma = true ∧
        c.responded now r = (.ended (.failed (some (retryAfterSeconds retryAfter))),
          some (now + retryAfterSeconds retryAfter)) := by
  cases r with
  | transportError => exact Or.inl rfl
  | status code retryAfter json =>
    unfold GetCall.responded
    by_cases hok : code = 200
    · exact Or.inr (Or.inl ⟨_, if_pos hok⟩)
    · by_cases hlimited : c.gamma = true ∧ code = 429
      · obtain ⟨hgamma, rfl⟩ := hlimited
        exact Or.inr (Or.inr ⟨retryAfter, json, rfl, hgamma, by simp [hgamma]⟩)
      · by_cases hretry : code ∈ [429, 500, 502, 503, 504]
        · exact Or.inl (by simp only [if_neg hok, if_neg hlimited, if_pos hretry])
        · exact Or.inr (Or.inl ⟨.failed none,
            by simp only [if_neg hok, if_neg hlimited, if_neg hretry]⟩)

/-- What follows a response is a sleep or the end. -/
theorem responded_next (c : GetCall) (now : ℚ) (r : Response) :
    (c.attempt ≤ 1 ∧ ∃ wakeAt, (c.responded now r).1 = .sleeping wakeAt) ∨
    ∃ result, (c.responded now r).1 = .ended result := by
  rcases responded_cases c now r with hr | ⟨result, hr⟩ | ⟨retryAfter, json, -, -, hr⟩
  · rw [hr]
    exact again_cases c now
  · exact Or.inr ⟨result, by rw [hr]⟩
  · exact Or.inr ⟨_, by rw [hr]⟩

theorem responded_pc (c : GetCall) (now : ℚ) (r : Response) :
    (c.responded now r).1 ≠ .sending ∧ (c.responded now r).1 ≠ .waiting := by
  rcases responded_next c now r with
    ⟨-, wakeAt, hr⟩ | ⟨result, hr⟩ <;> rw [hr] <;> exact ⟨nofun, nofun⟩

/-- A call that was not in flight and is not, and a call that was and no longer is. -/
theorem Transport.Permitted.set {maxConcurrent : Nat} {s : Transport}
    (h : s.Permitted maxConcurrent) {i : Nat} {c : GetCall} (hc : c.pc ≠ .sending) :
    ∃ flying : Finset Nat, (∀ j, j ∈ flying ↔
      ∃ c', (s.set i c).calls j = some c' ∧ c'.pc = .sending) ∧
      flying.card + (s.permits + if (s.calls i).any (fun c' => c'.pc = .sending) then 1
        else 0) = maxConcurrent := by
  obtain ⟨flying, hflying, hcard⟩ := h
  refine ⟨flying.erase i, fun j => ?_, ?_⟩
  · rw [sending_set, Finset.mem_erase, hflying]
    simp [hc]
  · have hmem : i ∈ flying ↔ (s.calls i).any (fun c' => c'.pc = .sending) = true := by
      rw [hflying]
      unfold Transport.Sending
      cases s.calls i <;> simp
    by_cases hi : i ∈ flying
    · rw [if_pos (hmem.mp hi), Finset.card_erase_of_mem hi]
      have hpos := Finset.card_pos.mpr ⟨i, hi⟩
      omega
    · rw [if_neg (fun hany => hi (hmem.mpr hany)), Finset.erase_eq_of_notMem hi]
      exact hcard

theorem Transport.Permitted.step {maxConcurrent : Nat} {s s' : Transport} {e : TransportEvent}
    (h : s.Permitted maxConcurrent)
    (hstep : TransportStep s e s') : s'.Permitted maxConcurrent := by
  cases hstep with
  | tick => exact h
  | calls i gamma hnone =>
    have hset := h.set (i := i) (c := ⟨gamma, 0, .check⟩) nofun
    rw [hnone] at hset
    exact hset
  | @checks i c hc hpc =>
    have hset :=
      h.set (i := i) (c := { c with pc := c.checked s.clock s.backoffUntil }) (checked_pc _ _ _)
    rw [hc, Option.any_some, hpc] at hset
    exact hset
  | @acquires i c hc hpc hpermits =>
    obtain ⟨flying, hflying, hcard⟩ := h
    have hnot : i ∉ flying := by
      rw [hflying]
      rintro ⟨c', hc', hsending⟩
      obtain rfl := Option.some.inj (hc.symm.trans hc')
      rw [hpc] at hsending
      cases hsending
    refine ⟨insert i flying, fun j => ?_, ?_⟩
    · show _ ↔ ∃ c', (s.set i { c with pc := .sending }).calls j = some c' ∧ c'.pc = .sending
      rw [sending_set, Finset.mem_insert, hflying]
      by_cases hj : j = i <;> simp [hj]
    · rw [Finset.card_insert_of_notMem hnot]
      show flying.card + 1 + (s.permits - 1) = maxConcurrent
      omega
  | @responds i c r hc hpc =>
    have hset :=
      h.set (i := i) (c := { c with pc := (c.responded s.clock r).1 }) (responded_pc _ _ _).1
    rw [hc, Option.any_some, hpc] at hset
    exact hset
  | @wakes i c wakeAt hc hpc =>
    have hset := h.set (i := i) (c := { c with attempt := c.attempt + 1, pc := .check }) nofun
    rw [hc, Option.any_some, hpc] at hset
    exact hset
  | @cancels i c hc hpc =>
    have hset := h.set (i := i) (c := { c with pc := .ended .cancelled }) nofun
    simp only [hc, Option.any_some, decide_eq_true_eq] at hset
    exact hset

/-! ## Three requests a call -/

/-- How many requests a call may still send. -/
def GetCall.remaining (c : GetCall) : Nat :=
  match c.pc with
  | .check | .waiting => 3 - c.attempt
  | .sending | .sleeping _ => 2 - c.attempt
  | .ended _ => 0

def Transport.remaining (s : Transport) (i : Nat) : Nat :=
  ((s.calls i).map GetCall.remaining).getD 3

/-- The turns of the loop. -/
def GetCall.Turned (c : GetCall) : Prop :=
  c.attempt ≤ 2 ∧ ∀ wakeAt, c.pc = .sleeping wakeAt → c.attempt ≤ 1

def Transport.Turned (s : Transport) : Prop := ∀ i c, s.calls i = some c → c.Turned

theorem turned_set {s : Transport} (h : s.Turned) {i : Nat} {c : GetCall} (hc : c.Turned) :
    ∀ j c', (s.set i c).calls j = some c' → c'.Turned := by
  intro j c' hc'
  by_cases hj : j = i
  · subst hj
    rw [set_self] at hc'
    exact Option.some.inj hc' ▸ hc
  · rw [set_other hj] at hc'
    exact h j c' hc'

theorem Transport.Turned.step {s s' : Transport} {e : TransportEvent} (h : s.Turned)
    (hstep : TransportStep s e s') : s'.Turned := by
  cases hstep with
  | tick => exact h
  | calls i gamma => exact turned_set h ⟨Nat.zero_le 2, nofun⟩
  | @checks i c hc =>
    refine turned_set h ⟨(h i c hc).1, fun wakeAt hsleeping => ?_⟩
    unfold GetCall.checked at hsleeping
    dsimp only at hsleeping
    split at hsleeping <;> cases hsleeping
  | @acquires i c hc => exact turned_set h ⟨(h i c hc).1, nofun⟩
  | @responds i c r hc =>
    refine turned_set h ⟨(h i c hc).1, fun wakeAt hsleeping => ?_⟩
    rcases responded_next c s.clock r with ⟨hle, -⟩ | ⟨result, hr⟩
    · exact hle
    · have hsleeping : (c.responded s.clock r).1 = .sleeping wakeAt := hsleeping
      rw [hr] at hsleeping
      cases hsleeping
  | @wakes i c wakeAt hc hpc =>
    exact turned_set h ⟨Nat.succ_le_succ ((h i c hc).2 wakeAt hpc), nofun⟩
  | @cancels i c hc => exact turned_set h ⟨(h i c hc).1, nofun⟩

theorem remaining_of {s : Transport} {i : Nat} {c : GetCall} (hc : s.calls i = some c) :
    s.remaining i = c.remaining := by
  unfold Transport.remaining
  rw [hc]
  rfl

theorem remaining_set {s : Transport} {j : Nat} {c : GetCall} {n : Nat}
    (hle : c.remaining + n ≤ s.remaining j) (i : Nat) :
    (s.set j c).remaining i + (if i = j then n else 0) ≤ s.remaining i := by
  by_cases hi : i = j
  · subst hi
    rw [if_pos rfl, remaining_of (set_self s i c)]
    exact hle
  · unfold Transport.remaining
    rw [if_neg hi, set_other hi]
    exact le_refl _

theorem responded_remaining {c : GetCall} (now : ℚ) (r : Response) :
    ({ c with pc := (c.responded now r).1 } : GetCall).remaining ≤ 2 - c.attempt := by
  rcases responded_next c now r with ⟨-, wakeAt, hr⟩ | ⟨result, hr⟩ <;> rw [hr]
  · exact le_refl _
  · exact Nat.zero_le _

/-- Only sending a request uses one up. -/
theorem remaining_step {s s' : Transport} {e : TransportEvent} (h : s.Turned)
    (hstep : TransportStep s e s') (i : Nat) :
    s'.remaining i + (decide (e = .acquires i)).toNat ≤ s.remaining i := by
  cases hstep with
  | tick => exact le_refl _
  | calls j gamma hnone =>
    have hle : (⟨gamma, 0, .check⟩ : GetCall).remaining + 0 ≤ s.remaining j := by
      unfold Transport.remaining
      rw [hnone]
      exact le_refl 3
    simpa using remaining_set hle i
  | @checks j c hc hpc =>
    have hle : ({ c with pc := c.checked s.clock s.backoffUntil } : GetCall).remaining +
        0 ≤ s.remaining j := by
      rw [remaining_of hc, show c.remaining = 3 - c.attempt by unfold GetCall.remaining; rw [hpc]]
      unfold GetCall.checked
      split
      · exact Nat.zero_le _
      · exact le_refl _
    simpa using remaining_set hle i
  | @acquires j c hc hpc hpermits =>
    have hturns := (h j c hc).1
    have hle : ({ c with pc := .sending } : GetCall).remaining + 1 ≤ s.remaining j := by
      rw [remaining_of hc]
      unfold GetCall.remaining
      rw [hpc]
      show 2 - c.attempt + 1 ≤ 3 - c.attempt
      omega
    have hset := remaining_set hle i
    by_cases hi : i = j
    · subst hi
      rw [if_pos rfl] at hset
      rw [decide_eq_true rfl]
      exact hset
    · rw [if_neg hi] at hset
      rw [decide_eq_false fun he => hi (TransportEvent.acquires.inj he).symm]
      exact hset
  | @responds j c r hc hpc =>
    have hle : ({ c with pc := (c.responded s.clock r).1 } : GetCall).remaining +
        0 ≤ s.remaining j := by
      rw [remaining_of hc, show c.remaining = 2 - c.attempt by unfold GetCall.remaining; rw [hpc]]
      exact responded_remaining s.clock r
    have hset := remaining_set hle i
    rw [ite_self] at hset
    exact hset
  | @wakes j c wakeAt hc hpc =>
    have hle : ({ c with attempt := c.attempt + 1, pc := .check } : GetCall).remaining +
        0 ≤ s.remaining j := by
      rw [remaining_of hc, show c.remaining = 2 - c.attempt by unfold GetCall.remaining; rw [hpc]]
      show 3 - (c.attempt + 1) ≤ 2 - c.attempt
      omega
    simpa using remaining_set hle i
  | @cancels j c hc =>
    have hle : ({ c with pc := .ended .cancelled } : GetCall).remaining + 0 ≤ s.remaining j :=
      Nat.zero_le _
    have hset := remaining_set hle i
    rw [ite_self] at hset
    exact hset

/-! ## Gamma left alone -/

theorem retryAfterSeconds_mem (r : RetryHeader) :
    1 ≤ retryAfterSeconds r ∧ retryAfterSeconds r ≤ 300 := by
  have hclamp : ∀ q : ℚ, 1 ≤ min 300 (max 1 q) ∧ min 300 (max 1 q) ≤ 300 :=
    fun q => ⟨le_min (by norm_num) (le_max_left _ _), min_le_left _ _⟩
  cases r with
  | missing | unreadable | nan => constructor <;> norm_num [retryAfterSeconds]
  | number seconds | date seconds => exact hclamp seconds
  | infinity positive => cases positive <;> constructor <;> norm_num [retryAfterSeconds]

/-- A response that sets a time until which Gamma is left alone. -/
theorem responded_backoff {c : GetCall} {now : ℚ} {r : Response} {backoffUntil : ℚ}
    (h : (c.responded now r).2 = some backoffUntil) :
    backoffUntil ≤ now + 300 ∧ c.gamma = true ∧ ∃ retryAfter json, r = .status 429 retryAfter json ∧
      backoffUntil = now + retryAfterSeconds retryAfter := by
  rcases responded_cases c now r with hr | ⟨result, hr⟩ | ⟨retryAfter, json, rfl, hgamma, hr⟩
  · rw [hr] at h
    cases h
  · rw [hr] at h
    cases h
  · rw [hr] at h
    obtain rfl := Option.some.inj h
    exact ⟨by linarith [(retryAfterSeconds_mem retryAfter).2], hgamma, retryAfter, json, rfl, rfl⟩

/-- A call to Gamma that has passed its check and waits for a permit. -/
def Transport.Waiting (s : Transport) (i : Nat) : Prop :=
  ∃ c, s.calls i = some c ∧ c.gamma = true ∧ c.pc = .waiting

theorem waiting_set {s : Transport} {i j : Nat} {c : GetCall}
    (h : ∃ c', (s.set j c).calls i = some c' ∧ c'.gamma = true ∧ c'.pc = .waiting) :
    (i = j ∧ c.gamma = true ∧ c.pc = .waiting) ∨ (i ≠ j ∧ s.Waiting i) := by
  obtain ⟨c', hc', hw⟩ := h
  by_cases hi : i = j
  · subst hi
    rw [set_self] at hc'
    exact Or.inl ⟨rfl, Option.some.inj hc' ▸ hw⟩
  · rw [set_other hi] at hc'
    exact Or.inr ⟨hi, c', hc', hw⟩

/-- Another call to Gamma, in flight, is told to leave it alone, and the cooldown is set. -/
def ToldMeanwhile (s : Transport) (e : TransportEvent) (s' : Transport) (i : Nat) : Prop :=
  ∃ j c retryAfter json, e = .responds j (.status 429 retryAfter json) ∧
    j ≠ i ∧ s.calls j = some c ∧
    c.gamma = true ∧ c.pc = .sending ∧ s'.backoffUntil = s.clock + retryAfterSeconds retryAfter

/-- What makes a waiting call one that Gamma is to be spared: another call was told so. -/
theorem told_meanwhile {s s' : Transport} {e : TransportEvent}
    (hstep : TransportStep s e s') {i : Nat} (hnot : ¬ (s.Waiting i ∧ s.clock < s.backoffUntil))
    (hwaiting : s'.Waiting i) (hcool : s'.clock < s'.backoffUntil) :
    s.Waiting i ∧ ToldMeanwhile s e s' i := by
  cases hstep with
  | tick clock hle => exact absurd ⟨hwaiting, hle.trans_lt hcool⟩ hnot
  | calls j gamma =>
    rcases waiting_set hwaiting with ⟨-, -, hpc⟩ | ⟨-, hw⟩
    · cases hpc
    · exact absurd ⟨hw, hcool⟩ hnot
  | @checks j c hc hpc =>
    rcases waiting_set hwaiting with ⟨-, hgamma, hchecked⟩ | ⟨-, hw⟩
    · -- the check itself refuses while Gamma is to be left alone
      have hcool : s.clock < s.backoffUntil := hcool
      have hgamma : c.gamma = true := hgamma
      have hchecked : c.checked s.clock s.backoffUntil = .waiting := hchecked
      unfold GetCall.checked at hchecked
      rw [if_pos ⟨hgamma, hcool⟩] at hchecked
      cases hchecked
    · exact absurd ⟨hw, hcool⟩ hnot
  | @acquires j c hc hpc hpermits =>
    rcases waiting_set hwaiting with ⟨-, -, hpc⟩ | ⟨-, hw⟩
    · cases hpc
    · exact absurd ⟨hw, hcool⟩ hnot
  | @responds j c r hc hpc =>
    rcases waiting_set hwaiting with ⟨-, -, hpc'⟩ | ⟨hne, hw⟩
    · have hpc' : (c.responded s.clock r).1 = .waiting := hpc'
      exact absurd hpc' (responded_pc c s.clock r).2
    · cases hb : (c.responded s.clock r).2 with
      | none =>
        rw [hb] at hcool
        exact absurd ⟨hw, hcool⟩ hnot
      | some backoffUntil =>
        obtain ⟨-, hgamma, retryAfter, json, rfl, hset⟩ := responded_backoff hb
        exact ⟨hw, j, c, retryAfter, json, rfl, fun he => hne he.symm, hc, hgamma, hpc, hset⟩
  | @wakes j c wakeAt hc hpc =>
    rcases waiting_set hwaiting with ⟨-, -, hpc⟩ | ⟨-, hw⟩
    · cases hpc
    · exact absurd ⟨hw, hcool⟩ hnot
  | @cancels j c hc hpc =>
    rcases waiting_set hwaiting with ⟨-, -, hpc⟩ | ⟨-, hw⟩
    · cases hpc
    · exact absurd ⟨hw, hcool⟩ hnot

/-- Gamma is never to be left alone for more than five minutes. -/
theorem backoff_step {s s' : Transport} {e : TransportEvent} (h : s.backoffUntil ≤ s.clock + 300)
    (hstep : TransportStep s e s') :
    s'.backoffUntil ≤ s'.clock + 300 := by
  cases hstep with
  | tick clock hle =>
    show s.backoffUntil ≤ clock + 300
    linarith
  | @responds j c r hc hpc =>
    show (c.responded s.clock r).2.getD s.backoffUntil ≤ s.clock + 300
    cases hb : (c.responded s.clock r).2 with
    | none => exact h
    | some backoffUntil => exact (responded_backoff hb).1
  | calls | checks | acquires | wakes | cancels => exact h

/-- A client under any number of calls, over every interleaving of their turns, answers, sleeps and
cancellations: the requests in flight are as many as the permits that are out; a call sends three at
most; Gamma is never to be left alone for more than five minutes, and a request to Gamma that is
sent meanwhile was waiting for its permit when another request to Gamma, in flight, was told. -/
theorem transport_bounded {maxConcurrent : Nat} {clock : ℚ} (hclock : 0 ≤ clock)
    {tr : List (TransportEvent × Transport)} {s : Transport}
    (h : Run TransportStep (Transport.start maxConcurrent clock) tr s) :
    (∃ flying : Finset Nat, (∀ i, i ∈ flying ↔ s.Sending i) ∧ flying.card ≤ maxConcurrent) ∧
      (∀ i, tr.countP (fun x => x.1 = .acquires i) ≤ 3) ∧
      s.backoffUntil ≤ s.clock + 300 ∧
      ∀ i, s.Waiting i → s.clock < s.backoffUntil →
        ∃ earlier u e v later, tr = earlier ++ (e, v) :: later ∧
        Run TransportStep (Transport.start maxConcurrent clock) earlier u ∧
        TransportStep u e v ∧ u.Waiting i ∧
        ToldMeanwhile u e v i ∧ ∀ x ∈ later, x.2.Waiting i := by
  have hpermitted₀ : (Transport.start maxConcurrent clock).Permitted maxConcurrent := by
    refine ⟨∅, fun i => ?_, by simp [Transport.start]⟩
    simp [Transport.Sending, Transport.start]
  have hturned₀ : (Transport.start maxConcurrent clock).Turned := nofun
  obtain ⟨flying, hflying, hcard⟩ :=
    h.inv (Transport.Permitted maxConcurrent) (fun _ _ _ hs hstep => hs.step hstep) hpermitted₀
  refine ⟨⟨flying, hflying, by omega⟩, fun i => ?_, ?_, fun i hwaiting hcool => ?_⟩
  · have hranked := h.ranked (fun e => decide (e = .acquires i))
      (fun s => s.remaining i) Transport.Turned (fun _ => False)
      (fun _ _ _ hs hstep => hs.step hstep) (fun _ _ _ hs hstep =>
        Or.inr (remaining_step hs hstep i)) hturned₀
    rcases hranked with ⟨x, -, hx⟩ | hle
    · exact hx.elim
    · exact (Nat.le_add_left _ _).trans hle
  · refine h.inv (fun s => s.backoffUntil ≤ s.clock + 300)
      (fun _ _ _ hs hstep => backoff_step hs hstep) ?_
    show (0 : ℚ) ≤ clock + 300
    linarith
  · have hnot : ¬ (Transport.start maxConcurrent clock).Waiting i := by
      rintro ⟨c, hc, -⟩
      cases hc
    obtain ⟨earlier, e, v, later, u, rfl, hearlier, hstep, -, hu, hv, hlater⟩ :=
      h.rise (fun s => s.Waiting i ∧ s.clock < s.backoffUntil)
        (fun hw => hnot hw.1) ⟨hwaiting, hcool⟩
    obtain ⟨hwu, htold⟩ := told_meanwhile hstep hu hv.1 hv.2
    exact ⟨earlier, u, e, v, later, rfl, hearlier, hstep, hwu, htold, fun x hx => (hlater x hx).1⟩

/-- Two calls to Gamma over one permit: the first is told to wait a minute, and the second
has passed its check. -/
theorem transport_bounded_two : ∃ tr s, Run TransportStep (Transport.start 1 0) tr s ∧
    s.Waiting 1 ∧ s.clock < s.backoffUntil ∧
    (∃ x ∈ tr, ∃ j retryAfter json, x.1 = .responds j (.status 429 retryAfter json) ∧ j ≠ 1) := by
  let asked : GetCall := ⟨true, 0, .check⟩
  let passed : GetCall := ⟨true, 0, .waiting⟩
  let sent : GetCall := ⟨true, 0, .sending⟩
  let both := ((Transport.start 1 0).set 0 asked).set 1 asked
  let waiting := (both.set 0 passed).set 1 passed
  let flying : Transport := { waiting.set 0 sent with permits := 0 }
  let answer := sent.responded 0 (.status 429 .missing false)
  let told : Transport :=
  { flying.set 0 { sent with pc := answer.1 } with permits := 1, backoffUntil := answer.2.getD 0 }
  have hfirst : TransportStep (Transport.start 1 0) (.calls 0)
    ((Transport.start 1 0).set 0 asked) := .calls 0 true rfl
  have hsecond : TransportStep ((Transport.start 1 0).set 0 asked) (.calls 1) both :=
    .calls 1 true rfl
  have hcheck : TransportStep both (.checks 0) (both.set 0 passed) :=
    @TransportStep.checks both 0 asked rfl rfl
  have hcheck' : TransportStep (both.set 0 passed) (.checks 1) waiting :=
    @TransportStep.checks (both.set 0 passed) 1 asked rfl rfl
  have hacquire : TransportStep waiting (.acquires 0) flying :=
    @TransportStep.acquires waiting 0 passed rfl rfl Nat.one_pos
  have htold : TransportStep flying (.responds 0 (.status 429 .missing false)) told :=
    @TransportStep.responds flying 0 sent (.status 429 .missing false) rfl rfl
  have hrun := (((((Run.single hfirst).snoc _ _ hsecond).snoc _ _ hcheck).snoc _ _ hcheck').snoc
    _ _ hacquire).snoc _ _ htold
  have hwaiting : told.Waiting 1 := ⟨passed, rfl, rfl, rfl⟩
  have hcool : told.clock < told.backoffUntil := by
    show (0 : ℚ) < answer.2.getD 0
    decide +kernel
  obtain ⟨earlier, u, e, v, later, htr, -, -, -, ⟨j, c, retryAfter, json, rfl, hne, -⟩, -⟩ :=
    (transport_bounded (le_refl 0) hrun).2.2.2 1 hwaiting hcool
  exact ⟨_, told, hrun, hwaiting, hcool, (_, v), htr ▸ List.mem_append_right _ List.mem_cons_self,
    j, retryAfter, json, rfl, hne⟩

end Polycopy.Http

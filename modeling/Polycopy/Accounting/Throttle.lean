import Polycopy.Accounting.Settlements

/-!
# The Gamma cooldown across processes

Each call of `refresh_settlements` reads the row of `api_throttles` before its
first lookup, keeps the object, and after a 429 writes the later of the time it
holds and its own, by primary key.  The row is inserted when the call found
none.  So another call's commit in between is overwritten, or the insert meets
a row.
-/

namespace Polycopy

open Py Runs

/-! ## The write after a 429 -/

/-- What the flush sends for the row: nothing when the attribute keeps its value. -/
inductive ThrottleWrite
  | unchanged
  | insert (nextAllowedAt : Time)
  | update (nextAllowedAt : Time)

def throttleWrite (held : Option Time) (now seconds : Time) : ThrottleWrite :=
  match held with
  | none => .insert (max now (now + seconds))
  | some due =>
    let next := max due (now + seconds)
    if next = due then .unchanged else .update next

theorem throttleWrite_some (due now seconds : Time) :
    throttleWrite (some due) now seconds = if due < now + seconds then
    .update (now + seconds) else .unchanged := by
  unfold throttleWrite
  dsimp only
  by_cases h : due < now + seconds
  · rw [max_eq_right h.le, if_neg h.ne', if_pos h]
  · rw [max_eq_left (not_lt.mp h), if_pos rfl, if_neg h]

/-- The row after the flush: the key is unique, and an `UPDATE` has to find its row. -/
def ThrottleWrite.flush : ThrottleWrite → Option Time → Except Exc (Option Time)
  | .unchanged, row => .ok row
  | .insert t, none => .ok (some t)
  | .insert _, some _ => .error .other
  | .update t, some _ => .ok (some t)
  | .update _, none => .error .other

theorem flush_isSome {w : ThrottleWrite} {row row' : Option Time} (h : w.flush row = .ok row')
    (hrow : row.isSome = true) : row'.isSome = true := by
  unfold ThrottleWrite.flush at h
  split at h
  · exact Except.ok.inj h ▸ hrow
  · exact Except.ok.inj h ▸ rfl
  · cases h
  · exact Except.ok.inj h ▸ rfl
  · cases h

/-! ## Any number of calls at once -/

inductive RefreshPc
  | idle
  /-- `gamma_backoff_active` found no row; `throttle` is read next. -/
  | again (now : Time)
  /-- In the loop, with `throttle` as it was read. -/
  | checking (now : Time) (held : Option Time)
  /-- The flush of the row raised. -/
  | raised
  deriving DecidableEq

structure Refreshes (ι : Type) where
  db : Db
  pcs : ι → RefreshPc

/-- `elsewhere` is any commit that leaves the row alone: a market checked without
a 429, or other work. -/
inductive RefreshesEvent (ι : Type)
  | begin (p : ι) (now : Time)
  | again (p : ι)
  | limited (p : ι) (marketId : Nat) (seconds : Time)
  | ended (p : ι)
  | elsewhere

variable {ι : Type} [DecidableEq ι]

namespace Refreshes

def goto (s : Refreshes ι) (p : ι) (pc : RefreshPc) : Refreshes ι :=
  { s with pcs := Function.update s.pcs p pc }

/-- The first read: a row that is still due ends the call, the object of another one is kept. -/
def beginPc (db : Db) (now : Time) : RefreshPc :=
  if gammaBackoffActive db now then .idle
  else match db.gammaThrottle with
    | none => .again now
    | some due => .checking now (some due)

/-- The commit after a 429: the market and the row, or nothing. -/
def limit (s : Refreshes ι) (p : ι) (m : Market) (now : Time) (held : Option Time)
    (seconds : Time) : Refreshes ι :=
  match (throttleWrite held now seconds).flush s.db.gammaThrottle with
  | .ok row =>
    { s with db := { updateMarket m.id m.write s.db with gammaThrottle := row } }.goto p .idle
  | .error _ => s.goto p .raised

end Refreshes

inductive RefreshesStep (s : Refreshes ι) : RefreshesEvent ι → Refreshes ι → Prop
  | begin (p : ι) (now : Time) (pc : s.pcs p = .idle) :
      RefreshesStep s (.begin p now) (s.goto p (Refreshes.beginPc s.db now))
  | again (p : ι) (now : Time) (pc : s.pcs p = .again now) :
      RefreshesStep s (.again p) (s.goto p (.checking now s.db.gammaThrottle))
  | limited (p : ι) (m : Market) (now : Time) (held : Option Time) (seconds : Time)
      (pc : s.pcs p = .checking now held)
      (wait : 0 ≤ seconds) : RefreshesStep s (.limited p m.id seconds) (s.limit p m now held seconds)
  -- the loop is over, or the process has stopped
  | ended (p : ι) : RefreshesStep s (.ended p) (s.goto p .idle)
  | elsewhere (db : Db) (row : db.gammaThrottle = s.db.gammaThrottle) :
      RefreshesStep s .elsewhere { s with db := db }

/-! ## When the row moves forward -/

/-- The committed time, if there is one, is still there and no earlier. -/
def Advances (before after : Option Time) : Prop :=
  ∀ t, before = some t → ∃ t', after = some t' ∧ t ≤ t'

/-- The cooldown is monotone over the step, and no call raises on its row. -/
def Cooldown (s : Refreshes ι) (_ : RefreshesEvent ι) (t : Refreshes ι) : Prop :=
  Advances s.db.gammaThrottle t.db.gammaThrottle ∧ ∀ p, t.pcs p = .raised → s.pcs p = .raised

/-- What a call that is about to write `next` has to find: no row, if it holds none, and no later
time than its own, if it moves the one it holds. -/
def StillHeld (row held : Option Time) (next : Time) : Prop :=
  match held with
  | none => row = none
  | some due => due < next → ∀ t, row = some t → t ≤ next

def Unmoved (s : Refreshes ι) (e : RefreshesEvent ι) (_ : Refreshes ι) : Prop :=
  ∀ p marketId seconds now held, e = .limited p marketId seconds → s.pcs p = .checking now held →
    StillHeld s.db.gammaThrottle held (now + seconds)

/-- A call that holds the row's object has the row to write to. -/
def Refreshes.Ok (s : Refreshes ι) : Prop :=
  ∀ p now due, s.pcs p = .checking now (some due) → s.db.gammaThrottle.isSome = true

theorem Advances.refl (row : Option Time) : Advances row row := fun t h => ⟨t, h, le_refl t⟩

theorem pcs_goto (s : Refreshes ι) (p q : ι) (pc : RefreshPc) :
    (s.goto p pc).pcs q = if q = p then pc else s.pcs q := by
  unfold Refreshes.goto
  exact Function.update_apply s.pcs p pc q

/-- A step to a place where a row is held, but by the one that has just read
it, leaves the others. -/
theorem Refreshes.Ok.goto {s : Refreshes ι} (h : s.Ok) {p : ι} {pc : RefreshPc}
    (hpc : ∀ now due, pc = .checking now (some due) → s.db.gammaThrottle.isSome = true) :
    (s.goto p pc).Ok := by
  intro q now due hq
  rw [pcs_goto] at hq
  by_cases hqp : q = p
  · rw [if_pos hqp] at hq
    exact hpc now due hq
  · rw [if_neg hqp] at hq
    exact h q now due hq

theorem RefreshesStep.ok {s t : Refreshes ι} {e : RefreshesEvent ι} (h : s.Ok)
    (hs : RefreshesStep s e t) : t.Ok := by
  cases hs with
  | begin p now pc =>
    refine h.goto fun now' due hpc => ?_
    unfold Refreshes.beginPc at hpc
    split at hpc
    · cases hpc
    · split at hpc
      · cases hpc
      · next row hrow => rw [hrow]; rfl
  | again p now pc =>
    refine h.goto fun now' due hpc => ?_
    obtain ⟨-, hrow⟩ := RefreshPc.checking.inj hpc
    rw [hrow]
    rfl
  | limited p m now held seconds pc wait =>
    unfold Refreshes.limit
    split
    · next row hrow =>
      intro q now' due hq
      rw [pcs_goto] at hq
      by_cases hqp : q = p
      · rw [if_pos hqp] at hq
        cases hq
      · rw [if_neg hqp] at hq
        exact flush_isSome hrow (h q now' due hq)
    · exact h.goto fun now' due hpc => by cases hpc
  | ended p => exact h.goto fun now due hpc => by cases hpc
  | elsewhere db row =>
    intro q now due hq
    rw [row]
    exact h q now due hq

/-- A step that leaves the row alone and goes anywhere but to `raised`. -/
theorem cooldown_goto {s : Refreshes ι} {e : RefreshesEvent ι} {p : ι}
    {pc : RefreshPc} (hpc : pc ≠ .raised) :
    Cooldown s e (s.goto p pc) := by
  refine ⟨Advances.refl _, fun q hq => ?_⟩
  rw [pcs_goto] at hq
  by_cases hqp : q = p
  · rw [if_pos hqp] at hq
    exact absurd hq hpc
  · rwa [if_neg hqp] at hq

omit [DecidableEq ι] in
theorem unmoved_limited {s t : Refreshes ι} {p : ι} {marketId : Nat}
    {now seconds : Time} {held : Option Time} (pc : s.pcs p = .checking now held) :
    Unmoved s (.limited p marketId seconds) t ↔
    StillHeld s.db.gammaThrottle held (now + seconds) := by
  constructor
  · exact fun h => h p marketId seconds now held rfl pc
  · intro h p' marketId' seconds' now' held' he hpc
    obtain ⟨rfl, -, rfl⟩ := RefreshesEvent.limited.inj he
    obtain ⟨rfl, rfl⟩ := RefreshPc.checking.inj (pc.symm.trans hpc)
    exact h

/-- The write of one call, where it is committed. -/
theorem cooldown_written {s : Refreshes ι} {e : RefreshesEvent ι} {p : ι} {db : Db} :
    Cooldown s e ({ s with db := db }.goto p .idle) ↔
    Advances s.db.gammaThrottle db.gammaThrottle := by
  constructor
  · exact fun h => h.1
  · refine fun h => ⟨h, fun q hq => ?_⟩
    rw [pcs_goto] at hq
    by_cases hqp : q = p
    · rw [if_pos hqp] at hq
      cases hq
    · rwa [if_neg hqp] at hq

theorem cooldown_raised {s : Refreshes ι} {e : RefreshesEvent ι} {p : ι} (hpc : s.pcs p ≠ .raised) :
    ¬ Cooldown s e (s.goto p .raised) := by
  intro h
  refine hpc (h.2 p ?_)
  rw [pcs_goto, if_pos rfl]

theorem limit_cooldown {s : Refreshes ι} (hok : s.Ok) {p : ι} (m : Market)
    {now seconds : Time} {held : Option Time} (pc : s.pcs p = .checking now held) :
    Cooldown s (.limited p m.id seconds) (s.limit p m now held seconds) ↔
      Unmoved s (.limited p m.id seconds) (s.limit p m now held seconds) := by
  have hpc : s.pcs p ≠ .raised := by
    rw [pc]
    exact fun h => by cases h
  rw [unmoved_limited pc]
  unfold Refreshes.limit StillHeld
  cases held with
  | none =>
    -- an insert: it raises exactly where there is a row
    cases hrow : s.db.gammaThrottle with
    | none =>
      show Cooldown s _ ({ s with db := _ }.goto p .idle) ↔ _
      rw [cooldown_written, hrow]
      exact ⟨fun _ => rfl, fun _ t ht => by cases ht⟩
    | some t =>
      show Cooldown s _ (s.goto p .raised) ↔ _
      exact ⟨fun h => absurd h (cooldown_raised hpc), fun h => by cases h⟩
  | some due =>
    obtain ⟨t, hrow⟩ := Option.isSome_iff_exists.mp (hok p now due pc)
    rw [throttleWrite_some, hrow]
    dsimp only
    by_cases hdue : due < now + seconds
    · rw [if_pos hdue]
      show Cooldown s _ ({ s with db := _ }.goto p .idle) ↔ _
      rw [cooldown_written, hrow]
      constructor
      · intro h _ t' ht'
        obtain rfl := Option.some.inj ht'
        obtain ⟨next, hnext, hle⟩ := h _ rfl
        obtain rfl := Option.some.inj hnext
        exact hle
      · intro h t' ht'
        exact ⟨_, rfl, h hdue t' ht'⟩
    · rw [if_neg hdue]
      show Cooldown s _ ({ s with db := _ }.goto p .idle) ↔ _
      rw [cooldown_written, hrow]
      exact ⟨fun _ hlt => absurd hlt hdue, fun _ => Advances.refl _⟩

theorem RefreshesStep.cooldown_iff {s t : Refreshes ι} {e : RefreshesEvent ι}
    (hok : s.Ok) (hs : RefreshesStep s e t) :
    Cooldown s e t ↔ Unmoved s e t := by
  have quiet : (∀ p marketId seconds, e ≠ .limited p marketId seconds) → Unmoved s e t :=
    fun hne p marketId seconds now held he => absurd he (hne p marketId seconds)
  cases hs with
  | begin p now pc =>
    refine ⟨fun _ => quiet fun _ _ _ he => (by cases he), fun _ => cooldown_goto fun hraised => ?_⟩
    unfold Refreshes.beginPc at hraised
    split at hraised
    · cases hraised
    · split at hraised <;> cases hraised
  | again p now pc =>
    exact ⟨fun _ => quiet fun _ _ _ he => (by cases he), fun _ => cooldown_goto fun h => by cases h⟩
  | limited p m now held seconds pc wait => exact limit_cooldown hok m pc
  | ended p =>
    exact ⟨fun _ => quiet fun _ _ _ he => (by cases he), fun _ => cooldown_goto fun h => by cases h⟩
  | elsewhere db row =>
    refine ⟨fun _ => quiet fun _ _ _ he => (by cases he), fun _ => ⟨?_, fun p hp => hp⟩⟩
    show Advances s.db.gammaThrottle db.gammaThrottle
    rw [row]
    exact Advances.refl _

/-! ## The theorem -/

/-- Along a run the cooldown is monotone and no call raises on its row, exactly if each call that
writes finds the row as it read it, or earlier than what it writes. -/
theorem gamma_cooldown_monotone_iff (s t : Refreshes ι) (tr : List (RefreshesEvent ι × Refreshes ι))
    (hstart : ∀ p, s.pcs p = .idle) (hrun : Run RefreshesStep s tr t) :
    Each Cooldown s tr ↔ Each Unmoved s tr := by
  refine hrun.each_iff Refreshes.Ok (fun _ _ _ hok hs _ => hs.ok hok)
    (fun _ _ _ hok hs => hs.cooldown_iff hok) ?_
  intro p now due hp
  rw [hstart p] at hp
  cases hp

/-! Two calls, the bot's and the API's. -/

def cooledUntil (row : Option Time) : Refreshes Bool :=
  ⟨{ Db.empty with gammaThrottle := row }, fun _ => .idle⟩

def someMarket : Market := ⟨1, "0xm", "", .null, none, .null, true, false, none, none, none, 0⟩

def begun (s : Refreshes Bool) (p : Bool) : Refreshes Bool := s.goto p (Refreshes.beginPc s.db 0)

def begunAgain (s : Refreshes Bool) (p : Bool) : Refreshes Bool :=
  s.goto p (.checking 0 s.db.gammaThrottle)

def limitedAt (s : Refreshes Bool) (p : Bool) (held : Option Time)
    (seconds : Time) : Refreshes Bool :=
  s.limit p someMarket 0 held seconds

/-- Both have read a row that is not due. -/
def bothRead : Refreshes Bool := begun (begun (cooledUntil (some 0)) true) false

/-- Both have found no row. -/
def bothFound : Refreshes Bool :=
  begunAgain (begunAgain (begun (begun (cooledUntil none) true) false) true) false

theorem bothRead_run : ∃ tr, Run RefreshesStep (cooledUntil (some 0)) tr bothRead := by
  have hfirst : RefreshesStep (cooledUntil (some 0)) (.begin true 0)
    (begun (cooledUntil (some 0)) true) := .begin true 0 rfl
  have hsecond : RefreshesStep (begun (cooledUntil (some 0)) true) (.begin false 0) bothRead :=
    .begin false 0 (by decide +kernel)
  exact ⟨_, (Run.single hfirst).snoc _ _ hsecond⟩

theorem bothFound_run : ∃ tr, Run RefreshesStep (cooledUntil none) tr bothFound := by
  have hfirst : RefreshesStep (cooledUntil none) (.begin true 0) (begun (cooledUntil none) true) :=
    .begin true 0 rfl
  have hsecond : RefreshesStep (begun (cooledUntil none) true) (.begin false 0)
      (begun (begun (cooledUntil none) true) false) := .begin false 0 (by decide +kernel)
  have hthird : RefreshesStep (begun (begun (cooledUntil none) true) false) (.again true)
      (begunAgain (begun (begun (cooledUntil none) true) false) true) :=
      .again true 0 (by decide +kernel)
  have hfourth : RefreshesStep (begunAgain (begun (begun (cooledUntil none) true) false) true)
      (.again false) bothFound :=
    .again false 0 (by decide +kernel)
  exact ⟨_, (((Run.single hfirst).snoc _ _ hsecond).snoc _ _ hthird).snoc _ _ hfourth⟩

/-- A cooldown of 300 seconds is cut to 60; and a call raises on the row the other has inserted. -/
theorem gamma_cooldown_two_calls :
    (∃ tr t, Run RefreshesStep (cooledUntil (some 0)) tr t ∧
      ¬ Each Cooldown (cooledUntil (some 0)) tr) ∧
    (∃ tr t, Run RefreshesStep (cooledUntil none) tr t ∧ ¬ Each Cooldown (cooledUntil none) tr ∧
      t.pcs false = .raised) := by
  constructor
  · obtain ⟨tr, hrun⟩ := bothRead_run
    have hfirst : RefreshesStep bothRead (.limited true 1 300)
        (limitedAt bothRead true (some 0) 300) :=
      .limited true someMarket 0 (some 0) 300 (by decide +kernel) (by norm_num)
    have hsecond : RefreshesStep (limitedAt bothRead true (some 0) 300) (.limited false 1 60)
        (limitedAt (limitedAt bothRead true (some 0) 300) false (some 0) 60) :=
      .limited false someMarket 0 (some 0) 60 (by decide +kernel) (by norm_num)
    have hlimited := hrun.snoc _ _ hfirst
    refine ⟨_, _, hlimited.snoc _ _ hsecond, fun h => ?_⟩
    have hlast := ((each_snoc _ _ _ _ _).mp h).2
    rw [hlimited.last_eq] at hlast
    obtain ⟨t, ht, hle⟩ := hlast.1 300 (by decide +kernel)
    have hrow : (limitedAt (limitedAt bothRead true (some 0) 300) false
        (some 0) 60).db.gammaThrottle = some 60 := by
      decide +kernel
    obtain rfl := Option.some.inj (ht.symm.trans hrow)
    exact absurd hle (by norm_num)
  · obtain ⟨tr, hrun⟩ := bothFound_run
    have hfirst : RefreshesStep bothFound (.limited true 1 300)
        (limitedAt bothFound true none 300) :=
      .limited true someMarket 0 none 300 (by decide +kernel) (by norm_num)
    have hsecond : RefreshesStep (limitedAt bothFound true none 300) (.limited false 1 60)
        (limitedAt (limitedAt bothFound true none 300) false none 60) :=
      .limited false someMarket 0 none 60 (by decide +kernel) (by norm_num)
    have hlimited := hrun.snoc _ _ hfirst
    refine ⟨_, _, hlimited.snoc _ _ hsecond, fun h => ?_, by decide +kernel⟩
    have hlast := ((each_snoc _ _ _ _ _).mp h).2
    rw [hlimited.last_eq] at hlast
    exact absurd (hlast.2 false (by decide +kernel)) (by decide +kernel)

/-- Calls that follow one another keep the cooldown monotone. -/
theorem gamma_cooldown_monotone_iff_alone :
    ∃ tr, Run RefreshesStep (cooledUntil (some 0)) tr
      (limitedAt (begun (cooledUntil (some 0)) true) true (some 0) 60) ∧
      Each Cooldown (cooledUntil (some 0)) tr := by
  have hbegin : RefreshesStep (cooledUntil (some 0)) (.begin true 0)
    (begun (cooledUntil (some 0)) true) := .begin true 0 rfl
  have hlimited : RefreshesStep (begun (cooledUntil (some 0)) true) (.limited true 1 60)
      (limitedAt (begun (cooledUntil (some 0)) true) true (some 0) 60) :=
    .limited true someMarket 0 (some 0) 60 (by decide +kernel) (by norm_num)
  refine ⟨_, (Run.single hbegin).snoc _ _ hlimited, ?_⟩
  refine (gamma_cooldown_monotone_iff _ _ _ (fun _ => rfl)
    ((Run.single hbegin).snoc _ _ hlimited)).mpr ?_
  refine ⟨fun p marketId seconds now held he => (by cases he),
    fun p marketId seconds now held he hpc => ?_, trivial⟩
  obtain ⟨rfl, -, rfl⟩ := RefreshesEvent.limited.inj he
  have hheld : (begun (cooledUntil (some 0)) true).pcs true = .checking 0 (some 0) := by
    decide +kernel
  obtain ⟨rfl, rfl⟩ := RefreshPc.checking.inj (hheld.symm.trans hpc)
  intro _ t ht
  have hrow : (begun (cooledUntil (some 0)) true).db.gammaThrottle = some 0 := by decide +kernel
  obtain rfl := Option.some.inj (ht.symm.trans hrow)
  norm_num

end Polycopy

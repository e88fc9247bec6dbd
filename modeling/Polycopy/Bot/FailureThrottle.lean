import Mathlib.Data.Rat.Defs
import Mathlib.Algebra.Order.Field.Rat
import Mathlib.Tactic.Linarith
import Polycopy.Lib.Keyed

/-!
# The throttle of failure logs

`FailureLogThrottle` decides of each failure whether it is logged with a full trace, as a
summary, or not at all. The bot has one throttle for its cycles and one for its wallets.

`throttle_tells`: of the failures of one signature, in whatever order they come among
others,

    the first has a full trace,
    two full traces are an interval apart,
    of the rest at most one in `summary_every` is logged,
    `summary_every` on end are never all unlogged,
    and a logged line says how many there have been.
-/

namespace Polycopy.Daemon

variable {κ π : Type}

/-! ## The throttle -/

structure FailureLogDecision where
  fullTrace : Bool
  emitSummary : Bool
  repeatCount : Nat
  deriving DecidableEq, Repr

/-- `_State`, under its signature. -/
structure Throttled (κ : Type) where
  signature : κ
  lastTraceAt : ℚ
  repeatsSinceTrace : Nat
  deriving DecidableEq, Repr

structure FailureLogThrottle where
  traceIntervalSeconds : ℚ
  summaryEvery : Nat
  interval_pos : 0 < traceIntervalSeconds
  every_pos : 0 < summaryEvery

theorem fiveMinutes_pos : (0 : ℚ) < 300 := by norm_num

theorem twenty_pos : 0 < 20 := by decide

/-- `record`. -/
def FailureLogThrottle.record [DecidableEq κ] (t : FailureLogThrottle)
    (state : List (Throttled κ)) (signature : κ) (now : ℚ) :
    List (Throttled κ) × FailureLogDecision :=
  match Keyed.find Throttled.signature signature state with
  | none => (Keyed.put Throttled.signature ⟨signature, now, 0⟩ state, ⟨true, false, 1⟩)
  | some s =>
    let repeats := s.repeatsSinceTrace + 1
    if t.traceIntervalSeconds ≤ now - s.lastTraceAt then
      (Keyed.put Throttled.signature ⟨signature, now, 0⟩ state, ⟨true, false, repeats + 1⟩)
    else
      (Keyed.put Throttled.signature ⟨signature, s.lastTraceAt, repeats⟩ state,
        ⟨false, repeats % t.summaryEvery = 0, repeats + 1⟩)

/-- `clear_prefix`, with the first item of a signature that is a tuple. -/
def clearHead [DecidableEq π] (head : κ → Option π) (first : π)
    (state : List (Throttled κ)) : List (Throttled κ) :=
  state.filter fun s => head s.signature ≠ some first

/-! ## The calls of a process -/

inductive ThrottleCall (κ π : Type)
  | record (signature : κ) (now : ℚ)
  | clear (first : π)
  deriving DecidableEq, Repr

/-- A failure, with what was decided of it. -/
structure Failure (κ : Type) where
  signature : κ
  now : ℚ
  decision : FailureLogDecision
  deriving DecidableEq, Repr

/-- The table and the failures so far. -/
structure ThrottleLog (κ : Type) where
  state : List (Throttled κ)
  failures : List (Failure κ)

def FailureLogThrottle.call [DecidableEq κ] [DecidableEq π] (t : FailureLogThrottle)
    (head : κ → Option π) (l : ThrottleLog κ) : ThrottleCall κ π → ThrottleLog κ
  | .record signature now =>
    let r := t.record l.state signature now
    ⟨r.1, l.failures ++ [⟨signature, now, r.2⟩]⟩
  | .clear first => ⟨clearHead head first l.state, l.failures⟩

def FailureLogThrottle.calls [DecidableEq κ] [DecidableEq π] (t : FailureLogThrottle)
    (head : κ → Option π) (l : ThrottleLog κ) (cs : List (ThrottleCall κ π)) : ThrottleLog κ :=
  cs.foldl (t.call head) l

/-- The failures of one signature. -/
def ThrottleLog.of [DecidableEq κ] (l : ThrottleLog κ) (k : κ) : List (Failure κ) :=
  l.failures.filter fun f => f.signature = k

def Failure.full (f : Failure κ) : Bool := f.decision.fullTrace
def Failure.summary (f : Failure κ) : Bool := f.decision.emitSummary
def Failure.logged (f : Failure κ) : Bool := f.full || f.summary

/-- What the full traces of some failures say has come before them. -/
def traced (fs : List (Failure κ)) : Nat :=
  ((fs.filter Failure.full).map fun f => f.decision.repeatCount - 1).sum

/-! ## One signature -/

/-- The failures from the last full trace on. -/
def since : Option (Throttled κ) → Nat
  | none => 0
  | some e => e.repeatsSinceTrace + 1

/-- What has been decided of the failures of one signature, with the entry it has. -/
structure Tells (t : FailureLogThrottle) (fs : List (Failure κ))
    (s : Option (Throttled κ)) : Prop where
  empty : s = none → fs = []
  first : ∀ f rest, fs = f :: rest → f.full = true
  spaced : (fs.filter Failure.full).Pairwise fun f g => f.now + t.traceIntervalSeconds ≤ g.now
  latest : ∀ f ∈ fs.filter Failure.full, ∀ e ∈ s, f.now ≤ e.lastTraceAt
  told : ∀ earlier f, earlier ++ [f] <+: fs →
    earlier.length + 1 = traced earlier + f.decision.repeatCount
  count : fs.length = traced fs + since s
  bounded : t.summaryEvery * fs.countP Failure.summary + fs.countP Failure.full +
    (since s - 1) % t.summaryEvery ≤ fs.length
  quiet : ∀ last, last <:+ fs → (∀ f ∈ last, f.logged = false) →
    last.length ≤ (since s - 1) % t.summaryEvery
  heard : ∀ part, part <:+: fs → (∀ f ∈ part, f.logged = false) → part.length < t.summaryEvery

theorem Tells.nil (t : FailureLogThrottle) : Tells t ([] : List (Failure κ)) none where
  empty _ := rfl
  first := nofun
  spaced := List.Pairwise.nil
  latest := nofun
  told earlier f h := absurd (List.prefix_nil.mp h)
    (List.append_ne_nil_of_right_ne_nil earlier (List.cons_ne_nil f []))
  count := rfl
  bounded := le_refl 0
  quiet last h _ := by simp [List.suffix_nil.mp h]
  heard part h _ := by simp [List.infix_nil.mp h, t.every_pos]

theorem traced_snoc (fs : List (Failure κ)) (f : Failure κ) :
    traced (fs ++ [f]) = traced fs + if f.full then f.decision.repeatCount - 1 else 0 := by
  unfold traced
  rw [List.filter_append, List.map_append, List.sum_append]
  by_cases h : f.full = true <;> simp [h]

theorem told_snoc {fs : List (Failure κ)} {f : Failure κ} (h : ∀ earlier g, earlier ++ [g] <+: fs →
    earlier.length + 1 = traced earlier + g.decision.repeatCount)
    (hf : fs.length + 1 = traced fs + f.decision.repeatCount) :
    ∀ earlier g, earlier ++ [g] <+: fs ++ [f] →
    earlier.length + 1 = traced earlier + g.decision.repeatCount := by
  intro earlier g hprefix
  rcases List.prefix_concat_iff.mp hprefix with heq | hprefix
  · obtain ⟨rfl, hfg⟩ := List.append_inj' heq rfl
    obtain rfl := List.singleton_inj.mp hfg
    exact hf
  · exact h earlier g hprefix

theorem first_snoc {fs : List (Failure κ)} {f : Failure κ}
    (h : ∀ g rest, fs = g :: rest → g.full = true) (hf : fs = [] → f.full = true) :
    ∀ g rest, fs ++ [f] = g :: rest → g.full = true := by
  intro g rest heq
  cases fs with
  | nil =>
    obtain ⟨rfl, -⟩ := List.cons.inj heq
    exact hf rfl
  | cons a fs =>
    obtain ⟨rfl, -⟩ := List.cons.inj heq
    exact h a fs rfl

/-- Unlogged failures on end, one more or none. -/
theorem quiet_snoc {fs last : List (Failure κ)} {f : Failure κ} (h : last <:+ fs ++ [f])
    (hquiet : ∀ g ∈ last, g.logged = false) :
    last = [] ∨ f.logged = false ∧ ∃ rest, last = rest ++ [f] ∧ rest <:+ fs ∧
    ∀ g ∈ rest, g.logged = false := by
  rcases List.suffix_concat_iff.mp h with rfl | ⟨rest, rfl, hrest⟩
  · exact Or.inl rfl
  · exact Or.inr ⟨hquiet f (List.mem_append_right _ (List.mem_singleton_self f)), rest, rfl, hrest,
      fun g hg => hquiet g (List.mem_append_left _ hg)⟩

/-- A full trace. -/
theorem Tells.trace {t : FailureLogThrottle} {fs : List (Failure κ)} {s : Option (Throttled κ)}
    (h : Tells t fs s) (k : κ) {now : ℚ}
    (hdue : ∀ e ∈ s, e.lastTraceAt + t.traceIntervalSeconds ≤ now) :
    Tells t (fs ++ [⟨k, now, ⟨true, false, since s + 1⟩⟩]) (some ⟨k, now, 0⟩) := by
  generalize hf : (⟨k, now, ⟨true, false, since s + 1⟩⟩ : Failure κ) = f
  have hfull : f.full = true := hf ▸ rfl
  have hsummary : f.summary = false := hf ▸ rfl
  have hnow : f.now = now := hf ▸ rfl
  have hcount : f.decision.repeatCount = since s + 1 := hf ▸ rfl
  have hlogged : f.logged = true := by simp [Failure.logged, hfull]
  have hfilter : (fs ++ [f]).filter Failure.full = fs.filter Failure.full ++ [f] := by simp [hfull]
  -- every earlier trace is an interval before
  have hbefore : ∀ g ∈ fs.filter Failure.full, g.now + t.traceIntervalSeconds ≤ now := by
    intro g hg
    cases s with
    | none =>
      rw [h.empty rfl] at hg
      cases hg
    | some e =>
      have hlatest := h.latest g hg e rfl
      linarith [hdue e rfl]
  refine ⟨nofun, first_snoc h.first fun _ => hfull, ?_, ?_, told_snoc h.told ?_, ?_, ?_, ?_, ?_⟩
  · rw [hfilter, List.pairwise_append]
    refine ⟨h.spaced, List.pairwise_singleton _ _, fun g hg g' hg' => ?_⟩
    obtain rfl := List.mem_singleton.mp hg'
    rw [hnow]
    exact hbefore g hg
  · rintro g hg e ⟨⟩
    rw [hfilter] at hg
    rcases List.mem_append.mp hg with hg | hg
    · have hle := hbefore g hg
      have hpos := t.interval_pos
      show g.now ≤ now
      linarith
    · obtain rfl := List.mem_singleton.mp hg
      exact hnow.le
  · rw [hcount, h.count]
    omega
  · rw [traced_snoc, if_pos hfull, hcount, List.length_append, h.count]
    rfl
  · have hb := h.bounded
    rw [List.countP_append, List.countP_append, List.length_append]
    simp [hfull, hsummary, since]
    omega
  · intro last hlast hquiet
    rcases quiet_snoc hlast hquiet with rfl | ⟨hf, -⟩
    · exact Nat.zero_le _
    · rw [hlogged] at hf
      cases hf
  · intro part hpart hquiet
    rcases List.infix_concat_iff.mp hpart with hpart | hpart
    · rcases quiet_snoc hpart hquiet with rfl | ⟨hf, -⟩
      · exact t.every_pos
      · rw [hlogged] at hf
        cases hf
    · exact h.heard part hpart hquiet

/-- A repetition, a summary or not. -/
theorem Tells.again {t : FailureLogThrottle} {fs : List (Failure κ)} {e : Throttled κ}
    (h : Tells t fs (some e)) (k : κ) (now : ℚ) :
    Tells t (fs ++ [⟨k, now, ⟨false, (e.repeatsSinceTrace + 1) % t.summaryEvery = 0,
      e.repeatsSinceTrace + 1 + 1⟩⟩])
      (some ⟨k, e.lastTraceAt, e.repeatsSinceTrace + 1⟩) := by
  generalize hf : (⟨k, now, ⟨false, (e.repeatsSinceTrace + 1) % t.summaryEvery = 0,
    e.repeatsSinceTrace + 1 + 1⟩⟩ : Failure κ) = f
  have hfull : f.full = false := hf ▸ rfl
  have hsummary : f.summary = decide ((e.repeatsSinceTrace + 1) % t.summaryEvery = 0) := hf ▸ rfl
  have hcount : f.decision.repeatCount = e.repeatsSinceTrace + 1 + 1 := hf ▸ rfl
  have hlogged : f.logged = decide ((e.repeatsSinceTrace + 1) % t.summaryEvery = 0) := by
    simp [Failure.logged, hfull, hsummary]
  have hfilter : (fs ++ [f]).filter Failure.full = fs.filter Failure.full := by simp [hfull]
  have hlength : fs.length = traced fs + (e.repeatsSinceTrace + 1) := h.count
  have hstart : fs ≠ [] := by
    rintro rfl
    cases hlength
  have hlt := Nat.mod_lt e.repeatsSinceTrace t.every_pos
  have hmod : (e.repeatsSinceTrace + 1) % t.summaryEvery =
      (e.repeatsSinceTrace % t.summaryEvery + 1) % t.summaryEvery := by
    rw [Nat.mod_add_mod]
  -- a failure that is not logged is one more of those that are not
  have hnext : f.logged = false → (e.repeatsSinceTrace + 1) % t.summaryEvery =
      e.repeatsSinceTrace % t.summaryEvery + 1 := by
    intro hf
    rw [hlogged, decide_eq_false_iff_not, hmod] at hf
    have hne : e.repeatsSinceTrace % t.summaryEvery + 1 ≠ t.summaryEvery := by
      intro heq
      rw [heq, Nat.mod_self] at hf
      exact hf rfl
    rw [hmod, Nat.mod_eq_of_lt (by omega)]
  have hquiet : ∀ last, last <:+ fs ++ [f] → (∀ g ∈ last, g.logged = false) →
      last.length ≤ (e.repeatsSinceTrace + 1) % t.summaryEvery := by
    intro last hlast hquiet
    rcases quiet_snoc hlast hquiet with rfl | ⟨hf, rest, rfl, hrest, hquiet⟩
    · exact Nat.zero_le _
    · have hle : rest.length ≤ e.repeatsSinceTrace % t.summaryEvery := h.quiet rest hrest hquiet
      rw [hnext hf, List.length_append]
      exact Nat.succ_le_succ hle
  refine ⟨nofun, first_snoc h.first fun hnil => absurd hnil hstart, ?_, ?_,
    told_snoc h.told ?_, ?_, ?_, hquiet, ?_⟩
  · rw [hfilter]
    exact h.spaced
  · rintro g hg e' ⟨⟩
    exact h.latest g (hfilter ▸ hg) e rfl
  · rw [hcount, hlength]
    omega
  · rw [traced_snoc, hfull, List.length_append, hlength]
    rfl
  · have hb : t.summaryEvery * fs.countP Failure.summary + fs.countP Failure.full +
      e.repeatsSinceTrace % t.summaryEvery ≤ fs.length := h.bounded
    show t.summaryEvery * (fs ++ [f]).countP Failure.summary + (fs ++ [f]).countP Failure.full +
      (e.repeatsSinceTrace + 1) % t.summaryEvery ≤ _
    rw [List.countP_append, List.countP_append, List.length_append, List.countP_singleton,
      List.countP_singleton, hfull, hsummary]
    by_cases hzero : (e.repeatsSinceTrace + 1) % t.summaryEvery = 0
    · have hfull' : e.repeatsSinceTrace % t.summaryEvery + 1 = t.summaryEvery := by
        by_contra hne
        rw [hmod, Nat.mod_eq_of_lt (by omega)] at hzero
        omega
      simp only [hzero, decide_true, if_true, Nat.mul_add, Nat.mul_one, Bool.false_eq_true,
        if_false, List.length_singleton]
      omega
    · have hstep := hnext (by rw [hlogged, decide_eq_false hzero])
      simp only [hzero, decide_false, Bool.false_eq_true, if_false,
        Nat.add_zero, List.length_singleton]
      omega
  · intro part hpart hunlogged
    rcases List.infix_concat_iff.mp hpart with hpart | hpart
    · exact (hquiet part hpart hunlogged).trans_lt (Nat.mod_lt _ t.every_pos)
    · exact h.heard part hpart hunlogged

/-! ## Among others -/

variable [DecidableEq κ]

/-- What a failure of the signature is decided to be. -/
theorem record_tells {t : FailureLogThrottle} {state : List (Throttled κ)}
    {k : κ} {fs : List (Failure κ)} (h : Tells t fs (Keyed.find Throttled.signature k state))
    (now : ℚ) :
    Tells t (fs ++ [⟨k, now, (t.record state k now).2⟩])
      (Keyed.find Throttled.signature k (t.record state k now).1) := by
  unfold FailureLogThrottle.record
  cases hs : Keyed.find Throttled.signature k state with
  | none =>
    rw [hs] at h
    dsimp only
    rw [Keyed.find_put, if_pos rfl]
    exact h.trace k nofun
  | some e =>
    rw [hs] at h
    dsimp only
    split
    · next hdue =>
      rw [Keyed.find_put, if_pos rfl]
      refine h.trace k fun e' he' => ?_
      obtain rfl := Option.some.inj he'
      linarith
    · rw [Keyed.find_put, if_pos rfl]
      exact h.again k now

/-- A failure of another signature leaves the entry alone. -/
theorem record_other {t : FailureLogThrottle} {state : List (Throttled κ)}
    {k k' : κ} (hne : k' ≠ k) (now : ℚ) :
    Keyed.find Throttled.signature k (t.record state k' now).1 =
      Keyed.find Throttled.signature k state := by
  unfold FailureLogThrottle.record
  split
  · rw [Keyed.find_put, if_neg hne]
  · dsimp only
    split <;> rw [Keyed.find_put, if_neg hne]

theorem clearHead_other [DecidableEq π] {head : κ → Option π} {first : π} {k : κ}
    (hne : head k ≠ some first) (state : List (Throttled κ)) :
    Keyed.find Throttled.signature k (clearHead head first state) =
      Keyed.find Throttled.signature k state := by
  unfold clearHead Keyed.find
  rw [List.find?_filter]
  congr 1
  funext s
  by_cases hs : s.signature = k <;> simp [hs, hne]

/-- Of the failures of one signature, from the first on and as long as it is not cleared: the first
is traced in full; two full traces are an interval apart; full traces apart, `summary_every`
failures make one summary at most; of as many failures on end one at least is logged; and what is
logged tells how many there have been. -/
theorem throttle_tells [DecidableEq π] (t : FailureLogThrottle) (head : κ → Option π)
    {k : κ} {state : List (Throttled κ)} (hnew : Keyed.find Throttled.signature k state = none)
    {cs : List (ThrottleCall κ π)}
    (hkept : ∀ first, ThrottleCall.clear first ∈ cs → head k ≠ some first) :
    let fs := (t.calls head ⟨state, []⟩ cs).of k
    (∀ f rest, fs = f :: rest → f.full = true) ∧
      (fs.filter Failure.full).Pairwise (fun f g => f.now + t.traceIntervalSeconds ≤ g.now) ∧
      t.summaryEvery * fs.countP Failure.summary + fs.countP Failure.full ≤ fs.length ∧
      (∀ part, part <:+: fs → (∀ f ∈ part, f.logged = false) → part.length < t.summaryEvery) ∧
      ∀ earlier f, earlier ++ [f] <+: fs →
      earlier.length + 1 = traced earlier + f.decision.repeatCount := by
  have htells : ∀ l : ThrottleLog κ, Tells t (l.of k) (Keyed.find Throttled.signature k l.state) →
      Tells t ((t.calls head l cs).of k)
        (Keyed.find Throttled.signature k (t.calls head l cs).state) := by
    clear hnew
    induction cs with
    | nil => exact fun _ hl => hl
    | cons c cs ih =>
      intro l hl
      refine ih (fun first hc => hkept first (List.mem_cons_of_mem _ hc)) (t.call head l c) ?_
      cases c with
      | record k' now =>
        unfold FailureLogThrottle.call ThrottleLog.of
        dsimp only
        rw [List.filter_append]
        by_cases hk : k' = k
        · subst hk
          rw [List.filter_singleton, decide_eq_true rfl, cond_true]
          exact record_tells hl now
        · rw [List.filter_singleton, decide_eq_false hk, record_other hk now]
          rw [cond_false, List.append_nil]
          exact hl
      | clear first =>
        unfold FailureLogThrottle.call
        dsimp only
        rw [clearHead_other (hkept first List.mem_cons_self)]
        exact hl
  have h0 : Tells t ((⟨state, []⟩ : ThrottleLog κ).of k)
      (Keyed.find Throttled.signature k state) := by
    rw [hnew]
    exact .nil t
  have h := htells _ h0
  exact ⟨h.first, h.spaced, (Nat.le_add_right _ _).trans h.bounded, h.heard, h.told⟩

/-- The throttle of wallet failures, of which a signature is the address, the type and
the text of the error. -/
def walletFailureThrottle : FailureLogThrottle := ⟨300, 20, fiveMinutes_pos, twenty_pos⟩

def walletHead (signature : String × String × String) : Option String := some signature.1

def timeout (address : String) : String × String × String := (address, "TimeoutError", "")

/-- One failure three times, among another. -/
def sampleCalls : List (ThrottleCall (String × String × String) String) :=
  [.record (timeout "0xa") 0, .record (timeout "0xb") 1, .record (timeout "0xa") 2,
    .record (timeout "0xa") 301]

theorem throttle_tells_thrice :
    let fs := (walletFailureThrottle.calls walletHead ⟨[], []⟩ sampleCalls).of (timeout "0xa")
    fs.map Failure.full = [true, false, true] ∧
    (fs.filter Failure.full).Pairwise fun f g => f.now + 300 ≤ g.now :=
  ⟨by decide +kernel, (@throttle_tells _ _ _ _ walletFailureThrottle walletHead (timeout "0xa")
    [] rfl sampleCalls (by simp [sampleCalls])).2.1⟩

end Polycopy.Daemon

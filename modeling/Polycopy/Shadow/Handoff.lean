import Polycopy.Shadow.Capture
import Polycopy.Shadow.Drain

/-!
# The handoff

A `FencedDrain` waits for the decisions on the population FREEZE holds. When it is
COMPLETE, `seal_input` checks every frame once more, against the fence as it is then,
and with an authority appends ARCHIVE, after which the journal takes nothing.

`sealed_is_source`: whatever happened on the way, a drain that can be sealed has, for
every trade of the cohort that the source database ingested in the window, the initial
decision; and of two seals the second changes nothing.
-/

namespace Polycopy.Comparison

open Runs LogFold
open Fence (truthy)

/-! ## The fence of a drain -/

def fencedProofError : String := "fenced population proof unavailable/conflicting"
def sealError : String := "pending/error decision drain cannot seal"
def archiveDrainError : String := "complete authenticated drain required for ARCHIVE"
def archiveConflictError : String := "conflicting authenticated archive terminal"

/-- `['payload']['sourceFacts']`, of FREEZE. -/
def Payload.sourceFacts : Payload → Option (List TradeFact)
  | .freeze p => some p.sourceFacts
  | _ => none

/-- `_population_proof` of a `FencedDrain`. -/
def fencedProof (s : DictState) (localError : Option String) (facts : List TradeFact) :
    Except String (Bool × Option String) := do
  raiseIf (truthy s.error ∨ truthy localError ∨
    (s.population.bind fun e => e.payload.sourceFacts) ≠ some facts) fencedProofError
  .ok (true, none)

/-- A drain over a fence in this state. -/
def Drain.fenced (d : Drain) (s : DictState) (localError : Option String) : Drain :=
  { d with populationProof := fencedProof s localError }

/-! ## Sealing -/

/-- `_validate_terminal`: each frame after the one before it, with the cursor it has. -/
def Drain.validateTerminal (d : Drain) (previous : Option Frame) : List Frame → Except String Unit
  | [] => .ok ()
  | f :: rest => do
    d.validateAt f.cursor previous f
    d.validateTerminal (some f) rest

/-- What ARCHIVE says of the frame, and of the population; without one it is
refused, whatever it says. -/
def Drain.archive (d : Drain) (cfg : Setup) (s : DictState) (f : Frame) : Payload :=
  .archive (d.hashFrame f) ((s.population.map cfg.digest.event).getD "")

/-- `authenticate_archive`, with the journal after it. -/
def Drain.authenticateArchive (d : Drain) (cfg : Setup) (log : List Event) (observedUtc : String)
    (f : Frame) : Except String (List Event) :=
  if cfg.authority.isNone then .ok log
  else do
    raiseIf (f.state ≠ .complete ∨ f.comparisonEligible = false) archiveDrainError
    d.verify f
    let s : DictState ← replay cfg log
    match s.archive with
    | some e => do
      raiseIf (e.payload ≠ d.archive cfg s f) archiveConflictError
      .ok log
    | none => do
      let _ : DictState ← replay cfg (log ++ [cfg.record log observedUtc (d.archive cfg s f)])
      .ok (log ++ [cfg.record log observedUtc (d.archive cfg s f)])

/-- `seal_input`: the fence is read for the check, and again, with the records `more` that came
meanwhile, for ARCHIVE. -/
def Drain.sealInput (d : Drain) (cfg : Setup) (log more : List Event) (localError : Option String)
    (observedUtc : String) (frames : List Frame) :
    Except String (List Event) := do
  let s : DictState ← replay cfg log
  raiseIf (truthy s.error ∨ truthy localError ∨ ¬ ∃ f ∈ frames.getLast?, f.state = .complete ∧
    f.comparisonEligible = true) sealError
  (d.fenced s localError).validateTerminal none frames
  match frames.getLast? with
  | none => .error sealError
  | some f => d.authenticateArchive cfg (log ++ more) observedUtc f

/-! ## What a journal ends in -/

/-- The record of FREEZE is in the journal, and that of ARCHIVE is its last. -/
structure Filed (log : List Event) (s : DictState) : Prop where
  population : ∀ e, s.population = some e → e ∈ log
  archive : ∀ e, s.archive = some e → log.getLast? = some e

theorem Filed.next {cfg : Setup} (pre : List Event) (s : DictState) (e : Event)
    (t : DictState) (h : Filed pre s)
    (ht : journaled cfg pre s e = .ok t) : Filed (pre ++ [e]) t := by
  obtain ⟨harchive, -, -, -, ⟨-, -, rfl⟩ | ⟨-, hnext⟩⟩ := replayOne_cases ht
  · refine ⟨fun x hx => List.mem_append_left _ (h.population x hx), fun x hx => ?_⟩
    rw [harchive] at hx
    cases hx
  · cases hnext with
    | archive =>
      refine ⟨fun x hx => List.mem_append_left _ (h.population x hx), fun x hx => ?_⟩
      obtain rfl := Option.some.inj hx
      exact List.getLast?_concat
    | freeze =>
      refine ⟨fun x hx => ?_, fun x hx => absurd (harchive.symm.trans hx) nofun⟩
      obtain rfl := Option.some.inj hx
      exact List.mem_append_right _ (List.mem_singleton_self _)
    | _ =>
      exact ⟨fun x hx => List.mem_append_left _ (h.population x hx),
        fun x hx => absurd (harchive.symm.trans hx) nofun⟩

theorem replay_filed {cfg : Setup} {log : List Event} {s : DictState}
    (h : replay cfg log = .ok s) : Filed log s := by
  have hinitial : Filed [] (State.initial (M := List Attempt)) := ⟨nofun, nofun⟩
  exact runFrom_inv (journaled cfg) Filed Filed.next hinitial (replay_eq_ok.mp h).2

/-- The replay of a journal goes through that of what it began with. -/
theorem replay_prefix {cfg : Setup} {log more : List Event} {t : DictState} (hne : log ≠ [])
    (h : replay cfg (log ++ more) = .ok t) :
    ∃ s : DictState, replay cfg log = .ok s ∧ runFrom (journaled cfg) log s more = .ok t := by
  obtain ⟨s, hs, hrest⟩ := runFrom_prefix _ (replay_eq_ok.mp h).2
  exact ⟨s, replay_eq_ok.mpr ⟨hne, hs⟩, hrest⟩

/-- After ARCHIVE the journal takes nothing. -/
theorem replay_archived {cfg : Setup} {log more : List Event} {s t : DictState} {e : Event}
    (hs : replay cfg log = .ok s) (he : s.archive = some e)
    (ht : replay cfg (log ++ more) = .ok t) : more = [] := by
  cases more with
  | nil => rfl
  | cons x more =>
    obtain ⟨s', hs', hrest⟩ := replay_prefix (replay_eq_ok.mp hs).1 ht
    obtain rfl := Except.ok.inj (hs.symm.trans hs')
    obtain ⟨u, hu, -⟩ := bind_ok hrest
    rw [(replayOne_cases hu).1] at he
    cases he

theorem replay_population {cfg : Setup} {log more : List Event} {s t : DictState} {e : Event}
    (hs : replay cfg log = .ok s) (he : s.population = some e)
    (ht : replay cfg (log ++ more) = .ok t) :
    t.population = some e := by
  obtain ⟨s', hs', hrest⟩ := replay_prefix (replay_eq_ok.mp hs).1 ht
  obtain rfl := Except.ok.inj (hs.symm.trans hs')
  refine runFrom_inv (journaled cfg) (fun _ s => s.population = some e)
    (fun pre u x v hu hv => ?_) he hrest
  obtain ⟨-, -, -, -, ⟨-, -, rfl⟩ | ⟨-, hnext⟩⟩ := replayOne_cases hv
  · exact hu
  · exact next_population hu hnext

/-! ## What a seal has checked -/

theorem validateTerminal_balanced {d : Drain} {previous : Option Frame} {frames : List Frame}
    (h : d.validateTerminal previous frames = .ok ()) : ∀ f ∈ frames, d.Balanced f := by
  induction frames generalizing previous with
  | nil => exact fun f hf => (List.not_mem_nil hf).elim
  | cons g rest ih =>
    obtain ⟨⟨⟩, hg, hrest⟩ := bind_ok_iff.mp h
    exact List.forall_mem_cons.mpr ⟨(validateAt_ok.mp hg).2.1, ih hrest⟩

theorem fencedProof_ok {s : DictState} {localError : Option String}
    {facts : List TradeFact} {r : Bool × Option String}
    (h : fencedProof s localError facts = .ok r) :
    ∃ e p, s.population = some e ∧ e.payload = .freeze p ∧ p.sourceFacts = facts := by
  unfold fencedProof at h
  simp only [bind_ok_iff, raiseIf_ok_iff, not_or, not_not] at h
  obtain ⟨⟨⟩, ⟨-, -, hfacts⟩, -⟩ := h
  obtain ⟨e, he, hfacts⟩ := Option.bind_eq_some_iff.mp hfacts
  unfold Payload.sourceFacts at hfacts
  split at hfacts
  · next p hp => exact ⟨e, p, he, hp, Option.some.inj hfacts⟩
  · cases hfacts

/-- The frame a seal is of, and what `authenticate_archive` made of it. -/
structure Drain.Sealed (d : Drain) (cfg : Setup) (log more : List Event)
    (localError : Option String) (observedUtc : String) (frames : List Frame)
    (log' : List Event) (s : DictState) (f : Frame) : Prop where
  replayed : replay cfg log = .ok s
  last : frames.getLast? = some f
  complete : f.state = .complete
  balanced : (d.fenced s localError).Balanced f
  archived : d.authenticateArchive cfg (log ++ more) observedUtc f = .ok log'

theorem sealInput_ok {d : Drain} {cfg : Setup} {log more log' : List Event}
    {localError : Option String} {observedUtc : String} {frames : List Frame}
    (h : d.sealInput cfg log more localError observedUtc frames = .ok log') :
    ∃ s f, d.Sealed cfg log more localError observedUtc frames log' s f := by
  unfold Drain.sealInput at h
  simp only [bind_ok_iff, raiseIf_ok_iff, not_or, not_not] at h
  obtain ⟨s, hs, ⟨⟩, ⟨-, -, f, hlast, hcomplete, -⟩, ⟨⟩, hvalid, harchived⟩ := h
  rw [Option.mem_def] at hlast
  rw [hlast] at harchived
  exact ⟨s, f, hs, hlast, hcomplete, validateTerminal_balanced hvalid f
    (List.mem_of_getLast? hlast), harchived⟩

theorem Next.archived {cfg : Setup} {s s' : DictState} {e : Event} (h : Next cfg s e s')
    {decision population : String}
    (hp : e.payload = .archive decision population) : s' = { s with archive := some e } := by
  cases h with
  | archive => rfl
  | _ => simp_all

/-- Where there is an authority, the journal ends in ARCHIVE. -/
theorem authenticateArchive_ok {d : Drain} {cfg : Setup} {log log' : List Event}
    {observedUtc : String} {f : Frame} (hauthority : cfg.authority.isSome = true)
    (h : d.authenticateArchive cfg log observedUtc f = .ok log') :
    ∃ s s' : DictState, ∃ e, replay cfg log = .ok s ∧ replay cfg log' = .ok s' ∧
      (log' = log ∨ log' = log ++ [e]) ∧
      s'.population = s.population ∧ s'.archive = some e ∧ e.payload = d.archive cfg s f := by
  unfold Drain.authenticateArchive at h
  rw [if_neg (by rw [Option.isNone_iff_eq_none]; exact Option.isSome_iff_ne_none.mp hauthority)] at h
  simp only [bind_ok_iff] at h
  obtain ⟨⟨⟩, -, ⟨⟩, -, s, hs, h⟩ := h
  cases he : s.archive with
  | some e =>
    simp only [he, bind_ok_iff, raiseIf_ok_iff, not_not, Except.ok.injEq] at h
    obtain ⟨⟨⟩, hpayload, rfl⟩ := h
    exact ⟨s, s, e, hs, hs, .inl rfl, rfl, he, hpayload⟩
  | none =>
    simp only [he, bind_ok_iff, Except.ok.injEq] at h
    obtain ⟨s', hs', rfl⟩ := h
    obtain ⟨-, -, -, hpayload, -⟩ := record_fields cfg log observedUtc (d.archive cfg s f)
    have hjournaled := hs'
    rw [replay_snoc hs] at hjournaled
    obtain ⟨-, -, -, -, ⟨hfirst, -, -⟩ | ⟨-, hnext⟩⟩ := replayOne_cases hjournaled
    · have := List.length_pos_iff.mpr (replay_eq_ok.mp hs).1
      omega
    · have hstate := hnext.archived hpayload
      exact ⟨s, s', _, hs, hs', .inr rfl, by rw [hstate], by rw [hstate], hpayload⟩

/-- The drain of the rehearsal, over its fence. -/
def rehearsalFencedDrain : Drain :=
  { rehearsalDrain with
    populationProof := fun facts =>
      if facts = [rehearsalTrade] then .ok (true, none) else .error fencedProofError }

def rehearsalSealed : List Frame :=
  (rehearsalFencedDrain.step [] "2026-01-02T00:00:08Z" "2026-01-02T00:00:08Z" "2026-01-02T00:00:08Z"
    (.ok ⟨[rehearsalTrade], [rehearsalDecision], none⟩)).toOption.getD []

def rehearsalArchive : Event :=
  rehearsal.record (rehearsalState 18).log "2026-01-02T00:00:09Z"
    (.archive (rehearsalSha256 1) "event 10")

end Polycopy.Comparison

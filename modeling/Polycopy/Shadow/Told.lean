import Polycopy.Shadow.HookMemory

/-!
# What the source hook tells

Over any run of the driver and of the hook's processes, with appends that fail or die at
any point:

* `hook_tells`: at END_FENCE every transaction begun with a token has ended, those
  committed are told, each once and with its own facts, and nothing else is.

A transaction that `begin` gave no token is missed; as long as
`source_capture_health.json` is written there is no END_FENCE then.
-/

namespace Polycopy.Observation

open Py Py.Clock Runs
open Comparison (raiseIf raiseIf_ok_iff raiseIf_not raiseIf_pos bind_ok_iff notBefore WriteFault)

variable {φ : Type}

/-! ## A restart -/

theorem leaves_ok {σ α : Type} {t : σ} {x : Except String α} {a : α} :
    leaves t x = .ok a ↔ x = .ok a := by
  unfold leaves
  cases x <;> simp [Except.mapError]

theorem bind_ok {ε α β : Type} {x : Except ε α} {f : α → Except ε β} {b : β} : (x >>= f) = .ok b ↔
    ∃ a, x = .ok a ∧ f a = .ok b := by
  cases x with
  | error e => exact ⟨nofun, nofun⟩
  | ok a => exact ⟨fun h => ⟨a, rfl, h⟩, fun ⟨_, ha, h⟩ => Except.ok.inj ha ▸ h⟩

/-- What the ledger has of the controls read. -/
structure Ledger.Of (l : Ledger) (controls : List Control) : Prop where
  writers : ∀ writer, writer ∈ l.writers ↔ writer ∈ registered controls
  distinct : l.writers.Nodup
  ids : l.pending.map Intent.transactionId = begun controls
  before : ∀ p ∈ l.pending, p.before = beforeOf controls p.transactionId
  announced : ∀ a ∈ befores controls, a.1 ∈ begun controls
  once : ((befores controls).map Prod.fst).Nodup
  ack : l.ack = acks controls
  rolled : l.rolled = Observation.rolled controls
  stopped : l.stopped = true ↔ ∃ cursor, .ownerStop cursor ∈ controls

theorem Ledger.Of.fresh : Ledger.fresh.Of [] where
  writers _ := Iff.rfl
  distinct := List.nodup_nil
  ids := rfl
  before p hp := (List.not_mem_nil hp).elim
  announced a ha := (List.not_mem_nil ha).elim
  once := List.nodup_nil
  ack := rfl
  rolled := rfl
  stopped := by simp [Ledger.fresh]

theorem beforeOf_none {controls : List Control} {token : String} :
    beforeOf controls token = none ↔ token ∉ (befores controls).map Prod.fst := by
  unfold beforeOf
  rw [Option.map_eq_none_iff, Keyed.find_none, List.mem_map]
  constructor
  · rintro h ⟨a, ha, rfl⟩
    exact h a (List.mem_reverse.mpr ha) rfl
  · rintro h a ha rfl
    exact h ⟨a, List.mem_reverse.mp ha, rfl⟩

/-- A control that says nothing of an open transaction. -/
theorem Ledger.Of.other {l : Ledger} {controls : List Control} (h : l.Of controls)
    {c : Control} (hbegins : c.begins = none) (hbefore : c.announces = none) :
    l.pending.map Intent.transactionId = begun (controls ++ [c]) ∧
      (∀ p ∈ l.pending, p.before = beforeOf (controls ++ [c]) p.transactionId) ∧
      (∀ a ∈ befores (controls ++ [c]), a.1 ∈ begun (controls ++ [c])) ∧
      ((befores (controls ++ [c])).map Prod.fst).Nodup := by
  have hsame : ∀ token, beforeOf (controls ++ [c]) token = beforeOf controls token := by
    intro token
    apply beforeOf_other
    rintro before rfl
    cases hbefore
  rw [begun_snoc, befores_snoc, hbegins, hbefore]
  simp only [Option.toList_none, List.append_nil, hsame]
  exact ⟨h.ids, h.before, h.announced, h.once⟩

theorem Ledger.Of.read {l l' : Ledger} {controls : List Control} (h : l.Of controls)
    {c : Control} (hr : l.read c = .ok l') :
    l'.Of (controls ++ [c]) := by
  have hstopped : ∀ {c : Control}, (∀ k, c ≠ .ownerStop k) →
      (l.stopped = true ↔ ∃ cursor, .ownerStop cursor ∈ controls ++ [c]) := by
    intro c hc
    rw [h.stopped]
    refine exists_congr fun k => ?_
    rw [List.mem_append, List.mem_singleton, or_iff_left (fun e => hc k e.symm)]
  unfold Ledger.read at hr
  obtain ⟨-, -, hr⟩ := bind_ok_iff.mp hr
  cases c with
  | ownerStart b => cases hr
  | other kind => cases hr
  | register writer =>
    simp only [bind_ok_iff, raiseIf_ok_iff, Except.ok.injEq] at hr
    obtain ⟨-, -, rfl⟩ := hr
    obtain ⟨hids, hbefore, hannounced, honce⟩ := h.other (c := .register writer) rfl rfl
    refine ⟨fun w => ?_, h.distinct.insert, hids, hbefore, hannounced, honce, ?_, ?_,
      hstopped (by intro k hk; cases hk)⟩
    · rw [List.mem_insert_iff, registered_snoc, h.writers]
      simp [Control.registers, or_comm]
    · rw [acks_snoc]
      exact h.ack.trans (List.append_nil _).symm
    · rw [rolled_snoc]
      exact h.rolled.trans (List.append_nil _).symm
  | begin token writer =>
    simp only [bind_ok_iff, raiseIf_ok_iff, Except.ok.injEq, not_or, not_not] at hr
    obtain ⟨-, ⟨hnew, -⟩, rfl⟩ := hr
    rw [h.ids] at hnew
    have hsame : ∀ t, beforeOf (controls ++ [.begin token writer]) t = beforeOf controls t := by
      intro t
      exact beforeOf_other _ (by intro b hb; cases hb)
    refine ⟨fun w => ?_, h.distinct, ?_, fun p hp => ?_, fun a ha => ?_, ?_, ?_, ?_,
      hstopped (by intro k hk; cases hk)⟩
    · rw [registered_snoc, h.writers]
      simp [Control.registers]
    · rw [List.map_append, h.ids, begun_snoc]
      rfl
    · rw [hsame]
      rcases List.mem_append.mp hp with hp | hp
      · exact h.before p hp
      · obtain rfl := List.mem_singleton.mp hp
        refine (beforeOf_none.mpr fun ha => hnew ?_).symm
        obtain ⟨a, ha', rfl⟩ := List.mem_map.mp ha
        exact h.announced a ha'
    · rw [befores_snoc] at ha
      rw [begun_snoc]
      exact List.mem_append_left _ (h.announced a (by simpa [Control.announces] using ha))
    · rw [befores_snoc]
      simpa [Control.announces] using h.once
    · rw [acks_snoc]
      exact h.ack.trans (List.append_nil _).symm
    · rw [rolled_snoc]
      exact h.rolled.trans (List.append_nil _).symm
  | beforeCommit token before =>
    simp only [bind_ok_iff, raiseIf_ok_iff, Except.ok.injEq, not_not] at hr
    obtain ⟨-, hfind, rfl⟩ := hr
    obtain ⟨p, hfind, hnone⟩ := Option.map_eq_some_iff.mp hfind
    obtain ⟨hp, rfl⟩ := Keyed.find_some _ hfind
    rw [h.before p hp, beforeOf_none] at hnone
    have hbegun : p.transactionId ∈ begun controls := by
      rw [← h.ids]
      exact List.mem_map_of_mem hp
    refine ⟨fun w => ?_, h.distinct, ?_, fun q hq => ?_, fun a ha => ?_, ?_, ?_, ?_,
      hstopped (by intro k hk; cases hk)⟩
    · rw [registered_snoc, h.writers]
      simp [Control.registers]
    · rw [setBefore_ids, h.ids, begun_snoc]
      exact (List.append_nil _).symm
    · rcases (Keyed.mem_update Intent.transactionId).mp hq with ⟨q', -, hid, rfl⟩ | ⟨hq, hne⟩
      · rw [hid, beforeOf_self]
      · rw [beforeOf_other]
        · exact h.before q hq
        · rintro b heq
          injection heq with htoken
          exact hne htoken.symm
    · rw [befores_snoc] at ha
      rw [begun_snoc]
      rcases List.mem_append.mp ha with ha | ha
      · exact List.mem_append_left _ (h.announced a ha)
      · obtain rfl := List.mem_singleton.mp ha
        exact List.mem_append_left _ hbegun
    · rw [befores_snoc, List.map_append]
      refine List.nodup_append.mpr ⟨h.once, List.nodup_singleton _, fun t ht u hu => ?_⟩
      obtain rfl := List.mem_singleton.mp hu
      have hne : t ≠ p.transactionId := fun e => hnone (e ▸ ht)
      exact hne
    · rw [acks_snoc]
      exact h.ack.trans (List.append_nil _).symm
    · rw [rolled_snoc]
      exact h.rolled.trans (List.append_nil _).symm
  | commitAck token cursor =>
    simp only [bind_ok_iff, raiseIf_ok_iff, Except.ok.injEq] at hr
    obtain ⟨-, -, rfl⟩ := hr
    obtain ⟨hids, hbefore, hannounced, honce⟩ := h.other (c := .commitAck token cursor) rfl rfl
    refine ⟨fun w => ?_, h.distinct, hids, hbefore, hannounced, honce, ?_, ?_,
      hstopped (by intro k hk; cases hk)⟩
    · rw [registered_snoc, h.writers]
      simp [Control.registers]
    · rw [acks_snoc, h.ack]
      rfl
    · rw [rolled_snoc]
      exact h.rolled.trans (List.append_nil _).symm
  | rollbackAck token =>
    simp only [bind_ok_iff, raiseIf_ok_iff, Except.ok.injEq] at hr
    obtain ⟨-, -, rfl⟩ := hr
    obtain ⟨hids, hbefore, hannounced, honce⟩ := h.other (c := .rollbackAck token) rfl rfl
    refine ⟨fun w => ?_, h.distinct, hids, hbefore, hannounced, honce, ?_, ?_,
      hstopped (by intro k hk; cases hk)⟩
    · rw [registered_snoc, h.writers]
      simp [Control.registers]
    · rw [acks_snoc]
      exact h.ack.trans (List.append_nil _).symm
    · rw [rolled_snoc, h.rolled]
      rfl
  | ownerStop cursor =>
    obtain rfl := Except.ok.inj hr
    obtain ⟨hids, hbefore, hannounced, honce⟩ := h.other (c := .ownerStop cursor) rfl rfl
    refine ⟨fun w => ?_, h.distinct, hids, hbefore, hannounced, honce, ?_, ?_, ?_⟩
    · rw [registered_snoc, h.writers]
      simp [Control.registers]
    · rw [acks_snoc]
      exact h.ack.trans (List.append_nil _).symm
    · rw [rolled_snoc]
      exact h.rolled.trans (List.append_nil _).symm
    · exact iff_of_true rfl ⟨cursor, List.mem_append_right _ (List.mem_singleton_self _)⟩

theorem ledger_of {controls : List Control} {l : Ledger}
    (h : LogFold.runFrom (fun _ l c => leaves l (l.read c)) [] .fresh controls = .ok l) :
    l.Of controls :=
  LogFold.runFrom_inv _ (fun pre l => l.Of pre)
    (fun _ _ _ _ hof hr => hof.read (leaves_ok.mp hr)) .fresh h

/-- The clocks `_restore` looks at. -/
def Frame.Timely (window : Py.Clock.Window) (f : Frame φ) : Prop :=
  (f.kind = .commit → f.reversed = .ok false) ∧
    (f.kind = .endFence → notBefore f.observedUtc window.endUtc = .ok true)

/-- What the hook has of the frames read. -/
structure Hook.Of (s : Setup φ) (l : Ledger) (h : Hook φ) (frames : List (Frame φ)) : Prop where
  healthy : h.healthy = true ∧ h.error = none
  cursor : h.cursor = frames.length
  active : h.active = true ↔ frames ≠ []
  ended : h.ended = true ↔ Fenced frames
  commits : h.commits = commitFrames frames
  ledger : h.writers = l.writers ∧ h.pending = l.pending
  timely : ∀ f ∈ frames, f.Timely s.window

theorem Hook.Of.ledger_hook (s : Setup φ) (l : Ledger) : (l.hook : Hook φ).Of s l [] where
  healthy := ⟨rfl, rfl⟩
  cursor := rfl
  active := by simp [Ledger.hook, Hook.fresh]
  ended := by simp [Ledger.hook, Hook.fresh, Fenced]
  commits := rfl
  ledger := ⟨rfl, rfl⟩
  timely f hf := (List.not_mem_nil hf).elim

theorem Hook.Of.readFrame {s : Setup φ} {l : Ledger} {h h' : Hook φ} {frames : List (Frame φ)}
    (ho : h.Of s l frames) {f : Frame φ}
    (hr : s.readFrame l h f = .ok h') : h'.Of s l (frames ++ [f]) := by
  have htimely : f.Timely s.window → ∀ g ∈ frames ++ [f], g.Timely s.window := by
    intro hf g hg
    rcases List.mem_append.mp hg with hg | hg
    · exact ho.timely g hg
    · obtain rfl := List.mem_singleton.mp hg
      exact hf
  have hlength : (frames ++ [f]).length = h.cursor + 1 := by
    rw [List.length_append, List.length_singleton, ho.cursor]
  unfold Setup.readFrame at hr
  obtain ⟨⟨⟩, hposition, hr⟩ := bind_ok_iff.mp hr
  obtain ⟨⟨⟩, -, hr⟩ := bind_ok_iff.mp hr
  rw [raiseIf_ok_iff, not_or, not_or, not_or, not_not, not_not, not_not, not_not] at hposition
  obtain ⟨-, -, hcursor, -⟩ := hposition
  cases hk : f.kind with
  | activation =>
    rw [hk] at hr
    simp only [bind_ok_iff, raiseIf_ok_iff, Except.ok.injEq, not_or, not_not] at hr
    obtain ⟨-, -, rfl⟩ := hr
    refine ⟨ho.healthy, hcursor.trans hlength.symm, iff_of_true rfl (by simp), ?_,
      ?_, ho.ledger, htimely ⟨?_, ?_⟩⟩
    · rw [fenced_snoc, hk]
      simpa using ho.ended
    · rw [commitFrames_snoc, hk, if_neg (by decide), List.append_nil]
      exact ho.commits
    · intro hc
      rw [hk] at hc
      cases hc
    · intro hc
      rw [hk] at hc
      cases hc
  | commit =>
    rw [hk] at hr
    simp only [bind_ok_iff, raiseIf_ok_iff, Except.ok.injEq, not_or] at hr
    obtain ⟨-, ⟨hactive, -⟩, reversed, hreversed, -, ⟨hordered, -⟩, rfl⟩ := hr
    obtain rfl : reversed = false := Bool.eq_false_of_not_eq_true hordered
    refine ⟨ho.healthy, hcursor.trans hlength.symm,
      iff_of_true (Bool.eq_true_of_not_eq_false hactive) (by simp), ?_, ?_, ho.ledger,
      htimely ⟨fun _ => hreversed, ?_⟩⟩
    · rw [fenced_snoc, hk]
      simpa using ho.ended
    · rw [commitFrames_snoc, if_pos hk, ← ho.commits]
    · intro hc
      rw [hk] at hc
      cases hc
  | endFence =>
    rw [hk] at hr
    simp only [bind_ok_iff, raiseIf_ok_iff, Except.ok.injEq, not_or] at hr
    obtain ⟨-, ⟨hactive, -⟩, reached, hreached, -, ⟨hpassed, -⟩, rfl⟩ := hr
    obtain rfl : reached = true := Bool.eq_true_of_not_eq_false hpassed
    refine ⟨ho.healthy, hcursor.trans hlength.symm,
      iff_of_true (Bool.eq_true_of_not_eq_false hactive) (by simp),
      iff_of_true rfl ((fenced_snoc frames f).mpr (.inr hk)), ?_, ho.ledger,
      htimely ⟨?_, fun _ => hreached⟩⟩
    · rw [commitFrames_snoc, hk, if_neg (by decide), List.append_nil]
      exact ho.commits
    · intro hc
      rw [hk] at hc
      cases hc
  | other kind =>
    rw [hk] at hr
    cases hr

theorem hook_of {s : Setup φ} {l : Ledger} {frames : List (Frame φ)} {h : Hook φ}
    (hr : LogFold.runFrom (fun _ h f => leaves h (s.readFrame l h f)) [] l.hook frames = .ok h) :
    h.Of s l frames :=
  LogFold.runFrom_inv _ (fun pre h => h.Of s l pre)
    (fun _ _ _ _ hof hf => hof.readFrame (leaves_ok.mp hf)) (Hook.Of.ledger_hook s l) hr

theorem mapError_ok {ε ε' α : Type} {g : ε → ε'} {x : Except ε α} {a : α} :
    x.mapError g = .ok a ↔ x = .ok a := by
  cases x <;> simp [Except.mapError]

theorem restore_ok {s : Setup φ} {d : Files φ} {h : Hook φ} : s.restore d = .ok h ↔
    ∃ controls l h', d.controls.torn = false ∧
    d.controls.lines.map ControlLine.control = .ownerStart s.bindingSha256 :: controls ∧
    LogFold.runFrom (fun _ l c => leaves l (l.read c)) [] .fresh controls = .ok l ∧
    d.frames.torn = false ∧
    LogFold.runFrom (fun _ h f => leaves h (s.readFrame l h f)) [] l.hook d.frames.lines = .ok h' ∧
    (∀ a ∈ l.ack, a.1 ∈ h'.commits.map Frame.transactionId) ∧
    s.resume d.health controls.getLast? l (h'.settled l) = .ok () ∧
    h = h'.settled l := by
  unfold Setup.restore
  cases hlines : d.controls.lines.map ControlLine.control with
  | nil => exact ⟨fun hr => (by simp [bind_ok] at hr), fun ⟨_, _, _, _, hc, _⟩ => (by cases hc)⟩
  | cons first rest =>
    simp only [bind_ok, leaves_ok, raiseIf_ok_iff, mapError_ok, not_not, not_exists, not_and,
      Except.ok.injEq, List.cons.injEq]
    constructor
    · rintro ⟨⟨⟩, htorn, ⟨⟩, rfl, l, hl, ⟨⟩, htorn', h', hh, ⟨⟩, hack, ⟨⟩, hresume, rfl⟩
      exact ⟨rest, l, h', Bool.eq_false_of_not_eq_true htorn, ⟨rfl, rfl⟩, hl,
        Bool.eq_false_of_not_eq_true htorn', hh, hack, hresume, rfl⟩
    · rintro ⟨controls, l, h', htorn, ⟨rfl, rfl⟩, hl, htorn', hh, hack, hresume, rfl⟩
      exact ⟨⟨⟩, by simp [htorn], ⟨⟩, rfl, l, hl, ⟨⟩, by simp [htorn'], h',
        hh, ⟨⟩, hack, ⟨⟩, hresume, rfl⟩

theorem resume_ok {s : Setup φ} {health : Bool} {last : Option Control}
    {l : Ledger} {h : Hook φ} {u : Unit} :
    s.resume health last l h = .ok u ↔ h.pending = [] ∧
      (l.stopped = true → h.ended = true ∧ last.bind Control.cursor = some h.cursor) ∧
      (s.evidenceKind = "synthetic" ∨ h.ended = true) ∧ health = false := by
  unfold Setup.resume
  simp only [bind_ok_iff, raiseIf_ok_iff, not_and_or, not_or, not_not, Bool.not_eq_false,
    Bool.not_eq_true, exists_const]
  rw [imp_iff_not_or, Bool.not_eq_true]

/-- A restart that resumes has in memory what is on disk. -/
theorem restore_mirrors {s : Setup φ} {db : Database φ} {d : Files φ}
    {controls : List Control} {frames : List (Frame φ)} (hk : Keeps s db d controls frames)
    {h : Hook φ} (hr : s.restore d = .ok h) :
    d.Open ∧ h.Mirrors controls frames ∧ d.health = false := by
  obtain ⟨controls', l, h', htorn, hlines, hl, htorn', hh, -, hresume, rfl⟩ := restore_ok.mp hr
  have hne : d.controls.lines ≠ [] := by
    intro hnil
    rw [hnil] at hlines
    cases hlines
  obtain rfl : controls' = controls := by
    rcases hk.lines with hc | hc
    · rw [hlines] at hc
      exact (List.cons.inj hc).2
    · exact absurd hc.1 hne
  rw [hk.told] at hh
  have hof := ledger_of hl
  have hread := hook_of hh
  obtain ⟨hnone, -, -, hhealth⟩ := resume_ok.mp hresume
  refine ⟨⟨hne, htorn, htorn'⟩, ⟨hread.cursor, ?_, ?_, hread.active, hread.ended,
    hread.commits, ?_, ?_⟩, hhealth⟩
  · intro writer
    show writer ∈ h'.writers ↔ _
    rw [hread.ledger.1, hof.writers]
  · show h'.writers.Nodup
    rw [hread.ledger.1]
    exact hof.distinct
  · rw [hnone]
    exact fun p hp => (List.not_mem_nil hp).elim
  · intro token ht hframed hrolled
    rw [← hof.ids, ← hread.ledger.2] at ht
    obtain ⟨p, hp, rfl⟩ := List.mem_map.mp ht
    have hkept : p ∈ (h'.settled l).pending := by
      refine List.mem_filter.mpr ⟨hp, decide_eq_true ⟨?_, ?_⟩⟩
      · rw [hof.rolled]
        exact hrolled
      · rw [hread.commits]
        exact hframed
    rw [hnone] at hkept
    exact (List.not_mem_nil hkept).elim

/-! ## The driver -/

def Driver.Ok (s : Setup φ) (w : Driver φ) : Prop :=
  ∃ controls frames, Keeps s w.database w.files controls frames ∧
    ∀ h, w.hook = some h → h.healthy = true → w.files.Open ∧ h.Mirrors controls frames

theorem Driver.Ok.start (s : Setup φ) : (Driver.start : Driver φ).Ok s := by
  refine ⟨[], [], ⟨.inr ⟨rfl, rfl, rfl⟩, rfl, ⟨fun _ => ⟨rfl, rfl⟩, fun _ => ⟨rfl, rfl⟩⟩,
    .start, ?_⟩, fun h hh => ?_⟩
  · exact ⟨fun t ht => (List.not_mem_nil ht).elim, List.nodup_nil,
      fun t ht => (List.not_mem_nil ht).elim, fun t ht => (List.not_mem_nil ht).elim⟩
  · exact absurd hh (Option.some_ne_none h).symm

section Conclude

variable {s : Setup φ} {db : Database φ} {d : Files φ} {controls : List Control}
  {frames : List (Frame φ)} {io : List Append} {saved : Bool}

theorem conclude_acts {h : Hook φ} {acts : List (Act φ)}
    (hk : Keeps s db d controls frames) (ho : d.Open)
    (hl : s.Lawful db acts h controls frames) :
    ∃ controls' frames', Keeps s db (conclude d io saved (.ok (h, acts))).files controls' frames' ∧
      ∀ h', (conclude d io saved (.ok (h, acts))).hook = some h' → h'.healthy = true →
        (conclude d io saved (.ok (h, acts))).files.Open ∧ h'.Mirrors controls' frames' := by
  obtain ⟨controls', frames', hkeeps, hreturned⟩ := perform_keeps hk ho hl io
  refine ⟨controls', frames', ?_⟩
  rcases hp : perform h d acts io with ⟨h', d', ending⟩
  rw [hp] at hkeeps hreturned
  cases ending with
  | returned =>
    rw [show conclude d io saved (.ok (h, acts)) = ⟨some h', d', true⟩ by simp only [conclude, hp]]
    refine ⟨hkeeps, fun x hx _ => ?_⟩
    obtain rfl := Option.some.inj hx
    exact hreturned rfl
  | raised =>
    rw [show conclude d io saved (.ok (h, acts)) =
      ⟨some (h'.risk osError), d'.diagnose saved, false⟩ by simp only [conclude, hp]]
    refine ⟨hkeeps.diagnose saved, fun x hx hhealthy => ?_⟩
    obtain rfl := Option.some.inj hx
    cases hhealthy
  | died =>
    rw [show conclude d io saved (.ok (h, acts)) = ⟨none, d', false⟩ by simp only [conclude, hp]]
    exact ⟨hkeeps, fun x hx => absurd hx (Option.some_ne_none x).symm⟩

theorem conclude_error {h : Hook φ} {text : String} (hk : Keeps s db d controls frames) :
    Keeps s db (conclude d io saved (.error (h, text))).files controls frames ∧
      ∀ h', (conclude d io saved (.error (h, text))).hook = some h' → h'.healthy = false := by
  refine ⟨hk.diagnose saved, fun h' hh => ?_⟩
  obtain rfl := Option.some.inj hh
  rfl

/-- The first start. -/
theorem conclude_start (hk : Keeps s db d controls frames) (hc : d.controls.present = false)
    (hf : d.frames.present = false) (observedUtc : String) :
    ∃ controls' frames', Keeps s db
        (conclude d io saved (.ok (.fresh,
          [⟨fun _ => control observedUtc (.ownerStart s.bindingSha256), id⟩]))).files
        controls' frames' ∧
      ∀ h', (conclude d io saved (.ok (.fresh,
        [⟨fun _ => control observedUtc (.ownerStart s.bindingSha256), id⟩]))).hook = some h' →
        h'.healthy = true →
        (conclude d io saved (.ok (.fresh,
          [⟨fun _ => control observedUtc (.ownerStart s.bindingSha256), id⟩]))).files.Open ∧
          h'.Mirrors controls' frames' := by
  obtain ⟨hlines, htorn⟩ := hk.sound.1 hc
  obtain ⟨-, htorn'⟩ := hk.sound.2 hf
  obtain ⟨rfl, rfl⟩ : controls = [] ∧ frames = [] := by
    rcases hk.lines with h | h
    · rw [hlines] at h
      cases h
    · exact h.2
  refine ⟨[], [], ?_⟩
  have hwrite := write_kept (⟨observedUtc, .ownerStart s.bindingSha256⟩ : ControlLine) htorn
  rw [hlines, List.nil_append] at hwrite
  have hkept :
      Keeps s db (d.write (control observedUtc (.ownerStart s.bindingSha256)) .kept) [] [] := by
    refine ⟨.inl ?_, hk.told, ⟨hk.sound.1.write _ _, hk.sound.2⟩, hk.written, hk.knows⟩
    show (d.controls.write _ .kept).lines.map _ = _
    rw [hwrite]
    rfl
  have hopen : (d.write (control observedUtc (.ownerStart s.bindingSha256)) .kept).Open := by
    refine ⟨?_, ?_, htorn'⟩
    · show (d.controls.write _ .kept).lines ≠ []
      rw [hwrite]
      exact List.cons_ne_nil _ _
    · show (d.controls.write _ .kept).torn = false
      rw [hwrite]
  have hfault : ∀ fault,
      Keeps s db (d.write (control observedUtc (.ownerStart s.bindingSha256)) fault) [] [] := by
    intro fault
    by_cases he : fault = .kept
    · rw [he]
      exact hkept
    · exact hk.fault _ he
  have hdone : ∀ h' : Hook φ, some (.fresh : Hook φ) = some h' → h'.healthy = true →
      (d.write (control observedUtc (.ownerStart s.bindingSha256)) .kept).Open ∧
      h'.Mirrors [] [] := by
    intro h' hh _
    obtain rfl := Option.some.inj hh
    exact ⟨hopen, .fresh⟩
  cases io with
  | nil => exact ⟨hkept, hdone⟩
  | cons x io =>
    cases x with
    | done => exact ⟨hkept, hdone⟩
    | raised fault =>
      refine ⟨(hfault fault).diagnose saved, fun h' hh hhealthy => ?_⟩
      obtain rfl := Option.some.inj hh
      cases hhealthy
    | died fault => exact ⟨hfault fault, fun h' hh => absurd hh (Option.some_ne_none h').symm⟩

end Conclude

section Steps

variable {s : Setup φ} {w : Driver φ}

theorem Driver.Ok.opens (h : w.Ok s) (locked : Bool) (observedUtc : String)
    (io : List Append) (saved : Bool) :
    ({ w with
        files := (conclude w.files io saved (s.enter w.files locked observedUtc)).files
        hook := (conclude w.files io saved (s.enter w.files locked observedUtc)).hook } :
      Driver φ).Ok s := by
  obtain ⟨controls, frames, hk, -⟩ := h
  cases henter : s.enter w.files locked observedUtc with
  | error x =>
    obtain ⟨hkeeps, hunhealthy⟩ :=
      @conclude_error φ s w.database w.files controls frames io saved x.1 x.2 hk
    refine ⟨controls, frames, hkeeps, fun h' hh hhealthy => ?_⟩
    rw [hunhealthy h' hh] at hhealthy
    cases hhealthy
  | ok x =>
    unfold Setup.enter at henter
    obtain ⟨⟨⟩, -, henter⟩ := bind_ok.mp henter
    obtain ⟨⟨⟩, -, henter⟩ := bind_ok.mp henter
    split at henter
    · cases hr : s.restore w.files with
      | error e =>
        rw [hr] at henter
        cases henter
      | ok h' =>
        rw [hr] at henter
        obtain rfl := Except.ok.inj henter
        obtain ⟨hopen, hm, -⟩ := restore_mirrors hk hr
        exact conclude_acts hk hopen hm
    · next habsent =>
      obtain ⟨⟨⟩, hframes, henter⟩ := bind_ok.mp henter
      rw [leaves_ok, raiseIf_ok_iff] at hframes
      obtain rfl := Except.ok.inj henter
      exact conclude_start hk (Bool.eq_false_of_not_eq_true habsent)
        (Bool.eq_false_of_not_eq_true hframes) observedUtc

/-- A call, before the database knows of a token it has given. -/
theorem Driver.Ok.call [DecidableEq φ] (h : w.Ok s) {x : Hook φ} (hx : w.hook = some x)
    {c : Call φ} (hobeys : w.Obeys c = true) (io : List Append) (saved : Bool) :
    ({ w with
        files := (s.call x w.files c io saved).files
        hook := (s.call x w.files c io saved).hook } : Driver φ).Ok s := by
  obtain ⟨controls, frames, hk, hlive⟩ := h
  unfold Setup.call
  cases hacts : s.acts x c with
  | error text =>
    obtain ⟨hkeeps, hunhealthy⟩ :=
      @conclude_error φ s w.database w.files controls frames io saved x text hk
    refine ⟨controls, frames, hkeeps, fun h' hh hhealthy => ?_⟩
    rw [hunhealthy h' hh] at hhealthy
    cases hhealthy
  | ok acts =>
    cases acts with
    | none =>
      refine ⟨controls, frames, hk, fun h' hh => ?_⟩
      obtain rfl := Option.some.inj hh
      exact hlive x hx
    | some acts =>
      obtain ⟨hopen, hm⟩ := hlive x hx (acts_healthy hacts)
      have hbegun : begun (w.files.controls.lines.map ControlLine.control) = begun controls := by
        rcases hk.lines with hc | hc
        · rw [hc]
          rfl
        · exact absurd hc.1 hopen.started
      exact conclude_acts hk hopen (acts_lawful (w := w) hm hk.written hobeys hbegun hacts)

theorem Keeps.begun {db : Database φ} {d : Files φ} {controls : List Control}
    {frames : List (Frame φ)} (hk : Keeps s db d controls frames) :
    begun (d.controls.lines.map ControlLine.control) = begun controls := by
  rcases hk.lines with hc | ⟨hc, hnil, -⟩
  · rw [hc]
    rfl
  · rw [hc, hnil]
    rfl

/-- The token of a `begin` that succeeded. -/
theorem begin_told [DecidableEq φ] {x : Hook φ} {d : Files φ} {writer token observedUtc : String}
    {io : List Append} {saved : Bool}
    (hanswer : (s.call x d (.begin writer token observedUtc) io saved).answer = true) :
    ∃ y, (s.call x d (.begin writer token observedUtc) io saved).hook = some y ∧
      y.healthy = true ∧ token ∈ y.pending.map Intent.transactionId := by
  have hacts : s.acts x (.begin writer token observedUtc) = x.begin writer token observedUtc := rfl
  unfold Setup.call at hanswer ⊢
  rw [hacts] at hanswer ⊢
  cases hb : x.begin writer token observedUtc with
  | error text =>
    rw [hb] at hanswer
    cases hanswer
  | ok acts =>
    cases acts with
    | none =>
      rw [hb] at hanswer
      cases hanswer
    | some acts =>
      have hhealthy : x.healthy = true :=
        acts_healthy (s := s) (c := .begin writer token observedUtc) (hacts.trans hb)
      rw [hb] at hanswer
      rcases hp : perform x d acts io with ⟨x', d', ending⟩
      cases ending with
      | raised => simp [conclude, hp] at hanswer
      | died => simp [conclude, hp] at hanswer
      | returned =>
        have hfold := @perform_returned φ x d acts io (by rw [hp])
        rw [hp] at hfold
        unfold Hook.begin at hb
        simp only [bind_ok_iff, Except.ok.injEq, Option.some.injEq] at hb
        obtain ⟨-, -, rfl⟩ := hb
        refine ⟨x', by simp only [conclude, hp], ?_⟩
        rw [show x' = _ from hfold]
        exact ⟨hhealthy, by simp⟩

theorem Database.Knows.begin {db : Database φ} {before controls : List Control}
    {frames : List (Frame φ)} (h : db.Knows controls frames)
    (hbefore : ∀ t ∈ db.working ++ db.committed.map Transaction.transactionId ++ db.rolledBack,
      t ∈ Observation.begun before) {token : String}
    (hnew : token ∉ Observation.begun before) (ht : token ∈ Observation.begun controls) :
    ({ db with working := db.working ++ [token] } : Database φ).Knows controls frames := by
  have hperm :
      ((db.working ++ [token]) ++ db.committed.map Transaction.transactionId ++ db.rolledBack).Perm
      (token :: (db.working ++ db.committed.map Transaction.transactionId ++ db.rolledBack)) := by
    rw [List.append_assoc, List.append_assoc, List.append_assoc]
    exact List.perm_middle
  refine ⟨fun t hmem => ?_, ?_, h.told, h.rolled⟩
  · rcases List.mem_cons.mp (hperm.mem_iff.mp hmem) with rfl | hmem
    · exact ht
    · exact h.begun t hmem
  · exact hperm.nodup_iff.mpr (List.nodup_cons.mpr
      ⟨fun hmem => hnew (hbefore token hmem), h.distinct⟩)

theorem Driver.Ok.told [DecidableEq φ] (h : w.Ok s) {x : Hook φ} (hx : w.hook = some x)
    {c : Call φ} (hobeys : w.Obeys c = true) (io : List Append) (saved : Bool) :
    ({ w.told c (s.call x w.files c io saved) with
        files := (s.call x w.files c io saved).files
        hook := (s.call x w.files c io saved).hook } : Driver φ).Ok s := by
  have hcall := h.call hx hobeys io saved
  cases c with
  | begin writer token observedUtc =>
    unfold Driver.told
    dsimp only
    split
    · next hanswer =>
      obtain ⟨before, framesBefore, hk₀, -⟩ := h
      obtain ⟨controls, frames, hk, hlive⟩ := hcall
      obtain ⟨y, hy, hhealthy, hpending⟩ := begin_told hanswer
      have hnew := of_decide_eq_true hobeys
      rw [hk₀.begun] at hnew
      have hknows := hk.knows.begin hk₀.knows.begun hnew ((hlive y hy hhealthy).2.awaits hpending).1
      exact ⟨controls, frames, ⟨hk.lines, hk.told, hk.sound, hk.written, hknows⟩, hlive⟩
    · exact hcall
  | _ => exact hcall

theorem Database.Knows.commit {db : Database φ} {controls : List Control} {frames : List (Frame φ)}
    (h : db.Knows controls frames) {t : Transaction φ} (ht : t.transactionId ∈ db.working) :
    ({ db with working := db.working.erase t.transactionId, committed := db.committed ++ [t] } :
      Database φ).Knows controls frames := by
  have hperm : (db.working.erase t.transactionId ++
      (db.committed ++ [t]).map Transaction.transactionId ++ db.rolledBack).Perm
      (db.working ++ db.committed.map Transaction.transactionId ++ db.rolledBack) := by
    rw [List.map_append, List.map_singleton]
    refine List.Perm.append_right _ ?_
    rw [← List.append_assoc]
    refine (List.perm_append_singleton _ _).trans ?_
    rw [← List.cons_append]
    exact (List.perm_cons_erase ht).symm.append_right _
  exact ⟨fun u hu => h.begun u (hperm.mem_iff.mp hu), hperm.nodup_iff.mpr h.distinct,
    fun u hu => List.mem_append_left _ (h.told u hu), h.rolled⟩

theorem Database.Knows.rollback {db : Database φ} {controls : List Control}
    {frames : List (Frame φ)} (h : db.Knows controls frames) {token : String}
    (ht : token ∈ db.working) :
    ({ db with working := db.working.erase token, rolledBack := db.rolledBack ++ [token] } :
      Database φ).Knows controls frames := by
  have hperm : (db.working.erase token ++ db.committed.map Transaction.transactionId ++
      (db.rolledBack ++ [token])).Perm
      (db.working ++ db.committed.map Transaction.transactionId ++ db.rolledBack) := by
    rw [← List.append_assoc]
    refine (List.perm_append_singleton _ _).trans ?_
    rw [← List.cons_append, ← List.cons_append]
    exact ((List.perm_cons_erase ht).symm.append_right _).append_right _
  exact ⟨fun u hu => h.begun u (hperm.mem_iff.mp hu), hperm.nodup_iff.mpr h.distinct, h.told,
    fun u hu => List.mem_append_left _ (h.rolled u hu)⟩

theorem Driver.Ok.next [DecidableEq φ] {w' : Driver φ} {e : DriverEvent φ} (h : w.Ok s)
    (hstep : w.next s e = some w') : w'.Ok s := by
  cases e with
  | opens locked observedUtc io saved =>
    simp only [Driver.next] at hstep
    split at hstep
    · cases hstep
    · obtain rfl := Option.some.inj hstep
      exact h.opens locked observedUtc io saved
  | contends saved =>
    simp only [Driver.next] at hstep
    split at hstep
    · obtain rfl := Option.some.inj hstep
      obtain ⟨controls, frames, hk, hlive⟩ := h
      refine ⟨controls, frames, hk.diagnose saved, fun x hx hhealthy => ?_⟩
      obtain ⟨hopen, hm⟩ := hlive x hx hhealthy
      exact ⟨⟨hopen.started, hopen.controls, hopen.frames⟩, hm⟩
    · cases hstep
  | calls c io saved =>
    simp only [Driver.next] at hstep
    split at hstep
    · cases hstep
    · next x hx =>
      split at hstep
      · next hobeys =>
        obtain rfl := Option.some.inj hstep
        exact h.told hx hobeys io saved
      · cases hstep
  | commits t =>
    simp only [Driver.next] at hstep
    split at hstep
    · next ht =>
      obtain rfl := Option.some.inj hstep
      obtain ⟨controls, frames, hk, hlive⟩ := h
      exact ⟨controls, frames, ⟨hk.lines, hk.told, hk.sound, hk.written, hk.knows.commit ht⟩, hlive⟩
    · cases hstep
  | rollsBack token =>
    simp only [Driver.next] at hstep
    split at hstep
    · next ht =>
      obtain rfl := Option.some.inj hstep
      obtain ⟨controls, frames, hk, hlive⟩ := h
      exact ⟨controls, frames, ⟨hk.lines, hk.told, hk.sound, hk.written,
        hk.knows.rollback ht⟩, hlive⟩
    · cases hstep
  | slips trades decisions =>
    simp only [Driver.next] at hstep
    split at hstep
    · obtain rfl := Option.some.inj hstep
      exact h
    · cases hstep
  | crashes =>
    obtain rfl := Option.some.inj hstep
    obtain ⟨controls, frames, hk, -⟩ := h
    exact ⟨controls, frames, hk, fun x hx => absurd hx (Option.some_ne_none x).symm⟩

end Steps

/-! ## What `begin` refuses -/

/-- As long as `source_capture_health.json` is written, a refusal is for good. -/
structure Driver.Latched (w : Driver φ) : Prop where
  refused : w.refused = true → w.files.health = true ∧ w.files.controls.present = true ∧
    ¬ Fenced w.files.frames.lines ∧
    ∀ h, w.hook = some h → h.healthy = false
  missed : w.missed ≠ [] → w.refused = true

section Latch

variable {s : Setup φ} {w : Driver φ}

theorem begin_refused [DecidableEq φ] {x y : Hook φ} {d : Files φ}
    {writer token observedUtc : String} {io : List Append}
    (hanswer : (s.call x d (.begin writer token observedUtc) io true).answer = false)
    (hy : (s.call x d (.begin writer token observedUtc) io true).hook = some y) :
    y.healthy = false ∧ (s.call x d (.begin writer token observedUtc) io true).files.health = true ∧
      (s.call x d (.begin writer token observedUtc) io true).files.frames = d.frames ∧
      (d.controls.present = true →
        (s.call x d (.begin writer token observedUtc) io true).files.controls.present = true) := by
  have hacts : s.acts x (.begin writer token observedUtc) = x.begin writer token observedUtc := rfl
  unfold Setup.call at hanswer hy ⊢
  rw [hacts] at hanswer hy ⊢
  unfold Hook.begin at hanswer hy ⊢
  by_cases hcapture : x.healthy = false ∨ x.active = false ∨ x.ended = true ∨ writer ∉ x.writers
  · rw [raiseIf_pos hcapture] at hy ⊢
    obtain rfl := Option.some.inj hy
    exact ⟨rfl, Bool.or_true _, rfl, id⟩
  · rw [raiseIf_not hcapture] at hanswer hy ⊢
    cases io with
    | nil => cases hanswer
    | cons a io =>
      cases a with
      | done => cases hanswer
      | died fault => exact absurd hy (Option.some_ne_none y).symm
      | raised fault =>
        obtain rfl := Option.some.inj hy
        refine ⟨rfl, Bool.or_true _, rfl, fun hpresent => ?_⟩
        cases fault with
        | clean => exact hpresent
        | _ => rfl

/-- An unhealthy hook appends nothing. -/
theorem call_unhealthy [DecidableEq φ] {x : Hook φ} (hx : x.healthy = false) (d : Files φ)
    (c : Call φ) (io : List Append) (saved : Bool) :
    (∃ health, (s.call x d c io saved).files = { d with health := d.health || health }) ∧
      ∀ y, (s.call x d c io saved).hook = some y → y.healthy = false := by
  unfold Setup.call
  cases hacts : s.acts x c with
  | error text =>
    refine ⟨⟨saved, rfl⟩, fun y hy => ?_⟩
    obtain rfl := Option.some.inj hy
    rfl
  | ok acts =>
    cases acts with
    | none =>
      refine ⟨⟨false, by rw [Bool.or_false]⟩, fun y hy => ?_⟩
      obtain rfl := Option.some.inj hy
      exact hx
    | some acts =>
      rw [acts_healthy hacts] at hx
      cases hx

theorem told_refused {c : Call φ} {o : Outcome φ} (h : (w.told c o).refused = true)
    (hnot : w.refused = false) :
    ∃ writer token observedUtc, c = .begin writer token observedUtc ∧ o.answer = false ∧
    o.hook.isSome = true ∧ Capturing w.files.frames.lines := by
  cases c with
  | begin writer token observedUtc =>
    unfold Driver.told at h
    dsimp only at h
    split at h
    · rw [show w.refused = true from h] at hnot
      cases hnot
    · next hanswer =>
      have h : (w.refused || (o.hook.isSome && decide (Capturing w.files.frames.lines))) = true := h
      rw [hnot, Bool.false_or, Bool.and_eq_true, decide_eq_true_eq] at h
      exact ⟨writer, token, observedUtc, rfl, Bool.eq_false_of_not_eq_true hanswer, h⟩
  | _ =>
    rw [show w.refused = true from h] at hnot
    cases hnot

theorem told_missed (c : Call φ) (o : Outcome φ) :
    (w.told c o).missed = w.missed ∧ (w.refused = true → (w.told c o).refused = true) := by
  cases c with
  | begin writer token observedUtc =>
    unfold Driver.told
    dsimp only
    split
    · exact ⟨rfl, id⟩
    · refine ⟨rfl, fun h => ?_⟩
      show (w.refused || _) = true
      rw [h, Bool.true_or]
  | _ => exact ⟨rfl, id⟩

theorem Driver.Latched.next [DecidableEq φ] {w' : Driver φ} {e : DriverEvent φ} (h : w.Latched)
    (hok : w.Ok s) (hstep : w.next s e = some w') (hsaved : e.saved = true) : w'.Latched := by
  cases e with
  | opens locked observedUtc io saved =>
    simp only [Driver.next] at hstep
    split at hstep
    · cases hstep
    · obtain rfl := Option.some.inj hstep
      refine ⟨fun hrefused => ?_, h.missed⟩
      obtain ⟨hhealth, hpresent, hopen, -⟩ := h.refused hrefused
      obtain ⟨controls, frames, hk, -⟩ := hok
      cases henter : s.enter w.files locked observedUtc with
      | error x =>
        refine ⟨?_, hpresent, hopen, fun y hy => ?_⟩
        · show (w.files.health || saved) = true
          rw [hhealth, Bool.true_or]
        · obtain rfl := Option.some.inj hy
          rfl
      | ok x =>
        unfold Setup.enter at henter
        obtain ⟨⟨⟩, -, henter⟩ := bind_ok.mp henter
        obtain ⟨⟨⟩, -, henter⟩ := bind_ok.mp henter
        rw [if_pos hpresent] at henter
        cases hr : s.restore w.files with
        | error e =>
          rw [hr] at henter
          cases henter
        | ok y =>
          rw [(restore_mirrors hk hr).2.2] at hhealth
          cases hhealth
  | contends saved =>
    simp only [Driver.next] at hstep
    split at hstep
    · obtain rfl := Option.some.inj hstep
      refine ⟨fun hrefused => ?_, h.missed⟩
      obtain ⟨hhealth, hrest⟩ := h.refused hrefused
      refine ⟨?_, hrest⟩
      show (w.files.health || saved) = true
      rw [hhealth, Bool.true_or]
    · cases hstep
  | calls c io saved =>
    simp only [Driver.next] at hstep
    split at hstep
    · cases hstep
    · next x hx =>
      split at hstep
      · obtain rfl := Option.some.inj hstep
        obtain rfl : saved = true := hsaved
        obtain ⟨hmissed, hkept⟩ := told_missed (w := w) c (s.call x w.files c io true)
        refine ⟨fun hrefused => ?_, fun hne => hkept (h.missed (hmissed ▸ hne))⟩
        cases hwas : w.refused with
        | true =>
          obtain ⟨hhealth, hpresent, hopen, hunhealthy⟩ := h.refused hwas
          obtain ⟨⟨health, hfiles⟩, hstill⟩ :=
            call_unhealthy (s := s) (hunhealthy x hx) w.files c io true
          rw [hfiles]
          refine ⟨?_, hpresent, hopen, hstill⟩
          show (w.files.health || health) = true
          rw [hhealth, Bool.true_or]
        | false =>
          obtain ⟨writer, token, observedUtc, rfl, hanswer, hsome, hcapturing⟩ :=
            told_refused hrefused hwas
          obtain ⟨y, hy⟩ := Option.isSome_iff_exists.mp hsome
          obtain ⟨hunhealthy, hhealth, hframes, hpresent⟩ := begin_refused hanswer hy
          obtain ⟨controls, frames, hk, -⟩ := hok
          have hstarted : w.files.controls.present = true := by
            by_contra habsent
            rcases hk.lines with hc | hc
            · rw [(hk.sound.1 (Bool.eq_false_of_not_eq_true habsent)).1] at hc
              cases hc
            · exact hcapturing.1 (hk.told.trans hc.2.2)
          refine ⟨hhealth, hpresent hstarted, ?_, fun z hz => ?_⟩
          · show ¬ Fenced (s.call x w.files _ io true).files.frames.lines
            rw [hframes]
            exact hcapturing.2
          · obtain rfl := Option.some.inj (hy.symm.trans hz)
            exact hunhealthy
      · cases hstep
  | commits t =>
    simp only [Driver.next] at hstep
    split at hstep
    · obtain rfl := Option.some.inj hstep
      exact ⟨h.refused, h.missed⟩
    · cases hstep
  | rollsBack token =>
    simp only [Driver.next] at hstep
    split at hstep
    · obtain rfl := Option.some.inj hstep
      exact ⟨h.refused, h.missed⟩
    · cases hstep
  | slips trades decisions =>
    simp only [Driver.next] at hstep
    split at hstep
    · next hrefused =>
      obtain rfl := Option.some.inj hstep
      exact ⟨h.refused, fun _ => hrefused⟩
    · cases hstep
  | crashes =>
    obtain rfl := Option.some.inj hstep
    refine ⟨fun hrefused => ?_, h.missed⟩
    obtain ⟨hhealth, hpresent, hopen, -⟩ := h.refused hrefused
    exact ⟨hhealth, hpresent, hopen, fun x hx => absurd hx (Option.some_ne_none x).symm⟩

end Latch

/-! ## The theorem -/

/-- Behind END_FENCE the database has ended what was begun, and the frames
tell what it committed. -/
theorem Keeps.fenced {s : Setup φ} {db : Database φ} {d : Files φ}
    {controls : List Control} {frames : List (Frame φ)} (hk : Keeps s db d controls frames)
    (hfenced : Fenced frames) :
    db.working = [] ∧ (Observation.told frames).Perm db.committed := by
  have hsettled := hk.written.settled hfenced
  obtain ⟨hleft, hrolledNodup, hapart⟩ := List.nodup_append.mp hk.knows.distinct
  obtain ⟨hworking, hids, hended⟩ := List.nodup_append.mp hleft
  have hframed : ∀ token ∈ framed frames, token ∈ db.committed.map Transaction.transactionId := by
    intro token ht
    rw [← told_ids] at ht
    obtain ⟨t, htold, rfl⟩ := List.mem_map.mp ht
    exact List.mem_map_of_mem (hk.knows.told t htold)
  refine ⟨List.eq_nil_iff_forall_not_mem.mpr fun token ht => ?_, ?_⟩
  · have hmem : token ∈ db.working ++ db.committed.map Transaction.transactionId :=
      List.mem_append_left _ ht
    rcases hsettled token (hk.knows.begun token (List.mem_append_left _ hmem)) with hf | hr
    · exact hended token ht token (hframed token hf) rfl
    · exact hapart token hmem token (hk.knows.rolled token hr) rfl
  · have htold : ((Observation.told frames).map Transaction.transactionId).Nodup := by
      rw [told_ids]
      exact hk.written.framed_begun.1
    refine (List.perm_ext_iff_of_nodup (List.Nodup.of_map _ htold) (List.Nodup.of_map _ hids)).mpr
      fun t => ⟨hk.knows.told t, fun ht => ?_⟩
    have hid : t.transactionId ∈ db.working ++ db.committed.map Transaction.transactionId :=
      List.mem_append_right _ (List.mem_map_of_mem ht)
    rcases hsettled t.transactionId (hk.knows.begun _ (List.mem_append_left _ hid)) with hf | hr
    · rw [← told_ids] at hf
      obtain ⟨u, hu, he⟩ := List.mem_map.mp hf
      rwa [← Keyed.eq_of_key Transaction.transactionId hids (hk.knows.told u hu) ht he]
    · exact absurd rfl (hapart t.transactionId hid t.transactionId (hk.knows.rolled _ hr))

/-- Over any run, the frames are numbered, no transaction is told twice, and what is told was
committed, with these facts. At END_FENCE, which is last, what was begun with a token has ended and
what was committed is told; and if `source_capture_health.json` was always written, nothing was
committed without a token since ACTIVATION. -/
theorem hook_tells [DecidableEq φ] {s : Setup φ}
    {tr : List (DriverEvent φ × Driver φ)} {w : Driver φ}
    (h : Run (Runs.Next (Driver.next s)) .start tr w) :
    w.files.frames.lines.map Frame.cursor = List.range' 1 w.files.frames.lines.length ∧
      (framed w.files.frames.lines).Nodup ∧
      (∀ t ∈ told w.files.frames.lines, t ∈ w.database.committed) ∧
      ∀ f ∈ w.files.frames.lines, f.kind = .endFence → w.files.frames.lines.getLast? = some f ∧
        f.fence = some (drainFence sourceWriters (w.files.frames.lines.length - 1)) ∧
        w.database.working = [] ∧
        (told w.files.frames.lines).Perm w.database.committed ∧
        ((∀ x ∈ tr, x.1.saved = true) → w.missed = []) := by
  have hok : w.Ok s := h.inv (Driver.Ok s) (fun _ _ _ hw hstep => hw.next hstep) (.start s)
  obtain ⟨controls, frames, hk, -⟩ := hok
  rw [hk.told]
  refine ⟨hk.written.numbered, hk.written.framed_begun.1, hk.knows.told, fun f hf hkind => ?_⟩
  obtain ⟨hlast, hfence⟩ := hk.written.fence_last hf hkind
  obtain ⟨hnone, hperm⟩ := hk.fenced ⟨f, hf, hkind⟩
  refine ⟨hlast, hfence, hnone, hperm, fun hsaved => ?_⟩
  let Both (w : Driver φ) : Prop := w.Ok s ∧ w.Latched
  have hstart : Both .start := ⟨.start s, nofun, fun hne => absurd rfl hne⟩
  have hsteps : Each (fun _ e _ => e.saved = true) .start tr := by
    refine each_of_events _ fun e he _ _ => ?_
    obtain ⟨x, hx, rfl⟩ := List.mem_map.mp he
    exact hsaved x hx
  have hboth : Both w := (h.inv_each Both (fun _ _ _ hw hstep he =>
    ⟨hw.1.next hstep, hw.2.next hw.1 hstep he⟩) hsteps hstart).1
  by_contra hne
  refine (hboth.2.refused (hboth.2.missed hne)).2.2.1 ?_
  rw [hk.told]
  exact ⟨f, hf, hkind⟩

def rehearsalSetup : Setup String where
  evidenceKind := "synthetic"
  bindingSha256 := "b1"
  window := ⟨"1970-01-01T00:00:10Z", "1970-01-01T00:00:40Z"⟩
  syntheticClock := true
  signer := none
  canonical _ := ""

def rehearsalTold : Transaction String := ⟨"t1", ["trade"], ["decision"]⟩

/-- A commit whose COMMIT_ACK a crash takes, and END_FENCE after the restart. -/
def rehearsalEvents : List (DriverEvent String) :=
  [.opens true "1970-01-01T00:00:00Z" [] true,
    .calls (.registerWriter "ingestion" "1970-01-01T00:00:01Z") [] true,
    .calls (.registerWriter "execution" "1970-01-01T00:00:02Z") [] true,
    .calls (.activate "1970-01-01T00:00:03Z" "activation:1" "1970-01-01T00:00:03Z") [] true,
    .calls (.begin "ingestion" "t1" "1970-01-01T00:00:20Z") [] true,
    .calls (.begin "execution" "t2" "1970-01-01T00:00:20Z") [] true,
    .calls (.beforeCommit "t1" "1970-01-01T00:00:21Z" "1970-01-01T00:00:21Z") [] true,
    .commits rehearsalTold, .rollsBack "t2",
    .calls (.rolledBack "t2" "1970-01-01T00:00:21Z") [] true,
    .calls (.committed "t1" ["trade"] ["decision"] "1970-01-01T00:00:22Z" "1970-01-01T00:00:22Z"
      "1970-01-01T00:00:22Z") [.done, .died .clean] true,
    .opens true "1970-01-01T00:00:30Z" [] true,
    .calls (.endFence "1970-01-01T00:00:41Z" "end:1" "1970-01-01T00:00:41Z" "1970-01-01T00:00:41Z")
      [] true]

def rehearsed : Driver String := Runs.after (Driver.next rehearsalSetup) .start rehearsalEvents

theorem hook_tells_rehearsal : Fenced rehearsed.files.frames.lines ∧
    rehearsed.database.committed = [rehearsalTold] ∧
    (told rehearsed.files.frames.lines).Perm rehearsed.database.committed ∧
    rehearsed.missed = [] := by
  obtain ⟨tr, hrun, hevents⟩ :=
    after_run (Driver.next rehearsalSetup) .start rehearsalEvents (by decide +kernel)
  have hfenced : Fenced rehearsed.files.frames.lines := by decide +kernel
  have hsaved : ∀ x ∈ tr, x.1.saved = true := by
    intro x hx
    have hall : ∀ e ∈ rehearsalEvents, e.saved = true := by
      simp [rehearsalEvents, DriverEvent.saved]
    exact hall x.1 (hevents ▸ List.mem_map_of_mem hx)
  obtain ⟨-, -, -, htells⟩ := hook_tells hrun
  obtain ⟨f, hf, hkind⟩ := hfenced
  obtain ⟨-, -, -, hperm, hmissed⟩ := htells f hf hkind
  exact ⟨⟨f, hf, hkind⟩, by decide +kernel, hperm, hmissed hsaved⟩

end Polycopy.Observation

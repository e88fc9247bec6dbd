import Polycopy.Lib.LogFold
import Polycopy.Lib.Run
import Polycopy.Shadow.DiskIndex

/-!
# Fences over one journal

Every process of a run opens a `Fence` of its own over the one SQLite journal.  It
keeps the state of the records it has seen and reads those it has not
(`Index.sync`); under the writer lock it appends one more that its own state accepts
(`Index.append`).  A transaction that raises is rolled back, and the index is rebuilt
from the journal in two reads, of the records and then of their number.

Whatever the order of the processes' steps, as long as no record is committed between
the two reads of a rebuild (`Quiet`):

    the journal is replayed without an error, and every index, once it has read on,
    holds what that replay holds; a record is appended just where the replay of the
    journal with it succeeds, and is refused in the same words     (fences_agree)

A record committed between the two reads is never seen by the index: an attempt it
admits in the epoch that has just been closed leaves a journal that no process can
replay any more (`rebuild_overtaken`).
-/

namespace Polycopy.Comparison

open LogFold Runs

/-! ## An index -/

/-- What a `Fence` keeps of the journal: `_state` and `_indexed_seq`. -/
structure Index where
  state : State DiskMap
  indexedSeq : Nat
  /-- Between the two reads of `_rebuild`. -/
  rebuilding : Bool

def indexError : String := "list index out of range"

/-- A turn of the loop of `state`. -/
def Index.consume (cfg : Setup) (log : List Event) (x : Index)
    (e : Event) : Except String Index := do
  let previous ←
    if 1 < e.seq then
      match log[e.seq - 2]? with
      | none => Except.error indexError
      | some before => Except.ok (some (cfg.digest.event before))
    else .ok none
  let s ← replayOne cfg x.state e.seq previous e
  .ok { x with state := s, indexedSeq := e.seq }

/-- What it has read before an error stays read. -/
def Index.consumeAll (cfg : Setup) (log : List Event) (x : Index) :
    List Event → Index × Except String Unit
  | [] => (x, .ok ())
  | e :: es => match x.consume cfg log e with
    | .error text => (x, .error text)
    | .ok y => y.consumeAll cfg log es

/-- `state`: the rows after `_indexed_seq`. -/
def Index.sync (cfg : Setup) (log : List Event) (x : Index) : Index × Except String Unit :=
  x.consumeAll cfg log (log.drop x.indexedSeq)

/-- `_append`, within a transaction. -/
def Index.append (cfg : Setup) (log : List Event) (x : Index) (observedUtc : String)
    (payload : Payload) : Except String (Index × Event) :=
  let e := cfg.record log observedUtc payload
  match x.sync cfg log with
  | (_, .error text) => .error text
  | (x, .ok ()) =>
    (replayOne cfg x.state e.seq e.previousSha256 e).map fun s =>
      ({ x with state := s, indexedSeq := e.seq }, e)

/-- `__init__`: ARM, unless it is there, and the index, all in one transaction. -/
def openFence (cfg : Setup) (log : List Event) (observedUtc : String) :
    Except String (List Event × Index) := do
  let log := if log = [] then [cfg.record [] observedUtc (.arm cfg.binding)] else log
  let s ← replay (M := DiskMap) cfg log
  .ok (log, ⟨s, log.length, false⟩)

/-! ## The processes -/

structure Spool where
  log : List Event
  fences : Nat → Option Index

def Spool.put (s : Spool) (p : Nat) (x : Option Index) : Spool :=
  { s with fences := Function.update s.fences p x }

theorem Spool.put_self (s : Spool) (p : Nat) (x : Option Index) :
    (s.put p x).fences p = x := Function.update_self ..

theorem Spool.put_other (s : Spool) {p q : Nat} (x : Option Index) (hq : q ≠ p) :
    (s.put p x).fences q = s.fences q :=
  Function.update_of_ne hq ..

inductive SpoolEvent
  | opens (p : Nat) (observedUtc : String)
  /-- `state`, out of a transaction. -/
  | reads (p : Nat)
  | appends (p : Nat) (observedUtc : String) (payload : Payload)
  /-- A transaction raises: ROLLBACK, and the first read of `_rebuild`. -/
  | rollsBack (p : Nat)
  /-- The second read. -/
  | rebuilt (p : Nat)
  /-- `close`, or the end of the process. -/
  | closes (p : Nat)
  deriving DecidableEq, Repr

/-- A transaction is one step: `BEGIN IMMEDIATE` lets in one writer at a time, and `state`
reads what is committed. -/
inductive SpoolStep (cfg : Setup) (s : Spool) : SpoolEvent → Spool → Prop
  | opens {p : Nat} {observedUtc : String} {log : List Event} {x : Index} : s.fences p = none →
      openFence cfg s.log observedUtc = .ok (log, x) →
      SpoolStep cfg s (.opens p observedUtc) { s.put p (some x) with log := log }
  | reads {p : Nat} {x : Index} : s.fences p = some x → x.rebuilding = false →
      SpoolStep cfg s (.reads p) (s.put p (some (x.sync cfg s.log).1))
  | appends {p : Nat} {x y : Index} {e : Event} {observedUtc : String}
      {payload : Payload} : s.fences p = some x →
      x.rebuilding = false → x.append cfg s.log observedUtc payload = .ok (y, e) →
      SpoolStep cfg s (.appends p observedUtc payload) { s.put p (some y) with log := s.log ++ [e] }
  | rollsBack {p : Nat} {x : Index} {d : State DiskMap} :
      s.fences p = some x → x.rebuilding = false →
      replay cfg s.log = .ok d →
      SpoolStep cfg s (.rollsBack p) (s.put p (some { x with state := d, rebuilding := true }))
  | rebuilt {p : Nat} {x : Index} : s.fences p = some x → x.rebuilding = true →
      SpoolStep cfg s (.rebuilt p)
        (s.put p (some { x with indexedSeq := s.log.length, rebuilding := false }))
  | closes (p : Nat) : SpoolStep cfg s (.closes p) (s.put p none)

/-- No record is committed between the two reads of a rebuild. -/
def Quiet (s : Spool) (_ : SpoolEvent) (t : Spool) : Prop :=
  t.log = s.log ∨ ∀ p x, s.fences p = some x → x.rebuilding = false

/-! ## The journal as a log -/

/-- `replayOne`, by the records before. -/
def journaled {M : Type} [AttemptMap M] (cfg : Setup) (pre : List Event) (s : State M)
    (e : Event) : Except String (State M) :=
  replayOne cfg s (pre.length + 1) (lastHash cfg pre) e

theorem lastHash_snoc (cfg : Setup) (pre : List Event) (e : Event) :
    lastHash cfg (pre ++ [e]) = some (cfg.digest.event e) := by
  unfold lastHash
  rw [List.getLast?_concat]
  rfl

theorem replayFrom_eq {M : Type} [AttemptMap M] (cfg : Setup) (pre : List Event)
    (s : State M) (es : List Event) :
    replayFrom cfg s (pre.length + 1) (lastHash cfg pre) es = runFrom (journaled cfg) pre s es := by
  induction es generalizing pre s with
  | nil => rfl
  | cons e es ih =>
    rw [runFrom_cons]
    unfold replayFrom
    show (journaled cfg pre s e).bind _ = _
    congr 1
    funext t
    rw [← ih, lastHash_snoc, List.length_append, List.length_singleton]

theorem replay_eq_ok {cfg : Setup} {log : List Event} {d : DictState} :
    replay cfg log = .ok d ↔ log ≠ [] ∧ runFrom (journaled cfg) [] .initial log = .ok d := by
  rw [← replayFrom_eq]
  unfold replay
  split
  · next h => exact ⟨nofun, fun h' => absurd h h'.1⟩
  · next h => exact ⟨fun h' => ⟨h, h'⟩, fun h' => h'.2⟩

theorem replay_snoc {cfg : Setup} {log : List Event} {d : DictState}
    (h : replay cfg log = .ok d) (e : Event) :
    replay cfg (log ++ [e]) = journaled cfg log d e := by
  obtain ⟨hne, hd⟩ := replay_eq_ok.mp h
  unfold replay
  rw [if_neg (List.append_ne_nil_of_left_ne_nil hne _)]
  have hsnoc := runFrom_snoc (journaled cfg) [] (State.initial (M := List Attempt)) log e
  rw [hd] at hsnoc
  exact (replayFrom_eq cfg [] _ _).trans hsnoc

/-- The number of a record is its place. -/
theorem journaled_seq {cfg : Setup} {pre : List Event} {s t : DictState} {e : Event}
    (h : journaled cfg pre s e = .ok t) :
    e.seq = pre.length + 1 := (replayOne_cases h).2.2.1

theorem journaled_inv {cfg : Setup} (pre : List Event) (s : DictState) (e : Event)
    (t : DictState) (h : Inv cfg s)
    (ht : journaled cfg pre s e = .ok t) : Inv cfg t := replayOne_inv h ht

/-! ## What an index holds -/

/-- The state of the records up to `_indexed_seq`. -/
def Index.Agrees (cfg : Setup) (log : List Event) (x : Index) : Prop :=
  x.rebuilding = false ∧ ∃ d, replay cfg (log.take x.indexedSeq) = .ok d ∧
    x.state = d.onDisk ∧ x.indexedSeq ≤ log.length

theorem consumeAll_ok {cfg : Setup} {log : List Event} (es : List Event) {pre : List Event}
    {d d' : DictState} (hlog : log = pre ++ es) (hne : pre ≠ []) (hinv : Inv cfg d)
    (h : runFrom (journaled cfg) pre d es = .ok d') :
    Index.consumeAll cfg log ⟨d.onDisk, pre.length, false⟩ es =
      (⟨d'.onDisk, log.length, false⟩, .ok ()) := by
  induction es generalizing pre d with
  | nil =>
    rw [List.append_nil] at hlog
    rw [hlog, ← Except.ok.inj h]
    rfl
  | cons e es ih =>
    obtain ⟨t, ht, h⟩ := bind_ok h
    have hseq := journaled_seq ht
    have hpos : 0 < pre.length := List.length_pos_iff.mpr hne
    have hbefore : log[e.seq - 2]? = pre.getLast? := by
      rw [hlog, hseq, List.getLast?_eq_getElem?,
        show pre.length + 1 - 2 = pre.length - 1 from by omega]
      exact List.getElem?_append_left (by omega)
    obtain ⟨before, hlast⟩ := Option.isSome_iff_exists.mp (List.getLast?_isSome.mpr hne)
    have hprevious : lastHash cfg pre = some (cfg.digest.event before) := by
      unfold lastHash
      rw [hlast]
      rfl
    have hone : Index.consume cfg log ⟨d.onDisk, pre.length, false⟩ e =
        .ok ⟨t.onDisk, pre.length + 1, false⟩ := by
      unfold journaled at ht
      unfold Index.consume
      rw [if_pos (by omega), hbefore, hlast]
      show (replayOne cfg d.onDisk e.seq (some (cfg.digest.event before)) e).bind _ = _
      rw [replayOne_onDisk hinv, hseq, ← hprevious, ht]
      rfl
    unfold Index.consumeAll
    rw [hone]
    have hrest := ih (hlog.trans (List.append_cons pre e es))
      (List.append_ne_nil_of_right_ne_nil _ (List.cons_ne_nil _ _))
      (journaled_inv pre d e t hinv ht) h
    rwa [List.length_append, List.length_singleton] at hrest

/-- An index that reads on holds what the replay of the journal holds. -/
theorem Index.Agrees.sync {cfg : Setup} {log : List Event} {d : DictState} {x : Index}
    (h : x.Agrees cfg log) (hd : replay cfg log = .ok d) :
    x.sync cfg log = (⟨d.onDisk, log.length, false⟩, .ok ()) := by
  obtain ⟨hquiet, d₀, hd₀, hstate, hle⟩ := h
  obtain ⟨hne, hrun⟩ := replay_eq_ok.mp hd₀
  have hrest := runFrom_rest (journaled cfg) log hrun
  rw [(replay_eq_ok.mp hd).2] at hrest
  have hlen : (log.take x.indexedSeq).length = x.indexedSeq := List.length_take_of_le hle
  have hall := consumeAll_ok (log.drop x.indexedSeq)
    (List.take_append_drop x.indexedSeq log).symm hne (replay_inv hd₀) hrest.symm
  rw [hlen] at hall
  unfold Index.sync
  obtain ⟨state, indexedSeq, rebuilding⟩ := x
  obtain rfl : rebuilding = false := hquiet
  obtain rfl : state = d₀.onDisk := hstate
  exact hall

/-- A record is appended where the replay accepts it, and refused in the words of the replay. -/
theorem Index.Agrees.append {cfg : Setup} {log : List Event} {d : DictState}
    {x : Index} (h : x.Agrees cfg log) (hd : replay cfg log = .ok d) (observedUtc : String)
    (payload : Payload) :
    x.append cfg log observedUtc payload =
      (replay cfg (log ++ [cfg.record log observedUtc payload])).map fun d' =>
        (⟨State.onDisk d', log.length + 1, false⟩, cfg.record log observedUtc payload) := by
  have hrecord : (cfg.record log observedUtc payload).seq = log.length + 1 ∧
      (cfg.record log observedUtc payload).previousSha256 = lastHash cfg log := by
    unfold Setup.record
    cases cfg.authority <;> exact ⟨rfl, rfl⟩
  unfold Index.append
  rw [h.sync hd, replay_snoc hd]
  unfold journaled
  dsimp only
  rw [hrecord.1, hrecord.2, replayOne_onDisk (replay_inv hd)]
  cases replayOne cfg d (log.length + 1) (lastHash cfg log)
    (cfg.record log observedUtc payload) <;> rfl

/-! ## Every order of steps -/

/-- Between its two reads an index holds the state of the whole journal. -/
def Index.Rebuilds (cfg : Setup) (log : List Event) (x : Index) : Prop :=
  x.rebuilding = true ∧ ∃ d, replay cfg log = .ok d ∧ x.state = d.onDisk

structure Spool.Good (cfg : Setup) (s : Spool) : Prop where
  journal : s.log = [] ∨ ∃ d, replay (M := List Attempt) cfg s.log = .ok d
  fences : ∀ p x, s.fences p = some x → x.Agrees cfg s.log ∨ x.Rebuilds cfg s.log

theorem Index.Agrees.mono {cfg : Setup} {log : List Event} {x : Index}
    (h : x.Agrees cfg log) (more : List Event) :
    x.Agrees cfg (log ++ more) := by
  obtain ⟨hquiet, d, hd, hstate, hle⟩ := h
  refine ⟨hquiet, d, ?_, hstate, ?_⟩
  · rwa [List.take_append_of_le_length hle]
  · rw [List.length_append]
    omega

theorem agrees_whole {cfg : Setup} {log : List Event} {d : DictState}
    (hd : replay cfg log = .ok d) :
    Index.Agrees cfg log ⟨d.onDisk, log.length, false⟩ := by
  refine ⟨rfl, d, ?_, rfl, le_refl _⟩
  rwa [List.take_length]

theorem Index.Agrees.replays {cfg : Setup} {log : List Event} {x : Index}
    (h : x.Agrees cfg log) : log ≠ [] := by
  obtain ⟨-, d, hd, -, -⟩ := h
  intro hnil
  rw [hnil, List.take_nil] at hd
  cases hd

theorem Spool.Good.replays {cfg : Setup} {s : Spool} {p : Nat} {x : Index}
    (h : s.Good cfg) (hx : s.fences p = some x) :
    ∃ d, replay (M := List Attempt) cfg s.log = .ok d := by
  rcases h.fences p x hx with hagrees | ⟨-, d, hd, -⟩
  · exact h.journal.resolve_left hagrees.replays
  · exact ⟨d, hd⟩

theorem Spool.Good.agrees {cfg : Setup} {s : Spool} {p : Nat} {x : Index}
    (h : s.Good cfg) (hx : s.fences p = some x)
    (hquiet : x.rebuilding = false) : x.Agrees cfg s.log := by
  refine (h.fences p x hx).resolve_right fun hr => ?_
  rw [hr.1] at hquiet
  cases hquiet

/-- One process goes on, the journal stays. -/
theorem Spool.Good.put {cfg : Setup} {s : Spool} (h : s.Good cfg) (p : Nat) {x : Option Index}
    (hx : ∀ y, x = some y → y.Agrees cfg s.log ∨ y.Rebuilds cfg s.log) : (s.put p x).Good cfg where
  journal := h.journal
  fences q y hy := by
    by_cases hq : q = p
    · subst hq
      exact hx y ((s.put_self q x).symm.trans hy)
    · exact h.fences q y ((s.put_other x hq).symm.trans hy)

/-- One process goes on, and has appended a record. -/
theorem Spool.Good.appended {cfg : Setup} {s : Spool} (h : s.Good cfg) (p : Nat)
    {x : Index} {e : Event} {d : DictState} (hd : replay cfg (s.log ++ [e]) = .ok d)
    (hx : x.Agrees cfg (s.log ++ [e]))
    (hquiet : ∀ q y, s.fences q = some y → y.rebuilding = false) :
    Spool.Good cfg { s.put p (some x) with log := s.log ++ [e] } where
  journal := Or.inr ⟨d, hd⟩
  fences q y hy := by
    left
    by_cases hq : q = p
    · subst hq
      obtain rfl := Option.some.inj ((s.put_self q (some x)).symm.trans hy)
      exact hx
    · have hy' : s.fences q = some y := (s.put_other (some x) hq).symm.trans hy
      exact (h.agrees hy' (hquiet q y hy')).mono [e]

theorem openFence_ok {cfg : Setup} {log log' : List Event} {observedUtc : String} {x : Index}
    (h : openFence cfg log observedUtc = .ok (log', x)) :
    (log ≠ [] → log' = log) ∧ ∃ d, replay cfg log' = .ok d ∧
    x = ⟨State.onDisk d, log'.length, false⟩ := by
  unfold openFence at h
  obtain ⟨s, hs, h⟩ := bind_ok_iff.mp h
  obtain ⟨rfl, rfl⟩ := Prod.mk.inj (Except.ok.inj h)
  refine ⟨fun hne => if_neg hne, ?_⟩
  obtain ⟨d, hd, rfl⟩ := replay_of_disk hs
  exact ⟨d, hd, rfl⟩

theorem Spool.Good.step {cfg : Setup} {s t : Spool} {ev : SpoolEvent}
    (h : s.Good cfg) (hs : SpoolStep cfg s ev t) (hquiet : Quiet s ev t) : t.Good cfg := by
  cases hs with
  | @opens p observedUtc log x hp hopen =>
    obtain ⟨hsame, d, hd, rfl⟩ := openFence_ok hopen
    by_cases hnil : s.log = []
    · -- the first process of the run
      refine ⟨Or.inr ⟨d, hd⟩, fun q y hy => Or.inl ?_⟩
      by_cases hq : q = p
      · subst hq
        obtain rfl := Option.some.inj ((s.put_self q _).symm.trans hy)
        exact agrees_whole hd
      · obtain ⟨d', hd'⟩ := h.replays ((s.put_other _ hq).symm.trans hy)
        rw [hnil] at hd'
        cases hd'
    · obtain rfl := hsame hnil
      exact h.put p fun y hy => Or.inl (Option.some.inj hy ▸ agrees_whole hd)
  | @reads p x hx hfree =>
    obtain ⟨d, hd⟩ := h.replays hx
    refine h.put p fun y hy => Or.inl ?_
    rw [← Option.some.inj hy, (h.agrees hx hfree).sync hd]
    exact agrees_whole hd
  | @appends p x y e observedUtc payload hx hfree happend =>
    obtain ⟨d, hd⟩ := h.replays hx
    rw [(h.agrees hx hfree).append hd] at happend
    cases hd' : replay (M := List Attempt) cfg (s.log ++ [cfg.record s.log observedUtc payload]) with
    | error text =>
      rw [hd'] at happend
      cases happend
    | ok d' =>
      rw [hd'] at happend
      obtain ⟨rfl, rfl⟩ := Prod.mk.inj (Except.ok.inj happend)
      have hagrees := agrees_whole hd'
      rw [List.length_append, List.length_singleton] at hagrees
      refine h.appended p hd' hagrees (hquiet.resolve_left fun hsame => ?_)
      exact List.cons_ne_nil _ _ (List.append_right_eq_self.mp hsame)
  | @rollsBack p x d hx hfree hd =>
    exact h.put p fun y hy => Or.inr (Option.some.inj hy ▸ ⟨rfl, replay_of_disk hd⟩)
  | @rebuilt p x hx hbusy =>
    refine h.put p fun y hy => Or.inl ?_
    rcases h.fences p x hx with hagrees | ⟨-, d, hd, hstate⟩
    · rw [hagrees.1] at hbusy
      cases hbusy
    · rw [← Option.some.inj hy, hstate]
      exact agrees_whole hd
  | closes p =>
    refine h.put p fun y hy => ?_
    cases hy

/-- In every order of the processes' steps the journal is replayed without an error, and every index
that reads on holds, accepts and refuses what a replay of the whole journal does. -/
theorem fences_agree {cfg : Setup} {s t : Spool} {tr : List (SpoolEvent × Spool)}
    (h : Run (SpoolStep cfg) s tr t)
    (hquiet : Each Quiet s tr) (hlog : s.log = [] ∨
      ∃ d, replay (M := List Attempt) cfg s.log = .ok d) (hnone : ∀ p, s.fences p = none) :
    (t.log = [] → ∀ p, t.fences p = none) ∧
      (t.log ≠ [] → ∃ d, replay cfg t.log = .ok d ∧ ∀ p x,
        t.fences p = some x → x.rebuilding = false →
        x.sync cfg t.log = (⟨State.onDisk d, t.log.length, false⟩, .ok ()) ∧
        ∀ observedUtc payload, x.append cfg t.log observedUtc payload =
          (replay cfg (t.log ++ [cfg.record t.log observedUtc payload])).map fun d' =>
            (⟨State.onDisk d', t.log.length + 1, false⟩, cfg.record t.log observedUtc payload)) := by
  have hstart : s.Good cfg := ⟨hlog, fun p x hx => by rw [hnone p] at hx; cases hx⟩
  have hgood : t.Good cfg :=
    (h.inv_each (Spool.Good cfg) (fun _ _ _ hg hs hq => hg.step hs hq) hquiet hstart).1
  refine ⟨fun hnil p => ?_, fun hne => ?_⟩
  · by_contra hp
    obtain ⟨x, hx⟩ := Option.ne_none_iff_exists'.mp hp
    obtain ⟨d, hd⟩ := hgood.replays hx
    rw [hnil] at hd
    cases hd
  · obtain ⟨d, hd⟩ := hgood.journal.resolve_left hne
    refine ⟨d, hd, fun p x hx hfree => ?_⟩
    have hagrees := hgood.agrees hx hfree
    refine ⟨hagrees.sync hd, fun observedUtc payload => ?_⟩
    exact hagrees.append hd observedUtc payload

/-! ## A rebuild overtaken -/

theorem raiseIf_not {p : Prop} [Decidable p] {text : String} (h : ¬ p) :
    raiseIf p text = .ok () := raiseIf_ok_iff.mpr h

theorem raiseIf_pos {p : Prop} [Decidable p] {text : String} (h : p) :
    raiseIf p text = .error text := if_pos h

theorem verify_record (cfg : Setup) (log : List Event) (observedUtc : String) (payload : Payload) :
    cfg.verify (cfg.record log observedUtc payload) = .ok () := by
  unfold Setup.verify Setup.record
  cases cfg.authority with
  | none => rfl
  | some a => exact raiseIf_not (Bool.not_eq_false _ ▸ a.verify_sign _)

theorem record_fields (cfg : Setup) (log : List Event) (observedUtc : String) (payload : Payload) :
    (cfg.record log observedUtc payload).seq = log.length + 1 ∧
      (cfg.record log observedUtc payload).previousSha256 = lastHash cfg log ∧
      (cfg.record log observedUtc payload).bindingSha256 = cfg.digest.binding cfg.binding ∧
      (cfg.record log observedUtc payload).payload = payload ∧
      (cfg.record log observedUtc payload).observedUtc = observedUtc := by
  unfold Setup.record
  cases cfg.authority <;> exact ⟨rfl, rfl, rfl, rfl, rfl⟩

/-- A record of one's own is refused by its kind alone. -/
theorem journaled_record {cfg : Setup} {log : List Event} {d : DictState} (hne : log ≠ [])
    (harchive : d.archive = none) (observedUtc : String) (payload : Payload) :
    journaled cfg log d (cfg.record log observedUtc payload) =
      d.next cfg (cfg.record log observedUtc payload) := by
  obtain ⟨hseq, hprevious, hbinding, -, -⟩ := record_fields cfg log observedUtc payload
  have hlen : log.length + 1 ≠ 1 := by
    have := List.length_pos_iff.mpr hne
    omega
  unfold journaled replayOne
  rw [raiseIf_not (by rw [harchive]; exact Bool.false_ne_true), verify_record,
    raiseIf_not (by simp [hseq, hprevious, hbinding]), if_neg hlen]
  rfl

theorem next_attempt {cfg : Setup} {d : DictState} {e : Event} {token worker : String} {epoch : Nat}
    (he : e.payload = .attempt token worker epoch none)
    (hroster : cfg.authority.isSome → d.workers = cfg.binding.expectedWorkers.toFinset)
    (hworker : worker ∈ d.workers)
    (hnew : Keyed.find Attempt.transactionId token d.attempts = none) :
    d.next cfg e = if epoch = d.epoch
      then .ok { d with
        attempts := AttemptMap.set ⟨token, worker, epoch, none, .outstanding, e.observedUtc⟩
          d.attempts }
      else .error attemptError := by
  unfold State.next
  rw [he]
  dsimp only
  rw [raiseIf_not (fun h => h.2 (hroster h.1))]
  have hfind : (AttemptMap.find token d.attempts).isSome = false := by
    rw [show AttemptMap.find token d.attempts = none from hnew]
    rfl
  split
  · next hepoch =>
    rw [raiseIf_not (p := worker ∉ d.workers ∨ _ ∨ _) (by simp [hworker, hfind, hepoch]),
      raiseIf_not (by simp)]
    rfl
  · next hepoch =>
    rw [raiseIf_pos (Or.inr (Or.inr hepoch))]
    rfl

theorem error_append {cfg : Setup} {log more : List Event} {text : String} (hne : log ≠ [])
    (h : replay (M := List Attempt) cfg log = .error text) :
    replay (M := List Attempt) cfg (log ++ more) = .error text := by
  unfold replay at h ⊢
  rw [if_neg hne] at h
  rw [if_neg (List.append_ne_nil_of_left_ne_nil hne _)]
  have happend := runFrom_append (journaled cfg) [] (State.initial (M := List Attempt)) log more
  rw [← replayFrom_eq, ← replayFrom_eq] at happend
  change replayFrom cfg .initial 1 none log = _ at h
  change replayFrom cfg .initial 1 none (log ++ more) =
    (replayFrom cfg .initial 1 none log).bind _ at happend
  rw [h] at happend
  exact happend

/-- A CLOSE that comes between the two reads of a rebuild is never seen by that index. What it then
admits in the old epoch is appended, and from then on no journal replays. -/
theorem rebuild_overtaken {cfg : Setup} {s : Spool} {log : List Event} {c : Event} {p : Nat}
    {x : Index} {d d₁ : DictState} {token worker : String} (observedUtc : String)
    (hx : s.fences p = some x) (hbusy : x.rebuilding = true)
    (hd : replay cfg log = .ok d) (hstate : x.state = d.onDisk) (hlog : s.log = log ++ [c])
    (hclose : c.payload = .close d.epoch (d.epoch + 1)) (hd₁ : replay cfg s.log = .ok d₁)
    (hroster : cfg.authority.isSome → d.workers = cfg.binding.expectedWorkers.toFinset)
    (hworker : worker ∈ d.workers)
    (hnew : Keyed.find Attempt.transactionId token d.attempts = none) :
    ∃ t u, SpoolStep cfg s (.rebuilt p) t ∧
      SpoolStep cfg t (.appends p observedUtc (.attempt token worker d.epoch none)) u ∧
      ∀ more, replay (M := List Attempt) cfg (u.log ++ more) = .error attemptError := by
  have hne : s.log ≠ [] := hlog ▸ List.append_ne_nil_of_right_ne_nil _ (List.cons_ne_nil _ _)
  have hc : journaled cfg log d c = .ok d₁ := by
    rw [← replay_snoc hd, ← hlog]
    exact hd₁
  obtain ⟨harchive, hafter⟩ : d.archive = none ∧ d₁.epoch = d.epoch + 1 ∧
      d₁.workers = d.workers ∧ d₁.attempts = d.attempts ∧
      d₁.archive = none := by
    obtain ⟨harchive, -, -, -, ⟨hfirst, -, -⟩ | ⟨-, hnext⟩⟩ := replayOne_cases hc
    · have := List.length_pos_iff.mpr (replay_eq_ok.mp hd).1
      omega
    · refine ⟨harchive, ?_⟩
      cases hnext with
      | close => exact ⟨rfl, rfl, rfl, harchive⟩
      | _ => simp_all
  obtain ⟨hepoch, hworkers, hattempts, harchive'⟩ := hafter
  let e := cfg.record s.log observedUtc (.attempt token worker d.epoch none)
  obtain ⟨hseq, hprevious, -, hpayload, -⟩ :=
    record_fields cfg s.log observedUtc (.attempt token worker d.epoch none)
  let y : Index := { x with indexedSeq := s.log.length, rebuilding := false }
  -- it has nothing to read
  have hsync : y.sync cfg s.log = (y, .ok ()) := by
    unfold Index.sync
    rw [List.drop_length]
    rfl
  have haccepts : replayOne cfg y.state e.seq e.previousSha256 e =
      .ok (State.onDisk { d with
        attempts := AttemptMap.set ⟨token, worker, d.epoch, none, .outstanding, e.observedUtc⟩
          d.attempts }) := by
    have hd' := @journaled_record cfg s.log d hne harchive observedUtc
      (.attempt token worker d.epoch none)
    rw [next_attempt hpayload hroster hworker hnew, if_pos rfl] at hd'
    show replayOne cfg x.state e.seq e.previousSha256 e = _
    rw [hstate, hseq, hprevious, replayOne_onDisk (replay_inv hd)]
    exact congrArg (Except.map State.onDisk) hd'
  have happend : ∃ z, y.append cfg s.log observedUtc
      (.attempt token worker d.epoch none) = .ok (z, e) := by
    unfold Index.append
    rw [hsync]
    dsimp only
    rw [haccepts]
    exact ⟨_, rfl⟩
  obtain ⟨z, hz⟩ := happend
  refine ⟨_, _, .rebuilt hx hbusy, .appends (s.put_self p _) rfl hz, fun more => ?_⟩
  refine error_append (List.append_ne_nil_of_left_ne_nil hne _) ?_
  show replay cfg (s.log ++ [e]) = _
  rw [replay_snoc hd₁, journaled_record hne harchive',
    next_attempt hpayload (fun ha => hworkers.trans (hroster ha)) (hworkers ▸ hworker)
      (hattempts ▸ hnew), if_neg (by omega)]

/-! ## Two runs of two processes -/

/-- ARM and the two workers. -/
def rehearsalEnrolled : List Event := rehearse [
  ("2025-12-31T23:00:00Z", .arm rehearsal.binding),
  ("2025-12-31T23:10:00Z", .enroll "bot:a" (some "installed bot:a")),
  ("2025-12-31T23:20:00Z", .enroll "backend:b" (some "installed backend:b"))]

/-- The journal and the indexes of two processes. -/
def pair (log : List Event) (x y : Option Index) : Spool :=
  ⟨log, fun p => if p = 0 then x else if p = 1 then y else none⟩

theorem pair_put_zero (log : List Event) (x x' y : Option Index) :
    (pair log x y).put 0 x' = pair log x' y := by
  refine congrArg (Spool.mk log) (funext fun p => ?_)
  rcases p with - | p
  · exact Function.update_self ..
  · exact Function.update_of_ne (Nat.succ_ne_zero p) ..

theorem pair_put_one (log : List Event) (x y y' : Option Index) :
    (pair log x y).put 1 y' = pair log x y' := by
  refine congrArg (Spool.mk log) (funext fun p => ?_)
  rcases p with - | - | p
  · exact Function.update_of_ne Nat.zero_ne_one ..
  · exact Function.update_self ..
  · exact Function.update_of_ne (show p + 2 ≠ 1 by omega) ..

theorem pair_quiet {log : List Event} {x y : Option Index} (hx : x.any Index.rebuilding = false)
    (hy : y.any Index.rebuilding = false) (ev : SpoolEvent) (t : Spool) :
    Quiet (pair log x y) ev t := by
  refine Or.inr fun p z hz => ?_
  rcases p with - | - | p
  · obtain rfl : x = some z := hz
    exact hx
  · obtain rfl : y = some z := hz
    exact hy
  · cases hz

/-- The index of the first `n` records. -/
def indexOf (d : DictState) (n : Nat) : Index := ⟨d.onDisk, n, false⟩

theorem openFence_replay {cfg : Setup} {log log' : List Event} {d : DictState}
    {observedUtc : String} (hd : replay cfg log' = .ok d)
    (hlog : (if log = [] then [cfg.record [] observedUtc (.arm cfg.binding)] else log) = log') :
    openFence cfg log observedUtc = .ok (log', indexOf d log'.length) := by
  have hdisk : replay (M := DiskMap) cfg log' = .ok d.onDisk := by
    rw [replay_onDisk, hd]
    rfl
  unfold openFence
  rw [hlog]
  dsimp only
  rw [hdisk]
  rfl

theorem SpoolStep.appends_replay {cfg : Setup} {s : Spool} {p : Nat} {d d' : DictState}
    {observedUtc : String} {payload : Payload} (hx : s.fences p = some (indexOf d s.log.length))
    (hd : replay cfg s.log = .ok d)
    (hd' : replay cfg (s.log ++ [cfg.record s.log observedUtc payload]) = .ok d') :
    SpoolStep cfg s (.appends p observedUtc payload)
      { s.put p (some (indexOf d' (s.log.length + 1))) with
        log := s.log ++ [cfg.record s.log observedUtc payload] } := by
  refine .appends hx rfl ?_
  unfold indexOf
  rw [(agrees_whole hd).append hd, hd']
  rfl

/-- One process appends and the other reads it; one crashes, the other appends, and the first opens
again; a transaction of the other raises and it rebuilds; then the first appends what the other
has not read yet. -/
theorem fences_agree_rehearsal : ∃ t tr x d, Run (SpoolStep rehearsal) (pair [] none none) tr t ∧
    t.log = rehearsalEnrolled ++ [rehearsal.record rehearsalEnrolled "2026-01-01T11:00:00Z"
      (.attempt "t" "bot:a" 0 none)] ∧
    t.fences 1 = some x ∧ x.indexedSeq = 3 ∧ replay rehearsal t.log = .ok d ∧
    x.sync rehearsal t.log = (indexOf d 4, .ok ()) := by
  let arm := rehearsal.record [] "2025-12-31T23:00:00Z" (.arm rehearsal.binding)
  let bot := rehearsal.record [arm] "2025-12-31T23:10:00Z" (.enroll "bot:a" (some "installed bot:a"))
  let backend := rehearsal.record [arm, bot] "2025-12-31T23:20:00Z"
    (.enroll "backend:b" (some "installed backend:b"))
  let begun := rehearsal.record [arm, bot, backend] "2026-01-01T11:00:00Z"
    (.attempt "t" "bot:a" 0 none)
  obtain ⟨d₁, h₁⟩ : ∃ d : DictState, replay rehearsal [arm] = .ok d := exists_ok (by decide +kernel)
  obtain ⟨d₂, h₂⟩ : ∃ d : DictState, replay rehearsal [arm, bot] = .ok d :=
    exists_ok (by decide +kernel)
  obtain ⟨d₃, h₃⟩ : ∃ d : DictState, replay rehearsal [arm, bot, backend] = .ok d :=
    exists_ok (by decide +kernel)
  obtain ⟨d₄, h₄⟩ : ∃ d : DictState, replay rehearsal [arm, bot, backend, begun] = .ok d :=
    exists_ok (by decide +kernel)
  let x₁ := indexOf d₁ 1
  let x₂ := indexOf d₂ 2
  let x₃ := indexOf d₃ 3
  have hfirst : SpoolStep rehearsal (pair [] none none) (.opens 0 "2025-12-31T23:00:00Z")
      (pair [arm] x₁ none) := by
    rw [← pair_put_zero [arm] none x₁ none]
    exact .opens rfl (openFence_replay h₁ (if_pos rfl))
  have hsecond : SpoolStep rehearsal (pair [arm] x₁ none) (.opens 1 "2025-12-31T23:01:00Z")
      (pair [arm] x₁ x₁) := by
    rw [← pair_put_one [arm] x₁ none x₁]
    exact .opens rfl (openFence_replay h₁ (if_neg (List.cons_ne_nil _ _)))
  have hbot : SpoolStep rehearsal (pair [arm] x₁ x₁)
      (.appends 0 "2025-12-31T23:10:00Z" (.enroll "bot:a" (some "installed bot:a")))
        (pair [arm, bot] x₂ x₁) := by
    rw [← pair_put_zero [arm, bot] x₁ x₂ x₁]
    exact .appends_replay rfl h₁ h₂
  have hreads : SpoolStep rehearsal (pair [arm, bot] x₂ x₁) (.reads 1) (pair [arm, bot] x₂ x₂) := by
    have hsync : x₁.sync rehearsal [arm, bot] = (x₂, .ok ()) :=
      ((agrees_whole h₁).mono [bot]).sync h₂
    have h : SpoolStep rehearsal (pair [arm, bot] x₂ x₁) (.reads 1) _ := .reads rfl rfl
    rw [pair_put_one, show (pair [arm, bot] x₂ x₁).log = [arm, bot] from rfl, hsync] at h
    exact h
  have hcrash : SpoolStep rehearsal (pair [arm, bot] x₂ x₂) (.closes 0)
      (pair [arm, bot] none x₂) := by
    rw [← pair_put_zero [arm, bot] x₂ none x₂]
    exact .closes 0
  have hbackend : SpoolStep rehearsal (pair [arm, bot] none x₂)
      (.appends 1 "2025-12-31T23:20:00Z" (.enroll "backend:b" (some "installed backend:b")))
      (pair [arm, bot, backend] none x₃) := by
    rw [← pair_put_one [arm, bot, backend] none x₂ x₃]
    exact .appends_replay rfl h₂ h₃
  have hagain : SpoolStep rehearsal (pair [arm, bot, backend] none x₃)
      (.opens 0 "2025-12-31T23:21:00Z") (pair [arm, bot, backend] x₃ x₃) := by
    rw [← pair_put_zero [arm, bot, backend] none x₃ x₃]
    exact .opens rfl (openFence_replay h₃ (if_neg (List.cons_ne_nil _ _)))
  have hraises : SpoolStep rehearsal (pair [arm, bot, backend] x₃ x₃) (.rollsBack 1)
      (pair [arm, bot, backend] x₃ (some { x₃ with rebuilding := true })) := by
    rw [← pair_put_one [arm, bot, backend] x₃ x₃ (some { x₃ with rebuilding := true })]
    refine .rollsBack rfl rfl ?_
    rw [replay_onDisk]
    exact congrArg (Except.map State.onDisk) h₃
  have hrebuilt : SpoolStep rehearsal
      (pair [arm, bot, backend] x₃ (some { x₃ with rebuilding := true })) (.rebuilt 1)
      (pair [arm, bot, backend] x₃ x₃) := by
    rw [← pair_put_one [arm, bot, backend] x₃ (some { x₃ with rebuilding := true }) x₃]
    exact .rebuilt (x := { x₃ with rebuilding := true }) rfl rfl
  have hbegun : SpoolStep rehearsal (pair [arm, bot, backend] x₃ x₃)
      (.appends 0 "2026-01-01T11:00:00Z" (.attempt "t" "bot:a" 0 none))
      (pair [arm, bot, backend, begun] (indexOf d₄ 4) x₃) := by
    rw [← pair_put_zero [arm, bot, backend, begun] x₃ (indexOf d₄ 4) x₃]
    exact .appends_replay rfl h₃ h₄
  have hrun := Run.cons hfirst (.cons hsecond (.cons hbot (.cons hreads (.cons hcrash (.cons hbackend
    (.cons hagain (.cons hraises (.cons hrebuilt (.single hbegun)))))))))
  have hagree := fences_agree hrun ⟨pair_quiet rfl rfl _ _, pair_quiet rfl rfl _ _,
    pair_quiet rfl rfl _ _, pair_quiet rfl rfl _ _, pair_quiet rfl rfl _ _, pair_quiet rfl rfl _ _,
    pair_quiet rfl rfl _ _, pair_quiet rfl rfl _ _, .inl rfl, pair_quiet rfl rfl _ _, trivial⟩
    (.inl rfl) fun p => by rcases p with - | - | p <;> rfl
  obtain ⟨d, hd, hall⟩ := hagree.2 (List.cons_ne_nil _ _)
  exact ⟨_, _, x₃, d, hrun, rfl, rfl, rfl, hd, (hall 1 x₃ rfl rfl).1⟩

theorem rebuild_overtaken_rehearsal : ∃ s t u, SpoolStep rehearsal s (.rebuilt 0) t ∧
    SpoolStep rehearsal t (.appends 0 "2026-01-02T00:00:02Z" (.attempt "t" "bot:a" 0 none)) u ∧
    ∀ more, replay (M := List Attempt) rehearsal (u.log ++ more) = .error attemptError := by
  have hstate : ((replay (M := List Attempt) rehearsal rehearsalEnrolled).map fun d =>
      (d.epoch, decide (d.workers = rehearsal.binding.expectedWorkers.toFinset), d.attempts)) =
      .ok (0, true, []) := by decide +kernel
  cases hd : replay (M := List Attempt) rehearsal rehearsalEnrolled with
  | error text =>
    rw [hd] at hstate
    cases hstate
  | ok d =>
    rw [hd] at hstate
    obtain ⟨hepoch, hrest⟩ := Prod.mk.inj (Except.ok.inj hstate)
    obtain ⟨hworkers, hattempts⟩ := Prod.mk.inj hrest
    have hworkers := of_decide_eq_true hworkers
    have hworker : "bot:a" ∈ d.workers := hworkers ▸ by decide
    obtain ⟨d₁, hd₁⟩ : ∃ d₁ : DictState, replay rehearsal (rehearsalEnrolled ++
        [rehearsal.record rehearsalEnrolled "2026-01-02T00:00:01Z" (.close 0 1)]) = .ok d₁ :=
        exists_ok (by decide +kernel)
    let s : Spool := ⟨rehearsalEnrolled ++
      [rehearsal.record rehearsalEnrolled "2026-01-02T00:00:01Z" (.close 0 1)],
      fun _ => some ⟨d.onDisk, 3, true⟩⟩
    have hx : s.fences 0 = some ⟨d.onDisk, 3, true⟩ := rfl
    have hnew : Keyed.find Attempt.transactionId "t" d.attempts = none := by
      rw [hattempts]
      rfl
    obtain ⟨t, u, ht, hu, hnever⟩ := rebuild_overtaken "2026-01-02T00:00:02Z" hx rfl hd rfl rfl
      (by rw [hepoch]; rfl) hd₁ (fun _ => hworkers) hworker hnew
    rw [hepoch] at hu
    exact ⟨s, t, u, ht, hu, hnever⟩

end Polycopy.Comparison

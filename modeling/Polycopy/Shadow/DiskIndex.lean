import Mathlib.Data.List.Sort
import Polycopy.Shadow.Population

/-!
# The attempts on disk

A `Fence` keeps the attempts in a temporary table, `attempt_index`, read in the order
of the ids, and how many of the epoch 0 are in each state in `attempt_counts`, which
triggers keep up.  A replay over the table is the replay over a `dict`, down to the
text of its error:

    replay cfg events = (replay cfg events).map State.onDisk      (replay_onDisk)

The counts are right because an attempt keeps its epoch.  `committed_population` is
sorted, so the order of the table does not show.
-/

namespace Polycopy.Comparison

open Py Py.Clock
open Fence (truthy)

/-! ## The table and its triggers -/

/-- `attempt_index` and `attempt_counts`. -/
structure DiskMap where
  rows : List Attempt
  counts : Counts

/-- `attempt_insert`. -/
def insertTrigger (new : Attempt) (c : Counts) : Counts :=
  if new.epoch = 0 then c.add 1 new.state else c

/-- `attempt_update`. -/
def updateTrigger (old new : Attempt) (c : Counts) : Counts :=
  if new.epoch = 0 then (c.add (-1) old.state).add 1 new.state else c

/-- `INSERT … ON CONFLICT(id) DO UPDATE`. -/
def DiskMap.set (a : Attempt) (m : DiskMap) : DiskMap where
  rows := Keyed.put Attempt.transactionId a m.rows
  counts := match Keyed.find Attempt.transactionId a.transactionId m.rows with
    | none => insertTrigger a m.counts
    | some old => updateTrigger old a m.counts

instance : AttemptMap DiskMap where
  empty := ⟨[], ⟨0, 0, 0⟩⟩
  find k m := Keyed.find Attempt.transactionId k m.rows
  set := DiskMap.set
  values m := m.rows.insertionSort fun a b => a.transactionId ≤ b.transactionId
  counts := DiskMap.counts

/-- The table of a `dict`. -/
def diskMap (attempts : List Attempt) : DiskMap := ⟨attempts, countAttempts attempts⟩

def State.onDisk (s : DictState) : State DiskMap where
  epoch := s.epoch
  closed := s.closed
  workers := s.workers
  acks := s.acks
  attempts := diskMap s.attempts
  error := s.error
  receipt := s.receipt
  population := s.population
  archive := s.archive

/-! ## The counts -/

theorem Counts.add_comm (c : Counts) (m n : Int) (x y : AttemptState) :
    (c.add m x).add n y = (c.add n y).add m x := by
  cases x <;> cases y <;> simp [Counts.add, Int.add_right_comm]

theorem Counts.add_neg (c : Counts) (x : AttemptState) : (c.add 1 x).add (-1) x = c := by
  cases x <;> simp [Counts.add]

theorem foldl_add (l : List Attempt) (c : Counts) (n : Int) (x : AttemptState) :
    l.foldl (fun c a => c.add 1 a.state) (c.add n x) =
      (l.foldl (fun c a => c.add 1 a.state) c).add n x := by
  induction l generalizing c with
  | nil => rfl
  | cons a l ih => rw [List.foldl_cons, List.foldl_cons, Counts.add_comm, ih]

theorem countAttempts_cons (a : Attempt) (l : List Attempt) :
    countAttempts (a :: l) = insertTrigger a (countAttempts l) := by
  unfold countAttempts preepoch insertTrigger
  by_cases ha : a.epoch = 0
  · rw [List.filter_cons_of_pos (by simpa using ha), List.foldl_cons, foldl_add, if_pos ha]
  · rw [List.filter_cons_of_neg (by simpa using ha), if_neg ha]

/-- A new attempt. -/
theorem countAttempts_put_new {a : Attempt} {l : List Attempt}
    (h : Keyed.find Attempt.transactionId a.transactionId l = none) :
    countAttempts (Keyed.put Attempt.transactionId a l) = insertTrigger a (countAttempts l) := by
  rw [Keyed.put_of_none _ h]
  unfold countAttempts preepoch insertTrigger
  rw [List.filter_append, List.foldl_append]
  by_cases ha : a.epoch = 0
  · rw [List.filter_cons_of_pos (by simpa using ha), List.filter_nil, if_pos ha]
    rfl
  · rw [List.filter_cons_of_neg (by simpa using ha), List.filter_nil, if_neg ha]
    rfl

/-- An attempt that goes on, in the epoch it had. -/
theorem countAttempts_put_old {a old : Attempt} {l : List Attempt}
    (hn : (l.map Attempt.transactionId).Nodup)
    (h : Keyed.find Attempt.transactionId a.transactionId l = some old)
    (hepoch : old.epoch = a.epoch) :
    countAttempts (Keyed.put Attempt.transactionId a l) = updateTrigger old a (countAttempts l) := by
  induction l with
  | nil => cases h
  | cons b l ih =>
    rw [List.map_cons, List.nodup_cons] at hn
    rw [Keyed.find_cons] at h
    rw [Keyed.put_cons]
    by_cases hb : b.transactionId = a.transactionId
    · rw [if_pos hb] at h ⊢
      obtain rfl := Option.some.inj h
      rw [countAttempts_cons, countAttempts_cons]
      unfold insertTrigger updateTrigger
      by_cases ha : a.epoch = 0
      · rw [if_pos ha, if_pos ha, if_pos (hepoch.trans ha), Counts.add_neg]
      · rw [if_neg ha, if_neg ha, if_neg (hepoch ▸ ha)]
    · rw [if_neg hb] at h ⊢
      rw [countAttempts_cons, countAttempts_cons, ih hn.2 h]
      unfold insertTrigger updateTrigger
      split
      · split
        · rw [Counts.add_comm, Counts.add_comm _ (-1)]
        · rfl
      · rfl

/-- The triggers keep the counts of a table up. -/
theorem diskMap_set {a : Attempt} {l : List Attempt} (hn : (l.map Attempt.transactionId).Nodup)
    (hepoch : ∀ old, Keyed.find Attempt.transactionId a.transactionId l = some old →
      old.epoch = a.epoch) :
    AttemptMap.set a (diskMap l) = diskMap (AttemptMap.set a l) := by
  show DiskMap.mk _ _ = DiskMap.mk _ _
  congr 1
  cases h : Keyed.find Attempt.transactionId a.transactionId l with
  | none =>
    simp only [diskMap, h]
    exact (countAttempts_put_new h).symm
  | some old =>
    simp only [diskMap, h]
    exact (countAttempts_put_old hn h (hepoch old h)).symm

/-! ## The order of the table -/

theorem toString_inj {m n : Nat} (h : toString m = toString n) : m = n := by
  have hdigits := congrArg String.toList h
  rw [Nat.toString_eq_repr, Nat.toString_eq_repr, Nat.toList_repr, Nat.toList_repr] at hdigits
  have hvalue := congrArg (fun ds => Nat.ofDigitChars 10 ds 0) hdigits
  simpa using hvalue

/-- Facts of different ids have one order. -/
theorem sortFacts_perm {l l' : List TradeFact} (h : l.Perm l')
    (hn : (l.map TradeFact.sourceRecordId).Nodup) :
    sortFacts l = sortFacts l' := by
  let r (t u : TradeFact) : Prop := toString t.sourceRecordId ≤ toString u.sourceRecordId
  have : Std.Total r := ⟨fun t u => le_total (toString t.sourceRecordId) (toString u.sourceRecordId)⟩
  have : IsTrans TradeFact r := ⟨fun _ _ _ => le_trans⟩
  have hperm : (sortFacts l).Perm (sortFacts l') :=
    (List.perm_insertionSort r l).trans (h.trans (List.perm_insertionSort r l').symm)
  refine hperm.eq_of_pairwise ?_ (List.pairwise_insertionSort r l) (List.pairwise_insertionSort r l')
  intro t u ht hu htu hut
  have hid : t.sourceRecordId = u.sourceRecordId := toString_inj (le_antisymm htu hut)
  have ht' : t ∈ l := (List.perm_insertionSort r l).mem_iff.mp ht
  have hu' : u ∈ l := h.mem_iff.mpr ((List.perm_insertionSort r l').mem_iff.mp hu)
  exact Keyed.eq_of_key TradeFact.sourceRecordId hn ht' hu' hid

/-- A window that cannot be read is refused for every fact of the cohort, in the same words. -/
theorem inPopulation_error {b : Binding} {t u : TradeFact} {x : String} {i j : Int}
    (ht : epochMicros t.ingestedUtc = .ok i) (hu : epochMicros u.ingestedUtc = .ok j)
    (h : inPopulation b t = .error x) :
    inPopulation b u = .error x ∨ inPopulation b u = .ok false := by
  unfold inPopulation at h ⊢
  by_cases hw : u.wallet ∈ b.cohort
  · left
    rw [if_pos hw]
    split at h
    · unfold inWindow at h ⊢
      rw [ht] at h
      rw [hu]
      cases hstart : epochMicros b.window.startUtc with
      | error y =>
        rw [hstart] at h
        exact h
      | ok start =>
        cases hstop : epochMicros b.window.endUtc with
        | error y =>
          rw [hstart, hstop] at h
          exact h
        | ok stop =>
          rw [hstart, hstop] at h
          change (if stop < start then Except.error reversedError else _) = _ at h
          change (if stop < start then Except.error reversedError else _) = _
          split at h
          · next hlt => rwa [if_pos hlt]
          · cases h
    · cases h
  · right
    rw [if_neg hw]

theorem foldlM_error {b : Binding} {x : String} {l : List TradeFact}
    (hall : ∀ t ∈ l, inPopulation b t = .error x ∨ inPopulation b t = .ok false)
    (hsome : ∃ t ∈ l, inPopulation b t = .error x)
    (facts : List TradeFact) : l.foldlM (addFact b) facts = .error x := by
  induction l with
  | nil =>
    obtain ⟨t, ht, -⟩ := hsome
    cases ht
  | cons u l ih =>
    have hstep : (u :: l).foldlM (addFact b) facts = (addFact b facts u).bind fun facts =>
      l.foldlM (addFact b) facts := rfl
    rw [hstep]
    unfold addFact
    rcases hall u List.mem_cons_self with hu | hu
    · rw [hu]
      rfl
    · rw [hu]
      refine ih (fun t ht => hall t (List.mem_cons_of_mem _ ht)) ?_
      obtain ⟨t, ht, hx⟩ := hsome
      rcases List.mem_cons.mp ht with rfl | ht
      · rw [hu] at hx
        cases hx
      · exact ⟨t, ht, hx⟩

/-- What `committed_population` makes of the facts does not depend on their order. -/
theorem collect_perm {b : Binding} {l l' : List TradeFact} (h : l.Perm l')
    (hclocks : ∀ t ∈ l, ∃ ingested, epochMicros t.ingestedUtc = .ok ingested) :
    (l.foldlM (addFact b) []).map sortFacts = (l'.foldlM (addFact b) []).map sortFacts := by
  by_cases hall : ∀ t ∈ l, ∃ r, inPopulation b t = .ok r
  · have hall' : ∀ t ∈ l', ∃ r, inPopulation b t = .ok r := fun t ht => hall t (h.mem_iff.mpr ht)
    have hfilter := h.filter (inFrozen b)
    have hids := hfilter.map TradeFact.sourceRecordId
    rw [@collect_facts b _ hall [] List.nodup_nil, @collect_facts b _ hall' [] List.nodup_nil,
      List.nil_append, List.nil_append]
    by_cases hn : ((l.filter (inFrozen b)).map TradeFact.sourceRecordId).Nodup
    · rw [if_pos hn, if_pos (hids.nodup_iff.mp hn)]
      exact congrArg Except.ok (sortFacts_perm hfilter hn)
    · rw [if_neg hn, if_neg fun hn' => hn (hids.nodup_iff.mpr hn')]
  · push Not at hall
    obtain ⟨t, ht, hbad⟩ := hall
    obtain ⟨i, hi⟩ := hclocks t ht
    cases hx : inPopulation b t with
    | ok r => exact absurd hx (hbad r)
    | error x =>
      have herror : ∀ u ∈ l, inPopulation b u = .error x ∨ inPopulation b u = .ok false := by
        intro u hu
        obtain ⟨j, hj⟩ := hclocks u hu
        exact inPopulation_error hi hj hx
      have herror' : ∀ u ∈ l', inPopulation b u = .error x ∨ inPopulation b u = .ok false :=
        fun u hu => herror u (h.mem_iff.mpr hu)
      rw [foldlM_error herror ⟨t, ht, hx⟩, foldlM_error herror' ⟨t, h.mem_iff.mp ht, hx⟩]

theorem committedPopulation_onDisk {b : Binding} {s : DictState} (h : Tidy b s.attempts) :
    committedPopulation b s.onDisk = committedPopulation b s := by
  have hperm :=
    List.perm_insertionSort (fun a b : Attempt => a.transactionId ≤ b.transactionId) s.attempts
  refine collect_perm (hperm.flatMap_right Attempt.facts) fun t ht => ?_
  obtain ⟨a, ha, hta⟩ := List.mem_flatMap.mp ht
  exact h.clocks a (hperm.mem_iff.mp ha) t hta

/-! ## One replay and the other -/

theorem map_bind {α β γ : Type} (x : Except String α) (f : α → Except String β) (g : β → γ) :
    (x >>= f).map g = x >>= fun a => (f a).map g := by
  cases x <;> rfl

/-- What follows a check knows it has been passed. -/
theorem raiseIf_bind_congr {α : Type} {p : Prop} [Decidable p] {text : String}
    {f g : Unit → Except String α}
    (h : ¬ p → f () = g ()) : (raiseIf p text >>= f) = (raiseIf p text >>= g) := by
  by_cases hp : p
  · unfold raiseIf
    rw [if_pos hp]
    rfl
  · unfold raiseIf
    rw [if_neg hp]
    exact h hp

theorem next_onDisk {cfg : Setup} {s : DictState} (h : Inv cfg s) (e : Event) :
    s.onDisk.next cfg e = (s.next cfg e).map State.onDisk := by
  have hset : ∀ a : Attempt, (∀ old, Keyed.find Attempt.transactionId a.transactionId s.attempts =
      some old → old.epoch = a.epoch) →
      { s.onDisk with attempts := AttemptMap.set a s.onDisk.attempts } = State.onDisk
      { s with attempts := AttemptMap.set a s.attempts } :=
    fun a ha => congrArg (fun m => { s.onDisk with attempts := m }) (diskMap_set h.tidy.keys ha)
  -- an outstanding attempt that ends is the one of its id
  have hended : ∀ {transactionId : String} {a : Attempt} (state : AttemptState),
      s.outstanding transactionId = some a →
      { s.onDisk with attempts := AttemptMap.set { a with state := state } s.onDisk.attempts } =
        State.onDisk { s with attempts := AttemptMap.set { a with state := state } s.attempts } := by
    intro transactionId a state ha
    obtain ⟨hfind, -⟩ := outstanding_some ha
    obtain ⟨-, hkey⟩ := Keyed.find_some _ hfind
    refine hset _ fun old hold => ?_
    obtain rfl := Option.some.inj ((show Keyed.find Attempt.transactionId a.transactionId
      s.attempts = some a from hkey ▸ hfind).symm.trans hold)
    rfl
  have houtstanding : ∀ transactionId, s.onDisk.outstanding transactionId =
    s.outstanding transactionId := fun _ => rfl
  unfold State.next
  cases e.payload with
  | arm b => rfl
  | enroll worker installation =>
    simp only [map_bind]
    cases cfg.authority with
    | none => rfl
    | some a =>
      simp only [map_bind]
      rfl
  | attempt transactionId worker epoch retryOf =>
    simp only [map_bind]
    refine congrArg _ (funext fun _ => raiseIf_bind_congr fun hnew =>
      congrArg _ (funext fun _ => ?_))
    rw [not_or, not_or] at hnew
    refine congrArg Except.ok (hset _ fun old hold => ?_)
    exact absurd (Option.isSome_of_eq_some hold) hnew.2.1
  | close closingEpoch nextEpoch =>
    simp only [map_bind]
    rfl
  | ack worker epoch =>
    simp only [map_bind]
    rfl
  | committed transactionId w =>
    simp only [houtstanding]
    cases ha : s.outstanding transactionId with
    | none => rfl
    | some a =>
      simp only [map_bind]
      exact congrArg _ (funext fun _ => congrArg Except.ok (hended (.committed w) ha))
  | rolledBack transactionId =>
    simp only [houtstanding]
    cases ha : s.outstanding transactionId with
    | none => rfl
    | some a => exact congrArg Except.ok (hended .rolledBack ha)
  | archive decision population =>
    simp only [map_bind]
    rfl
  | error error => rfl
  | fence r =>
    simp only [map_bind]
    rfl
  | freeze p =>
    simp only [committedPopulation_onDisk h.tidy]
    rw [show s.onDisk.receipt = s.receipt from rfl]
    cases hfence : s.receipt with
    | none => rfl
    | some fence =>
      simp only [map_bind, ← hfence]
      rfl

theorem replayOne_onDisk {cfg : Setup} {s : DictState} (h : Inv cfg s) (index : Nat)
    (previous : Option String) (e : Event) :
    replayOne cfg s.onDisk index previous e =
      (replayOne cfg s index previous e).map State.onDisk := by
  unfold replayOne
  simp only [map_bind]
  refine congrArg _ (funext fun _ => congrArg _ (funext fun _ => congrArg _ (funext fun _ => ?_)))
  split
  · rw [map_bind]
    rfl
  · exact next_onDisk h e

theorem replayOne_inv {cfg : Setup} {s s' : DictState} {index : Nat}
    {previous : Option String} {e : Event} (h : Inv cfg s)
    (hs : replayOne cfg s index previous e = .ok s') : Inv cfg s' := by
  obtain ⟨-, -, -, -, ⟨-, -, rfl⟩ | ⟨-, hnext⟩⟩ := replayOne_cases hs
  · exact h
  · exact h.next hnext

theorem replayFrom_onDisk {cfg : Setup} {s : DictState} (h : Inv cfg s) (start : Nat)
    (previous : Option String) (events : List Event) :
    replayFrom cfg s.onDisk start previous events =
      (replayFrom cfg s start previous events).map State.onDisk := by
  induction events generalizing s start previous with
  | nil => rfl
  | cons e events ih =>
    unfold replayFrom
    rw [replayOne_onDisk h, map_bind]
    cases hs : replayOne cfg s start previous e with
    | error x => rfl
    | ok s' => exact ih (replayOne_inv h hs) _ _

/-- The replay over the table does what the replay over a `dict` does, and raises what it raises. -/
theorem replay_onDisk (cfg : Setup) (events : List Event) :
    replay (M := DiskMap) cfg events = (replay (M := List Attempt) cfg events).map State.onDisk := by
  unfold replay
  split
  · rfl
  · exact replayFrom_onDisk (Inv.initial cfg) 1 none events

/-- What a replay over the table ends in, a replay over a `dict` does. -/
theorem replay_of_disk {cfg : Setup} {events : List Event} {s : State DiskMap}
    (h : replay cfg events = .ok s) :
    ∃ d : DictState, replay cfg events = .ok d ∧ s = d.onDisk := by
  unfold replay at h ⊢
  split at h
  · cases h
  · next hne =>
    rw [if_neg hne]
    have hs := (replayFrom_onDisk (Inv.initial cfg) 1 none events).symm.trans h
    cases hd : replayFrom (M := List Attempt) cfg .initial 1 none events with
    | error text =>
      rw [hd] at hs
      cases hs
    | ok d =>
      rw [hd] at hs
      exact ⟨d, rfl, (Except.ok.inj hs).symm⟩

end Polycopy.Comparison

import Polycopy.Lib.Keyed
import Polycopy.Shadow.Journal

/-!
# The population a fence closes

With the attempts in a plain `dict`.  From FENCE on, whatever is journaled:

* no attempt of the epoch 0 is outstanding, and none is added or changed;
* what is committed later was ingested after the window, so `committed_population`
  stays what it was (`fence_is_final`), and FREEZE has frozen just that
  (`frozen_population`).

Both rest on `Inv`, kept by every record that `replay` takes.
-/

namespace Polycopy.Comparison

open Py Py.Clock
open Fence (truthy)

/-! ## Attempts in a `dict` -/

def Counts.add (c : Counts) (n : Int) : AttemptState → Counts
  | .outstanding => { c with outstanding := c.outstanding + n }
  | .committed _ => { c with committed := c.committed + n }
  | .rolledBack => { c with rolledBack := c.rolledBack + n }

/-- The attempts of the epoch that CLOSE ends. -/
def preepoch (attempts : List Attempt) : List Attempt := attempts.filter fun a => a.epoch = 0

def countAttempts (attempts : List Attempt) : Counts :=
  (preepoch attempts).foldl (fun c a => c.add 1 a.state) ⟨0, 0, 0⟩

instance : AttemptMap (List Attempt) where
  empty := []
  find := Keyed.find Attempt.transactionId
  set := Keyed.put Attempt.transactionId
  values attempts := attempts
  counts := countAttempts

abbrev DictState := State (List Attempt)

theorem add_outstanding (c : Counts) (n : Int) (state : AttemptState) :
    (c.add n state).outstanding = c.outstanding + if state = .outstanding then n else 0 := by
  cases state <;> simp [Counts.add]

theorem foldl_outstanding (l : List Attempt) (c : Counts) :
    (l.foldl (fun c a => c.add 1 a.state) c).outstanding = c.outstanding + l.countP fun a =>
    a.state = .outstanding := by
  induction l generalizing c with
  | nil => simp
  | cons a l ih =>
    rw [List.foldl_cons, ih, add_outstanding, List.countP_cons]
    by_cases h : a.state = .outstanding
    · simp only [h, if_true, decide_true]
      push_cast
      omega
    · simp [h]

theorem countAttempts_outstanding {attempts : List Attempt}
    (h : (countAttempts attempts).outstanding = 0) :
    ∀ a ∈ attempts, a.epoch = 0 → a.state ≠ .outstanding := by
  intro a ha hepoch hstate
  unfold countAttempts at h
  rw [foldl_outstanding] at h
  change (0 : Int) + _ = 0 at h
  have hpos : 0 < (preepoch attempts).countP fun a => a.state = .outstanding :=
    List.countP_pos_iff.mpr ⟨a, List.mem_filter.mpr ⟨ha, by simpa using hepoch⟩,
      by simpa using hstate⟩
  omega

theorem outstanding_some {s : DictState} {transactionId : String} {a : Attempt}
    (h : s.outstanding transactionId = some a) :
    Keyed.find Attempt.transactionId transactionId s.attempts = some a ∧
    a.state = .outstanding := by
  obtain ⟨hfind, hstate⟩ := Option.filter_eq_some_iff.mp h
  exact ⟨hfind, by simpa using hstate⟩

/-! ## The facts of the window -/

/-- The window of an authority is one day; this is what is needed of it. -/
def Proper (window : Py.Clock.Window) : Prop :=
  ∃ start stop, epochMicros window.startUtc = .ok start ∧
    epochMicros window.endUtc = .ok stop ∧ start ≤ stop

/-- A fact of the cohort, ingested in the window. -/
def inFrozen (b : Binding) (t : TradeFact) : Bool := inPopulation b t = .ok true

theorem inWindow_proper {window : Py.Clock.Window} {value : String} {start stop instant : Int}
    (hstart : epochMicros window.startUtc = .ok start)
    (hstop : epochMicros window.endUtc = .ok stop) (hle : start ≤ stop)
    (hvalue : epochMicros value = .ok instant) :
    inWindow value window = .ok (decide (start ≤ instant ∧ instant ≤ stop)) := by
  unfold inWindow
  rw [hstart, hstop, hvalue]
  show (if stop < start then _ else _) = _
  rw [if_neg (by omega)]
  rfl

theorem inPopulation_ok {b : Binding} {t : TradeFact} {ingested : Int} (hwindow : Proper b.window)
    (ht : epochMicros t.ingestedUtc = .ok ingested) : ∃ r, inPopulation b t = .ok r := by
  obtain ⟨start, stop, hstart, hstop, hle⟩ := hwindow
  unfold inPopulation
  split
  · exact ⟨_, inWindow_proper hstart hstop hle ht⟩
  · exact ⟨false, rfl⟩

/-- Ingested after the window. -/
def Late (b : Binding) (t : TradeFact) : Prop :=
  ∃ ingested stop, epochMicros t.ingestedUtc = .ok ingested ∧
    epochMicros b.window.endUtc = .ok stop ∧ stop < ingested

theorem Late.not_frozen {b : Binding} {t : TradeFact} (h : Late b t) (hwindow : Proper b.window) :
    inFrozen b t = false := by
  obtain ⟨ingested, stop, hingested, hstop, hlt⟩ := h
  obtain ⟨start, stop', hstart, hstop', hle⟩ := hwindow
  obtain rfl := Except.ok.inj (hstop.symm.trans hstop')
  unfold inFrozen inPopulation
  split
  · have hout : ¬ (start ≤ ingested ∧ ingested ≤ stop) := by omega
    simp [inWindow_proper hstart hstop hle hingested, hout]
  · simp

/-- `committed_population` of facts whose clocks can be read. -/
theorem collect_facts {b : Binding} {l : List TradeFact}
    (hclocks : ∀ t ∈ l, ∃ r, inPopulation b t = .ok r) :
    ∀ {facts : List TradeFact}, (facts.map TradeFact.sourceRecordId).Nodup →
    l.foldlM (addFact b) facts =
      if ((facts ++ l.filter (inFrozen b)).map TradeFact.sourceRecordId).Nodup then
      .ok (facts ++ l.filter (inFrozen b))
      else .error multipleError := by
  induction l with
  | nil =>
    intro facts hn
    rw [List.filter_nil, List.append_nil, if_pos hn]
    rfl
  | cons t l ih =>
    intro facts hn
    obtain ⟨r, hr⟩ := hclocks t List.mem_cons_self
    have ih := @ih fun u hu => hclocks u (List.mem_cons_of_mem _ hu)
    have hstep : (t :: l).foldlM (addFact b) facts = (addFact b facts t).bind fun facts =>
      l.foldlM (addFact b) facts := rfl
    rw [hstep]
    have hadd : addFact b facts t =
        if r = true then
          if ∃ u ∈ facts, u.sourceRecordId = t.sourceRecordId then .error multipleError
          else .ok (facts ++ [t])
        else .ok facts := by
      unfold addFact raiseIf
      rw [hr]
      show (if r = true then _ else _) = _
      split
      · split <;> rfl
      · rfl
    rw [hadd]
    cases r with
    | false =>
      have hout : inFrozen b t = false := by simp [inFrozen, hr]
      rw [if_neg Bool.false_ne_true, List.filter_cons_of_neg (by simp [hout])]
      exact ih hn
    | true =>
      have hin : inFrozen b t = true := by simp [inFrozen, hr]
      rw [if_pos rfl, List.filter_cons_of_pos hin]
      by_cases hdup : ∃ u ∈ facts, u.sourceRecordId = t.sourceRecordId
      · rw [if_pos hdup, if_neg]
        · rfl
        · intro hall
          rw [List.map_append] at hall
          obtain ⟨u, hu, hid⟩ := hdup
          exact List.disjoint_of_nodup_append hall
            (List.mem_map_of_mem hu) (hid ▸ List.mem_cons_self)
      · rw [if_neg hdup]
        have hn' : ((facts ++ [t]).map TradeFact.sourceRecordId).Nodup := by
          refine Keyed.nodup_snoc TradeFact.sourceRecordId hn ?_
          intro hmem
          obtain ⟨u, hu, hid⟩ := List.mem_map.mp hmem
          exact hdup ⟨u, hu, hid⟩
        have hrest := ih hn'
        rwa [List.append_assoc, List.singleton_append] at hrest

/-! ## The invariant -/

theorem checkClocks_ok {b : Binding} {epoch : Nat} {facts : List TradeFact}
    (h : checkClocks b epoch facts = .ok ()) :
    ∀ t ∈ facts, (∃ ingested, epochMicros t.ingestedUtc = .ok ingested) ∧
    (epoch ≠ 0 → Late b t) := by
  induction facts with
  | nil => exact fun t ht => (List.not_mem_nil ht).elim
  | cons u facts ih =>
    unfold checkClocks at h
    obtain ⟨ingested, hingested, h⟩ := bind_ok_iff.mp h
    have hu : (epoch ≠ 0 → Late b u) ∧ checkClocks b epoch facts = .ok () := by
      split at h
      · obtain ⟨stop, hstop, h⟩ := bind_ok_iff.mp h
        obtain ⟨⟨⟩, hlate, h⟩ := bind_ok_iff.mp h
        exact ⟨fun _ => ⟨ingested, stop, hingested, hstop, not_le.mp (raiseIf_ok_iff.mp hlate)⟩, h⟩
      · next hzero => exact ⟨fun hne => absurd (Nat.pos_of_ne_zero hne) hzero, h⟩
    intro t ht
    rcases List.mem_cons.mp ht with rfl | ht
    · exact ⟨⟨ingested, hingested⟩, hu.1⟩
    · exact ih hu.2 t ht

/-- What every attempt keeps to. -/
structure Tidy (b : Binding) (attempts : List Attempt) : Prop where
  keys : (attempts.map Attempt.transactionId).Nodup
  clocks : ∀ a ∈ attempts, ∀ t ∈ a.facts, ∃ ingested, epochMicros t.ingestedUtc = .ok ingested
  late : ∀ a ∈ attempts, a.epoch ≠ 0 → ∀ t ∈ a.facts, Late b t

theorem Tidy.put {b : Binding} {attempts : List Attempt} {a : Attempt} (h : Tidy b attempts)
    (hclocks : ∀ t ∈ a.facts, ∃ ingested, epochMicros t.ingestedUtc = .ok ingested)
    (hlate : a.epoch ≠ 0 → ∀ t ∈ a.facts, Late b t) :
    Tidy b (Keyed.put Attempt.transactionId a attempts) where
  keys := Keyed.put_nodup _ h.keys
  clocks c hc := by
    rcases Keyed.mem_put_of _ hc with rfl | hc
    · exact hclocks
    · exact h.clocks c hc
  late c hc := by
    rcases Keyed.mem_put_of _ hc with rfl | hc
    · exact hlate
    · exact h.late c hc

structure Inv (cfg : Setup) (s : DictState) : Prop where
  tidy : Tidy cfg.binding s.attempts
  epoch : s.epoch = if s.closed.isSome then 1 else 0
  roster : s.workers ⊆ cfg.binding.expectedWorkers.toFinset
  acked : s.acks ⊆ s.workers
  fenced : s.receipt.isSome → s.closed.isSome ∧ s.acks = cfg.binding.expectedWorkers.toFinset ∧
    ∀ a ∈ s.attempts, a.epoch = 0 → a.state ≠ .outstanding

theorem Inv.initial (cfg : Setup) : Inv cfg .initial where
  tidy := ⟨List.nodup_nil, fun a ha => (List.not_mem_nil ha).elim,
    fun a ha => (List.not_mem_nil ha).elim⟩
  epoch := rfl
  roster := Finset.empty_subset _
  acked := Finset.empty_subset _
  fenced h := by cases h

/-- A record adds an attempt, or ends one. -/
theorem Inv.put {cfg : Setup} {s : DictState} (h : Inv cfg s) {a : Attempt}
    (hclocks : ∀ t ∈ a.facts, ∃ ingested, epochMicros t.ingestedUtc = .ok ingested)
    (hlate : a.epoch ≠ 0 → ∀ t ∈ a.facts, Late cfg.binding t)
    (hnew : s.receipt.isSome → a.epoch = 0 → a.state ≠ .outstanding) :
    Inv cfg { s with attempts := AttemptMap.set a s.attempts } where
  tidy := h.tidy.put hclocks hlate
  epoch := h.epoch
  roster := h.roster
  acked := h.acked
  fenced hreceipt := by
    obtain ⟨hclosed, hacks, hresolved⟩ := h.fenced hreceipt
    refine ⟨hclosed, hacks, fun c hc => ?_⟩
    rcases Keyed.mem_put_of _ hc with rfl | hc
    · exact hnew hreceipt
    · exact hresolved c hc

theorem Inv.next {cfg : Setup} {s s' : DictState} {e : Event} (h : Inv cfg s)
    (hs : Next cfg s e s') : Inv cfg s' := by
  cases hs with
  | enroll worker installation _ hopen hexpected =>
    refine ⟨h.tidy, h.epoch, ?_, h.acked.trans (Finset.subset_insert _ _), h.fenced⟩
    exact Finset.insert_subset (List.mem_toFinset.mpr hexpected) h.roster
  | attempt transactionId worker retryOf =>
    refine h.put (fun t ht => (List.not_mem_nil ht).elim)
      (fun _ t ht => (List.not_mem_nil ht).elim) fun hreceipt hzero => ?_
    have hepoch := h.epoch
    rw [(h.fenced hreceipt).1, if_pos rfl] at hepoch
    exact absurd (hepoch.symm.trans hzero) one_ne_zero
  | close _ hopen =>
    have hepoch := h.epoch
    rw [hopen] at hepoch
    refine ⟨h.tidy, by rw [hepoch]; rfl, h.roster, h.acked, fun hreceipt => ?_⟩
    exact ⟨rfl, (h.fenced hreceipt).2⟩
  | ack worker _ hclosed hworker =>
    refine ⟨h.tidy, h.epoch, h.roster, Finset.insert_subset hworker h.acked, fun hreceipt => ?_⟩
    obtain ⟨_, hacks, hresolved⟩ := h.fenced hreceipt
    refine ⟨hclosed, ?_, hresolved⟩
    rw [hacks]
    exact Finset.insert_eq_of_mem (h.roster hworker)
  | committed transactionId w a _ ha hw =>
    unfold Setup.checkWitness at hw
    obtain ⟨⟨⟩, -, hw⟩ := bind_ok_iff.mp hw
    obtain ⟨⟨⟩, -, hw⟩ := bind_ok_iff.mp hw
    have hclocks := checkClocks_ok hw
    exact h.put (fun t ht => (hclocks t ht).1) (fun hne t ht => (hclocks t ht).2 hne)
      fun _ _ hstate => by cases hstate
  | rolledBack transactionId a _ ha =>
    exact h.put (fun t ht => (List.not_mem_nil ht).elim) (fun _ t ht => (List.not_mem_nil ht).elim)
      fun _ _ hstate => by cases hstate
  | archive => exact ⟨h.tidy, h.epoch, h.roster, h.acked, h.fenced⟩
  | error => exact ⟨h.tidy, h.epoch, h.roster, h.acked, h.fenced⟩
  | fence _ _ _ hclosed hresolved hacks =>
    exact ⟨h.tidy, h.epoch, h.roster, h.acked,
      fun _ => ⟨hclosed, hacks, countAttempts_outstanding hresolved⟩⟩
  | freeze => exact ⟨h.tidy, h.epoch, h.roster, h.acked, h.fenced⟩

/-- Whatever every record keeps holds after the replay. -/
theorem replayFrom_inv {cfg : Setup} (I : DictState → Prop)
    (hI : ∀ s e s', I s → Next cfg s e s' → I s') (events : List Event) :
    ∀ {s s' : DictState} {start : Nat} {previous : Option String}, I s →
    replayFrom cfg s start previous events = .ok s' → I s' := by
  induction events with
  | nil =>
    intro s s' start previous h hs
    rwa [← Except.ok.inj hs]
  | cons e events ih =>
    intro s s' start previous h hs
    obtain ⟨t, ht, hrest⟩ := bind_ok_iff.mp hs
    obtain ⟨-, -, -, -, ⟨-, -, rfl⟩ | ⟨-, hnext⟩⟩ := replayOne_cases ht
    · exact ih h hrest
    · exact ih (hI _ e _ h hnext) hrest

theorem replayFrom_append {cfg : Setup} {s s' : DictState} (events more : List Event)
    {start : Nat} {previous : Option String}
    (h : replayFrom cfg s start previous (events ++ more) = .ok s') :
    ∃ t start' previous', replayFrom cfg s start previous events = .ok t ∧
    replayFrom cfg t start' previous' more = .ok s' := by
  induction events generalizing s start previous with
  | nil => exact ⟨s, start, previous, rfl, h⟩
  | cons e events ih =>
    obtain ⟨t, ht, h⟩ := bind_ok_iff.mp h
    obtain ⟨u, start', previous', hu, hmore⟩ := ih h
    exact ⟨u, start', previous', bind_ok_iff.mpr ⟨t, ht, hu⟩, hmore⟩

theorem replay_ok {cfg : Setup} {events : List Event} {s : DictState}
    (h : replay cfg events = .ok s) :
    replayFrom cfg .initial 1 none events = .ok s := by
  unfold replay at h
  split at h
  · cases h
  · exact h

theorem replay_inv {cfg : Setup} {events : List Event} {s : DictState}
    (h : replay cfg events = .ok s) : Inv cfg s :=
  replayFrom_inv (Inv cfg) (fun _ _ _ h hs => h.next hs) events (Inv.initial cfg) (replay_ok h)

/-! ## FENCE is final -/

/-- What no record changes any more. -/
structure Final (s s' : DictState) : Prop where
  receipt : s'.receipt = s.receipt
  closed : s'.closed = s.closed
  acks : s'.acks = s.acks
  preepoch : preepoch s'.attempts = preepoch s.attempts

theorem Final.put {s : DictState} {a : Attempt} (ha : a.epoch ≠ 0)
    (hold : ∀ c, Keyed.find Attempt.transactionId a.transactionId s.attempts = some c →
      c.epoch ≠ 0) :
    Final s { s with attempts := AttemptMap.set a s.attempts } where
  receipt := rfl
  closed := rfl
  acks := rfl
  preepoch := Keyed.filter_put _ (by simpa using ha) fun c hc => by simpa using hold c hc

theorem Inv.final {cfg : Setup} {s s' : DictState} {e : Event} (h : Inv cfg s)
    (hreceipt : s.receipt.isSome) (hs : Next cfg s e s') : Final s s' := by
  obtain ⟨hclosed, hacks, hresolved⟩ := h.fenced hreceipt
  have hopen : s.closed ≠ none := Option.isSome_iff_ne_none.mp hclosed
  have hended : ∀ {transactionId : String} {a : Attempt}, s.outstanding transactionId = some a →
      a.epoch ≠ 0 ∧ Keyed.find Attempt.transactionId transactionId s.attempts = some a ∧
      a.transactionId = transactionId := by
    intro transactionId a ha
    obtain ⟨hfind, hstate⟩ := outstanding_some ha
    obtain ⟨hmem, hkey⟩ := Keyed.find_some _ hfind
    exact ⟨fun hzero => hresolved a hmem hzero hstate, hfind, hkey⟩
  cases hs with
  | enroll _ _ _ hnone => exact absurd hnone hopen
  | attempt transactionId worker retryOf _ _ _ hnew =>
    have hepoch := h.epoch
    rw [hclosed, if_pos rfl] at hepoch
    refine Final.put (by simp [hepoch]) fun c hc => ?_
    rw [show Keyed.find _ _ _ = none from hnew] at hc
    cases hc
  | close _ hnone => exact absurd hnone hopen
  | ack worker _ _ hworker =>
    refine ⟨rfl, rfl, ?_, rfl⟩
    show insert worker s.acks = s.acks
    rw [hacks]
    exact Finset.insert_eq_of_mem (h.roster hworker)
  | committed transactionId w a _ ha =>
    obtain ⟨hepoch, hfind, hkey⟩ := hended ha
    refine Final.put hepoch fun c hc => ?_
    rw [show Keyed.find _ _ _ = some a from hkey ▸ hfind] at hc
    exact Option.some.inj hc ▸ hepoch
  | rolledBack transactionId a _ ha =>
    obtain ⟨hepoch, hfind, hkey⟩ := hended ha
    refine Final.put hepoch fun c hc => ?_
    rw [show Keyed.find _ _ _ = some a from hkey ▸ hfind] at hc
    exact Option.some.inj hc ▸ hepoch
  | archive => exact ⟨rfl, rfl, rfl, rfl⟩
  | error => exact ⟨rfl, rfl, rfl, rfl⟩
  | fence _ hnone =>
    rw [hnone] at hreceipt
    cases hreceipt
  | freeze => exact ⟨rfl, rfl, rfl, rfl⟩

theorem Final.trans {s t u : DictState} (h : Final s t) (h' : Final t u) : Final s u :=
  ⟨h'.receipt.trans h.receipt, h'.closed.trans h.closed, h'.acks.trans h.acks,
    h'.preepoch.trans h.preepoch⟩

theorem final_replay {cfg : Setup} {s s' : DictState} {start : Nat} {previous : Option String}
    {more : List Event} (h : Inv cfg s) (hreceipt : s.receipt.isSome)
    (hs : replayFrom cfg s start previous more = .ok s') :
    Final s s' := by
  have hall : Inv cfg s' ∧ Final s s' := by
    refine replayFrom_inv (fun t => Inv cfg t ∧ Final s t) ?_ more ⟨h, rfl, rfl, rfl, rfl⟩ hs
    intro t e u ⟨ht, hfinal⟩ hu
    exact ⟨ht.next hu, hfinal.trans (ht.final (hfinal.receipt ▸ hreceipt) hu)⟩
  exact hall.2

/-- The facts of the window are those of the attempts CLOSE ended. -/
theorem frozen_preepoch {b : Binding} {attempts : List Attempt}
    (hwindow : Proper b.window) (h : Tidy b attempts) :
    (attempts.flatMap Attempt.facts).filter (inFrozen b) =
      ((preepoch attempts).flatMap Attempt.facts).filter (inFrozen b) := by
  have hlate := h.late
  clear h
  induction attempts with
  | nil => rfl
  | cons a attempts ih =>
    have ih := ih fun c hc => hlate c (List.mem_cons_of_mem _ hc)
    rw [List.flatMap_cons, List.filter_append, ih]
    unfold preepoch
    by_cases ha : a.epoch = 0
    · rw [List.filter_cons_of_pos (by simpa using ha), List.flatMap_cons, List.filter_append]
    · have hnone : a.facts.filter (inFrozen b) = [] := by
        rw [List.filter_eq_nil_iff]
        intro t ht
        rw [(hlate a List.mem_cons_self ha t ht).not_frozen hwindow]
        exact Bool.false_ne_true
      rw [List.filter_cons_of_neg (by simpa using ha), hnone, List.nil_append]

/-- `committed_population`, from the facts of the window. -/
theorem committedPopulation_eq {b : Binding} {s : DictState}
    (hwindow : Proper b.window) (h : Tidy b s.attempts) :
    committedPopulation b s =
      let facts := ((preepoch s.attempts).flatMap Attempt.facts).filter (inFrozen b)
      if (facts.map TradeFact.sourceRecordId).Nodup then .ok (sortFacts facts)
      else .error multipleError := by
  have hclocks : ∀ t ∈ s.attempts.flatMap Attempt.facts, ∃ r, inPopulation b t = .ok r := by
    intro t ht
    obtain ⟨a, ha, hta⟩ := List.mem_flatMap.mp ht
    obtain ⟨ingested, hingested⟩ := h.clocks a ha t hta
    exact inPopulation_ok hwindow hingested
  unfold committedPopulation
  rw [show AttemptMap.values s.attempts = s.attempts from
    rfl, @collect_facts b _ hclocks [] List.nodup_nil, List.nil_append,
    frozen_preepoch hwindow h]
  dsimp only
  split <;> rfl

/-- FENCE is final: whatever is journaled after it, the receipt it would have and the population of
the window stay what they were, and no attempt of the epoch 0 is outstanding. -/
theorem fence_is_final {cfg : Setup} {log more : List Event} {s s' : DictState}
    (hwindow : Proper cfg.binding.window) (hs : replay cfg log = .ok s)
    (hs' : replay cfg (log ++ more) = .ok s') (hreceipt : s.receipt.isSome) :
    s'.receipt = s.receipt ∧ cfg.receipt s' = cfg.receipt s ∧
      (∀ a ∈ s'.attempts, a.epoch = 0 → a.state ≠ .outstanding) ∧
      committedPopulation cfg.binding s' = committedPopulation cfg.binding s := by
  have hinv := replay_inv hs
  have hinv' := replay_inv hs'
  obtain ⟨t, start, previous, ht, hmore⟩ := replayFrom_append log more (replay_ok hs')
  obtain rfl := Except.ok.inj (ht.symm.trans (replay_ok hs))
  have hfinal := final_replay hinv hreceipt hmore
  refine ⟨hfinal.receipt, ?_, (hinv'.fenced (hfinal.receipt ▸ hreceipt)).2.2, ?_⟩
  · have hcounts : countAttempts s'.attempts = countAttempts t.attempts := by
      unfold countAttempts
      rw [hfinal.preepoch]
    unfold Setup.receipt
    rw [show AttemptMap.counts s'.attempts = AttemptMap.counts t.attempts from
      hcounts, hfinal.acks, hfinal.closed]
  · rw [committedPopulation_eq hwindow hinv.tidy,
      committedPopulation_eq hwindow hinv'.tidy, hfinal.preepoch]

/-! ## FREEZE freezes it -/

theorem next_population {cfg : Setup} {s s' : DictState} {e e' : Event}
    (h : s.population = some e) (hs : Next cfg s e' s') :
    s'.population = some e := by
  cases hs with
  | freeze _ _ _ _ _ hnone =>
    rw [hnone] at h
    cases h
  | _ => exact h

theorem checkFreeze_facts {cfg : Setup} {fence : Event} {facts : List TradeFact} {p : Population}
    (h : cfg.checkFreeze fence facts p = .ok ()) : p.sourceFacts = facts := by
  unfold Setup.checkFreeze at h
  obtain ⟨⟨⟩, hfacts, -⟩ := bind_ok_iff.mp h
  have hsame := raiseIf_ok_iff.mp hfacts
  rw [not_or, not_not] at hsame
  exact hsame.1

/-- A record of the journal, with the states before and after it. -/
theorem replay_split {cfg : Setup} {log : List Event} {s : DictState} {e : Event}
    (hs : replay cfg log = .ok s) (he : e ∈ log) :
    ∃ pre post t u start previous start' previous', log = pre ++ e :: post ∧
      replayFrom cfg .initial 1 none pre = .ok t ∧
      replayOne cfg t start previous e = .ok u ∧
      replayFrom cfg u start' previous' post = .ok s := by
  obtain ⟨pre, post, rfl⟩ := List.append_of_mem he
  obtain ⟨t, start, previous, ht, hrest⟩ := replayFrom_append pre (e :: post) (replay_ok hs)
  obtain ⟨u, hu, hpost⟩ := bind_ok_iff.mp hrest
  exact ⟨pre, post, t, u, start, previous, _, _, rfl, ht, hu, hpost⟩

/-- The one record of FREEZE holds the population of the window, as it is at
the end of the journal. -/
theorem frozen_population {cfg : Setup} {log : List Event} {s : DictState} {e : Event}
    {p : Population} (hwindow : Proper cfg.binding.window) (hs : replay cfg log = .ok s)
    (he : e ∈ log) (hp : e.payload = .freeze p) :
    s.population = some e ∧ committedPopulation cfg.binding s = .ok p.sourceFacts := by
  obtain ⟨pre, post, t, u, start, previous, start', previous', -, ht, hu, hpost⟩ :=
    replay_split hs he
  have htinv : Inv cfg t :=
    replayFrom_inv (Inv cfg) (fun _ _ _ h hs => h.next hs) pre (Inv.initial cfg) ht
  obtain ⟨-, -, -, -, ⟨-, harm, -⟩ | ⟨-, hnext⟩⟩ := replayOne_cases hu
  · unfold Setup.arm at harm
    obtain ⟨⟨⟩, harm, -⟩ := bind_ok_iff.mp harm
    exact absurd (hp ▸ not_not.mp (raiseIf_ok_iff.mp harm)) (by simp)
  · have huinv := htinv.next hnext
    cases hnext with
    | freeze p' fence facts hp' hreceipt _ _ hfacts hcheck =>
      obtain rfl := Payload.freeze.inj (hp'.symm.trans hp)
      have hreceipt' : ({ t with population := some e } : DictState).receipt.isSome := by
        show t.receipt.isSome = true
        rw [hreceipt]
        rfl
      have hfinal := final_replay huinv hreceipt' hpost
      refine ⟨?_, ?_⟩
      · exact replayFrom_inv (fun s => s.population = some e)
          (fun _ _ _ h hs => next_population h hs) post rfl hpost
      · have hsinv := replay_inv hs
        rw [committedPopulation_eq hwindow hsinv.tidy, hfinal.preepoch,
          checkFreeze_facts hcheck, ← hfacts]
        exact (committedPopulation_eq hwindow htinv.tidy).symm
    | _ => simp_all

/-! ## A run of one trade -/

/-- A key that signs with the number and the time of a record. -/
def rehearsalAuthority : Authority where
  installation worker := "installed " ++ worker
  sign e := toString e.seq ++ " at " ++ e.observedUtc
  verify e := e.signature = some (toString e.seq ++ " at " ++ e.observedUtc)
  verify_sign _ := decide_eq_true rfl

/-- An observational run of two workers, with a plain text for each digest. -/
def rehearsal : Setup where
  binding := ⟨"observational", "rehearsal", ⟨"2026-01-01T00:00:00Z", "2026-01-02T00:00:00Z"⟩,
    ["0xa", "0xb", "0xc", "0xd", "0xe"], ["backend:b", "bot:a"]⟩
  authority := some rehearsalAuthority
  digest := ⟨Binding.runId, fun e => "event " ++ toString e.seq,
    fun facts => "facts " ++ toString facts.length,
    fun ids => "ids " ++ toString ids⟩
  roster := by decide +kernel
  authorized _ := rfl

/-- The journal of some payloads, each with its time. -/
def rehearse (payloads : List (String × Payload)) : List Event :=
  payloads.foldl (fun log p => log ++ [rehearsal.record log p.1 p.2]) []

def rehearsalTrade : TradeFact :=
  ⟨7, "trade 7", "0xa", "asset", "market", "BUY", "1", none, "2026-01-01T12:00:00Z"⟩

def rehearsalReceipt : Receipt where
  protocol := "source-epoch-inflight-v1"
  runId := "rehearsal"
  endpointUtc := "2026-01-02T00:00:00Z"
  closingEpoch := 0
  requiredWriterServices := ["backend", "bot"]
  expectedWorkers := ["backend:b", "bot:a"]
  acknowledgements := ["backend:b", "bot:a"]
  admitted := 1
  committed := 1
  rolledBack := 0
  outstanding := 0
  highWaterMark := some 6

def rehearsalPopulation : Population where
  sourceFacts := [rehearsalTrade]
  sourceFactsSha256 := "facts 1"
  frozenIds := [7]
  frozenIdsSha256 := "ids [7]"
  count := 1
  fenceReceiptSha256 := "event 9"
  queryObservedUtc := "2026-01-02T00:00:04Z"
  queryIsolation := "REPEATABLE_READ_READ_ONLY"
  querySourceFactsSha256 := "facts 1"
  sourceSQLCheckpoint := ⟨"repeatable read", "on", "1:1:", "facts 1", [7]⟩

/-- Up to FENCE. -/
def rehearsalFenced : List Event := rehearse [
  ("2025-12-31T23:00:00Z", .arm rehearsal.binding),
  ("2025-12-31T23:10:00Z", .enroll "bot:a" (some "installed bot:a")),
  ("2025-12-31T23:20:00Z", .enroll "backend:b" (some "installed backend:b")),
  ("2026-01-01T11:00:00Z", .attempt "t" "bot:a" 0 none),
  ("2026-01-01T13:00:00Z", .committed "t" ⟨"t", "rehearsal", "bot:a", 0, [rehearsalTrade]⟩),
  ("2026-01-02T00:00:00.5Z", .close 0 1),
  ("2026-01-02T00:00:01Z", .ack "bot:a" 1),
  ("2026-01-02T00:00:02Z", .ack "backend:b" 1),
  ("2026-01-02T00:00:03Z", .fence rehearsalReceipt)]

def rehearsalFreeze : Event :=
  rehearsal.record rehearsalFenced "2026-01-02T00:00:05Z" (.freeze rehearsalPopulation)

theorem rehearsal_proper : Proper rehearsal.binding.window :=
  ⟨1767225600000000, 1767312000000000, by decide +kernel, by decide +kernel, by decide⟩

theorem exists_ok {α : Type} {x : Except String α} (h : x.toBool = true) : ∃ a, x = .ok a := by
  cases x with
  | error e => cases h
  | ok a => exact ⟨a, rfl⟩

theorem rehearsal_fenced : ∃ s : DictState, replay rehearsal rehearsalFenced = .ok s ∧
    s.receipt.isSome := by
  have hreceipt : ((replay (M := List Attempt) rehearsal rehearsalFenced).map fun s =>
      s.receipt.isSome) = .ok true := by
    decide +kernel
  cases h : replay (M := List Attempt) rehearsal rehearsalFenced with
  | error text =>
    rw [h] at hreceipt
    cases hreceipt
  | ok s =>
    rw [h] at hreceipt
    exact ⟨s, rfl, Except.ok.inj hreceipt⟩

theorem rehearsal_frozen : ∃ s :
    DictState, replay rehearsal (rehearsalFenced ++ [rehearsalFreeze]) = .ok s :=
  exists_ok (by decide +kernel)

theorem fence_is_final_rehearsal : ∃ s s' : DictState, replay rehearsal rehearsalFenced = .ok s ∧
    replay rehearsal (rehearsalFenced ++ [rehearsalFreeze]) = .ok s' ∧ s'.receipt = s.receipt ∧
    committedPopulation rehearsal.binding s' = committedPopulation rehearsal.binding s := by
  obtain ⟨s, hs, hreceipt⟩ := rehearsal_fenced
  obtain ⟨s', hs'⟩ := rehearsal_frozen
  have hfinal := fence_is_final rehearsal_proper hs hs' hreceipt
  exact ⟨s, s', hs, hs', hfinal.1, hfinal.2.2.2⟩

end Polycopy.Comparison

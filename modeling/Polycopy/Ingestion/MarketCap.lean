import Polycopy.Ingestion.Budget

/-!
# The cap on the markets of a backfill

`bootstrap_max_settlement_markets` is compared with `settlement_checked`, the markets
of all runs so far whose settlement was checked.  A batch is added to it when
`refresh_settlements` has returned, so the cap holds of the markets passed while

* every batch comes back checked in full and without an error, and
* no run stops between a batch and the next checkpoint.

`Capped` says of a run that `settlement_checked` holds all that was passed.
-/

namespace Polycopy

open Py Runs

variable {tx : Text} {nullsFirst : Bool} {wallet : Wallet} {cfg : BootstrapSettings}

/-! ## What is passed to `refresh_settlements` -/

/-- The runs of a wallet, and the markets passed so far. -/
structure Passing where
  run : Bootstrap
  passed : List String

/-- The batch that is about to be passed. -/
def BootstrapPc.batch : BootstrapPc → Option Discovery
  | .reservingMarkets d => some d
  | _ => none

/-- The call a step begins. -/
def passedBy (s t : Bootstrap) : List String :=
  match s.pc.batch, t.pc with
  | some d, .calling _ => d.conditionIds
  | _, _ => []

def PassingStep (tx : Text) (nullsFirst : Bool) (wallet : Wallet)
    (cfg : BootstrapSettings) (s : Passing) (e : BootstrapMove) (t : Passing) : Prop :=
  BootstrapStep tx nullsFirst wallet cfg s.run e t.run ∧ t.passed = s.passed ++ passedBy s.run t.run

/-- What `refresh_settlements` returns with the commit of a market. -/
def Bootstrap.checkReturns (tx : Text) (s : Bootstrap) (d : Discovery) (job : Job)
    (market : Market) (asset : Option String)
    (r : Responses) : Option (Discovery × RefreshStats) :=
  match checkMarket tx job.now s.db market asset r job.stats with
  | .raised => none
  | .committed _ stats stop => if stop || job.todo.isEmpty then some (d, stats) else none

/-- What `refresh_settlements` returns by a step. -/
def Bootstrap.returns (tx : Text) (s : Bootstrap) :
    BootstrapEvent → Option (Discovery × RefreshStats)
  | .call now rows => match s.pc with
    | .calling d => if gammaBackoffActive s.db now || rows.isEmpty then some (d, .zero) else none
    | _ => none
  | .check response => match s.pc with
    | .exact d job market => s.checkReturns tx d job market none ⟨response, .ok .null⟩
    | .token d job market asset byCondition =>
      s.checkReturns tx d job market (some asset) ⟨byCondition, response⟩
    | _ => none
  | _ => none

/-- The last checkpoint has every market passed; a mature one is the last of all. -/
def ListRecorded (records : List BootstrapRecord) (passed : List String) : Prop :=
  (records = [] → passed = []) ∧
    ∀ r, records.getLast? = some r → r.maturitySatisfied = false → passed ⊆ r.settlementChecked

/-- `refresh_settlements` does not raise, returns with the whole batch checked and no error, and
no run is stopped before that is recorded. -/
structure Uninterrupted (tx : Text) (s : Passing) (e : BootstrapMove) : Prop where
  returns : ∀ own d stats, e = .own own → s.run.returns tx own = some (d, stats) →
    stats.errors = 0 ∧ stats.checked = d.conditionIds.length
  raises : ∀ raised, e ≠ .own (.raise raised)
  stops : e = .own .crash → ListRecorded s.run.records s.passed

/-! ## The invariant -/

def BootstrapSettings.maxMarkets (cfg : BootstrapSettings) : Nat :=
  cfg.bootstrapMaxSettlementMarkets.toNat

/-- The markets passed are in the run's list, and in the last checkpoint. -/
def HasPassed (records : List BootstrapRecord) (passed : List String) (b : Bootstrapping) : Prop :=
  passed ⊆ b.settlementChecked ∧ ListRecorded records passed

/-- So many more fit. -/
def FitsCap (cfg : BootstrapSettings) (b : Bootstrapping) (more : Nat) : Prop :=
  more = 0 ∨ b.settlementChecked.length + more ≤ cfg.maxMarkets

structure NewBatch (cfg : BootstrapSettings) (d : Discovery) : Prop where
  nodup : d.conditionIds.Nodup
  unchecked : ∀ c ∈ d.conditionIds, c ∉ d.b.settlementChecked
  fits : FitsCap cfg d.b d.conditionIds.length

def PcCapped (cfg : BootstrapSettings) (records : List BootstrapRecord)
    (passed : List String) : BootstrapPc → Prop
  | .idle _ => ListRecorded records passed
  | .selecting _ _ => ListRecorded records passed
  | .gauging _ _ _ => ListRecorded records passed
  | .maturing record => record.maturitySatisfied = true
  | .rolling b => passed ⊆ b.settlementChecked
  | .reserving b => passed ⊆ b.settlementChecked
  | .awaitTrades b => HasPassed records passed b
  | .storePage b _ _ => HasPassed records passed b
  | .advancing b _ => HasPassed records passed b
  | .throttling b _ => HasPassed records passed b
  | .counting b _ remaining => HasPassed records passed b ∧ FitsCap cfg b remaining
  | .choosing b _ limit => HasPassed records passed b ∧ FitsCap cfg b limit
  | .reservingMarkets d => HasPassed records passed d.b ∧ NewBatch cfg d
  | .calling d => passed ⊆ d.b.settlementChecked ++ d.conditionIds
  | .looking d _ => passed ⊆ d.b.settlementChecked ++ d.conditionIds
  | .exact d _ _ => passed ⊆ d.b.settlementChecked ++ d.conditionIds
  | .token d _ _ _ _ => passed ⊆ d.b.settlementChecked ++ d.conditionIds
  | .weighing b _ => passed ⊆ b.settlementChecked
  | .closing b => passed ⊆ b.settlementChecked
  | .ending record => passed ⊆ record.settlementChecked

structure Capped (cfg : BootstrapSettings) (s : Passing) : Prop where
  budget : Budget cfg s.run
  once : s.passed.Nodup
  capped : s.passed.length ≤ cfg.maxMarkets
  pc : PcCapped cfg s.run.records s.passed s.run.pc

variable {records : List BootstrapRecord} {passed : List String} {b : Bootstrapping}

/-! ## The code between two awaits -/

theorem capped_turn (h : passed ⊆ b.settlementChecked) : PcCapped cfg records passed b.turn := by
  unfold Bootstrapping.turn
  split
  · split
    · split
      · exact h
      · split
        · exact h
        · exact h
    · exact h
  · exact h

theorem capped_fail {e : Raised} (h : HasPassed records passed b) :
    PcCapped cfg records passed (b.fail e) := by
  unfold Bootstrapping.fail
  split
  · exact h.1
  · exact h.2

/-- A run starts from the list of the last checkpoint. -/
theorem capped_gauged {now : Time} {e : Evidence} (h : ListRecorded records passed)
    (himmature : records.getLast?.any BootstrapRecord.maturitySatisfied = false) :
    PcCapped cfg records passed (gauged wallet cfg now records.getLast? e) := by
  unfold gauged
  split
  · exact rfl
  · split
    · exact h
    · refine capped_turn ?_
      show passed ⊆ (records.getLast?.map BootstrapRecord.settlementChecked).getD []
      cases hlast : records.getLast? with
      | none =>
        rw [h.1 (List.getLast?_eq_none_iff.mp hlast)]
        exact List.nil_subset _
      | some r =>
        rw [hlast] at himmature
        exact h.2 r hlast himmature

theorem seen_settlementChecked (b : Bootstrapping) (times : List Time) :
    (b.seen times).settlementChecked = b.settlementChecked := by
  unfold Bootstrapping.seen
  split <;> rfl

theorem capped_gotTrades {raw : List Json} {pc : BootstrapPc} (h : HasPassed records passed b)
    (hpc : gotTrades tx b raw = .ok pc) : PcCapped cfg records passed pc := by
  unfold gotTrades at hpc
  dsimp only at hpc
  split at hpc
  · obtain rfl := Except.ok.inj hpc
    exact h.1
  · obtain ⟨times, -, rfl⟩ := map_ok hpc
    refine ⟨?_, h.2⟩
    rw [seen_settlementChecked]
    exact h.1

theorem fits_remaining (h : b.cfg = cfg) (db : Db) : FitsCap cfg b (remainingMarkets b db) := by
  unfold FitsCap remainingMarkets BootstrapSettings.maxMarkets
  rw [h]
  split
  · exact .inl rfl
  · omega

theorem FitsCap.fewer {more fewer : Nat} (h : FitsCap cfg b more)
    (hle : fewer ≤ more) : FitsCap cfg b fewer := by
  unfold FitsCap at h ⊢
  omega

theorem FitsCap.limited {remaining settled : Nat} (h : FitsCap cfg b remaining) :
    FitsCap cfg b (marketLimit b remaining settled) := by
  refine h.fewer (le_trans (Nat.min_le_left _ _) ?_)
  split
  · exact Nat.le_refl _
  · exact Nat.zero_le _

/-- The query leaves out what was checked before. -/
theorem capped_chose {db : Db} (hdb : db.UniqueMarkets) {short : Bool}
    {limit : Nat} {ids : List String} (h : HasPassed records passed b)
    (hfits : FitsCap cfg b limit)
    (hchosen : ChosenMarkets nullsFirst db wallet.id b limit ids) :
    PcCapped cfg records passed (chose b short ids) := by
  unfold chose
  split
  · exact h.1
  · refine ⟨h, ?_⟩
    have hlength := chosenMarkets_length hchosen
    obtain ⟨l, hperm, -, rfl⟩ := hchosen
    refine ⟨?_, ?_, ?_⟩
    · have hnodup : (l.map Market.conditionId).Nodup := by
        rw [(hperm.map Market.conditionId).nodup_iff]
        exact hdb.sublist ((List.filter_sublist.trans List.filter_sublist).map _)
      exact hnodup.sublist ((List.take_sublist limit l).map _)
    · intro c hc
      obtain ⟨m, hm, rfl⟩ := List.mem_map.mp hc
      have hmem := (List.mem_filter.mp (hperm.subset (List.mem_of_mem_take hm))).2
      exact of_decide_eq_true hmem
    · exact (hfits.fewer hlength : FitsCap cfg b _)

/-- A batch that comes back in full is added to the list. -/
theorem capped_finish {d : Discovery} {stats : RefreshStats}
    (h : passed ⊆ d.b.settlementChecked ++ d.conditionIds)
    (hstats : stats.errors = 0 ∧ stats.checked = d.conditionIds.length) :
    PcCapped cfg records passed (d.finish stats) := by
  unfold Discovery.finish
  rw [if_neg (not_not.mpr hstats.1), if_pos hstats.2]
  exact h

theorem capped_look {d : Discovery} {job : Job}
    (h : passed ⊆ d.b.settlementChecked ++ d.conditionIds)
    (hstats : job.todo.isEmpty = true → job.stats.errors = 0 ∧
      job.stats.checked = d.conditionIds.length) :
    PcCapped cfg records passed (d.look job) := by
  unfold Discovery.look
  split
  · next hempty => exact capped_finish h (hstats hempty)
  · exact h

theorem capped_weighed {short : Bool} {e : Evidence} (h : passed ⊆ b.settlementChecked) :
    PcCapped cfg records passed (weighed b short e) := by
  unfold weighed
  dsimp only
  split
  · exact h
  · split
    · exact h
    · split
      · exact h
      · exact capped_turn h

/-! ## Steps -/

variable {s t : Passing}

/-- A step that passes nothing. -/
theorem Capped.quiet (h : Capped cfg s) (hbudget : Budget cfg t.run) (hpassed : t.passed = s.passed)
    (hpc : PcCapped cfg t.run.records s.passed t.run.pc) : Capped cfg t := by
  refine ⟨hbudget, ?_, ?_, ?_⟩
  · rw [hpassed]
    exact h.once
  · rw [hpassed]
    exact h.capped
  · rw [hpassed]
    exact hpc

theorem recorded_concat {record : BootstrapRecord}
    (h : record.maturitySatisfied = false → passed ⊆ record.settlementChecked) :
    ListRecorded (records ++ [record]) passed := by
  refine ⟨fun hnil => absurd hnil (List.append_ne_nil_of_right_ne_nil _ (List.cons_ne_nil _ _)),
    fun r hr => ?_⟩
  rw [List.getLast?_concat] at hr
  obtain rfl := Option.some.inj hr
  exact h

/-- A batch that is passed is new, and fits. -/
theorem Capped.pass (h : Capped cfg s) (hbudget : Budget cfg t.run) {d : Discovery}
    (hpassed : t.passed = s.passed ++ d.conditionIds) (hd : s.passed ⊆ d.b.settlementChecked)
    (hnew : NewBatch cfg d) (hpc : t.run.pc = .calling d) : Capped cfg t := by
  have hle := (h.once.subperm hd).length_le
  refine ⟨hbudget, ?_, ?_, ?_⟩
  · rw [hpassed]
    refine h.once.append hnew.nodup fun c hc hc' => hnew.unchecked c hc' (hd hc)
  · rw [hpassed, List.length_append]
    have hcapped := h.capped
    have hfits := hnew.fits
    unfold FitsCap at hfits
    omega
  · rw [hpc, hpassed]
    exact List.append_subset.mpr ⟨List.subset_append_of_subset_left _ hd,
      List.subset_append_right _ _⟩

/-- What a commit records, and what it leads to. -/
theorem Capped.commit (h : Capped cfg s) (hbudget : Budget cfg t.run)
    {record : BootstrapRecord} {pc : BootstrapPc}
    (hrecord : s.run.pc.commit wallet = some (record, pc))
    (hrecords : t.run.records = s.run.records ++ [record]) (ht : t.run.pc = pc)
    (hpassed : t.passed = s.passed ++ passedBy s.run t.run) :
    Capped cfg t := by
  have hpc := h.pc
  unfold passedBy at hpassed
  unfold BootstrapPc.commit at hrecord
  split at hrecord
  · next r hs =>
    obtain ⟨rfl, rfl⟩ := Prod.mk.inj (Option.some.inj hrecord)
    rw [hs] at hpc hpassed
    refine h.quiet hbudget (hpassed.trans (List.append_nil _)) ?_
    rw [ht, hrecords]
    exact recorded_concat fun himmature => absurd (himmature.symm.trans hpc) (by decide)
  · next b hs =>
    obtain ⟨rfl, rfl⟩ := Prod.mk.inj (Option.some.inj hrecord)
    rw [hs] at hpc hpassed
    refine h.quiet hbudget (hpassed.trans (List.append_nil _)) ?_
    rw [ht]
    exact hpc
  · next b hs =>
    obtain ⟨rfl, rfl⟩ := Prod.mk.inj (Option.some.inj hrecord)
    rw [hs] at hpc hpassed
    refine h.quiet hbudget (hpassed.trans (List.append_nil _)) ?_
    rw [ht, hrecords]
    exact ⟨hpc, recorded_concat fun _ => hpc⟩
  · next b short hs =>
    obtain ⟨rfl, rfl⟩ := Prod.mk.inj (Option.some.inj hrecord)
    rw [hs] at hpc hpassed
    have hheld : HasPassed s.run.records s.passed b := hpc
    refine h.quiet hbudget (hpassed.trans (List.append_nil _)) ?_
    rw [ht, hrecords]
    exact ⟨hheld.1, recorded_concat fun _ => hheld.1⟩
  · next d hs =>
    obtain ⟨rfl, rfl⟩ := Prod.mk.inj (Option.some.inj hrecord)
    rw [hs] at hpc
    rw [hs, ht] at hpassed
    exact h.pass hbudget hpassed hpc.1.1 hpc.2 ht
  · next r hs =>
    obtain ⟨rfl, rfl⟩ := Prod.mk.inj (Option.some.inj hrecord)
    rw [hs] at hpc hpassed
    refine h.quiet hbudget (hpassed.trans (List.append_nil _)) ?_
    rw [ht, hrecords]
    exact recorded_concat fun _ => hpc
  · cases hrecord

/-- The commit of a market that was looked up. -/
theorem capped_check {s t : Bootstrap} {d : Discovery} {job : Job} {market : Market}
    {asset : Option String} {r : Responses}
    (h : passed ⊆ d.b.settlementChecked ++ d.conditionIds)
    (hs : s.check tx d job market asset r = some t)
    (hreturns : ∀ stats, s.checkReturns tx d job market asset r = some (d, stats) →
      stats.errors = 0 ∧ stats.checked = d.conditionIds.length) :
    PcCapped cfg t.records passed t.pc := by
  unfold Bootstrap.check at hs
  unfold Bootstrap.checkReturns at hreturns
  split at hs
  · cases hs
  · next db stats stop hcommit =>
    obtain rfl := Option.some.inj hs
    rw [hcommit] at hreturns
    show PcCapped cfg s.records passed (if stop then d.finish stats
      else d.look { job with stats := stats })
    split
    · next hstop => exact capped_finish h (hreturns stats (by simp [hstop]))
    · exact capped_look h fun hempty =>
        hreturns stats (by simp [show job.todo.isEmpty = true from hempty])

theorem capped_call {s t : Bootstrap} {d : Discovery} {now : Time} {rows : List Market}
    (h : passed ⊆ d.b.settlementChecked ++ d.conditionIds) (here : s.pc = .calling d)
    (hs : s.next tx wallet (.call now rows) = some t)
    (hreturns : ∀ stats, s.returns tx (.call now rows) = some (d, stats) →
      stats.errors = 0 ∧ stats.checked = d.conditionIds.length) :
      PcCapped cfg t.records passed t.pc := by
  simp only [Bootstrap.returns, here] at hreturns
  simp only [Bootstrap.next, here] at hs
  split at hs
  · next hbackoff =>
    obtain rfl := Option.some.inj hs
    exact capped_finish h (hreturns .zero (by rw [hbackoff, Bool.true_or, if_pos rfl]))
  · obtain rfl := Option.some.inj hs
    refine capped_look h fun hempty => hreturns .zero ?_
    rw [show rows.isEmpty = true by simpa using hempty, Bool.or_true, if_pos rfl]

theorem capped_store {s : Bootstrap} {env : PageEnv} {raw : List Json} {short : Bool}
    (h : HasPassed s.records passed b) :
    PcCapped cfg (s.store tx env wallet.id raw (storedTrades b raw short)).records passed
      (s.store tx env wallet.id raw (storedTrades b raw short)).pc := by
  unfold Bootstrap.store
  split
  · exact h.2
  · exact h

theorem passedBy_nil {s t : Bootstrap} (h : s.pc.batch = none) : passedBy s t = [] := by
  unfold passedBy
  rw [h]

theorem idle_of_begin {s t : Bootstrap} {cfg' : BootstrapSettings} {now : Time}
    (h : s.next tx wallet (.begin cfg' now) = some t) : ∃ result, s.pc = .idle result := by
  simp only [Bootstrap.next] at h
  split at h
  · next result here => exact ⟨result, here⟩
  · cases h

theorem Capped.own (h : Capped cfg s) {e : BootstrapEvent} {t : Bootstrap}
    {passed' : List String} (hbudget : Budget cfg t)
    (queried : e.Queried nullsFirst wallet.id s.run) (hs : s.run.next tx wallet e = some t)
    (hpassed : passed' = s.passed ++ passedBy s.run t) (hsafe : Uninterrupted tx s (.own e)) :
    Capped cfg ⟨t, passed'⟩ := by
  have hpc := h.pc
  have hcfg := h.budget.pc
  have quiet : s.run.pc.batch = none → PcCapped cfg t.records s.passed t.pc →
      Capped cfg ⟨t, passed'⟩ := by
    intro hnone hnext
    rw [passedBy_nil hnone] at hpassed
    exact h.quiet hbudget (hpassed.trans (List.append_nil _)) hnext
  cases Bootstrap.moves_of_next hs with
  | begin cfg' now =>
    obtain ⟨result, here⟩ := idle_of_begin hs
    rw [here] at hpc quiet
    exact quiet rfl hpc
  | mature cfg' now here =>
    rw [here] at hpc quiet
    exact quiet rfl hpc
  | select cfg' now immature here =>
    rw [here] at hpc quiet
    exact quiet rfl hpc
  | gauge cfg' now state here =>
    rw [here] at hpc hcfg quiet
    obtain ⟨rfl, rfl, himmature⟩ := hcfg
    exact quiet rfl (capped_gauged hpc himmature)
  | commit record pc here => exact h.commit hbudget here rfl rfl hpassed
  | failed b e here =>
    rw [here] at hpc quiet
    exact quiet rfl (capped_fail hpc)
  | malformed b raw e raised here =>
    rw [here] at hpc quiet
    exact quiet rfl hpc.2
  | fetched b raw pc got here =>
    rw [here] at hpc quiet
    exact quiet rfl (capped_gotTrades hpc got)
  | store b raw short env here =>
    rw [here] at hpc quiet
    exact quiet rfl (capped_store hpc)
  | throttle b short here =>
    rw [here] at hpc hcfg quiet
    exact quiet rfl ⟨hpc, fits_remaining hcfg.under _⟩
  | count b short remaining here =>
    rw [here] at hpc quiet
    exact quiet rfl ⟨hpc.1, hpc.2.limited⟩
  | choose b short limit ids here =>
    rw [here] at hpc quiet
    exact quiet rfl (capped_chose h.budget.markets hpc.1 hpc.2 (queried b short limit here))
  | backedOff d now rows here =>
    rw [here] at hpc quiet
    exact quiet rfl (capped_call hpc here hs fun stats => hsafe.returns _ d stats rfl)
  | call d now rows here =>
    rw [here] at hpc quiet
    exact quiet rfl (capped_call hpc here hs fun stats => hsafe.returns _ d stats rfl)
  | lookup d job id rest market todo here =>
    rw [here] at hpc quiet
    exact quiet rfl hpc
  | fallback d job market asset byCondition here =>
    rw [here] at hpc quiet
    exact quiet rfl hpc
  | checkExact d job market response t checked here =>
    rw [here] at hpc quiet
    refine quiet rfl (capped_check hpc checked fun stats hstats => hsafe.returns _ d stats rfl ?_)
    unfold Bootstrap.returns
    rw [here]
    exact hstats
  | checkToken d job market asset byCondition response t checked here =>
    rw [here] at hpc quiet
    refine quiet rfl (capped_check hpc checked fun stats hstats => hsafe.returns _ d stats rfl ?_)
    unfold Bootstrap.returns
    rw [here]
    exact hstats
  | raise d e here => exact absurd rfl (hsafe.raises e)
  | weigh b short here =>
    rw [here] at hpc quiet
    exact quiet rfl (capped_weighed hpc)
  | conclude b here =>
    rw [here] at hpc quiet
    exact quiet rfl hpc
  | crash =>
    have hnothing : passedBy s.run (s.run.goto (.idle none)) = [] := by
      unfold passedBy
      split
      · next hidle => cases hidle
      · rfl
    rw [hnothing] at hpassed
    exact h.quiet hbudget (hpassed.trans (List.append_nil _)) (hsafe.stops rfl)

/-- Every market is passed at most once, and no more than the setting allows. -/
def Passing.WithinCap (cfg : BootstrapSettings) (s : Passing) : Prop :=
  s.passed.Nodup ∧ s.passed.dedup.length ≤ cfg.maxMarkets

theorem Capped.withinCap (h : Capped cfg s) : s.WithinCap cfg := by
  refine ⟨h.once, ?_⟩
  rw [h.once.dedup]
  exact h.capped

/-- In all runs of a wallet together, where every batch passed comes back in full and is recorded
before the run stops, the markets passed are distinct and within the cap. -/
theorem settlement_markets_capped {tr : List (BootstrapMove × Passing)}
    (hstart : s.run.Start) (hnone : s.passed = [])
    (hrun : Run (PassingStep tx nullsFirst wallet cfg) s tr t)
    (hsafe : Each (fun s e _ => Uninterrupted tx s e) s tr) :
    t.WithinCap cfg ∧ ∀ x ∈ tr, x.2.WithinCap cfg := by
  have h₀ : Capped cfg s := by
    refine ⟨hstart.budget cfg, ?_, ?_, ?_⟩
    · rw [hnone]
      exact List.nodup_nil
    · rw [hnone]
      exact Nat.zero_le _
    · rw [hstart.pc, hstart.records, hnone]
      exact ⟨fun _ => rfl, nofun⟩
  have hstep : ∀ s e t, Capped cfg s → PassingStep tx nullsFirst wallet cfg s e t →
      Uninterrupted tx s e → Capped cfg t := by
    rintro s e ⟨t, passed'⟩ h ⟨hs, hpassed⟩ hsafe
    have hbudget : Budget cfg t := hs.budget h.budget
    cases hs with
    | own e t under queried step => exact h.own hbudget queried step hpassed hsafe
    | elsewhere db step =>
      have hnothing : passedBy s.run { s.run with db := db } = [] := by
        unfold passedBy
        cases s.run.pc <;> rfl
      rw [hnothing] at hpassed
      exact h.quiet hbudget (hpassed.trans (List.append_nil _)) h.pc
  obtain ⟨hlast, htrace⟩ := hrun.inv_each (Capped cfg) hstep hsafe h₀
  exact ⟨hlast.withinCap, fun x hx => (htrace x hx).withinCap⟩

/-! ## A batch that fails, and one that comes back -/

/-- An event, or a query of the run over at most one market. -/
inductive BootstrapAct
  | event (e : BootstrapEvent)
  | choose
  | call (now : Time)

def BootstrapAct.brings (walletId : Nat) (s : Bootstrap) : BootstrapAct → Option BootstrapEvent
  | .event e => some e
  | .choose => match s.pc with
    | .choosing b _ limit =>
      let l := (refreshable s.db ⟨some walletId, none, none⟩ b.now).filter fun m =>
        m.conditionId ∉ b.settlementChecked
      if l.length ≤ 1 then some (.choose ((l.take limit).map Market.conditionId)) else none
    | _ => none
  | .call now => match s.pc with
    | .calling d =>
      let l := refreshable s.db ⟨some walletId, none, some d.conditionIds⟩ now
      if l.length ≤ 1 then some (.call now l) else none
    | _ => none

def Passing.play (tx : Text) (wallet : Wallet) (guard : Passing → BootstrapEvent → Bool) :
    List BootstrapAct → Passing → Option Passing
  | [], s => some s
  | act :: acts, s => (act.brings wallet.id s.run).bind fun e =>
    if guard s e then (s.run.next tx wallet e).bind fun t =>
      Passing.play tx wallet guard acts ⟨t, s.passed ++ passedBy s.run t⟩
    else none

namespace MarketCap

def settings : BootstrapSettings := { bootstrapPageSize := 1, bootstrapMaxSettlementMarkets := 1 }

def row (hash timestamp : String) : Json :=
  .obj [("transactionHash", .str hash), ("proxyWallet", .str "w"),
    ("asset", .str "7"), ("conditionId", .str "c"),
    ("side", .str "BUY"), ("outcome", .str "Yes"), ("size", .num "1"), ("price", .num "0.5"),
    ("timestamp", .num timestamp)]

def env : PageEnv := ⟨fun _ => .ok (.arr []), fun _ => none, 0⟩

def start : Passing := ⟨Interrupted.start, []⟩

/-- A page of one trade, and the choice of its market. -/
def page (now : Time) (row : Json) : List BootstrapAct :=
  [.event (.begin settings now), .event .select, .event .gauge,
    .event .commit, .event (.fetch (.ok [row])),
    .event (.store env), .event .commit, .event .throttle, .event .count, .choose, .event .commit]

/-- The market's lookup fails. -/
def failing : List BootstrapAct :=
  [.call 1000, .event .lookup, .event (.check (.error (.apiError none))),
    .event .conclude, .event .commit]

/-- Neither lookup finds it. -/
def missing : List BootstrapAct :=
  [.call 1000, .event .lookup, .event (.fallback "7" (.ok .null)),
    .event (.check (.ok .null)), .event .weigh]

def anything (_ : Passing) (_ : BootstrapEvent) : Bool := true

/-- Nothing stops the run, and what `refresh_settlements` returns is in full. -/
def safe (s : Passing) (e : BootstrapEvent) : Bool :=
  ((s.run.returns Text.plain e).all fun r => r.2.errors =
    0 && r.2.checked = r.1.conditionIds.length) &&
  match e with
  | .raise _ => false
  | .crash => false
  | _ => true

theorem safe_uninterrupted {s : Passing} {e : BootstrapEvent} (h : safe s e = true) :
    Uninterrupted Text.plain s (.own e) := by
  unfold safe at h
  rw [Bool.and_eq_true, Option.all_eq_true] at h
  obtain ⟨hreturns, hstops⟩ := h
  refine ⟨?_, ?_, ?_⟩
  · intro own d stats he hstats
    obtain rfl := BootstrapMove.own.inj he
    have hfull := hreturns (d, stats) hstats
    rwa [Bool.and_eq_true, decide_eq_true_eq, decide_eq_true_eq] at hfull
  · intro raised he
    rw [BootstrapMove.own.inj he] at hstops
    cases hstops
  · intro he
    rw [BootstrapMove.own.inj he] at hstops
    cases hstops

def retried : Option Passing :=
  Passing.play Text.plain Interrupted.discovered anything
    (page 1000 (row "0x1" "900") ++ failing ++ page 2000 (row "0x0" "800")) start

def counted : Option Passing :=
  Passing.play Text.plain Interrupted.discovered safe (page 1000 (row "0x1" "900") ++ missing) start

end MarketCap

/-- An act whose event brings no rows of a query, or one of the two queries. -/
def BootstrapAct.Plain (cfg : BootstrapSettings) : BootstrapAct → Prop
  | .event e => e.Plain cfg
  | _ => True

theorem pairwise_of_short {α : Type} {R : α → α → Prop} :
    ∀ {l : List α}, l.length ≤ 1 → l.Pairwise R
  | [], _ => .nil
  | [_], _ => List.pairwise_singleton _ _
  | _ :: _ :: _, h => absurd h (by simp)

theorem BootstrapAct.brings_queried {act : BootstrapAct} {walletId : Nat}
    {s : Bootstrap} {e : BootstrapEvent} (hplain : act.Plain cfg)
    (h : act.brings walletId s = some e) :
    e.Under cfg ∧ e.Queried true walletId s := by
  cases act with
  | event e' =>
    obtain rfl := Option.some.inj h
    exact ⟨hplain.1, hplain.2 walletId s⟩
  | choose =>
    simp only [BootstrapAct.brings] at h
    split at h
    · next b short limit here =>
      split at h
      · next hshort =>
        obtain rfl := Option.some.inj h
        refine ⟨trivial, fun b' short' limit' here' => ?_⟩
        obtain ⟨rfl, rfl, rfl⟩ := BootstrapPc.choosing.inj (here.symm.trans here')
        exact ⟨_, .refl _, pairwise_of_short hshort, rfl⟩
      · cases h
    · cases h
  | call now =>
    simp only [BootstrapAct.brings] at h
    split at h
    · next d here =>
      split at h
      · next hshort =>
        obtain rfl := Option.some.inj h
        refine ⟨trivial, fun d' here' => ?_⟩
        obtain rfl := BootstrapPc.calling.inj (here.symm.trans here')
        exact ⟨_, .refl _, pairwise_of_short hshort, rfl⟩
      · cases h
    · cases h

theorem Passing.play_run {guard : Passing → BootstrapEvent → Bool} {acts : List BootstrapAct}
    (hplain : ∀ act ∈ acts, act.Plain cfg) :
      ∀ {s t : Passing}, Passing.play tx wallet guard acts s = some t →
      ∃ tr, Run (PassingStep tx true wallet cfg) s tr t ∧
        Each (fun s e _ => ∃ own, e = .own own ∧ guard s own = true) s tr := by
  induction acts with
  | nil =>
    intro s t h
    obtain rfl := Option.some.inj h
    exact ⟨[], .nil, trivial⟩
  | cons act acts ih =>
    intro s t h
    obtain ⟨e, hbrings, h⟩ := Option.bind_eq_some_iff.mp h
    split at h
    · next hguard =>
      obtain ⟨u, hu, h⟩ := Option.bind_eq_some_iff.mp h
      obtain ⟨hunder, hqueried⟩ :=
        BootstrapAct.brings_queried (hplain act List.mem_cons_self) hbrings
      obtain ⟨tr, hrun, heach⟩ := ih (fun act hact => hplain act (List.mem_cons_of_mem _ hact)) h
      have hstep : PassingStep tx true wallet cfg s (.own e) ⟨u, s.passed ++ passedBy s.run u⟩ :=
        ⟨.own e u hunder hqueried hu, rfl⟩
      exact ⟨_, (Run.single hstep).trans hrun, ⟨e, rfl, hguard⟩, heach⟩
    · cases h

theorem MarketCap.plain (now : Time) (row : Json) :
    ∀ act ∈ page now row ++ failing ++ missing, act.Plain settings := by
  simp [page, failing, missing, BootstrapAct.Plain, BootstrapEvent.Plain,
    BootstrapEvent.Under, BootstrapEvent.Queried]

theorem settlement_market_passed_twice : ∃ tr t,
    Run (PassingStep Text.plain true Interrupted.discovered MarketCap.settings)
      MarketCap.start tr t ∧
      ¬ t.WithinCap MarketCap.settings := by
  obtain ⟨t, ht⟩ : ∃ t, MarketCap.retried = some t :=
    Option.isSome_iff_exists.mp (by decide +kernel)
  have hpassed : MarketCap.retried.map Passing.passed = some ["c", "c"] := by decide +kernel
  rw [ht] at hpassed
  have hplain : ∀ act ∈ MarketCap.page 1000 (MarketCap.row "0x1" "900") ++ MarketCap.failing ++
      MarketCap.page 2000 (MarketCap.row "0x0" "800"), act.Plain MarketCap.settings := by
    intro act hact
    rcases List.mem_append.mp hact with hact | hact
    · exact MarketCap.plain _ _ act (List.mem_append_left _ hact)
    · exact MarketCap.plain _ _ act (List.mem_append_left _ (List.mem_append_left _ hact))
  obtain ⟨tr, hrun, -⟩ := Passing.play_run hplain ht
  refine ⟨tr, t, hrun, fun h => ?_⟩
  have htwice := h.1
  rw [Option.some.inj hpassed] at htwice
  exact absurd htwice (by decide)

theorem settlement_markets_capped_missing : ∃ tr t,
    Run (PassingStep Text.plain true Interrupted.discovered MarketCap.settings)
      MarketCap.start tr t ∧
      t.passed = ["c"] ∧ t.WithinCap MarketCap.settings := by
  obtain ⟨t, ht⟩ : ∃ t, MarketCap.counted = some t :=
    Option.isSome_iff_exists.mp (by decide +kernel)
  have hpassed : MarketCap.counted.map Passing.passed = some ["c"] := by decide +kernel
  rw [ht] at hpassed
  have hplain : ∀ act ∈ MarketCap.page 1000 (MarketCap.row "0x1" "900") ++ MarketCap.missing,
      act.Plain MarketCap.settings := by
    intro act hact
    rcases List.mem_append.mp hact with hact | hact
    · exact MarketCap.plain _ _ act (List.mem_append_left _ (List.mem_append_left _ hact))
    · exact MarketCap.plain 0 .null act (List.mem_append_right _ hact)
  obtain ⟨tr, hrun, heach⟩ := Passing.play_run hplain ht
  have hstart : MarketCap.start.run.Start := ⟨rfl, rfl, rfl, rfl, List.nodup_nil⟩
  have hsafe : Each (fun s e _ => Uninterrupted Text.plain s e) MarketCap.start tr := by
    refine heach.imp fun s e _ => ?_
    rintro ⟨own, rfl, hguard⟩
    exact MarketCap.safe_uninterrupted hguard
  exact ⟨tr, t, hrun, Option.some.inj hpassed, (settlement_markets_capped hstart rfl hrun hsafe).1⟩

end Polycopy

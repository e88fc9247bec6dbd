import Polycopy.Ingestion.History

/-!
# When a backfill reports the end of the history

Up to the first record no run has moved past its start (`Fresh`); that record fixes
`n`.  From then on (`Reading`) the last record and the run under way stand where
`HistoryView` says, so a record of `history_exhausted` has all of the first `n`.
-/

namespace Polycopy

open Py Feed Runs

variable {tx : Text} {nullsFirst : Bool} {wallet : Wallet}

/-! ## What is stored or quarantined stays so -/

theorem StoredOrQuarantined.kept {s t : Bootstrap} {raw : Json} (h : StoredOrQuarantined tx s raw)
    (htrades : ∀ key, s.db.hasTrade key = true → t.db.hasTrade key = true)
    (hquarantined : ∀ q ∈ s.quarantined, q ∈ t.quarantined) : StoredOrQuarantined tx t raw := by
  rcases h with ⟨key, hkey, hstored | ⟨q, hq, hid⟩⟩ | ⟨q, hq, hraw⟩
  · exact .inl ⟨key, hkey, .inl (htrades key hstored)⟩
  · exact .inl ⟨key, hkey, .inr ⟨q, hquarantined q hq, hid⟩⟩
  · exact .inr ⟨q, hquarantined q hq, hraw⟩

/-- Of a page that was committed, every row is. -/
theorem ingestTradeRows_page {env : PageEnv} {rows : List Json} {r : Ingested} {s t : Bootstrap}
    (h : ingestTradeRows tx env false wallet.id rows s.db = .ok r) (hdb : t.db = r.db)
    (hquarantined : t.quarantined = s.quarantined ++ r.quarantined) :
    ∀ raw ∈ rows, StoredOrQuarantined tx t raw := by
  intro raw hraw
  cases hkey : canonicalTradeId tx raw with
  | error e =>
    obtain ⟨q, hq, hqraw⟩ := ingestTradeRows_unkeyed h hraw hkey
    refine .inr ⟨q, ?_, hqraw⟩
    rw [hquarantined]
    exact List.mem_append_right _ hq
  | ok key =>
    refine .inl ⟨key, hkey, ?_⟩
    rcases (ingestTradeRows_ok h).2 raw hraw key hkey with hstored | ⟨q, hq, hid⟩
    · left
      rw [hdb]
      exact hstored
    · right
      refine ⟨q, ?_, hid⟩
      rw [hquarantined]
      exact List.mem_append_right _ hq

/-! ## Up to the first record -/

structure AtNewest (b : Bootstrapping) : Prop where
  offset : b.offset = 0
  window : b.windowOldest = none
  termination : b.termination = .configuredLimitReached

/-- Where a run can be that has committed nothing. -/
def FreshPc : BootstrapPc → Prop
  | .idle _ => True
  | .selecting _ _ => True
  | .gauging _ _ state => state = none
  | .maturing record =>
    record.maturitySatisfied = true ∧ record.terminationReason = .maturitySatisfied
  | .reserving b => AtNewest b ∧ 1 ≤ b.requestedLimit
  | .closing b => AtNewest b
  | .ending record =>
    record.nextOffset = 0 ∧ record.windowOldest = none ∧
      record.terminationReason ≠ .historyExhausted
  | _ => False

structure Fresh (s : Bootstrap) : Prop where
  records : s.records = []
  handed : s.handed = []
  pc : FreshPc s.pc

theorem AtNewest.start (cfg : BootstrapSettings) (now : Time) :
    AtNewest (Bootstrapping.start cfg now none) := ⟨rfl, rfl, rfl⟩

theorem AtNewest.turn {b : Bootstrapping} (h : AtNewest b) : FreshPc b.turn := by
  unfold Bootstrapping.turn
  split
  · next hwhile =>
    rw [Bool.and_eq_true] at hwhile
    split
    · next hceiling =>
      rw [h.offset] at hceiling
      exact absurd hceiling (by decide)
    · next hoffset =>
      have hlimit : 1 ≤ b.requestedLimit := HistoryView.requestedLimit_pos hwhile.1 (by omega)
      exact ⟨⟨h.offset, h.window, h.termination⟩, hlimit⟩
  · exact h

theorem AtNewest.concluded {b : Bootstrapping} (h : AtNewest b) (e : Evidence) :
    FreshPc (concluded wallet b e) := by
  refine ⟨h.offset, h.window, ?_⟩
  show b.reason ≠ .historyExhausted
  unfold Bootstrapping.reason
  split
  · decide
  · rw [h.termination]
    decide

theorem freshPc_gauged (cfg : BootstrapSettings) (now : Time) (e : Evidence) :
    FreshPc (gauged wallet cfg now none e) := by
  unfold gauged
  split
  · exact ⟨rfl, rfl⟩
  · exact (AtNewest.start cfg now).turn

theorem FreshPc.discovery {pc : BootstrapPc} (h : FreshPc pc) : pc.discovery = none := by
  cases pc with
  | calling d => exact h.elim
  | looking d job => exact h.elim
  | exact d job market => exact h.elim
  | token d job market asset byCondition => exact h.elim
  | _ => rfl

/-- Nothing but a commit adds a record, and no page is fetched before one. -/
theorem Fresh.own {s t : Bootstrap} (h : Fresh s) {e : BootstrapEvent}
    (hs : s.next tx wallet e = some t) (hcommit : e ≠ .commit) : Fresh t := by
  have hpc := h.pc
  have hgoto : ∀ {pc : BootstrapPc}, FreshPc pc → Fresh (s.goto pc) :=
    fun hpc => ⟨h.records, h.handed, hpc⟩
  -- the steps left out come after the first commit
  cases Bootstrap.moves_of_next hs with
  | begin cfg now => exact hgoto trivial
  | mature cfg now here => exact hgoto trivial
  | select cfg now immature here =>
    rw [h.records]
    exact hgoto rfl
  | gauge cfg now state here =>
    rw [here] at hpc
    obtain rfl : state = none := hpc
    exact hgoto (freshPc_gauged cfg now _)
  | commit record pc here => exact absurd rfl hcommit
  | conclude b here =>
    rw [here] at hpc
    exact hgoto (AtNewest.concluded hpc _)
  | crash => exact hgoto trivial
  | raise d e here =>
    rw [hpc.discovery] at here
    cases here
  | checkExact d job market response t checked here =>
    rw [here] at hpc
    exact hpc.elim
  | checkToken d job market asset byCondition response t checked here =>
    rw [here] at hpc
    exact hpc.elim
  | _ =>
    next here =>
    rw [here] at hpc
    exact hpc.elim

/-! ## From the first record on -/

structure Reading (source : History tx) (n : Nat) (s : Bootstrap) : Prop where
  known : n ≤ (source.above 1).entries.length
  last : ∃ r, s.records.getLast? = some r ∧ HistoryView.RecordOk ⟨source, s.handed⟩ n r
  pc : HistoryView.PcOk ⟨source, s.handed⟩ n s.records s.pc
  kept : ∀ raw ∈ s.handed, StoredOrQuarantined tx s raw

namespace Reading

variable {source : History tx} {n : Nat} {s t : Bootstrap}

theorem goto (h : Reading source n s) {pc : BootstrapPc}
    (hpc : HistoryView.PcOk ⟨source, s.handed⟩ n s.records pc) :
    Reading source n (s.goto pc) := ⟨h.known, h.last, hpc, h.kept⟩

/-- A record says where the run is that commits it. -/
theorem commit (h : Reading source n s) {record : BootstrapRecord} {pc : BootstrapPc}
    (hrecord : s.pc.commit wallet = some (record, pc)) :
    Reading source n { s with
      records := s.records ++ [record], pc := pc, tradeCalls := s.tradeCalls + pc.calls } := by
  have hpc := h.pc
  have hnext : HistoryView.RecordOk ⟨source, s.handed⟩ n record →
      HistoryView.PcOk ⟨source, s.handed⟩ n (s.records ++ [record]) pc →
      Reading source n { s with
        records := s.records ++ [record], pc := pc, tradeCalls := s.tradeCalls + pc.calls } :=
    fun hlast hpc => ⟨h.known, ⟨record, List.getLast?_concat, hlast⟩, hpc, h.kept⟩
  have hrunning : ∀ {b : Bootstrapping}, HistoryView.Running ⟨source, s.handed⟩ n b →
      HistoryView.RecordOk ⟨source, s.handed⟩ n (b.record wallet) := by
    intro b hb
    refine ⟨fun _ => hb.frontier, fun hreason => ?_⟩
    have : BootstrapReason.inProgress = .historyExhausted := hreason
    cases this
  unfold BootstrapPc.commit at hrecord
  split at hrecord
  · next r hs =>
    rw [hs] at hpc
    obtain ⟨rfl, rfl⟩ := Prod.mk.inj (Option.some.inj hrecord)
    exact hnext hpc trivial
  · next b hs =>
    rw [hs] at hpc
    obtain ⟨rfl, rfl⟩ := Prod.mk.inj (Option.some.inj hrecord)
    exact hnext (hrunning hpc.1) ⟨hpc.1.of_eq rfl rfl rfl rfl, hpc.2⟩
  · next b hs =>
    rw [hs] at hpc
    obtain ⟨rfl, rfl⟩ := Prod.mk.inj (Option.some.inj hrecord)
    exact hnext (hrunning hpc.1) hpc
  · next b short hs =>
    rw [hs] at hpc
    obtain ⟨rfl, rfl⟩ := Prod.mk.inj (Option.some.inj hrecord)
    exact hnext (hrunning hpc.1) hpc
  · next d hs =>
    rw [hs] at hpc
    obtain ⟨rfl, rfl⟩ := Prod.mk.inj (Option.some.inj hrecord)
    exact hnext (hrunning hpc.1) hpc
  · next r hs =>
    rw [hs] at hpc
    obtain ⟨rfl, rfl⟩ := Prod.mk.inj (Option.some.inj hrecord)
    exact hnext hpc trivial
  · cases hrecord

theorem store (h : Reading source n s) {env : PageEnv} {b : Bootstrapping}
    {raw : List Json} {short : Bool} (hw : s.pc = .storePage b raw short) :
    Reading source n (s.store tx env wallet.id raw (storedTrades b raw short)) := by
  have hpc := h.pc
  rw [hw] at hpc
  unfold Bootstrap.store
  split
  · exact h.goto trivial
  · next r hr =>
    have hle : HistoryView.Le (⟨source, s.handed⟩ : HistoryView tx) ⟨source, s.handed ++ raw⟩ :=
      ⟨Log.Grows.refl _, fun row hrow => List.mem_append_left _ hrow⟩
    obtain ⟨last, hlast, hrecord⟩ := h.last
    refine ⟨h.known, ⟨last, hlast, hrecord.le h.known hle⟩, ?_, fun row hrow => ?_⟩
    · exact (HistoryView.PageOk.le hpc hle).stored (fun row hrow => List.mem_append_right _ hrow) r
    · rcases List.mem_append.mp hrow with hrow | hrow
      · refine (h.kept row hrow).kept (fun key hkey => ?_) fun q hq => List.mem_append_left _ hq
        exact (ingestTradeRows_ok hr).1.hasTrade hkey
      · exact ingestTradeRows_page hr rfl rfl row hrow

theorem check (h : Reading source n s) {d : Discovery} {job : Job} {market : Market}
    {asset : Option String} {r : Responses}
    (hpaged : HistoryView.PagedOk ⟨source, s.handed⟩ n d.b d.short)
    (hs : s.check tx d job market asset r = some t) :
    Reading source n t := by
  unfold Bootstrap.check at hs
  split at hs
  · cases hs
  · next db stats stop hcommit =>
    obtain rfl := Option.some.inj hs
    refine ⟨h.known, h.last, ?_, fun row hrow => ?_⟩
    · show HistoryView.PcOk _ n s.records (if stop then d.finish stats
        else d.look { job with stats := stats })
      split
      · exact hpaged.finish stats
      · exact hpaged.look _
    · refine (h.kept row hrow).kept (fun key hkey => ?_) fun q hq => hq
      unfold Db.hasTrade
      rw [(checkMarket_effect hcommit).kept.2]
      exact hkey

/-- Of a page that arrives it is assumed that the source serves it. -/
def Served (source : History tx) (s : Bootstrap) : BootstrapEvent → Prop
  | .fetch (.ok raw) => ∃ r, s.pc.request = some r ∧ raw = source.getTrades r
  | _ => True

theorem own (h : Reading source n s) {e : BootstrapEvent} (hserved : Served source s e)
    (hs : s.next tx wallet e = some t) : Reading source n t := by
  have hpc := h.pc
  cases Bootstrap.moves_of_next hs with
  | begin cfg now => exact h.goto trivial
  | mature cfg now here => exact h.goto trivial
  | select cfg now immature here => exact h.goto ⟨rfl, immature⟩
  | gauge cfg now state here =>
    rw [here] at hpc
    obtain ⟨rfl, himmature⟩ := hpc
    obtain ⟨last, hlast, hrecord⟩ := h.last
    rw [hlast] at himmature ⊢
    exact h.goto (hrecord.gauged himmature wallet cfg now _)
  | commit record pc here => exact h.commit here
  | failed b e here =>
    rw [here] at hpc
    exact h.goto (hpc.1.fail e)
  | malformed b raw e raised here => exact h.goto trivial
  | fetched b raw pc got here =>
    rw [here] at hpc
    obtain ⟨r, hasked, rfl⟩ := hserved
    rw [here] at hasked
    obtain rfl := Option.some.inj hasked
    exact h.goto (hpc.1.gotTrades hpc.2 got)
  | store b raw short env here => exact h.store here
  | throttle b short here =>
    rw [here] at hpc
    exact h.goto hpc
  | count b short remaining here =>
    rw [here] at hpc
    exact h.goto hpc
  | choose b short limit ids here =>
    rw [here] at hpc
    exact h.goto (HistoryView.PagedOk.chose hpc ids)
  | backedOff d now rows here =>
    rw [here] at hpc
    exact h.goto (HistoryView.PagedOk.finish hpc .zero)
  | call d now rows here =>
    rw [here] at hpc
    exact h.goto (HistoryView.PagedOk.look hpc _)
  | lookup d job id rest market todo here =>
    rw [here] at hpc
    exact ⟨h.known, h.last, hpc, h.kept⟩
  | fallback d job market asset byCondition here =>
    rw [here] at hpc
    exact ⟨h.known, h.last, hpc, h.kept⟩
  | checkExact d job market response t checked here =>
    rw [here] at hpc
    exact h.check hpc checked
  | checkToken d job market asset byCondition response t checked here =>
    rw [here] at hpc
    exact h.check hpc checked
  | raise d e here => exact h.goto ((HistoryView.PcOk.discovering hpc here).1.fail e)
  | weigh b short here =>
    rw [here] at hpc
    exact h.goto (HistoryView.PagedOk.weighed hpc _)
  | conclude b here =>
    rw [here] at hpc
    exact h.goto (HistoryView.concluded_ok wallet _ hpc)
  | crash => exact h.goto trivial

/-- Other processes and the source itself. -/
theorem later (h : Reading source n s) {source' : History tx}
    (hgrows : source.Grows source') {db : Db}
    (htrades : ∀ key, s.db.hasTrade key = true → db.hasTrade key = true) :
    Reading source' n { s with db := db } := by
  have hle : HistoryView.Le (⟨source, s.handed⟩ : HistoryView tx) ⟨source', s.handed⟩ :=
    ⟨hgrows, fun row hrow => hrow⟩
  obtain ⟨r, hlast, hrecord⟩ := h.last
  exact ⟨hle.known h.known, ⟨r, hlast, hrecord.le h.known hle⟩, HistoryView.PcOk.le h.pc h.known hle,
    fun row hrow => (h.kept row hrow).kept htrades fun q hq => hq⟩

theorem step {w w' : HistoryWorld tx} {e : HistoryEvent} (h : Reading w.source n w.own)
    (hs : HistoryStep nullsFirst wallet w e w') : Reading w'.source n w'.own := by
  cases hs with
  | arrive source' grows => exact h.later grows fun key hkey => hkey
  | reply r own asked hs => exact h.own (e := .fetch (.ok _)) ⟨r, asked, rfl⟩ hs
  | elsewhere db hs => exact h.later (Log.Grows.refl _) hs.trades
  | own e own honest queried hs =>
    refine h.own ?_ hs
    cases e with
    | fetch response =>
      cases response with
      | error e => trivial
      | ok rows => exact honest.elim
    | _ => trivial

end Reading

/-! ## The first record -/

/-- Nothing has been seen of the history yet, and all of it is still ahead. -/
theorem HistoryView.Frontier.first (v : HistoryView tx) (e : Int) :
    v.Frontier (v.log.upTo e) e 0 none := by
  refine ⟨Log.Covered.start (Nat.le_refl _), nofun, ?_, Log.upTo_le _ _⟩
  by_cases hzero : e = 0
  · right
    subst hzero
    have hnone : (v.log.entries.filter fun x => x.timestamp ≤ 0) = [] := by
      rw [List.filter_eq_nil_iff]
      intro x hx hle
      have hone := (Log.mem_above.mp hx).2
      have hle := of_decide_eq_true hle
      omega
    exact List.length_eq_zero_iff.mpr hnone
  · exact .inl hzero

/-- It fixes the trades there were up to its end. -/
theorem Fresh.commit {s : Bootstrap} (h : Fresh s) (source : History tx)
    {record : BootstrapRecord} {pc : BootstrapPc}
    (hrecord : s.pc.commit wallet = some (record, pc)) :
    Reading source ((source.above 1).upTo record.endTimestamp)
      { s with records := s.records ++ [record], pc := pc, tradeCalls := s.tradeCalls + pc.calls } := by
  have hpc := h.pc
  have hfrontier :=
    HistoryView.Frontier.first (⟨source, s.handed⟩ : HistoryView tx) record.endTimestamp
  have hkept : ∀ raw ∈ s.handed, StoredOrQuarantined tx
      { s with records := s.records ++ [record], pc := pc, tradeCalls := s.tradeCalls + pc.calls }
        raw := by
    intro raw hraw
    rw [h.handed] at hraw
    exact (List.not_mem_nil hraw).elim
  suffices hnext : HistoryView.RecordOk ⟨source, s.handed⟩
      ((source.above 1).upTo record.endTimestamp) record ∧
      HistoryView.PcOk ⟨source, s.handed⟩ ((source.above 1).upTo record.endTimestamp)
        (s.records ++ [record]) pc from
    ⟨Log.upTo_le _ _, ⟨record, List.getLast?_concat, hnext.1⟩, hnext.2, hkept⟩
  unfold BootstrapPc.commit at hrecord
  split at hrecord
  · next r hs =>
    rw [hs] at hpc
    obtain ⟨hmature, hreason⟩ := hpc
    obtain ⟨rfl, rfl⟩ := Prod.mk.inj (Option.some.inj hrecord)
    refine ⟨⟨fun himmature => ?_, fun hexhausted => ?_⟩, trivial⟩
    · rw [hmature] at himmature
      cases himmature
    · rw [hreason] at hexhausted
      cases hexhausted
  · next b hs =>
    rw [hs] at hpc
    exact hpc.elim
  · next b hs =>
    rw [hs] at hpc
    obtain ⟨hb, hlimit⟩ := hpc
    obtain ⟨rfl, rfl⟩ := Prod.mk.inj (Option.some.inj hrecord)
    have hrunning : HistoryView.Running ⟨source, s.handed⟩
        ((source.above 1).upTo b.endTimestamp) b := by
      refine ⟨?_, hb.termination⟩
      rw [hb.offset, hb.window]
      exact hfrontier
    refine ⟨⟨fun _ => hrunning.frontier, fun hexhausted => ?_⟩, hrunning, hlimit⟩
    have : BootstrapReason.inProgress = .historyExhausted := hexhausted
    cases this
  · next b short hs =>
    rw [hs] at hpc
    exact hpc.elim
  · next d hs =>
    rw [hs] at hpc
    exact hpc.elim
  · next r hs =>
    rw [hs] at hpc
    obtain ⟨hoffset, hwindow, hreason⟩ := hpc
    obtain ⟨rfl, rfl⟩ := Prod.mk.inj (Option.some.inj hrecord)
    refine ⟨⟨fun _ => ?_, fun hexhausted => absurd hexhausted hreason⟩, trivial⟩
    rw [hoffset, hwindow]
    exact hfrontier
  · cases hrecord

theorem Fresh.step {w w' : HistoryWorld tx} {e : HistoryEvent} (h : Fresh w.own)
    (hs : HistoryStep nullsFirst wallet w e w') :
    Fresh w'.own ∨ ∃ record, w'.own.records = [record] ∧
      Reading w'.source ((w'.source.above 1).upTo record.endTimestamp) w'.own := by
  cases hs with
  | arrive source' grows => exact .inl h
  | reply r own asked hs => exact .inl (h.own hs nofun)
  | elsewhere db hs => exact .inl ⟨h.records, h.handed, h.pc⟩
  | own e own honest queried hs =>
    by_cases hcommit : e = .commit
    · subst hcommit
      obtain ⟨⟨record, pc⟩, hrecord, rfl⟩ := Option.map_eq_some_iff.mp hs
      refine .inr ⟨record, ?_, h.commit w.source hrecord⟩
      show w.own.records ++ [record] = [record]
      rw [h.records, List.nil_append]
    · exact .inl (h.own hs hcommit)

/-! ## The theorem -/

/-- When the last record says that the history is exhausted, every trade that the source
had when the first record was written, from timestamp 1 up to the end in that record, is
stored or was quarantined. -/
theorem bootstrap_complete {w₀ w₁ w : HistoryWorld tx} {e : HistoryEvent}
    {pre post : List (HistoryEvent × HistoryWorld tx)} (hstart : w₀.Start)
    (hrun : Run (HistoryStep nullsFirst wallet) w₀ (pre ++ (e, w₁) :: post) w)
    {first latest : BootstrapRecord} (hnone : (last w₀ pre).own.records = [])
    (hfirst : w₁.own.records = [first]) (hlatest : w.own.records.getLast? = some latest)
    (hexhausted : latest.terminationReason = .historyExhausted) {t : HistoryTrade tx}
    (ht : t ∈ w₁.source.entries) (hlo : 1 ≤ t.timestamp)
    (hhi : t.timestamp ≤ first.endTimestamp) :
    StoredOrQuarantined tx w.own t.raw := by
  obtain ⟨u, hpre, hstep, hpost⟩ := hrun.split
  rw [hpre.last_eq] at hnone
  have hfresh : Fresh u.own := by
    have hinv := hpre.inv (fun w => Fresh w.own ∨
      ∃ n, Reading w.source n w.own) (fun s e t h hs => ?_)
      (.inl ⟨hstart.records, hstart.handed, by rw [hstart.pc]; trivial⟩)
    · refine hinv.resolve_right fun ⟨n, hreading⟩ => ?_
      obtain ⟨r, hr, -⟩ := hreading.last
      rw [hnone] at hr
      cases hr
    · rcases h with h | ⟨n, h⟩
      · rcases h.step hs with h | ⟨record, -, h⟩
        · exact .inl h
        · exact .inr ⟨_, h⟩
      · exact .inr ⟨n, h.step hs⟩
  rcases hfresh.step hstep with h | ⟨record, hrecord, hreading⟩
  · rw [h.records] at hfirst
    cases hfirst
  · obtain rfl := List.singleton_inj.mp (hrecord.symm.trans hfirst)
    have hend :=
      hpost.inv (fun w => Reading w.source ((w₁.source.above 1).upTo record.endTimestamp) w.own)
      (fun _ _ _ h hs => h.step hs) hreading
    have hgrows : w₁.source.Grows w.source := by
      refine hpost.inv (fun w => w₁.source.Grows w.source) (fun s e t h hs => ?_) (Log.Grows.refl _)
      cases hs with
      | arrive source' grows => exact List.IsPrefix.trans h grows
      | reply => exact h
      | elsewhere => exact h
      | own => exact h
    obtain ⟨r, hr, hrecordOk⟩ := hend.last
    obtain rfl := Option.some.inj (hlatest.symm.trans hr)
    obtain ⟨i, hi⟩ := List.getElem?_of_mem (Log.mem_above.mpr ⟨ht, hlo⟩)
    have hbelow := (Log.lt_upTo_iff hi).mpr hhi
    exact hend.kept t.raw (hrecordOk.exhausted hexhausted i t (Nat.zero_le _) hbelow
      ((hgrows.above 1).getElem? hi))

/-! ## A backfill that crashes after each page -/

/-- Several steps that need no row of a query. -/
def HistoryWorld.play (wallet : Wallet) : List HistoryEvent →
    HistoryWorld tx → Option (HistoryWorld tx)
  | [], w => some w
  | .reply :: es, w => match w.own.pc.request with
    | some r => (w.own.next tx wallet (.fetch (.ok (w.source.getTrades r)))).bind
      fun own => HistoryWorld.play wallet es { w with own := own }
    | none => none
  | .own (.fetch _) :: _, _ => none
  | .own (.choose _) :: _, _ => none
  | .own (.call _ _) :: _, _ => none
  | .own e :: es, w =>
    (w.own.next tx wallet e).bind fun own => HistoryWorld.play wallet es { w with own := own }
  | _ :: _, _ => none

theorem HistoryWorld.play_run (nullsFirst : Bool) {es : List HistoryEvent} {w w' : HistoryWorld tx}
    (h : w.play wallet es = some w') :
    (∃ tr, Run (HistoryStep nullsFirst wallet) w tr w') ∧ w'.source = w.source := by
  fun_induction HistoryWorld.play wallet es w with
  | case1 w =>
    obtain rfl := Option.some.inj h
    exact ⟨⟨[], Run.nil⟩, rfl⟩
  | case2 es w r hasked ih =>
    obtain ⟨own, hown, h⟩ := Option.bind_eq_some_iff.mp h
    obtain ⟨⟨tr, hrun⟩, hsource⟩ := ih own h
    exact ⟨⟨_, (Run.single (HistoryStep.reply w r own hasked hown)).trans hrun⟩, hsource⟩
  | case3 => cases h
  | case4 => cases h
  | case5 => cases h
  | case6 => cases h
  | case7 e es w hfetch hchoose hcall ih =>
    obtain ⟨own, hown, h⟩ := Option.bind_eq_some_iff.mp h
    obtain ⟨⟨tr, hrun⟩, hsource⟩ := ih own h
    have hplain : e.honest ∧ e.Queried nullsFirst wallet.id w.own := by
      cases e with
      | fetch response => exact (hfetch response rfl).elim
      | choose ids => exact (hchoose ids rfl).elim
      | call now rows => exact (hcall now rows rfl).elim
      | _ => exact ⟨trivial, trivial⟩
    exact ⟨⟨_, (Run.single (HistoryStep.own w e own hplain.1 hplain.2 hown)).trans hrun⟩, hsource⟩
  | case8 => cases h

namespace Resumed

def row (hash timestamp : String) : Json :=
  .obj [("transactionHash", .str hash), ("proxyWallet", .str "w"),
    ("asset", .str "7"), ("conditionId", .str "c"),
    ("side", .str "BUY"), ("outcome", .str "Yes"), ("size", .num "1"), ("price", .num "0.5"),
    ("timestamp", .num timestamp)]

theorem timed_of {raw : Json} {i : Int}
    (h : (parseTradedAt Text.plain raw).toOption = some (i : ℚ)) :
    ∀ t, parseTradedAt Text.plain raw = .ok t → t = i := by
  intro t ht
  rw [ht] at h
  exact Option.some.inj h

def older : HistoryTrade Text.plain := ⟨0, row "0x0" "1", 1, timed_of (by decide +kernel)⟩

def newer : HistoryTrade Text.plain := ⟨1, row "0x1" "2", 2, timed_of (by decide +kernel)⟩

/-- Within the end of the backfill, but not there when it began. -/
def late : HistoryTrade Text.plain := ⟨2, row "0x2" "9", 9, timed_of (by decide +kernel)⟩

def before : History Text.plain := ⟨[older, newer], by decide, by decide⟩

def after : History Text.plain := ⟨[older, newer, late], by decide, by decide⟩

def start : HistoryWorld Text.plain := ⟨before, ⟨Db.empty, [], .idle none, [], [], 0, 0⟩⟩

/-- Pages of one row. -/
def begin : List HistoryEvent :=
  [.own (.begin { bootstrapPageSize := 1 } 9), .own .select, .own .gauge]

def env : PageEnv := ⟨fun _ => .ok (.arr []), fun _ => none, 0⟩

def page : List HistoryEvent := [.reply, .own (.store env), .own .commit, .own .crash]

def again : List HistoryEvent := begin ++ [.own .commit]

/-- After the arrival the second page shows `newer` once more. -/
def rest : List HistoryEvent :=
  again ++ page ++ again ++ page ++ again ++ [.reply, .own .conclude, .own .commit]

/-- Up to the first record, from there to the arrival, and to the end. -/
def final : Option (HistoryWorld Text.plain × HistoryWorld Text.plain ×
    HistoryWorld Text.plain × HistoryWorld Text.plain) :=
  (start.play Interrupted.discovered begin).bind fun w₁ =>
    (w₁.own.next Text.plain Interrupted.discovered .commit).bind fun own =>
      (HistoryWorld.play Interrupted.discovered page { w₁ with own := own }).bind fun w₂ =>
        (HistoryWorld.play Interrupted.discovered rest { w₂ with source := after }).map fun w =>
          (w₁, { w₁ with own := own }, w₂, w)

end Resumed

theorem bootstrap_complete_resumed :
    ∃ w tr, Run (HistoryStep true Interrupted.discovered) Resumed.start tr w ∧
    (w.own.records.getLast?.map BootstrapRecord.terminationReason) = some .historyExhausted ∧
    StoredOrQuarantined Text.plain w.own Resumed.older.raw := by
  obtain ⟨⟨w₁, w₁', w₂, w⟩, hfinal⟩ :=
    Option.isSome_iff_exists.mp (show Resumed.final.isSome = true by decide +kernel)
  have hends : Resumed.final.any (fun (w₁, w₁', _, w) => w₁.own.records = [] &&
      (w₁'.own.records.map BootstrapRecord.endTimestamp = [9] &&
        (w.own.records.getLast?.map BootstrapRecord.terminationReason) =
          some .historyExhausted)) = true := by
    decide +kernel
  rw [hfinal] at hends
  simp only [Option.any_some, Bool.and_eq_true, decide_eq_true_eq] at hends
  obtain ⟨hnone, hfirst, hexhausted⟩ := hends
  obtain ⟨first, hrecords, hend⟩ := List.map_eq_singleton_iff.mp hfirst
  obtain ⟨latest, hlatest, hreason⟩ := Option.map_eq_some_iff.mp hexhausted
  obtain ⟨u₁, hplay₁, h⟩ := Option.bind_eq_some_iff.mp hfinal
  obtain ⟨own, hcommit, h⟩ := Option.bind_eq_some_iff.mp h
  obtain ⟨u₂, hplay₂, h⟩ := Option.bind_eq_some_iff.mp h
  obtain ⟨u, hplay, h⟩ := Option.map_eq_some_iff.mp h
  obtain ⟨rfl, rfl, rfl, rfl⟩ : u₁ = w₁ ∧ { u₁ with own := own } = w₁' ∧ u₂ = w₂ ∧ u = w := by
    simpa using h
  obtain ⟨⟨tr₁, hrun₁⟩, hsource₁⟩ := HistoryWorld.play_run true hplay₁
  obtain ⟨⟨tr₂, hrun₂⟩, hsource₂⟩ := HistoryWorld.play_run true hplay₂
  obtain ⟨⟨tr₃, hrun₃⟩, -⟩ := HistoryWorld.play_run true hplay
  have hbefore : u₁.source = Resumed.before := hsource₁
  have hgrows : u₂.source.Grows Resumed.after := by
    rw [hsource₂]
    show u₁.source.Grows Resumed.after
    rw [hbefore]
    exact ⟨[Resumed.late], rfl⟩
  have hown : HistoryStep true Interrupted.discovered u₁ (.own .commit) { u₁ with own := own } :=
    .own u₁ .commit own trivial trivial hcommit
  have hpost := (hrun₂.snoc _ _ (HistoryStep.arrive u₂ Resumed.after hgrows)).trans hrun₃
  have hrun := hrun₁.trans ((Run.single hown).trans hpost)
  refine ⟨u, _, hrun, by rw [hlatest, Option.map_some, hreason], ?_⟩
  have hlast : (last Resumed.start tr₁).own.records = [] := by
    rw [hrun₁.last_eq]
    exact hnone
  refine bootstrap_complete ⟨rfl, rfl, rfl, rfl⟩ hrun hlast hrecords hlatest hreason
    (t := Resumed.older) ?_ (by decide) ?_
  · show Resumed.older ∈ u₁.source.entries
    rw [hbefore]
    exact List.mem_cons_self
  · rw [hend]
    decide

end Polycopy

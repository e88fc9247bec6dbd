import Polycopy.Effects

/-!
# Every step is a sequence of effects

`SysOk` is what the bot can rely on between two of its steps: the keys of its
tables, the account row its session may have created, and, while a signal is in
flight, that the plan made by the gates is still the plan the stored books
give.  Other processes cannot break it, so at the commit of a fill everything
the gates have checked still holds (`Bot.effects`).  The steps of a call that nothing
comes between are `execute_signal` as one function (`executeSignal_run`).
-/

namespace Polycopy

structure SysOk (s : Sys) : Prop where
  tables : Tables s.db
  tradeKeys : (s.db.trades.map Trade.polymarketTradeId).Nodup
  created : s.db.account = none → ∀ a, s.session.account = some a → a = freshAccount s.cfg
  held : ∀ f, s.pc.flight = some f → Held s.view f.signal
  side : ∀ f, s.pc.flight = some f → SideOk s.cfg s.view f.signal f.plan.side
  walk : ∀ b f fill snapshot, s.pc = .awaitFee b f fill snapshot →
    FillOk s.cfg.maxOrderSizeUsd f.plan.owned fill ∧ (f.signal.side = .buy ∨ f.signal.side = .sell)
  opened : ∀ f, s.pc.flight = some f → f.signal.side = .buy → s.view.account.isSome = true

theorem sysOk_init (cfg : Settings) (clock : Time) : SysOk (Sys.init cfg clock) where
  tables := ⟨List.nodup_nil, List.nodup_nil, List.nodup_nil, List.nodup_nil⟩
  tradeKeys := List.nodup_nil
  created := by intro _ a h; cases h
  held := by intro f h; cases h
  side := by intro f h; cases h
  walk := by intro b f fill snapshot h; cases h
  opened := by intro f h; cases h

/-! ## The bot's commits -/

theorem QueryRows.mem {α : Type} {f : α → Time} {n : Nat} {found rows : List α}
    (h : QueryRows f n found rows) {a : α} (ha : a ∈ rows) : a ∈ found := by
  obtain ⟨l, hp, -, rfl⟩ := h
  exact hp.mem_iff.mp (List.mem_of_mem_take ha)

theorem QueryRows.nodup {α β : Type} {f : α → Time} {n : Nat} {found rows : List α} (g : α → β)
    (h : QueryRows f n found rows) (hn : (found.map g).Nodup) : (rows.map g).Nodup := by
  obtain ⟨l, hp, -, rfl⟩ := h
  exact ((hp.map g).nodup_iff.mpr hn).sublist ((List.take_sublist n l).map g)

theorem detect_effects (cfg : Settings) (rows : List Trade) :
    ∀ db : Db, (rows.map Trade.polymarketTradeId).Nodup →
      (∀ t ∈ rows, ∀ s ∈ db.signals, s.sourceTradeId ≠ t.polymarketTradeId) →
      Effects cfg db (detectSignals db rows) := by
  induction rows with
  | nil => intro db _ _; exact .refl
  | cons t rest ih =>
    intro db hn hnew
    rw [List.map_cons, List.nodup_cons] at hn
    refine .head (.detected db t (hnew t List.mem_cons_self)) (ih _ hn.2 ?_)
    intro t' ht' s hs
    rcases List.mem_append.mp hs with hs | hs
    · exact hnew t' (List.mem_cons_of_mem _ ht') s hs
    · obtain rfl := List.mem_singleton.mp hs
      exact fun e => hn.1 (List.mem_map.mpr ⟨t', ht', e.symm⟩)

theorem mem_settleRows {db : Db} {p : Position} {st : Settlement} :
    (p, st) ∈ settleRows db ↔ p ∈ db.positions ∧ p.isOpen = true ∧
    db.settlement p.marketId = some st := by
  unfold settleRows
  rw [List.mem_filterMap]
  constructor
  · rintro ⟨q, hq, h⟩
    split at h
    · next ho =>
      obtain ⟨st', hst, he⟩ := Option.map_eq_some_iff.mp h
      obtain ⟨rfl, rfl⟩ := Prod.mk.inj he
      exact ⟨hq, ho, hst⟩
    · cases h
  · rintro ⟨hp, ho, hst⟩
    exact ⟨p, hp, by rw [if_pos ho, hst]; rfl⟩

theorem settleRows_keys {db : Db} (h : (db.positions.map Position.key).Nodup) :
    ((settleRows db).map fun row => row.1.key).Nodup := by
  have hsub : ((settleRows db).map Prod.fst).Sublist db.positions := by
    unfold settleRows
    rw [List.map_filterMap]
    induction db.positions with
    | nil => exact .slnil
    | cons p l ih =>
      rw [List.filterMap_cons]
      split
      · exact ih.cons p
      · next q hq =>
        have : q = p := by
          split at hq
          · cases hst : db.settlement p.marketId with
            | none => rw [hst] at hq; cases hq
            | some st => rw [hst] at hq; exact (Option.some.inj hq).symm
          · cases hq
        rw [this]
        exact ih.cons_cons p
  have := (hsub.map Position.key)
  rw [List.map_map] at this
  exact h.sublist this

theorem settle_effects (cfg : Settings) (now : Time) (rows : List (Position × Settlement)) :
    ∀ db : Db, (rows.map fun row => row.1.key).Nodup → (∀ row ∈ rows, row ∈ settleRows db) →
      Effects cfg db (settlePaperPositions cfg now db rows) := by
  induction rows with
  | nil => intro db _ _; exact .refl
  | cons row rest ih =>
    intro db hn hrows
    obtain ⟨p, st⟩ := row
    rw [List.map_cons, List.nodup_cons] at hn
    obtain ⟨hp, ho, hst⟩ := mem_settleRows.mp (hrows _ List.mem_cons_self)
    refine .head (.settled db p st now hp ho hst) (ih _ hn.2 ?_)
    -- the rows still to come are of other keys, so they are stored as they were read
    rintro ⟨q, st'⟩ hq
    obtain ⟨hq', ho', hst'⟩ := mem_settleRows.mp (hrows _ (List.mem_cons_of_mem _ hq))
    rw [settlePosition_eq]
    refine mem_settleRows.mpr ⟨Keyed.mem_put_of_ne Position.key hq' ?_, ho', hst'⟩
    exact fun e => hn.1 (List.mem_map.mpr ⟨_, hq, e⟩)

theorem view_account {cfg : Settings} {ss : Session} {db : Db}
    (created : db.account = none → ∀ a, ss.account = some a → a = freshAccount cfg) :
    accountOf cfg (ss.view db) = accountOf cfg db := by
  unfold accountOf Session.view
  cases hda : db.account with
  | some a => rfl
  | none =>
    cases hs : ss.account with
    | none => rfl
    | some a => exact created hda a hs

/-- A commit publishes what the session holds. -/
theorem view_effects (cfg : Settings) (ss : Session) (db : Db)
    (created : db.account = none → ∀ a, ss.account = some a → a = freshAccount cfg) :
    Effects cfg db (ss.view db) := by
  obtain ⟨deferrals, account⟩ := ss
  induction deferrals with
  | nil =>
    have hacc := view_account created
    refine .single (.same ⟨rfl, rfl, rfl, rfl, by rw [hacc], by rw [hacc], by rw [hacc], ?_, rfl⟩)
    intro h
    unfold Session.view
    cases hda : db.account with
    | some a => rfl
    | none => rw [hda] at h; cases h
  | cons id l ih => exact .tail (ih created) (.deferred _ id)

theorem gates_effects {cfg : Settings} {v db : Db} (h : db = v ∨ db = withAccount cfg v) :
    SameBooks cfg v db := by
  rcases h with rfl | rfl
  · exact SameBooks.refl cfg _
  · exact withAccount_same cfg v

theorem Held.same {cfg : Settings} {db db' : Db} {s : Signal} (h : Held db s)
    (hs : SameBooks cfg db db') :
    Held db' s := ⟨(hs.signal s.id).trans h.row, h.pending⟩

/-- The row found under an id has that id. -/
theorem Ready.held {s : Sys} {id : Nat} {sig : Signal} (h : Ready s id sig) : Held s.view sig := by
  have hid := (Keyed.find_some Signal.id h.row).2
  exact ⟨by rw [hid]; exact h.row, h.pending⟩

theorem owned_nonneg {cfg : Settings} {db : Db} {s : Signal} {plan : Plan}
    (h : SideOk cfg db s plan.side) :
    ∀ r, plan.owned = some r → 0 ≤ r := by
  intro r hr
  unfold Plan.owned at hr
  cases hside : plan.side with
  | buy g m c => rw [hside] at hr; cases hr
  | other => rw [hside] at hr; cases hr
  | sell o =>
    rw [hside] at hr h
    obtain rfl := Option.some.inj hr
    cases h with
    | sell _ owned => exact owned.le

theorem detectable_keys {db : Db} (h : (db.trades.map Trade.polymarketTradeId).Nodup) :
    ((detectable db).map Trade.polymarketTradeId).Nodup :=
  h.sublist (List.filter_sublist.map Trade.polymarketTradeId)

theorem detectable_new {db : Db} {t : Trade} (h : t ∈ detectable db) :
    ∀ s ∈ db.signals, s.sourceTradeId ≠ t.polymarketTradeId := by
  unfold detectable at h
  rw [List.mem_filter, Bool.and_eq_true, Bool.not_eq_true'] at h
  have hn := h.2.2
  unfold alreadySignaled at hn
  rw [List.any_eq_false] at hn
  intro s hs e
  exact hn s hs (decide_eq_true e)

theorem Bot.effects {pw : Py.DecPow} {s t : Sys} {e : Event} (ok : SysOk s) (h : Bot pw s e t) :
    Effects s.cfg s.db t.db := by
  have hview : Effects s.cfg s.db s.view := view_effects s.cfg s.session s.db ok.created
  cases h with
  | detect rows pc paper query =>
    exact detect_effects s.cfg rows s.db (query.nodup _ (detectable_keys ok.tradeKeys))
      fun t ht => detectable_new (query.mem ht)
  | settle startedAt rows pc query =>
    refine settle_effects s.cfg startedAt rows s.db ?_ fun row hrow => query.mem_iff.mp hrow
    exact (query.map _).nodup_iff.mpr (settleRows_keys ok.tables.positionKeys)
  | skip id rest deferred sig reason db pc ready gates =>
    have hdb := gates_effects (executeGates_skip gates)
    exact (hview.tail (.same hdb)).tail (.missed db sig reason s.clock none (ready.held.same hdb))
  | bookSkip b f book reason evidence pc response =>
    exact hview.tail (.missed _ _ _ _ _ (ok.held f (by rw [pc]; rfl)))
  | feeSkip b f fill snapshot feeInfo reason pc response =>
    exact hview.tail (.missed _ _ _ _ _ (ok.held f (by rw [pc]; rfl)))
  | feeFill b f fill snapshot feeInfo fee marketFee pc response =>
    have hf : s.pc.flight = some f := by rw [pc]; rfl
    obtain ⟨hwalk, htraded⟩ := ok.walk b f fill snapshot pc
    obtain ⟨hfee, hgates⟩ := afterFee_fill response
    exact hview.tail (.filled _ _ f.plan _ _ _ _ _ _
      ⟨ok.held f hf, ok.side f hf, hwalk, htraded, hfee, hgates, ok.opened f hf⟩)
  | finishDeferred pc => exact hview
  | sweep pc =>
    show Effects s.cfg s.db (if _ then _ else _)
    split
    · next hpos =>
      rcases sweepProfitIfDue_cases s.cfg s.view with h0 | ⟨limit, hp, hl, hpile, hfree, -, heq⟩
      · rw [h0] at hpos; exact absurd hpos (lt_irrefl 0)
      · rw [heq]
        exact hview.tail (.swept s.view limit _ hl hp hpile hfree)
    · exact .refl
  | select | passOver | stop | defer | request | bookFill | raisedGates | raisedBook | raisedFee
  | finish => exact .refl

theorem Step.effects {pw : Py.DecPow} {tx : Py.Text} {s t : Sys} {e : Event} (ok : SysOk s)
    (h : Step pw tx s e t) : Effects s.cfg s.db t.db := by
  cases h with
  | tick d h => exact .refl
  | elsewhere _ db h lock => exact .single (.same h.same)
  | bot _ _ h => exact h.effects ok
  | crash cfg => exact .refl

/-! ## `SysOk` holds of every run -/

/-- The bot writes none of the tables the other processes own. -/
structure BotFrame (db db' : Db) : Prop where
  wallets : db'.wallets = db.wallets
  markets : db'.markets = db.markets
  trades : db'.trades = db.trades
  settlements : db'.settlements = db.settlements

theorem BotFrame.trans {db db' db'' : Db} (h : BotFrame db db')
    (h' : BotFrame db' db'') : BotFrame db db'' :=
  ⟨h'.wallets.trans h.wallets, h'.markets.trans h.markets, h'.trades.trans h.trades,
    h'.settlements.trans h.settlements⟩

theorem detectSignals_frame (rows : List Trade) : ∀ db, BotFrame db (detectSignals db rows) := by
  induction rows with
  | nil => intro db; exact ⟨rfl, rfl, rfl, rfl⟩
  | cons t rest ih =>
    intro db
    have hone : BotFrame db (addSignal db t) := ⟨rfl, rfl, rfl, rfl⟩
    exact hone.trans (ih (addSignal db t))

theorem settlePaperPositions_frame (cfg : Settings) (now : Time)
    (rows : List (Position × Settlement)) :
    ∀ db, BotFrame db (settlePaperPositions cfg now db rows) := by
  induction rows with
  | nil => intro db; exact ⟨rfl, rfl, rfl, rfl⟩
  | cons row rest ih =>
    intro db
    refine BotFrame.trans ?_ (ih (settlePosition cfg now db row))
    rw [settlePosition_eq]
    exact ⟨rfl, rfl, rfl, rfl⟩

theorem gates_frame {cfg : Settings} {v db : Db}
    (h : db = v ∨ db = withAccount cfg v) : BotFrame v db := by
  rcases h with rfl | rfl <;> exact ⟨rfl, rfl, rfl, rfl⟩

theorem Bot.frame {pw : Py.DecPow} {s t : Sys} {e : Event}
    (h : Bot pw s e t) : BotFrame s.db t.db := by
  cases h with
  | detect rows pc paper query => exact detectSignals_frame rows s.db
  | settle startedAt rows pc query => exact settlePaperPositions_frame s.cfg startedAt rows s.db
  | skip id rest deferred sig reason db pc ready gates =>
    obtain ⟨h1, h2, h3, h4⟩ := gates_frame (executeGates_skip gates)
    exact ⟨h1, h2, h3, h4⟩
  | feeFill =>
    show BotFrame s.db (commitFill _ _ _ _ _ _ _ _ _)
    rw [commitFill_eq]
    exact ⟨rfl, rfl, rfl, rfl⟩
  | sweep pc =>
    show BotFrame s.db (if _ then _ else _)
    split
    · next hpos =>
      rcases sweepProfitIfDue_cases s.cfg s.view with h0 | ⟨limit, hp, hl, hpile, hfree, -, heq⟩
      · rw [h0] at hpos; exact absurd hpos (lt_irrefl 0)
      · rw [heq]
        exact ⟨rfl, rfl, rfl, rfl⟩
    · exact ⟨rfl, rfl, rfl, rfl⟩
  | bookSkip | feeSkip | finishDeferred | select | passOver | stop | defer | request | bookFill
  | raisedGates | raisedBook | raisedFee | finish => exact ⟨rfl, rfl, rfl, rfl⟩

/-- What each effect keeps a sequence of effects keeps. -/
theorem Effects.inv {cfg : Settings} {I : Db → Prop} {db db' : Db}
    (heffect : ∀ db db', Tables db → I db → Effect cfg db db' → I db') (h : Effects cfg db db')
    (ht : Tables db) (hi : I db) : Tables db' ∧ I db' := by
  induction h with
  | refl => exact ⟨ht, hi⟩
  | tail _ he ih => exact ⟨he.tables ih.1, heffect _ _ ih.1 ih.2 he⟩

theorem Effects.tables {cfg : Settings} {db db' : Db} (h : Effects cfg db db') (ht : Tables db) :
    Tables db' := (h.inv (I := fun _ => True) (fun _ _ _ _ _ => trivial) ht trivial).1

/-- Keeping the gates' account row makes the session's view the database the gates left. -/
theorem keep_view {cfg : Settings} (ss : Session) (db db' : Db)
    (h : db' = ss.view db ∨ db' = withAccount cfg (ss.view db)) : (ss.keep db').view db = db' := by
  rcases h with rfl | rfl
  · unfold Session.keep Session.view
    dsimp only
    cases db.account <;> rfl
  · unfold Session.keep withAccount accountOf Session.view
    dsimp only
    cases db.account <;> rfl

theorem keep_created {cfg : Settings} {ss : Session} {db db' : Db}
    (created : db.account = none → ∀ a, ss.account = some a → a = freshAccount cfg)
    (h : db' = ss.view db ∨ db' = withAccount cfg (ss.view db)) :
    db.account = none → ∀ a, (ss.keep db').account = some a → a = freshAccount cfg := by
  intro hn a ha
  have hv : (ss.view db).account = ss.account := by unfold Session.view; rw [hn]; rfl
  change db'.account = some a at ha
  rcases h with rfl | rfl
  · exact created hn a (hv ▸ ha)
  · obtain rfl := Option.some.inj ha
    unfold accountOf
    rw [hv]
    cases hs : ss.account with
    | none => rfl
    | some b => exact created hn b hs

theorem Bot.ok {pw : Py.DecPow} {s t : Sys} {e : Event} (ok : SysOk s)
    (h : Bot pw s e t) : SysOk t := by
  have htables := (h.effects ok).tables ok.tables
  have htrades : (t.db.trades.map Trade.polymarketTradeId).Nodup := by
    rw [h.frame.trades]; exact ok.tradeKeys
  -- without a signal in flight only the account row is left to show
  have quiet : t.pc.flight = none → (t.db.account = none → ∀ a, t.session.account = some a →
      a = freshAccount t.cfg) → SysOk t := by
    intro hq hc
    refine ⟨htables, htrades, hc, ?_, ?_, ?_, ?_⟩
    · intro f hf; rw [hq] at hf; cases hf
    · intro f hf; rw [hq] at hf; cases hf
    · intro b f fill snapshot hp; rw [hp] at hq; cases hq
    · intro f hf; rw [hq] at hf; cases hf
  cases h with
  | detect | settle | skip | bookSkip | feeSkip | feeFill | raisedGates | raisedBook | raisedFee
  | finishDeferred | sweep => exact quiet rfl fun _ a ha => by cases ha
  | select | passOver | stop | finish => exact quiet rfl ok.created
  | defer id rest deferred sig db pc ready gates =>
    refine quiet rfl fun hn a ha => ok.created hn a ?_
    unfold Session.defer at ha
    split at ha <;> exact ha
  | request id rest deferred sig plan db pc ready gates =>
    obtain ⟨hreq, hdb, hbuy⟩ := executeGates_request gates
    have hv := keep_view s.session s.db db hdb
    have hsame := gates_effects hdb
    refine ⟨ok.tables, ok.tradeKeys, keep_created ok.created hdb, ?_, ?_, ?_, ?_⟩
    · rintro f hf
      obtain rfl := Option.some.inj hf
      show Held ((s.session.keep db).view s.db) sig
      rw [hv]
      exact ready.held.same hsame
    · rintro f hf
      obtain rfl := Option.some.inj hf
      show SideOk s.cfg ((s.session.keep db).view s.db) sig plan.side
      rw [hv]
      exact sideOk_same hsame hreq.side
    · intro b f fill snapshot hp; cases hp
    · rintro f hf hb
      obtain rfl := Option.some.inj hf
      show ((s.session.keep db).view s.db).account.isSome = true
      rw [hv, hbuy hb]
      rfl
  | bookFill b f book fill snapshot pc response =>
    have hf : s.pc.flight = some f := by rw [pc]; rfl
    refine ⟨ok.tables, ok.tradeKeys, ok.created, ?_, ?_, ?_, ?_⟩
    · rintro g hg
      obtain rfl := Option.some.inj hg
      exact ok.held f hf
    · rintro g hg
      obtain rfl := Option.some.inj hg
      exact ok.side f hf
    · intro b' f' fill' snapshot' hp
      injection hp with _ h2 h3 _
      subst h2 h3
      exact afterBook_fill (owned_nonneg (ok.side f hf)) response
    · rintro g hg
      obtain rfl := Option.some.inj hg
      exact ok.opened f hf

/-- Another process may append a trade with an unused key, seen by now; it changes none. -/
theorem Elsewhere.trades {tx : Py.Text} {cfg : Settings} {now : Time} {db db' : Db} {e : Event}
    (h : Elsewhere tx cfg now db e db') : db'.trades = db.trades ∨
      ∃ t, db'.trades = db.trades ++ [t] ∧
      (∀ t' ∈ db.trades, t'.polymarketTradeId ≠ t.polymarketTradeId) ∧ t.ingestedAt ≤ now := by
  cases h with
  | ingestTrade t id key seen => exact Or.inr ⟨t, rfl, key, seen⟩
  | ingestMarket | resolve | backfill | throttle | overview => exact Or.inl rfl
  | addWallet _ address label h => rw [addWallet_ok h]; exact Or.inl rfl
  | transition _ walletId action h =>
    obtain ⟨w, queue, -, -, rfl⟩ := transitionWallet_ok h
    exact Or.inl rfl
  | verdict _ verdict walletId h =>
    obtain rfl | ⟨w, target, queue, -, -, -, rfl⟩ := applyVerdict_ok h <;> exact Or.inl rfl
  | settings p l =>
    unfold updateBankrollSettings
    rw [getOrCreate_withAccount]
    dsimp only
    split <;> exact Or.inl rfl

theorem Elsewhere.tradeKeys {tx : Py.Text} {cfg : Settings} {now : Time} {db db' : Db} {e : Event}
    (h : Elsewhere tx cfg now db e db') (hn : (db.trades.map Trade.polymarketTradeId).Nodup) :
    (db'.trades.map Trade.polymarketTradeId).Nodup := by
  rcases h.trades with ht | ⟨t, ht, key, -⟩
  · rw [ht]
    exact hn
  · rw [ht]
    refine Keyed.nodup_snoc _ hn fun hm => ?_
    obtain ⟨t', ht', he⟩ := List.mem_map.mp hm
    exact key t' ht' he

theorem Step.ok {pw : Py.DecPow} {tx : Py.Text} {s t : Sys} {e : Event} (ok : SysOk s)
    (h : Step pw tx s e t) : SysOk t := by
  cases h with
  | tick d h => exact ⟨ok.tables, ok.tradeKeys, ok.created, ok.held, ok.side, ok.walk, ok.opened⟩
  | elsewhere _ db h lock =>
    have hsame := view_same s.session h lock
    refine ⟨(Effect.same h.same).tables ok.tables, h.tradeKeys ok.tradeKeys, ?_, ?_, ?_, ok.walk, ?_⟩
    · intro hn
      refine ok.created ?_
      cases ha : s.db.account with
      | none => rfl
      | some a =>
        have hc := h.same.created (by rw [ha]; rfl)
        change db.account = none at hn
        rw [hn] at hc
        cases hc
    · intro f hf
      exact (ok.held f hf).same hsame
    · intro f hf
      exact sideOk_same hsame (ok.side f hf)
    · intro f hf hb
      exact hsame.created (ok.opened f hf hb)
  | bot _ _ h => exact h.ok ok
  | crash cfg =>
    refine ⟨ok.tables, ok.tradeKeys, ?_, ?_, ?_, ?_, ?_⟩
    · intro _ a ha; cases ha
    · intro f hf; cases hf
    · intro f hf; cases hf
    · intro b f fill snapshot hp; cases hp
    · intro f hf; cases hf

/-! ## Where orders come from -/

/-- The commit of a fill, with what was checked before it. -/
structure FillStep (s : Sys) (b : Batch) (f : Flight) (fill : Fill)
    (snapshot : BookSnapshot) (fee : ℚ) (marketFee : MarketFee) (e : Event)
    (t : Sys) : Prop where
  event : e = .fee
  pc : s.pc = .awaitFee b f fill snapshot
  guard : FillGuard s.cfg s.view f.signal f.plan fill fee
  after : t = s.commit (commitFill s.cfg s.view f.signal f.now s.clock fill snapshot fee marketFee)
    (.loop b)

theorem mem_recordSkip {cfg : Settings} {db : Db} {s : Signal} {reason : MissReason} {now : Time}
    {book : Option BookEvidence} {o : PaperOrder}
    (h : o ∈ (recordSkip cfg db s reason now book).paperOrders)
    (hf : o.isFill = true) : o ∈ db.paperOrders := by
  rcases List.mem_append.mp h with h | h
  · exact h
  · obtain rfl := List.mem_singleton.mp h
    cases hf

theorem detectSignals_orders (rows : List Trade) :
    ∀ db, (detectSignals db rows).paperOrders = db.paperOrders ∧
      (detectSignals db rows).positions = db.positions ∧
      (detectSignals db rows).account = db.account := by
  induction rows with
  | nil => intro db; exact ⟨rfl, rfl, rfl⟩
  | cons t rest ih => intro db; exact ih (addSignal db t)

theorem settlePaperPositions_orders (cfg : Settings) (now : Time)
    (rows : List (Position × Settlement)) :
    ∀ db, (settlePaperPositions cfg now db rows).paperOrders = db.paperOrders ∧
      (settlePaperPositions cfg now db rows).signals = db.signals := by
  induction rows with
  | nil => intro db; exact ⟨rfl, rfl⟩
  | cons row rest ih =>
    intro db
    obtain ⟨p, st⟩ := row
    have h := ih (settlePosition cfg now db (p, st))
    rw [settlePosition_eq] at h
    refine ⟨Eq.trans ?_ h.1, Eq.trans ?_ h.2⟩ <;>
    · unfold settlePaperPositions
      rw [List.foldl_cons, settlePosition_eq]

/-- Positions and filled orders are written at two commits only, the
account's totals at one more. -/
inductive StepKind (s : Sys) (e : Event) (t : Sys) : Prop
  | filled (b : Batch) (f : Flight) (fill : Fill) (snapshot : BookSnapshot) (fee : ℚ)
      (marketFee : MarketFee) (h : FillStep s b f fill snapshot fee marketFee e t) : StepKind s e t
  | settled (startedAt : Time) (rows : List (Position × Settlement)) (event : e = .settle)
      (query : rows.Perm (settleRows s.db))
      (after : t = s.commit (settlePaperPositions s.cfg startedAt s.db rows) .selecting) :
      StepKind s e t
  | swept (limit amount : ℚ) (event : e = .sweep) (limit_pos : 0 < limit) (amount_pos : 0 < amount)
      (le_pile : amount ≤ unwithdrawn (accountOf s.cfg s.view))
      (le_free : amount ≤ (accountOf s.cfg s.view).balance - openPositionCost s.view)
      (after : t = s.commit
        (postWithdrawal (withAccount s.cfg s.view) (accountOf s.cfg s.view) limit amount) .idle) :
        StepKind s e t
  | other (event : e ≠ .settle) (positions : t.db.positions = s.db.positions)
      (fills : ∀ o ∈ t.db.paperOrders, o.isFill = true → o ∈ s.db.paperOrders)
      (money : SameMoney s.cfg s.db t.db) : StepKind s e t

theorem Bot.kind {pw : Py.DecPow} {s t : Sys} {e : Event} (ok : SysOk s) (h : Bot pw s e t) :
    StepKind s e t := by
  have hview : SameMoney s.cfg s.db s.view := sameMoney_of_account (view_account ok.created)
  cases h with
  | feeFill b f fill snapshot feeInfo fee marketFee pc response =>
    have hf : s.pc.flight = some f := by rw [pc]; rfl
    obtain ⟨hwalk, htraded⟩ := ok.walk b f fill snapshot pc
    obtain ⟨hfee, hgates⟩ := afterFee_fill response
    exact .filled b f fill snapshot fee marketFee
      ⟨rfl, pc, ⟨ok.held f hf, ok.side f hf, hwalk, htraded, hfee, hgates, ok.opened f hf⟩, rfl⟩
  | settle startedAt rows pc query => exact .settled startedAt rows rfl query rfl
  | detect rows pc paper query =>
    obtain ⟨ho, hp, ha⟩ := detectSignals_orders rows s.db
    exact .other (fun he => by cases he) hp (fun o h _ => ho ▸ h) (sameMoney_of_row ha)
  | skip id rest deferred sig reason db pc ready gates =>
    have hsame := gates_effects (executeGates_skip gates)
    exact .other (fun he => by cases he) hsame.positions
      (fun o h hf => hsame.paperOrders ▸ mem_recordSkip h hf)
      ((hview.trans hsame.money).trans (sameMoney_of_row rfl))
  | bookSkip | feeSkip =>
    exact .other (fun he => by cases he) rfl (fun o h hf => mem_recordSkip h hf)
      (hview.trans (sameMoney_of_row rfl))
  | finishDeferred => exact .other (fun he => by cases he) rfl (fun o h _ => h) hview
  | sweep pc =>
    by_cases hpos : 0 < (sweepProfitIfDue s.cfg s.view).2
    · rcases sweepProfitIfDue_cases s.cfg s.view with h0 | ⟨limit, hp, hl, hpile, hfree, -, heq⟩
      · rw [h0] at hpos; exact absurd hpos (lt_irrefl 0)
      · rw [if_pos hpos, heq]
        exact .swept limit _ rfl hl hp hpile hfree rfl
    · rw [if_neg hpos]
      exact .other (fun he => by cases he) rfl (fun o h _ => h) (sameMoney_of_account rfl)
  | select | passOver | stop | defer | request | bookFill | raisedGates | raisedBook | raisedFee
  | finish => exact .other (fun he => by cases he) rfl (fun o h _ => h) (sameMoney_of_account rfl)

theorem Step.kind {pw : Py.DecPow} {tx : Py.Text} {s t : Sys} {e : Event} (ok : SysOk s)
    (h : Step pw tx s e t) : StepKind s e t := by
  cases h with
  | tick d h => exact .other (fun he => by cases he) rfl (fun o h _ => h) (sameMoney_of_account rfl)
  | crash cfg =>
    exact .other (fun he => by cases he) rfl (fun o h _ => h) (sameMoney_of_account rfl)
  | bot _ _ h => exact h.kind ok
  | elsewhere _ db h lock =>
    refine .other ?_ h.same.positions (fun o ho _ => h.same.paperOrders ▸ ho) h.same.money
    rintro rfl
    cases h

/-- A signal in flight was in flight before, or its gates have just been passed. -/
structure Begun (s : Sys) (id : Nat) (f : Flight) (e : Event) (t : Sys) : Prop where
  event : e = .begin id
  ready : Ready s id f.signal
  requested : Requested s.cfg s.clock s.view f.signal f.plan
  now : f.now = s.clock
  same : t.db = s.db ∧ t.clock = s.clock

theorem Step.flight {pw : Py.DecPow} {tx : Py.Text} {s t : Sys} {e : Event} (h : Step pw tx s e t)
    {f : Flight} (hf : t.pc.flight = some f) : s.pc.flight = some f ∨ ∃ id, Begun s id f e t := by
  cases h with
  | tick d h => exact Or.inl hf
  | crash cfg => cases hf
  | elsewhere _ db h lock => exact Or.inl hf
  | bot _ _ h =>
    cases h with
    | request id rest deferred sig plan db pc ready gates =>
      obtain rfl := Option.some.inj hf
      exact Or.inr ⟨id, rfl, ready, (executeGates_request gates).1, rfl, rfl, rfl⟩
    | bookFill b f' book fill snapshot pc response =>
      left
      rw [pc]
      exact hf
    | detect | settle | select | passOver | stop | skip | defer | bookSkip | feeSkip | feeFill
    | raisedGates | raisedBook | raisedFee | finishDeferred | finish | sweep => cases hf

section
variable {pw : Py.DecPow} {tx : Py.Text} {cfg : Settings} {t0 : Time}
  {tr : List (Event × Sys)} {s : Sys}

theorem SysRun.ok (h : SysRun pw tx cfg t0 tr s) : SysOk s :=
  h.inv SysOk (fun _ _ _ ok hs => hs.ok ok) (sysOk_init cfg t0)

/-- An invariant of the books, for runs whose settings all satisfy `P`: every effect keeps it,
and so does a change of settings. -/
theorem SysRun.books_inv (P : Settings → Prop) (I : Settings → Db → Prop) (h0 : I cfg Db.empty)
    (heffect : ∀ cfg db db', Tables db → I cfg db → Effect cfg db db' → I cfg db')
    (hcfg : ∀ cfg cfg' db, P cfg → P cfg' → I cfg db → I cfg' db) (h : SysRun pw tx cfg t0 tr s)
    (hP0 : P cfg) (hP : ∀ x ∈ tr, P x.2.cfg) : P s.cfg ∧ I s.cfg s.db := by
  have key : SysOk s ∧ P s.cfg ∧ I s.cfg s.db := by
    refine (h.restrict (fun s => P s.cfg) hP).inv (fun s => SysOk s ∧ P s.cfg ∧ I s.cfg s.db) ?_
      ⟨sysOk_init cfg t0, hP0, h0⟩
    rintro s e t ⟨ok, hp, hi⟩ ⟨hs, hp'⟩
    exact ⟨hs.ok ok, hp', hcfg s.cfg t.cfg t.db hp hp'
      ((hs.effects ok).inv (heffect s.cfg) ok.tables hi).2⟩
  exact key.2

end

/-! ## The steps of one call -/

/-- A deferral is the session's own uncommitted write. -/
theorem defer_view {s : Sys} {sig : Signal} {db : Db}
    (h : executeGates s.cfg s.clock s.view sig = (db, .deferred)) :
    (s.session.defer s.cfg sig.id).view s.db = db := by
  unfold Session.defer
  rcases executeGates_deferred h with ⟨hkill, rfl⟩ | ⟨hkill, rfl⟩
  · rw [if_pos hkill]
    rfl
  · rw [if_neg (by rw [hkill]; exact Bool.false_ne_true)]
    rfl

/-- Where a call of `execute_signal` leaves the bot. -/
def Sys.executed (s : Sys) (sig : Signal) (rest : List Nat) (deferred : Bool) : Executed → Sys
  | .raised => s.commit s.db (.loop ⟨rest, deferred⟩)
  | .deferred _ => { s with session := s.session.defer s.cfg sig.id, pc := .loop ⟨rest, true⟩ }
  | .skipped _ db => s.commit db (.loop ⟨rest, deferred⟩)
  | .filled db => s.commit db (.loop ⟨rest, deferred⟩)

/-- The steps of a call that nothing comes between are `execute_signal` as one function. -/
theorem executeSignal_run (pw : Py.DecPow) (tx : Py.Text) {s : Sys} {id : Nat}
    {rest : List Nat} {deferred : Bool} {sig : Signal}
    (pc : s.pc = .loop ⟨id :: rest, deferred⟩) (ready : Ready s id sig)
    (book feeInfo : String → Except Py.Exc Py.Json) :
    (∃ tr, Runs.Run (Step pw tx) s tr
      (s.executed sig rest deferred
        (executeSignal pw s.cfg s.clock s.clock s.view sig book feeInfo))) ∧
    ∀ db, executeSignal pw s.cfg s.clock s.clock s.view sig book feeInfo = .deferred db →
      (s.session.defer s.cfg sig.id).view s.db = db := by
  unfold executeSignal
  cases hgates : executeGates s.cfg s.clock s.view sig with
  | mk db gates =>
    cases gates with
    | raised => exact ⟨⟨_, .single (.bot _ _ (.raisedGates id rest deferred pc))⟩, by simp⟩
    | deferred =>
      refine ⟨⟨_, .single (.bot _ _ (.defer id rest deferred sig db pc ready hgates))⟩,
        fun db' h => ?_⟩
      rw [defer_view hgates]
      exact Executed.deferred.inj h
    | skip reason =>
      exact ⟨⟨_, .single (.bot _ _ (.skip id rest deferred sig reason db pc ready hgates))⟩, by simp⟩
    | request plan =>
      -- the session keeps the account row the gates created, so the later steps read `db`
      have hview := keep_view s.session s.db db (executeGates_request hgates).2.1
      obtain ⟨s₁, hs₁⟩ : ∃ s₁ : Sys, s₁ = { s with
          session := s.session.keep db, pc :=
            .awaitBook ⟨rest, deferred⟩ ⟨sig, s.clock, plan⟩ } := ⟨_, rfl⟩
      have hrequest : Runs.Run (Step pw tx) s [(.begin id, s₁)] s₁ := by
        rw [hs₁]
        exact .single (.bot _ _ (.request id rest deferred sig plan db pc ready hgates))
      have hpc : s₁.pc = .awaitBook ⟨rest, deferred⟩ ⟨sig, s.clock, plan⟩ := by rw [hs₁]
      have hview : s₁.view = db := by rw [hs₁]; exact hview
      have hcfg : s₁.cfg = s.cfg := by rw [hs₁]
      have hcommit : ∀ db pc, s₁.commit db pc = s.commit db pc := by intro db pc; rw [hs₁]; rfl
      dsimp only
      cases hbook : (book plan.tokenId).bind (afterBook s.cfg sig plan) with
      | error e =>
        have h : Bot pw s₁ .raised _ := .raisedBook _ _ hpc
        rw [hcommit, show s₁.db = s.db by rw [hs₁]] at h
        exact ⟨⟨_, hrequest.snoc _ _ (.bot _ _ h)⟩, by simp⟩
      | ok outcome =>
        obtain ⟨j, -, hj⟩ := Py.bind_ok hbook
        rw [← hcfg] at hj
        cases outcome with
        | skip reason evidence =>
          have h : Bot pw s₁ .book _ := .bookSkip _ _ j reason evidence hpc hj
          rw [hcommit, hview, hcfg] at h
          exact ⟨⟨_, hrequest.snoc _ _ (.bot _ _ h)⟩, by simp⟩
        | fill fill snapshot =>
          obtain ⟨s₂, hs₂⟩ : ∃ s₂ : Sys, s₂ = { s₁ with
              pc := .awaitFee ⟨rest, deferred⟩ ⟨sig, s.clock, plan⟩ fill snapshot } := ⟨_, rfl⟩
          have hfill : Bot pw s₁ .book s₂ := by
            rw [hs₂]
            exact .bookFill _ _ j fill snapshot hpc hj
          have hrun := hrequest.snoc _ _ (.bot _ _ hfill)
          have hpc₂ : s₂.pc = .awaitFee ⟨rest, deferred⟩ ⟨sig, s.clock, plan⟩ fill snapshot := by
            rw [hs₂]
          have hview₂ : s₂.view = db := by rw [hs₂]; exact hview
          have hcfg₂ : s₂.cfg = s.cfg := by rw [hs₂]; exact hcfg
          have hcommit₂ : ∀ db pc, s₂.commit db pc = s.commit db pc := by
            intro db pc; rw [hs₂]; exact hcommit db pc
          dsimp only
          cases hfee : (feeInfo plan.conditionId).bind (afterFee pw s.cfg plan fill) with
          | error e =>
            have h : Bot pw s₂ .raised _ := .raisedFee _ _ _ _ hpc₂
            rw [hcommit₂, show s₂.db = s.db by rw [hs₂, hs₁]] at h
            exact ⟨⟨_, hrun.snoc _ _ (.bot _ _ h)⟩, by simp⟩
          | ok outcome =>
            obtain ⟨k, -, hk⟩ := Py.bind_ok hfee
            rw [← hcfg₂] at hk
            cases outcome with
            | skip reason =>
              have h : Bot pw s₂ .fee _ := .feeSkip _ _ _ _ k reason hpc₂ hk
              rw [hcommit₂, hview₂, hcfg₂] at h
              exact ⟨⟨_, hrun.snoc _ _ (.bot _ _ h)⟩, by simp⟩
            | fill fee marketFee =>
              have h : Bot pw s₂ .fee _ := .feeFill _ _ _ _ k fee marketFee hpc₂ hk
              rw [hcommit₂, hview₂, hcfg₂, show s₂.clock = s.clock by rw [hs₂, hs₁]] at h
              exact ⟨⟨_, hrun.snoc _ _ (.bot _ _ h)⟩, by simp⟩

end Polycopy

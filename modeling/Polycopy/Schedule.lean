import Polycopy.Steps

/-!
# Executable schedules

`exec` takes the step a command asks for when the system can take it, and
`play` a list of them, so that a concrete history can be computed.  Every
history played is a run (`play_run`).
-/

namespace Polycopy

open Py

/-- A step together with what its environment chooses. -/
inductive Command
  | tick (d : Time)
  | ingestTrade (t : Trade)
  | ingestMarket (m : Market)
  | resolve (marketId : Nat) (winningOutcome : String)
  | addWallet (address : String)
  | transition (walletId : Nat) (action : TransitionAction)
  | verdict (verdict : String) (walletId : Nat)
  | settings (profitLimitUsd stopLossFloorUsd : Option ℚ)
  | detect | settle | select | begin
  | book (response : Json)
  | fee (response : Json)
  | raised | finish | sweep
  | crash (cfg : Settings)

/-- The rows a query gives when ties come in table order. -/
def queryRows {α : Type} (f : α → Time) (n : Nat) (found : List α) : List α :=
  (found.insertionSort fun a b => f a ≤ f b).take n

theorem queryRows_spec {α : Type} (f : α → Time) (n : Nat) (found : List α) :
    QueryRows f n found (queryRows f n found) :=
  have : Std.Total fun a b : α => f a ≤ f b := ⟨fun a b => le_total (f a) (f b)⟩
  have : IsTrans α fun a b => f a ≤ f b := ⟨fun _ _ _ h h' => le_trans h h'⟩
  ⟨_, List.perm_insertionSort _ found, List.pairwise_insertionSort _ found, rfl⟩

/-- A resolution as the refresh writes it to the market row. -/
def Market.resolved (winningOutcome : String) (m : Market) : Market :=
  { m with closed := true, resolvedOutcome := some winningOutcome }

def elsewhere (s : Sys) (db : Db) : Sys := { s with db := db }

def execBegin (s : Sys) : Option (Event × Sys) :=
  match s.pc with
  | .loop ⟨id :: rest, deferred⟩ => match s.view.signal id with
    | none => some (.begin id, { s with pc := .loop ⟨rest, deferred⟩ })
    | some sig =>
      if sig.status ≠ .pending then some (.begin id, { s with pc := .loop ⟨rest, deferred⟩ })
      else if s.clock < eligibleAt s.cfg sig ∧ s.cfg.orderKillSwitch = false then
        some (.begin id, { s with pc := .loop ⟨[], deferred⟩ })
      else match executeGates s.cfg s.clock s.view sig with
        | (_, .raised) => some (.raised, s.commit s.db (.loop ⟨rest, deferred⟩))
        | (db, .skip reason) => some (.begin id,
            s.commit (recordSkip s.cfg db sig reason s.clock none) (.loop ⟨rest, deferred⟩))
        | (_, .deferred) => some (.begin id,
            { s with session := s.session.defer s.cfg sig.id, pc := .loop ⟨rest, true⟩ })
        | (db, .request plan) => some (.begin id,
            { s with
              session := s.session.keep db
              pc := .awaitBook ⟨rest, deferred⟩ ⟨sig, s.clock, plan⟩ })
  | _ => none

def execBook (s : Sys) (response : Json) : Option (Event × Sys) :=
  match s.pc with
  | .awaitBook b f => match afterBook s.cfg f.signal f.plan response with
    | .error _ => some (.raised, s.commit s.db (.loop b))
    | .ok (.skip reason evidence) => some (.book,
        s.commit (recordSkip s.cfg s.view f.signal reason f.now (some evidence)) (.loop b))
    | .ok (.fill fill snapshot) => some (.book, { s with pc := .awaitFee b f fill snapshot })
  | _ => none

def execFee (pw : DecPow) (s : Sys) (response : Json) : Option (Event × Sys) :=
  match s.pc with
  | .awaitFee b f fill snapshot => match afterFee pw s.cfg f.plan fill response with
    | .error _ => some (.raised, s.commit s.db (.loop b))
    | .ok (.skip reason) => some (.fee,
        s.commit (recordSkip s.cfg s.view f.signal reason f.now
          (some (bookEvidence fill snapshot))) (.loop b))
    | .ok (.fill fee marketFee) => some (.fee,
        s.commit (commitFill s.cfg s.view f.signal f.now s.clock fill snapshot fee marketFee)
          (.loop b))
  | _ => none

def execRaised (s : Sys) : Option (Event × Sys) :=
  match s.pc with
  | .loop ⟨_ :: rest, deferred⟩ => some (.raised, s.commit s.db (.loop ⟨rest, deferred⟩))
  | .awaitBook b _ => some (.raised, s.commit s.db (.loop b))
  | .awaitFee b _ _ _ => some (.raised, s.commit s.db (.loop b))
  | _ => none

def exec (pw : DecPow) (tx : Text) (s : Sys) : Command → Option (Event × Sys)
  | .tick d => if 0 ≤ d then some (.tick, { s with clock := s.clock + d }) else none
  | .ingestTrade t =>
    if (∀ t' ∈ s.db.trades, t'.id ≠ t.id) ∧
        (∀ t' ∈ s.db.trades, t'.polymarketTradeId ≠ t.polymarketTradeId) ∧
        t.ingestedAt ≤ s.clock then
      some (.ingestTrade, elsewhere s { s.db with trades := s.db.trades ++ [t] })
    else none
  | .ingestMarket m =>
    if (∀ m' ∈ s.db.markets, m'.id ≠ m.id) ∧ ∀ m' ∈ s.db.markets,
      m'.conditionId ≠ m.conditionId then
      some (.ingestMarket, elsewhere s { s.db with markets := s.db.markets ++ [m] })
    else none
  | .resolve id winner =>
    if (s.db.market id).isSome ∧ s.db.settlement id = none then
      some (.resolve id, elsewhere s { updateMarket id (Market.resolved winner) s.db with
        settlements := s.db.settlements ++ [⟨id, winner⟩] })
    else none
  | .addWallet address => match addWallet tx address none s.db with
    | .ok db => some (.addWallet, elsewhere s db)
    | .error _ => none
  | .transition walletId action => match transitionWallet s.clock walletId action s.db with
    | .ok db => some (.transition walletId action, elsewhere s db)
    | .error _ => none
  | .verdict verdict walletId => match applyVerdict s.clock verdict walletId s.db with
    | .ok db => some (.verdict, elsewhere s db)
    | .error _ => none
  | .settings profitLimitUsd stopLossFloorUsd =>
    if s.db.account.isSome ∨ s.session.account.isNone then
      some (.settings,
        elsewhere s (updateBankrollSettings s.cfg profitLimitUsd stopLossFloorUsd s.db))
    else none
  | .detect => match s.pc with
    | .idle => if paperOnly s.cfg then
        some (.detect, s.commit (detectSignals s.db (queryRows Trade.ingestedAt
          s.cfg.signalDetectionBatchSize (detectable s.db))) (.settling s.clock))
      else none
    | _ => none
  | .settle => match s.pc with
    | .settling startedAt =>
      some (.settle,
        s.commit (settlePaperPositions s.cfg startedAt s.db (settleRows s.db)) .selecting)
    | _ => none
  | .select => match s.pc with
    | .selecting =>
      some (.select, { s with pc := .loop ⟨(queryRows Signal.t1DetectedAt s.cfg.executionBatchSize
        (s.db.signals.filter fun sig => sig.status = .pending)).map Signal.id, false⟩ })
    | _ => none
  | .begin => execBegin s
  | .book response => execBook s response
  | .fee response => execFee pw s response
  | .raised => execRaised s
  | .finish => match s.pc with
    | .loop ⟨[], true⟩ => some (.finish, s.commit s.view .sweeping)
    | .loop ⟨[], false⟩ => some (.finish, { s with pc := .sweeping })
    | _ => none
  | .sweep => match s.pc with
    | .sweeping => some (.sweep, s.commit (if 0 < (sweepProfitIfDue s.cfg s.view).2
        then (sweepProfitIfDue s.cfg s.view).1 else s.db) .idle)
    | _ => none
  | .crash cfg => some (.crash, { s with cfg := cfg, session := Session.empty, pc := .idle })

/-- The trace a list of commands leaves, if every one of them can be carried out. -/
def play (pw : DecPow) (tx : Text) : Sys → List Command → Option (List (Event × Sys))
  | _, [] => some []
  | s, c :: rest => match exec pw tx s c with
    | none => none
    | some x => (play pw tx x.2 rest).map (x :: ·)

/-! ## Soundness -/

theorem execBegin_step {pw : DecPow} {s : Sys} {x : Event × Sys} (h : execBegin s = some x) :
    Bot pw s x.1 x.2 := by
  unfold execBegin at h
  split at h
  · next id rest deferred hpc =>
    split at h
    · next hrow =>
      obtain rfl := Option.some.inj h
      exact .passOver id rest deferred hpc fun sig hsig => by rw [hrow] at hsig; cases hsig
    · next sig hrow =>
      split at h
      · next hst =>
        obtain rfl := Option.some.inj h
        refine .passOver id rest deferred hpc fun sig' hsig => ?_
        rw [hrow] at hsig
        obtain rfl := Option.some.inj hsig
        exact hst
      · next hst =>
        split at h
        · next hearly =>
          obtain rfl := Option.some.inj h
          exact .stop id rest deferred sig hpc hrow hearly.1 hearly.2
        · next hdue =>
          have ready : Ready s id sig := by
            refine ⟨hrow, not_not.mp hst, ?_⟩
            rw [not_and_or, not_lt, Bool.not_eq_false] at hdue
            exact hdue
          split at h
          · obtain rfl := Option.some.inj h
            exact .raisedGates id rest deferred hpc
          · next db reason hg =>
            obtain rfl := Option.some.inj h
            exact .skip id rest deferred sig reason db hpc ready hg
          · next db hg =>
            obtain rfl := Option.some.inj h
            exact .defer id rest deferred sig db hpc ready hg
          · next db plan hg =>
            obtain rfl := Option.some.inj h
            exact .request id rest deferred sig plan db hpc ready hg
  · cases h

theorem execBook_step {pw : DecPow} {s : Sys} {response : Json} {x : Event × Sys}
    (h : execBook s response = some x) : Bot pw s x.1 x.2 := by
  unfold execBook at h
  split at h
  · next b f hpc =>
    split at h
    · obtain rfl := Option.some.inj h
      exact .raisedBook b f hpc
    · next reason evidence hr =>
      obtain rfl := Option.some.inj h
      exact .bookSkip b f response reason evidence hpc hr
    · next fill snapshot hr =>
      obtain rfl := Option.some.inj h
      exact .bookFill b f response fill snapshot hpc hr
  · cases h

theorem execFee_step {pw : DecPow} {s : Sys} {response : Json} {x : Event × Sys}
    (h : execFee pw s response = some x) : Bot pw s x.1 x.2 := by
  unfold execFee at h
  split at h
  · next b f fill snapshot hpc =>
    split at h
    · obtain rfl := Option.some.inj h
      exact .raisedFee b f fill snapshot hpc
    · next reason hr =>
      obtain rfl := Option.some.inj h
      exact .feeSkip b f fill snapshot response reason hpc hr
    · next fee marketFee hr =>
      obtain rfl := Option.some.inj h
      exact .feeFill b f fill snapshot response fee marketFee hpc hr
  · cases h

theorem execRaised_step {pw : DecPow} {s : Sys} {x : Event × Sys} (h : execRaised s = some x) :
    Bot pw s x.1 x.2 := by
  unfold execRaised at h
  split at h
  · next id rest deferred hpc =>
    obtain rfl := Option.some.inj h
    exact .raisedGates id rest deferred hpc
  · next b f hpc =>
    obtain rfl := Option.some.inj h
    exact .raisedBook b f hpc
  · next b f fill snapshot hpc =>
    obtain rfl := Option.some.inj h
    exact .raisedFee b f fill snapshot hpc
  · cases h

/-- Every command carried out is a step. -/
theorem exec_step {pw : DecPow} {tx : Text} {s : Sys} {c : Command} {x : Event × Sys}
    (h : exec pw tx s c = some x) : Step pw tx s x.1 x.2 := by
  cases c with
  | tick d =>
    dsimp only [exec] at h
    split at h
    · next hd => obtain rfl := Option.some.inj h; exact .tick d hd
    · cases h
  | ingestTrade t =>
    dsimp only [exec] at h
    split at h
    · next ht =>
      obtain rfl := Option.some.inj h
      exact .elsewhere _ _ (.ingestTrade s.db t ht.1 ht.2.1 ht.2.2) fun he => by cases he
    · cases h
  | ingestMarket m =>
    dsimp only [exec] at h
    split at h
    · next hm =>
      obtain rfl := Option.some.inj h
      exact .elsewhere _ _ (.ingestMarket s.db m hm.1 hm.2) fun he => by cases he
    · cases h
  | resolve id winner =>
    dsimp only [exec] at h
    split at h
    · next hr =>
      obtain rfl := Option.some.inj h
      exact .elsewhere _ _ (.resolve s.db id winner (Market.resolved winner) (fun _ => ⟨rfl, rfl⟩)
        (fun _ => rfl) hr.1 hr.2) fun he => by cases he
    · cases h
  | addWallet address =>
    dsimp only [exec] at h
    split at h
    · next db hdb =>
      obtain rfl := Option.some.inj h
      exact .elsewhere _ _ (.addWallet s.db db address none hdb) fun he => by cases he
    · cases h
  | transition walletId action =>
    dsimp only [exec] at h
    split at h
    · next db hdb =>
      obtain rfl := Option.some.inj h
      exact .elsewhere _ _ (.transition s.db db walletId action hdb) fun he => by cases he
    · cases h
  | verdict verdict walletId =>
    dsimp only [exec] at h
    split at h
    · next db hdb =>
      obtain rfl := Option.some.inj h
      exact .elsewhere _ _ (.verdict s.db db verdict walletId hdb) fun he => by cases he
    · cases h
  | settings p l =>
    dsimp only [exec] at h
    split at h
    · next hs =>
      obtain rfl := Option.some.inj h
      refine .elsewhere _ _ (.settings s.db p l) fun _ hn => ?_
      rcases hs with hs | hs
      · rw [hn] at hs; cases hs
      · exact Option.isNone_iff_eq_none.mp hs
    · cases h
  | detect =>
    dsimp only [exec] at h
    split at h
    · next hpc =>
      split at h
      · next hp =>
        obtain rfl := Option.some.inj h
        exact .bot _ _ (.detect _ hpc hp (queryRows_spec _ _ _))
      · cases h
    · cases h
  | settle =>
    dsimp only [exec] at h
    split at h
    · next startedAt hpc =>
      obtain rfl := Option.some.inj h
      exact .bot _ _ (.settle startedAt _ hpc (List.Perm.refl _))
    · cases h
  | select =>
    dsimp only [exec] at h
    split at h
    · next hpc =>
      obtain rfl := Option.some.inj h
      exact .bot _ _ (.select _ hpc (queryRows_spec _ _ _))
    · cases h
  | begin => exact .bot _ _ (execBegin_step h)
  | book response => exact .bot _ _ (execBook_step h)
  | fee response => exact .bot _ _ (execFee_step h)
  | raised => exact .bot _ _ (execRaised_step h)
  | finish =>
    dsimp only [exec] at h
    split at h
    · next hpc => obtain rfl := Option.some.inj h; exact .bot _ _ (.finishDeferred hpc)
    · next hpc => obtain rfl := Option.some.inj h; exact .bot _ _ (.finish hpc)
    · cases h
  | sweep =>
    dsimp only [exec] at h
    split at h
    · next hpc => obtain rfl := Option.some.inj h; exact .bot _ _ (.sweep hpc)
    · cases h
  | crash cfg =>
    dsimp only [exec] at h
    obtain rfl := Option.some.inj h
    exact .crash cfg

/-- The state after a trace. -/
def lastState (s : Sys) (tr : List (Event × Sys)) : Sys := ((tr.getLast?).map Prod.snd).getD s

theorem lastState_cons (s : Sys) (x : Event × Sys) (tr : List (Event × Sys)) :
    lastState s (x :: tr) = lastState x.2 tr := by
  unfold lastState
  cases tr with
  | nil => rfl
  | cons y tr => rw [List.getLast?_cons_cons, List.getLast?_cons]; rfl

theorem play_run {pw : DecPow} {tx : Text} (cs : List Command) :
    ∀ (s : Sys) (tr : List (Event × Sys)), play pw tx s cs = some tr →
      Runs.Run (Step pw tx) s tr (lastState s tr) := by
  induction cs with
  | nil =>
    intro s tr h
    obtain rfl := Option.some.inj h
    exact .nil
  | cons c rest ih =>
    intro s tr h
    unfold play at h
    split at h
    · cases h
    · next x hx =>
      obtain ⟨tr', htr', rfl⟩ := Option.map_eq_some_iff.mp h
      rw [lastState_cons]
      exact (Runs.Run.single (exec_step hx)).trans (ih x.2 tr' htr')

/-- A played history from the empty database is a run of the system. -/
theorem play_sysRun {pw : DecPow} {tx : Text} {cfg : Settings} {t0 : Time} {cs : List Command}
    {tr : List (Event × Sys)} (h : play pw tx (Sys.init cfg t0) cs = some tr) :
    SysRun pw tx cfg t0 tr (lastState (Sys.init cfg t0) tr) := play_run cs _ _ h

/-! ## A small world to play in -/

def liveSettings : Settings := { orderKillSwitch := false }

def sampleMarket (id : Nat) (conditionId : String) : Market :=
  ⟨id, conditionId, "", .null, none, .null, true, false, none, none, none, 0⟩

/-- A trade of wallet 1, traded and ingested at once. -/
def sampleTrade (id : Nat) (key : String) (marketId : Nat) (side : Side) (time : Time) : Trade :=
  ⟨id, key, marketId, 1, some "token", side, "Yes", 20, 1 / 2, time, time⟩

/-- One level of 100 shares at a price, on both sides. -/
def flatBook (price : String) : Json :=
  let levels : Json := .arr [.obj [("price", .str price), ("size", .str "100")]]
  .obj [("bids", levels), ("asks", levels)]

def noFee : Json := .obj []

/-- Market info with a linear fee curve. -/
def feeRate (rate : String) : Json := .obj [("fd", .obj [("r", .num rate), ("e", .num "1")])]

/-- Wallet 1 is added, reviewed and approved; market 1 exists. -/
def enrol : List Command :=
  [.addWallet "0xw", .verdict "pending_review" 1, .transition 1 .approve,
    .ingestMarket (sampleMarket 1 "0xm")]

def startCycle : List Command := [.detect, .settle, .select]

def fillNext (price : String) (feeInfo : Json) : List Command :=
  [.begin, .book (flatBook price), .fee feeInfo]

def endCycle : List Command := [.finish, .sweep]

/-- The states of a played history from the empty database; none if a command
cannot be carried out. -/
def history (cfg : Settings) (cs : List Command) : Option (List (Event × Sys)) :=
  play natPow Text.plain (Sys.init cfg 0) cs

def outcome (cfg : Settings) (cs : List Command) : Sys :=
  lastState (Sys.init cfg 0) ((history cfg cs).getD [])

theorem history_run {cfg : Settings} {cs : List Command} (h : (history cfg cs).isSome = true) :
    SysRun natPow Text.plain cfg 0 ((history cfg cs).getD []) (outcome cfg cs) := by
  obtain ⟨tr, htr⟩ := Option.isSome_iff_exists.mp h
  unfold outcome
  rw [htr]
  exact play_sysRun htr

/-- The state after a command, and the trace of the commands after a state. -/
def next (s : Sys) (c : Command) : Sys := ((exec natPow Text.plain s c).map Prod.snd).getD s

def continued (s : Sys) (cs : List Command) : List (Event × Sys) :=
  (play natPow Text.plain s cs).getD []

theorem next_step {s : Sys} {c : Command} {e : Event}
    (h : (exec natPow Text.plain s c).map Prod.fst = some e) :
    Step natPow Text.plain s e (next s c) := by
  obtain ⟨x, hx, rfl⟩ := Option.map_eq_some_iff.mp h
  unfold next
  rw [hx]
  exact exec_step hx

theorem continued_run {s : Sys} {cs : List Command}
    (h : (play natPow Text.plain s cs).isSome = true) :
    Runs.Run (Step natPow Text.plain) s (continued s cs) (lastState s (continued s cs)) := by
  obtain ⟨tr, htr⟩ := Option.isSome_iff_exists.mp h
  unfold continued
  rw [htr]
  exact play_run cs _ _ htr

/-- A BUY and a SELL of ten dollars at the same price leave the bankroll where it was. -/
example : (accountOf liveSettings (outcome liveSettings (enrol ++
    [.ingestTrade (sampleTrade 1 "a" 1 .buy 0), .ingestTrade (sampleTrade 2 "b" 1 .sell 0)] ++
    startCycle ++ [.tick 30] ++ fillNext "0.5" noFee ++ fillNext "0.5" noFee ++
      endCycle)).db).balance = 200 := by
  decide +kernel

end Polycopy

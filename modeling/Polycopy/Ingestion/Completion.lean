import Polycopy.Ingestion.Pending

/-!
# A catch-up comes to its end

From any state a run can reach, and with no more arrivals and no failure from there on, the
cycles of an approved wallet come to a checkpoint that is complete (`catch_up_completes`).
What is left of a window is counted in three digits: the trades above its anchor, those up
to the timestamp it is frozen at, and those its offset has not passed.  A page lowers the
last one, rolling the window the second, going on to the next window the first.
-/

namespace Polycopy

open Py Feed Runs

variable {tx : Text} {wallet : Wallet}

/-! ## Runs without arrivals and failures -/

def Approved (wallet : Wallet) (w : World tx) : Prop :=
  ∃ row, w.own.db.wallet wallet.id = some row ∧ row.approvalState = .approved

def WorldEvent.smooth : WorldEvent → Prop
  | .arrive => False
  | .own .crash => False
  | .own (.fetch _) => False
  | _ => True

structure SmoothStep (wallet : Wallet) (w : World tx) (e : WorldEvent) (w' : World tx) : Prop where
  step : WorldStep wallet w e w'
  smooth : e.smooth
  approved : Approved wallet w'
  adopts : Adopts wallet w e w'

/-- A step of the wallet's own cycle. -/
def WorldEvent.counts : WorldEvent → Bool
  | .elsewhere => false
  | _ => true

/-- Between two cycles, with a complete checkpoint. -/
def CaughtUp (wallet : Wallet) (w : World tx) : Prop :=
  (∃ result, w.own.pc = .idle result) ∧
    ∃ r, (w.own.db.catchUps wallet.id).getLast? = some r ∧ r.catchUpIncomplete = false

/-! ## What is left -/

namespace Source

def windowLeft (source : Source tx) (w : Window) : Nat :=
  let n := source.entries.length
  let up := source.upTo (w.endTimestamp.getD 0)
  ((n - source.rank (w.anchorId.getD "")) * (n + 1) + up) * (n + 1) + (up - w.nextOffset)

/-- More than is left of any window. -/
def most (source : Source tx) : Nat := (source.entries.length + 1) ^ 3

def recordLeft (source : Source tx) (last : Option CatchUpRecord) : Nat :=
  if last.any CatchUpRecord.catchUpIncomplete then source.windowLeft (.ofPrior last)
  else source.most

def left (source : Source tx) (last : Option CatchUpRecord) : CatchUpPc → Nat
  | .checkpoint c _ _ => if c.incomplete then source.windowLeft c.window else 0
  | .turn c _ => source.windowLeft c.window
  | .awaitPage c _ _ _ => source.windowLeft c.window
  | .storePage c _ _ _ _ => source.windowLeft c.window
  | _ => source.recordLeft last

end Source

def After.steps : After → Nat
  | .done => 12
  | .turn 0 => 12
  | .turn (_ + 1) => 5
  | .page _ _ _ => 3

/-- At most so many steps to the end of the next page. -/
def CatchUpPc.steps : CatchUpPc → Nat
  | .idle _ => 11
  | .selecting _ _ => 10
  | .anchoring _ _ _ => 9
  | .awaitLatest _ => 8
  | .storeLatest _ => 7
  | .checkpoint _ _ after => after.steps
  | .turn _ _ => 4
  | .awaitPage _ _ _ _ => 2
  | .storePage _ _ _ _ _ => 1

def World.rank (wallet : Wallet) (w : World tx) : Nat :=
  w.source.left (w.own.db.catchUps wallet.id).getLast? w.own.pc * 13 + w.own.pc.steps

section

variable {source : Source tx} {w w' : Window}

theorem lex_lt {x y p q b : Nat} (h : x < y) (hp : p < b) : x * b + p < y * b + q := by
  calc x * b + p < x * b + b := Nat.add_lt_add_left hp _
    _ = (x + 1) * b := (Nat.succ_mul x b).symm
    _ ≤ y * b := Nat.mul_le_mul_right b h
    _ ≤ y * b + q := Nat.le_add_right _ _

theorem windowLeft_lt_most (source : Source tx) (w : Window) :
    source.windowLeft w < source.most := by
  have hup := Log.upTo_le source (w.endTimestamp.getD 0)
  have hhigh : (source.entries.length - source.rank (w.anchorId.getD "")) *
      (source.entries.length + 1) +
      source.upTo (w.endTimestamp.getD 0) < (source.entries.length + 1) *
        (source.entries.length + 1) + 0 :=
    lex_lt (by omega) (by omega)
  have hall := lex_lt (q := 0) hhigh
    (by omega : source.upTo (w.endTimestamp.getD 0) - w.nextOffset < source.entries.length + 1)
  unfold Source.windowLeft Source.most
  rw [pow_succ, pow_two]
  exact hall

/-- Further down in the same window. -/
theorem windowLeft_page (hanchor : w'.anchorId = w.anchorId)
    (hend : w'.endTimestamp = w.endTimestamp) (hoff : w.nextOffset < w'.nextOffset)
    (hbelow : w.nextOffset < source.upTo (w.endTimestamp.getD 0)) :
    source.windowLeft w' < source.windowLeft w := by
  unfold Source.windowLeft
  rw [hanchor, hend]
  exact Nat.add_lt_add_left (by omega) _

/-- From an older timestamp on. -/
theorem windowLeft_roll (hanchor : w'.anchorId = w.anchorId)
    (hup : source.upTo (w'.endTimestamp.getD 0) < source.upTo (w.endTimestamp.getD 0)) :
    source.windowLeft w' < source.windowLeft w := by
  have hle := Log.upTo_le source (w'.endTimestamp.getD 0)
  unfold Source.windowLeft
  rw [hanchor]
  exact lex_lt (Nat.add_lt_add_left hup _) (by omega)

/-- Down to a younger anchor. -/
theorem windowLeft_next {k k' : String} {a h : Nat} (hk : w.anchorId = some k) (ha : source.At k a)
    (hk' : w'.anchorId = some k') (hh : source.At k' h) (hlt : a < h) :
    source.windowLeft w' < source.windowLeft w := by
  have hle := Log.upTo_le source (w'.endTimestamp.getD 0)
  have hlen := hh.lt
  unfold Source.windowLeft
  rw [hk, hk', Option.getD_some, Option.getD_some, ha.rank, hh.rank]
  exact lex_lt (lex_lt (by omega) (by omega)) (by omega)

theorem Standing.windowLeft_pos {head : Option String} {a h : Nat} {e : Int}
    (st : Standing source w head a h e) :
    0 < source.windowLeft w := by
  have hbelow := st.below
  have hleft : 0 < source.upTo e - w.nextOffset := by omega
  unfold Source.windowLeft
  rw [st.frozen, Option.getD_some]
  exact Nat.lt_of_lt_of_le hleft (Nat.le_add_left _ _)

theorem recordLeft_le (source : Source tx) (last : Option CatchUpRecord) :
    source.recordLeft last ≤ source.most := by
  unfold Source.recordLeft
  split
  · exact Nat.le_of_lt (windowLeft_lt_most source _)
  · exact Nat.le_refl _

theorem left_le (source : Source tx) (last : Option CatchUpRecord) (pc : CatchUpPc) :
    source.left last pc ≤ source.most := by
  cases pc with
  | checkpoint c reason after =>
    show (if c.incomplete then _ else 0) ≤ _
    split
    · exact Nat.le_of_lt (windowLeft_lt_most source _)
    · exact Nat.zero_le _
  | turn | awaitPage | storePage => exact Nat.le_of_lt (windowLeft_lt_most source _)
  | idle | selecting | anchoring | awaitLatest | storeLatest => exact recordLeft_le source last

theorem steps_lt (pc : CatchUpPc) : pc.steps < 13 := by
  cases pc with
  | checkpoint c reason after =>
    cases after with
    | turn left =>
      cases left with
      | zero => exact (by decide : 12 < 13)
      | succ left => exact (by decide : 5 < 13)
    | done => exact (by decide : 12 < 13)
    | page => exact (by decide : 3 < 13)
  | _ => simp [CatchUpPc.steps]

theorem World.rank_le (wallet : Wallet) (w : World tx) : w.rank wallet ≤ w.source.most * 13 + 12 :=
  Nat.add_le_add (Nat.mul_le_mul_right 13 (left_le _ _ _)) (Nat.le_of_lt_succ (steps_lt _))

/-! ## Each step lowers it -/

theorem rank_lt {x y p q : Nat} (h : x < y) (hp : p < 13) : x * 13 + p < y * 13 + q := lex_lt h hp

variable {last : Option CatchUpRecord} {c : Cycle} {pc : CatchUpPc}

theorem left_open (hi : c.incomplete = true) (reason : String) (after : After) :
    source.left last (.checkpoint c reason after) = source.windowLeft c.window := if_pos hi

theorem left_closed (hi : c.incomplete = false) (reason : String) (after : After) :
    source.left last (.checkpoint c reason after) = 0 := if_neg (Bool.eq_false_iff.mp hi)

/-- A checkpoint of an open window leaves what the window does. -/
theorem recordLeft_open (hi : c.incomplete = true) (wallet : Wallet) (reason : String) :
    source.recordLeft (some (c.record wallet reason)) = source.windowLeft c.window := by
  have hrecord : (some (c.record wallet reason)).any CatchUpRecord.catchUpIncomplete = true := hi
  unfold Source.recordLeft
  rw [hrecord, if_pos rfl]
  simp only [Cycle.record, Window.ofPrior, hi, if_true]

theorem Fetched.recordLeft (h : Fetched source last c) :
    source.recordLeft last = if c.incomplete then source.windowLeft c.window else source.most := by
  unfold Source.recordLeft
  rw [h.reopened, h.window, h.prior]

theorem Fetched.recordLeft_pos (h : Fetched source last c) : 0 < source.recordLeft last := by
  rw [h.recordLeft]
  split
  · next hi =>
    rcases h.shows with ⟨-, -, -, hclosed⟩ | ⟨l, -, hfacing⟩
    · exact absurd (hi.symm.trans hclosed) nofun
    · obtain ⟨-, a, hd, e, st, -⟩ := hfacing hi
      exact st.windowLeft_pos
  · exact Nat.pow_pos (Nat.succ_pos _)

theorem LatestStored.lower (h : LatestStored source c pc) (hf : Fetched source last c) :
    (∃ result p, pc = .idle result ∧ last = some p ∧ p.catchUpIncomplete = false) ∨
      source.left last pc * 13 + pc.steps < source.recordLeft last * 13 + 7 := by
  cases h with
  | window c' chasing same =>
    right
    rw [left_open chasing.incomplete, hf.recordLeft]
    split
    · next hi =>
      have hsteps : (After.turn c.budget).steps = 5 := by
        obtain ⟨n, hn⟩ := Nat.exists_eq_add_of_le' hf.budget
        rw [hn]
        rfl
      rw [same hi]
      show _ + (After.turn c.budget).steps < _
      omega
    · exact rank_lt (windowLeft_lt_most source _) (steps_lt _)
  | closed c' reason closed knows goes =>
    right
    rw [left_closed closed]
    exact rank_lt hf.recordLeft_pos (steps_lt _)
  | kept prior closed =>
    left
    obtain ⟨p, hp⟩ := Option.isSome_iff_exists.mp prior
    refine ⟨_, p, rfl, hf.prior.symm.trans hp, ?_⟩
    have hreopened := hf.reopened
    rw [closed, hp] at hreopened
    exact hreopened.symm

theorem TurnTaken.lower {left : Nat} {row : Wallet}
    (h : TurnTaken source c left (some row) pc) (hc : Chasing source c)
    (happroved : row.approvalState = .approved) (hsparse : source.Sparse) :
    source.left last pc * 13 + pc.steps < source.windowLeft c.window * 13 + 4 := by
  cases h with
  | page e here =>
    show source.windowLeft c.window * 13 + 2 < _
    omega
  | rolled oldest chasing older =>
    obtain ⟨l, -, -, a, hd, e, st, -⟩ := hc.facing
    obtain ⟨t, ht, hte⟩ := st.stamp
    obtain ⟨r, hr⟩ := List.getElem?_of_mem ht
    rw [left_open chasing.incomplete]
    refine rank_lt (windowLeft_roll rfl ?_) (steps_lt _)
    rw [st.frozen]
    refine Log.upTo_lt_upTo hr ?_ (le_of_eq hte)
    rw [hte]
    exact older e st.frozen
  | disabled row' found off =>
    obtain rfl := Option.some.inj found
    exact absurd happroved off
  | stalled crowded => exact absurd hsparse crowded

theorem PageStored.lower {left : Nat} (h : PageStored source c left pc) (hc : Chasing source c) :
    source.left last pc * 13 + pc.steps < source.windowLeft c.window * 13 + 1 := by
  obtain ⟨l, -, -, a, hd, e, st, -⟩ := hc.facing
  cases h with
  | next c' opened ahead a h k k' reached low aim high order =>
    rw [left_open opened]
    exact rank_lt (windowLeft_next reached low aim high order) (steps_lt _)
  | closed c' closed knows =>
    rw [left_closed closed]
    exact rank_lt st.windowLeft_pos (steps_lt _)
  | more c' chasing anchor frozen farther =>
    rw [left_open chasing.incomplete]
    refine rank_lt (windowLeft_page anchor frozen farther ?_) (steps_lt _)
    have hbelow := st.below
    rw [st.frozen, Option.getD_some]
    omega

end

/-! ## Nothing fails on the rows of the source -/

theorem keyRows_source (rows : List (SourceTrade tx))
    (acc : List (String × Json) × List Quarantined) :
    ∃ acc', (rows.map SourceTrade.raw).foldlM (keyRow tx) acc = .ok acc' := by
  induction rows generalizing acc with
  | nil => exact ⟨acc, rfl⟩
  | cons t rows ih =>
    obtain ⟨acc', hacc'⟩ := ih (setDefault t.key t.raw acc.1, acc.2)
    have hrow : keyRow tx acc t.raw = .ok (setDefault t.key t.raw acc.1, acc.2) := by
      unfold keyRow
      rw [t.identified]
    refine ⟨acc', ?_⟩
    rw [List.map_cons, List.foldlM_cons, hrow]
    exact hacc'

theorem ingestTradeRows_source (env : PageEnv) (walletId : Nat)
    (rows : List (SourceTrade tx)) (db : Db) :
    ∃ r, ingestTradeRows tx env true walletId (rows.map SourceTrade.raw) db = .ok r := by
  obtain ⟨acc', hacc'⟩ := keyRows_source rows ([], [])
  unfold ingestTradeRows
  rw [hacc']
  exact ⟨_, rfl⟩

theorem gotLatest_source (b : Baseline) (source : Source tx) :
    ∃ pc, gotLatest tx b (source.getTrades ⟨b.size, 0, none, none⟩) = .ok pc := by
  rw [getTrades_latest]
  unfold gotLatest
  rw [keys_raw]
  exact ⟨_, rfl⟩

theorem gotPage_source (source : Source tx) (r : TradesRequest) :
    ∃ pageKeys, keys tx (source.getTrades r) = .ok pageKeys := by
  unfold Source.getTrades
  rw [keys_raw]
  exact ⟨_, rfl⟩

section

variable {c : Cycle} {rows : List (SourceTrade tx)}

theorem storedLatest_source (hrows : c.latest = rows.map SourceTrade.raw) (now : Time) :
    ∃ pc, storedLatest c now = .ok pc := by
  obtain ⟨e, he⟩ := newestTimestamp_raw rows now
  unfold storedLatest
  rw [Cycle.moveHead_eq]
  dsimp only
  split
  · rw [hrows, he]
    exact ⟨_, rfl⟩
  · split
    · exact ⟨_, rfl⟩
    · split
      · exact ⟨_, rfl⟩
      · exact ⟨_, rfl⟩

theorem storedPage_source (hrows : c.latest = rows.map SourceTrade.raw) (left offset : Nat)
    (page : List (SourceTrade tx)) (pageKeys : List String) (now : Time) :
    ∃ pc, storedPage c left offset (page.map SourceTrade.raw) pageKeys now = .ok pc := by
  obtain ⟨e, he⟩ := newestTimestamp_raw rows now
  rw [← hrows] at he
  unfold storedPage
  rw [times_raw]
  dsimp only [bind, Except.bind]
  split
  · split
    · rw [he]
      exact ⟨_, rfl⟩
    · exact ⟨_, rfl⟩
  · split
    · exact ⟨_, rfl⟩
    · exact ⟨_, rfl⟩

theorem takeTurn_source {source : Source tx} (h : Chasing source c) (left : Nat) (row : Wallet) :
    ∃ pc, takeTurn c left (some row) = .ok pc := by
  obtain ⟨l, -, -, a, hd, e, st, -⟩ := h.facing
  have hend : c.endTimestamp = .ok e := by
    unfold Cycle.endTimestamp
    rw [st.frozen]
  unfold takeTurn
  rw [hend]
  dsimp only
  split
  · exact ⟨_, rfl⟩
  · split
    · split
      · exact ⟨_, rfl⟩
      · exact ⟨_, rfl⟩
    · exact ⟨_, rfl⟩

end

/-! ## A step of the cycle -/

section

variable {w : World tx}

/-- A call of `ingest_trade_rows` on rows of the source goes through, and so
does what follows it. -/
theorem store_source (s : CatchUp) (env : PageEnv) (walletId : Nat) (rows : List (SourceTrade tx))
    (after : Ingested → Except Exc CatchUpPc) (hafter : ∀ r, ∃ p, after r = .ok p) :
    ∃ r, after r = .ok (s.store tx env walletId (rows.map SourceTrade.raw) after).pc ∧
      (s.store tx env walletId (rows.map SourceTrade.raw) after).db.catchUps walletId =
        s.db.catchUps walletId := by
  obtain ⟨r, hr⟩ := ingestTradeRows_source env walletId rows s.db
  obtain ⟨p, hp⟩ := hafter r
  refine ⟨r, ?_⟩
  unfold CatchUp.store
  rw [hr]
  dsimp only
  rw [hp]
  exact ⟨rfl, catchUps_written (ingestTradeRows_ok hr).1 walletId⟩

theorem Fetched.source_rows {last : Option CatchUpRecord} {c : Cycle} {source : Source tx}
    (h : Fetched source last c) :
    ∃ rows : List (SourceTrade tx), c.latest = rows.map SourceTrade.raw := by
  rcases h.shows with ⟨hnil, -⟩ | ⟨l, hs, -⟩
  · exact ⟨[], hnil⟩
  · exact hs.rows

/-- A commit leaves the rank of where the cycle resumes. -/
theorem resume_lower (wallet : Wallet) {source : Source tx} {last : Option CatchUpRecord}
    {c : Cycle} {reason : String} {after : After}
    (h : Fits source last (.checkpoint c reason after)) :
    (∃ result, resume c after = .idle result ∧ c.incomplete = false) ∨
      source.left (some (c.record wallet reason)) (resume c after) * 13 + (resume c after).steps <
        source.left last (.checkpoint c reason after) * 13 + after.steps := by
  cases hi : c.incomplete with
  | true =>
    right
    have hrecord : source.recordLeft (some (c.record wallet reason)) = source.windowLeft c.window :=
      recordLeft_open hi wallet reason
    rw [left_open hi]
    cases after with
    | done =>
      show source.recordLeft _ * 13 + 11 < _ * 13 + 12
      rw [hrecord]
      omega
    | turn left =>
      cases left with
      | zero =>
        show source.recordLeft _ * 13 + 11 < _ * 13 + 12
        rw [hrecord]
        omega
      | succ left =>
        show source.windowLeft c.window * 13 + 4 < _ * 13 + 5
        omega
    | page left offset e =>
      show source.windowLeft c.window * 13 + 2 < _ * 13 + 3
      omega
  | false =>
    left
    cases after with
    | done => exact ⟨_, rfl, rfl⟩
    | turn left => exact absurd (hi.symm.trans (Chasing.incomplete h.2)) nofun
    | page left offset e => exact absurd (hi.symm.trans h.2.1.incomplete) nofun

/-- With the same checkpoints, the rank goes by where the cycle stands. -/
theorem World.rank_lt_of {own : CatchUp} {pc : CatchUpPc} (here : w.own.pc = pc)
    (hlog : own.db.catchUps wallet.id = w.own.db.catchUps wallet.id)
    (hlt : w.source.left (w.own.db.catchUps wallet.id).getLast? own.pc * 13 + own.pc.steps <
      w.source.left (w.own.db.catchUps wallet.id).getLast? pc * 13 + pc.steps) :
    World.rank wallet { w with own := own } < w.rank wallet := by
  unfold World.rank
  dsimp only
  rw [hlog, here]
  exact hlt

theorem Pursuing.own_lower (h : Pursuing wallet w) (hsparse : w.source.Sparse)
    (happroved : Approved wallet w) {e : CatchUpEvent} {own : CatchUp}
    (smooth : (WorldEvent.own e).smooth) (hstep : w.own.next tx wallet e = some own) :
    CaughtUp wallet { w with own := own } ∨
    World.rank wallet { w with own := own } < w.rank wallet := by
  have hpc := h.pc
  cases CatchUp.moves_of_next hstep with
  | begin cfg result here =>
    refine .inr (World.rank_lt_of here rfl ?_)
    show w.source.recordLeft _ * 13 + 10 < w.source.recordLeft _ * 13 + 11
    omega
  | anchored size budget set here =>
    refine .inr (World.rank_lt_of here rfl ?_)
    show w.source.recordLeft _ * 13 + 8 < w.source.recordLeft _ * 13 + 10
    omega
  | unanchored size budget unset here =>
    refine .inr (World.rank_lt_of here rfl ?_)
    show w.source.recordLeft _ * 13 + 9 < w.source.recordLeft _ * 13 + 10
    omega
  | anchor size budget prior here =>
    refine .inr (World.rank_lt_of here rfl ?_)
    show w.source.recordLeft _ * 13 + 8 < w.source.recordLeft _ * 13 + 9
    omega
  | latest b response here => exact smooth.elim
  | page c left offset e response here => exact smooth.elim
  | storeLatest c env now here =>
    rw [here] at hpc
    have hfetched : Fetched w.source (w.own.db.catchUps wallet.id).getLast? c := hpc
    obtain ⟨rows, hrows⟩ := hfetched.source_rows
    obtain ⟨r, hr, hlog⟩ := store_source w.own env wallet.id rows
      (fun r => storedLatest (c.count r) now) fun r =>
      storedLatest_source (c := c.count r) hrows now
    rw [← hrows] at hr hlog
    have hcases := storedLatest_cases (hfetched.count r) hr
    rcases hcases.lower (hfetched.count r) with ⟨result, p, hidle, hlast, hp⟩ | hlower
    · exact .inl ⟨⟨result, hidle⟩, p, (congrArg List.getLast? hlog).trans hlast, hp⟩
    · exact .inr (World.rank_lt_of here hlog hlower)
  | storePage c left offset rows pageKeys env now here =>
    rw [here] at hpc
    obtain ⟨hchasing, hserved⟩ := hpc
    obtain ⟨l, hs, -⟩ := hchasing.facing
    obtain ⟨latest, hlatest⟩ := hs.rows
    obtain ⟨page, hpage⟩ : ∃ page : List (SourceTrade tx), rows = page.map SourceTrade.raw := by
      obtain ⟨m, e, k, a, -, -, -, -, -, hrows, -⟩ := hserved
      exact ⟨_, hrows⟩
    obtain ⟨r, hr, hlog⟩ := store_source w.own env wallet.id page
      (fun r => storedPage (c.count r) left offset rows pageKeys now) fun r => by
        rw [hpage]
        exact storedPage_source (c := c.count r) hlatest left offset page pageKeys now
    rw [← hpage] at hr hlog
    have hcases := storedPage_cases (hchasing.count r) (hserved.count r) hr
    exact .inr (World.rank_lt_of here hlog (hcases.lower (hchasing.count r)))
  | commit c reason after here =>
    rw [here] at hpc
    have hlog := catchUps_log w.own.db "bot" (c.record wallet reason) wallet.id rfl
    have hlast : ((w.own.db.log "bot"
        (.walletCatchUp (c.record wallet reason))).catchUps wallet.id).getLast? =
        some (c.record wallet reason) := by
      rw [hlog, List.getLast?_concat]
    rcases resume_lower wallet hpc with ⟨result, hidle, hclosed⟩ | hlower
    · exact .inl ⟨⟨result, hidle⟩, _, hlast, hclosed⟩
    · right
      unfold World.rank
      dsimp only
      rw [hlast, here]
      exact hlower
  | refresh c left here =>
    rw [here] at hpc
    have hchasing : Chasing w.source c := hpc
    obtain ⟨row, hrow, hon⟩ := happroved
    obtain ⟨pc, hturn⟩ := takeTurn_source hchasing left row
    right
    rw [hrow, hturn]
    exact World.rank_lt_of here rfl ((takeTurn_cases hchasing hturn).lower hchasing hon hsparse)
  | crash => exact smooth.elim

theorem Pursuing.reply_lower (h : Pursuing wallet w) {r : TradesRequest} {own : CatchUp}
    (hasked : w.own.pc.request = some r)
    (hstep : w.own.next tx wallet (.fetch (.ok (w.source.getTrades r))) = some own) :
    World.rank wallet { w with own := own } < w.rank wallet := by
  have hpc := h.pc
  cases CatchUp.moves_of_next hstep with
  | latest b response here =>
    rw [here] at hpc hasked
    obtain rfl := Option.some.inj hasked
    obtain ⟨pc, hgot⟩ := gotLatest_source b w.source
    obtain ⟨c, rfl, -⟩ := gotLatest_fits hpc hgot
    refine World.rank_lt_of here rfl ?_
    unfold CatchUp.goto
    dsimp only [Except.bind]
    rw [hgot]
    show w.source.recordLeft _ * 13 + 7 < w.source.recordLeft _ * 13 + 8
    omega
  | page c left offset e response here =>
    rw [here] at hpc hasked
    obtain rfl := Option.some.inj hasked
    obtain ⟨pageKeys, hkeys⟩ :=
      gotPage_source w.source ⟨min c.size (10000 - offset), offset, some 1, some e⟩
    refine World.rank_lt_of here rfl ?_
    unfold CatchUp.goto
    dsimp only [Except.bind]
    rw [hkeys]
    show w.source.windowLeft c.window * 13 + 1 < w.source.windowLeft c.window * 13 + 2
    omega

theorem Pursuing.lower (h : Pursuing wallet w) (hsparse : w.source.Sparse)
    (happroved : Approved wallet w) {e : WorldEvent} {w' : World tx}
    (hs : SmoothStep wallet w e w') :
    CaughtUp wallet w' ∨ w'.rank wallet + e.counts.toNat ≤ w.rank wallet := by
  cases hs.step with
  | arrive source grows => exact hs.smooth.elim
  | reply r own asked step => exact .inr (h.reply_lower asked step)
  | elsewhere db step =>
    right
    unfold World.rank
    dsimp only
    rw [step.log]
    exact Nat.le_refl _
  | own e own honest step => exact h.own_lower hsparse happroved hs.smooth step

/-- A step of the cycle writes to no wallet. -/
theorem next_wallet {e : CatchUpEvent} {own : CatchUp}
    (hstep : w.own.next tx wallet e = some own) (id : Nat) :
    own.db.wallet id = w.own.db.wallet id := by
  have hstore : ∀ env rows after, (w.own.store tx env wallet.id rows after).db.wallet id =
      w.own.db.wallet id := by
    intro env rows after
    unfold CatchUp.store
    split
    · rfl
    · next r hr =>
      obtain ⟨markets, trades, hdb⟩ := (ingestTradeRows_ok hr).1.rest
      show r.db.wallet id = _
      rw [hdb]
      rfl
  cases CatchUp.moves_of_next hstep with
  | storeLatest c env now here => exact hstore _ _ _
  | storePage c left offset rows pageKeys env now here => exact hstore _ _ _
  | begin | anchored | unanchored | anchor | latest | page | commit | refresh | crash => rfl

/-- What the cycle does next, with the answer of the source where it waits for one. -/
def CatchUpPc.nextEvent (source : Source tx) : CatchUpPc → CatchUpEvent
  | .idle _ => .begin {}
  | .selecting _ _ => .select
  | .anchoring _ _ _ => .select
  | .awaitLatest b => .fetch (.ok (source.getTrades ⟨b.size, 0, none, none⟩))
  | .storeLatest _ => .store ⟨fun _ => .ok (.arr []), fun _ => none, 0⟩ 0
  | .checkpoint _ _ _ => .commit
  | .turn _ _ => .refresh
  | .awaitPage c _ offset e =>
    .fetch (.ok (source.getTrades ⟨min c.size (10000 - offset), offset, some 1, some e⟩))
  | .storePage _ _ _ _ _ => .store ⟨fun _ => .ok (.arr []), fun _ => none, 0⟩ 0

theorem next_isSome (source : Source tx) (wallet : Wallet) (s : CatchUp) :
    (s.next tx wallet (s.pc.nextEvent source)).isSome = true := by
  cases here : s.pc with
  | selecting size budget =>
    simp only [CatchUp.next, CatchUpPc.nextEvent, here]
    split <;> rfl
  | _ => simp [CatchUp.next, CatchUpPc.nextEvent, here]

/-- The cycle can go on wherever it stands, unless it would adopt an anchor the
source does not have. -/
theorem Approved.goes_on (h : Approved wallet w) (hadopts : Adopts wallet w (.own .select) w) :
    ∃ e w', e.counts = true ∧ SmoothStep wallet w e w' := by
  obtain ⟨own, hown⟩ := Option.isSome_iff_exists.mp (next_isSome w.source wallet w.own)
  have happroved : Approved wallet { w with own := own } := by
    obtain ⟨row, hrow, hon⟩ := h
    exact ⟨row, (next_wallet hown wallet.id).trans hrow, hon⟩
  unfold Adopts at hadopts
  cases here : w.own.pc with
  | awaitLatest | awaitPage =>
    rw [here] at hown
    refine ⟨.reply, _, rfl, .reply w _ own (by rw [here]; rfl) hown, trivial, happroved, ?_⟩
    unfold Adopts
    rw [here]
    trivial
  | anchoring size budget prior =>
    rw [here] at hown hadopts
    refine ⟨.own .select, _, rfl, .own w _ own trivial hown, trivial, happroved, ?_⟩
    unfold Adopts
    rw [here]
    exact hadopts
  | idle | selecting | storeLatest | checkpoint | turn | storePage =>
    rw [here] at hown
    refine ⟨.own _, _, rfl, .own w _ own (by trivial) hown, by trivial, happroved, ?_⟩
    unfold Adopts
    rw [here]
    trivial

end

/-! ## Whole runs -/

theorem SmoothStep.source_eq {w w' : World tx} {e : WorldEvent} (hs : SmoothStep wallet w e w') :
    w'.source = w.source := by
  cases hs.step with
  | arrive source grows => exact hs.smooth.elim
  | reply | elsewhere | own => rfl

/-- A reachable state from which nothing else arrives or fails. -/
structure Undisturbed (wallet : Wallet) (w : World tx) : Prop where
  pursuing : Pursuing wallet w
  sparse : w.source.Sparse
  approved : Approved wallet w

theorem Undisturbed.step {w w' : World tx} {e : WorldEvent} (h : Undisturbed wallet w)
    (hs : SmoothStep wallet w e w') :
    Undisturbed wallet w' := by
  refine ⟨h.pursuing.step hs.step hs.adopts, ?_, hs.approved⟩
  rw [hs.source_eq]
  exact h.sparse

/-- From any state a run can reach, the anchors it adopted being trades of the source: with no more
arrivals and no failures, no checkpoint says that a window has stalled, the cycle can always go on,
and after finitely many of its steps there has been a complete checkpoint at the end of a cycle. -/
theorem catch_up_completes {w₀ w : World tx} {tr : List (WorldEvent × World tx)}
    (hstart : w₀.Start wallet) (hrun : Run (WorldStep wallet) w₀ tr w)
    (hadopts : Each (Adopts wallet) w₀ tr) (happroved : Approved wallet w)
    (hsparse : w.source.Sparse) :
    ∃ N, ∀ tr' w', Run (SmoothStep wallet) w tr' w' →
      (∀ r ∈ w'.own.db.catchUps wallet.id, r.terminationReason ≠ "window_stalled") ∧
      (Adopts wallet w' (.own .select) w' → ∃ e w'', e.counts = true ∧ SmoothStep wallet w' e w'') ∧
      (N ≤ tr'.countP (fun x => x.1.counts) → ∃ x ∈ tr', CaughtUp wallet x.2) := by
  have hpursuing : Pursuing wallet w :=
    (hrun.inv_each (Pursuing wallet) (fun _ _ _ h hs ha => h.step hs ha) hadopts hstart.pursuing).1
  have hcalm : Undisturbed wallet w := ⟨hpursuing, hsparse, happroved⟩
  refine ⟨w.source.most * 13 + 13, fun tr' w' hrun' => ?_⟩
  have hend : Undisturbed wallet w' :=
    hrun'.inv (Undisturbed wallet) (fun _ _ _ h hs => h.step hs) hcalm
  refine ⟨fun r hr hstalled => (hend.pursuing.log r hr).stalled hstalled hend.sparse,
    hend.approved.goes_on, fun hmany => ?_⟩
  have hranked : (∃ x ∈ tr', CaughtUp wallet x.2) ∨
      w'.rank wallet + (tr'.countP fun x => x.1.counts) ≤ w.rank wallet :=
    hrun'.ranked WorldEvent.counts (World.rank wallet) (Undisturbed wallet) (CaughtUp wallet)
      (fun _ _ _ h hs => h.step hs)
      (fun _ _ _ h hs => h.pursuing.lower h.sparse h.approved hs) hcalm
  rcases hranked with hcaught | hle
  · exact hcaught
  · have hrank := w.rank_le wallet
    omega

/-- The oldest of three trades is stored, and nothing has been checkpointed. -/
def Outage.deployed : World Text.plain :=
  ⟨Outage.after, ⟨{ Db.empty with
    wallets := [Outage.tracked]
    trades := [⟨1, Outage.older.key, 1, 1, some "7", .buy, "Yes", 1, 1 / 2, 1, 1⟩] },
      .idle none, [], []⟩⟩

theorem Outage.sparse : Outage.after.Sparse := by
  intro t
  have hlen : Outage.after.level t ≤ Outage.after.entries.length := List.length_filter_le _ _
  exact Nat.lt_of_le_of_lt hlen (by decide)

theorem catch_up_completes_deployed :
    ∃ N, ∀ tr' w', Run (SmoothStep Outage.tracked) Outage.deployed tr' w' →
    (∀ r ∈ w'.own.db.catchUps 1, r.terminationReason ≠ "window_stalled") ∧
    (Adopts Outage.tracked w' (.own .select) w' →
      ∃ e w'', e.counts = true ∧ SmoothStep Outage.tracked w' e w'') ∧
    (N ≤ tr'.countP (fun x => x.1.counts) → ∃ x ∈ tr', CaughtUp Outage.tracked x.2) :=
  catch_up_completes ⟨rfl, rfl, rfl, rfl⟩ .nil trivial ⟨Outage.tracked, rfl, rfl⟩ Outage.sparse

end Polycopy

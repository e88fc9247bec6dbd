import Polycopy.Shadow.Observer

/-!
# Who owns which fact

While an outer transaction is open, the facts of the observer are the live rows,
each under its owner, and beside them the *orphans*: rows of a `SAVEPOINT` that was
closed, not rolled back, when an outer one was rolled back.  Nothing drops these
until the transaction ends.
-/

namespace Polycopy

open Savepoints Runs

/-! ## The invariant -/

/-- A fact handed to the outer transaction has its object for an owner, one
inserted there has none. -/
def atRoot (r : Nat) (p : TradeFact × Option Nat) : TradeFact × Option Nat :=
  (p.1, if p.2 = some r then none else p.2)

structure Observing (s : Observed) (r : Nat) : Prop where
  root : s.root = some r
  nested : s.tx.Nested
  fresh : ∀ n, s.identity ≤ n → s.tx.Fresh n
  below : r < s.identity
  apart : r ∉ s.tx.stack
  orphaned : ∀ p ∈ s.orphans, ∃ n, p.2 = some n ∧ n < s.identity ∧ n ≠ r ∧ n ∉ s.tx.stack
  candidates : s.observer.candidates = []
  facts : (s.observer.trades.map (atRoot r)).Perm (s.tx.tagged ++ s.orphans)
  keys : (s.observer.trades.map factKey).Nodup
  admitted : s.observer.trades ≠ [] → s.observer.token.isSome
  token : ∀ token, s.observer.token = some token → .attempt token ∈ s.journal.drop s.begun
  begun : s.begun ≤ s.journal.length
  started : s.attempted = true → s.observer.commitStarted = true

/-- Between two outer transactions. -/
structure Resting (s : Observed) : Prop where
  root : s.root = none
  stack : s.tx.stack = []
  orphans : s.orphans = []
  token : s.observer.token = none
  trades : s.observer.trades = []
  candidates : s.observer.candidates = []
  started : s.observer.commitStarted = false

def Sound (s : Observed) : Prop := Resting s ∨ ∃ r, Observing s r

theorem atRoot_owner {r n : Nat} (hn : n ≠ r) (p : TradeFact × Option Nat) :
    (atRoot r p).2 = some n ↔ p.2 = some n := by
  unfold atRoot
  split
  · next h =>
    rw [h]
    exact ⟨fun he => (by cases he), fun he => absurd (Option.some.inj he).symm hn⟩
  · exact Iff.rfl

theorem Resting.autobegin {s : Observed} (h : Resting s) : Observing s.autobegin s.identity := by
  have he : s.autobegin =
      { s with
        root := some s.identity
        tx := Tx.start
        usable := true
        identity := s.identity + 1
        begun := s.journal.length
        attempted := false } := by
    unfold Observed.autobegin
    rw [h.root]
  rw [he]
  refine ⟨rfl, Tx.nested_start, fun n _ => ⟨List.not_mem_nil, List.not_mem_nil,
    fun i hi => (List.not_mem_nil hi).elim⟩,
    Nat.lt_succ_self _, List.not_mem_nil, fun p hp => ?_, h.candidates, ?_, ?_,
    fun hne => absurd h.trades hne, fun token htoken => ?_, Nat.le_refl _, fun hf => by cases hf⟩
  · rw [h.orphans] at hp
    cases hp
  · rw [h.trades, h.orphans]
    exact List.Perm.refl _
  · rw [h.trades]
    exact List.nodup_nil
  · rw [h.token] at htoken
    cases htoken

theorem Observing.autobegin_eq {s : Observed} {r : Nat} (h : Observing s r) : s.autobegin = s := by
  unfold Observed.autobegin
  rw [h.root]

theorem Sound.autobegin {s : Observed} (h : Sound s) : ∃ r, Observing s.autobegin r := by
  rcases h with h | ⟨r, h⟩
  · exact ⟨s.identity, h.autobegin⟩
  · exact ⟨r, h.autobegin_eq.symm ▸ h⟩

/-! ## Flushes -/

/-- What `before_flush` changes. -/
structure Admitted (s : Observed) (new : List TradeFact) (u : Observed) : Prop where
  root : u.root = s.root
  tx : u.tx = s.tx
  identity : u.identity = s.identity
  orphans : u.orphans = s.orphans
  begun : u.begun = s.begun
  attempted : u.attempted = s.attempted
  witnesses : u.witnesses = s.witnesses
  trades : u.observer.trades = s.observer.trades
  candidates : u.observer.candidates = s.observer.candidates ++ new
  started : u.observer.commitStarted = s.observer.commitStarted
  token : new ≠ [] → u.observer.token.isSome
  journal : (u.journal = s.journal ∧ u.observer.token = s.observer.token) ∨
    ∃ token, u.journal = s.journal ++ [.attempt token] ∧ u.observer.token = some token

theorem admitted_beforeFlush (s : Observed) (new : List TradeFact) :
    Admitted s new (s.beforeFlush new) := by
  unfold Observed.beforeFlush
  by_cases hnew : new = []
  · rw [if_pos hnew, hnew]
    exact ⟨rfl, rfl, rfl, rfl, rfl, rfl, rfl, rfl, (List.append_nil _).symm, rfl,
      fun h => absurd rfl h, Or.inl ⟨rfl, rfl⟩⟩
  · rw [if_neg hnew]
    unfold Observed.admit
    split
    · next token htoken =>
      refine ⟨rfl, rfl, rfl, rfl, rfl, rfl, rfl, rfl, rfl, rfl, fun _ => ?_, Or.inl ⟨rfl, rfl⟩⟩
      exact Option.isSome_iff_exists.mpr ⟨token, htoken⟩
    · exact ⟨rfl, rfl, rfl, rfl, rfl, rfl, rfl, rfl, rfl, rfl,
        fun _ => rfl, Or.inr ⟨s.uuid, rfl, rfl⟩⟩

/-- The token a flush leaves was admitted since the outer transaction began. -/
theorem Admitted.token_journaled {s u : Observed} {new : List TradeFact}
    {r : Nat} (h : Observing s r)
    (hu : Admitted s new u) : (∀ token, u.observer.token = some token →
      .attempt token ∈ u.journal.drop u.begun) ∧
      u.begun ≤ u.journal.length := by
  rw [hu.begun]
  rcases hu.journal with ⟨hjournal, htoken⟩ | ⟨fresh, hjournal, htoken⟩
  · rw [hjournal, htoken]
    exact ⟨h.token, h.begun⟩
  · rw [hjournal]
    refine ⟨fun token he => ?_, ?_⟩
    · obtain rfl := Option.some.inj (htoken.symm.trans he)
      rw [List.drop_append_of_le_length h.begun]
      exact List.mem_append_right _ (List.mem_singleton_self _)
    · rw [List.length_append]
      exact Nat.le_add_right_of_le h.begun

theorem nested_id (s : Observed) : s.nested.map SessionTransaction.id = s.tx.stack.head? := by
  unfold Observed.nested
  cases s.tx.stack with
  | nil => rfl
  | cons n rest => rfl

theorem Tx.fresh_insert {t : Tx TradeFact} {n : Nat} (h : t.Fresh n) (new : List TradeFact) :
    (t.insert new).Fresh n := by
  refine ⟨h.stack, h.released, fun i hi => ?_⟩
  rcases List.mem_append.mp hi with hi | hi
  · exact h.enclosing i hi
  · obtain ⟨fact, -, rfl⟩ := List.mem_map.mp hi
    exact h.stack

/-- All but the candidates, which the flush then takes. -/
theorem Admitted.observing {s u : Observed} {new : List TradeFact} {r : Nat}
    (hu : Admitted s new u) (h : Observing s r) :
    Observing { u with observer := { u.observer with candidates := [] } } r := by
  obtain ⟨htoken, hbegun⟩ := hu.token_journaled h
  refine ⟨hu.root.trans h.root, ?_, ?_, ?_, ?_, ?_, rfl, ?_, ?_, ?_, htoken, hbegun, ?_⟩
  · exact hu.tx.symm ▸ h.nested
  · exact hu.tx.symm ▸ hu.identity.symm ▸ h.fresh
  · exact hu.identity.symm ▸ h.below
  · exact hu.tx.symm ▸ h.apart
  · exact hu.tx.symm ▸ hu.identity.symm ▸ hu.orphans.symm ▸ h.orphaned
  · exact hu.tx.symm ▸ hu.orphans.symm ▸ hu.trades.symm ▸ h.facts
  · exact hu.trades.symm ▸ h.keys
  · intro hne
    show u.observer.token.isSome
    rcases hu.journal with ⟨-, hsame⟩ | ⟨token, -, hsome⟩
    · rw [hsame]
      exact h.admitted (hu.trades ▸ hne)
    · rw [hsome]
      rfl
  · exact hu.started.symm ▸ hu.attempted.symm ▸ h.started

theorem Observing.flush {s : Observed} {r : Nat} (h : Observing s r)
    {new : List TradeFact} (hnew : s.Inserts new) :
    Observing (s.flush new) r := by
  have hu := admitted_beforeFlush s new
  unfold Observed.flush
  generalize s.beforeFlush new = u at hu
  have hv := hu.observing h
  have hcandidates : u.observer.candidates = new := by
    rw [hu.candidates, h.candidates, List.nil_append]
  have htrades : (u.observer.afterFlush u.nested).trades =
      (new.map fun fact => (fact, u.tx.stack.head?)).foldl
        (fun trades p => Keyed.put factKey p trades) u.observer.trades := by
    show u.observer.candidates.foldl _ u.observer.trades = _
    rw [hcandidates, nested_id, List.foldl_map]
  have hnewkeys : ((new.map fun fact => (fact, u.tx.stack.head?)).map factKey) =
      new.map TradeFact.sourceRecordId := by
    rw [List.map_map]
    rfl
  have hperm := Keyed.foldl_put_perm factKey (new.map fun fact => (fact, u.tx.stack.head?)) hv.keys
    (by rw [hnewkeys]; exact hnew.1)
  rw [← htrades, hnewkeys] at hperm
  -- an open SAVEPOINT is no outer transaction
  have hatRoot : (new.map fun fact => (fact, u.tx.stack.head?)).map (atRoot r) = new.map fun fact =>
      (fact, u.tx.stack.head?) := by
    rw [List.map_map]
    refine List.map_congr_left fun fact _ => congrArg (Prod.mk fact) (if_neg fun he => ?_)
    exact hv.apart (List.mem_of_head? he)
  have htagged : (u.tx.tagged.filter fun p => factKey p ∉ new.map TradeFact.sourceRecordId) =
      u.tx.tagged := by
    rw [hu.tx]
    apply List.filter_eq_self.mpr
    intro p hp
    obtain ⟨i, hi, rfl⟩ := List.mem_map.mp hp
    exact decide_eq_true (hnew.2 i hi)
  refine ⟨hv.root, Tx.nested_insert hv.nested new,
    fun n hn => Tx.fresh_insert (hv.fresh n hn) new, hv.below, hv.apart,
    fun p hp => hv.orphaned p (List.mem_filter.mp hp).1, rfl, ?_, ?_, fun hne =>
    ?_, hv.token, hv.begun, hv.started⟩
  · show ((u.observer.afterFlush u.nested).trades.map (atRoot r)).Perm
      ((u.tx.insert new).tagged ++ u.orphans.filter fun p =>
        factKey p ∉ new.map TradeFact.sourceRecordId)
    rw [Tx.tagged_insert hv.nested]
    refine (hperm.map (atRoot r)).trans ?_
    rw [List.map_append, hatRoot]
    have hfilter := hv.facts.filter fun p => factKey p ∉ new.map TradeFact.sourceRecordId
    rw [List.filter_append, htagged, List.filter_map] at hfilter
    refine (hfilter.append_right _).trans ?_
    rw [List.append_assoc, List.append_assoc]
    exact List.perm_append_comm.append_left _
  · show ((u.observer.afterFlush u.nested).trades.map factKey).Nodup
    rw [(hperm.map factKey).nodup_iff, List.map_append, hnewkeys, List.nodup_append]
    refine ⟨(hv.keys.sublist (List.filter_sublist.map _)), hnew.1, fun a ha b hb hab => ?_⟩
    obtain ⟨p, hp, rfl⟩ := List.mem_map.mp ha
    exact of_decide_eq_true (List.mem_filter.mp hp).2 (hab ▸ hb)
  · show u.observer.token.isSome
    by_cases hempty : new = []
    · apply hv.admitted
      intro he
      have hnone : u.observer.trades = [] := he
      apply hne
      rw [htrades, hnone, hempty]
      rfl
    · exact hu.token hempty

theorem nested_eq {s : Observed} {r n : Nat} {rest : List Nat} (hroot : s.root = some r)
    (hstack : s.tx.stack = n :: rest) :
    s.nested = some ⟨n, some (rest.head?.getD r)⟩ := by
  unfold Observed.nested
  rw [hstack, hroot]
  cases rest with
  | nil => rfl
  | cons m rest => rfl

theorem parent_of_flush {s : Observed} {r : Nat} (hroot : s.root = some r) :
    s.tx.stack.head?.or s.root ≠ none := by
  rw [hroot, Option.or_some]
  exact fun he => by cases he

theorem afterTransactionEnd_nested (o : SessionObserver) (n parent : Nat) :
    o.afterTransactionEnd ⟨n, some parent⟩ = o := by
  unfold SessionObserver.afterTransactionEnd
  exact if_neg fun he => by cases he

theorem Observing.flushRaises {s : Observed} {r : Nat} (h : Observing s r) (new : List TradeFact) :
    Observing (s.flushRaises new) r := by
  have hu := admitted_beforeFlush s new
  unfold Observed.flushRaises
  generalize s.beforeFlush new = u at hu
  have hv := hu.observing h
  obtain ⟨parent, hparent⟩ := Option.ne_none_iff_exists'.mp (parent_of_flush (hu.root.trans h.root))
  simp only [hparent, afterTransactionEnd_nested]
  unfold Observed.afterSoftRollback
  rw [if_pos (fun he => by cases he)]
  -- no fact is owned by the transaction of the flush
  have hkeep : (u.observer.trades.filter fun p => p.2 ≠ some u.identity) = u.observer.trades := by
    apply List.filter_eq_self.mpr
    intro p hp
    apply decide_eq_true
    intro howner
    have hmem : atRoot r p ∈ u.tx.tagged ++ u.orphans := hv.facts.subset (List.mem_map_of_mem hp)
    have howner' : (atRoot r p).2 = some u.identity :=
      (atRoot_owner (Nat.ne_of_gt hv.below) p).mpr howner
    rcases List.mem_append.mp hmem with hmem | hmem
    · exact (hv.fresh u.identity (Nat.le_refl _)).stack (Tx.tagged_owner_mem hv.nested hmem howner')
    · obtain ⟨n, hn, hlt, -⟩ := hv.orphaned _ hmem
      have he := Option.some.inj (hn.symm.trans howner')
      exact absurd hlt (he ▸ Nat.lt_irrefl _)
  refine ⟨hv.root, hv.nested, fun n hn => hv.fresh n (Nat.le_of_succ_le hn),
    Nat.lt_succ_of_lt hv.below, hv.apart,
    fun p hp => ?_, rfl, ?_, ?_, ?_, hv.token, hv.begun, hv.started⟩
  · obtain ⟨n, howner, hlt, hne, hopen⟩ := hv.orphaned p hp
    exact ⟨n, howner, Nat.lt_succ_of_lt hlt, hne, hopen⟩
  · show ((u.observer.trades.filter fun p => p.2 ≠ some u.identity).map (atRoot r)).Perm
      (u.tx.tagged ++ u.orphans)
    rw [hkeep]
    exact hv.facts
  · show ((u.observer.trades.filter fun p => p.2 ≠ some u.identity).map factKey).Nodup
    rw [hkeep]
    exact hv.keys
  · show (u.observer.trades.filter fun p => p.2 ≠ some u.identity) ≠ [] → u.observer.token.isSome
    rw [hkeep]
    exact hv.admitted

/-! ## Savepoints -/

theorem Tx.fresh_begin {t : Tx TradeFact} {n m : Nat} (h : t.Fresh n)
    (hne : n ≠ m) : (t.begin m).Fresh n := by
  refine ⟨fun hn => ?_, h.released, h.enclosing⟩
  rcases List.mem_cons.mp hn with he | hn
  · exact hne he
  · exact h.stack hn

theorem Tx.fresh_release {t : Tx TradeFact} {n m : Nat} {rest : List Nat} (h : t.Fresh n)
    (hstack : t.stack = m :: rest) :
    t.release.Fresh n := by
  rw [Tx.release_eq hstack]
  have hn := h.stack
  rw [hstack, List.mem_cons, not_or] at hn
  refine ⟨hn.2, fun hr => ?_, h.enclosing⟩
  rcases List.mem_cons.mp hr with he | hr
  · exact hn.1 he
  · exact h.released hr

theorem Tx.fresh_close {t : Tx TradeFact} {n : Nat} (h : t.Fresh n) : t.close.Fresh n :=
  ⟨fun hn => h.stack (List.mem_of_mem_tail hn), h.released, h.enclosing⟩

theorem Observing.beginNested {s : Observed} {r : Nat} (h : Observing s r) :
    Observing s.beginNested r := by
  have hfresh := h.fresh s.identity (Nat.le_refl _)
  refine ⟨h.root, Tx.nested_begin h.nested hfresh, fun n hn => ?_, Nat.lt_succ_of_lt h.below,
    fun hr => ?_, fun p hp => ?_,
    h.candidates, ?_, h.keys, h.admitted, h.token, h.begun, h.started⟩
  · have hn' : s.identity + 1 ≤ n := hn
    exact Tx.fresh_begin (h.fresh n (by omega)) (by omega)
  · rcases List.mem_cons.mp hr with he | hr
    · exact Nat.ne_of_lt h.below he
    · exact h.apart hr
  · obtain ⟨n, howner, hlt, hne, hopen⟩ := h.orphaned p hp
    refine ⟨n, howner, Nat.lt_succ_of_lt hlt, hne, fun hn => ?_⟩
    rcases List.mem_cons.mp hn with he | hn
    · exact Nat.ne_of_lt hlt he
    · exact hopen hn
  · show (s.observer.trades.map (atRoot r)).Perm ((s.tx.begin s.identity).tagged ++ s.orphans)
    rw [Tx.tagged_begin hfresh]
    exact h.facts

/-- What ending one `SAVEPOINT` after another leaves as it is. -/
structure Framed (s t : Observed) : Prop where
  root : t.root = s.root
  journal : t.journal = s.journal
  begun : t.begun = s.begun
  attempted : t.attempted = s.attempted
  witnesses : t.witnesses = s.witnesses

theorem Framed.refl (s : Observed) : Framed s s := ⟨rfl, rfl, rfl, rfl, rfl⟩

theorem Framed.trans {s t u : Observed} (h : Framed s t) (h' : Framed t u) : Framed s u :=
  ⟨h'.root.trans h.root, h'.journal.trans h.journal, h'.begun.trans h.begun,
    h'.attempted.trans h.attempted, h'.witnesses.trans h.witnesses⟩

/-- An end of the innermost `SAVEPOINT` that keeps the invariant. -/
structure EndsTop (r : Nat) (f : Observed → Observed) : Prop where
  observing : ∀ s, Observing s r → Observing (f s) r
  framed : ∀ s, Observing s r → Framed s (f s)
  stack : ∀ s, Observing s r → (f s).tx.stack = s.tx.stack.tail

theorem releaseTop_eq {s : Observed} {r n : Nat} {rest : List Nat} (hroot : s.root = some r)
    (hstack : s.tx.stack = n :: rest) :
    s.releaseTop = { s with
      tx := s.tx.release
      observer := s.observer.afterCommit (some ⟨n, some (rest.head?.getD r)⟩) } := by
  unfold Observed.releaseTop
  rw [nested_eq hroot hstack]
  simp only [afterTransactionEnd_nested]

theorem rollbackTop_eq {s : Observed} {r n : Nat} {rest : List Nat} (hroot : s.root = some r)
    (hstack : s.tx.stack = n :: rest) :
    s.rollbackTop = { s with
      tx := s.tx.close
      observer := { s.observer with
        trades := s.observer.trades.filter fun p => p.2 ≠ some n, candidates := [] } } := by
  unfold Observed.rollbackTop
  rw [nested_eq hroot hstack]
  simp only [afterTransactionEnd_nested]
  unfold Observed.afterSoftRollback
  rw [if_pos fun he => by cases he]

theorem closeTop_eq {s : Observed} {r n : Nat} {rest : List Nat} (hroot : s.root = some r)
    (hstack : s.tx.stack = n :: rest) :
    s.closeTop = { s with
      tx := s.tx.close
      orphans := (s.tx.tagged.filter fun p => p.2 = some n) ++ s.orphans } := by
  unfold Observed.closeTop
  rw [nested_eq hroot hstack]
  simp only [afterTransactionEnd_nested]

theorem nested_none {s : Observed} (hstack : s.tx.stack = []) : s.nested = none := by
  unfold Observed.nested
  rw [hstack]

theorem tail_release (t : Tx TradeFact) : t.release.stack = t.stack.tail := by
  unfold Tx.release
  split
  · next h => rw [h]; rfl
  · next h => rw [h]; rfl

section

variable {s : Observed} {r n : Nat} {rest : List Nat} (h : Observing s r)
  (hstack : s.tx.stack = n :: rest)

include h hstack

theorem top_ne_root : n ≠ r := fun he => h.apart (he ▸ hstack ▸ List.mem_cons_self)

/-- Handing facts to the parent and reading the outer transaction as no `SAVEPOINT`
are one in either order. -/
theorem atRoot_hand (p : TradeFact × Option Nat) :
    atRoot r (if p.2 = some n then (p.1, some (rest.head?.getD r)) else p) =
      if (atRoot r p).2 = some n then ((atRoot r p).1, rest.head?) else atRoot r p := by
  have hiff := atRoot_owner (top_ne_root h hstack) p
  by_cases howner : p.2 = some n
  · rw [if_pos howner, if_pos (hiff.mpr howner)]
    show (p.1, if some (rest.head?.getD r) = some r then none
      else some (rest.head?.getD r)) = (p.1, rest.head?)
    cases rest with
    | nil => exact congrArg (Prod.mk p.1) (if_pos rfl)
    | cons m rest =>
      refine congrArg (Prod.mk p.1) (if_neg fun he => ?_)
      have hm : m = r := Option.some.inj he
      exact h.apart (hm ▸ hstack ▸ List.mem_cons_of_mem n List.mem_cons_self)
  · rw [if_neg howner, if_neg fun he => howner (hiff.mp he)]

theorem orphan_owner {p : TradeFact × Option Nat} (hp : p ∈ s.orphans) : p.2 ≠ some n := by
  intro he
  obtain ⟨m, hm, -, -, hopen⟩ := h.orphaned p hp
  obtain rfl := Option.some.inj (hm.symm.trans he)
  exact hopen (hstack ▸ List.mem_cons_self)

theorem Observing.releaseTop : Observing s.releaseTop r := by
  rw [releaseTop_eq h.root hstack]
  have hrest : s.tx.release.stack = rest := by rw [tail_release, hstack]; rfl
  have hsub : ∀ m, m ∈ s.tx.release.stack → m ∈ s.tx.stack := fun m hm => by
    rw [hrest] at hm
    exact hstack ▸ List.mem_cons_of_mem n hm
  refine ⟨h.root, Tx.nested_release h.nested hstack,
    fun m hm => Tx.fresh_release (h.fresh m hm) hstack, h.below,
    fun hr => h.apart (hsub r hr), fun p hp => ?_, h.candidates, ?_, ?_, fun hne =>
    ?_, h.token, h.begun, h.started⟩
  · obtain ⟨m, howner, hlt, hne, hopen⟩ := h.orphaned p hp
    exact ⟨m, howner, hlt, hne, fun hm => hopen (hsub m hm)⟩
  · show ((s.observer.trades.map fun p => if p.2 = some n then (p.1, some (rest.head?.getD r))
      else p).map (atRoot r)).Perm
      (s.tx.release.tagged ++ s.orphans)
    have hhand := h.facts.map fun p : TradeFact × Option Nat =>
      if p.2 = some n then (p.1, rest.head?) else p
    have horphans : (s.orphans.map fun p : TradeFact × Option Nat => if p.2 = some n then
        (p.1, rest.head?) else p) =
        s.orphans := by
      conv => rhs; rw [← List.map_id s.orphans]
      exact List.map_congr_left fun p hp => if_neg (orphan_owner h hstack hp)
    rw [List.map_append, horphans, ← Tx.tagged_release h.nested hstack, List.map_map] at hhand
    rw [List.map_map]
    refine (List.Perm.of_eq (List.map_congr_left fun p _ => ?_)).trans hhand
    exact atRoot_hand h hstack p
  · show ((s.observer.trades.map fun p => if p.2 = some n then (p.1, some (rest.head?.getD r))
      else p).map factKey).Nodup
    rw [List.map_map]
    refine (List.Perm.of_eq (List.map_congr_left fun p _ => ?_)).nodup h.keys
    show factKey p = factKey (if p.2 = some n then (p.1, some (rest.head?.getD r)) else p)
    split <;> rfl
  · apply h.admitted
    intro he
    apply hne
    show (s.observer.trades.map fun p => if p.2 = some n then
      (p.1, some (rest.head?.getD r)) else p) = []
    rw [he]
    rfl

theorem Observing.rollbackTop : Observing s.rollbackTop r := by
  rw [rollbackTop_eq h.root hstack]
  have hsub : ∀ m, m ∈ s.tx.close.stack → m ∈ s.tx.stack := fun m hm => List.mem_of_mem_tail hm
  refine ⟨h.root, Tx.nested_close h.nested hstack,
    fun m hm => Tx.fresh_close (h.fresh m hm), h.below,
    fun hr => h.apart (hsub r hr), fun p hp => ?_, rfl, ?_, ?_, fun hne =>
    ?_, h.token, h.begun, h.started⟩
  · obtain ⟨m, howner, hlt, hne, hopen⟩ := h.orphaned p hp
    exact ⟨m, howner, hlt, hne, fun hm => hopen (hsub m hm)⟩
  · show ((s.observer.trades.filter fun p => p.2 ≠ some n).map (atRoot r)).Perm
      (s.tx.close.tagged ++ s.orphans)
    have hdrop := h.facts.filter fun p => p.2 ≠ some n
    have horphans : (s.orphans.filter fun p => p.2 ≠ some n) = s.orphans :=
      List.filter_eq_self.mpr fun p hp => decide_eq_true (orphan_owner h hstack hp)
    rw [List.filter_append, horphans, ← Tx.tagged_close h.nested hstack, List.filter_map] at hdrop
    refine (List.Perm.of_eq (congrArg (List.map (atRoot r))
      (List.filter_congr fun p _ => ?_))).trans hdrop
    rw [Bool.eq_iff_iff, decide_eq_true_eq]
    exact Iff.trans (not_congr (atRoot_owner (top_ne_root h hstack) p)).symm
      (decide_eq_true_iff).symm
  · exact h.keys.sublist (List.filter_sublist.map _)
  · apply h.admitted
    intro he
    apply hne
    show (s.observer.trades.filter fun p => p.2 ≠ some n) = []
    rw [he]
    rfl

/-- A close drops no facts: those of the `SAVEPOINT` become orphans. -/
theorem Observing.closeTop : Observing s.closeTop r := by
  rw [closeTop_eq h.root hstack]
  have hsub : ∀ m, m ∈ s.tx.close.stack → m ∈ s.tx.stack := fun m hm => List.mem_of_mem_tail hm
  have hnodup := h.nested.nodup
  rw [hstack, List.nodup_cons] at hnodup
  refine ⟨h.root, Tx.nested_close h.nested hstack,
    fun m hm => Tx.fresh_close (h.fresh m hm), h.below,
    fun hr => h.apart (hsub r hr), fun p hp => ?_, h.candidates, ?_, h.keys,
    h.admitted, h.token, h.begun, h.started⟩
  · rcases List.mem_append.mp hp with hp | hp
    · have howner : p.2 = some n := of_decide_eq_true (List.mem_filter.mp hp).2
      refine ⟨n, howner, ?_, top_ne_root h hstack, fun hn => ?_⟩
      · by_contra hle
        exact (h.fresh n (Nat.le_of_not_lt hle)).stack (hstack ▸ List.mem_cons_self)
      · have hn' : n ∈ s.tx.stack.tail := hn
        rw [hstack] at hn'
        exact hnodup.1 hn'
    · obtain ⟨m, howner, hlt, hne, hopen⟩ := h.orphaned p hp
      exact ⟨m, howner, hlt, hne, fun hm => hopen (hsub m hm)⟩
  · show (s.observer.trades.map (atRoot r)).Perm
      (s.tx.close.tagged ++ ((s.tx.tagged.filter fun p => p.2 = some n) ++ s.orphans))
    refine h.facts.trans ?_
    rw [← List.append_assoc]
    refine List.Perm.append_right _ ?_
    rw [Tx.tagged_close h.nested hstack]
    have hsplit :=
    List.filter_append_perm (fun p : TradeFact × Option Nat => decide (p.2 = some n)) s.tx.tagged
    refine hsplit.symm.trans (List.perm_append_comm.trans (List.Perm.of_eq ?_))
    refine congrArg (· ++ _) (List.filter_congr fun p _ => ?_)
    rw [decide_not]

end

theorem endsTop_of {r : Nat} {f : Observed → Observed} (hnil : ∀ s, s.tx.stack = [] → f s = s)
    (hcons : ∀ s n rest, Observing s r → s.tx.stack = n :: rest →
      Observing (f s) r ∧ Framed s (f s) ∧ (f s).tx.stack = rest) :
    EndsTop r f := by
  have hstep : ∀ s, Observing s r → Observing (f s) r ∧ Framed s (f s) ∧
      (f s).tx.stack = s.tx.stack.tail := by
    intro s h
    cases hstack : s.tx.stack with
    | nil =>
      rw [hnil s hstack]
      exact ⟨h, Framed.refl s, hstack⟩
    | cons n rest => exact hcons s n rest h hstack
  exact ⟨fun s h => (hstep s h).1, fun s h => (hstep s h).2.1, fun s h => (hstep s h).2.2⟩

theorem endsTop_releaseTop (r : Nat) : EndsTop r Observed.releaseTop := by
  refine endsTop_of (fun s hstack => ?_) fun s n rest h hstack => ⟨h.releaseTop hstack, ?_⟩
  · unfold Observed.releaseTop
    rw [nested_none hstack]
  · rw [releaseTop_eq h.root hstack]
    refine ⟨⟨rfl, rfl, rfl, rfl, rfl⟩, ?_⟩
    show s.tx.release.stack = rest
    rw [tail_release, hstack]
    rfl

theorem endsTop_rollbackTop (r : Nat) : EndsTop r Observed.rollbackTop := by
  refine endsTop_of (fun s hstack => ?_) fun s n rest h hstack => ⟨h.rollbackTop hstack, ?_⟩
  · unfold Observed.rollbackTop
    rw [nested_none hstack]
  · rw [rollbackTop_eq h.root hstack]
    refine ⟨⟨rfl, rfl, rfl, rfl, rfl⟩, ?_⟩
    show s.tx.stack.tail = rest
    rw [hstack]
    rfl

theorem endsTop_closeTop (r : Nat) : EndsTop r Observed.closeTop := by
  refine endsTop_of (fun s hstack => ?_) fun s n rest h hstack => ⟨h.closeTop hstack, ?_⟩
  · unfold Observed.closeTop
    rw [nested_none hstack]
  · rw [closeTop_eq h.root hstack]
    refine ⟨⟨rfl, rfl, rfl, rfl, rfl⟩, ?_⟩
    show s.tx.stack.tail = rest
    rw [hstack]
    rfl

theorem EndsTop.iterate {r : Nat} {f : Observed → Observed} (hf : EndsTop r f) (k : Nat)
    {s : Observed} (h : Observing s r) :
    Observing (f^[k] s) r ∧ Framed s (f^[k] s) ∧ (f^[k] s).tx.stack = s.tx.stack.drop k := by
  induction k generalizing s with
  | zero => exact ⟨h, Framed.refl s, rfl⟩
  | succ k ih =>
    rw [Function.iterate_succ_apply]
    obtain ⟨hobserving, hframed, hstack⟩ := ih (hf.observing s h)
    refine ⟨hobserving, (hf.framed s h).trans hframed, ?_⟩
    rw [hstack, hf.stack s h, List.drop_tail]

/-! ## The end of an outer transaction -/

theorem Observing.endRoot {s : Observed} {r : Nat} (h : Observing s r)
    (hstack : s.tx.stack = []) : Resting s.endRoot := by
  unfold Observed.endRoot
  rw [h.root]
  exact ⟨rfl, hstack, rfl, rfl, rfl, rfl, rfl⟩

theorem Resting.afterSoftRollback {s : Observed} (h : Resting s) (root : Nat) :
    Resting (s.afterSoftRollback ⟨root, none⟩) := by
  unfold Observed.afterSoftRollback
  rw [if_neg fun hne => hne rfl]
  exact ⟨h.root, h.stack, h.orphans, rfl, rfl, rfl, rfl⟩

/-- After `before_commit` has begun on the outer transaction. -/
theorem Observing.commitStart {s : Observed} {r : Nat} (h : Observing s r) :
    Observing s.commitStart r ∧ Framed s s.commitStart ∧ s.commitStart.tx.stack = [] := by
  obtain ⟨hobserving, hframed, hstack⟩ := (endsTop_releaseTop r).iterate s.tx.stack.length h
  rw [List.drop_length] at hstack
  refine ⟨?_, ⟨hframed.root, hframed.journal, hframed.begun,
    hframed.attempted, hframed.witnesses⟩, hstack⟩
  exact ⟨hobserving.root, hobserving.nested, hobserving.fresh, hobserving.below,
    hobserving.apart, hobserving.orphaned,
    hobserving.candidates, hobserving.facts, hobserving.keys, hobserving.admitted,
    hobserving.token, hobserving.begun, fun _ => rfl⟩

theorem releaseTop_orphans (s : Observed) : s.releaseTop.orphans = s.orphans := by
  unfold Observed.releaseTop
  split <;> rfl

theorem commitStart_orphans (s : Observed) : s.commitStart.orphans = s.orphans := by
  have hiterate : ∀ (k : Nat) (s : Observed), (Observed.releaseTop^[k] s).orphans = s.orphans := by
    intro k
    induction k with
    | zero => exact fun s => rfl
    | succ k ih =>
      intro s
      rw [Function.iterate_succ_apply, ih, releaseTop_orphans]
  exact hiterate _ s

/-- A flush can insert after the releases what it could insert before them. -/
theorem Observing.releaseTop_live {s : Observed} {r : Nat} (h : Observing s r) :
    s.releaseTop.tx.live = s.tx.live := by
  cases hstack : s.tx.stack with
  | nil =>
    unfold Observed.releaseTop
    rw [nested_none hstack]
  | cons n rest =>
    rw [releaseTop_eq h.root hstack]
    exact Tx.live_release hstack

theorem Observing.commitStart_live {s : Observed} {r : Nat} (h : Observing s r) :
    s.commitStart.tx.live = s.tx.live := by
  have hiterate : ∀ (k : Nat) (s : Observed), Observing s r →
      (Observed.releaseTop^[k] s).tx.live = s.tx.live := by
    intro k
    induction k with
    | zero => exact fun s _ => rfl
    | succ k ih =>
      intro s h
      rw [Function.iterate_succ_apply,
        ih _ ((endsTop_releaseTop r).observing s h), h.releaseTop_live]
  exact hiterate _ s h

theorem Inserts.commitStart {s : Observed} {r : Nat} (h : Observing s r)
    {new : List TradeFact} (hnew : s.Inserts new) :
    s.commitStart.Inserts new := by
  refine ⟨hnew.1, ?_⟩
  rw [h.commitStart_live]
  exact hnew.2

/-- What `before_commit` finds: without a token nothing was inserted; else the witness lists the
survivors and the orphans. -/
theorem Observing.beforeCommit_cases {s : Observed} {r : Nat}
    (h : Observing s r) (hstack : s.tx.stack = []) :
    (s.observer.beforeCommit s.nested = none ∧ s.orphans = []) ∨
      ∃ w, s.observer.beforeCommit s.nested = some w ∧
        (w.trades.Perm s.tx.survivors ∧ (w.trades.map TradeFact.sourceRecordId).Nodup ↔
          s.orphans = []) := by
  unfold SessionObserver.beforeCommit
  rw [nested_none hstack, if_neg (by decide)]
  cases htoken : s.observer.token with
  | none =>
    refine Or.inl ⟨rfl, ?_⟩
    have htrades : s.observer.trades = [] := by
      by_contra hne
      have hsome := h.admitted hne
      rw [htoken] at hsome
      cases hsome
    have hfacts := h.facts
    rw [htrades] at hfacts
    exact (List.append_eq_nil_iff.mp hfacts.symm.eq_nil).2
  | some token =>
    refine Or.inr ⟨_, rfl, ?_⟩
    have hsorted :=
      List.perm_insertionSort (fun a b : TradeFact => a.sourceRecordId ≤ b.sourceRecordId)
      (s.observer.trades.map Prod.fst)
    have hall : (s.observer.trades.map Prod.fst).Perm
        (s.tx.survivors ++ s.orphans.map Prod.fst) := by
      have hfacts := h.facts.map Prod.fst
      rw [List.map_map, List.map_append, Tx.tagged_bottom hstack] at hfacts
      exact hfacts
    constructor
    · rintro ⟨hperm, -⟩
      have hlength := (hsorted.trans hall).length_eq.symm.trans hperm.length_eq
      rw [List.length_append, List.length_map] at hlength
      exact List.length_eq_zero_iff.mp (by omega)
    · intro horphans
      rw [horphans, List.map_nil, List.append_nil] at hall
      refine ⟨hsorted.trans hall, ?_⟩
      rw [(hsorted.map TradeFact.sourceRecordId).nodup_iff, List.map_map]
      exact h.keys

end Polycopy

import Mathlib.Logic.Relation

/-!
# Runs of a labelled step relation

A run records every event and the state after it, so that "in every state
reached" and "from that step until this one" can be said of its trace:

    Run step s tr t      `tr : List (E × S)` leads from `s` to `t`

* `Run.inv`: what holds first and is kept by each step holds at the end.
* `Run.inv_trace`: … and in every state of the trace.
* `Run.pairwise`: what relates the two ends of each step relates any two states.
* `Run.rise`: a predicate false first and true last was made true by some step
  and has held ever since.
* `Run.ranked`: counted steps that lower a rank until a goal is met are fewer than the rank.
* `Each`: something of every step of a trace, by the state before it, the event
  and the state after it.
-/

namespace Runs

variable {S E : Type}

inductive Run (step : S → E → S → Prop) (s : S) : List (E × S) → S → Prop
  | nil : Run step s [] s
  | snoc {tr : List (E × S)} {t : S} (e : E) (u : S) :
      Run step s tr t → step t e u → Run step s (tr ++ [(e, u)]) u

variable {step : S → E → S → Prop}

theorem Run.single {s t : S} {e : E} (h : step s e t) : Run step s [(e, t)] t :=
  Run.snoc e t Run.nil h

theorem Run.trans {s t u : S} {tr tr' : List (E × S)} (h : Run step s tr t)
    (h' : Run step t tr' u) : Run step s (tr ++ tr') u := by
  induction h' with
  | nil => rwa [List.append_nil]
  | snoc e v _ hs ih =>
    rw [← List.append_assoc]
    exact Run.snoc e v ih hs

theorem Run.cons {s t u : S} {e : E} {tr : List (E × S)} (h : step s e t)
    (h' : Run step t tr u) : Run step s ((e, t) :: tr) u :=
  (Run.single h).trans h'

theorem Run.inv (I : S → Prop) (hstep : ∀ s e t, I s → step s e t → I t) {s t : S}
    {tr : List (E × S)} (h : Run step s tr t) (h0 : I s) : I t := by
  induction h with
  | nil => exact h0
  | snoc e u _ hs ih => exact hstep _ e u ih hs

theorem Run.inv_trace (I : S → Prop) (hstep : ∀ s e t, I s → step s e t → I t) {s t : S}
    {tr : List (E × S)} (h : Run step s tr t) (h0 : I s) : ∀ x ∈ tr, I x.2 := by
  induction h with
  | nil => simp
  | snoc e u hr hs ih =>
    intro x hx
    rcases List.mem_append.mp hx with hx | hx
    · exact ih x hx
    · obtain rfl := List.mem_singleton.mp hx
      exact hstep _ e u (hr.inv I hstep h0) hs

/-- Along a run, a transitive relation kept by each step relates any two states,
the earlier one first. -/
theorem Run.pairwise (R : S → S → Prop) (hrefl : ∀ s, R s s)
    (htrans : ∀ s t u, R s t → R t u → R s u) (hstep : ∀ s e t, step s e t → R s t) {s t : S}
    {tr : List (E × S)} (h : Run step s tr t) :
    tr.Pairwise (fun x y => R x.2 y.2) ∧ ∀ x ∈ tr, R x.2 t := by
  induction h with
  | nil => exact ⟨.nil, fun x hx => (List.not_mem_nil hx).elim⟩
  | @snoc tr t e u _ hs ih =>
    have hlast : ∀ x ∈ tr, R x.2 u := fun x hx => htrans _ _ _ (ih.2 x hx) (hstep _ e u hs)
    refine ⟨List.pairwise_append.mpr ⟨ih.1, List.pairwise_singleton _ _, ?_⟩, ?_⟩
    · intro x hx y hy
      obtain rfl := List.mem_singleton.mp hy
      exact hlast x hx
    · intro x hx
      rcases List.mem_append.mp hx with hx | hx
      · exact hlast x hx
      · obtain rfl := List.mem_singleton.mp hx
        exact hrefl u

/-- The run up to a step of its trace, the step, and the run after it. -/
theorem Run.split {s t v : S} {e : E} {pre post : List (E × S)}
    (h : Run step s (pre ++ (e, v) :: post) t) :
    ∃ u, Run step s pre u ∧ step u e v ∧ Run step v post t := by
  generalize htr : pre ++ (e, v) :: post = tr at h
  induction h generalizing post with
  | nil => exact absurd htr (List.append_ne_nil_of_right_ne_nil _ (List.cons_ne_nil _ _))
  | @snoc tr w e' u hr hs ih =>
    rcases List.eq_nil_or_concat post with rfl | ⟨post', x, rfl⟩
    · obtain ⟨rfl, hlast⟩ := List.append_inj' htr rfl
      obtain ⟨rfl, rfl⟩ := Prod.mk.inj (List.singleton_inj.mp hlast)
      exact ⟨w, hr, hs, Run.nil⟩
    · rw [List.concat_eq_append] at htr ⊢
      rw [← List.cons_append, ← List.append_assoc] at htr
      obtain ⟨hpre, hlast⟩ := List.append_inj' htr rfl
      obtain rfl := List.singleton_inj.mp hlast
      obtain ⟨u', hfirst, hstep, hrest⟩ := ih hpre
      exact ⟨u', hfirst, hstep, Run.snoc e' u hrest hs⟩

/-- The last step that made `P` true; `P` has held in every state since. -/
theorem Run.rise (P : S → Prop) {s t : S} {tr : List (E × S)} (h : Run step s tr t)
    (h0 : ¬ P s) (h1 : P t) :
    ∃ pre e v post u, tr = pre ++ (e, v) :: post ∧ Run step s pre u ∧ step u e v ∧
      Run step v post t ∧ ¬ P u ∧ P v ∧ ∀ x ∈ post, P x.2 := by
  induction h with
  | nil => exact absurd h1 h0
  | @snoc tr w e u hr hs ih =>
    by_cases hw : P w
    · obtain ⟨pre, e', v, post, x, rfl, hpre, hx, hpost, hnx, hv, hall⟩ := ih hw
      refine ⟨pre, e', v, post ++ [(e, u)], x, by simp, hpre, hx, Run.snoc e u hpost hs, hnx, hv, ?_⟩
      intro y hy
      rcases List.mem_append.mp hy with hy | hy
      · exact hall y hy
      · obtain rfl := List.mem_singleton.mp hy
        exact h1
    · exact ⟨tr, e, u, [], w, rfl, hr, hs, Run.nil, hw, h1, by simp⟩

/-- A goal that is not met is still as far off as the rank says. -/
theorem Run.ranked (counts : E → Bool) (rank : S → Nat) (I goal : S → Prop)
    (hI : ∀ s e t, I s → step s e t → I t)
    (hrank : ∀ s e t, I s → step s e t → goal t ∨ rank t + (counts e).toNat ≤ rank s) {s t : S}
    {tr : List (E × S)} (h : Run step s tr t) (h0 : I s) :
    (∃ x ∈ tr, goal x.2) ∨ rank t + (tr.countP fun x => counts x.1) ≤ rank s := by
  induction h with
  | nil => exact .inr (Nat.le_refl _)
  | @snoc tr t e u hr hs ih =>
    rcases ih with ⟨x, hx, hgoal⟩ | hle
    · exact .inl ⟨x, List.mem_append_left _ hx, hgoal⟩
    · rcases hrank t e u (hr.inv I hI h0) hs with hgoal | hlower
      · exact .inl ⟨(e, u), List.mem_append_right _ (List.mem_singleton_self _), hgoal⟩
      · right
        rw [List.countP_append, List.countP_singleton]
        cases hcounts : counts e with
        | true =>
          rw [hcounts] at hlower
          rw [if_pos rfl]
          simp only [Bool.toNat_true] at hlower
          omega
        | false =>
          rw [hcounts] at hlower
          rw [if_neg Bool.false_ne_true]
          simp only [Bool.toNat_false] at hlower
          omega

/-- A run whose states all satisfy `P` is a run of the steps into `P`. -/
theorem Run.restrict (P : S → Prop) {s t : S} {tr : List (E × S)} (h : Run step s tr t)
    (hP : ∀ x ∈ tr, P x.2) : Run (fun s e t => step s e t ∧ P t) s tr t := by
  induction h with
  | nil => exact Run.nil
  | snoc e u _ hs ih =>
    have hlast := hP (e, u) (List.mem_append_right _ (List.mem_singleton_self _))
    exact Run.snoc e u (ih fun x hx => hP x (List.mem_append_left _ hx)) ⟨hs, hlast⟩

/-- A run of steps that, from the states it passes, are steps of another relation too. -/
theorem Run.mono {step' : S → E → S → Prop} (I : S → Prop) (hI : ∀ s e t, I s → step s e t → I t)
    (hsub : ∀ s e t, I s → step s e t → step' s e t) {s t : S} {tr : List (E × S)}
    (h : Run step s tr t) (h0 : I s) : Run step' s tr t := by
  induction h with
  | nil => exact Run.nil
  | snoc e u hr hs ih => exact Run.snoc e u ih (hsub _ e u (hr.inv I hI h0) hs)

/-- Every step of a trace from `s` satisfies `P`. -/
def Each (P : S → E → S → Prop) (s : S) : List (E × S) → Prop
  | [] => True
  | (e, t) :: tr => P s e t ∧ Each P t tr

theorem Each.imp {P Q : S → E → S → Prop} (hPQ : ∀ s e t, P s e t → Q s e t) {s : S}
    {tr : List (E × S)} (h : Each P s tr) :
    Each Q s tr := by
  induction tr generalizing s with
  | nil => trivial
  | cons x tr ih => exact ⟨hPQ s x.1 x.2 h.1, ih h.2⟩

/-- The last state of a trace. -/
def last (s : S) : List (E × S) → S
  | [] => s
  | (_, t) :: tr => last t tr

theorem last_snoc (s : S) (tr : List (E × S)) (e : E) (u : S) : last s (tr ++ [(e, u)]) = u := by
  induction tr generalizing s with
  | nil => rfl
  | cons x tr ih => exact ih x.2

theorem Run.last_eq {s t : S} {tr : List (E × S)} (h : Run step s tr t) : last s tr = t := by
  cases h with
  | nil => rfl
  | snoc e u => exact last_snoc _ _ e _

theorem each_append (P : S → E → S → Prop) (s : S) (tr tr' : List (E × S)) :
    Each P s (tr ++ tr') ↔ Each P s tr ∧ Each P (last s tr) tr' := by
  induction tr generalizing s with
  | nil => exact ⟨fun h => ⟨trivial, h⟩, fun h => h.2⟩
  | cons x tr ih =>
    show P s x.1 x.2 ∧ Each P x.2 (tr ++ tr') ↔
      (P s x.1 x.2 ∧ Each P x.2 tr) ∧ Each P (last x.2 tr) tr'
    rw [ih x.2, and_assoc]

theorem each_snoc (P : S → E → S → Prop) (s : S) (tr : List (E × S)) (e : E) (u : S) :
    Each P s (tr ++ [(e, u)]) ↔ Each P s tr ∧ P (last s tr) e u := by
  rw [each_append]
  exact and_congr_right fun _ => Iff.of_eq (and_true _)

/-- An invariant of the steps that satisfy `P`, along a run of such steps. -/
theorem Run.inv_each {P : S → E → S → Prop} (I : S → Prop)
    (hstep : ∀ s e t, I s → step s e t → P s e t → I t) {s t : S} {tr : List (E × S)}
    (h : Run step s tr t) (he : Each P s tr) (h0 : I s) : I t ∧ ∀ x ∈ tr, I x.2 := by
  induction h with
  | nil => exact ⟨h0, fun x hx => (List.not_mem_nil hx).elim⟩
  | @snoc tr t e u hr hs ih =>
    rw [each_snoc, hr.last_eq] at he
    obtain ⟨ht, htrace⟩ := ih he.1
    have hu := hstep t e u ht hs he.2
    refine ⟨hu, fun x hx => ?_⟩
    rcases List.mem_append.mp hx with hx | hx
    · exact htrace x hx
    · obtain rfl := List.mem_singleton.mp hx
      exact hu

/-- What every step from a state of an invariant satisfies, along a run. -/
theorem Run.each {P : S → E → S → Prop} (I : S → Prop) (hI : ∀ s e t, I s → step s e t → I t)
    (hP : ∀ s e t, I s → step s e t → P s e t) {s t : S} {tr : List (E × S)}
    (h : Run step s tr t) (h0 : I s) :
    Each P s tr := by
  induction h with
  | nil => trivial
  | snoc e u hr hs ih =>
    rw [each_snoc, hr.last_eq]
    exact ⟨ih, hP _ e u (hr.inv I hI h0) hs⟩

/-- Two properties of steps agree on the trace of a run if they agree at each state that the steps
so far, having the first, lead to. -/
theorem Run.each_iff {P Q : S → E → S → Prop} (I : S → Prop)
    (hI : ∀ s e t, I s → step s e t → P s e t → I t)
    (hiff : ∀ s e t, I s → step s e t → (P s e t ↔ Q s e t)) {s t : S} {tr : List (E × S)}
    (h : Run step s tr t) (h0 : I s) : Each P s tr ↔ Each Q s tr := by
  induction h with
  | nil => exact Iff.rfl
  | @snoc tr t e u hr hs ih =>
    rw [each_snoc, each_snoc, hr.last_eq, ← ih]
    refine and_congr_right fun heach => ?_
    exact hiff t e u (hr.inv_each I hI heach h0).1 hs

/-! ## Replaying a list of events -/

variable (next : S → E → Option S)

/-- The steps of a transition function. -/
def Next (s : S) (e : E) (t : S) : Prop := next s e = some t

def replay (s : S) : List E → Option (List (E × S))
  | [] => some []
  | e :: es => match next s e with
    | some t => (replay t es).map fun tr => (e, t) :: tr
    | none => none

/-- The state some events lead to, if all of them can happen. -/
def after (s : S) (es : List E) : S := last s ((replay next s es).getD [])

theorem replay_run {s : S} {es : List E} {tr : List (E × S)} (h : replay next s es = some tr) :
    Run (Next next) s tr (last s tr) := by
  induction es generalizing s tr with
  | nil =>
    obtain rfl := Option.some.inj h
    exact Run.nil
  | cons e es ih =>
    unfold replay at h
    split at h
    · next t ht =>
      obtain ⟨tr', htr', rfl⟩ := Option.map_eq_some_iff.mp h
      have hstep : Next next s e t := ht
      exact (Run.single hstep).trans (ih htr')
    · cases h

theorem replay_events {s : S} {es : List E} {tr : List (E × S)} (h : replay next s es = some tr) :
    tr.map Prod.fst = es := by
  induction es generalizing s tr with
  | nil =>
    obtain rfl := Option.some.inj h
    rfl
  | cons e es ih =>
    unfold replay at h
    split at h
    · obtain ⟨tr', htr', rfl⟩ := Option.map_eq_some_iff.mp h
      rw [List.map_cons, ih htr']
    · cases h

theorem after_run (s : S) (es : List E) (h : (replay next s es).isSome = true) :
    ∃ tr, Run (Next next) s tr (after next s es) ∧ tr.map Prod.fst = es := by
  obtain ⟨tr, htr⟩ := Option.isSome_iff_exists.mp h
  unfold after
  rw [htr]
  exact ⟨tr, replay_run next htr, replay_events next htr⟩

/-- The state one event leads to, if it can happen. -/
def stepTo (s : S) (e : E) : S := (next s e).getD s

theorem stepTo_step {s : S} {e : E} (h : (next s e).isSome = true) :
    Next next s e (stepTo next s e) := by
  obtain ⟨t, ht⟩ := Option.isSome_iff_exists.mp h
  unfold Next stepTo
  rw [ht]
  rfl

/-- Steps whose events alone are enough for `P`. -/
theorem each_of_events {P : S → E → S → Prop} {tr : List (E × S)} (s : S)
    (h : ∀ e ∈ tr.map Prod.fst, ∀ s t, P s e t) : Each P s tr := by
  induction tr generalizing s with
  | nil => trivial
  | cons x tr ih =>
    rw [List.map_cons] at h
    exact ⟨h x.1 List.mem_cons_self s x.2, ih x.2 fun e he => h e (List.mem_cons_of_mem _ he)⟩

/-- Steps from states of which each is enough for `P`. -/
theorem each_of_states {P : S → E → S → Prop} (I : S → Prop) (hP : ∀ s e t, I s → P s e t)
    {s : S} {tr : List (E × S)} (h0 : I s) (h : ∀ x ∈ tr, I x.2) : Each P s tr := by
  induction tr generalizing s with
  | nil => trivial
  | cons x tr ih =>
    exact ⟨hP s x.1 x.2 h0, ih (h x List.mem_cons_self) fun y hy => h y (List.mem_cons_of_mem _ hy)⟩

end Runs

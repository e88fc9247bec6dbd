import Mathlib.Data.List.Induction
import Polycopy.Lib.Keyed

/-!
# Dictionaries filled by a loop over rows

`d[key(a)] = f(d.get(key(a)), a)` for one row after another.  The value under a
key is the same loop over the rows of that key alone, so the dictionary of some
of the keys is the loop over their rows, and the order of the rows shows only
in the order of the entries.
-/

namespace Tally

variable {α κ ν : Type} [DecidableEq κ]

def get (k : κ) (d : List (κ × ν)) : Option ν := (Keyed.find Prod.fst k d).map Prod.snd

section
variable (key : α → κ) (f : Option ν → α → ν)

def step (d : List (κ × ν)) (a : α) : List (κ × ν) :=
  Keyed.put Prod.fst (key a, f (get (key a) d) a) d

def fold (rows : List α) : List (κ × ν) := rows.foldl (step key f) []

/-- The loop over rows of one key. -/
def value (rows : List α) : Option ν := rows.foldl (fun o a => some (f o a)) none

theorem fold_snoc (rows : List α) (a : α) :
    fold key f (rows ++ [a]) = step key f (fold key f rows) a := by
  unfold fold
  rw [List.foldl_append]
  rfl

theorem value_snoc (rows : List α) (a : α) : value f (rows ++ [a]) = some (f (value f rows) a) := by
  unfold value
  rw [List.foldl_append]
  rfl

theorem get_step (k : κ) (d : List (κ × ν)) (a : α) :
    get k (step key f d a) = if key a = k then some (f (get k d) a) else get k d := by
  unfold step
  conv_lhs => unfold get
  rw [Keyed.find_put]
  split
  · next h =>
    dsimp only at h
    rw [h]
    rfl
  · rfl

theorem get_fold (k : κ) (rows : List α) :
    get k (fold key f rows) = value f (rows.filter fun a => key a = k) := by
  induction rows using List.reverseRecOn with
  | nil => rfl
  | append_singleton rows a ih =>
    rw [fold_snoc, get_step, ih, List.filter_append]
    by_cases h : key a = k
    · rw [if_pos h, List.filter_cons_of_pos (by simpa using h), List.filter_nil, value_snoc]
    · rw [if_neg h, List.filter_cons_of_neg (by simpa using h), List.filter_nil, List.append_nil]

theorem fold_nodup (rows : List α) : ((fold key f rows).map Prod.fst).Nodup := by
  induction rows using List.reverseRecOn with
  | nil => exact List.nodup_nil
  | append_singleton rows a ih =>
    rw [fold_snoc]
    exact Keyed.put_nodup Prod.fst ih

theorem mem_keys {k : κ} {rows : List α} : k ∈ (fold key f rows).map Prod.fst ↔
    ∃ a ∈ rows, key a = k := by
  induction rows using List.reverseRecOn with
  | nil => simp [fold]
  | append_singleton rows a ih =>
    rw [fold_snoc, step, Keyed.put_keys]
    dsimp only
    have hstep : (∃ b ∈ rows ++ [a], key b = k) ↔ (∃ b ∈ rows, key b = k) ∨ key a = k := by
      simp [List.mem_append, or_and_right, exists_or]
    rw [hstep, ← ih]
    split
    · next hmem =>
      constructor
      · exact Or.inl
      · rintro (h | rfl)
        · exact h
        · exact hmem
    · rw [List.mem_append, List.mem_singleton]
      exact or_congr_right ⟨Eq.symm, Eq.symm⟩

end

theorem get_of_mem {d : List (κ × ν)} (hn : (d.map Prod.fst).Nodup) {kv : κ × ν} (h : kv ∈ d) :
    get kv.1 d = some kv.2 := by
  unfold get
  rw [Keyed.find_of_mem Prod.fst hn h]
  rfl

theorem mem_of_get {d : List (κ × ν)} {k : κ} {v : ν} (h : get k d = some v) : (k, v) ∈ d := by
  unfold get at h
  obtain ⟨kv, hkv, rfl⟩ := Option.map_eq_some_iff.mp h
  obtain ⟨hmem, rfl⟩ := Keyed.find_some Prod.fst hkv
  exact hmem

theorem get_filter (k : κ) (p : κ → Bool) (d : List (κ × ν)) :
    get k (d.filter fun kv => p kv.1) = if p k then get k d else none := by
  unfold get
  induction d with
  | nil => simp [Keyed.find]
  | cons kv d ih =>
    rw [List.filter_cons]
    by_cases hk : kv.1 = k
    · subst hk
      by_cases hp : p kv.1
      · simp [hp, Keyed.find_cons]
      · simpa [hp] using ih
    · rw [Keyed.find_cons, if_neg hk, ← ih]
      split
      · rw [Keyed.find_cons, if_neg hk]
      · rfl

/-! ## Some of the keys -/

theorem put_filter (p : κ → Bool) (kv : κ × ν) (d : List (κ × ν)) :
    (Keyed.put Prod.fst kv d).filter (fun x => p x.1) =
      if p kv.1 then Keyed.put Prod.fst kv (d.filter fun x => p x.1)
      else d.filter fun x => p x.1 := by
  induction d with
  | nil => simp [Keyed.put, List.filter_cons]
  | cons x d ih =>
    rw [Keyed.put_cons]
    by_cases hx : x.1 = kv.1
    · rw [if_pos hx, List.filter_cons, List.filter_cons, hx]
      split
      · rw [Keyed.put_cons, if_pos hx]
      · rfl
    · rw [if_neg hx, List.filter_cons, List.filter_cons, ih]
      by_cases hp : p x.1
      · rw [if_pos hp, if_pos hp]
        split
        · rw [Keyed.put_cons, if_neg hx]
        · rfl
      · rw [if_neg hp, if_neg hp]

/-- The rows of some of the keys give the entries of those keys, in the same order. -/
theorem fold_filter (key : α → κ) (f : Option ν → α → ν) (p : κ → Bool) (rows : List α) :
    fold key f (rows.filter fun a => p (key a)) = (fold key f rows).filter fun kv => p kv.1 := by
  induction rows using List.reverseRecOn with
  | nil => rfl
  | append_singleton rows a ih =>
    rw [fold_snoc, step, put_filter, List.filter_append]
    dsimp only
    rw [List.filter_cons (x := a), List.filter_nil]
    by_cases hp : p (key a)
    · rw [if_pos hp, if_pos hp, fold_snoc, ih, step, get_filter, if_pos hp]
    · rw [if_neg hp, if_neg hp, List.append_nil, ih]

/-! ## Dictionaries that agree under every key -/

/-- Two dictionaries with related values under each key are related entry by entry, up to order. -/
theorem exists_perm_of_get {R : ν → ν → Prop} : ∀ {d d' : List (κ × ν)}, (d.map Prod.fst).Nodup →
    (d'.map Prod.fst).Nodup → (∀ k, Option.Rel R (get k d) (get k d')) →
    ∃ l, d.Perm l ∧ List.Forall₂ (fun x y => x.1 = y.1 ∧ R x.2 y.2) l d' := by
  intro d d'
  induction d' generalizing d with
  | nil =>
    intro hn _ h
    cases d with
    | nil => exact ⟨[], List.Perm.refl _, List.Forall₂.nil⟩
    | cons kv d =>
      have hkv := h kv.1
      rw [get_of_mem hn List.mem_cons_self] at hkv
      cases hkv
  | cons kv d' ih =>
    intro hn hn' h
    have hkv := h kv.1
    rw [get_of_mem hn' List.mem_cons_self] at hkv
    cases hx : get kv.1 d with
    | none =>
      rw [hx] at hkv
      cases hkv
    | some v =>
      rw [hx] at hkv
      cases hkv with
      | some hR =>
      obtain ⟨d1, d2, rfl⟩ := List.append_of_mem (mem_of_get hx)
      have hperm : (d1 ++ (kv.1, v) :: d2).Perm ((kv.1, v) :: (d1 ++ d2)) := List.perm_middle
      have hnodup : (((kv.1, v) :: (d1 ++ d2)).map Prod.fst).Nodup :=
        (hperm.map Prod.fst).nodup_iff.mp hn
      rw [List.map_cons, List.nodup_cons] at hnodup hn'
      obtain ⟨l, hl, hrel⟩ := ih hnodup.2 hn'.2 fun k => by
        by_cases hk : k = kv.1
        · subst hk
          have h1 : get kv.1 (d1 ++ d2) = none := by
            unfold get
            rw [Option.map_eq_none_iff, Keyed.find_none]
            exact fun a ha he => hnodup.1 (he ▸ List.mem_map_of_mem ha)
          have h2 : get kv.1 d' = none := by
            unfold get
            rw [Option.map_eq_none_iff, Keyed.find_none]
            exact fun a ha he => hn'.1 (he ▸ List.mem_map_of_mem ha)
          rw [h1, h2]
          exact Option.Rel.none
        · have hk' := h k
          unfold get at hk' ⊢
          rw [Keyed.find_append, Keyed.find_cons, if_neg (fun e => hk e.symm), ← Keyed.find_append,
            Keyed.find_cons, if_neg (fun e => hk e.symm)] at hk'
          exact hk'
      exact ⟨(kv.1, v) :: l, hperm.trans (hl.cons _), List.Forall₂.cons ⟨rfl, hR⟩ hrel⟩

theorem perm_of_get {d d' : List (κ × ν)} (hn : (d.map Prod.fst).Nodup)
    (hn' : (d'.map Prod.fst).Nodup) (h : ∀ k, get k d = get k d') : d.Perm d' := by
  obtain ⟨l, hl, hrel⟩ := exists_perm_of_get (R := Eq) hn hn' fun k => by
    rw [h k]
    cases get k d' with
    | none => exact Option.Rel.none
    | some v => exact Option.Rel.some rfl
  have heq : l = d' := by
    rw [← List.forall₂_eq_eq_eq]
    exact hrel.imp fun x y hxy => Prod.ext hxy.1 hxy.2
  exact heq ▸ hl

/-! ## The order of the rows -/

section
variable {key : α → κ} {f : Option ν → α → ν}

theorem value_perm (hf : ∀ o a b, f (some (f o a)) b = f (some (f o b)) a) {rows rows' : List α}
    (h : rows.Perm rows') : value f rows = value f rows' := by
  unfold value
  exact h.foldl_eq' (fun a _ b _ o => congrArg some (hf o a b)) none

theorem fold_perm (hf : ∀ o a b, f (some (f o a)) b = f (some (f o b)) a) {rows rows' : List α}
    (h : rows.Perm rows') : (fold key f rows).Perm (fold key f rows') := by
  apply perm_of_get (fold_nodup key f rows) (fold_nodup key f rows')
  intro k
  rw [get_fold, get_fold]
  exact value_perm hf (h.filter _)

end

/-! ## Running totals and lists of rows -/

section
variable (key : α → κ)

/-- `d[key(a)] = d.get(key(a), 0) + g(a)`. -/
def totals {M : Type} [AddCommGroup M] (g : α → M) (rows : List α) : List (κ × M) :=
  fold key (fun o a => o.getD 0 + g a) rows

theorem totals_sum {M : Type} [AddCommGroup M] (g : α → M) (rows : List α) :
    ((totals key g rows).map Prod.snd).sum = (rows.map g).sum := by
  induction rows using List.reverseRecOn with
  | nil => rfl
  | append_singleton rows a ih =>
    unfold totals at *
    rw [fold_snoc, step, Keyed.sum_put Prod.fst Prod.snd, ih, List.map_append,
      List.sum_append, List.map_singleton, List.sum_singleton]
    exact (add_sub_assoc _ _ _).trans (congrArg _ (add_sub_cancel_left _ _))

theorem totals_perm {M : Type} [AddCommGroup M] (g : α → M)
    {rows rows' : List α} (h : rows.Perm rows') :
    (totals key g rows).Perm (totals key g rows') :=
  fold_perm (fun o a b => by simp only [Option.getD_some]; abel) h

/-- `d.setdefault(key(a), []).append(g(a))`. -/
def groups (g : α → ν) (rows : List α) : List (κ × List ν) :=
  fold key (fun o a => o.getD [] ++ [g a]) rows

theorem get_groups (g : α → ν) (k : κ) (rows : List α) :
    get k (groups key g rows) =
      if ∃ a ∈ rows, key a = k then some ((rows.filter fun a => key a = k).map g) else none := by
  have hvalue : ∀ l : List α, value (fun o a => o.getD [] ++ [g a]) l = if l = [] then none
      else some (l.map g) := by
    intro l
    induction l using List.reverseRecOn with
    | nil => rfl
    | append_singleton l a ih =>
      have hne : l ++ [a] ≠ [] := by simp
      rw [value_snoc, ih, if_neg hne, List.map_append, List.map_singleton]
      by_cases h : l = []
      · rw [if_pos h, h]
        rfl
      · rw [if_neg h]
        rfl
  unfold groups
  rw [get_fold, hvalue]
  by_cases h : ∃ a ∈ rows, key a = k
  · rw [if_pos h, if_neg]
    intro hnil
    obtain ⟨a, ha, hk⟩ := h
    exact List.filter_eq_nil_iff.mp hnil a ha (by simpa using hk)
  · rw [if_neg h, if_pos]
    apply List.filter_eq_nil_iff.mpr
    intro a ha hk
    exact h ⟨a, ha, by simpa using hk⟩

end

end Tally

import Polycopy.Lib.Run
import Mathlib.Data.List.Perm.Lattice
import Mathlib.Data.List.Nodup

/-!
# Work found by an anti-join

Items arrive, and from time to time some of the items that are wanted and have no
result yet are taken and given one.  `pending` is what the anti-join finds.  Whatever
is taken, and whenever items arrive, what was taken and what is pending together are
what was owed from the start (`Run.owed`); so once nothing is pending the results
depend only on the items and on the results there were before (`drained_unique`).
-/

namespace AntiJoin

open Runs

variable {α β κ : Type} [DecidableEq κ]

/-- Items wanted by `p` whose key is not among `keys`. -/
def pending (g : α → κ) (p : α → Bool) (items : List α) (keys : List κ) : List α :=
  items.filter fun a => p a && decide (g a ∉ keys)

variable {g : α → κ} {p : α → Bool}

theorem mem_pending {items : List α} {keys : List κ} {a : α} :
    a ∈ pending g p items keys ↔ a ∈ items ∧ p a = true ∧ g a ∉ keys := by
  unfold pending
  rw [List.mem_filter, Bool.and_eq_true, decide_eq_true_eq]

theorem pending_append (items new : List α) (keys : List κ) :
    pending g p (items ++ new) keys = pending g p items keys ++ pending g p new keys :=
  List.filter_append _ _

theorem pending_nodup {items : List α} (keys : List κ) (h : (items.map g).Nodup) :
    ((pending g p items keys).map g).Nodup :=
  h.sublist (List.filter_sublist.map g)

/-- More keys only take items out. -/
theorem pending_more (items : List α) (keys more : List κ) :
    pending g p items (keys ++ more) = (pending g p items keys).filter fun a =>
    decide (g a ∉ more) := by
  unfold pending
  rw [List.filter_filter]
  refine List.filter_congr fun a _ => ?_
  rw [Bool.eq_iff_iff]
  simp only [Bool.and_eq_true, decide_eq_true_eq, List.mem_append, not_or]
  tauto

/-- Items whose keys are no one else's are pending as before. -/
theorem pending_apart {items : List α} {keys more : List κ} (h : ∀ a ∈ items, g a ∉ more) :
    pending g p items (keys ++ more) = pending g p items keys := by
  rw [pending_more, List.filter_eq_self]
  intro a ha
  exact decide_eq_true (h a (mem_pending.mp ha).1)

/-- What is left when some of the pending items are taken. -/
theorem pending_taken {items rows rest : List α} {keys : List κ} (hn : (items.map g).Nodup)
    (h : (rows ++ rest).Perm (pending g p items keys)) :
    rest.Perm (pending g p items (keys ++ rows.map g)) := by
  have hkeys : ((rows ++ rest).map g).Nodup := (h.map g).nodup_iff.mpr (pending_nodup keys hn)
  rw [List.map_append, List.nodup_append] at hkeys
  rw [pending_more]
  refine List.Perm.trans ?_ (h.filter _)
  have hrows : (rows.filter fun a => decide (g a ∉ rows.map g)) = [] :=
    List.filter_eq_nil_iff.mpr fun a ha hx => of_decide_eq_true hx (List.mem_map_of_mem ha)
  have hrest : (rest.filter fun a => decide (g a ∉ rows.map g)) = rest :=
    List.filter_eq_self.mpr fun a ha => decide_eq_true fun hx =>
      hkeys.2.2 (g a) hx (g a) (List.mem_map_of_mem ha) rfl
  rw [List.filter_append, hrows, hrest, List.nil_append]

/-! ## Runs -/

/-- The items there are and the results given. -/
structure Work (α β : Type) where
  items : List α
  done : List β

inductive Event (α : Type)
  | arrive (new : List α)
  | take (rows : List α)

/-- `f` gives an item its result, under the item's key `k (f a) = g a`. -/
inductive Step (g : α → κ) (k : β → κ) (f : α → β) (p : α → Bool) :
    Work α β → Event α → Work α β → Prop
  | arrive (w : Work α β) (new : List α) (unique : ((w.items ++ new).map g).Nodup) :
      Step g k f p w (.arrive new) ⟨w.items ++ new, w.done⟩
  | take (w : Work α β) (rows rest : List α)
      (found : (rows ++ rest).Perm (pending g p w.items (w.done.map k))) :
      Step g k f p w (.take rows) ⟨w.items, w.done ++ rows.map f⟩

variable {k : β → κ} {f : α → β}

/-- What has been taken since `start`, and what is pending, are what `start` owed. -/
structure Owed (g : α → κ) (k : β → κ) (f : α → β) (p : α → Bool) (start w : Work α β)
    (taken : List α) : Prop where
  unique : (w.items.map g).Nodup
  items : ∃ new, w.items = start.items ++ new
  done : w.done = start.done ++ taken.map f
  owed : (taken ++ pending g p w.items (w.done.map k)).Perm (pending g p w.items (start.done.map k))

theorem Owed.start {w : Work α β} (h : (w.items.map g).Nodup) : Owed g k f p w w [] :=
  ⟨h, ⟨[], (List.append_nil _).symm⟩, (List.append_nil _).symm, List.Perm.refl _⟩

theorem Owed.sub {start w : Work α β} {taken : List α}
    (h : Owed g k f p start w taken) {a : α} (ha : a ∈ taken) :
    a ∈ w.items ∧ p a = true ∧ g a ∉ start.done.map k :=
  mem_pending.mp (h.owed.mem_iff.mp (List.mem_append_left _ ha))

/-- Once nothing is pending, all that was owed has been taken. -/
theorem Owed.drained {start w : Work α β} {taken : List α} (h : Owed g k f p start w taken)
    (hd : pending g p w.items (w.done.map k) = []) :
    taken.Perm (pending g p w.items (start.done.map k)) := by
  have := h.owed
  rwa [hd, List.append_nil] at this

/-- **The results do not depend on the order of things.** -/
theorem drained_unique {start w w' : Work α β} {taken taken' : List α}
    (h : Owed g k f p start w taken) (h' : Owed g k f p start w' taken')
    (hitems : w.items.Perm w'.items) (hd : pending g p w.items (w.done.map k) = [])
    (hd' : pending g p w'.items (w'.done.map k) = []) :
    w.done.Perm w'.done := by
  rw [h.done, h'.done]
  have htaken : taken.Perm taken' :=
    ((h.drained hd).trans (hitems.filter _)).trans (h'.drained hd').symm
  exact (htaken.map f).append_left _

/-- Once nothing is pending, every wanted item has its result. -/
theorem served {w : Work α β} (hd : pending g p w.items (w.done.map k) = [])
    {a : α} (ha : a ∈ w.items) (hp : p a = true) : g a ∈ w.done.map k := by
  by_contra hx
  have : a ∈ pending g p w.items (w.done.map k) := mem_pending.mpr ⟨ha, hp, hx⟩
  rw [hd] at this
  cases this

omit [DecidableEq κ] in
theorem keys_append (hf : ∀ a, k (f a) = g a) (done : List β) (rows : List α) :
    (done ++ rows.map f).map k = done.map k ++ rows.map g := by
  rw [List.map_append, List.map_map]
  congr 1
  exact List.map_congr_left fun a _ => hf a

/-- A taking leaves the pending items it did not take. -/
theorem take_rest (hf : ∀ a, k (f a) = g a) {w : Work α β} {rows rest : List α}
    (hn : (w.items.map g).Nodup)
    (found : (rows ++ rest).Perm (pending g p w.items (w.done.map k))) :
    rest.Perm (pending g p w.items ((w.done ++ rows.map f).map k)) := by
  rw [keys_append hf]
  exact pending_taken hn found

section
variable (hf : ∀ a, k (f a) = g a)
include hf

theorem Owed.step {start w w' : Work α β} {taken : List α} {e : Event α}
    (h : Owed g k f p start w taken)
    (hs : Step g k f p w e w') : ∃ rows, Owed g k f p start w' (taken ++ rows) := by
  cases hs with
  | arrive new unique =>
    refine ⟨[], ?_⟩
    obtain ⟨before, hitems⟩ := h.items
    have hapart : ∀ a ∈ new, g a ∉ taken.map g := by
      intro a ha hx
      obtain ⟨b, hb, hkey⟩ := List.mem_map.mp hx
      rw [List.map_append, List.nodup_append] at unique
      exact unique.2.2 _ (List.mem_map_of_mem (h.sub hb).1) _ (List.mem_map_of_mem ha) hkey
    refine ⟨unique, ⟨before ++ new, ?_⟩, by rw [List.append_nil]; exact h.done, ?_⟩
    · dsimp only
      rw [hitems, List.append_assoc]
    · dsimp only
      have hsame : pending g p new (w.done.map k) = pending g p new (start.done.map k) := by
        rw [h.done, keys_append hf]
        exact pending_apart hapart
      rw [List.append_nil, pending_append, pending_append, hsame, ← List.append_assoc]
      exact h.owed.append_right _
  | take rows rest found =>
    refine ⟨rows, h.unique, h.items, ?_, ?_⟩
    · dsimp only
      rw [h.done, List.map_append, List.append_assoc]
    · have hrest := take_rest hf h.unique found
      dsimp only
      rw [List.append_assoc]
      exact (((hrest.symm.append_left rows).trans found).append_left taken).trans h.owed

/-- **What is owed is kept.** -/
theorem owed_run {start w : Work α β} {tr : List (Event α × Work α β)}
    (hn : (start.items.map g).Nodup)
    (h : Run (Step g k f p) start tr w) : ∃ taken, Owed g k f p start w taken :=
  Run.inv (fun w => ∃ taken, Owed g k f p start w taken)
    (fun _ _ _ ⟨_, ho⟩ hs => (ho.step hf hs).elim fun _ h => ⟨_, h⟩) h ⟨[], Owed.start hn⟩

/-- No key is given two results. -/
theorem Owed.nodup {start w : Work α β} {taken : List α} (h : Owed g k f p start w taken)
    (hn : (start.done.map k).Nodup) : (w.done.map k).Nodup := by
  rw [h.done, keys_append hf, List.nodup_append]
  refine ⟨hn, ?_, fun a ha b hb he => ?_⟩
  · have hkeys := (h.owed.map g).nodup_iff.mpr (pending_nodup _ h.unique)
    rw [List.map_append, List.nodup_append] at hkeys
    exact hkeys.1
  · obtain ⟨x, hx, rfl⟩ := List.mem_map.mp hb
    exact (h.sub hx).2.2 (he ▸ ha)

end

end AntiJoin

import Mathlib.Data.List.Dedup
import Mathlib.Algebra.BigOperators.Group.List.Basic
import Mathlib.Algebra.GroupWithZero.Nat
import Mathlib.Algebra.Group.Action.Defs

/-!
# Ledgerlock.Pipeline.Group

The `$group` stage of an aggregation pipeline, over rows of any type: one group
for each value of the key, holding the rows with that value. The accumulators of
a stage are functions of the rows of a group.
-/

namespace Pipeline

variable {α κ : Type} [DecidableEq κ]

/-- The rows of `xs` by the value of `key`. -/
def group (key : α → κ) (xs : List α) : List (κ × List α) :=
  (xs.map key).dedup.map fun k => (k, xs.filter fun x => key x = k)

/-- There is a group for each key that occurs, and it holds all its rows. -/
theorem mem_group {key : α → κ} {xs : List α} {g : κ × List α} :
    g ∈ group key xs ↔ (∃ x ∈ xs, key x = g.1) ∧ g.2 = xs.filter fun x => key x = g.1 := by
  simp only [group, List.mem_map, List.mem_dedup]
  constructor
  · intro hgroup
    obtain ⟨k, hk, rfl⟩ := hgroup
    exact ⟨hk, rfl⟩
  · intro hgroup
    obtain ⟨hk, hrows⟩ := hgroup
    exact ⟨g.1, hk, by rw [← hrows]⟩

/-- A row is in the group of its own key. -/
theorem group_of_mem (key : α → κ) {xs : List α} {x : α} (hx : x ∈ xs) :
    (key x, xs.filter fun y => key y = key x) ∈ group key xs :=
  mem_group.mpr ⟨⟨x, hx, rfl⟩, rfl⟩

section Sums

variable {M : Type} [AddCommMonoid M]

/-- Rows all of whose keys are in a list without repetitions are summed group by
group. -/
theorem sum_eq_sum_groups {key : α → κ} {ks : List κ} (hks : ks.Nodup) {xs : List α}
    (h : ∀ x ∈ xs, key x ∈ ks) (f : α → M) :
    (xs.map f).sum = (ks.map fun k => ((xs.filter fun x => key x = k).map f).sum).sum := by
  induction xs with
  | nil => simp
  | cons x xs ih =>
      have hx : key x ∈ ks := h x List.mem_cons_self
      have hcons : ∀ k, (((x :: xs).filter fun y => key y = k).map f).sum =
          (if key x = k then f x else 0) + ((xs.filter fun y => key y = k).map f).sum := by
        intro k
        by_cases hk : key x = k <;> simp [hk]
      have hone : (ks.map fun k => if key x = k then f x else 0).sum = f x := by
        rw [List.sum_map_eq_nsmul_single (key x) _ fun k hk _ => if_neg (Ne.symm hk),
          List.count_eq_one_of_mem hks hx, if_pos rfl, one_nsmul]
      simp only [hcons, List.sum_map_add, hone]
      rw [List.map_cons, List.sum_cons, ih fun y hy => h y (List.mem_cons_of_mem x hy)]

/-- What is worth nothing may be filtered out. -/
theorem sum_eq_sum_filter {xs : List α} {p : α → Bool} {f g : α → M}
    (h : ∀ x ∈ xs, f x = if p x then g x else 0) :
    (xs.map f).sum = ((xs.filter p).map g).sum := by
  induction xs with
  | nil => rfl
  | cons x xs ih =>
      rw [List.map_cons, List.sum_cons, h x List.mem_cons_self,
        ih fun y hy => h y (List.mem_cons_of_mem x hy)]
      by_cases hx : p x <;> simp [hx]

/-- Groups that are worth nothing each are worth nothing together. -/
theorem sum_eq_zero_of_groups (key : α → κ) {xs : List α} {f : α → M}
    (h : ∀ x ∈ xs, ((xs.filter fun y => key y = key x).map f).sum = 0) : (xs.map f).sum = 0 := by
  rw [sum_eq_sum_groups (List.nodup_dedup (xs.map key))
    (fun x hx => List.mem_dedup.mpr (List.mem_map_of_mem hx)) f]
  refine List.sum_eq_zero fun m hm => ?_
  obtain ⟨k, hk, rfl⟩ := List.mem_map.mp hm
  obtain ⟨x, hx, rfl⟩ := List.mem_map.mp (List.mem_dedup.mp hk)
  exact h x hx

end Sums

/-- Rows are counted group by group, too. -/
theorem length_eq_sum_groups {key : α → κ} {ks : List κ} (hks : ks.Nodup) {xs : List α}
    (h : ∀ x ∈ xs, key x ∈ ks) :
    xs.length = (ks.map fun k => (xs.filter fun x => key x = k).length).sum := by
  have hsum := sum_eq_sum_groups hks h fun _ => 1
  simpa only [List.map_const', List.sum_replicate, smul_eq_mul, Nat.mul_one] using hsum

end Pipeline

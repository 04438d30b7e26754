import Mathlib.Algebra.BigOperators.Group.Finset.Basic
import Mathlib.Algebra.BigOperators.Group.Finset.Piecewise
import Mathlib.Algebra.Order.Group.Defs
import Mathlib.Algebra.Order.Group.Unbundled.Basic
import Mathlib.Algebra.Order.Monoid.Defs

/-!
# Ledgerlock.Bookkeeping.Journal

Double-entry bookkeeping over any names of accounts `A` and any ordered group of
amounts `M`: a journal is a list of transfers, each taking a positive amount from
one account and giving it to another, and a balance is what the journal comes to
for one account.

What a transfer does to balances is stated here once: it takes nothing from a
third party, it leaves an account solvent that was good for the amount, and to any
set of accounts it is worth its `flow` across the set's boundary (`sum_balance_eq`):
nothing if the set holds both of its parties or neither, which is conservation.
-/

namespace Bookkeeping

variable {A M : Type}

/-- A positive amount moved between two different accounts. -/
structure Transfer (A M : Type) [Zero M] [LT M] where
  source : A
  destination : A
  amount : M
  distinct : source ≠ destination
  pos : 0 < amount

section Balance

variable [DecidableEq A] [AddCommGroup M] [LinearOrder M]

/-- What a transfer is worth to one account. -/
def Transfer.effect (t : Transfer A M) (a : A) : M :=
  if a = t.source then -t.amount else if a = t.destination then t.amount else 0

/-- What a journal comes to for one account. -/
def balance (journal : List (Transfer A M)) (a : A) : M :=
  (journal.map fun t => t.effect a).sum

@[simp] theorem balance_nil (a : A) : balance ([] : List (Transfer A M)) a = 0 := rfl

@[simp] theorem balance_cons (t : Transfer A M) (journal : List (Transfer A M)) (a : A) :
    balance (t :: journal) a = t.effect a + balance journal a := by
  simp [balance]

@[simp] theorem balance_concat (journal : List (Transfer A M)) (t : Transfer A M) (a : A) :
    balance (journal ++ [t]) a = balance journal a + t.effect a := by
  simp [balance]

/-- An account that takes no part in a journal has nothing. -/
theorem balance_eq_zero {journal : List (Transfer A M)} {a : A}
    (h : ∀ t ∈ journal, a ≠ t.source ∧ a ≠ t.destination) : balance journal a = 0 := by
  refine List.sum_eq_zero fun x hx => ?_
  obtain ⟨t, ht, rfl⟩ := List.mem_map.mp hx
  obtain ⟨hs, hd⟩ := h t ht
  simp [Transfer.effect, hs, hd]

/-- Only its source is the poorer for a transfer. -/
theorem effect_nonneg {t : Transfer A M} {a : A} (h : a ≠ t.source) : 0 ≤ t.effect a := by
  unfold Transfer.effect
  rw [if_neg h]
  split
  · exact t.pos.le
  · exact le_rfl

/-- What an account has left is not negative if, whenever it is the source, it was good for
the amount. -/
theorem add_effect_nonneg [IsOrderedAddMonoid M] {t : Transfer A M} {a : A} {x : M} (h : 0 ≤ x)
    (hfunds : a = t.source → t.amount ≤ x) : 0 ≤ x + t.effect a := by
  by_cases ha : a = t.source
  · have : t.effect a = -t.amount := by rw [Transfer.effect, if_pos ha]
    rw [this, ← sub_eq_add_neg, sub_nonneg]
    exact hfunds ha
  · exact add_nonneg h (effect_nonneg ha)

/-- An account stays solvent if, whenever it is the source, it was good for the
amount. -/
theorem balance_concat_nonneg [IsOrderedAddMonoid M] {journal : List (Transfer A M)}
    {t : Transfer A M} {a : A} (h : 0 ≤ balance journal a)
    (hfunds : a = t.source → t.amount ≤ balance journal a) :
    0 ≤ balance (journal ++ [t]) a := by
  rw [balance_concat]
  exact add_effect_nonneg h hfunds

/-! ### Conservation -/

/-- What a transfer brings into a set of accounts, less what it takes out of it. -/
def Transfer.flow (t : Transfer A M) (s : Finset A) : M :=
  (if t.destination ∈ s then t.amount else 0) - if t.source ∈ s then t.amount else 0

/-- A transfer is worth to a set of accounts what it brings in. -/
theorem sum_effect (t : Transfer A M) (s : Finset A) : ∑ a ∈ s, t.effect a = t.flow s := by
  have hsplit : ∀ a, t.effect a =
      (if a = t.destination then t.amount else 0) - (if a = t.source then t.amount else 0) := by
    intro a
    by_cases hs : a = t.source
    · have hd : a ≠ t.destination := fun hd => t.distinct (hs.symm.trans hd)
      simp [Transfer.effect, hs, t.distinct]
    · simp [Transfer.effect, hs]
  simp only [hsplit, Finset.sum_sub_distrib, Finset.sum_ite_eq', Transfer.flow]

/-- A transfer brings nothing into a set of accounts that holds both of its parties, or
neither. -/
theorem flow_eq_zero {t : Transfer A M} {s : Finset A}
    (h : t.source ∈ s ↔ t.destination ∈ s) : t.flow s = 0 := by
  by_cases hs : t.source ∈ s
  · simp [Transfer.flow, hs, h.mp hs]
  · simp [Transfer.flow, hs, mt h.mpr hs]

/-- The balances of a set of accounts sum to what the journal brings in. -/
theorem sum_balance_eq (journal : List (Transfer A M)) (s : Finset A) :
    ∑ a ∈ s, balance journal a = (journal.map fun t => t.flow s).sum := by
  induction journal with
  | nil => simp
  | cons t journal ih =>
      simp only [balance_cons, Finset.sum_add_distrib]
      rw [sum_effect, ih, List.map_cons, List.sum_cons]

end Balance

end Bookkeeping

import Ledgerlock.Bookkeeping.Journal
import Mathlib.Logic.Function.Basic

/-!
# Ledgerlock.Bookkeeping.Bank

A **bank** over any names of accounts `A`, anything known of their holders `H`, and any
ordered group of amounts `M`: who holds each account that is open, and what is in it.

Two things happen to a bank, one at a time: an account is opened, or money is moved, between
accounts whose holders may trade and out of one that is good for it if it has to be. Which
these are the `Terms` say. A bank in which they are broken cannot be built, so that a run of
`Bank.Run` is safe by itself; a system is shown to be a bank by finding such a run for what
it does.
-/

namespace Bookkeeping

/-- What is agreed with the holders of accounts. -/
structure Terms (H : Type) where
  mayTrade : H → H → Prop
  /-- Such an account may not be overdrawn. -/
  limited : H → Prop

variable {A H M : Type}

/-- Who holds which account, and what is in it. -/
structure Bank (T : Terms H) (A M : Type) [Zero M] [LE M] where
  holder : A → Option H
  balance : A → M
  balance_of_none : ∀ a, holder a = none → balance a = 0
  solvent : ∀ a h, holder a = some h → T.limited h → 0 ≤ balance a

/-- What happens to a bank. -/
inductive Event (A H M : Type) [Zero M] [LT M]
  | opened (a : A) (h : H)
  | moved (t : Transfer A M)

namespace Event

variable [AddCommGroup M] [LinearOrder M]

/-- The account that is opened. -/
def opening : Event A H M → Option (A × H)
  | opened a h => some (a, h)
  | moved _ => none

/-- The transfer that is made. -/
def movement : Event A H M → Option (Transfer A M)
  | opened _ _ => none
  | moved t => some t

end Event

namespace Bank

variable {T : Terms H} [DecidableEq A] [AddCommGroup M] [LinearOrder M]

/-- No account is open. -/
def empty : Bank T A M where
  holder _ := none
  balance _ := 0
  balance_of_none _ _ := rfl
  solvent _ _ h := nomatch h

/-- A new account, with nothing in it. -/
def openAccount (b : Bank T A M) (a : A) (h : H) (ha : b.holder a = none) : Bank T A M where
  holder := Function.update b.holder a (some h)
  balance := b.balance
  balance_of_none a' ha' := by
    by_cases hne : a' = a
    · rw [hne, Function.update_self] at ha'
      cases ha'
    · rw [Function.update_of_ne hne] at ha'
      exact b.balance_of_none a' ha'
  solvent a' h' ha' hlimited := by
    by_cases hne : a' = a
    · rw [hne]
      exact (b.balance_of_none a ha).ge
    · rw [Function.update_of_ne hne] at ha'
      exact b.solvent a' h' ha' hlimited

/-- The two may trade, and the source is good for the amount. -/
structure Allows (b : Bank T A M) (t : Transfer A M) : Prop where
  parties : ∃ h h', b.holder t.source = some h ∧ b.holder t.destination = some h' ∧
    T.mayTrade h h'
  funds : ∀ h, b.holder t.source = some h → T.limited h → t.amount ≤ b.balance t.source

/-- Money is moved. -/
def move [IsOrderedAddMonoid M] (b : Bank T A M) (t : Transfer A M) (ht : b.Allows t) :
    Bank T A M where
  holder := b.holder
  balance a := b.balance a + t.effect a
  balance_of_none a ha := by
    obtain ⟨h, h', hsource, hdestination, -⟩ := ht.parties
    have hs : a ≠ t.source := by
      rintro rfl
      cases ha.symm.trans hsource
    have hd : a ≠ t.destination := by
      rintro rfl
      cases ha.symm.trans hdestination
    rw [b.balance_of_none a ha, Transfer.effect, if_neg hs, if_neg hd, add_zero]
  solvent a h ha hlimited := by
    refine add_effect_nonneg (b.solvent a h ha hlimited) ?_
    rintro rfl
    exact ht.funds h ha hlimited

variable [IsOrderedAddMonoid M]

/-- One event. -/
inductive Step : Bank T A M → Event A H M → Bank T A M → Prop
  | opened {b : Bank T A M} {a : A} {h : H} (ha : b.holder a = none) :
      Step b (.opened a h) (b.openAccount a h ha)
  | moved {b : Bank T A M} {t : Transfer A M} (ht : b.Allows t) : Step b (.moved t) (b.move t ht)

/-- Finitely many events. -/
inductive Run (b : Bank T A M) : List (Event A H M) → Bank T A M → Prop
  | nil : Run b [] b
  | concat {events : List (Event A H M)} {c d : Bank T A M} {e : Event A H M} :
      Run b events c → Step c e d → Run b (events ++ [e]) d

variable {b c d : Bank T A M} {events events' : List (Event A H M)}

theorem Run.trans (h : Run b events c) (h' : Run c events' d) : Run b (events ++ events') d := by
  induction h' with
  | nil => rwa [List.append_nil]
  | concat _ hs ih =>
      rw [← List.append_assoc]
      exact ih.concat hs

end Bank

end Bookkeeping

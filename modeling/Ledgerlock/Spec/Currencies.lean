import Ledgerlock.Spec.Audit
import Mathlib.Algebra.Order.BigOperators.Group.List
import Mathlib.Logic.Relation
import Mathlib.Order.WellFoundedSet

/-!
# Ledgerlock.Spec.Currencies

What a healthy report says about currencies.

The check of a transaction's pair does not look at currencies, and the check of a
currency does not look at pairs. Pairs of one currency are worth nothing to it, so
what the second check sees of a ledger is what the pairs of two currencies bring
into a currency and take out of it (`signedSum_currency`). A healthy report has
these equal, so a currency that value was converted into is one that value was
converted out of (`converts_into_iff`), and a ledger has only so many currencies:
in the end conversions go round.
-/

namespace Ledgerlock

open Mvcc

/-- The DEBIT and the CREDIT of a transaction carry one currency. -/
def SameCurrency (d : Database) : Prop :=
  ∀ e ∈ d.ledgerEntries, ∀ f ∈ d.ledgerEntries, e.transactionId = f.transactionId →
    e.direction = .debit → f.direction = .credit → e.currency = f.currency

/-- The transaction of the entry has an entry in another currency. -/
def Database.mixed (d : Database) (e : LedgerEntry) : Bool :=
  d.ledgerEntries.any fun f => f.transactionId = e.transactionId && f.currency ≠ e.currency

theorem Database.mixed_iff {d : Database} {e : LedgerEntry} : d.mixed e = true ↔
    ∃ f ∈ d.ledgerEntries, f.transactionId = e.transactionId ∧ f.currency ≠ e.currency := by
  simp [mixed]

/-- The amounts of the entries of one direction and currency whose transactions
are in two currencies. -/
def Database.mixedTotal (d : Database) (direction : EntryDirection) (currency : String) : Int :=
  ((d.ledgerEntries.filter fun e => (e.currency = currency && d.mixed e) &&
    e.direction = direction).map (·.amountMinor)).sum

/-- A transaction takes value out of currency `a` and brings it into currency `b`. -/
def Database.Converts (d : Database) (a b : String) : Prop :=
  ∃ e ∈ d.ledgerEntries, ∃ f ∈ d.ledgerEntries, e.transactionId = f.transactionId ∧
    e.direction = .debit ∧ f.direction = .credit ∧ e.currency = a ∧ f.currency = b ∧ a ≠ b

theorem sameCurrency_iff {d : Database} : SameCurrency d ↔ ∀ a b, ¬ d.Converts a b := by
  constructor
  · intro hsame a b hconverts
    obtain ⟨e, he, f, hf, hid, hdebit, hcredit, rfl, rfl, hne⟩ := hconverts
    exact hne (hsame e he f hf hid hdebit hcredit)
  · intro hnone e he f hf hid hdebit hcredit
    by_contra hne
    exact hnone _ _ ⟨e, he, f, hf, hid, hdebit, hcredit, rfl, rfl, hne⟩

/-- On finitely many values a relation that never leads back comes to an end. -/
theorem exists_end {α : Type} {r : α → α → Prop} {s : Set α} (hs : s.Finite)
    (hmem : ∀ a b, r a b → b ∈ s) (hback : ∀ a, ¬ Relation.TransGen r a a) {a b : α}
    (hab : r a b) : ∃ a' b', r a' b' ∧ ∀ c, ¬ r b' c := by
  have hstrict : IsStrictOrder α fun x y => Relation.TransGen r y x :=
    { irrefl := hback, trans := fun _ _ _ hyx hzy => hzy.trans hyx }
  have hwf : s.WellFoundedOn fun x y => Relation.TransGen r y x := hs.wellFoundedOn
  refine hwf.induction (P := fun b => ∀ a, r a b → ∃ a' b', r a' b' ∧ ∀ c, ¬ r b' c)
    (hmem a b hab) (fun b _ ih a hab => ?_) a hab
  by_cases hend : ∃ c, r b c
  · obtain ⟨c, hbc⟩ := hend
    exact ih c (hmem b c hbc) (.single hbc) b hbc
  · exact ⟨a, b, hab, fun c hbc => hend ⟨c, hbc⟩⟩

/-! ### What one currency comes to -/

/-- A sum of signed amounts is what is credited less what is debited. -/
theorem signedSum_filter {entries : List LedgerEntry}
    (h : ∀ e ∈ entries, ledgerEntryValidator e = true) (p : LedgerEntry → Bool) :
    signedSum (entries.filter p) =
      ((entries.filter fun e => p e && e.direction = .credit).map (·.amountMinor)).sum -
        ((entries.filter fun e => p e && e.direction = .debit).map (·.amountMinor)).sum := by
  induction entries with
  | nil => rfl
  | cons e entries ih =>
      obtain ⟨-, -, -, -, hsigned⟩ := ledgerEntryValidator_iff.mp (h e List.mem_cons_self)
      have hrest := ih fun f hf => h f (List.mem_cons_of_mem e hf)
      simp only [signedSum] at hrest ⊢
      cases hp : p e with
      | false => simpa [hp] using hrest
      | true =>
          cases hside : e.direction with
          | credit =>
              rw [hside, if_pos rfl] at hsigned
              simp [hp, hside, hrest, hsigned]
              omega
          | debit =>
              rw [hside, if_neg (by decide)] at hsigned
              simp [hp, hside, hrest, hsigned]
              omega

/-- Entries of one transaction that are not mixed carry its one currency. -/
theorem currency_eq_of_not_mixed {d : Database} {e f : LedgerEntry} (he : d.mixed e = false)
    (hf : f ∈ d.ledgerEntries) (hsame : f.transactionId = e.transactionId) :
    f.currency = e.currency ∧ d.mixed f = false := by
  have hone : ∀ g ∈ d.ledgerEntries, g.transactionId = e.transactionId →
      g.currency = e.currency := by
    intro g hg hgid
    by_contra hne
    exact absurd (Database.mixed_iff.mpr ⟨g, hg, hgid, hne⟩) (ne_true_of_eq_false he)
  refine ⟨hone f hf hsame, ?_⟩
  by_contra hmixed
  obtain ⟨g, hg, hgid, hne⟩ := Database.mixed_iff.mp (Bool.eq_true_of_not_eq_false hmixed)
  exact hne ((hone g hg (hgid.trans hsame)).trans (hone f hf hsame).symm)

/-- Pairs of one currency are worth nothing to any currency. -/
theorem signedSum_not_mixed {d : Database}
    (hpaired : ∀ e ∈ d.ledgerEntries, IsPair (d.entriesIn e.transactionId)) (currency : String) :
    signedSum (d.ledgerEntries.filter fun e => e.currency = currency && !d.mixed e) = 0 := by
  refine Pipeline.sum_eq_zero_of_groups (·.transactionId) fun e he => ?_
  obtain ⟨hmem, hcurrency, hmixed⟩ : e ∈ d.ledgerEntries ∧ e.currency = currency ∧
      d.mixed e = false := by simpa using he
  have hwhole : ((d.ledgerEntries.filter fun f => f.currency = currency && !d.mixed f).filter
      fun f => f.transactionId = e.transactionId) = d.entriesIn e.transactionId := by
    rw [List.filter_filter, Database.entriesIn]
    refine List.filter_congr fun f hf => ?_
    by_cases hid : f.transactionId = e.transactionId
    · obtain ⟨hsame, hfm⟩ := currency_eq_of_not_mixed hmixed hf hid
      simp [hid, hsame, hcurrency, hfm]
    · simp [hid]
  rw [hwhole]
  exact (hpaired e hmem).net

theorem signedSum_filter_split (entries : List LedgerEntry) (p : LedgerEntry → Bool) :
    signedSum (entries.filter p) + signedSum (entries.filter fun e => !p e) =
      signedSum entries := by
  induction entries with
  | nil => rfl
  | cons e entries ih =>
      simp only [signedSum] at ih ⊢
      cases hp : p e <;> simp [hp, ← ih] <;> omega

/-- A currency comes to what the mixed pairs bring into it, less what they take out
of it. -/
theorem signedSum_currency {d : Database} (hd : Valid d)
    (hpaired : ∀ e ∈ d.ledgerEntries, IsPair (d.entriesIn e.transactionId)) (currency : String) :
    signedSum (d.ledgerEntries.filter fun e => e.currency = currency) =
      d.mixedTotal .credit currency - d.mixedTotal .debit currency := by
  have hsplit : signedSum (d.ledgerEntries.filter fun e => e.currency = currency) =
      signedSum (d.ledgerEntries.filter fun e => e.currency = currency && d.mixed e) +
        signedSum (d.ledgerEntries.filter fun e => e.currency = currency && !d.mixed e) := by
    rw [← signedSum_filter_split (d.ledgerEntries.filter fun e => e.currency = currency) d.mixed,
      List.filter_filter, List.filter_filter]
    simp only [Bool.and_comm]
  rw [hsplit, signedSum_not_mixed hpaired, add_zero, signedSum_filter hd.ledgerEntries]
  rfl

/-- Two entries of a pair go in different directions. -/
theorem IsPair.directions_ne {entries : List LedgerEntry} (h : IsPair entries)
    {e f : LedgerEntry} (he : e ∈ entries) (hf : f ∈ entries) (hne : e ≠ f) :
    e.direction ≠ f.direction := by
  intro hsame
  have hone : entries.countP (fun g => g.direction = f.direction) = 1 := by
    cases hfd : f.direction with
    | debit => exact h.debit
    | credit => exact h.credit
  rw [List.countP_eq_length_filter, List.length_eq_one_iff] at hone
  obtain ⟨g, hg⟩ := hone
  have hef : e ∈ entries.filter fun g => g.direction = f.direction := by simp [he, hsame]
  have hff : f ∈ entries.filter fun g => g.direction = f.direction := by simp [hf]
  rw [hg, List.mem_singleton] at hef hff
  exact hne (hef.trans hff.symm)

/-- What two-currency pairs bring into or take out of a currency is positive, if there
are any. -/
theorem mixedTotal_pos_iff {d : Database} (hd : Valid d) {direction : EntryDirection}
    {currency : String} : 0 < d.mixedTotal direction currency ↔
      ∃ e ∈ d.ledgerEntries, e.currency = currency ∧ d.mixed e = true ∧
        e.direction = direction := by
  have hamount : ∀ e ∈ d.ledgerEntries, 0 < e.amountMinor := fun e he =>
    (ledgerEntryValidator_iff.mp (hd.ledgerEntries e he)).2.1
  constructor
  · intro hpos
    by_contra hnone
    push Not at hnone
    have hempty : (d.ledgerEntries.filter fun e => (e.currency = currency && d.mixed e) &&
        e.direction = direction) = [] := by
      refine List.filter_eq_nil_iff.mpr fun e he => ?_
      simpa using hnone e he
    simp [Database.mixedTotal, hempty] at hpos
  · intro hsome
    obtain ⟨e, he, hcurrency, hmixed, hdirection⟩ := hsome
    refine List.sum_pos _ (fun x hx => ?_) (List.ne_nil_of_mem (a := e.amountMinor) ?_)
    · obtain ⟨f, hf, rfl⟩ := List.mem_map.mp hx
      exact hamount f (List.mem_filter.mp hf).1
    · exact List.mem_map_of_mem (by simp [he, hcurrency, hmixed, hdirection])

section Paired

variable {d : Database} (hpaired : ∀ e ∈ d.ledgerEntries, IsPair (d.entriesIn e.transactionId))
include hpaired

/-- The other entry of a transaction goes the other way. -/
theorem direction_of_other {e f : LedgerEntry} (he : e ∈ d.ledgerEntries)
    (hf : f ∈ d.ledgerEntries) (hid : f.transactionId = e.transactionId)
    (hne : f.currency ≠ e.currency) : e.direction ≠ f.direction :=
  (hpaired e he).directions_ne (by simp [Database.entriesIn, he])
    (by simp [Database.entriesIn, hf, hid]) fun h => hne (by rw [h])

theorem converts_out_iff {currency : String} : (∃ b, d.Converts currency b) ↔
    ∃ e ∈ d.ledgerEntries, e.currency = currency ∧ d.mixed e = true ∧ e.direction = .debit := by
  constructor
  · intro hconverts
    obtain ⟨_, e, he, f, hf, hid, hdebit, -, rfl, rfl, hne⟩ := hconverts
    exact ⟨e, he, rfl, Database.mixed_iff.mpr ⟨f, hf, hid.symm, hne.symm⟩, hdebit⟩
  · intro hmixed
    obtain ⟨e, he, rfl, hmixed, hdebit⟩ := hmixed
    obtain ⟨f, hf, hid, hne⟩ := Database.mixed_iff.mp hmixed
    have hother := direction_of_other hpaired he hf hid hne
    cases hcredit : f.direction with
    | debit => exact absurd (hdebit.trans hcredit.symm) hother
    | credit => exact ⟨f.currency, e, he, f, hf, hid.symm, hdebit, hcredit, rfl, rfl, hne.symm⟩

theorem converts_in_iff {currency : String} : (∃ a, d.Converts a currency) ↔
    ∃ e ∈ d.ledgerEntries, e.currency = currency ∧ d.mixed e = true ∧ e.direction = .credit := by
  constructor
  · intro hconverts
    obtain ⟨_, e, he, f, hf, hid, -, hcredit, rfl, rfl, hne⟩ := hconverts
    exact ⟨f, hf, rfl, Database.mixed_iff.mpr ⟨e, he, hid, hne⟩, hcredit⟩
  · intro hmixed
    obtain ⟨e, he, rfl, hmixed, hcredit⟩ := hmixed
    obtain ⟨f, hf, hid, hne⟩ := Database.mixed_iff.mp hmixed
    have hother := direction_of_other hpaired he hf hid hne
    cases hdebit : f.direction with
    | debit => exact ⟨f.currency, f, hf, e, he, hid, hdebit, hcredit, rfl, rfl, hne⟩
    | credit => exact absurd (hcredit.trans hdebit.symm) hother

end Paired

/-- In a healthy ledger a currency that is converted into is converted out of. -/
theorem converts_into_iff {d : Database} (hd : Valid d) (hhealthy : Healthy d)
    {currency : String} : (∃ a, d.Converts a currency) ↔ ∃ b, d.Converts currency b := by
  have hzero := hhealthy.perCurrency currency
  rw [signedSum_currency hd hhealthy.paired, sub_eq_zero] at hzero
  rw [converts_in_iff hhealthy.paired, converts_out_iff hhealthy.paired,
    ← mixedTotal_pos_iff hd, ← mixedTotal_pos_iff hd, hzero]

/-- A healthy report of a valid database is right about currencies unless conversions
lead from a currency back to it. -/
theorem healthy_sameCurrency_iff [ServerSum] {d : Database} (hd : Valid d) {ws : List DbWrite}
    {ids : List ObjectId} {r : ReconciliationReport}
    (hrun : Progress d gatherReport ws ids (.done r)) (hhealthy : r.healthy = true) :
    SameCurrency d ↔ ∀ currency, ¬ Relation.TransGen d.Converts currency currency := by
  obtain ⟨checkedAt, rfl⟩ := report_of_progress hrun
  have hhealthy := (healthy_iff checkedAt).mp hhealthy
  rw [sameCurrency_iff]
  constructor
  · intro hnone currency hback
    obtain ⟨b, hfirst, -⟩ := Relation.TransGen.head'_iff.mp hback
    exact hnone currency b hfirst
  · intro hback a b hconverts
    have hfinite : {c | c ∈ d.ledgerEntries.map (·.currency)}.Finite := List.finite_toSet _
    have hcurrency : ∀ a b, d.Converts a b → b ∈ d.ledgerEntries.map (·.currency) := by
      intro a b hconverts
      obtain ⟨-, -, f, hf, -, -, -, -, rfl, -⟩ := hconverts
      exact List.mem_map_of_mem (f := (·.currency)) hf
    obtain ⟨a', b', hlast, hend⟩ := exists_end hfinite hcurrency hback hconverts
    obtain ⟨c, hout⟩ := (converts_into_iff hd hhealthy).mp ⟨a', hlast⟩
    exact hend c hout

section Example

open scoped Example

/-- A pair with its credit in euros, and another with its debit in euros. -/
def Example.crossedDb (x y : Stamp) : Database where
  accounts := Example.deployment.accounts
  transactions := [x.header Example.funding,
    y.header { Example.funding with idempotencyKey := "funding-0002" }]
  ledgerEntries := [x.debit Example.funding,
    { x.credit Example.funding with currency := "EUR" },
    { y.debit Example.funding with currency := "EUR" }, y.credit Example.funding]

def Example.otherStamp : Stamp := ⟨6, 7, 8, 0, 0, 0⟩

theorem Example.crossedDb_valid : Valid (Example.crossedDb Example.stamp Example.otherStamp) where
  keys := by decide
  transactions := by decide
  ledgerEntries := by decide

/-- Two pairs that each change currency, there and back, make a healthy report. -/
theorem healthy_crossed : ¬ ∀ (d : Database) (ws : List DbWrite) (ids : List ObjectId)
    (r : ReconciliationReport), Valid d → Progress d gatherReport ws ids (.done r) →
    r.healthy = true → SameCurrency d := by
  intro h
  obtain ⟨checkedAt, hrun⟩ :=
    gatherReport_runs (Example.crossedDb Example.stamp Example.otherStamp)
  have hhealthy : ((Example.crossedDb Example.stamp Example.otherStamp).report
      checkedAt).healthy = true := by rfl
  have hsame := h _ _ _ _ Example.crossedDb_valid hrun hhealthy
    (Example.stamp.debit Example.funding) (by decide)
    { Example.stamp.credit Example.funding with currency := "EUR" } (by decide) rfl rfl rfl
  exact absurd hsame (by decide)

/-- The funded database of the example has no pair of two currencies. -/
theorem healthy_sameCurrency_funded : ∃ r, Progress (Example.fundedDb Example.stamp)
    gatherReport [] [] (.done r) ∧ r.healthy = true ∧
    SameCurrency (Example.fundedDb Example.stamp) := by
  obtain ⟨checkedAt, hrun⟩ := gatherReport_runs (Example.fundedDb Example.stamp)
  have hhealthy : ((Example.fundedDb Example.stamp).report checkedAt).healthy = true := by rfl
  refine ⟨_, hrun, hhealthy,
    (healthy_sameCurrency_iff Example.fundedDb_valid hrun hhealthy).mpr fun currency hback => ?_⟩
  obtain ⟨b, hfirst, -⟩ := Relation.TransGen.head'_iff.mp hback
  obtain ⟨e, he, f, hf, -, -, -, rfl, rfl, hne⟩ := hfirst
  have hdollars : ∀ e ∈ (Example.fundedDb Example.stamp).ledgerEntries,
      e.currency = "USD" := by decide
  exact hne ((hdollars e he).trans (hdollars f hf).symm)

end Example

end Ledgerlock

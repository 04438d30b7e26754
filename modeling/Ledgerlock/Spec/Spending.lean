import Ledgerlock.Spec.Serving

/-!
# Ledgerlock.Spec.Spending

Only the owner can spend: in every run of the API a USER account is debited for its
owner only, and the SYSTEM account of a currency for the funding of an account by its
owner.
-/

namespace Ledgerlock

open Interleave (Config)
open Mvcc

section Runs

variable {ν : Type} [ServerSum] [DecidableEq ν] {A : Api ν} {s : ApiState ν}
  {c : Config ν (ApiState ν) AccountStamp ErrorResponse Api.Handled}

/-- The debit `e` of the account `a` is in order: the owner has submitted it, or it is a
funding of an account of whoever has. -/
def Database.Spendable (d : Database) (e : LedgerEntry) (a : Account) : Prop :=
  ∃ t ∈ d.transactions, t.id = e.transactionId ∧ ∃ user, t.submittedBy = some user ∧
    match a.accountType with
    | .user => a.ownerId = some user
    | .system => t.kind = .funding ∧ ∀ credit ∈ d.ledgerEntries, credit.transactionId = t.id →
        credit.direction = .credit →
        ∃ b ∈ d.accounts, b.id = credit.accountId ∧ b.ownerId = some user

/-- An account whose source is authorised. -/
theorem ApiInv.spender (h : ApiInv A s) {r : ApiRequest} {args : TransferArgs}
    (hauth : Authorised (A.db s) r args) {a : Account} (ha : a ∈ (A.db s).accounts)
    (hid : a.id = args.sourceAccountId) :
    (a.accountType = .user → a.ownerId = some r.user ∧ args.kind = .transfer) ∧
      (a.accountType = .system → args.kind = .funding) := by
  have hholder := h.holder ha
  rw [hid] at hholder
  cases hauth with
  | transfer hkind _ _ hsource howner =>
      obtain rfl := Option.some.inj (hholder.symm.trans hsource)
      refine ⟨fun _ => ⟨howner, hkind⟩, fun hsystem => ?_⟩
      have hnone := (h.boundaries _ _ hsource hsystem).1
      exact absurd (hnone.symm.trans howner) (by simp)
  | funding hkind _ hsource htype _ _ =>
      obtain rfl := Option.some.inj (hholder.symm.trans hsource)
      exact ⟨fun huser => absurd (huser.symm.trans htype) (by decide), fun _ => hkind⟩

/-- The one credit of a transaction is on the destination its header names. -/
theorem ApiInv.credit (h : ApiInv A s) {e : LedgerEntry} (he : e ∈ (A.db s).ledgerEntries)
    (hcredit : e.direction = .credit) {t : Transaction} (ht : t ∈ (A.db s).transactions)
    (hid : e.transactionId = t.id) : e.accountId = t.destinationAccountId := by
  obtain ⟨i, args, x, -, hheader, rfl | rfl⟩ := h.entry he
  · cases hcredit
  · rw [show t = x.header args from eq_of_mem_keys (Database.transactions_keys_nodup h.keys) ht
      hheader (k := .transaction t.id) (by simp [Transaction.keys])
      (by simp [Transaction.keys, ← hid, Stamp.credit, Stamp.header])]
    rfl

theorem ApiInv.spendable (h : ApiInv A s) {e : LedgerEntry} (he : e ∈ (A.db s).ledgerEntries)
    (hdebit : e.direction = .debit) {a : Account} (ha : a ∈ (A.db s).accounts)
    (hid : a.id = e.accountId) : (A.db s).Spendable e a := by
  obtain ⟨i, args, x, hauth, hheader, rfl | rfl⟩ := h.entry he
  · obtain ⟨huser, hsystem⟩ := h.spender hauth ha hid
    refine ⟨x.header args, hheader, rfl, (A.requests i).user, hauth.submitted, ?_⟩
    split
    · rename_i htype
      exact (huser htype).1
    · rename_i htype
      have hkind := hsystem htype
      refine ⟨hkind, fun credit hcredit htransaction hdirection => ?_⟩
      have hdestination := h.credit hcredit hdirection hheader htransaction
      obtain ⟨destination, hfound, howner⟩ := hauth.funded hkind
      obtain ⟨b, hb, hbid, rfl⟩ := (Database.holder_iff h.keys).mp hfound
      exact ⟨b, hb, hbid.trans hdestination.symm, howner⟩
  · cases hdebit

/-- A commit that lowers the balance of a USER account carries out a request of its
owner. -/
theorem ApiInv.lowered (h : ApiInv A s) {n : Nat} {k : Commit (TransferCall ν) DbWrite ObjectId}
    (hk : s.ledger.log[n]? = some k) {a : Account} (ha : a ∈ (A.db s).accounts)
    (huser : a.accountType = .user)
    (hlower : (s.ledger.dbAt A.deployment.system (n + 1)).balance a.id <
      (s.ledger.dbAt A.deployment.system n).balance a.id) :
    ∃ i args, k.author = some (i, args) ∧ a.ownerId = some (A.requests i).user := by
  have hnext : s.ledger.dbAt A.deployment.system (n + 1) =
      view (s.ledger.dbAt A.deployment.system n) k.writes := by
    rw [State.dbAt, List.take_add_one, hk, Option.toList_some, replay_concat]
    rfl
  rw [hnext] at hlower
  rcases h.commit hk with ⟨i, args, source, x, hauthor, hauth, hdistinct, hpos, hw⟩ |
    ⟨w, -, hw, hws⟩
  · let p : Posting := ⟨args, x, hdistinct, hpos⟩
    have heffect := balance_transferWrites (s.ledger.dbAt A.deployment.system n) p source a.id
    rw [hw, heffect] at hlower
    have hsource : a.id = args.sourceAccountId := by
      by_contra hne
      have hnonneg := Bookkeeping.effect_nonneg (t := p.transfer) hne
      omega
    exact ⟨i, args, hauthor, ((h.spender hauth ha hsource).1 huser).1⟩
  · rw [hws] at hlower
    exact absurd hlower (by
      rw [view_cons, view_nil]
      exact (accountWrite_balance hw _ _).not_lt)

/-- Only the owner can spend. -/
theorem owner_spends (h : A.Reached c) :
    (∀ e ∈ (A.db c.shared).ledgerEntries, e.direction = .debit →
      ∀ a ∈ (A.db c.shared).accounts, a.id = e.accountId →
        (A.db c.shared).Spendable e a) ∧
    (∀ a ∈ (A.db c.shared).accounts, a.id ∉ c.shared.provisioned → a.accountType = .user) ∧
    (∀ n k, c.shared.ledger.log[n]? = some k → ∀ a ∈ (A.db c.shared).accounts,
      a.accountType = .user →
      (c.shared.ledger.dbAt A.deployment.system (n + 1)).balance a.id <
        (c.shared.ledger.dbAt A.deployment.system n).balance a.id →
      ∃ i args, k.author = some (i, args) ∧ a.ownerId = some (A.requests i).user) ∧
    ∀ k ∈ c.shared.ledger.log, ∀ i args user header payload, k.author = some (i, args) →
      A.requests i = .moveMoney ⟨user, header, .createTransaction payload⟩ →
      ∀ e, .insertLedgerEntry e ∈ k.writes → e.direction = .debit →
      ∀ a ∈ (A.db c.shared).accounts, a.id = e.accountId → a.accountType = .user := by
  have hinv := h.inv
  refine ⟨fun e he hdebit a ha hid => hinv.spendable he hdebit ha hid, fun a ha hnew => ?_,
    fun n k hk a ha huser hlower => hinv.lowered hk ha huser hlower,
    fun k hk i args user header payload hauthor hi e he hdebit a ha hid => ?_⟩
  · cases htype : a.accountType with
    | user => rfl
    | system => exact absurd (hinv.boundaries _ _ (hinv.holder ha) htype).2 hnew
  · obtain ⟨n, hn⟩ := List.mem_iff_getElem?.mp hk
    rcases hinv.commit hn with ⟨j, args', source, x, hauthor', hauth, -, -, hw⟩ |
      ⟨w, hauthor', -, -⟩
    · obtain ⟨rfl, rfl⟩ := Prod.mk.inj (Option.some.inj (hauthor.symm.trans hauthor'))
      rw [hw] at he
      rcases mem_transferWrites.mp he with rfl | rfl
      · cases htype : a.accountType with
        | user => rfl
        | system =>
            have hkind := (hinv.spender hauth ha hid).2 htype
            rw [hi] at hauth
            cases hauth with
            | transfer hkind' => exact absurd (hkind.symm.trans hkind') (by decide)
      · cases hdebit
    · cases hauthor.symm.trans hauthor'

end Runs

section Example

open scoped Example

/-- The debit of the SYSTEM account in the run of the example funds Alice's own. -/
theorem owner_spends_funded : ∃ c x, Example.api.Reached c ∧
    (Example.api.db c.shared).Spendable
      (Stamp.debit x (Example.fundArgs 11 1 "funding-0001")) Example.boundary := by
  obtain ⟨c, x, hc, hdb, -⟩ := Example.funded_api
  obtain ⟨hspendable, -⟩ := owner_spends hc
  have hentry : x.debit (Example.fundArgs 11 1 "funding-0001") ∈
      (Example.api.db c.shared).ledgerEntries := by
    rw [hdb]
    exact List.mem_cons_self
  have haccount : Example.boundary ∈ (Example.api.db c.shared).accounts := by
    rw [hdb]
    exact List.mem_cons_self
  exact ⟨c, x, hc, hspendable _ hentry rfl _ haccount rfl⟩

end Example

end Ledgerlock

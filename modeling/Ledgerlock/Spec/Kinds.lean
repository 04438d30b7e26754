import Ledgerlock.Pipeline.Group
import Ledgerlock.Spec.Balances
import Ledgerlock.Spec.Serving

/-!
# Ledgerlock.Spec.Kinds

What the kind of a transaction says about it: that value moves between two USER
accounts, or enters the ledger from outside.

`create_transfer` stores the kind it is given. `fund_account` picks both accounts
itself, but `create_transaction` takes any destination that exists, and the SYSTEM
account of a currency is one. So the kinds say what they should for as long as no such
request is carried out (`kinds_hold_iff`), and only then do users hold what was funded.
-/

namespace Ledgerlock

open Interleave (Config)
open Mvcc

/-- The account exists and has that type. -/
def Database.HasType (d : Database) (id : ObjectId) (accountType : AccountType) : Prop :=
  ∃ a ∈ d.accounts, a.id = id ∧ a.accountType = accountType

/-- What `TransactionKind` says of every transaction. -/
structure Database.KindsHold (d : Database) : Prop where
  transfer : ∀ t ∈ d.transactions, t.kind = .transfer →
    d.HasType t.sourceAccountId .user ∧ d.HasType t.destinationAccountId .user
  funding : ∀ t ∈ d.transactions, t.kind = .funding →
    d.HasType t.sourceAccountId .system ∧ d.HasType t.destinationAccountId .user

/-- The amounts of the FUNDING transactions in a currency. -/
def Database.funded (d : Database) (currency : String) : Int :=
  ((d.transactions.filter fun t => t.kind = .funding ∧ t.currency = currency).map
    (·.amountMinor)).sum

theorem Database.hasType_iff {d : Database} (hd : d.keys.Nodup) {id : ObjectId}
    {accountType : AccountType} : d.HasType id accountType ↔
      ∃ u, d.holder id = some u ∧ u.accountType = accountType := by
  constructor
  · intro h
    obtain ⟨a, ha, hid, htype⟩ := h
    exact ⟨a.holder, (holder_iff hd).mpr ⟨a, ha, hid, rfl⟩, htype⟩
  · intro h
    obtain ⟨u, hu, htype⟩ := h
    obtain ⟨a, ha, hid, rfl⟩ := (holder_iff hd).mp hu
    exact ⟨a, ha, hid, htype⟩

theorem mem_idsOf_iff {d : Database} (hd : d.keys.Nodup) {id : ObjectId} {u : Holder}
    (hu : d.holder id = some u) (accountType : AccountType) (currency : String) :
    id ∈ d.idsOf (fun a => a.accountType = accountType ∧ a.currency = currency) ↔
      u.accountType = accountType ∧ u.currency = currency := by
  obtain ⟨a, ha, rfl, rfl⟩ := (Database.holder_iff hd).mp hu
  simp only [Database.idsOf, List.mem_toFinset, List.mem_map, List.mem_filter,
    decide_eq_true_eq]
  constructor
  · intro h
    obtain ⟨b, ⟨hb, htype, hcurrency⟩, hid⟩ := h
    obtain rfl := Database.account_eq hd hb ha hid
    exact ⟨htype, hcurrency⟩
  · intro h
    exact ⟨a, ⟨ha, h⟩, rfl⟩

/-- Where the kinds hold, users hold what was funded. -/
theorem Represents.holdings_eq_funded {d : Database} {journal : List Posting}
    (hd : Represents d journal) (hkinds : d.KindsHold) (currency : String) :
    d.holdings .user currency = d.funded currency := by
  rw [Database.holdings, hd.sum_filter, Database.funded, hd.transactions, List.filter_map,
    List.map_map]
  refine Pipeline.sum_eq_sum_filter fun p hp => ?_
  have hheader : p.header ∈ d.transactions := by
    rw [hd.transactions]
    exact List.mem_map_of_mem hp
  obtain ⟨u, hu, hucurrency⟩ := hd.source p hp
  obtain ⟨v, hv, hvcurrency⟩ := hd.destination p hp
  have hsource := mem_idsOf_iff hd.keys hu .user currency
  have hdestination := mem_idsOf_iff hd.keys hv .user currency
  have typed {id : ObjectId} {w : Holder} {accountType : AccountType}
      (hw : d.holder id = some w) (h : d.HasType id accountType) :
      w.accountType = accountType := by
    obtain ⟨w', hw', htype⟩ := (Database.hasType_iff hd.keys).mp h
    rwa [← Option.some.inj (hw'.symm.trans hw)]
  cases hkind : p.args.kind with
  | transfer =>
      obtain ⟨hs, hd'⟩ := hkinds.transfer _ hheader hkind
      rw [Bookkeeping.flow_eq_zero]
      · simp [Posting.header, Stamp.header, transactionDocument, hkind]
      · refine hsource.trans (Iff.trans ?_ hdestination.symm)
        rw [typed hu hs, typed hv hd', hucurrency, hvcurrency]
  | funding =>
      obtain ⟨hs, hd'⟩ := hkinds.funding _ hheader hkind
      rw [typed hu hs] at hsource
      rw [typed hv hd', hvcurrency] at hdestination
      have hout : p.transfer.source ∉ d.idsOf _ := fun h => absurd (hsource.mp h).1 (by decide)
      rw [Bookkeeping.Transfer.flow, if_neg hout, sub_zero]
      by_cases hc : p.args.currency = currency
      · have hin : p.transfer.destination ∈ d.idsOf _ := hdestination.mpr ⟨rfl, hc⟩
        rw [if_pos hin]
        simp [Posting.header, Posting.transfer, Stamp.header, transactionDocument, hkind, hc]
      · have hin : p.transfer.destination ∉ d.idsOf _ := fun h => hc (hdestination.mp h).2
        rw [if_neg hin]
        simp [Posting.header, Stamp.header, transactionDocument, hc]

/-! ### Where the kinds hold -/

section Runs

variable {ν : Type} [ServerSum] [DecidableEq ν] {A : Api ν} {s : ApiState ν}
  {c : Config ν (ApiState ν) AccountStamp ErrorResponse Api.Handled}

/-- A transaction is the header of an authorised call that has been committed. -/
theorem ApiInv.header (h : ApiInv A s) {t : Transaction} (ht : t ∈ (A.db s).transactions) :
    ∃ k ∈ s.ledger.log, ∃ i args, ∃ x : Stamp, k.author = some (i, args) ∧
      Authorised (A.db s) (A.requests i) args ∧ t = x.header args := by
  obtain ht | ⟨k, hk, ht⟩ := mem_transactions_replay.mp ht
  · cases ht
  obtain ⟨n, hn⟩ := List.mem_iff_getElem?.mp hk
  rcases h.commit hn with ⟨i, args, source, x, hauthor, hauth, -, -, hw⟩ | ⟨w, -, hw, hws⟩
  · rw [hw] at ht
    exact ⟨k, hk, i, args, x, hauthor, hauth, eq_header_of_mem ht⟩
  · rw [hws, List.mem_singleton] at ht
    rcases hw.cases_write with ⟨a, rfl⟩ | ⟨id, status, rfl⟩ <;> cases ht

/-- The header of a committed call is there. -/
theorem ApiInv.header_mem (h : ApiInv A s) {k : Commit (TransferCall ν) DbWrite ObjectId}
    (hk : k ∈ s.ledger.log) {i : ν} {args : TransferArgs} (hauthor : k.author = some (i, args)) :
    Authorised (A.db s) (A.requests i) args ∧
      ∃ x : Stamp, x.header args ∈ (A.db s).transactions := by
  obtain ⟨n, hn⟩ := List.mem_iff_getElem?.mp hk
  rcases h.commit hn with ⟨j, args', source, x, hauthor', hauth, -, -, hw⟩ | ⟨w, hauthor', -⟩
  · obtain ⟨rfl, rfl⟩ := Prod.mk.inj (Option.some.inj (hauthor.symm.trans hauthor'))
    refine ⟨hauth, x, mem_transactions_replay.mpr (.inr ⟨k, hk, ?_⟩)⟩
    rw [hw]
    simp [transferWrites]
  · cases hauthor.symm.trans hauthor'

/-- An account that somebody owns is a USER account. -/
theorem ApiInv.user_of_owned (h : ApiInv A s) {id : ObjectId} {u : Holder} {user : ObjectId}
    (hu : (A.db s).holder id = some u) (howner : u.ownerId = some user) :
    (A.db s).HasType id .user := by
  refine (Database.hasType_iff h.keys).mpr ⟨u, hu, ?_⟩
  cases htype : u.accountType with
  | user => rfl
  | system => exact absurd ((h.boundaries id u hu htype).1.symm.trans howner) (by simp)

/-- A funding moves value from a SYSTEM to a USER account. -/
theorem ApiInv.funding (h : ApiInv A s) {t : Transaction} (ht : t ∈ (A.db s).transactions)
    (hkind : t.kind = .funding) : (A.db s).HasType t.sourceAccountId .system ∧
      (A.db s).HasType t.destinationAccountId .user := by
  obtain ⟨k, hk, i, args, x, -, hauth, rfl⟩ := h.header ht
  generalize A.requests i = r at hauth
  cases hauth with
  | transfer hkind' => exact absurd (hkind.symm.trans hkind') (by decide)
  | funding _ _ hsource htype hdestination howner =>
      exact ⟨(Database.hasType_iff h.keys).mpr ⟨_, hsource, htype⟩,
        h.user_of_owned hdestination howner⟩

/-- A transfer takes value from a USER account, to wherever it was asked to. -/
theorem ApiInv.transfer (h : ApiInv A s) {t : Transaction} (ht : t ∈ (A.db s).transactions)
    (hkind : t.kind = .transfer) : (A.db s).HasType t.sourceAccountId .user ∧
      ∃ k ∈ s.ledger.log, ∃ i args user header payload, k.author = some (i, args) ∧
        A.requests i = .moveMoney ⟨user, header, .createTransaction (.valid payload)⟩ ∧
        payload.destinationAccountId = t.destinationAccountId := by
  obtain ⟨k, hk, i, args, x, hauthor, hauth, rfl⟩ := h.header ht
  generalize hr : A.requests i = r at hauth
  cases hauth with
  | transfer _ _ hdestination hsource howner =>
      exact ⟨h.user_of_owned hsource howner, k, hk, i, args, _, _, _, hauthor, hr,
        hdestination.symm⟩
  | funding hkind' => exact absurd (hkind.symm.trans hkind') (by decide)

/-- The kinds hold, and users hold what was funded, exactly if no transfer that was
carried out has been asked for with a SYSTEM account as its destination. -/
theorem kinds_hold_iff (h : A.Reached c) :
    ((A.db c.shared).KindsHold ∧ ∀ currency,
        (A.db c.shared).holdings .user currency = (A.db c.shared).funded currency) ↔
      ∀ k ∈ c.shared.ledger.log, ∀ i args user header payload, k.author = some (i, args) →
        A.requests i = .moveMoney ⟨user, header, .createTransaction (.valid payload)⟩ →
        ¬ (A.db c.shared).HasType payload.destinationAccountId .system := by
  have hinv := h.inv
  obtain ⟨journal, hjournal⟩ := A.deployment.represents hinv.reachable
  constructor
  · intro hhold k hk i args user header payload hauthor hi hsystem
    obtain ⟨hauth, x, hheader⟩ := hinv.header_mem hk hauthor
    rw [hi] at hauth
    cases hauth with
    | transfer hkind _ hdestination =>
        obtain ⟨-, huser⟩ := hhold.1.transfer _ hheader hkind
        obtain ⟨u, hu, htype⟩ := (Database.hasType_iff hinv.keys).mp huser
        obtain ⟨v, hv, htype'⟩ := (Database.hasType_iff hinv.keys).mp hsystem
        rw [← hdestination] at hv
        obtain rfl := Option.some.inj (hu.symm.trans hv)
        cases htype.symm.trans htype'
  · intro hnone
    suffices hkinds : (A.db c.shared).KindsHold from
      ⟨hkinds, fun currency => hjournal.holdings_eq_funded hkinds currency⟩
    refine ⟨fun t ht hkind => ?_, fun t ht hkind => hinv.funding ht hkind⟩
    obtain ⟨hsource, k, hk, i, args, user, header, payload, hauthor, hi, hpayload⟩ :=
      hinv.transfer ht hkind
    refine ⟨hsource, ?_⟩
    -- both accounts of a posting exist
    obtain ⟨p, hp, rfl⟩ := List.mem_map.mp (hjournal.transactions ▸ ht)
    obtain ⟨v, hv, -⟩ := hjournal.destination p hp
    refine (Database.hasType_iff hinv.keys).mpr ⟨v, hv, ?_⟩
    cases htype : v.accountType with
    | user => rfl
    | system =>
        refine absurd ?_ (hnone k hk i args user header payload hauthor hi)
        rw [hpayload]
        exact (Database.hasType_iff hinv.keys).mpr ⟨v, hv, htype⟩

end Runs

section Example

open scoped Example

/-- In the run of the example Alice holds what was funded. -/
theorem kinds_hold_funded : ∃ c, Example.api.Reached c ∧ (Example.api.db c.shared).KindsHold ∧
    (Example.api.db c.shared).holdings .user "USD" = 100 := by
  obtain ⟨c, x, hc, hdb, hcalled, -⟩ := Example.funded_api
  obtain ⟨hkinds, hfunded⟩ := (kinds_hold_iff hc).mpr fun k hk i args user header payload
      hauthor hi => by
    -- the one call that was made is the funding
    have hmem := hc.inv.authors k hk _ hauthor
    rw [hcalled, List.mem_singleton] at hmem
    obtain ⟨rfl, rfl⟩ := Prod.mk.inj hmem
    cases hi
  refine ⟨c, hc, hkinds, ?_⟩
  rw [hfunded, hdb]
  rfl

/-- A transfer into the SYSTEM account is carried out: 100 minor units were funded, and
users hold none. -/
theorem kinds_violated : ∃ c, Example.api.Reached c ∧ ¬ (Example.api.db c.shared).KindsHold ∧
    (Example.api.db c.shared).funded "USD" = 100 ∧
    (Example.api.db c.shared).holdings .user "USD" = 0 := by
  obtain ⟨c, x, y, hc, hdb⟩ := Example.returned_api
  refine ⟨c, hc, fun hkinds => ?_, by rw [hdb]; rfl, by rw [hdb]; rfl⟩
  have hheader : y.header (Example.payArgs 11 1 0 "payment-0001") ∈
      (Example.api.db c.shared).transactions := by
    rw [hdb]
    exact .tail _ (.head _)
  obtain ⟨-, a, ha, hid, huser⟩ := hkinds.transfer _ hheader rfl
  have ha : a ∈ [Example.boundary, Database.incCounter Example.alice] := by
    rw [hdb] at ha
    exact ha
  rcases List.mem_pair.mp ha with rfl | rfl
  · cases huser
  · cases hid

end Example

end Ledgerlock

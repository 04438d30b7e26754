import Ledgerlock.Bookkeeping.Bank
import Ledgerlock.Spec.Provisioning
import Ledgerlock.Spec.ReadBack

/-!
# Ledgerlock.Spec.Bank

What the service is for: it is a bank.

Whatever requests come, and however they are interleaved, what is committed is what a
`Bookkeeping.Bank` comes to by opening accounts and moving money, one after the other
(`refines_bank`). The three collections are the record of that, document by document
(`Database.Records`, `Posting.Suits`), and a balance that is answered is one that the bank
had while the request was waiting (`balance_answered`).
-/

namespace Ledgerlock

open Bookkeeping (Bank Event Terms)
open Interleave (Run)
open Mvcc

/-- Accounts trade in their currency, and those of users are not overdrawn. -/
def terms : Terms Holder where
  mayTrade h h' := h.currency = h'.currency
  limited h := h.accountType = .user

namespace Database

/-- The bank that can be seen in the collections. -/
structure Shows (d : Database) (b : Bank terms ObjectId Int) : Prop where
  holder : ∀ id, d.holder id = b.holder id
  balance : ∀ id, d.balance id = b.balance id

/-- From `d` to `d'` these events have been recorded: what was opened as these accounts, and
what was moved as the headers and the pairs of these postings. -/
structure Records (d d' : Database) (events : List (Event ObjectId Holder Int))
    (opened : List Account) (journal : List Posting) : Prop where
  openings : opened.map (fun a => (a.id, a.holder)) = events.filterMap Event.opening
  movements : journal.map Posting.transfer = events.filterMap Event.movement
  accounts : d'.accounts.map Account.opened = d.accounts.map Account.opened ++ opened
  transactions : d'.transactions = d.transactions ++ journal.map Posting.header
  ledgerEntries : d'.ledgerEntries = d.ledgerEntries ++ journal.flatMap Posting.entries

theorem Records.refl (d : Database) : d.Records d [] [] [] :=
  ⟨rfl, rfl, (List.append_nil _).symm, (List.append_nil _).symm, (List.append_nil _).symm⟩

theorem Records.trans {d d' d'' : Database} {events events' : List (Event ObjectId Holder Int)}
    {opened opened' : List Account} {journal journal' : List Posting}
    (h : d.Records d' events opened journal) (h' : d'.Records d'' events' opened' journal') :
    d.Records d'' (events ++ events') (opened ++ opened') (journal ++ journal') where
  openings := by
    rw [List.map_append, List.filterMap_append, h.openings, h'.openings]
  movements := by
    rw [List.map_append, List.filterMap_append, h.movements, h'.movements]
  accounts := by
    rw [h'.accounts, h.accounts, List.append_assoc]
  transactions := by
    rw [h'.transactions, h.transactions, List.map_append, List.append_assoc]
  ledgerEntries := by
    rw [h'.ledgerEntries, h.ledgerEntries, List.flatMap_append, List.append_assoc]

theorem Records.header_mem {d d' : Database} {events : List (Event ObjectId Holder Int)}
    {opened : List Account} {journal : List Posting} (h : d.Records d' events opened journal)
    {p : Posting} (hp : p ∈ journal) : p.header ∈ d'.transactions := by
  rw [h.transactions]
  exact List.mem_append_right _ (List.mem_map_of_mem hp)

end Database

/-- What a posting says beside the transfer is what its accounts make of it: it is in their
currency, and a TRANSFER submitted by the owner of the source or a FUNDING submitted by the
owner of the destination. -/
def Posting.Suits (p : Posting) (holder : ObjectId → Option Holder) : Prop :=
  ∃ source destination, holder p.args.sourceAccountId = some source ∧
    holder p.args.destinationAccountId = some destination ∧
    p.args.currency = source.currency ∧ p.args.currency = destination.currency ∧
    match source.accountType with
    | .user => p.args.kind = .transfer ∧ p.args.submittedBy = source.ownerId
    | .system => p.args.kind = .funding ∧ p.args.submittedBy = destination.ownerId

/-! ### One commit -/

section Commits

variable {b : Bank terms ObjectId Int}

/-- A transfer is one that the bank allows. -/
theorem GoodFor.allows {d : Database} (hb : d.Shows b) {p : Posting} (h : GoodFor d p.args) :
    b.Allows p.transfer := by
  obtain ⟨hs, hsource, hscurrency, hfunds⟩ := h.source
  obtain ⟨hd, hdestination, hdcurrency⟩ := h.destination
  rw [hb.holder] at hsource hdestination
  refine ⟨⟨hs, hd, hsource, hdestination, hscurrency.trans hdcurrency.symm⟩,
    fun h hholder huser => ?_⟩
  obtain rfl := Option.some.inj (hsource.symm.trans hholder)
  exact (hfunds huser).trans_eq (hb.balance _)

/-- What a transfer does to the bank it does to the collections. -/
theorem shows_transferWrites {d : Database} (hb : d.Shows b) (p : Posting) (source : Account)
    (hallows : b.Allows p.transfer) :
    (view d (transferWrites source p.args p.stamp)).Shows (b.move p.transfer hallows) ∧
      d.Records (view d (transferWrites source p.args p.stamp)) [.moved p.transfer] [] [p] := by
  obtain ⟨htransactions, hentries⟩ := transferWrites_view d source p.args p.stamp
  refine ⟨⟨fun id => ?_, fun id => ?_⟩, rfl, rfl, ?_, htransactions, hentries⟩
  · rw [transferWrites_holder, hb.holder]
    rfl
  · rw [balance_transferWrites, hb.balance]
    rfl
  · rw [Database.opened_view fun _ => not_insertAccount_transferWrites, List.append_nil]

/-- A write to `accounts` opens one or does nothing to the bank. -/
theorem shows_accountWrite {d : Database} (hb : d.Shows b) {w : DbWrite} (hw : AccountWrite w)
    (hclash : w.repeatsKey d = false) : ∃ events opened b', Bank.Run b events b' ∧
      (d.write w).Shows b' ∧ d.Records (d.write w) events opened [] := by
  have hbalance (id : ObjectId) : (d.write w).balance id = b.balance id :=
    (accountWrite_balance hw d id).trans (hb.balance id)
  rcases hw.cases_write with ⟨a, rfl⟩ | ⟨id, status, rfl⟩
  · have hnone : d.holder a.id = none := by
      cases hholder : d.holder a.id with
      | none => rfl
      | some h =>
          obtain ⟨a', ha', -⟩ := Option.map_eq_some_iff.mp hholder
          obtain ⟨hmem, hid⟩ := Database.findAccount_some ha'
          have hkey : DbKey.account a.id ∈ d.keys := Database.account_mem_keys.mpr ⟨a', hmem, hid⟩
          exact absurd hkey
            (repeatsKey_eq_false.mp hclash _ (by simp [DbWrite.newKeys, Account.keys]))
    rw [hb.holder] at hnone
    refine ⟨_, [a.opened], _, .concat .nil (.opened (h := a.holder) hnone),
      ⟨fun id => ?_, hbalance⟩, rfl, rfl, List.map_append, (List.append_nil _).symm,
      (List.append_nil _).symm⟩
    rw [Database.holder_insertAccount, hb.holder]
    show _ = Function.update b.holder a.id (some a.holder) id
    by_cases hid : id = a.id
    · rw [hid, Function.update_self, hnone, if_pos rfl, Option.none_or]
    · rw [Function.update_of_ne hid, if_neg (Ne.symm hid), Option.or_none]
  · refine ⟨[], [], b, .nil, ⟨fun id' => ?_, hbalance⟩, rfl, rfl, ?_, (List.append_nil _).symm,
      (List.append_nil _).symm⟩
    · rw [Database.holder_write_eq (w := .setStatus id status) (by simp), hb.holder]
    · exact (d.opened_updateAccount id (f := fun a => { a with status }) fun _ => rfl).trans
        (List.append_nil _).symm

variable {ν : Type} [ServerSum] {D : Deployment ν}

/-- A commit is an event, or nothing that concerns the bank. -/
theorem shows_follows {log : List (Commit ν DbWrite ObjectId)} {k : Commit ν DbWrite ObjectId}
    (hlog : History D.system log) (hk : Follows D.system log k)
    (hb : (replay D.opening log).Shows b) : ∃ events opened journal b', Bank.Run b events b' ∧
      (view (replay D.opening log) k.writes).Shows b' ∧ (replay D.opening log).Records
        (view (replay D.opening log) k.writes) events opened journal := by
  cases ledgerCommit_of_follows hk with
  | @transfer i args source x start _ hdistinct hle hapart hjudge =>
      obtain ⟨destination, hacc⟩ := judge_eq_ok.mp hjudge
      let p : Posting := ⟨args, x, hdistinct, hacc.amount_pos⟩
      have hallows : b.Allows p.transfer := (goodFor_since hlog hle hapart hjudge).allows hb
      obtain ⟨hshows, hrecords⟩ := shows_transferWrites hb p source hallows
      exact ⟨_, _, _, _, .concat .nil (.moved hallows), hshows, hrecords⟩
  | reconcile => exact ⟨[], [], [], b, .nil, hb, .refl _⟩
  | accountWrite _ hop hclash =>
      obtain ⟨events, opened, b', hrun, hshows, hrecords⟩ :=
        shows_accountWrite hb (D.operator_accounts _ _ hop) hclash
      exact ⟨events, opened, [], b', hrun, hshows, hrecords⟩

/-- What is committed from some moment on is a run of the bank. -/
theorem shows_replay {log : List (Commit ν DbWrite ObjectId)} (hlog : History D.system log)
    {n : Nat} (hn : n ≤ log.length) (hb : (replay D.opening (log.take n)).Shows b) :
    ∃ events opened journal b', Bank.Run b events b' ∧ (replay D.opening log).Shows b' ∧
      (replay D.opening (log.take n)).Records (replay D.opening log) events opened journal := by
  refine hlog.since (P := fun d => ∃ events opened journal b', Bank.Run b events b' ∧
    d.Shows b' ∧ (replay D.opening (log.take n)).Records d events opened journal) hn
    ⟨[], [], [], b, .nil, hb, .refl _⟩
    fun m k _ hk hfollows ⟨events, opened, journal, b', hrun, hb', hrecords⟩ => ?_
  obtain ⟨_, _, _, b'', hrun', hb'', hrecords'⟩ := shows_follows (hlog.take m) hfollows hb'
  exact ⟨_, _, _, b'', hrun.trans hrun', hb'', hrecords.trans hrecords'⟩

end Commits

/-! ### Figures -/

section Figures

variable [ServerSum]

/-- The balance of an account is computed exactly as long as what has been moved into it
fits, and what has been moved out of it. -/
theorem Represents.computeBalance {d : Database} {journal : List Posting}
    (hd : Represents d journal) {id : ObjectId} (hcredited : d.credited id ≤ 9223372036854775807)
    (hdebited : d.debited id ≤ 9223372036854775807) : Ledgerlock.computeBalance d id =
      ⟨d.balance id, d.credited id, d.debited id, (d.entriesOf id).length⟩ := by
  have hcnonneg : 0 ≤ d.credited id := Database.gross_nonneg hd.amount_pos .credit id
  have hdnonneg : 0 ≤ d.debited id := Database.gross_nonneg hd.amount_pos .debit id
  have hbalance := Database.balance_eq_sub hd.signed id
  refine computeBalance_eq (ServerSum.sum_of_fits _ ?_) (ServerSum.sum_of_fits _ ?_)
    (ServerSum.sum_of_fits _ ?_)
  · show FitsLong (d.balance id)
    unfold FitsLong
    omega
  · show FitsLong (d.credited id)
    unfold FitsLong
    omega
  · show FitsLong (d.debited id)
    unfold FitsLong
    omega

variable {ν : Type} [DecidableEq ν] {A : Api ν} {s : ApiState ν}

end Figures

/-! ### The service -/

section Start

variable {ν : Type} (A : Api ν) (s : ApiState ν)

theorem Api.empty_shows : (A.dbAfter s 0).Shows .empty := ⟨fun _ => rfl, fun _ => rfl⟩

theorem Api.dbAfter_take {m n : Nat} (hmn : m ≤ n) :
    replay A.deployment.opening ((s.ledger.log.take n).take m) = A.dbAfter s m := by
  rw [List.take_take, Nat.min_eq_left hmn]
  rfl

end Start

section Suits

variable {ν : Type} [ServerSum] [DecidableEq ν] {A : Api ν} {s : ApiState ν} {p : Posting}

/-- A call that the database authorises is of the kind, and submitted by the user, that its
accounts make it. -/
theorem ApiInv.kind_of_authorised (h : ApiInv A s) {r : ApiRequest} {args : TransferArgs}
    (hauth : Authorised (A.db s) r args) {source destination : Holder}
    (hsource : (A.db s).holder args.sourceAccountId = some source)
    (hdestination : (A.db s).holder args.destinationAccountId = some destination) :
    match source.accountType with
    | .user => args.kind = .transfer ∧ args.submittedBy = source.ownerId
    | .system => args.kind = .funding ∧ args.submittedBy = destination.ownerId := by
  cases hauth with
  | @transfer user _ _ _ payer hkind hsubmitted _ hpayer howner =>
      obtain rfl : payer = source := Option.some.inj (hpayer.symm.trans hsource)
      cases htype : payer.accountType with
      | user => exact ⟨hkind, hsubmitted.trans howner.symm⟩
      | system =>
          -- an account of a user's own is none of the bank's
          have hnone := (h.boundaries _ _ hsource htype).1
          exact absurd (hnone.symm.trans howner) (by simp)
  | @funding user _ _ _ boundary funded hkind hsubmitted hboundary htype hfunded howner =>
      obtain rfl : boundary = source := Option.some.inj (hboundary.symm.trans hsource)
      obtain rfl : funded = destination := Option.some.inj (hfunded.symm.trans hdestination)
      rw [htype]
      exact ⟨hkind, hsubmitted.trans howner.symm⟩

/-- What is written suits its accounts. -/
theorem ApiInv.suits (h : ApiInv A s) (hp : p.header ∈ (A.db s).transactions) :
    p.Suits (A.db s).holder := by
  obtain ⟨journal, hjournal⟩ := A.deployment.represents h.reachable
  have htransactions : (A.db s).transactions = journal.map Posting.header := hjournal.transactions
  obtain ⟨q, hq, hheader⟩ := List.mem_map.mp (htransactions ▸ hp)
  have hargs : q.args = p.args := congrArg Transaction.args hheader
  obtain ⟨source, hsource, hscurrency⟩ := hjournal.source q hq
  obtain ⟨destination, hdestination, hdcurrency⟩ := hjournal.destination q hq
  rw [hargs] at hsource hscurrency hdestination hdcurrency
  obtain ⟨k, hk, i, args, x, hauthor, -, hasked⟩ := h.transaction hp
  obtain rfl : p.args = args := congrArg Transaction.args hasked
  have hauth := h.authorised i _ (h.authors k hk _ hauthor)
  exact ⟨source, destination, hsource, hdestination, hscurrency.symm, hdcurrency.symm,
    h.kind_of_authorised hauth hsource hdestination⟩

end Suits

namespace Service

section Runs

variable {ν : Type} [ServerSum] [DecidableEq ν] [Bcrypt] {S : Service ν} {c d : ServiceConfig ν}
  {l : List (Option ν)} {i : ν} {token : AccessToken} {b : Bank terms ObjectId Int}

/-- What is committed between two moments of a run is a run of the bank. -/
theorem Reached.shows (h : S.Reached c) {m n : Nat} (hmn : m ≤ n)
    (hn : n ≤ c.shared.2.ledger.log.length) (hb : (S.api.dbAfter c.shared.2 m).Shows b) :
    ∃ events opened journal b', Bank.Run b events b' ∧
      (S.api.dbAfter c.shared.2 n).Shows b' ∧ (S.api.dbAfter c.shared.2 m).Records
        (S.api.dbAfter c.shared.2 n) events opened journal := by
  rw [← S.api.dbAfter_take c.shared.2 hmn] at hb ⊢
  exact shows_replay (h.apiInv.reachable.history.take n)
    (hmn.trans_eq (List.length_take_of_le hn).symm) hb

/-- The state that a run starts from is one that it goes through. -/
theorem Reached.dbAfter (h : S.Reached c) (hrun : Run S.env c l d) :
    S.api.dbAfter d.shared.2 c.shared.2.ledger.log.length = S.db c.shared := by
  exact (Api.dbAfter_of_prefix (h.log_grows hrun) le_rfl).trans (Api.dbAfter_length _ _)

/-- What has been recorded suits the accounts that the bank has. -/
theorem Reached.suits (h : S.Reached c) (hb : (S.db c.shared).Shows b) {d : Database}
    {events : List (Event ObjectId Holder Int)} {opened : List Account} {journal : List Posting}
    (hrecords : d.Records (S.db c.shared) events opened journal) :
    ∀ p ∈ journal, p.Suits b.holder := by
  intro p hp
  rw [← show (S.db c.shared).holder = b.holder from funext hb.holder]
  exact h.apiInv.suits (hrecords.header_mem hp)

/-- What the service has done is what a bank does that has opened accounts and moved money
one after the other, and the collections are the record of it; and so it goes on. -/
theorem refines_bank (h : S.Reached c) :
    ∃ events opened journal b, Bank.Run .empty events b ∧ (S.db c.shared).Shows b ∧
      Database.Records ⟨[], [], []⟩ (S.db c.shared) events opened journal ∧
      (∀ p ∈ journal, p.Suits b.holder) ∧
      ∀ l d, Run S.env c l d → ∃ events' opened' journal' b', Bank.Run b events' b' ∧
        (S.db d.shared).Shows b' ∧
        (S.db c.shared).Records (S.db d.shared) events' opened' journal' ∧
        ∀ p ∈ journal', p.Suits b'.holder := by
  have hend : S.api.dbAfter c.shared.2 c.shared.2.ledger.log.length = S.db c.shared :=
    Api.dbAfter_length _ _
  obtain ⟨events, opened, journal, b, hbank, hb, hrecords⟩ :=
    h.shows (Nat.zero_le _) le_rfl (S.api.empty_shows c.shared.2)
  rw [hend] at hb hrecords
  refine ⟨events, opened, journal, b, hbank, hb, hrecords, h.suits hb hrecords,
    fun l d hrun => ?_⟩
  have hstart := h.dbAfter hrun
  rw [← hstart] at hb ⊢
  obtain ⟨events', opened', journal', b', hbank', hb', hrecords'⟩ :=
    (h.run hrun).shows (h.log_grows hrun).length_le le_rfl hb
  rw [Api.dbAfter_length] at hb' hrecords'
  exact ⟨events', opened', journal', b', hbank', hb', hrecords',
    (h.run hrun).suits hb' hrecords'⟩

end Runs

end Service

section Example

open Example

/-- Alice's account is funded and debited, and so is the bank's. -/
theorem refines_bank_served : ∃ (c : ServiceConfig Nat)
    (events : List (Event ObjectId Holder Int)) (b : Bank terms ObjectId Int),
    bank.Reached c ∧ Bank.Run .empty events b ∧ (bank.db c.shared).Shows b ∧
      (events.filterMap Event.movement).map (fun t => (t.source, t.destination, t.amount)) =
        [(0, 1, 100), (1, 0, 100)] := by
  obtain ⟨c, x, y, hc, hdb, -⟩ := served
  obtain ⟨events, _, journal, b, hrun, hshows, hrecords, -⟩ := Service.refines_bank hc
  have hjournal : (servedDb x y).transactions = journal.map Posting.header := by
    rw [← hdb]
    exact hrecords.transactions
  refine ⟨c, events, b, hc, hrun, hshows, ?_⟩
  have hheaders := congrArg (List.map fun t : Transaction =>
    (t.sourceAccountId, t.destinationAccountId, t.amountMinor)) hjournal
  rw [List.map_map] at hheaders
  rw [← hrecords.movements, List.map_map]
  exact hheaders.symm

end Example

end Ledgerlock

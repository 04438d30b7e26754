import Ledgerlock.Spec.Privacy

/-!
# Ledgerlock.Spec.Paging

Going through the accounts of a user page by page, with `list_accounts` at the offsets
`0, L, 2 * L, ...` up to the first empty page (`Paged`).

The query sorts by `created_at` and by nothing else, so the server may return accounts
opened at the same time in one order for one page and in another for the next. Every
account comes exactly once, whatever the server does, if and only if no such accounts
stand on both sides of a page boundary (`paged_once_iff`).
-/

namespace Ledgerlock

open Pipeline (SortBy Straddles pagesUpTo pagesUpTo_perm pagesUpTo_sorted exists_repeats)

/-- The responses to the queries for one page after the other, the first that is empty
being number `N`. -/
structure Paged (orders : ℕ → ServerSort) (c : Collections) (user : AuthenticatedUser)
    (L N : ℕ) (page : ℕ → AccountListResponse) : Prop where
  served : ∀ k ≤ N, listAccounts (orders k) c user L ((k * L : ℕ) : Int) = .ok (page k)
  nonempty : ∀ k < N, (page k).accounts ≠ []
  empty : (page N).accounts = []

/-- The pages hold every account of the user exactly once, oldest first. -/
structure PagedOnce (orders : ℕ → ServerSort) (c : Collections) (user : AuthenticatedUser)
    (L N : ℕ) (page : ℕ → AccountListResponse) : Prop extends
    Paged orders c user L N page where
  once : ((List.range N).flatMap fun k => (page k).accounts).Perm
    ((c.accountsOwnedBy user.id).map Account.toPublic)
  ordered : ((List.range N).flatMap fun k => (page k).accounts).Pairwise fun a b =>
    a.createdAt ≤ b.createdAt

/-! ### One page -/

section Page

variable {order : ServerSort} {c : Collections} {user : AuthenticatedUser} {L : ℕ}

theorem mapM_fromDocument {docs : List Account}
    (h : ∀ a ∈ docs, isCurrencyCode a.currency = true) :
    docs.mapM AccountPublic.fromDocument = .ok (docs.map Account.toPublic) := by
  induction docs with
  | nil => rfl
  | cons a docs ih =>
      have ha : AccountPublic.fromDocument a = .ok a.toPublic := by
        simp [AccountPublic.fromDocument, h a List.mem_cons_self]
      rw [List.mapM_cons, ha, ih fun b hb => h b (List.mem_cons_of_mem a hb)]
      rfl

theorem listAccountsForOwner_eq (hL : 1 ≤ L ∧ L ≤ 200) (offset : ℕ) :
    c.listAccountsForOwner order user.id L (offset : Int) =
      if FitsLong offset then .ok (order.page (c.accountsOwnedBy user.id) offset L)
      else .error .overflowError := by
  have hlimit : max 1 (min (L : Int) maxPageSize) = L := by
    unfold maxPageSize
    omega
  have hskip : max 0 (offset : Int) = offset := by omega
  rw [Database.listAccountsForOwner, hlimit, hskip, Int.toNat_natCast, Int.toNat_natCast]

/-- A page is a piece of the accounts in the order of its query, if the offset can be
encoded. -/
theorem listAccounts_eq (hL : 1 ≤ L ∧ L ≤ 200)
    (hvalid : ∀ a ∈ c.accountsOwnedBy user.id, isCurrencyCode a.currency = true) (offset : ℕ) :
    listAccounts order c user L (offset : Int) =
      if FitsLong offset then
        .ok ⟨(order.page (c.accountsOwnedBy user.id) offset L).map Account.toPublic,
          ⟨L, offset, (order.page (c.accountsOwnedBy user.id) offset L).length⟩⟩
      else .error (.python .overflowError) := by
  have hpage : ∀ a ∈ order.page (c.accountsOwnedBy user.id) offset L,
      isCurrencyCode a.currency = true := fun a ha =>
    hvalid a ((order.mem_sort _).mp (List.mem_of_mem_drop (List.mem_of_mem_take ha)))
  rw [listAccounts, listAccountsForOwner_eq hL]
  split_ifs
  · simp only [Except.mapError, bind, Except.bind, mapM_fromDocument hpage]
    rfl
  · rfl

end Page

/-! ### All pages -/

section Pages

variable {orders : ℕ → ServerSort} {c : Collections} {user : AuthenticatedUser} {L N : ℕ}
  {page : ℕ → AccountListResponse}

theorem FitsLong.natCast_mono {m n : ℕ} (h : FitsLong (n : Int)) (hmn : m ≤ n) :
    FitsLong (m : Int) := by
  unfold FitsLong at *
  omega

/-- A response that is served is the page of its query. -/
theorem Paged.accounts_eq (hL : 1 ≤ L ∧ L ≤ 200)
    (hvalid : ∀ a ∈ c.accountsOwnedBy user.id, isCurrencyCode a.currency = true)
    (h : Paged orders c user L N page) {k : ℕ} (hk : k ≤ N) :
    FitsLong ((k * L : ℕ) : Int) ∧ (page k).accounts =
      ((orders k).page (c.accountsOwnedBy user.id) (k * L) L).map Account.toPublic := by
  have hserved := h.served k hk
  rw [listAccounts_eq hL hvalid] at hserved
  split_ifs at hserved with hfits
  exact ⟨hfits, by rw [← Except.ok.inj hserved]⟩

theorem Paged.flatMap_eq (hL : 1 ≤ L ∧ L ≤ 200)
    (hvalid : ∀ a ∈ c.accountsOwnedBy user.id, isCurrencyCode a.currency = true)
    (h : Paged orders c user L N page) :
    ((List.range N).flatMap fun k => (page k).accounts) =
      (pagesUpTo orders (c.accountsOwnedBy user.id) L N).map Account.toPublic := by
  rw [pagesUpTo, List.map_flatMap]
  exact List.flatMap_congr fun k hk => (h.accounts_eq hL hvalid (List.mem_range.mp hk).le).2

theorem Paged.length_le (hL : 1 ≤ L ∧ L ≤ 200)
    (hvalid : ∀ a ∈ c.accountsOwnedBy user.id, isCurrencyCode a.currency = true)
    (h : Paged orders c user L N page) : (c.accountsOwnedBy user.id).length ≤ N * L := by
  have hempty := h.empty
  rwa [(h.accounts_eq hL hvalid le_rfl).2, List.map_eq_nil_iff, SortBy.page_eq_nil _ _ hL.1]
    at hempty

/-- There are as many pages as it takes. -/
theorem Paged.count_eq (hL : 1 ≤ L ∧ L ≤ 200)
    (hvalid : ∀ a ∈ c.accountsOwnedBy user.id, isCurrencyCode a.currency = true)
    (h : Paged orders c user L N page) :
    N = ((c.accountsOwnedBy user.id).length + L - 1) / L := by
  have hend := h.length_le hL hvalid
  have hbefore : ∀ k < N, k * L < (c.accountsOwnedBy user.id).length := by
    intro k hk
    have hne := h.nonempty k hk
    rwa [(h.accounts_eq hL hvalid hk.le).2, Ne, List.map_eq_nil_iff,
      SortBy.page_eq_nil _ _ hL.1, not_le] at hne
  refine (Nat.div_eq_of_lt_le ?_ ?_).symm
  · cases N with
    | zero => simp
    | succ N =>
        have := hbefore N (Nat.lt_succ_self N)
        rw [Nat.succ_mul]
        omega
  · rw [Nat.succ_mul]
    omega

/-- All pages can be asked for if the last offset can be encoded. -/
theorem exists_paged (hL : 1 ≤ L ∧ L ≤ 200)
    (hvalid : ∀ a ∈ c.accountsOwnedBy user.id, isCurrencyCode a.currency = true)
    (hfits : FitsLong ((((c.accountsOwnedBy user.id).length + L - 1) / L * L : ℕ) : Int))
    (orders : ℕ → ServerSort) :
    ∃ page, Paged orders c user L (((c.accountsOwnedBy user.id).length + L - 1) / L) page := by
  set n := (c.accountsOwnedBy user.id).length with hn
  refine ⟨fun k => ⟨((orders k).page (c.accountsOwnedBy user.id) (k * L) L).map Account.toPublic,
    ⟨L, (k * L : ℕ), ((orders k).page (c.accountsOwnedBy user.id) (k * L) L).length⟩⟩, ⟨?_, ?_, ?_⟩⟩
  · intro k hk
    rw [listAccounts_eq hL hvalid, if_pos (hfits.natCast_mono (Nat.mul_le_mul_right L hk))]
  · intro k hk hempty
    rw [List.map_eq_nil_iff, SortBy.page_eq_nil _ _ hL.1, ← hn] at hempty
    have hlt : (k + 1) * L ≤ (n + L - 1) / L * L := Nat.mul_le_mul_right L hk
    have hle := Nat.div_mul_le_self (n + L - 1) L
    rw [Nat.succ_mul] at hlt
    omega
  · rw [List.map_eq_nil_iff, SortBy.page_eq_nil _ _ hL.1, ← hn]
    have hlt := Nat.lt_div_mul_add (a := n + L - 1) hL.1
    omega

theorem nodup_toPublic : ((c.accountsOwnedBy user.id).map Account.toPublic).Nodup := by
  have hids : ((c.accountsOwnedBy user.id).map (·.id)).Nodup :=
    c.account_ids.sublist (List.filter_sublist.map _)
  refine List.Nodup.of_map AccountPublic.id ?_
  rw [List.map_map]
  exact hids

end Pages

/-- Going through the pages gives every account once, oldest first, whatever orders the
server uses, exactly when no accounts opened at the same time stand on both sides of a
page boundary (and the offsets can be encoded). -/
theorem paged_once_iff {c : Collections} {user : AuthenticatedUser} {L : ℕ}
    (hL : 1 ≤ L ∧ L ≤ 200)
    (hvalid : ∀ a ∈ c.accountsOwnedBy user.id, isCurrencyCode a.currency = true) :
    (∀ orders : ℕ → ServerSort, ∃ N page, PagedOnce orders c user L N page) ↔
      FitsLong ((((c.accountsOwnedBy user.id).length + L - 1) / L * L : ℕ) : Int) ∧
        ∀ k, ¬ Straddles (fun a : Account => a.createdAt) (c.accountsOwnedBy user.id) (k * L) := by
  constructor
  · intro h
    constructor
    · obtain ⟨N, page, hpaged⟩ := h fun _ => .insertion _
      rw [← hpaged.count_eq hL hvalid]
      exact (hpaged.accounts_eq hL hvalid le_rfl).1
    · intro k hstraddles
      obtain ⟨orders, hrepeats⟩ := exists_repeats hL.1 hstraddles
      obtain ⟨N, page, hpaged⟩ := h orders
      have hnodup := hpaged.once.nodup_iff.mpr nodup_toPublic
      rw [hpaged.flatMap_eq hL hvalid] at hnodup
      have hend := hstraddles.lt_length.trans_le (hpaged.length_le hL hvalid)
      exact hrepeats N (Nat.lt_of_mul_lt_mul_right hend) (hnodup.of_map _)
  · intro h orders
    obtain ⟨hfits, hapart⟩ := h
    obtain ⟨page, hpaged⟩ := exists_paged hL hvalid hfits orders
    refine ⟨_, page, { hpaged with once := ?_, ordered := ?_ }⟩
    · rw [hpaged.flatMap_eq hL hvalid]
      refine List.Perm.map _ ?_
      have hend := hpaged.length_le hL hvalid
      refine (pagesUpTo_perm (fun k _ => hapart k) (orders 0)).trans ?_
      rw [List.take_of_length_le (by rwa [SortBy.length_sort])]
      exact (orders 0).perm _
    · rw [hpaged.flatMap_eq hL hvalid, List.pairwise_map]
      exact pagesUpTo_sorted

namespace Example

/-- Alice's accounts, opened at these times. -/
def openedAt (first second : Timestamp) : Collections where
  accounts :=
    [boundary, { alice with createdAt := first }, { alice with id := 2, createdAt := second }]
  transactions := []
  ledgerEntries := []
  users := [⟨11, "alice@example.com", ""⟩]
  revokedTokens := []
  account_ids := show [0, 1, 2].Nodup by decide
  transaction_ids := List.nodup_nil

/-- Pages of one account, for accounts opened one after the other. -/
theorem paged_once_openedAt : (∀ orders : ℕ → ServerSort, ∃ N page,
      PagedOnce orders (openedAt 0 1) aliceUser 1 N page) ↔
    FitsLong (((((openedAt 0 1).accountsOwnedBy 11).length + 1 - 1) / 1 * 1 : ℕ) : Int) ∧
      ∀ k, ¬ Straddles (fun a : Account => a.createdAt)
        ((openedAt 0 1).accountsOwnedBy 11) (k * 1) :=
  paged_once_iff (by decide) (by decide)

/-- The first query has Alice's accounts in one order, the others in the other. -/
def otherWayRound (k : ℕ) : ServerSort :=
  if k = 0 then
    .ofList (show [alice, { alice with id := 2 }].Perm ((openedAt 0 0).accountsOwnedBy 11) by
      decide) (by decide)
  else
    .ofList (show [{ alice with id := 2 }, alice].Perm ((openedAt 0 0).accountsOwnedBy 11) by
      decide) (by decide)

/-- Two accounts opened at the same time: the one comes on both pages, and the other
never. -/
theorem openedAt_repeats :
    (listAccounts (otherWayRound 0) (openedAt 0 0) aliceUser 1 0).map (·.accounts) =
      .ok [alice.toPublic] ∧
    (listAccounts (otherWayRound 1) (openedAt 0 0) aliceUser 1 1).map (·.accounts) =
      .ok [alice.toPublic] ∧
    (listAccounts (otherWayRound 2) (openedAt 0 0) aliceUser 1 2).map (·.accounts) = .ok [] ∧
    ¬ ∃ N page, PagedOnce otherWayRound (openedAt 0 0) aliceUser 1 N page := by
  refine ⟨by decide, by decide, by decide, fun h => ?_⟩
  obtain ⟨N, page, hpaged⟩ := h
  have hvalid : ∀ a ∈ (openedAt 0 0).accountsOwnedBy 11, isCurrencyCode a.currency = true := by
    decide
  obtain rfl : N = 2 := hpaged.count_eq (by decide) hvalid
  have honce := hpaged.once
  rw [hpaged.flatMap_eq (by decide) hvalid] at honce
  exact absurd honce (by decide)

end Example

end Ledgerlock

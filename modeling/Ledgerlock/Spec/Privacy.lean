import Ledgerlock.Reads
import Ledgerlock.Spec.Example

/-!
# Ledgerlock.Spec.Privacy

What a user is told depends on nothing but what concerns the user.

`AgreeFor` is what two states of the collections have in common as far as one user is
concerned. Every lookup of a reader gives the same on both (`AgreeFor.getCurrentUser`
to `AgreeFor.getTransaction`), and so does the reader, up to the time it is served.
-/

namespace Ledgerlock

/-! ### What concerns a user -/

/-- The user owns an account the transaction moved money from or to. -/
def Database.TakesPart (d : Database) (user : ObjectId) (t : Transaction) : Prop :=
  ∃ a ∈ d.accountsOwnedBy user, a.id = t.sourceAccountId ∨ a.id = t.destinationAccountId

instance (d : Database) (user : ObjectId) (t : Transaction) : Decidable (d.TakesPart user t) :=
  inferInstanceAs (Decidable (∃ a ∈ d.accountsOwnedBy user, _))

@[simp] theorem Database.mem_accountsOwnedBy {d : Database} {user : ObjectId} {a : Account} :
    a ∈ d.accountsOwnedBy user ↔ a ∈ d.accounts ∧ a.ownerId = some user := by
  simp [accountsOwnedBy]

/-- Two states of the collections are the same for a user. The entries of an account
come in the order they are stored: sums beyond 64 bits depend on it. -/
structure AgreeFor (user : ObjectId) (moment : Moment) (order order' : ServerSort)
    (c c' : Collections) : Prop where
  userDocument : c.findUser user = c'.findUser user
  revoked : ∀ token ∈ moment.signed, token.sub = user →
    c.isTokenRevoked token.jti = c'.isTokenRevoked token.jti
  accounts : order.sort (c.accountsOwnedBy user) = order'.sort (c'.accountsOwnedBy user)
  entries : ∀ a ∈ c.accountsOwnedBy user, c.entriesOf a.id = c'.entriesOf a.id
  transactions : ∀ t, c.TakesPart user t → (t ∈ c.transactions ↔ t ∈ c'.transactions)

/-! ### What is left when the time is not looked at -/

def ReadBody.untimed : ReadBody → ReadBody
  | balance body => balance { body with computedAt := 0 }
  | body => body

def ReadResponse.untimed (r : ReadResponse) : ReadResponse := r.map ReadBody.untimed

/-! ### Lookups by id -/

/-- An id finds the one document that has it. -/
theorem find?_eq_some_of_nodup {β : Type} {l : List β} {id : β → ObjectId}
    (hl : (l.map id).Nodup) {p : β → Bool} {a : β} (ha : a ∈ l) (hp : p a)
    (hid : ∀ b, p b → id b = id a) : l.find? p = some a := by
  cases hfind : l.find? p with
  | none => exact absurd hp (List.find?_eq_none.mp hfind a ha)
  | some b =>
      have hb := List.mem_of_find?_eq_some hfind
      rw [List.inj_on_of_nodup_map hl hb ha (hid b (List.find?_some hfind))]

namespace Collections

variable {c : Collections} {user : ObjectId}

theorem getOwnedAccountOrRaise_of_mem {a : Account} (ha : a ∈ c.accountsOwnedBy user) :
    c.getOwnedAccountOrRaise a.id user = .ok a := by
  obtain ⟨hmem, howner⟩ := Database.mem_accountsOwnedBy.mp ha
  have hfind : c.accounts.find? (fun b => b.id = a.id ∧ b.ownerId = some user) = some a :=
    find?_eq_some_of_nodup c.account_ids hmem (by simp [howner]) fun b hb => by simp_all
  rw [Database.getOwnedAccountOrRaise, hfind]

/-- An account of somebody else, or of nobody. -/
theorem getOwnedAccountOrRaise_of_not {accountId : ObjectId}
    (h : ∀ a ∈ c.accountsOwnedBy user, a.id ≠ accountId) :
    c.getOwnedAccountOrRaise accountId user = .error (.accountNotFound none accountId) := by
  have hfind : c.accounts.find? (fun b => b.id = accountId ∧ b.ownerId = some user) = none := by
    refine List.find?_eq_none.mpr fun a ha hp => ?_
    obtain ⟨hid, howner⟩ : a.id = accountId ∧ a.ownerId = some user := by simpa using hp
    exact h a (Database.mem_accountsOwnedBy.mpr ⟨ha, howner⟩) hid
  rw [Database.getOwnedAccountOrRaise, hfind]

theorem getTransaction_of_mem {t : Transaction} (ht : t ∈ c.transactions) :
    c.getTransaction t.id = some t :=
  find?_eq_some_of_nodup c.transaction_ids ht (by simp) fun b hb => by simpa using hb

theorem mem_of_getTransaction {id : ObjectId} {t : Transaction}
    (h : c.getTransaction id = some t) : t ∈ c.transactions ∧ t.id = id :=
  ⟨List.mem_of_find?_eq_some h, by simpa using List.find?_some h⟩

end Collections

/-- The first page of a user's accounts. -/
theorem Database.listAccountsForOwner_firstPage (order : ServerSort) (d : Database)
    (user : ObjectId) : d.listAccountsForOwner order user maxPageSize 0 =
      .ok ((order.sort (d.accountsOwnedBy user)).take 200) := rfl

/-- The first page of the user's accounts has one of the transaction's. -/
def Database.ShownTo (order : ServerSort) (d : Database) (user : ObjectId) (t : Transaction) :
    Prop :=
  ∃ a ∈ (order.sort (d.accountsOwnedBy user)).take 200,
    a.id = t.sourceAccountId ∨ a.id = t.destinationAccountId

theorem Database.ShownTo.takesPart {order : ServerSort} {d : Database} {user : ObjectId}
    {t : Transaction} (h : d.ShownTo order user t) : d.TakesPart user t := by
  obtain ⟨a, ha, hid⟩ := h
  exact ⟨a, (order.mem_sort _).mp (List.mem_of_mem_take ha), hid⟩

section ReadTransaction

variable {order : ServerSort} {c : Collections} {user : AuthenticatedUser} {id : ObjectId}

theorem readTransaction_of_shown {t : Transaction} (hfind : c.getTransaction id = some t)
    (ht : c.ShownTo order user.id t) :
    readTransaction order c user id = (TransactionPublic.ofStored t).mapError .python := by
  obtain ⟨a, ha, hid⟩ := ht
  rw [readTransaction, hfind, Database.listAccountsForOwner_firstPage]
  refine if_pos (hid.imp (fun hs => ?_) fun hd => ?_)
  · exact hs ▸ List.mem_map_of_mem ha
  · exact hd ▸ List.mem_map_of_mem ha

theorem readTransaction_of_not_shown
    (h : ∀ t, c.getTransaction id = some t → ¬ c.ShownTo order user.id t) :
    readTransaction order c user id = .error (.transactionNotFound id) := by
  unfold readTransaction
  split
  · rfl
  · rename_i t hfind
    rw [Database.listAccountsForOwner_firstPage]
    refine if_neg fun hin => h t hfind ?_
    rcases hin with hs | hd
    · obtain ⟨a, ha, hid⟩ := List.mem_map.mp hs
      exact ⟨a, ha, .inl hid⟩
    · obtain ⟨a, ha, hid⟩ := List.mem_map.mp hd
      exact ⟨a, ha, .inr hid⟩

end ReadTransaction

/-- Whoever is authenticated is whom the token names. -/
theorem Collections.getCurrentUser_id {c : Collections} {moment : Moment} {token : AccessToken}
    {user : AuthenticatedUser} (h : c.getCurrentUser moment (.bearer token) = .ok user) :
    user.id = token.sub := by
  simp only [getCurrentUser] at h
  split_ifs at h
  split at h
  · cases h
  · obtain rfl := Except.ok.inj h
    rfl

/-! ### Two states that are the same for a user -/

namespace AgreeFor

variable {user : ObjectId} {moment : Moment} {order order' : ServerSort} {c c' : Collections}

theorem mem_accountsOwnedBy (h : AgreeFor user moment order order' c c') {a : Account} :
    a ∈ c.accountsOwnedBy user ↔ a ∈ c'.accountsOwnedBy user := by
  rw [← order.mem_sort (c.accountsOwnedBy user), h.accounts, order'.mem_sort]

theorem takesPart (h : AgreeFor user moment order order' c c') {t : Transaction} :
    c.TakesPart user t ↔ c'.TakesPart user t := by
  simp only [Database.TakesPart, h.mem_accountsOwnedBy]

theorem getCurrentUser (h : AgreeFor user moment order order' c c') {token : AccessToken}
    (htoken : token.sub = user) :
    c.getCurrentUser moment (.bearer token) = c'.getCurrentUser moment (.bearer token) := by
  simp only [Collections.getCurrentUser]
  by_cases hsigned : token ∈ moment.signed
  · rw [h.revoked token hsigned htoken, htoken, h.userDocument]
  · simp only [hsigned, not_false_eq_true, if_true]

theorem listAccountsForOwner (h : AgreeFor user moment order order' c c') (limit offset : Int) :
    c.listAccountsForOwner order user limit offset =
      c'.listAccountsForOwner order' user limit offset := by
  simp only [Database.listAccountsForOwner, Pipeline.SortBy.page, h.accounts]

theorem getOwnedAccountOrRaise (h : AgreeFor user moment order order' c c')
    (accountId : ObjectId) :
    c.getOwnedAccountOrRaise accountId user = c'.getOwnedAccountOrRaise accountId user := by
  by_cases hex : ∃ a ∈ c.accountsOwnedBy user, a.id = accountId
  · obtain ⟨a, ha, rfl⟩ := hex
    rw [Collections.getOwnedAccountOrRaise_of_mem ha,
      Collections.getOwnedAccountOrRaise_of_mem (h.mem_accountsOwnedBy.mp ha)]
  · have hnone : ∀ a ∈ c.accountsOwnedBy user, a.id ≠ accountId := fun a ha hid => hex ⟨a, ha, hid⟩
    rw [Collections.getOwnedAccountOrRaise_of_not hnone,
      Collections.getOwnedAccountOrRaise_of_not fun a ha => hnone a (h.mem_accountsOwnedBy.mpr ha)]

theorem computeBalance [ServerSum] (h : AgreeFor user moment order order' c c') {a : Account}
    (ha : a ∈ c.accountsOwnedBy user) :
    Ledgerlock.computeBalance c.toDatabase a.id = Ledgerlock.computeBalance c'.toDatabase a.id := by
  simp only [Ledgerlock.computeBalance, balancePipeline, h.entries a ha]

/-- A transaction the user takes part in is found in both states. -/
theorem getTransaction (h : AgreeFor user moment order order' c c') {t : Transaction}
    (ht : c.TakesPart user t) (hfind : c.getTransaction t.id = some t) :
    c'.getTransaction t.id = some t :=
  Collections.getTransaction_of_mem
    ((h.transactions t ht).mp (Collections.mem_of_getTransaction hfind).1)

theorem shownTo (h : AgreeFor user moment order order' c c') {t : Transaction} :
    c.ShownTo order user t ↔ c'.ShownTo order' user t := by
  rw [Database.ShownTo, Database.ShownTo, h.accounts]

/-! ### The readers -/

section Readers

variable {caller : AuthenticatedUser}

theorem listAccounts (h : AgreeFor caller.id moment order order' c c') (limit offset : Int) :
    Ledgerlock.listAccounts order c caller limit offset =
      Ledgerlock.listAccounts order' c' caller limit offset := by
  rw [Ledgerlock.listAccounts, Ledgerlock.listAccounts, h.listAccountsForOwner]

theorem readAccount (h : AgreeFor caller.id moment order order' c c') (accountId : ObjectId) :
    Ledgerlock.readAccount c caller accountId = Ledgerlock.readAccount c' caller accountId := by
  rw [Ledgerlock.readAccount, Ledgerlock.readAccount, h.getOwnedAccountOrRaise]

theorem readBalance [ServerSum] (h : AgreeFor caller.id moment order order' c c')
    (computedAt : Timestamp) (accountId : ObjectId) :
    Ledgerlock.readBalance c caller computedAt accountId =
      Ledgerlock.readBalance c' caller computedAt accountId := by
  rw [Ledgerlock.readBalance, Ledgerlock.readBalance, ← h.getOwnedAccountOrRaise]
  cases hfind : c.getOwnedAccountOrRaise accountId caller.id with
  | error e => rfl
  | ok document =>
      obtain ⟨hmem, -, howner⟩ := Database.getOwnedAccountOrRaise_eq_ok hfind
      have hbalance := h.computeBalance (Database.mem_accountsOwnedBy.mpr ⟨hmem, howner⟩)
      simp only [Except.mapError, bind, Except.bind, hbalance]

theorem readTransaction (h : AgreeFor caller.id moment order order' c c') (id : ObjectId) :
    Ledgerlock.readTransaction order c caller id =
      Ledgerlock.readTransaction order' c' caller id := by
  by_cases hshown : ∃ t, c.getTransaction id = some t ∧ c.ShownTo order caller.id t
  · obtain ⟨t, hfind, ht⟩ := hshown
    obtain ⟨-, rfl⟩ := Collections.mem_of_getTransaction hfind
    rw [readTransaction_of_shown hfind ht,
      readTransaction_of_shown (h.getTransaction ht.takesPart hfind) (h.shownTo.mp ht)]
  · rw [readTransaction_of_not_shown fun t hfind ht => hshown ⟨t, hfind, ht⟩,
      readTransaction_of_not_shown fun t hfind ht => hshown ⟨t, ?_, h.shownTo.mpr ht⟩]
    -- a transaction that is shown in the other state is there in this one
    obtain ⟨hmem, rfl⟩ := Collections.mem_of_getTransaction hfind
    have htakes := h.takesPart.mpr ht.takesPart
    exact Collections.getTransaction_of_mem ((h.transactions t htakes).mpr hmem)

theorem handle [ServerSum] (h : AgreeFor caller.id moment order order' c c')
    (computedAt : Timestamp) (route : ReadRoute) :
    route.handle order c computedAt caller = route.handle order' c' computedAt caller := by
  cases route with
  | listAccounts query => simp only [ReadRoute.handle, h.listAccounts]
  | readAccount id => simp only [ReadRoute.handle, h.readAccount]
  | readBalance id => simp only [ReadRoute.handle, h.readBalance]
  | readTransaction id => simp only [ReadRoute.handle, h.readTransaction]

end Readers

end AgreeFor

/-! ### The time of computation -/

section Untimed

variable [ServerSum] {order : ServerSort} {c : Collections} {computedAt : Timestamp}

/-- A response served at another time differs in the time only. -/
theorem untimed_handle (route : ReadRoute) (user : AuthenticatedUser) :
    (route.handle order c computedAt user).map ReadBody.untimed =
      route.handle order c 0 user := by
  cases route with
  | listAccounts query =>
      cases query with
      | error problems => rfl
      | ok query =>
          show (ReadBody.accounts <$> listAccounts order c user query.limit query.offset).map _ =
            ReadBody.accounts <$> _
          cases listAccounts order c user query.limit query.offset <;> rfl
  | readAccount id =>
      cases id with
      | error problems => rfl
      | ok id =>
          show (ReadBody.account <$> readAccount c user id).map _ = ReadBody.account <$> _
          cases readAccount c user id <;> rfl
  | readBalance id =>
      cases id with
      | error problems => rfl
      | ok id =>
          show (ReadBody.balance <$> readBalance c user computedAt id).map _ =
            ReadBody.balance <$> readBalance c user 0 id
          unfold readBalance
          cases c.getOwnedAccountOrRaise id user.id with
          | error e => rfl
          | ok document =>
              simp only [ComputedBalance.toResponse, validated, Except.mapError, bind, Except.bind]
              split_ifs <;> rfl
  | readTransaction id =>
      cases id with
      | error problems => rfl
      | ok id =>
          show (ReadBody.transaction <$> readTransaction order c user id).map _ =
            ReadBody.transaction <$> _
          cases readTransaction order c user id <;> rfl

end Untimed

/-! ### What is not there to be seen -/

section Absent

variable [ServerSum] {order : ServerSort} {c : Collections} {computedAt : Timestamp}
  {caller : AuthenticatedUser}

theorem handle_readAccount_of_not {id : ObjectId}
    (h : ∀ a ∈ c.accountsOwnedBy caller.id, a.id ≠ id) :
    (ReadRoute.readAccount (.ok id)).handle order c computedAt caller =
      .error (.ledgerlock (.accountNotFound none id)) := by
  show ReadBody.account <$> readAccount c caller id = _
  rw [readAccount, Collections.getOwnedAccountOrRaise_of_not h]
  rfl

theorem handle_readBalance_of_not {id : ObjectId}
    (h : ∀ a ∈ c.accountsOwnedBy caller.id, a.id ≠ id) :
    (ReadRoute.readBalance (.ok id)).handle order c computedAt caller =
      .error (.ledgerlock (.accountNotFound none id)) := by
  show ReadBody.balance <$> readBalance c caller computedAt id = _
  rw [readBalance, Collections.getOwnedAccountOrRaise_of_not h]
  rfl

theorem handle_readTransaction_of_not {id : ObjectId}
    (h : ∀ t ∈ c.transactions, t.id = id → ¬ c.TakesPart caller.id t) :
    (ReadRoute.readTransaction (.ok id)).handle order c computedAt caller =
      .error (.transactionNotFound id) := by
  have hnot : readTransaction order c caller id = .error (.transactionNotFound id) :=
    readTransaction_of_not_shown fun t hfind ht =>
      have ⟨hmem, hid⟩ := Collections.mem_of_getTransaction hfind
      h t hmem hid ht.takesPart
  show ReadBody.transaction <$> readTransaction order c caller id = _
  rw [hnot]
  rfl

end Absent

/-! ### Reads reveal nothing -/

theorem untimed_mapError (x : Except ReadError ReadBody) :
    ReadResponse.untimed (x.mapError ReadError.envelope) =
      (x.map ReadBody.untimed).mapError ReadError.envelope := by
  cases x <;> rfl

section Serve

variable [ServerSum] {user : ObjectId} {moment : Moment} {order order' : ServerSort}
  {c c' : Collections} {token : AccessToken}

/-- A request is answered as its caller's credentials say, or as the handler does. -/
theorem serve_bearer (route : ReadRoute) (computedAt : Timestamp) :
    ReadRequest.serve order c moment computedAt ⟨.bearer token, route⟩ =
      match c.getCurrentUser moment (.bearer token) with
      | .error e => .error e.envelope
      | .ok caller => (route.handle order c computedAt caller).mapError ReadError.envelope := by
  rw [ReadRequest.serve]
  cases c.getCurrentUser moment (.bearer token) <;> rfl

/-- Two routes that the handlers refuse alike are refused alike. -/
theorem serve_eq_of_refused {route route' : ReadRoute} {computedAt : Timestamp}
    (e e' : ReadError) (he : e.envelope = e'.envelope)
    (h : ∀ caller : AuthenticatedUser, caller.id = token.sub →
      route.handle order c computedAt caller = .error e ∧
        route'.handle order c computedAt caller = .error e') :
    ReadRequest.serve order c moment computedAt ⟨.bearer token, route⟩ =
      ReadRequest.serve order c moment computedAt ⟨.bearer token, route'⟩ := by
  rw [serve_bearer, serve_bearer]
  cases hcaller : c.getCurrentUser moment (.bearer token) with
  | error e => rfl
  | ok caller =>
      obtain ⟨hroute, hroute'⟩ := h caller (Collections.getCurrentUser_id hcaller)
      show (route.handle order c computedAt caller).mapError _ =
        (route'.handle order c computedAt caller).mapError _
      rw [hroute, hroute']
      exact congrArg Except.error he

/-- A user is told the same in two states that are the same for the user; and what
exists without concerning the user is as good as absent. -/
theorem reads_reveal_nothing (h : AgreeFor user moment order order' c c')
    (htoken : token.sub = user) :
    (∀ (route : ReadRoute) (computedAt computedAt' : Timestamp),
      (ReadRequest.serve order c moment computedAt ⟨.bearer token, route⟩).untimed =
        (ReadRequest.serve order' c' moment computedAt' ⟨.bearer token, route⟩).untimed) ∧
    (∀ (computedAt : Timestamp) (id absent : ObjectId),
      (∀ a ∈ c.accounts, a.id = id → a.ownerId ≠ some user) →
      (∀ a ∈ c.accounts, a.id ≠ absent) →
      ReadRequest.serve order c moment computedAt ⟨.bearer token, .readAccount (.ok id)⟩ =
        ReadRequest.serve order c moment computedAt ⟨.bearer token, .readAccount (.ok absent)⟩ ∧
      ReadRequest.serve order c moment computedAt ⟨.bearer token, .readBalance (.ok id)⟩ =
        ReadRequest.serve order c moment computedAt
          ⟨.bearer token, .readBalance (.ok absent)⟩) ∧
    ∀ (computedAt : Timestamp) (id absent : ObjectId),
      (∀ t ∈ c.transactions, t.id = id → ¬ c.TakesPart user t) →
      (∀ t ∈ c.transactions, t.id ≠ absent) →
      ReadRequest.serve order c moment computedAt ⟨.bearer token, .readTransaction (.ok id)⟩ =
        ReadRequest.serve order c moment computedAt
          ⟨.bearer token, .readTransaction (.ok absent)⟩ := by
  subst htoken
  refine ⟨fun route computedAt computedAt' => ?_, fun computedAt id absent hid habsent => ?_,
    fun computedAt id absent hid habsent => ?_⟩
  · rw [serve_bearer, serve_bearer, ← h.getCurrentUser rfl]
    cases hcaller : c.getCurrentUser moment (.bearer token) with
    | error e => rfl
    | ok caller =>
        rw [← Collections.getCurrentUser_id hcaller] at h
        show ReadResponse.untimed ((route.handle order c computedAt caller).mapError _) =
          ReadResponse.untimed ((route.handle order' c' computedAt' caller).mapError _)
        rw [untimed_mapError, untimed_mapError, untimed_handle, untimed_handle, h.handle]
  · have hmine : ∀ a ∈ c.accountsOwnedBy token.sub, a.id ≠ id := fun a ha hid' =>
      hid a (Database.mem_accountsOwnedBy.mp ha).1 hid' (Database.mem_accountsOwnedBy.mp ha).2
    have hnone : ∀ a ∈ c.accountsOwnedBy token.sub, a.id ≠ absent := fun a ha =>
      habsent a (Database.mem_accountsOwnedBy.mp ha).1
    constructor
    · refine serve_eq_of_refused (.ledgerlock (.accountNotFound none id))
        (.ledgerlock (.accountNotFound none absent)) rfl fun caller hcaller => ?_
      rw [← hcaller] at hmine hnone
      exact ⟨handle_readAccount_of_not hmine, handle_readAccount_of_not hnone⟩
    · refine serve_eq_of_refused (.ledgerlock (.accountNotFound none id))
        (.ledgerlock (.accountNotFound none absent)) rfl fun caller hcaller => ?_
      rw [← hcaller] at hmine hnone
      exact ⟨handle_readBalance_of_not hmine, handle_readBalance_of_not hnone⟩
  · refine serve_eq_of_refused (.transactionNotFound id) (.transactionNotFound absent) rfl
      fun caller hcaller => ?_
    rw [← hcaller] at hid
    exact ⟨handle_readTransaction_of_not hid,
      handle_readTransaction_of_not fun t ht heq => absurd heq (habsent t ht)⟩

end Serve

namespace Example

/-- Accounts opened at the same time come in the order they are stored. -/
abbrev storedOrder : ServerSort := .insertion _

def aliceToken : AccessToken := ⟨11, "alice-0001", 0, 1800⟩

def aliceUser : AuthenticatedUser := ⟨11, "alice@example.com", "alice-0001", 1800000000⟩

def aliceMoment : Moment := ⟨0, [aliceToken]⟩

/-- A funding of 100 of an account. -/
def fundingOf (a : Account) (id : ObjectId) : Transaction :=
  (transactionDocument { funding with destinationAccountId := a.id } 0).toBson id

def creditOf (a : Account) (transactionId id : ObjectId) : LedgerEntry where
  transactionId := transactionId
  accountId := a.id
  direction := .credit
  amountMinor := 100
  signedAmountMinor := 100
  currency := "USD"
  createdAt := 0
  id := id

/-- Alice and Bob have been funded. -/
def withBob : Collections where
  accounts := [boundary, bob, alice]
  transactions := [fundingOf bob 20, fundingOf alice 21]
  ledgerEntries := [creditOf bob 20 30, creditOf alice 21 31]
  users := [⟨11, "alice@example.com", ""⟩, ⟨12, "bob@example.com", ""⟩]
  revokedTokens := [⟨"bob-0001", 12, 0, 0⟩]
  account_ids := by decide
  transaction_ids := by decide

/-- There is no Bob. -/
def withoutBob : Collections where
  accounts := [alice]
  transactions := [fundingOf alice 21]
  ledgerEntries := [creditOf alice 21 31]
  users := [⟨11, "alice@example.com", ""⟩]
  revokedTokens := []
  account_ids := by decide
  transaction_ids := by decide

theorem withBob_agrees :
    AgreeFor 11 aliceMoment storedOrder storedOrder withBob withoutBob where
  userDocument := by decide
  revoked := by decide
  accounts := by decide
  entries := by decide
  transactions t ht := by
    have hbob : ¬ withBob.TakesPart 11 (fundingOf bob 20) := by decide
    show t ∈ [fundingOf bob 20, fundingOf alice 21] ↔ t ∈ [fundingOf alice 21]
    constructor
    · intro hmem
      rcases List.mem_cons.mp hmem with rfl | hmem
      · exact absurd ht hbob
      · exact hmem
    · exact List.mem_cons_of_mem _

/-- Alice cannot tell whether there is a Bob, nor his account or his transaction from
ones that are not there. -/
theorem reads_reveal_nothing_alice :
    (ReadRequest.serve storedOrder withBob aliceMoment 5
        ⟨.bearer aliceToken, .readBalance (.ok 1)⟩).untimed =
      (ReadRequest.serve storedOrder withoutBob aliceMoment 7
        ⟨.bearer aliceToken, .readBalance (.ok 1)⟩).untimed ∧
    ReadRequest.serve storedOrder withBob aliceMoment 5
        ⟨.bearer aliceToken, .readAccount (.ok 2)⟩ =
      ReadRequest.serve storedOrder withBob aliceMoment 5
        ⟨.bearer aliceToken, .readAccount (.ok 3)⟩ ∧
    ReadRequest.serve storedOrder withBob aliceMoment 5
        ⟨.bearer aliceToken, .readTransaction (.ok 20)⟩ =
      ReadRequest.serve storedOrder withBob aliceMoment 5
        ⟨.bearer aliceToken, .readTransaction (.ok 22)⟩ :=
  have h := reads_reveal_nothing withBob_agrees (show aliceToken.sub = 11 from rfl)
  ⟨h.1 _ 5 7, (h.2.1 5 2 3 (by decide) (by decide)).1, h.2.2 5 20 22 (by decide) (by decide)⟩

end Example

end Ledgerlock

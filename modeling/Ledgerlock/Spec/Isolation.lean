import Ledgerlock.Spec.Example
import Ledgerlock.Spec.Response

/-!
# Ledgerlock.Spec.Isolation

What the requests of one user can do to the responses another user gets: a run of
requests is compared with the run that is left when all requests of one user are
taken out.

The two runs share their accounts, and keep to themselves what the removed user and
the users downstream of him do. `Agree W K` is what they still have in common, the
balances of the accounts in `W` and the use of the idempotency keys in `K`. A request
inside is answered alike in both and keeps that (`Agree.inside`), a request outside
leaves it alone (`Agree.outside`).
-/

namespace Ledgerlock

open Mvcc

/-! ### Counters are not looked at -/

/-- The database without the counters of its accounts. -/
def Database.withoutCounters (d : Database) : Database :=
  { d with accounts := d.accounts.map Account.withoutCounter }

namespace Database

variable (d : Database)

theorem find?_withoutCounters (p : Account → Bool) (hp : ∀ a, p a.withoutCounter = p a) :
    d.withoutCounters.accounts.find? p = (d.accounts.find? p).map Account.withoutCounter := by
  have : p ∘ Account.withoutCounter = p := funext hp
  rw [withoutCounters, List.find?_map, this]

theorem findAccount_withoutCounters (id : ObjectId) :
    d.withoutCounters.findAccount id = (d.findAccount id).map Account.withoutCounter :=
  d.find?_withoutCounters _ fun _ => rfl

end Database

theorem createTransaction_withoutCounters (d : Database) (user : ObjectId) (key : String)
    (payload : TransferCreateRequest) :
    createTransaction d.withoutCounters user key payload =
      createTransaction d user key payload := by
  unfold createTransaction Database.getAccountOrRaise
  rw [d.findAccount_withoutCounters, d.findAccount_withoutCounters]
  cases d.findAccount payload.sourceAccountId <;>
    cases d.findAccount payload.destinationAccountId <;> rfl

theorem fundAccount_withoutCounters (d : Database) (user : ObjectId) (key : String)
    (accountId : ObjectId) (payload : FundingCreateRequest) :
    fundAccount d.withoutCounters user key accountId payload =
      fundAccount d user key accountId payload := by
  unfold fundAccount Database.getOwnedAccountOrRaise Database.getSystemAccount
  rw [d.find?_withoutCounters _ fun _ => rfl, d.find?_withoutCounters _ fun _ => rfl]
  cases d.accounts.find? _ with
  | none => rfl
  | some a => cases d.accounts.find? _ <;> rfl

/-- What a request asks for depends on the accounts alone, and not on their
counters. -/
theorem Request.asks_congr {d d' : Database}
    (h : d.accounts.map Account.withoutCounter = d'.accounts.map Account.withoutCounter)
    (r : Request) : r.asks d = r.asks d' := by
  have hcounters : ∀ d : Database, r.asks d = r.asks d.withoutCounters := by
    intro d
    unfold asks
    simp only [createTransaction_withoutCounters, fundAccount_withoutCounters]
  have haccounts : d.withoutCounters.accounts = d'.withoutCounters.accounts := h
  rw [hcounters d, hcounters d']
  simp only [asks, createTransaction, fundAccount, Database.getAccountOrRaise,
    Database.findAccount, Database.getOwnedAccountOrRaise, Database.getSystemAccount, haccounts]

/-! ### What a transfer leaves behind -/

section Written

variable (d : Database) (source : Account) (args : TransferArgs) (x : Stamp)

theorem accounts_withoutCounter_transferWrites :
    (view d (transferWrites source args x)).accounts.map Account.withoutCounter =
      d.accounts.map Account.withoutCounter := by
  have hlock : (view d (lockWrites source)).accounts.map Account.withoutCounter =
      d.accounts.map Account.withoutCounter := by
    unfold lockWrites
    split
    · show (d.accounts.map _).map _ = _
      rw [List.map_map]
      refine List.map_congr_left fun a _ => ?_
      show Account.withoutCounter (if _ then _ else _) = _
      split <;> rfl
    · rfl
  rw [transferWrites, view_append]
  exact hlock

theorem signedAmounts_transferWrites (id : ObjectId) :
    ((view d (transferWrites source args x)).entriesOf id).map (·.signedAmountMinor) =
      (d.entriesOf id).map (·.signedAmountMinor) ++ args.signedAmounts id := by
  rw [Database.entriesOf, (transferWrites_view d source args x).2, List.filter_append,
    List.map_append]
  congr 1
  by_cases hs : args.sourceAccountId = id <;> by_cases hd : args.destinationAccountId = id <;>
    simp [TransferArgs.signedAmounts, pairAt, Stamp.debit, Stamp.credit, hs, hd]

theorem repeated_transferWrites (key : String) :
    (∃ t ∈ (view d (transferWrites source args x)).transactions, t.idempotencyKey = key) ↔
      (∃ t ∈ d.transactions, t.idempotencyKey = key) ∨ args.idempotencyKey = key := by
  rw [(transferWrites_view d source args x).1]
  simp [or_and_right, exists_or, Stamp.header, transactionDocument, TransactionDocument.toBson]

end Written

/-! ### What two runs have in common -/

/-- The transfer debits or credits an account of `W`. -/
def TransferArgs.Touches (args : TransferArgs) (W : Set ObjectId) : Prop :=
  args.sourceAccountId ∈ W ∨ args.destinationAccountId ∈ W

theorem TransferArgs.signedAmounts_eq_nil {args : TransferArgs} {W : Set ObjectId}
    (h : ¬ args.Touches W) {id : ObjectId} (hid : id ∈ W) : args.signedAmounts id = [] := by
  have hs : args.sourceAccountId ≠ id := fun hs => h (.inl (hs ▸ hid))
  have hd : args.destinationAccountId ≠ id := fun hd => h (.inr (hd ▸ hid))
  simp [signedAmounts, pairAt, Stamp.debit, Stamp.credit, hs, hd]

/-- The two databases agree on the accounts of `W` and on the use of the keys
in `K`. -/
structure Agree (W : Set ObjectId) (K : Set String) (d d' : Database) : Prop where
  accounts : d.accounts.map Account.withoutCounter = d'.accounts.map Account.withoutCounter
  funds : ∀ id ∈ W, (d.entriesOf id).map (·.signedAmountMinor) =
    (d'.entriesOf id).map (·.signedAmountMinor)
  keys : ∀ key ∈ K, (∃ t ∈ d.transactions, t.idempotencyKey = key) ↔
    ∃ t ∈ d'.transactions, t.idempotencyKey = key

section Agree

variable {W : Set ObjectId} {K : Set String} {d d' : Database}

theorem Agree.refl (d : Database) : Agree W K d d :=
  ⟨rfl, fun _ _ => rfl, fun _ _ => Iff.rfl⟩

theorem Agree.symm (h : Agree W K d d') : Agree W K d' d :=
  ⟨h.accounts.symm, fun id hid => (h.funds id hid).symm, fun key hkey => (h.keys key hkey).symm⟩

theorem Agree.findAccount (h : Agree W K d d') (id : ObjectId) :
    (d.findAccount id).map Account.withoutCounter =
      (d'.findAccount id).map Account.withoutCounter := by
  have haccounts : d.withoutCounters.accounts = d'.withoutCounters.accounts := h.accounts
  rw [← d.findAccount_withoutCounters, ← d'.findAccount_withoutCounters, Database.findAccount,
    Database.findAccount, haccounts]

/-- A transfer that touches none of it can be written to one of them. -/
theorem Agree.transfer_left (h : Agree W K d d') {args : TransferArgs}
    (htouches : ¬ args.Touches W) (hkey : args.idempotencyKey ∉ K) (source : Account)
    (x : Stamp) : Agree W K (view d (transferWrites source args x)) d' where
  accounts := (accounts_withoutCounter_transferWrites d source args x).trans h.accounts
  funds := fun id hid => by
    rw [signedAmounts_transferWrites, TransferArgs.signedAmounts_eq_nil htouches hid,
      List.append_nil, h.funds id hid]
  keys := fun key hin => by
    have hne : args.idempotencyKey ≠ key := fun heq => hkey (heq ▸ hin)
    rw [repeated_transferWrites, h.keys key hin, or_iff_left hne]

/-- A transfer can be written to both. -/
theorem Agree.transfer (h : Agree W K d d') (args : TransferArgs) (source source' : Account)
    (x x' : Stamp) : Agree W K (view d (transferWrites source args x))
      (view d' (transferWrites source' args x')) where
  accounts := by
    rw [accounts_withoutCounter_transferWrites, accounts_withoutCounter_transferWrites,
      h.accounts]
  funds := fun id hid => by
    rw [signedAmounts_transferWrites, signedAmounts_transferWrites, h.funds id hid]
  keys := fun key hin => by
    rw [repeated_transferWrites, repeated_transferWrites, h.keys key hin]

/-- The transfer is judged by what they agree on. -/
theorem Agree.alike (h : Agree W K d d') (hkeys : d.keys.Nodup) {user : ObjectId}
    {args : TransferArgs} (hentitled : Entitled d user args) (hkey : args.idempotencyKey ∈ K)
    (hsource : args.kind = .transfer → args.sourceAccountId ∈ W) : Alike d d' args where
  key := h.keys _ hkey
  source := h.findAccount _
  destination := h.findAccount _
  funds := fun a ha huser => by
    cases hentitled with
    | transfer hkind => exact h.funds _ (hsource hkind)
    | @funding boundary _ _ hmem hid htype =>
        -- the SYSTEM account may be overdrawn
        have hfound := Database.findAccount_of_mem hkeys hmem
        rw [hid, ha] at hfound
        obtain rfl := Option.some.inj hfound
        exact absurd (huser.symm.trans htype) (by simp)

end Agree

/-! ### One request -/

section Request

variable [ServerSum] {W : Set ObjectId} {K : Set String} {d d' : Database} {r : Request}
  {response response' : Response} {ws ws' : List DbWrite} {ids ids' : List ObjectId}

/-- A request for a transfer they agree on gets the same response from both. -/
theorem Agree.respond_eq (h : Agree W K d d') (hkeys : d.keys.Nodup)
    (hin : ∀ args, r.asks d = .ok args → args.idempotencyKey ∈ K ∧
      (args.kind = .transfer → args.sourceAccountId ∈ W)) : respond d r = respond d' r := by
  unfold respond
  rw [← r.asks_congr h.accounts]
  cases hasks : r.asks d with
  | error e => rfl
  | ok args =>
      obtain ⟨hkey, hsource⟩ := hin args hasks
      have halike := h.alike hkeys (Request.asks_entitled hasks) hkey hsource
      show (if _ then _ else _) = if _ then _ else _
      split
      · rfl
      · cases hjudge : judge d args with
        | ok source =>
            obtain ⟨source', hjudge', -⟩ := halike.judge_ok hjudge
            rw [hjudge']
        | error e =>
            obtain ⟨e', hjudge', hsame⟩ := halike.judge_error hjudge
            rw [hjudge']
            show Response.error e.response = Response.error e'.response
            rw [← e.anonymous_response, ← hsame, e'.anonymous_response]

/-- Inside, the responses are the same and the two go on agreeing. -/
theorem Agree.inside (h : Agree W K d d') (hkeys : d.keys.Nodup)
    (hin : ∀ args, r.asks d = .ok args → args.idempotencyKey ∈ K ∧
      (args.kind = .transfer → args.sourceAccountId ∈ W))
    (hanswers : Answers d r response ws ids) (hanswers' : Answers d' r response' ws' ids') :
    response.anonymous = response'.anonymous ∧ Agree W K (view d ws) (view d' ws') := by
  have hsame : response.anonymous = response'.anonymous := by
    rw [hanswers.respond_eq, hanswers'.respond_eq, h.respond_eq hkeys hin]
  refine ⟨hsame, ?_⟩
  cases hanswers with
  | error =>
      cases hanswers' with
      | error => exact h
      | created => cases hsame
  | @created args source x hasks =>
      cases hanswers' with
      | error => cases hsame
      | @created args' source' x' hasks' =>
          rw [← r.asks_congr h.accounts, hasks] at hasks'
          obtain rfl := Except.ok.inj hasks'
          exact h.transfer args source source' x x'

/-- Outside, a request changes nothing they agree on. -/
theorem Agree.outside (h : Agree W K d d') (hanswers : Answers d r response ws ids)
    (hout : ∀ body, response = .created body → ∀ args, r.asks d = .ok args →
      ¬ args.Touches W ∧ args.idempotencyKey ∉ K) : Agree W K (view d ws) d' := by
  cases hanswers with
  | error => exact h
  | @created args source x hasks =>
      obtain ⟨htouches, hkey⟩ := hout _ rfl args hasks
      exact h.transfer_left htouches hkey source x

end Request

/-! ### Whole runs -/

/-- The requests of a run, without those of the user `v`. -/
def without (v : ObjectId) (requests : List Request) : List Request :=
  requests.filter fun r => r.user ≠ v

/-- The requests of `u` in a run and the response each got, up to what was generated
for it. -/
def responsesTo (u : ObjectId) (run : List (Request × Response)) : List (Request × Response) :=
  (run.filter fun p => p.1.user = u).map fun p => (p.1, p.2.anonymous)

/-- The requests of a run on one side of `W` and `K` or the other: those of `u` inside,
and what `v` was granted outside. -/
structure Separated (d : Database) (u v : ObjectId) (W : Set ObjectId) (K : Set String)
    (run : List (Request × Response)) : Prop where
  own : ∀ p ∈ run, p.1.user = u → ∀ args, p.1.asks d = .ok args → args.Touches W
  inside : ∀ p ∈ run, p.1.user ≠ v → ∀ args, p.1.asks d = .ok args → args.Touches W →
    args.idempotencyKey ∈ K ∧ (args.kind = .transfer → args.sourceAccountId ∈ W)
  outside : ∀ p ∈ run, p.1.user ≠ v → ∀ args, p.1.asks d = .ok args → ¬ args.Touches W →
    args.idempotencyKey ∉ K
  removed : ∀ p ∈ run, p.1.user = v → ∀ body, p.2 = .created body →
    ∀ args, p.1.asks d = .ok args → ¬ args.Touches W ∧ args.idempotencyKey ∉ K

/-- The requests still to come are separated in the state they find. -/
theorem Separated.tail {d d' : Database} {u v : ObjectId} {W : Set ObjectId} {K : Set String}
    {p : Request × Response} {run : List (Request × Response)}
    (h : Separated d u v W K (p :: run))
    (haccounts : d'.accounts.map Account.withoutCounter = d.accounts.map Account.withoutCounter) :
    Separated d' u v W K run := by
  have hasks : ∀ r : Request, r.asks d' = r.asks d := fun r => r.asks_congr haccounts
  have hmem : ∀ q ∈ run, q ∈ p :: run := fun q => List.mem_cons_of_mem p
  constructor
  · exact fun q hq hu args hargs => h.own q (hmem q hq) hu args (hasks q.1 ▸ hargs)
  · exact fun q hq hv args hargs => h.inside q (hmem q hq) hv args (hasks q.1 ▸ hargs)
  · exact fun q hq hv args hargs => h.outside q (hmem q hq) hv args (hasks q.1 ▸ hargs)
  · exact fun q hq hv body hbody args hargs =>
      h.removed q (hmem q hq) hv body hbody args (hasks q.1 ▸ hargs)

section Runs

variable [ServerSum] {W : Set ObjectId} {K : Set String}

/-- No request changes an account but by its counter. -/
theorem Answers.accounts {d : Database} {r : Request} {response : Response}
    {ws : List DbWrite} {ids : List ObjectId} (h : Answers d r response ws ids) :
    (view d ws).accounts.map Account.withoutCounter =
      d.accounts.map Account.withoutCounter := by
  cases h with
  | error => rfl
  | created => exact accounts_withoutCounter_transferWrites _ _ _ _

/-- A request that is in both runs: they go on agreeing, and if it is one of `u` they
answer it alike. -/
theorem Agree.step {u v : ObjectId} {d d' : Database} {p : Request × Response}
    {run : List (Request × Response)} {response' : Response} {ws ws' : List DbWrite}
    {ids ids' : List ObjectId} (hagree : Agree W K d d') (hkeys : d.keys.Nodup)
    (hsep : Separated d u v W K (p :: run)) (hv : p.1.user ≠ v)
    (hanswers : Answers d p.1 p.2 ws ids) (hanswers' : Answers d' p.1 response' ws' ids') :
    Agree W K (view d ws) (view d' ws') ∧
      (p.1.user = u → p.2.anonymous = response'.anonymous) := by
  have hp : p ∈ p :: run := List.mem_cons_self
  by_cases hin : ∀ args, p.1.asks d = .ok args → args.Touches W
  · -- it is inside, or comes to nothing in either run
    obtain ⟨hsame, hboth⟩ := hagree.inside hkeys
      (fun args hargs => hsep.inside p hp hv args hargs (hin args hargs)) hanswers hanswers'
    exact ⟨hboth, fun _ => hsame⟩
  · -- it is outside, so it is no request of `u`
    obtain ⟨args, hargs, htouches⟩ : ∃ args, p.1.asks d = .ok args ∧ ¬ args.Touches W := by
      simpa using hin
    have hout : ∀ args', p.1.asks d = .ok args' →
        ¬ args'.Touches W ∧ args'.idempotencyKey ∉ K := by
      intro args' hargs'
      obtain rfl := Except.ok.inj (hargs.symm.trans hargs')
      exact ⟨htouches, hsep.outside p hp hv args hargs htouches⟩
    have hleft := hagree.outside hanswers fun _ _ => hout
    have hboth := hleft.symm.outside hanswers' fun _ _ args' hargs' =>
      hout args' (by rw [p.1.asks_congr hagree.accounts, hargs'])
    exact ⟨hboth.symm, fun hu => absurd (hsep.own p hp hu args hargs) htouches⟩

/-- Two runs that differ by the requests of `v` go on agreeing, and answer `u` alike.
The induction is on the longer run. -/
theorem Serves.agree {u v : ObjectId} (huv : u ≠ v) {d d' e e' : Database}
    {taken taken' : Set ObjectId} {run run' : List (Request × Response)}
    (hrun : Serves d taken run e) (hrun' : Serves d' taken' run' e')
    (hrequests : run'.map Prod.fst = without v (run.map Prod.fst))
    (hready : Ready d taken) (hready' : Ready d' taken') (hagree : Agree W K d d')
    (hsep : Separated d u v W K run) : responsesTo u run = responsesTo u run' := by
  induction hrun generalizing d' taken' run' with
  | nil d taken =>
      obtain rfl := List.map_eq_nil_iff.mp hrequests
      rfl
  | @cons d e taken r response ws ids rest hserved _ ih =>
      have hanswers := hserved.answers hready.idsTaken
      have hnext := hready.served hserved
      have htail := hsep.tail hanswers.accounts
      by_cases hv : r.user = v
      · -- the request is missing from the shorter run
        have hout := hagree.outside hanswers (hsep.removed _ List.mem_cons_self hv)
        have hrest : run'.map Prod.fst = without v (rest.map Prod.fst) := by
          simpa [without, hv] using hrequests
        rw [← ih hrun' hrest hnext hready' hout htail]
        have hu : r.user ≠ u := fun hu => huv (hu.symm.trans hv)
        simp [responsesTo, hu]
      have hrequests' : run'.map Prod.fst = r :: without v (rest.map Prod.fst) := by
        simpa [without, hv] using hrequests
      obtain ⟨response', ws', ids', rest', rfl, hrest, hserved', hrun'⟩ := hrun'.head hrequests'
      have hanswers' := hserved'.answers hready'.idsTaken
      have hnext' := hready'.served hserved'
      obtain ⟨hboth, hsame⟩ := hagree.step hready.keys hsep hv hanswers hanswers'
      have hih := ih hrun' hrest hnext hnext' hboth htail
      by_cases hu : r.user = u
      · simpa [responsesTo, hu, hsame hu] using hih
      · simpa [responsesTo, hu] using hih

end Runs

/-! ### Independent users -/

/-- The accounts of a user. -/
def Database.ownedBy (d : Database) (user : ObjectId) : Set ObjectId :=
  {id | ∃ a ∈ d.accounts, a.id = id ∧ a.ownerId = some user}

/-- No transfer that was granted to `v` debits or credits an account of `W`. Accounts
stay what they are in a run, so what a request asks for can be read off the state the
run starts on. -/
def Spares (d : Database) (v : ObjectId) (run : List (Request × Response))
    (W : Set ObjectId) : Prop :=
  ∀ p ∈ run, p.1.user = v → ∀ body, p.2 = .created body →
    ∀ args, p.1.asks d = .ok args → ¬ args.Touches W

/-- A set of accounts that keeps the requests of `u` clear of those of `v`. -/
structure Insulated (d : Database) (u v : ObjectId) (run : List (Request × Response))
    (W : Set ObjectId) : Prop where
  own : d.ownedBy u ⊆ W
  spared : Spares d v run W
  /-- The other users pay into it only out of it. -/
  closed : ∀ p ∈ run, p.1.user ≠ v → ∀ args, p.1.asks d = .ok args →
    args.kind = .transfer → args.destinationAccountId ∈ W → args.sourceAccountId ∈ W
  /-- No key is carried by a request that debits or credits one of the accounts and
  by one that does not. -/
  keys : ∀ p ∈ run, p.1.user ≠ v → ∀ q ∈ run, (q.1.user = v → ∃ body, q.2 = .created body) →
    ∀ args args', p.1.asks d = .ok args → q.1.asks d = .ok args' →
      args.Touches W → ¬ args'.Touches W → args.idempotencyKey ≠ args'.idempotencyKey

/-- A user asks only for what debits or credits an account of his. -/
theorem Entitled.touches {d : Database} {user : ObjectId} {args : TransferArgs}
    (h : Entitled d user args) : args.Touches (d.ownedBy user) := by
  cases h with
  | transfer _ hmem hid howner => exact .inl ⟨_, hmem, hid, howner⟩
  | funding _ _ _ _ hmem hid howner => exact .inr ⟨_, hmem, hid, howner⟩

theorem TransferArgs.Touches.mono {args : TransferArgs} {W W' : Set ObjectId} (hsub : W ⊆ W')
    (h : args.Touches W) : args.Touches W' :=
  h.imp (fun hs => hsub hs) fun hd => hsub hd

/-- Where only the two of them make requests, the key is all they can share. -/
theorem Insulated.of_pair {d : Database} {u v : ObjectId} {run : List (Request × Response)}
    (hpair : ∀ p ∈ run, p.1.user ≠ v → p.1.user = u) (hspares : Spares d v run (d.ownedBy u))
    (hkeys : ∀ p ∈ run, p.1.user = u → ∀ q ∈ run, q.1.user = v → ∀ body, q.2 = .created body →
      ∀ args args', p.1.asks d = .ok args → q.1.asks d = .ok args' →
        args.idempotencyKey ≠ args'.idempotencyKey) :
    Insulated d u v run (d.ownedBy u) where
  own := fun _ h => h
  spared := hspares
  closed := fun p hp hv args hasks hkind _ => by
    have hentitled := Request.asks_entitled hasks
    rw [hpair p hp hv] at hentitled
    cases hentitled with
    | transfer _ hmem hid howner => exact ⟨_, hmem, hid, howner⟩
    | funding hkind' => exact absurd (hkind.symm.trans hkind') (by simp)
  keys := fun p hp hv q hq hgranted args args' hasks hasks' _ hout => by
    by_cases hqv : q.1.user = v
    · obtain ⟨body, hbody⟩ := hgranted hqv
      exact hkeys p hp (hpair p hp hv) q hq hqv body hbody args args' hasks hasks'
    · have htouches := (Request.asks_entitled hasks').touches
      rw [hpair q hq hqv] at htouches
      exact absurd htouches hout

/-- The keys of the requests that touch the accounts separate a run. -/
theorem Insulated.separated {d : Database} {u v : ObjectId} {run : List (Request × Response)}
    {W : Set ObjectId} (h : Insulated d u v run W) :
    Separated d u v W {key | ∃ p ∈ run, p.1.user ≠ v ∧ ∃ args, p.1.asks d = .ok args ∧
      args.Touches W ∧ args.idempotencyKey = key} run where
  own := fun p _ hu args hasks => by
    have htouches := (Request.asks_entitled hasks).touches
    rw [hu] at htouches
    exact htouches.mono h.own
  inside := fun p hp hv args hasks htouches =>
    ⟨⟨p, hp, hv, args, hasks, htouches, rfl⟩,
      fun hkind => htouches.elim id fun hd => h.closed p hp hv args hasks hkind hd⟩
  outside := fun q hq hv args' hasks' hout ⟨p, hp, hpv, args, hasks, htouches, hkey⟩ =>
    h.keys p hp hpv q hq (fun hqv => absurd hqv hv) args args' hasks hasks' htouches hout hkey
  removed := fun q hq hv body hbody args' hasks' => by
    have hout := h.spared q hq hv body hbody args' hasks'
    refine ⟨hout, fun ⟨p, hp, hpv, args, hasks, htouches, hkey⟩ => ?_⟩
    exact h.keys p hp hpv q hq (fun _ => ⟨body, hbody⟩) args args' hasks hasks' htouches hout
      hkey

/-- Taking the requests of one user out of a run leaves the responses of an insulated
user as they were. -/
theorem responses_without [ServerSum] {ν : Type} [DecidableEq ν] {D : Deployment ν}
    {st : LedgerState ν} (hst : Reachable D.system st) {u v : ObjectId} (huv : u ≠ v)
    {run : List (Request × Response)} {e : Database}
    (hrun : Serves (D.db st) st.issued run e) {W : Set ObjectId}
    (hW : Insulated (D.db st) u v run W) :
    (∃ run' e', run'.map Prod.fst = without v (run.map Prod.fst) ∧
      Serves (D.db st) st.issued run' e') ∧
    ∀ run' e', run'.map Prod.fst = without v (run.map Prod.fst) →
      Serves (D.db st) st.issued run' e' → responsesTo u run = responsesTo u run' := by
  have hready := Ready.of_reachable hst
  refine ⟨hready.exists_serves _, fun run' e' hrequests hrun' => ?_⟩
  exact hrun.agree huv hrun' hrequests hready hready (.refl _) hW.separated

/-! ### What is shared -/

/-- What the requests ask for is enough to see that no account of a user is touched. -/
theorem Spares.of_requests {d : Database} {user v : ObjectId} (requests : List Request)
    (h : ∀ r ∈ requests, r.user = v → ∀ args ∈ (r.asks d).toOption, ∀ a ∈ d.accounts,
      a.ownerId = some user → a.id ≠ args.sourceAccountId ∧ a.id ≠ args.destinationAccountId)
    {run : List (Request × Response)} (hrun : run.map Prod.fst = requests) :
    Spares d v run (d.ownedBy user) := by
  intro p hp hv _ _ args hasks htouches
  have hr : p.1 ∈ requests := hrun ▸ List.mem_map_of_mem hp
  have hothers := h p.1 hr hv args (by simp [hasks, Except.toOption])
  rcases htouches with ⟨a, ha, hid, howner⟩ | ⟨a, ha, hid, howner⟩
  · exact (hothers a ha howner).1 hid
  · exact (hothers a ha howner).2 hid

section First

variable [ServerSum] {d e : Database} {taken : Set ObjectId} {r : Request} {rs : List Request}
  {run : List (Request × Response)}

/-- A request that is granted comes first in a run. -/
theorem Serves.granted (h : Serves d taken run e) (hrequests : run.map Prod.fst = r :: rs)
    (hready : Ready d taken) (args : TransferArgs) (source : Account)
    (hasks : r.asks d = .ok args)
    (hdistinct : args.sourceAccountId ≠ args.destinationAccountId)
    (hjudge : judge d args = .ok source) : ∃ x taken' run',
      run = (r, .created (.fromDocument (x.header args))) :: run' ∧ run'.map Prod.fst = rs ∧
        Serves (view d (transferWrites source args x)) taken' run' e ∧
        Ready (view d (transferWrites source args x)) taken' := by
  obtain ⟨response, ws, ids, rest, rfl, hrs, hserved, hrest⟩ := h.head hrequests
  have hanswers := hserved.answers hready.idsTaken
  obtain ⟨x, rfl, rfl⟩ := hanswers.created_of_judge hasks hdistinct hjudge
  exact ⟨x, _, rest, rfl, hrs, hrest, hready.served hserved⟩

/-- A request that is refused comes first in a run. -/
theorem Serves.refused (h : Serves d taken run e) (hrequests : run.map Prod.fst = r :: rs)
    (hready : Ready d taken) {err : ErrorResponse} (hrespond : respond d r = .error err) :
    ∃ taken' run', run = (r, .error err) :: run' ∧ run'.map Prod.fst = rs ∧
      Serves d taken' run' e ∧ Ready d taken' := by
  obtain ⟨response, ws, ids, rest, rfl, hrs, hserved, hrest⟩ := h.head hrequests
  have hanswers := hserved.answers hready.idsTaken
  have hnext := hready.served hserved
  cases hanswers with
  | error he =>
      obtain rfl := Response.error.inj (he.symm.trans hrespond)
      exact ⟨_, rest, rfl, hrs, hrest, hnext⟩
  | created hasks hdistinct hjudge =>
      simp [respond, hasks, hdistinct, hjudge] at hrespond

end First

section Example

open scoped Example

namespace Example

def carol : Account := { alice with id := 3, ownerId := some 13 }

/-- Three users, with one account each. -/
def threeUsers : Deployment Nat :=
  { deployment with accounts := [boundary, alice, bob, carol], accounts_keys := by decide }

/-- 100 minor units for an account of the user. -/
def fund (user account : ObjectId) (key : String) : Request where
  user := user
  idempotencyKey := some key
  route := .fundAccount (.valid (account,
    { amountMinor := ⟨100, by decide⟩, currency := ⟨"USD", by decide⟩ }))

/-- 100 minor units from one account to another. -/
def pay (user source destination : ObjectId) (key : String) : Request where
  user := user
  idempotencyKey := some key
  route := .createTransaction (.valid
    { sourceAccountId := source, destinationAccountId := destination,
      amountMinor := ⟨100, by decide⟩, currency := ⟨"USD", by decide⟩ })

def fundArgs (user account : ObjectId) (key : String) : TransferArgs where
  idempotencyKey := key
  sourceAccountId := 0
  destinationAccountId := account
  amountMinor := 100
  currency := "USD"
  description := "External funding"
  kind := .funding
  submittedBy := some user

def payArgs (user source destination : ObjectId) (key : String) : TransferArgs where
  idempotencyKey := key
  sourceAccountId := source
  destinationAccountId := destination
  amountMinor := 100
  currency := "USD"
  description := ""
  kind := .transfer
  submittedBy := some user

/-- Bob and Alice happen to choose the same key. -/
def sharedKey : List Request := [fund 12 2 "payment-0001", fund 11 1 "payment-0001"]

/-- Bob pays Carol, who pays Alice, who spends it. -/
def passedOn : List Request :=
  [fund 12 2 "payment-0001", pay 12 2 3 "payment-0002", pay 13 3 1 "payment-0003",
    pay 11 1 3 "payment-0004"]

/-- Bob and Alice fund their accounts. -/
def apart : List Request := [fund 12 2 "payment-0001", fund 11 1 "payment-0002"]

theorem ready_threeUsers : Ready threeUsers.opening threeUsers.system.issued :=
  .of_reachable (D := threeUsers) (.refl _)

theorem insulated_apart {run : List (Request × Response)} (hrun : run.map Prod.fst = apart) :
    Insulated threeUsers.opening 11 12 run (threeUsers.opening.ownedBy 11) := by
  have hmem : ∀ p ∈ run, p.1 ∈ apart := fun p hp => hrun ▸ List.mem_map_of_mem hp
  have husers : ∀ r ∈ apart, r.user ≠ 12 → r.user = 11 := by decide
  have hkeys : ∀ r ∈ apart, r.user = 11 → ∀ q ∈ apart, q.user = 12 →
      ∀ args ∈ (r.asks threeUsers.opening).toOption,
      ∀ args' ∈ (q.asks threeUsers.opening).toOption,
        args.idempotencyKey ≠ args'.idempotencyKey := by
    decide
  refine .of_pair (fun p hp => husers p.1 (hmem p hp)) (.of_requests apart (by decide) hrun) ?_
  intro p hp hu q hq hv _ _ args args' hasks hasks'
  exact hkeys p.1 (hmem p hp) hu q.1 (hmem q hq) hv args (by simp [hasks, Except.toOption]) args'
    (by simp [hasks', Except.toOption])

end Example

/-- Alice is answered as if Bob were not there. -/
theorem responses_without_apart : ∃ run e, run.map Prod.fst = Example.apart ∧
    Serves (Example.threeUsers.db Example.threeUsers.system.start)
      Example.threeUsers.system.start.issued run e ∧
    ∀ run' e', run'.map Prod.fst = without 12 Example.apart →
      Serves (Example.threeUsers.db Example.threeUsers.system.start)
        Example.threeUsers.system.start.issued run' e' →
      responsesTo 11 run = responsesTo 11 run' := by
  obtain ⟨run, e, hrequests, hrun⟩ := Example.ready_threeUsers.exists_serves Example.apart
  refine ⟨run, e, hrequests, hrun, ?_⟩
  rw [← hrequests]
  exact (responses_without (D := Example.threeUsers) (.refl _) (by decide) hrun
    (Example.insulated_apart hrequests)).2

/-- The requests, served in order, give a user other responses than without those of
another, though neither was granted a transfer that debits or credits an account of
the other. -/
def Interferes (D : Deployment Nat) (u v : ObjectId) (requests : List Request) : Prop :=
  ∃ run run' e e', run.map Prod.fst = requests ∧ run'.map Prod.fst = without v requests ∧
    Serves D.opening D.system.issued run e ∧ Serves D.opening D.system.issued run' e' ∧
    Spares D.opening v run (D.opening.ownedBy u) ∧
    Spares D.opening u run (D.opening.ownedBy v) ∧ responsesTo u run ≠ responsesTo u run'

theorem Example.interferes_sharedKey : Interferes threeUsers 11 12 sharedKey := by
  obtain ⟨run, e, hrequests, hrun⟩ := ready_threeUsers.exists_serves sharedKey
  obtain ⟨x, t, run, rfl, hrequests, hrest, hready⟩ :=
    hrun.granted hrequests ready_threeUsers (fundArgs 12 2 "payment-0001") boundary rfl
      (by decide) (by decide)
  obtain ⟨t, run, rfl, hrequests, -, -⟩ := hrest.refused hrequests hready rfl
  obtain rfl := List.map_eq_nil_iff.mp hrequests
  obtain ⟨run', e', hrequests', hrun'⟩ := ready_threeUsers.exists_serves (without 12 sharedKey)
  obtain ⟨y, t', run', rfl, hrequests', -, -⟩ :=
    hrun'.granted hrequests' ready_threeUsers (fundArgs 11 1 "payment-0001") boundary rfl
      (by decide) (by decide)
  obtain rfl := List.map_eq_nil_iff.mp hrequests'
  refine ⟨_, _, e, e', rfl, rfl, hrun, hrun', ?_, ?_, ?_⟩
  · exact .of_requests sharedKey (by decide) rfl
  · exact .of_requests sharedKey (by decide) rfl
  · show [(_, Response.error _)] ≠ [(_, Response.created _)]
    simp

theorem Example.interferes_passedOn : Interferes threeUsers 11 12 passedOn := by
  obtain ⟨run, e, hrequests, hrun⟩ := ready_threeUsers.exists_serves passedOn
  obtain ⟨x₁, t₁, run, rfl, hrequests, h₁, hready₁⟩ :=
    hrun.granted hrequests ready_threeUsers (fundArgs 12 2 "payment-0001") boundary rfl
      (by decide) (by decide)
  obtain ⟨x₂, t₂, run, rfl, hrequests, h₂, hready₂⟩ :=
    h₁.granted hrequests hready₁ (payArgs 12 2 3 "payment-0002") bob rfl
      (by decide) rfl
  obtain ⟨x₃, t₃, run, rfl, hrequests, h₃, hready₃⟩ :=
    h₂.granted hrequests hready₂ (payArgs 13 3 1 "payment-0003") carol rfl
      (by decide) rfl
  obtain ⟨x₄, t₄, run, rfl, hrequests, -, -⟩ :=
    h₃.granted hrequests hready₃ (payArgs 11 1 3 "payment-0004") alice rfl
      (by decide) rfl
  obtain rfl := List.map_eq_nil_iff.mp hrequests
  obtain ⟨run', e', hrequests', hrun'⟩ := ready_threeUsers.exists_serves (without 12 passedOn)
  obtain ⟨t', run', rfl, hrequests', h', hready'⟩ := hrun'.refused hrequests' ready_threeUsers rfl
  obtain ⟨t', run', rfl, hrequests', -, -⟩ := h'.refused hrequests' hready' rfl
  obtain rfl := List.map_eq_nil_iff.mp hrequests'
  refine ⟨_, _, e, e', rfl, rfl, hrun, hrun', ?_, ?_, ?_⟩
  · exact .of_requests passedOn (by decide) rfl
  · exact .of_requests passedOn (by decide) rfl
  · show [(_, Response.created _)] ≠ [(_, Response.error _)]
    simp

/-- Users are not isolated: a key one of them has used is refused to the other, and
money is passed on by third users. -/
theorem users_interfere :
    Interferes Example.threeUsers 11 12 Example.sharedKey ∧
      Interferes Example.threeUsers 11 12 Example.passedOn ∧
      (Example.passedOn.map Request.idempotencyKey).Nodup :=
  ⟨Example.interferes_sharedKey, Example.interferes_passedOn, by decide⟩

end Example

end Ledgerlock

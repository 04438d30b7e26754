import Ledgerlock.Spec.Serving
import Ledgerlock.Spec.Views
import Mathlib.Algebra.Order.BigOperators.Group.List

/-!
# Ledgerlock.Spec.Exactness

Whether the figures computed from the ledger are exact: whether every sum a pipeline takes
fits in 64 bits, beyond which the server's `$sum` is a floating-point number.

Amounts are bounded, but nothing bounds how many there are. What grows is what has been
debited from an account, and credited to it; everything else that is summed up is a
difference of these or nothing at all (`figuresFit_iff`). So the figures stay exact
exactly as long as the amounts of the calls that are carried out do not add up to more
than the range has on either side of one account (`figures_fit_iff`).
`Example.fundings` goes beyond that with requests that the API accepts.
-/

namespace Ledgerlock

open Interleave (Config)
open Mvcc

/-- Every sum that `compute_balance` and the reconciliation take fits in 64 bits. -/
structure FiguresFit (d : Database) : Prop where
  balance : ∀ id, FitsLong (d.balance id)
  credited : ∀ id, FitsLong (d.credited id)
  debited : ∀ id, FitsLong (d.debited id)
  net : FitsLong (signedSum d.ledgerEntries)
  perCurrency : ∀ currency,
    FitsLong (signedSum (d.ledgerEntries.filter fun e => e.currency = currency))
  perTransaction : ∀ id, FitsLong (signedSum (d.entriesIn id))

/-! ### What the figures are then -/

section Figures

variable [ServerSum] {d : Database}

theorem netOf_of_fits {entries : List LedgerEntry} (h : FitsLong (signedSum entries)) :
    netOf entries = signedSum entries :=
  ServerSum.sum_of_fits _ h

/-- A balance is computed exactly. -/
theorem FiguresFit.computeBalance (h : FiguresFit d) (id : ObjectId) :
    Ledgerlock.computeBalance d id =
      ⟨d.balance id, d.credited id, d.debited id, (d.entriesOf id).length⟩ :=
  computeBalance_eq (ServerSum.sum_of_fits _ (h.balance id))
    (ServerSum.sum_of_fits _ (h.credited id)) (ServerSum.sum_of_fits _ (h.debited id))

/-- The sums of a reconciliation are computed exactly. -/
theorem FiguresFit.report (h : FiguresFit d) (checkedAt : Timestamp) :
    (d.report checkedAt).netSignedMinor = signedSum d.ledgerEntries ∧
      (d.report checkedAt).perCurrencyNetMinor =
        ((d.ledgerEntries.map (·.currency)).dedup).map fun currency =>
          (currency, signedSum (d.ledgerEntries.filter fun e => e.currency = currency)) := by
  simp only [Database.report, assembleReport, netAndCount_eq, netOf_of_fits h.net, true_and]
  rw [netPerCurrency, Pipeline.group, List.map_map]
  exact List.map_congr_left fun currency _ =>
    congrArg (Prod.mk currency) (netOf_of_fits (h.perCurrency currency))

end Figures

/-! ### Gross totals -/

theorem Posting.signed {p : Posting} {e : LedgerEntry} (he : e ∈ p.entries) : e.Signed := by
  rcases List.mem_pair.mp he with rfl | rfl <;> rfl

section Represents

variable {d : Database} {journal : List Posting}

theorem Represents.signed (hd : Represents d journal) : ∀ e ∈ d.ledgerEntries, e.Signed := by
  intro e he
  rw [hd.entries] at he
  obtain ⟨p, -, he⟩ := List.mem_flatMap.mp he
  exact p.signed he

theorem Represents.amount_pos (hd : Represents d journal) :
    ∀ e ∈ d.ledgerEntries, 0 ≤ e.amountMinor := by
  intro e he
  rw [hd.entries] at he
  obtain ⟨p, -, he⟩ := List.mem_flatMap.mp he
  rcases List.mem_pair.mp he with rfl | rfl <;> exact p.amount_pos.le

theorem Database.gross_nonneg (h : ∀ e ∈ d.ledgerEntries, 0 ≤ e.amountMinor)
    (direction : EntryDirection) (id : ObjectId) :
    0 ≤ ((d.entriesOf id).map fun e =>
      if e.direction = direction then e.amountMinor else 0).sum := by
  refine List.sum_nonneg fun x hx => ?_
  obtain ⟨e, he, rfl⟩ := List.mem_map.mp hx
  split
  · exact h e (List.mem_of_mem_filter he)
  · exact le_rfl

/-- No gross total is above the range. -/
def Database.GrossFits (d : Database) : Prop :=
  ∀ id, d.credited id ≤ 9223372036854775807 ∧ d.debited id ≤ 9223372036854775807

/-- In a ledger written by transfers the gross totals are the only sums that can be too
large. -/
theorem Represents.figuresFit_iff (hd : Represents d journal) : FiguresFit d ↔ d.GrossFits := by
  constructor
  · exact fun h id => ⟨(h.credited id).2, (h.debited id).2⟩
  · intro h
    have hhealthy := hd.healthy
    have hcredited : ∀ id, 0 ≤ d.credited id := Database.gross_nonneg hd.amount_pos .credit
    have hdebited : ∀ id, 0 ≤ d.debited id := Database.gross_nonneg hd.amount_pos .debit
    refine ⟨fun id => ?_, fun id => ?_, fun id => ?_, ?_, fun currency => ?_, fun id => ?_⟩
    · have hle := h id
      have hc := hcredited id
      have hd' := hdebited id
      rw [Database.balance_eq_sub hd.signed]
      unfold FitsLong
      omega
    · exact ⟨le_trans (by decide) (hcredited id), (h id).1⟩
    · exact ⟨le_trans (by decide) (hdebited id), (h id).2⟩
    · rw [hhealthy.net]
      decide
    · rw [hhealthy.perCurrency]
      decide
    · by_cases hnone : d.entriesIn id = []
      · rw [hnone]
        decide
      · obtain ⟨e, he⟩ := List.exists_mem_of_ne_nil _ hnone
        obtain ⟨hmem, rfl⟩ : e ∈ d.ledgerEntries ∧ e.transactionId = id := by
          simpa [Database.entriesIn] using he
        rw [(hhealthy.paired e hmem).net]
        decide

end Represents

/-- What a transfer adds to what has been credited. -/
theorem credited_transferWrites (d : Database) (source : Account) (args : TransferArgs)
    (x : Stamp) (id : ObjectId) : (view d (transferWrites source args x)).credited id =
      d.credited id + if args.destinationAccountId = id then args.amountMinor else 0 := by
  rw [Database.credited, Database.entriesOf, (transferWrites_view d source args x).2,
    List.filter_append, List.map_append, List.sum_append]
  by_cases hs : args.sourceAccountId = id <;> by_cases hd : args.destinationAccountId = id <;>
    simp [Database.credited, Database.entriesOf, Stamp.debit, Stamp.credit, hs, hd]

/-- What a transfer adds to what has been debited. -/
theorem debited_transferWrites (d : Database) (source : Account) (args : TransferArgs)
    (x : Stamp) (id : ObjectId) : (view d (transferWrites source args x)).debited id =
      d.debited id + if args.sourceAccountId = id then args.amountMinor else 0 := by
  rw [Database.debited, Database.entriesOf, (transferWrites_view d source args x).2,
    List.filter_append, List.map_append, List.sum_append]
  by_cases hs : args.sourceAccountId = id <;> by_cases hd : args.destinationAccountId = id <;>
    simp [Database.debited, Database.entriesOf, Stamp.debit, Stamp.credit, hs, hd]

/-! ### Every run -/

section Runs

variable {ν : Type} {A : Api ν} {s : ApiState ν}

/-- The database when `n` commits had been made: the states the run has gone through. -/
def Api.dbAfter (A : Api ν) (s : ApiState ν) (n : Nat) : Database :=
  replay A.deployment.opening (s.ledger.log.take n)

theorem Api.dbAfter_succ {n : Nat} {k : Commit (TransferCall ν) DbWrite ObjectId}
    (hk : s.ledger.log[n]? = some k) : A.dbAfter s (n + 1) = view (A.dbAfter s n) k.writes := by
  rw [dbAfter, dbAfter, List.take_add_one, hk, Option.toList_some, replay_concat]

/-- The calls that made the commits of a log, in order. -/
def carriedOut (log : List (Commit (TransferCall ν) DbWrite ObjectId)) : List TransferArgs :=
  log.filterMap fun k => k.author.map Prod.snd

/-- What calls move on one side of an account, in total: out of it where the side is
`sourceAccountId`, into it where it is `destinationAccountId`. -/
def moved (side : TransferArgs → ObjectId) (calls : List TransferArgs) (id : ObjectId) : Int :=
  (calls.map fun args => if side args = id then args.amountMinor else 0).sum

theorem moved_append (side : TransferArgs → ObjectId) (calls calls' : List TransferArgs)
    (id : ObjectId) :
    moved side (calls ++ calls') id = moved side calls id + moved side calls' id := by
  rw [moved, List.map_append, List.sum_append]
  rfl

/-- More calls never move less. -/
theorem moved_take_le {log : List (Commit (TransferCall ν) DbWrite ObjectId)}
    (h : ∀ args ∈ carriedOut log, 0 ≤ args.amountMinor) (side : TransferArgs → ObjectId) (n : Nat)
    (id : ObjectId) :
    moved side (carriedOut (log.take n)) id ≤ moved side (carriedOut log) id := by
  refine (((List.take_sublist n log).filterMap _).map _).sum_le_sum fun x hx => ?_
  obtain ⟨args, hargs, rfl⟩ := List.mem_map.mp hx
  split
  · exact h args hargs
  · exact le_rfl

variable [ServerSum] [DecidableEq ν]
  {c : Config ν (ApiState ν) AccountStamp ErrorResponse Api.Handled}

theorem Api.dbAfter_length (A : Api ν) (s : ApiState ν) :
    A.dbAfter s s.ledger.log.length = A.db s := by
  rw [dbAfter, List.take_length]
  rfl

theorem ApiInv.represents (h : ApiInv A s) (n : Nat) :
    ∃ journal, Represents (A.dbAfter s n) journal :=
  A.deployment.history_represents (h.reachable.history.take n)

/-- What one commit adds to the gross totals: a transfer its amount, on either side, and
anything else nothing. -/
theorem ApiInv.gross_succ (h : ApiInv A s) {n : Nat}
    {k : Commit (TransferCall ν) DbWrite ObjectId} (hk : s.ledger.log[n]? = some k) :
    (∃ i args, k.author = some (i, args) ∧ ∀ id,
      (A.dbAfter s (n + 1)).credited id = (A.dbAfter s n).credited id +
        (if args.destinationAccountId = id then args.amountMinor else 0) ∧
      (A.dbAfter s (n + 1)).debited id = (A.dbAfter s n).debited id +
        (if args.sourceAccountId = id then args.amountMinor else 0)) ∨
    k.author = none ∧ ∀ id, (A.dbAfter s (n + 1)).credited id = (A.dbAfter s n).credited id ∧
      (A.dbAfter s (n + 1)).debited id = (A.dbAfter s n).debited id := by
  rw [Api.dbAfter_succ hk]
  rcases h.commit hk with ⟨i, args, source, x, hauthor, -, -, -, hw⟩ | ⟨w, hauthor, hop, hw⟩
  · rw [hw]
    exact .inl ⟨i, args, hauthor, fun id =>
      ⟨credited_transferWrites _ _ _ _ _, debited_transferWrites _ _ _ _ _⟩⟩
  · rw [hw]
    refine .inr ⟨hauthor, fun id => ?_⟩
    show ((A.dbAfter s n).write w).credited id = _ ∧ ((A.dbAfter s n).write w).debited id = _
    simp only [Database.credited, Database.debited, Database.entriesOf,
      (accountWrite_rest hop _).2, and_self]

/-- The gross totals are what the calls carried out so far have moved. -/
theorem ApiInv.gross_eq (h : ApiInv A s) {n : Nat} (hn : n ≤ s.ledger.log.length)
    (id : ObjectId) :
    (A.dbAfter s n).credited id =
        moved (·.destinationAccountId) (carriedOut (s.ledger.log.take n)) id ∧
      (A.dbAfter s n).debited id =
        moved (·.sourceAccountId) (carriedOut (s.ledger.log.take n)) id := by
  induction n with
  | zero =>
      have hnone : (A.dbAfter s 0).entriesOf id = [] := rfl
      simp [Database.credited, Database.debited, hnone, carriedOut, moved]
  | succ n ih =>
      obtain ⟨hcredited, hdebited⟩ := ih (Nat.le_of_succ_le hn)
      have hk := List.getElem?_eq_getElem hn
      have hcalls : carriedOut (s.ledger.log.take (n + 1)) =
          carriedOut (s.ledger.log.take n) ++ carriedOut [s.ledger.log[n]] := by
        rw [List.take_add_one, hk]
        exact List.filterMap_append
      rw [hcalls, moved_append, moved_append]
      rcases h.gross_succ hk with ⟨i, args, hauthor, hgross⟩ | ⟨hnone, hgross⟩
      · rw [(hgross id).1, (hgross id).2, hcredited, hdebited]
        simp [carriedOut, moved, hauthor]
      · rw [(hgross id).1, (hgross id).2, hcredited, hdebited]
        simp [carriedOut, moved, hnone]

theorem ApiInv.carriedOut_pos (h : ApiInv A s) :
    ∀ args ∈ carriedOut s.ledger.log, 0 ≤ args.amountMinor := by
  intro args hargs
  obtain ⟨k, hk, hsome⟩ := List.mem_filterMap.mp hargs
  obtain ⟨n, hn⟩ := List.mem_iff_getElem?.mp hk
  rcases h.commit hn with ⟨i, args', -, -, hauthor, -, -, hpos, -⟩ | ⟨-, hnone, -⟩
  · rw [hauthor] at hsome
    obtain rfl := Option.some.inj hsome
    exact hpos.le
  · rw [hnone] at hsome
    cases hsome

/-- In every state a run goes through the figures fit, and are computed exactly, if and
only if the amounts of the calls that were carried out do not add up to more than the
range has, neither out of one account nor into one. -/
theorem figures_fit_iff (h : A.Reached c) :
    (∀ n ≤ c.shared.ledger.log.length, FiguresFit (A.dbAfter c.shared n) ∧
      ∀ id, computeBalance (A.dbAfter c.shared n) id =
        ⟨(A.dbAfter c.shared n).balance id, (A.dbAfter c.shared n).credited id,
          (A.dbAfter c.shared n).debited id, ((A.dbAfter c.shared n).entriesOf id).length⟩) ↔
    ∀ id, moved (·.sourceAccountId) (carriedOut c.shared.ledger.log) id ≤ 9223372036854775807 ∧
      moved (·.destinationAccountId) (carriedOut c.shared.ledger.log) id ≤
        9223372036854775807 := by
  have hinv := h.inv
  have hfits : ∀ n, FiguresFit (A.dbAfter c.shared n) ↔ (A.dbAfter c.shared n).GrossFits := by
    intro n
    obtain ⟨journal, hjournal⟩ := hinv.represents n
    exact hjournal.figuresFit_iff
  constructor
  · intro hfit id
    obtain ⟨hcredited, hdebited⟩ := (hfits _).mp (hfit _ le_rfl).1 id
    have hgross := hinv.gross_eq le_rfl id
    rw [List.take_length] at hgross
    exact ⟨hgross.2 ▸ hdebited, hgross.1 ▸ hcredited⟩
  · intro hmoved n hn
    suffices hgross : (A.dbAfter c.shared n).GrossFits from
      have hfit := (hfits n).mpr hgross
      ⟨hfit, hfit.computeBalance⟩
    intro id
    rw [(hinv.gross_eq hn id).1, (hinv.gross_eq hn id).2]
    exact ⟨(moved_take_le hinv.carriedOut_pos _ n id).trans (hmoved id).2,
      (moved_take_le hinv.carriedOut_pos _ n id).trans (hmoved id).1⟩

end Runs

/-! ### Funding again and again -/

theorem not_isSpace_of_isKeyChar {ch : Char} (h : isKeyChar ch = true) : isSpace ch = false := by
  refine isSpace_eq_false ?_
  simp only [isKeyChar, isUpperAscii, Bool.or_eq_true, Bool.and_eq_true, decide_eq_true_eq,
    beq_iff_eq, Char.le_def, UInt32.le_iff_toNat_le] at h
  rcases h with ((((((h | h) | h) | rfl) | rfl) | rfl) | rfl)
  · exact ⟨lt_of_lt_of_le (by decide) h.1, h.2.trans_lt (by decide)⟩
  · exact ⟨lt_of_lt_of_le (by decide) h.1, h.2.trans_lt (by decide)⟩
  · exact ⟨lt_of_lt_of_le (by decide) h.1, h.2.trans_lt (by decide)⟩
  all_goals decide

/-- A header that is a key is taken as it is. -/
theorem requireIdempotencyKey_of_key {key : String} (h : isIdempotencyKey key = true) :
    requireIdempotencyKey (some key) = .ok key := by
  have hkey := h
  simp only [isIdempotencyKey, Bool.and_eq_true, decide_eq_true_eq, List.all_eq_true] at hkey
  obtain ⟨⟨hlength, -⟩, hchars⟩ := hkey
  have hstrip : strip key = key :=
    strip_eq_self fun ch hch => not_isSpace_of_isKeyChar (hchars ch hch)
  have hne : key ≠ "" := by
    intro hempty
    rw [hempty] at hlength
    exact absurd hlength (by decide)
  rw [requireIdempotencyKey, hstrip, if_neg hne, if_pos h]

namespace Example

def fundingKey (i : Nat) : String := "funding-" ++ i.repr

theorem toList_fundingKey (i : Nat) :
    (fundingKey i).toList = "funding-".toList ++ Nat.toDigits 10 i := by
  rw [fundingKey, String.toList_append, Nat.toList_repr]

theorem fundingKey_injective {i j : Nat} (h : fundingKey i = fundingKey j) : i = j := by
  have hdigits := congrArg String.toList h
  rw [toList_fundingKey, toList_fundingKey, List.append_cancel_left_eq] at hdigits
  rw [← Nat.ofDigitChars_ten_toDigits (n := i), hdigits, Nat.ofDigitChars_ten_toDigits]

theorem isIdempotencyKey_fundingKey {i : Nat} (hi : i < 10 ^ 100) :
    isIdempotencyKey (fundingKey i) = true := by
  have hdigits : (Nat.toDigits 10 i).length ≤ 100 :=
    (Nat.length_toDigits_le_iff (by decide) (by decide)).mpr hi
  have hchars : ∀ ch ∈ Nat.toDigits 10 i, isKeyChar ch = true := by
    intro ch hch
    have hdigit : ('0' ≤ ch && ch ≤ '9') = true :=
      Nat.isDigit_of_mem_toDigits (by decide) (by decide) hch
    simp [isKeyChar, hdigit]
  have hfront : "funding-".toList.all isKeyChar = true := rfl
  rw [isIdempotencyKey, toList_fundingKey, List.length_append, List.all_append, hfront]
  simp only [Bool.and_eq_true, decide_eq_true_eq, List.all_eq_true, true_and]
  exact ⟨⟨Nat.le_add_right 8 _, Nat.add_le_add_left hdigits 8 |>.trans (by decide)⟩, hchars⟩

theorem largestAmount_valid :
    (0 : Int) < 1000000000000 ∧ (1000000000000 : Int) ≤ 1000000000000 := by
  decide

theorem externalFunding_valid : "External funding".toList.length ≤ maxDescriptionLength := by
  decide

/-- 10^12 minor units, the largest amount there is, for Alice. -/
def fundingRequest (i : Nat) : Request where
  user := 11
  idempotencyKey := some (fundingKey i)
  route := .fundAccount (.valid (1,
    { amountMinor := ⟨1000000000000, largestAmount_valid⟩
      currency := ⟨"USD", isCurrencyCode_usd⟩
      description := ⟨"External funding", externalFunding_valid⟩ }))

def fundingArgs (i : Nat) : TransferArgs where
  idempotencyKey := fundingKey i
  sourceAccountId := 0
  destinationAccountId := 1
  amountMinor := 1000000000000
  currency := "USD"
  description := "External funding"
  kind := .funding
  submittedBy := some 11

/-- Alice opens an account, and funds it with one request after the other. -/
def fundings : Api Nat where
  requests
    | 0 => apiRequests 0
    | i + 1 => .moveMoney (fundingRequest i)
  supportedCurrencies := ["USD"]
  lossy := False
  faulty := False

/-- The database after `n` of them. -/
structure FundedTimes (n : Nat) (d : Database) : Prop where
  accounts : d.accounts = [boundary, alice]
  debited : d.debited 0 = n * 1000000000000
  keys : ∀ t ∈ d.transactions, ∃ j < n, t.idempotencyKey = fundingKey j

section Funding

variable {n : Nat} {d : Database}

theorem FundedTimes.asks (h : FundedTimes n d) (hn : n < 10 ^ 100) :
    (fundingRequest n).asks d = .ok (fundingArgs n) := by
  have hkey := requireIdempotencyKey_of_key (isIdempotencyKey_fundingKey hn)
  have howned : d.getOwnedAccountOrRaise 1 11 = .ok alice := by
    rw [Database.getOwnedAccountOrRaise, h.accounts]
    rfl
  have hsystem : d.getSystemAccount "USD" = some boundary := by
    rw [Database.getSystemAccount, h.accounts]
    rfl
  simp only [Request.asks, fundingRequest, receive, hkey, Except.mapError, bind, Except.bind,
    fundAccount, howned, hsystem]
  rfl

/-- The amount is at the bound, and the SYSTEM account is never short of it. -/
theorem FundedTimes.judge (h : FundedTimes n d) (hn : n < 10 ^ 100) :
    Ledgerlock.judge d (fundingArgs n) = .ok boundary := by
  refine judge_eq_ok.mpr ⟨alice, ⟨fun t ht hkey => ?_, ?_, ?_, rfl, rfl, rfl, rfl,
    fun huser => ?_, isIdempotencyKey_fundingKey hn, show (0 : Int) < 1000000000000 by decide,
    isCurrencyCode_usd, externalFunding_valid, show FitsLong 1000000000000 by decide⟩⟩
  · obtain ⟨j, hj, hkey'⟩ := h.keys t ht
    exact hj.ne (fundingKey_injective (hkey'.symm.trans hkey))
  · rw [Database.findAccount, h.accounts]
    rfl
  · rw [Database.findAccount, h.accounts]
    rfl
  · cases huser

theorem FundedTimes.next (h : FundedTimes n d) (x : Stamp) :
    FundedTimes (n + 1) (view d (transferWrites boundary (fundingArgs n) x)) where
  accounts := h.accounts
  debited := by
    rw [debited_transferWrites, h.debited]
    show (n : Int) * 1000000000000 + 1000000000000 = ((n + 1 : Nat) : Int) * 1000000000000
    omega
  keys := by
    intro t ht
    rw [(transferWrites_view d boundary (fundingArgs n) x).1] at ht
    rcases List.mem_append.mp ht with ht | ht
    · obtain ⟨j, hj, hkey⟩ := h.keys t ht
      exact ⟨j, hj.trans (Nat.lt_succ_self n), hkey⟩
    · obtain rfl := List.mem_singleton.mp ht
      exact ⟨n, Nat.lt_succ_self n, rfl⟩

/-- Requests can come to as many fundings as one likes. -/
theorem fundings_reached (n : Nat) (hn : n < 10 ^ 100) : ∃ c, fundings.Reached c ∧
    FundedTimes n (fundings.db c.shared) ∧ c.shared.ledger.Resting ∧
    (∀ i, n < i → c.prog i = fundings.handler i (fundings.requests i)) ∧
    ∀ k : TransferCall Nat, n < k.1 → c.shared.ledger.phase k = .idle := by
  induction n with
  | zero =>
      obtain ⟨c, hc, hdb, -, hidle, hprog⟩ := opened fundings rfl rfl
      refine ⟨c, hc, ?_, fun k => .inl (hidle k), fun i hi => hprog i hi.ne', fun k _ => hidle k⟩
      rw [hdb]
      exact ⟨rfl, rfl, fun t ht => nomatch ht⟩
  | succ n ih =>
      have hn' : n < 10 ^ 100 := Nat.lt_of_succ_lt hn
      obtain ⟨c, hc, hfunded, hrest, hprog, hidle⟩ := ih hn'
      obtain ⟨d, x, hd, hdb, -, hrest', hothers, hprog'⟩ :=
        hc.exists_written (i := n + 1) (r := fundingRequest n) (hprog (n + 1) (Nat.lt_succ_self n))
          (hfunded.asks hn') (show (0 : ObjectId) ≠ 1 by decide) (hfunded.judge hn')
          (hidle _ (Nat.lt_succ_self n)) hrest
      refine ⟨d, hd, ?_, hrest', fun i hi => ?_, fun k hk => ?_⟩
      · rw [hdb]
        exact hfunded.next x
      · rw [hprog' i hi.ne']
        exact hprog i (Nat.lt_of_succ_lt hi)
      · have hne : k ≠ (n + 1, fundingArgs n) := fun h => hk.ne' (congrArg Prod.fst h)
        rw [hothers k hne]
        exact hidle k (Nat.lt_of_succ_lt hk)

/-- 9223373 times 10^12 minor units are too many. -/
theorem FundedTimes.not_figuresFit (h : FundedTimes 9223373 d) : ¬ FiguresFit d := by
  intro hfit
  have hle := (hfit.debited 0).2
  rw [h.debited] at hle
  exact absurd hle (by decide)

/-- After as many fundings, what has been debited from the SYSTEM account does not fit in 64
bits. -/
theorem fundings_overflow : ∃ c, fundings.Reached c ∧
    (fundings.db c.shared).debited 0 = 9223373000000000000 ∧
    ¬ FiguresFit (fundings.db c.shared) := by
  obtain ⟨c, hc, hfunded, -⟩ := fundings_reached 9223373 (by decide)
  exact ⟨c, hc, hfunded.debited, hfunded.not_figuresFit⟩

/-- In some run the calls move too much out of the SYSTEM account, or into another. -/
theorem fundings_exceed : ∃ c, fundings.Reached c ∧ ∃ id,
    ¬ (moved (·.sourceAccountId) (carriedOut c.shared.ledger.log) id ≤ 9223372036854775807 ∧
      moved (·.destinationAccountId) (carriedOut c.shared.ledger.log) id ≤
        9223372036854775807) := by
  obtain ⟨c, hc, hfunded, -⟩ := fundings_reached 9223373 (by decide)
  refine ⟨c, hc, ?_⟩
  by_contra hnone
  refine hfunded.not_figuresFit ?_
  rw [← fundings.dbAfter_length c.shared]
  exact ((figures_fit_iff hc).mpr (fun id => not_not.mp (not_exists.mp hnone id)) _ le_rfl).1

end Funding

end Example

end Ledgerlock

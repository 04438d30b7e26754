import Ledgerlock.Services.Startup
import Ledgerlock.Spec.Indexes
import Mathlib.Data.Fintype.EquivFin

/-!
# Ledgerlock.Spec.Provisioning

Concurrent start-up provisions one boundary account for each currency.

Whoever runs, a boundary account stays what it is (`startupProtocol`) and a second one
is never let in by the index. So what a replica has found or made is there for good, a
lost race leaves something to find, and all replicas come to the same ids.
-/

namespace Ledgerlock

open Interleave (Prog Protocol Post Run Step Config Terminates)

/-! ### Boundary accounts -/

namespace Database

/-- The SYSTEM accounts of a currency. -/
def boundaries (d : Database) (currency : String) : List Account :=
  d.accounts.filter fun a => a.accountType = .system ∧ a.currency = currency

/-- The id is that of a SYSTEM account of the currency. -/
def IsBoundary (d : Database) (currency : String) (id : ObjectId) : Prop :=
  ∃ a ∈ d.accounts, a.id = id ∧ a.accountType = .system ∧ a.currency = currency

variable {d : Database} {currency : String} {id : ObjectId}

theorem mem_boundaries {a : Account} : a ∈ d.boundaries currency ↔
    a ∈ d.accounts ∧ a.accountType = .system ∧ a.currency = currency := by
  simp [boundaries]

theorem IsBoundary.unique (hone : (d.boundaries currency).length ≤ 1)
    (h : d.IsBoundary currency id) {id' : ObjectId} (h' : d.IsBoundary currency id') :
    id = id' := by
  obtain ⟨a, ha, rfl, htype⟩ := h
  obtain ⟨b, hb, rfl, htype'⟩ := h'
  have ha := mem_boundaries.mpr ⟨ha, htype⟩
  have hb := mem_boundaries.mpr ⟨hb, htype'⟩
  match hl : d.boundaries currency, hone, ha, hb with
  | [c], _, ha, hb => rw [List.mem_singleton.mp ha, List.mem_singleton.mp hb]

theorem account_mem_keys : DbKey.account id ∈ d.keys ↔ ∃ a ∈ d.accounts, a.id = id := by
  rw [mem_keys]
  constructor
  · intro hheld
    rcases hheld with ⟨a, ha, hk⟩ | ⟨t, -, ht⟩ | ⟨e, -, he⟩
    · rcases List.mem_cons.mp hk with hk | hk
      · exact ⟨a, ha, (DbKey.account.inj hk).symm⟩
      · split at hk <;> simp at hk
    · simp [Transaction.keys] at ht
    · simp [LedgerEntry.keys] at he
  · intro hheld
    obtain ⟨a, ha, rfl⟩ := hheld
    exact .inl ⟨a, ha, List.mem_cons_self⟩

/-- The index holds the key of a currency that has a boundary account. -/
theorem systemAccount_mem_keys :
    DbKey.systemAccount currency ∈ d.keys ↔ ∃ id, d.IsBoundary currency id := by
  rw [mem_keys]
  constructor
  · intro hheld
    rcases hheld with ⟨a, ha, hk⟩ | ⟨t, -, ht⟩ | ⟨e, -, he⟩
    · rw [Account.keys] at hk
      split at hk
      · rename_i htype
        obtain rfl : currency = a.currency := by simpa using hk
        exact ⟨a.id, a, ha, rfl, htype, rfl⟩
      · simp at hk
    · simp [Transaction.keys] at ht
    · simp [LedgerEntry.keys] at he
  · intro hbound
    obtain ⟨id, a, ha, -, htype, rfl⟩ := hbound
    exact .inl ⟨a, ha, by simp [Account.keys, htype]⟩

theorem isBoundary_of_getSystemAccount {a : Account} (h : d.getSystemAccount currency = some a) :
    d.IsBoundary currency a.id := by
  obtain ⟨ha, htype, hcurrency⟩ := getSystemAccount_eq_some h
  exact ⟨a, ha, rfl, htype, hcurrency⟩

theorem getSystemAccount_ne_none (h : d.IsBoundary currency id) :
    d.getSystemAccount currency ≠ none := by
  obtain ⟨a, ha, -, htype, hcurrency⟩ := h
  intro hnone
  have := List.find?_eq_none.mp hnone a ha
  exact this (by simp [htype, hcurrency])

theorem mem_accounts_updateAccount {f : Account → Account} {a : Account} (ha : a ∈ d.accounts)
    (id : ObjectId) : (if a.id = id then f a else a) ∈ (d.updateAccount id f).accounts :=
  List.mem_map_of_mem ha

/-- An update that leaves type and currency alone leaves the number of boundary
accounts alone. -/
theorem length_boundaries_updateAccount (d : Database) (id : ObjectId) {f : Account → Account}
    (currency : String) (hf : ∀ a, (f a).holder = a.holder) :
    ((d.updateAccount id f).boundaries currency).length = (d.boundaries currency).length := by
  rw [boundaries, updateAccount, List.filter_map, List.length_map, boundaries]
  congr 1
  refine List.filter_congr fun a _ => ?_
  have htype : (f a).accountType = a.accountType := congrArg Holder.accountType (hf a)
  have hcurrency : (f a).currency = a.currency := congrArg Holder.currency (hf a)
  by_cases h : a.id = id <;> simp [h, htype, hcurrency]

/-- Whatever is written, a boundary account stays one. -/
theorem IsBoundary.write (h : d.IsBoundary currency id) (w : DbWrite) :
    (d.write w).IsBoundary currency id := by
  obtain ⟨a, ha, rfl, htype, hcurrency⟩ := h
  cases w with
  | incDebitSerialisationCounter id =>
      refine ⟨_, mem_accounts_updateAccount ha id, ?_⟩
      by_cases h : a.id = id <;> simp [h, incCounter, htype, hcurrency]
  | setStatus id status =>
      refine ⟨_, mem_accounts_updateAccount ha id, ?_⟩
      by_cases h : a.id = id <;> simp [h, htype, hcurrency]
  | insertAccount b => exact ⟨a, List.mem_append_left _ ha, rfl, htype, hcurrency⟩
  | insertTransaction t => exact ⟨a, ha, rfl, htype, hcurrency⟩
  | insertLedgerEntry e => exact ⟨a, ha, rfl, htype, hcurrency⟩

/-- The index lets no second boundary account in. -/
theorem length_boundaries_write (hone : ∀ currency, (d.boundaries currency).length ≤ 1)
    {w : DbWrite} (hw : w.repeatsKey d = false) (currency : String) :
    ((d.write w).boundaries currency).length ≤ 1 := by
  cases w with
  | incDebitSerialisationCounter id =>
      have h := d.length_boundaries_updateAccount id (f := incCounter) currency fun _ => rfl
      exact h.trans_le (hone currency)
  | setStatus id status =>
      have h := d.length_boundaries_updateAccount id (f := fun a => { a with status })
        currency fun _ => rfl
      exact h.trans_le (hone currency)
  | insertAccount a =>
      show ((d.accounts ++ [a]).filter _).length ≤ 1
      by_cases ha : a.accountType = .system ∧ a.currency = currency
      · have hnone : d.boundaries currency = [] := by
          refine List.eq_nil_iff_forall_not_mem.mpr fun b hb => ?_
          obtain ⟨hb, htype⟩ := mem_boundaries.mp hb
          have hkey : DbKey.systemAccount currency ∈ (DbWrite.insertAccount a).newKeys := by
            simp [DbWrite.newKeys, Account.keys, ha]
          exact repeatsKey_eq_false.mp hw _ hkey
            (systemAccount_mem_keys.mpr ⟨b.id, b, hb, rfl, htype⟩)
        rw [boundaries] at hnone
        rw [List.filter_append, hnone]
        simp [ha]
      · have hnil : [a].filter (fun a => a.accountType = .system ∧ a.currency = currency) = [] :=
          List.filter_eq_nil_iff.mpr (by simpa using ha)
        rw [List.filter_append, hnil, List.append_nil]
        exact hone currency
  | insertTransaction t => exact hone currency
  | insertLedgerEntry e => exact hone currency

end Database

/-! ### What the replicas keep up -/

/-- At most one boundary account a currency, and each there for good. -/
def startupProtocol : Protocol startupEnv where
  inv d := ∀ currency, (d.boundaries currency).length ≤ 1
  rely d d' := ∀ currency id, d.IsBoundary currency id → d'.IsBoundary currency id
  rely_refl _ _ _ h := h
  rely_trans _ _ _ h h' currency id hb := h' currency id (h currency id hb)
  inv_moves _ _ hone := by
    intro hmove
    obtain ⟨w, hw, rfl⟩ := hmove
    exact Database.length_boundaries_write hone hw
  rely_moves _ _ _ := by
    intro hmove
    obtain ⟨w, -, rfl⟩ := hmove
    exact fun _ _ hb => hb.write w

/-- What a replica does: it takes no boundary away, and it leaves the database alone
where every currency of its list has one. -/
def StartupGuar (currencies : List String) (d d' : Database) : Prop :=
  startupProtocol.rely d d' ∧
    ((∀ currency ∈ currencies, ∃ id, d.IsBoundary currency id) → d' = d)

/-- What a replica has after the part `done` of its list. -/
def Provided (done : List String) (ids : SystemAccountIds) (d : Database) : Prop :=
  (∀ currency, currency ∈ ids ↔ currency ∈ done) ∧
    ∀ currency id, ids.lookup currency = some id → d.IsBoundary currency id

theorem Provided.later {done : List String} {ids : SystemAccountIds} {d d' : Database}
    (h : Provided done ids d) (hd : startupProtocol.rely d d') : Provided done ids d' :=
  ⟨h.1, fun currency id hid => hd currency id (h.2 currency id hid)⟩

theorem Provided.insert {done : List String} {ids : SystemAccountIds} {d : Database}
    (h : Provided done ids d) {currency : String} {id : ObjectId}
    (hid : d.IsBoundary currency id) :
    Provided (done ++ [currency]) (ids.insert currency id) d := by
  constructor
  · intro c
    rw [AList.mem_insert, h.1, List.mem_append, List.mem_singleton, or_comm]
  · intro c x hx
    by_cases hc : c = currency
    · subst hc
      rw [AList.lookup_insert] at hx
      exact Option.some.inj hx ▸ hid
    · rw [AList.lookup_insert_ne hc] at hx
      exact h.2 c x hx

section Replica

variable {currencies : List String} {currency : String} {d : Database}

theorem getSystemAccount_wp {Q : Post Database StartupError (Option Account)}
    (h : ∀ t, startupProtocol.rely d t → startupProtocol.inv t → ∀ u,
      startupProtocol.rely t u → startupProtocol.inv u → Q.done (t.getSystemAccount currency) u) :
    (getSystemAccount currency).wp startupProtocol (StartupGuar currencies) Q d :=
  Prog.wp_read (fun t => ⟨startupProtocol.rely_refl t, fun _ => rfl⟩) h

theorem systemAccountDocument_eq_ok (hvalid : isCurrencyCode currency = true)
    (x : AccountStamp) : ∃ account, systemAccountDocument currency x = .ok account ∧
      account.id = x.insertedId ∧ account.accountType = .system ∧ account.currency = currency := by
  simp [systemAccountDocument, AccountDocument.create, hvalid, validated,
    AccountDocument.toBson]

/-- The insert makes the boundary account, or there is one already. -/
theorem insertSystemAccount_wp (hmem : currency ∈ currencies)
    (hvalid : isCurrencyCode currency = true) :
    (insertSystemAccount currency).wp startupProtocol (StartupGuar currencies)
      { done := fun r d =>
          match r with
          | .inserted id => d.IsBoundary currency id
          | .duplicateKeyError => ∃ id, d.IsBoundary currency id
        raise := fun _ _ => False } d := by
  intro t x _ hone hfresh
  obtain ⟨account, hok, hid, htype, hcurrency⟩ := systemAccountDocument_eq_ok hvalid x
  have hkeys : (DbWrite.insertAccount account).newKeys =
      [.account x.insertedId, .systemAccount currency] := by
    simp [DbWrite.newKeys, Account.keys, hid, htype, hcurrency]
  cases hrepeats : (DbWrite.insertAccount account).repeatsKey t with
  | true =>
      simp only [hok, Database.insertOne, Database.insertOneResult, hrepeats, if_true]
      refine ⟨⟨startupProtocol.rely_refl t, fun _ => rfl⟩, hone, ?_⟩
      obtain ⟨k, hk, hkt⟩ := repeatsKey_eq_true.mp hrepeats
      rw [hkeys] at hk
      -- the `_id` is new, so it is the currency that is taken
      have hbound : ∃ id, t.IsBoundary currency id := by
        rcases List.mem_pair.mp hk with rfl | rfl
        · obtain ⟨a, ha, hax⟩ := Database.account_mem_keys.mp hkt
          exact absurd hax (hfresh a ha)
        · exact Database.systemAccount_mem_keys.mp hkt
      obtain ⟨id, hbound⟩ := hbound
      exact fun u hu _ => ⟨id, hu _ _ hbound⟩
  | false =>
      simp only [hok, Database.insertOne, Database.insertOneResult, hrepeats, if_false,
        Bool.false_eq_true]
      have hnew := Database.length_boundaries_write hone hrepeats
      refine ⟨⟨fun _ _ hb => hb.write _, fun hall => ?_⟩, hnew, fun u hu _ => ?_⟩
      · have hkey := Database.systemAccount_mem_keys.mpr (hall currency hmem)
        exact absurd hkey (repeatsKey_eq_false.mp hrepeats _ (by simp [hkeys]))
      · show u.IsBoundary currency account.id
        exact hu _ _ ⟨account, by simp [Database.write], rfl, htype, hcurrency⟩

/-- One round of the loop. -/
theorem provision_wp (hmem : currency ∈ currencies) (hvalid : isCurrencyCode currency = true)
    {done : List String} {ids : SystemAccountIds} (hd : startupProtocol.inv d)
    (h : Provided done ids d) :
    (provision ids currency).wp startupProtocol (StartupGuar currencies)
      ⟨Provided (done ++ [currency]), fun _ _ => False⟩ d := by
  have adopt {id : ObjectId} {t u : Database} (hdt : startupProtocol.rely d t)
      (hid : t.IsBoundary currency id) (htu : startupProtocol.rely t u) :
      Provided (done ++ [currency]) (ids.insert currency id) u :=
    ((h.later hdt).insert hid).later htu
  refine Prog.wp_bind hd (getSystemAccount_wp fun t hdt ht u htu hu => ?_)
  have hdu := startupProtocol.rely_trans _ _ _ hdt htu
  cases hfound : t.getSystemAccount currency with
  | some existing =>
      have hid := htu _ _ (Database.isBoundary_of_getSystemAccount hfound)
      exact fun v huv _ => adopt hdu hid huv
  | none =>
      have hinsert := Prog.wp_frame (fun _ _ _ hG => hG.1) hdu
        (insertSystemAccount_wp (d := u) hmem hvalid)
      refine Prog.wp_bind hu (Prog.wp_mono hinsert (fun result v hv hresult => ?_)
        fun _ _ _ he => he.2)
      obtain ⟨hdv, hresult⟩ := hresult
      cases result with
      | inserted id => exact fun w hvw _ => adopt hdv hresult hvw
      | duplicateKeyError =>
          obtain ⟨id, hid⟩ := hresult
          refine Prog.wp_bind hv (getSystemAccount_wp fun w hvw _ x hwx _ => ?_)
          cases hwinner : w.getSystemAccount currency with
          | none => exact absurd hwinner (Database.getSystemAccount_ne_none (hvw _ _ hid))
          | some winner =>
              have hid := hwx _ _ (Database.isBoundary_of_getSystemAccount hwinner)
              have hdx := startupProtocol.rely_trans _ _ _
                (startupProtocol.rely_trans _ _ _ hdv hvw) hwx
              exact fun y hxy _ => adopt hdx hid hxy

/-- The whole call. -/
theorem ensureSystemAccounts_wp (hvalid : ∀ currency ∈ currencies, isCurrencyCode currency = true)
    (hd : startupProtocol.inv d) :
    (ensureSystemAccounts currencies).wp startupProtocol (StartupGuar currencies)
      ⟨Provided currencies, fun _ _ => False⟩ d := by
  refine Prog.wp_foldlM (l := []) (fun _ _ _ _ hrely hids => hids.later hrely) currencies
    (fun currency hmem done ids t ht hids => provision_wp hmem (hvalid currency hmem) ht hids) hd ?_
  refine ⟨by simp, fun currency id hid => ?_⟩
  rw [AList.lookup_empty] at hid
  cases hid

theorem provision_within (ids : SystemAccountIds) (currency : String) :
    (provision ids currency).Within 3 := by
  have hread : (getSystemAccount currency).Within 1 := fun _ _ => trivial
  have hinsert : (insertSystemAccount currency).Within 1 := by
    intro x d
    dsimp only
    split <;> trivial
  refine hread.bind (n := 2) fun existing => ?_
  cases existing with
  | some existing => trivial
  | none =>
      refine hinsert.bind (n := 1) fun result => ?_
      cases result with
      | inserted id => trivial
      | duplicateKeyError =>
          refine hread.bind (n := 0) fun winner => ?_
          cases winner <;> trivial

end Replica

/-! ### Concurrent start-up -/

section Startup

variable {ν : Type} [DecidableEq ν] {currencies : ν → List String} {d₀ : Database}
  {l : List (Option ν)}
  {c : Config ν Database AccountStamp StartupError SystemAccountIds}

/-- Every configuration that start-up comes to. -/
theorem startup_sound (hvalid : ∀ i, ∀ currency ∈ currencies i, isCurrencyCode currency = true)
    (hone : ∀ currency, (d₀.boundaries currency).length ≤ 1)
    (h : Run startupEnv (startup currencies d₀) l c) :
    c.Sound startupProtocol (fun i => StartupGuar (currencies i))
      (fun i => ⟨Provided (currencies i), fun _ _ => False⟩) := by
  refine (Run.sound (fun _ _ _ _ hG => hG.1) ⟨hone, fun i => ?_⟩ h).1
  exact ensureSystemAccounts_wp (hvalid i) hone

/-- There is always an id that no account has. -/
theorem startupEnv_offers (d : Database) : ∃ x, startupEnv.offers d x := by
  obtain ⟨id, hid⟩ := Infinite.exists_notMem_finset (d.accounts.map (·.id)).toFinset
  refine ⟨⟨0, 0, id⟩, fun a ha hax => hid ?_⟩
  have hid : a.id = id := hax
  rw [List.mem_toFinset, ← hid]
  exact List.mem_map_of_mem ha

/-- Any number of replicas start, each with a list of currencies of its own, on a
database with at most one boundary account a currency. Every call terminates, and
without raising; the currencies of its map are those of its list, and the ids are those
of boundary accounts, of which there is never more than one a currency; so any two maps
agree. A call whose currencies have all been provided when it begins leaves the database
alone. -/
theorem startup_converges
    (hvalid : ∀ i, ∀ currency ∈ currencies i, isCurrencyCode currency = true)
    (hone : ∀ currency, (d₀.boundaries currency).length ≤ 1)
    (h : Run startupEnv (startup currencies d₀) l c) :
    (∀ i, Terminates startupEnv (startup currencies d₀) i) ∧
    (∀ i e, c.prog i ≠ .raise e) ∧
    (∀ currency, (c.shared.boundaries currency).length ≤ 1) ∧
    (∀ i ids, c.prog i = .done ids → (∀ currency, currency ∈ ids ↔ currency ∈ currencies i) ∧
      ∀ currency id, ids.lookup currency = some id → c.shared.IsBoundary currency id) ∧
    (∀ i j ids ids', c.prog i = .done ids → c.prog j = .done ids' →
      ∀ currency ∈ ids, currency ∈ ids' → ids.lookup currency = ids'.lookup currency) ∧
    ∀ j, (∀ currency ∈ currencies j, ∃ i ids, c.prog i = .done ids ∧ currency ∈ ids) →
      ∀ l' d d', Run startupEnv c l' d → Step startupEnv (some j) d d' →
        d'.shared = d.shared := by
  have hc := startup_sound hvalid hone h
  have hprovided {i : ν} {ids : SystemAccountIds} (hi : c.prog i = .done ids) :
      Provided (currencies i) ids c.shared := hc.of_done hi
  refine ⟨fun i => ?_, fun i e hi => hc.of_raise hi, hc.inv, fun i ids hi => hprovided hi, ?_, ?_⟩
  · exact Interleave.terminates (Prog.Within.foldlM provision_within (currencies i) ∅)
      startupEnv_offers
  · intro i j ids ids' hi hj currency hmem hmem'
    obtain ⟨id, hid⟩ := Option.isSome_iff_exists.mp (AList.lookup_isSome.mpr hmem)
    obtain ⟨id', hid'⟩ := Option.isSome_iff_exists.mp (AList.lookup_isSome.mpr hmem')
    rw [hid, hid', ((hprovided hi).2 _ _ hid).unique (hc.inv currency) ((hprovided hj).2 _ _ hid')]
  · intro j hall l' d d' hrun hstep
    obtain ⟨hd, hrely⟩ := Run.sound (fun _ _ _ _ hG => hG.1) hc hrun
    refine (hd.guar hstep).2 fun currency hmem => ?_
    obtain ⟨i, ids, hi, hin⟩ := hall currency hmem
    obtain ⟨id, hid⟩ := Option.isSome_iff_exists.mp (AList.lookup_isSome.mpr hin)
    exact ⟨id, hrely _ _ ((hprovided hi).2 _ _ hid)⟩

end Startup

namespace Example

/-- Replicas that all start on an empty database with one currency. -/
def replicas : Config Nat Database AccountStamp StartupError SystemAccountIds :=
  startup (fun _ => ["USD"]) ⟨[], [], []⟩

/-- Two of them look for the account before either has made it; the second loses the
race and looks again. -/
theorem raced : ∃ c, Run startupEnv replicas [some 0, some 1, some 0, some 1, some 1] c ∧
    c.prog 0 = .done (AList.insert "USD" 5 ∅) ∧ c.prog 1 = .done (AList.insert "USD" 5 ∅) := by
  refine ⟨_, .concat (.concat (.concat (.concat (.concat .nil (.act (x := ⟨0, 0, 4⟩) rfl ?_))
    (.act (x := ⟨0, 0, 4⟩) rfl ?_)) (.act (x := ⟨0, 0, 5⟩) rfl ?_))
    (.act (x := ⟨0, 0, 6⟩) rfl ?_)) (.act (x := ⟨0, 0, 7⟩) rfl ?_), rfl, rfl⟩
  · exact fun a ha => absurd ha List.not_mem_nil
  · exact fun a ha => absurd ha List.not_mem_nil
  · exact fun a ha => absurd ha List.not_mem_nil
  · decide
  · decide

end Example

/-- Both replicas of the race end, with the id of the one account there is. -/
theorem startup_converges_raced : ∃ c ids,
    Run startupEnv Example.replicas [some 0, some 1, some 0, some 1, some 1] c ∧
      c.prog 0 = .done ids ∧ c.prog 1 = .done ids ∧ c.shared.IsBoundary "USD" 5 ∧
      (c.shared.boundaries "USD").length ≤ 1 ∧ ∀ currency, currency ∈ ids ↔ currency = "USD" := by
  obtain ⟨c, hrun, h₀, h₁⟩ := Example.raced
  obtain ⟨-, -, hone, hprovided, -, -⟩ := startup_converges
    (fun _ => by decide) (fun _ => by simp [Database.boundaries]) hrun
  obtain ⟨hkeys, hids⟩ := hprovided 0 _ h₀
  exact ⟨c, _, hrun, h₀, h₁, hids _ _ (AList.lookup_insert _), hone "USD", by simpa using hkeys⟩

end Ledgerlock

import Mathlib.Data.List.Sort

/-!
# Ledgerlock.Pipeline.Paging

Queries that sort what they match by a key and return one page of it, over documents of
any type. The order a query returns is some ordering that does not decrease in the key
(`SortBy`): documents with the same key may come in another order the next time.

Pages of one size, taken by queries one after the other, split up the documents
whatever the orders are (`pagesUpTo_perm`) as long as no boundary between two pages runs
through documents of the same key (`Straddles`); where one does, there are orders under
which a document comes twice (`exists_repeats`).
-/

namespace Pipeline

/-! ### Sorted lists and their beginnings -/

section Sorted

variable {α : Type} {R : α → α → Prop} {p : α → Bool}

/-- In a sorted list, what is below a threshold comes first. -/
theorem filter_eq_take (hp : ∀ a b, R a b → p b → p a) {l : List α} (hl : l.Pairwise R) :
    l.filter p = l.take (l.countP p) := by
  induction l with
  | nil => rfl
  | cons a l ih =>
      obtain ⟨ha, hl⟩ := List.pairwise_cons.mp hl
      by_cases hpa : p a
      · rw [List.filter_cons_of_pos hpa, List.countP_cons_of_pos hpa, List.take_succ_cons, ih hl]
      · have hnone : ∀ b ∈ l, ¬ p b := fun b hb hpb => hpa (hp a b (ha b hb) hpb)
        rw [List.filter_cons_of_neg hpa, List.countP_cons_of_neg hpa,
          List.countP_eq_zero.mpr hnone, List.filter_eq_nil_iff.mpr hnone, List.take_zero]

/-- An element is below the threshold if its position is among those. -/
theorem getElem_below_iff (hp : ∀ a b, R a b → p b → p a) {l : List α} (hl : l.Pairwise R)
    {i : ℕ} (hi : i < l.length) : p l[i] ↔ i < l.countP p := by
  induction l generalizing i with
  | nil => cases hi
  | cons a l ih =>
      obtain ⟨ha, hl⟩ := List.pairwise_cons.mp hl
      by_cases hpa : p a
      · cases i with
        | zero => simp [hpa]
        | succ i => simpa [hpa] using ih hl (Nat.lt_of_succ_lt_succ hi)
      · have hnone : ∀ b ∈ l, ¬ p b := fun b hb hpb => hpa (hp a b (ha b hb) hpb)
        rw [List.countP_cons_of_neg hpa, List.countP_eq_zero.mpr hnone]
        cases i with
        | zero => simp [hpa]
        | succ i => simpa using hnone _ (List.getElem_mem _)

end Sorted

variable {α κ : Type} [LinearOrder κ] {key : α → κ}

/-- The order in which one query returns the documents it matches. -/
structure SortBy (key : α → κ) where
  sort : List α → List α
  perm : ∀ docs, (sort docs).Perm docs
  sorted : ∀ docs, (sort docs).Pairwise fun a b => key a ≤ key b

namespace SortBy

/-- Documents with the same key in the order they are stored. -/
def insertion (key : α → κ) : SortBy key where
  sort := List.insertionSort fun a b => key a ≤ key b
  perm := List.perm_insertionSort _
  sorted docs :=
    have : Std.Total fun a b : α => key a ≤ key b := ⟨fun a b => le_total (key a) (key b)⟩
    have : IsTrans α fun a b => key a ≤ key b := ⟨fun _ _ _ => le_trans⟩
    List.pairwise_insertionSort _ docs

/-- Any ordering of some documents is one in which a query may return them. -/
def ofList [DecidableEq α] {docs l : List α} (hperm : l.Perm docs)
    (hsorted : l.Pairwise fun a b => key a ≤ key b) : SortBy key where
  sort docs' := if docs' = docs then l else (insertion key).sort docs'
  perm docs' := by
    split
    · rename_i h
      rwa [h]
    · exact (insertion key).perm docs'
  sorted docs' := by
    split
    · exact hsorted
    · exact (insertion key).sorted docs'

@[simp] theorem ofList_sort [DecidableEq α] {docs l : List α} (hperm : l.Perm docs)
    (hsorted : l.Pairwise fun a b => key a ≤ key b) : (ofList hperm hsorted).sort docs = l :=
  if_pos rfl

variable (order : SortBy key) (docs : List α)

/-- `.skip(skip).limit(limit)` -/
def page (skip limit : ℕ) : List α := ((order.sort docs).drop skip).take limit

@[simp] theorem length_sort : (order.sort docs).length = docs.length := (order.perm docs).length_eq

@[simp] theorem mem_sort {a : α} : a ∈ order.sort docs ↔ a ∈ docs := (order.perm docs).mem_iff

theorem page_eq_nil {skip limit : ℕ} (hlimit : 0 < limit) :
    order.page docs skip limit = [] ↔ docs.length ≤ skip := by
  rw [page, ← List.length_eq_zero_iff, List.length_take, List.length_drop, length_sort]
  omega

/-- All orders give the keys in the same order. -/
theorem map_key_sort (order' : SortBy key) :
    (order.sort docs).map key = (order'.sort docs).map key := by
  have hperm : ((order.sort docs).map key).Perm ((order'.sort docs).map key) :=
    ((order.perm docs).trans (order'.perm docs).symm).map key
  have hsorted : ∀ o : SortBy key, ((o.sort docs).map key).Pairwise (· ≤ ·) := fun o =>
    List.pairwise_map.mpr (o.sorted docs)
  exact hperm.eq_of_pairwise (fun a b _ _ => le_antisymm) (hsorted order) (hsorted order')

theorem countP_sort (p : α → Bool) : (order.sort docs).countP p = docs.countP p :=
  (order.perm docs).countP_eq p

end SortBy

/-! ### Boundaries between pages -/

/-- There are documents of the same key on both sides of the position `m`. -/
def Straddles (key : α → κ) (docs : List α) (m : ℕ) : Prop :=
  ∃ a ∈ docs, docs.countP (fun b => key b < key a) < m ∧ m < docs.countP fun b => key b ≤ key a

instance (docs : List α) (m : ℕ) : Decidable (Straddles key docs m) :=
  inferInstanceAs (Decidable (∃ a ∈ docs, _))

theorem Straddles.lt_length {docs : List α} {m : ℕ} (h : Straddles key docs m) :
    m < docs.length := by
  obtain ⟨a, -, -, hle⟩ := h
  exact hle.trans_le List.countP_le_length

theorem below_lt {a b : α} {k : κ} (hab : key a ≤ key b) (hb : decide (key b < k) = true) :
    decide (key a < k) = true := by
  simpa using hab.trans_lt (by simpa using hb)

theorem below_le {a b : α} {k : κ} (hab : key a ≤ key b) (hb : decide (key b ≤ k) = true) :
    decide (key a ≤ k) = true := by
  simpa using hab.trans (by simpa using hb)

section Boundary

variable {docs : List α} {m : ℕ}

/-- In front of a boundary that separates keys, all orders have the same documents. -/
theorem take_perm (h : ¬ Straddles key docs m) (order order' : SortBy key) :
    ((order.sort docs).take m).Perm ((order'.sort docs).take m) := by
  rcases Nat.lt_or_ge m docs.length with hm | hm
  · have hm' : m < (order.sort docs).length := by rwa [order.length_sort]
    set a := (order.sort docs)[m] with ha
    have hmem : a ∈ docs := (order.mem_sort docs).mp (List.getElem_mem hm')
    have hlt : docs.countP (fun b => key b < key a) = m := by
      have hnot := getElem_below_iff (p := fun b => key b < key a) (fun _ _ => below_lt)
        (order.sorted docs) hm'
      have hin := getElem_below_iff (p := fun b => key b ≤ key a) (fun _ _ => below_le)
        (order.sorted docs) hm'
      rw [← ha, order.countP_sort] at hnot hin
      have hle : docs.countP (fun b => key b < key a) ≤ m := by simpa using hnot
      have hge : m < docs.countP fun b => key b ≤ key a := by simpa using hin
      exact hle.antisymm (not_lt.mp fun hlt => h ⟨a, hmem, hlt, hge⟩)
    have htake : ∀ o : SortBy key,
        (o.sort docs).take m = (o.sort docs).filter fun b => key b < key a := by
      intro o
      rw [filter_eq_take (fun _ _ => below_lt) (o.sorted docs), o.countP_sort, hlt]
    rw [htake, htake]
    exact ((order.perm docs).trans (order'.perm docs).symm).filter _
  · rw [List.take_of_length_le (by rwa [order.length_sort]),
      List.take_of_length_le (by rwa [order'.length_sort])]
    exact (order.perm docs).trans (order'.perm docs).symm

/-- The documents on the two sides of a boundary that does not have the same key, in
any order. -/
theorem Straddles.split (h : Straddles key docs m) (order : SortBy key) :
    ∃ A a b B, order.sort docs = A ++ a :: b :: B ∧ A.length + 1 = m ∧ key a = key b := by
  have hlength : m < (order.sort docs).length := by
    rw [order.length_sort]
    exact h.lt_length
  obtain ⟨c, hc, hlt, hle⟩ := h
  have hkey : ∀ i (hi : i < (order.sort docs).length),
      docs.countP (fun b => key b < key c) ≤ i → i ≤ m → key (order.sort docs)[i] = key c := by
    intro i hi hge him
    have hnot := getElem_below_iff (p := fun b => key b < key c) (fun _ _ => below_lt)
      (order.sorted docs) hi
    have hin := getElem_below_iff (p := fun b => key b ≤ key c) (fun _ _ => below_le)
      (order.sorted docs) hi
    rw [order.countP_sort] at hnot hin
    have hge' : key c ≤ key (order.sort docs)[i] := by simpa using hnot.not.mpr (not_lt.mpr hge)
    have hle' : key (order.sort docs)[i] ≤ key c := by simpa using hin.mpr (him.trans_lt hle)
    exact le_antisymm hle' hge'
  obtain ⟨i, rfl⟩ : ∃ i, m = i + 1 := ⟨m - 1, by omega⟩
  refine ⟨(order.sort docs).take i, (order.sort docs)[i], (order.sort docs)[i + 1],
    (order.sort docs).drop (i + 2), ?_, ?_, ?_⟩
  · rw [List.getElem_cons_drop, List.getElem_cons_drop, List.take_append_drop]
  · rw [List.length_take]
    omega
  · rw [hkey i (by omega) (by omega) (by omega), hkey (i + 1) hlength (by omega) le_rfl]

end Boundary

/-! ### Page after page -/

/-- The first `k` pages of size `L`, each from a query of its own. -/
def pagesUpTo (orders : ℕ → SortBy key) (docs : List α) (L k : ℕ) : List α :=
  (List.range k).flatMap fun j => (orders j).page docs (j * L) L

section Pages

variable {orders : ℕ → SortBy key} {docs : List α} {L k : ℕ}

theorem pagesUpTo_succ : pagesUpTo orders docs L (k + 1) =
    pagesUpTo orders docs L k ++ (orders k).page docs (k * L) L := by
  simp [pagesUpTo, List.range_succ]

theorem pagesUpTo_mono {n : ℕ} (h : k ≤ n) :
    pagesUpTo orders docs L k <+: pagesUpTo orders docs L n := by
  induction n, h using Nat.le_induction with
  | base => exact List.prefix_rfl
  | succ n _ ih =>
      rw [pagesUpTo_succ]
      exact ih.trans (List.prefix_append _ _)

theorem take_append_page (order : SortBy key) :
    (order.sort docs).take (k * L) ++ order.page docs (k * L) L =
      (order.sort docs).take ((k + 1) * L) := by
  rw [SortBy.page, ← List.take_add, Nat.succ_mul]

/-- The keys come out in order, whatever becomes of the documents. -/
theorem map_key_pagesUpTo (order : SortBy key) :
    (pagesUpTo orders docs L k).map key = ((order.sort docs).take (k * L)).map key := by
  induction k with
  | zero => simp [pagesUpTo]
  | succ k ih =>
      rw [pagesUpTo_succ, ← take_append_page, List.map_append, List.map_append, ih]
      simp only [SortBy.page, List.map_take, List.map_drop, (orders k).map_key_sort docs order]

theorem pagesUpTo_sorted : (pagesUpTo orders docs L k).Pairwise fun a b => key a ≤ key b := by
  have hsorted := ((orders 0).sorted docs).sublist (List.take_sublist (k * L) _)
  rw [← List.pairwise_map, map_key_pagesUpTo (orders 0), List.pairwise_map]
  exact hsorted

/-- Pages whose boundaries separate keys hold what one query would have returned. -/
theorem pagesUpTo_perm (h : ∀ j ≤ k, ¬ Straddles key docs (j * L)) (order : SortBy key) :
    (pagesUpTo orders docs L k).Perm ((order.sort docs).take (k * L)) := by
  induction k generalizing order with
  | zero => simp [pagesUpTo]
  | succ k ih =>
      have hfront := ih (fun j hj => h j (hj.trans (Nat.le_succ k))) (orders k)
      rw [pagesUpTo_succ]
      refine (hfront.append_right _).trans ?_
      rw [take_append_page]
      exact take_perm (h (k + 1) le_rfl) (orders k) order

/-- A boundary that runs through documents of one key lets a document come twice: the
query behind the boundary returns the two next to it the other way round. -/
theorem exists_repeats [DecidableEq α] (hL : 0 < L) (h : Straddles key docs (k * L)) :
    ∃ orders : ℕ → SortBy key, ∀ n, k < n → ¬ (pagesUpTo orders docs L n).Nodup := by
  set order := SortBy.insertion key
  obtain ⟨A, a, b, B, hsort, hA, hab⟩ := h.split order
  have hswap : (A ++ b :: a :: B).Perm docs := by
    refine List.Perm.trans ?_ (order.perm docs)
    rw [hsort]
    exact (List.Perm.swap a b B).append_left A
  have hsorted : (A ++ b :: a :: B).Pairwise fun a b => key a ≤ key b := by
    have := order.sorted docs
    rw [hsort, ← List.pairwise_map] at this
    rw [← List.pairwise_map]
    simpa [hab] using this
  set swapped := SortBy.ofList hswap hsorted
  refine ⟨fun j => if j < k then order else swapped, fun n hn hnodup => ?_⟩
  set orders : ℕ → SortBy key := fun j => if j < k then order else swapped
  -- up to the boundary there is one order
  have hfront : pagesUpTo orders docs L k = A ++ [a] := by
    have heq : ∀ j ≤ k, pagesUpTo orders docs L j = (order.sort docs).take (j * L) := by
      intro j hj
      induction j with
      | zero => simp [pagesUpTo]
      | succ j ih =>
          rw [pagesUpTo_succ, ih (by omega), show orders j = order from if_pos (by omega),
            take_append_page]
    rw [heq k le_rfl, hsort, show A ++ a :: b :: B = (A ++ [a]) ++ b :: B by simp]
    exact List.take_left' (by simpa using hA)
  have hnext : a ∈ (orders k).page docs (k * L) L := by
    rw [show orders k = swapped from if_neg (lt_irrefl k), SortBy.page, SortBy.ofList_sort,
      show A ++ b :: a :: B = (A ++ [b]) ++ a :: B by simp,
      List.drop_left' (by simpa using hA)]
    obtain ⟨l, rfl⟩ : ∃ l, L = l + 1 := ⟨L - 1, by omega⟩
    exact List.mem_cons_self
  have hfirst := hnodup.sublist (pagesUpTo_mono hn).sublist
  rw [pagesUpTo_succ, hfront] at hfirst
  exact (List.nodup_append.mp hfirst).2.2 a (by simp) a hnext rfl

end Pages

end Pipeline

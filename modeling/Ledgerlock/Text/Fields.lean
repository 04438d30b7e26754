import Mathlib.Data.List.DropRight
import Mathlib.Data.List.Basic

/-!
# Ledgerlock.Text.Fields

Lists of fields in a text: trimming what surrounds a field, splitting at a separator,
and dropping what repeats an earlier field.

Trimming a text before it is split makes no difference once its fields are trimmed
(`splitOn_trim`), and mapping the elements of a trimmed text leaves it trimmed
(`Trimmed.flatMap`). `FirstOccurrences` says what is left when repeats are dropped.
-/

namespace Text

variable {α : Type} {p : α → Bool}

/-! ### Trimming -/

/-- What is left of `l` when elements with `p` are removed from either end. -/
def trim (p : α → Bool) (l : List α) : List α := (l.dropWhile p).rdropWhile p

/-- Neither end is an element that trimming removes. -/
structure Trimmed (p : α → Bool) (l : List α) : Prop where
  head : ∀ x ∈ l.head?, p x = false
  last : ∀ x ∈ l.getLast?, p x = false

theorem rdropWhile_cons (p : α → Bool) (x : α) (l : List α) : (x :: l).rdropWhile p =
    if l.rdropWhile p = [] ∧ p x = true then [] else x :: l.rdropWhile p := by
  induction l using List.reverseRecOn with
  | nil => simp [List.rdropWhile_singleton]
  | append_singleton l y ih =>
      rw [← List.cons_append, List.rdropWhile_concat, List.rdropWhile_concat]
      by_cases hy : p y = true
      · rw [if_pos hy, if_pos hy, ih]
      · rw [if_neg hy, if_neg hy]
        simp

/-- The two ends can be trimmed in either order. -/
theorem trim_eq (p : α → Bool) (l : List α) : trim p l = (l.rdropWhile p).dropWhile p := by
  unfold trim
  induction l with
  | nil => rfl
  | cons x l ih =>
      rw [rdropWhile_cons]
      by_cases hx : p x = true
      · rw [List.dropWhile_cons_of_pos hx, ih]
        split_ifs with hl
        · rw [hl.1]
        · rw [List.dropWhile_cons_of_pos hx]
      · rw [if_neg fun h => hx h.2, List.dropWhile_cons_of_neg hx, List.dropWhile_cons_of_neg hx,
          rdropWhile_cons, if_neg fun h => hx h.2]

theorem trimmed_of_forall {l : List α} (h : ∀ x ∈ l, p x = false) : Trimmed p l :=
  ⟨fun x hx => h x (List.mem_of_mem_head? hx), fun x hx => h x (List.mem_of_mem_getLast? hx)⟩

theorem Trimmed.trim_eq {l : List α} (h : Trimmed p l) : trim p l = l := by
  have hfront : l.dropWhile p = l := by
    cases l with
    | nil => rfl
    | cons x l => exact List.dropWhile_cons_of_neg (by simp [h.head x rfl])
  have hback : l.rdropWhile p = l :=
    List.rdropWhile_eq_self_iff.mpr fun hne => by
      simp [h.last _ (List.getLast?_eq_some_getLast hne)]
  rw [trim, hfront, hback]

theorem trimmed_trim (p : α → Bool) (l : List α) : Trimmed p (trim p l) where
  head := by
    intro x hx
    rw [Text.trim_eq] at hx
    have hfirst := List.head?_dropWhile_not p (l.rdropWhile p)
    rw [Option.mem_def.mp hx] at hfirst
    exact hfirst
  last := by
    intro x hx
    have hne : trim p l ≠ [] := fun h => by simp [h] at hx
    rw [List.getLast?_eq_some_getLast hne] at hx
    obtain rfl := Option.mem_some.mp hx
    exact Bool.eq_false_iff.mpr (List.rdropWhile_last_not p (l.dropWhile p) hne)

/-- If no element is mapped to nothing, and none that stays to one that goes, a trimmed
text stays trimmed. -/
theorem Trimmed.flatMap {l : List α} (h : Trimmed p l) {f : α → List α}
    (hne : ∀ x, f x ≠ []) (hkept : ∀ x, p x = false → ∀ y ∈ f x, p y = false) :
    Trimmed p (l.flatMap f) where
  head := by
    intro y hy
    cases l with
    | nil => cases hy
    | cons x l =>
        rw [List.flatMap_cons, List.head?_append_of_ne_nil _ (hne x)] at hy
        exact hkept x (h.head x rfl) y (List.mem_of_mem_head? hy)
  last := by
    intro y hy
    induction l using List.reverseRecOn with
    | nil => cases hy
    | append_singleton l x =>
        rw [List.flatMap_append, List.flatMap_singleton,
          List.getLast?_append_of_ne_nil _ (hne x)] at hy
        exact hkept x (h.last x (by simp)) y (List.mem_of_mem_getLast? hy)

/-! ### Splitting -/

section Split

variable [BEq α] [LawfulBEq α] {sep : α}

theorem splitOn_cons_ne {x : α} (hx : x ≠ sep) (l : List α) :
    (x :: l).splitOn sep = (l.splitOn sep).modifyHead (x :: ·) := by
  rw [List.splitOn_cons_eq_if_modifyHead, if_neg (by simpa using hx)]

theorem splitOn_dropWhile (hsep : p sep = false) (l : List α) :
    ((l.dropWhile p).splitOn sep).map (List.dropWhile p) =
      (l.splitOn sep).map (List.dropWhile p) := by
  induction l with
  | nil => rfl
  | cons x l ih =>
      by_cases hx : p x = true
      · have hne : x ≠ sep := fun h => by simp [← h, hx] at hsep
        obtain ⟨y, ys, hl⟩ := List.exists_cons_of_ne_nil (List.splitOn_ne_nil sep l)
        rw [List.dropWhile_cons_of_pos hx, ih, splitOn_cons_ne hne, hl, List.modifyHead_cons,
          List.map_cons, List.map_cons, List.dropWhile_cons_of_pos hx]
      · rw [List.dropWhile_cons_of_neg hx]

theorem splitOn_rdropWhile (hsep : p sep = false) (l : List α) :
    ((l.rdropWhile p).splitOn sep).map (List.rdropWhile p) =
      (l.splitOn sep).map (List.rdropWhile p) := by
  induction l with
  | nil => rfl
  | cons x l ih =>
      rw [rdropWhile_cons]
      obtain ⟨y, ys, hl⟩ := List.exists_cons_of_ne_nil (List.splitOn_ne_nil sep l)
      obtain ⟨z, zs, hr⟩ := List.exists_cons_of_ne_nil (List.splitOn_ne_nil sep (l.rdropWhile p))
      by_cases hsepx : x = sep
      · -- a separator stays, and what stands before it is empty
        rw [if_neg fun h => by simp [← hsepx, h.2] at hsep, List.splitOn_cons_eq_if_modifyHead,
          List.splitOn_cons_eq_if_modifyHead, if_pos (by simpa using hsepx),
          if_pos (by simpa using hsepx), List.map_cons, List.map_cons, ih]
      · rw [hl, hr, List.map_cons, List.map_cons, List.cons.injEq] at ih
        rw [splitOn_cons_ne hsepx, hl, List.modifyHead_cons, List.map_cons, rdropWhile_cons p x y,
          ← ih.1, ← ih.2]
        split_ifs with hdrop hdrop' hdrop'
        · rw [hdrop.1, List.splitOn_nil] at hr
          obtain ⟨rfl, rfl⟩ := List.cons.inj hr
          rfl
        · rw [hdrop.1, List.splitOn_nil] at hr
          obtain ⟨rfl, rfl⟩ := List.cons.inj hr
          exact absurd ⟨rfl, hdrop.2⟩ hdrop'
        · rw [splitOn_cons_ne hsepx, hr, List.modifyHead_cons, List.map_cons, rdropWhile_cons,
            if_pos hdrop']
        · rw [splitOn_cons_ne hsepx, hr, List.modifyHead_cons, List.map_cons, rdropWhile_cons,
            if_neg hdrop']

/-- The trimmed fields of a text are those of the trimmed text. -/
theorem splitOn_trim (hsep : p sep = false) (l : List α) :
    ((trim p l).splitOn sep).map (trim p) = (l.splitOn sep).map (trim p) := by
  have hfront : trim p = List.rdropWhile p ∘ List.dropWhile p := rfl
  have hback : trim p = List.dropWhile p ∘ List.rdropWhile p := funext (trim_eq p)
  calc ((trim p l).splitOn sep).map (trim p)
      = ((l.dropWhile p).splitOn sep).map (trim p) := by
        rw [hback, ← List.map_map, ← List.map_map, ← splitOn_rdropWhile hsep (l.dropWhile p),
          ← hback]
        rfl
    _ = (l.splitOn sep).map (trim p) := by
        rw [hfront, ← List.map_map, ← List.map_map, splitOn_dropWhile hsep]

end Split

/-- What stands in joined fields: the separator, or part of a field. -/
theorem mem_intercalate {sep x : α} {fields : List (List α)}
    (h : x ∈ [sep].intercalate fields) : x = sep ∨ ∃ l ∈ fields, x ∈ l := by
  induction fields with
  | nil => cases h
  | cons l fields ih =>
      cases fields with
      | nil =>
          rw [List.intercalate_singleton] at h
          exact .inr ⟨l, List.mem_cons_self, h⟩
      | cons l' fields =>
          rw [List.intercalate_cons_cons, List.mem_append, List.mem_append] at h
          rcases h with (h | h) | h
          · exact .inr ⟨l, List.mem_cons_self, h⟩
          · exact .inl (List.mem_singleton.mp h)
          · rcases ih h with h | ⟨m, hm, hx⟩
            · exact .inl h
            · exact .inr ⟨m, List.mem_cons_of_mem l hm, hx⟩

/-! ### Dropping repeats -/

section Repeats

variable [BEq α] [LawfulBEq α]

/-- `kept` has every element of `l` once, in the order in which they occur first. -/
structure FirstOccurrences (l kept : List α) : Prop where
  nodup : kept.Nodup
  mem_iff : ∀ x, x ∈ kept ↔ x ∈ l
  ordered : kept.Pairwise fun x y => l.idxOf x < l.idxOf y

theorem eraseDups_concat_of_mem {l : List α} {x : α} (h : x ∈ l) :
    (l ++ [x]).eraseDups = l.eraseDups := by
  simp [List.eraseDups_append, List.removeAll, h]

theorem eraseDups_concat_of_notMem {l : List α} {x : α} (h : x ∉ l) :
    (l ++ [x]).eraseDups = l.eraseDups ++ [x] := by
  simp [List.eraseDups_append, List.removeAll, List.eraseDups_cons, h]

theorem firstOccurrences_eraseDups (l : List α) : FirstOccurrences l l.eraseDups := by
  induction l using List.reverseRecOn with
  | nil => exact ⟨.nil, fun x => Iff.rfl, .nil⟩
  | append_singleton l x ih =>
      have hordered : l.eraseDups.Pairwise fun y z =>
          (l ++ [x]).idxOf y < (l ++ [x]).idxOf z := by
        refine ih.ordered.imp_of_mem fun {y z} hy hz hlt => ?_
        rwa [List.idxOf_append_of_mem ((ih.mem_iff y).mp hy),
          List.idxOf_append_of_mem ((ih.mem_iff z).mp hz)]
      refine ⟨?_, fun y => List.mem_eraseDups, ?_⟩
      · by_cases hx : x ∈ l
        · rw [eraseDups_concat_of_mem hx]
          exact ih.nodup
        · rw [eraseDups_concat_of_notMem hx, List.nodup_append]
          refine ⟨ih.nodup, List.pairwise_singleton _ x, fun y hy z hz => ?_⟩
          obtain rfl := List.mem_singleton.mp hz
          exact fun h => hx ((ih.mem_iff z).mp (h ▸ hy))
      · by_cases hx : x ∈ l
        · rwa [eraseDups_concat_of_mem hx]
        · rw [eraseDups_concat_of_notMem hx, List.pairwise_append]
          refine ⟨hordered, List.pairwise_singleton _ x, fun y hy z hz => ?_⟩
          obtain rfl := List.mem_singleton.mp hz
          have hy := (ih.mem_iff y).mp hy
          rw [List.idxOf_append_of_mem hy, List.idxOf_append_of_notMem hx]
          exact Nat.lt_add_right _ (List.idxOf_lt_length_of_mem hy)

theorem eraseDups_of_nodup {l : List α} (h : l.Nodup) : l.eraseDups = l := by
  induction l using List.reverseRecOn with
  | nil => rfl
  | append_singleton l x ih =>
      have hx : x ∉ l := fun hx => (List.nodup_append.mp h).2.2 x hx x (by simp) rfl
      rw [eraseDups_concat_of_notMem hx, ih (List.nodup_append.mp h).1]

end Repeats

end Text

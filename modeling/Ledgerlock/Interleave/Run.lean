import Ledgerlock.Interleave.Program
import Mathlib.Data.List.Count
import Mathlib.Logic.Function.Basic

/-!
# Ledgerlock.Interleave.Run

Any number of programs on one shared state, in every interleaving, with an
environment that moves the state too.

`Run.sound` is the rule for the whole: if the environment and every program keep up
the protocol, the invariant holds in every state of every run, later states are
reachable along the rely, and each program still meets its requirements from where
it has got to. `Terminates` is what a bound on a program's actions means for its runs.
-/

namespace Interleave

variable {ν σ ι ε α : Type}

/-- The shared state, and what each party has left to do. -/
structure Config (ν σ ι ε α : Type) where
  shared : σ
  prog : ν → Prog σ ι ε α

/-! ### What the parties are asked for -/

section Sound

variable {E : Env σ ι} {P : Protocol E} {G : ν → σ → σ → Prop} {Q : ν → Post σ ε α}

/-- Each program meets its requirements from where it has got to, on a state that
satisfies the invariant. -/
structure Config.Sound (P : Protocol E) (G : ν → σ → σ → Prop) (Q : ν → Post σ ε α)
    (c : Config ν σ ι ε α) : Prop where
  inv : P.inv c.shared
  progs : ∀ i, (c.prog i).wp P (G i) (Q i) c.shared

variable {c : Config ν σ ι ε α} {i : ν}

/-- What was asked of a result holds of it, however long ago it was returned. -/
theorem Config.Sound.of_done (hc : c.Sound P G Q) {a : α} (hi : c.prog i = .done a) :
    (Q i).done a c.shared := by
  have h := hc.progs i
  rw [hi] at h
  exact h c.shared (P.rely_refl _) hc.inv

theorem Config.Sound.of_raise (hc : c.Sound P G Q) {e : ε} (hi : c.prog i = .raise e) :
    (Q i).raise e c.shared := by
  have h := hc.progs i
  rw [hi] at h
  exact h c.shared (P.rely_refl _) hc.inv

end Sound

/-! ### Runs -/

section Run

variable [DecidableEq ν]

/-- One action of party `i`, or one of the environment's (`none`). -/
inductive Step (E : Env σ ι) : Option ν → Config ν σ ι ε α → Config ν σ ι ε α → Prop
  | act {c : Config ν σ ι ε α} {i : ν} {f : ι → σ → σ} {k : ι → σ → Prog σ ι ε α} {x : ι} :
      c.prog i = .act f k → E.offers c.shared x →
      Step E (some i) c ⟨f x c.shared, Function.update c.prog i (k x c.shared)⟩
  | env {c : Config ν σ ι ε α} {s : σ} : E.moves c.shared s → Step E none c ⟨s, c.prog⟩

/-- Finitely many steps, with the list of who made them. -/
inductive Run (E : Env σ ι) (c : Config ν σ ι ε α) :
    List (Option ν) → Config ν σ ι ε α → Prop
  | nil : Run E c [] c
  | concat {l : List (Option ν)} {d d' : Config ν σ ι ε α} {m : Option ν} :
      Run E c l d → Step E m d d' → Run E c (l ++ [m]) d'

variable {E : Env σ ι} {c d d' : Config ν σ ι ε α} {i : ν} {l : List (Option ν)}
  {P : Protocol E} {G : ν → σ → σ → Prop} {Q : ν → Post σ ε α}

theorem Run.trans {l' : List (Option ν)} (h : Run E c l d) (h' : Run E d l' d') :
    Run E c (l ++ l') d' := by
  induction h' with
  | nil => rwa [List.append_nil]
  | concat _ hs ih =>
      rw [← List.append_assoc]
      exact ih.concat hs

/-- A party's program is what only its own steps change. -/
theorem Step.prog_of_ne {m : Option ν} (h : Step E m c d) (hm : m ≠ some i) :
    d.prog i = c.prog i := by
  cases h with
  | act => exact Function.update_of_ne (fun hij => hm (congrArg some hij.symm)) _ _
  | env => rfl

/-- A party takes its step with the first action of its program. -/
theorem Step.of_act {f : ι → σ → σ} {k : ι → σ → Prog σ ι ε α} (h : Step E (some i) c d)
    (hp : c.prog i = .act f k) : ∃ x, E.offers c.shared x ∧ d.shared = f x c.shared ∧
      d.prog i = k x c.shared := by
  cases h with
  | @act _ _ f' k' x hp' hx =>
      obtain ⟨rfl, rfl⟩ := Prog.act.inj (hp.symm.trans hp')
      exact ⟨x, hx, rfl, Function.update_self _ _ _⟩

theorem Step.not_ended (h : Step E (some i) c d) : ¬ (c.prog i).Ended := by
  intro hi
  cases h with
  | act hp =>
      rw [hp] at hi
      cases hi

/-- A program that has ended stays as it is. -/
theorem Step.prog_of_ended {m : Option ν} (h : Step E m c d) (hi : (c.prog i).Ended) :
    d.prog i = c.prog i := by
  refine h.prog_of_ne fun hm => ?_
  subst hm
  exact h.not_ended hi

theorem Run.prog_of_ended (h : Run E c l d) (hi : (c.prog i).Ended) : d.prog i = c.prog i := by
  induction h with
  | nil => rfl
  | concat _ hs ih => rw [hs.prog_of_ended (ih ▸ hi), ih]

/-- A program nobody has run is as it was. -/
theorem Run.prog_of_notMem (h : Run E c l d) (hi : some i ∉ l) : d.prog i = c.prog i := by
  induction h with
  | nil => rfl
  | concat _ hs ih =>
      rw [List.mem_append, List.mem_singleton, not_or] at hi
      rw [hs.prog_of_ne (Ne.symm hi.2), ih hi.1]

/-- A program that has moved on has had its first step, from the state it was in. -/
theorem Run.exists_first (h : Run E c l d) (hi : some i ∈ l) : ∃ l₁ e e' l₂,
    Run E c l₁ e ∧ some i ∉ l₁ ∧ Step E (some i) e e' ∧ Run E e' l₂ d := by
  induction h with
  | nil => cases hi
  | @concat l d d' m h hs ih =>
      by_cases hl : some i ∈ l
      · obtain ⟨l₁, e, e', l₂, hbefore, hnot, hfirst, hafter⟩ := ih hl
        exact ⟨l₁, e, e', _, hbefore, hnot, hfirst, hafter.concat hs⟩
      · obtain hmem | hm := List.mem_append.mp hi
        · exact absurd hmem hl
        · obtain rfl := List.mem_singleton.mp hm
          exact ⟨l, d, d', [], h, hl, hs, .nil⟩

/-- A program that has ended has had its next step. -/
theorem Run.exists_next (h : Run E c l d) (hi : ¬ (c.prog i).Ended) (hended : (d.prog i).Ended) :
    ∃ l₁ e e' l₂, Run E c l₁ e ∧ some i ∉ l₁ ∧ e.prog i = c.prog i ∧ Step E (some i) e e' ∧
      Run E e' l₂ d := by
  have hmem : some i ∈ l := by
    by_contra hnot
    rw [h.prog_of_notMem hnot] at hended
    exact hi hended
  obtain ⟨l₁, e, e', l₂, hbefore, hnot, hnext, hafter⟩ := h.exists_first hmem
  exact ⟨l₁, e, e', l₂, hbefore, hnot, hbefore.prog_of_notMem hnot, hnext, hafter⟩

/-- What every action of a program was to be, every action left of it is. -/
theorem Run.every {A : (ι → σ → σ) → (ι → σ → Prog σ ι ε α) → Prop} {D : α → Prop}
    (h : Run E c l d) (hi : (c.prog i).Every A D) : (d.prog i).Every A D := by
  induction h with
  | nil => exact hi
  | @concat l d d' m _ hs ih =>
      by_cases hm : m = some i
      · subst hm
        cases hs with
        | act hp =>
            rw [hp] at ih
            show (Function.update d.prog i _ i).Every A D
            rw [Function.update_self]
            exact ih.2 _ _
      · rwa [hs.prog_of_ne hm]

/-- Whatever there is in the end was there at the start, or somebody has put it there and
goes on as `R` says of those who do. -/
theorem Run.exists_author {X : Type} {H : X → σ → Prop} {R : ν → X → Prog σ ι ε α → Prop}
    {D : α → Prop} (h : Run E c l d)
    (hact : ∀ i, (c.prog i).Every
      (fun f k => ∀ x s y, H y (f x s) → H y s ∨ R i y (k x s)) D)
    (hkept : ∀ i y f k, R i y (.act f k) → ∀ x s, R i y (k x s))
    (henv : ∀ l e t, Run E c l e → E.moves e.shared t → ∀ y, H y t → H y e.shared) {y : X}
    (hy : H y d.shared) : H y c.shared ∨ ∃ i, R i y (d.prog i) := by
  induction h generalizing y with
  | nil => exact .inl hy
  | @concat l d d' m hrun hs ih =>
      cases hs with
      | @act _ i f k x hp =>
          have hevery := hrun.every (hact i)
          rw [hp] at hevery
          rcases hevery.1 x d.shared y hy with hy | hnew
          · refine (ih hy).imp_right fun hauthor => ?_
            obtain ⟨j, hj⟩ := hauthor
            refine ⟨j, ?_⟩
            show R j y (Function.update d.prog i _ j)
            by_cases hji : j = i
            · subst hji
              rw [Function.update_self]
              exact hkept j y f k (hp ▸ hj) x d.shared
            · rwa [Function.update_of_ne hji]
          · refine .inr ⟨i, ?_⟩
            show R i y (Function.update d.prog i _ i)
            rwa [Function.update_self]
      | env hm => exact ih (henv l d _ hrun hm y hy)

/-- Of what can be put there only while it is not, nobody else is the author too. -/
theorem Run.author_unique {X : Type} {H : X → σ → Prop} {R : ν → X → Prog σ ι ε α → Prop}
    {D : α → Prop} (h : Run E c l d) (hstart : ∀ i y, ¬ R i y (c.prog i))
    (hact : ∀ i, (c.prog i).Every (fun f k => ∀ x s, E.offers s x → ∀ y,
      (H y s → H y (f x s)) ∧
        (R i y (k x s) → R i y (.act f k) ∨ ¬ H y s ∧ H y (f x s))) D)
    (henv : ∀ s t, E.moves s t → ∀ y, H y s → H y t) :
    (∀ i y, R i y (d.prog i) → H y d.shared) ∧
      ∀ i j y, R i y (d.prog i) → R j y (d.prog j) → i = j := by
  induction h with
  | nil => exact ⟨fun i y hi => absurd hi (hstart i y), fun i _ y hi => absurd hi (hstart i y)⟩
  | @concat l d d' m hrun hs ih =>
      obtain ⟨hhas, hunique⟩ := ih
      cases hs with
      | @act _ i f k x hp hx =>
          have hevery := hrun.every (hact i)
          rw [hp] at hevery
          have hstep := hevery.1 x d.shared hx
          -- an author there was, or the one who has just put it there
          have hauthor {j : ν} {y : X} (hj : R j y (Function.update d.prog i (k x d.shared) j)) :
              R j y (d.prog j) ∨ j = i ∧ ¬ H y d.shared ∧ H y (f x d.shared) := by
            by_cases hji : j = i
            · subst hji
              rw [Function.update_self] at hj
              rw [hp]
              exact ((hstep y).2 hj).imp_right fun hnew => ⟨rfl, hnew⟩
            · rw [Function.update_of_ne hji] at hj
              exact .inl hj
          refine ⟨fun j y hj => ?_, fun j j' y hj hj' => ?_⟩
          · rcases hauthor hj with hj | ⟨-, -, hnew⟩
            · exact (hstep y).1 (hhas j y hj)
            · exact hnew
          · rcases hauthor hj with hold | ⟨rfl, hnone, -⟩ <;>
              rcases hauthor hj' with hold' | ⟨rfl, hnone', -⟩
            · exact hunique j j' y hold hold'
            · exact absurd (hhas j y hold) hnone'
            · exact absurd (hhas j' y hold') hnone
            · rfl
      | env hm => exact ⟨fun i y hi => henv _ _ hm y (hhas i y hi), hunique⟩

/-- A preorder that every action keeps, and the environment with them. -/
theorem Run.rel {R : σ → σ → Prop} {D : α → Prop} (h : Run E c l d) (hrefl : ∀ s, R s s)
    (htrans : ∀ s t u, R s t → R t u → R s u)
    (hact : ∀ i, (c.prog i).Every (fun f _ => ∀ x s, E.offers s x → R s (f x s)) D)
    (henv : ∀ s t, E.moves s t → R s t) : R c.shared d.shared := by
  induction h with
  | nil => exact hrefl _
  | @concat l d d' m hrun hs ih =>
      refine htrans _ _ _ ih ?_
      cases hs with
      | @act _ i f k x hp hx =>
          have hevery := hrun.every (hact i)
          rw [hp] at hevery
          exact hevery.1 x d.shared hx
      | env hm => exact henv _ _ hm

/-- What is asked of one program it meets in a run in which the others keep up the
protocol. -/
theorem Run.wp_of_keeps {G : σ → σ → Prop} {Q : Post σ ε α} (h : Run E c l d)
    (hinv : ∀ l e, Run E c l e → P.inv e.shared)
    (hrely : ∀ l e m e', Run E c l e → Step E m e e' → m ≠ some i → P.rely e.shared e'.shared)
    (hi : (c.prog i).wp P G Q c.shared) : (d.prog i).wp P G Q d.shared := by
  induction h with
  | nil => exact hi
  | @concat l d d' m hrun hs ih =>
      by_cases hm : m = some i
      · subst hm
        cases hs with
        | act hp hx =>
            rw [hp] at ih
            show (Function.update d.prog i _ i).wp P G Q _
            rw [Function.update_self]
            exact (ih d.shared _ (P.rely_refl _) (hinv _ _ hrun) hx).2.2
      · rw [hs.prog_of_ne hm]
        exact Prog.wp_rely ih (hrely _ _ _ _ hrun hs hm)

/-- A program that nobody disturbs comes to what `Prog.eval` says, as long as the input
is on offer in the states it passes through. -/
theorem exists_run_eval {I : σ → Prop} {x : ι} (hI : ∀ t, I t → E.offers t x)
    {p : Prog σ ι ε α} (hp : c.prog i = p)
    (hevery : p.Every (fun f _ => ∀ t, I t → I (f x t)) fun _ => True) (hs : I c.shared) :
    ∃ l, Run E c l ⟨(p.eval x c.shared).2,
      Function.update c.prog i (.ofExcept (p.eval x c.shared).1)⟩ := by
  induction p generalizing c with
  | done a =>
      have hsame : Function.update c.prog i (.done a) = c.prog :=
        Function.update_eq_self_iff.mpr hp.symm
      refine ⟨[], ?_⟩
      show Run E c [] ⟨c.shared, Function.update c.prog i (.done a)⟩
      rw [hsame]
      exact .nil
  | raise e =>
      have hsame : Function.update c.prog i (.raise e) = c.prog :=
        Function.update_eq_self_iff.mpr hp.symm
      refine ⟨[], ?_⟩
      show Run E c [] ⟨c.shared, Function.update c.prog i (.raise e)⟩
      rw [hsame]
      exact .nil
  | act f k ih =>
      have hfirst : Run E c [some i] _ := .concat .nil (.act hp (hI _ hs))
      obtain ⟨l, hrest⟩ := ih x c.shared
        (c := ⟨f x c.shared, Function.update c.prog i (k x c.shared)⟩)
        (Function.update_self _ _ _) (hevery.2 x c.shared) (hevery.1 _ hs)
      rw [Function.update_idem] at hrest
      exact ⟨_, hfirst.trans hrest⟩

/-! ### The rule for the whole -/

/-- A step of a party is one that its guarantee allows. -/
theorem Config.Sound.guar (hc : c.Sound P G Q) (h : Step E (some i) c d) :
    G i c.shared d.shared := by
  have hi := hc.progs i
  cases h with
  | act hp hx =>
      rw [hp] at hi
      exact (hi c.shared _ (P.rely_refl _) hc.inv hx).1

theorem Config.Sound.step (hG : ∀ i s t, P.inv s → G i s t → P.rely s t) (hc : c.Sound P G Q)
    {m : Option ν} (h : Step E m c d) : d.Sound P G Q ∧ P.rely c.shared d.shared := by
  cases h with
  | @act _ i f k x hp hx =>
      have hi := hc.progs i
      rw [hp] at hi
      obtain ⟨hGi, ht, hk⟩ := hi c.shared x (P.rely_refl _) hc.inv hx
      -- the others do not see more than a rely
      have hrely := hG i _ _ hc.inv hGi
      refine ⟨⟨ht, fun j => ?_⟩, hrely⟩
      show (Function.update c.prog i _ j).wp P (G j) (Q j) _
      by_cases hj : j = i
      · subst hj
        rwa [Function.update_self]
      · rw [Function.update_of_ne hj]
        exact Prog.wp_rely (hc.progs j) hrely
  | env hm =>
      have hrely := P.rely_moves _ _ hc.inv hm
      exact ⟨⟨P.inv_moves _ _ hc.inv hm, fun j => Prog.wp_rely (hc.progs j) hrely⟩, hrely⟩

/-- The rule for the whole. -/
theorem Run.sound (hG : ∀ i s t, P.inv s → G i s t → P.rely s t) (hc : c.Sound P G Q)
    (h : Run E c l d) : d.Sound P G Q ∧ P.rely c.shared d.shared := by
  induction h with
  | nil => exact ⟨hc, P.rely_refl _⟩
  | concat _ hs ih =>
      obtain ⟨hd, hrely⟩ := ih
      obtain ⟨hd', hrely'⟩ := hd.step hG hs
      exact ⟨hd', P.rely_trans _ _ _ hrely hrely'⟩

/-! ### Termination -/

/-- Party `i` takes so many steps at most, and until it has ended it can take one,
whatever the others are at. -/
def Terminates (E : Env σ ι) (c : Config ν σ ι ε α) (i : ν) : Prop :=
  ∃ n, ∀ l d, Run E c l d → l.count (some i) ≤ n ∧
    ((d.prog i).Ended ∨ ∃ d', Step E (some i) d d')

theorem Run.within {n : Nat} (hn : (c.prog i).Within n) (h : Run E c l d) :
    l.count (some i) ≤ n ∧ (d.prog i).Within (n - l.count (some i)) := by
  induction h with
  | nil => exact ⟨by simp, by simpa using hn⟩
  | @concat l d d' m hs hstep ih =>
      obtain ⟨hle, hw⟩ := ih
      by_cases hm : m = some i
      · subst hm
        rw [List.count_append, List.count_singleton_self]
        cases hstep with
        | act hp =>
            rw [hp] at hw
            obtain ⟨k, hk⟩ : ∃ k, n - l.count (some i) = k + 1 := by
              cases hk : n - l.count (some i) with
              | zero => exact (hk ▸ hw).elim
              | succ k => exact ⟨k, rfl⟩
            rw [hk] at hw
            refine ⟨by omega, ?_⟩
            rw [show n - (l.count (some i) + 1) = k by omega]
            show (Function.update d.prog i _ i).Within k
            rw [Function.update_self]
            exact hw _ _
      · have hnone : [m].count (some i) = 0 :=
          List.count_eq_zero_of_not_mem (by simpa using Ne.symm hm)
        rw [List.count_append, hnone, Nat.add_zero, hstep.prog_of_ne hm]
        exact ⟨hle, hw⟩

/-- A program with a bound on its actions terminates, if there is always an input. -/
theorem terminates {n : Nat} (hn : (c.prog i).Within n) (hoffers : ∀ s, ∃ x, E.offers s x) :
    Terminates E c i := by
  refine ⟨n, fun l d h => ⟨(h.within hn).1, ?_⟩⟩
  cases hp : d.prog i with
  | done a => exact .inl (.done a)
  | raise e => exact .inl (.raise e)
  | act f k =>
      obtain ⟨x, hx⟩ := hoffers d.shared
      exact .inr ⟨_, .act hp hx⟩

/-- A program can be carried to its end by steps of its own. -/
theorem exists_run_ended (hoffers : ∀ l d, Run E c l d → ∃ x, E.offers d.shared x) (i : ν) :
    ∃ l d, Run E c l d ∧ (d.prog i).Ended ∧ ∀ m ∈ l, m = some i := by
  generalize hp : c.prog i = p
  induction p generalizing c with
  | done a => exact ⟨[], c, .nil, hp ▸ .done a, by simp⟩
  | raise e => exact ⟨[], c, .nil, hp ▸ .raise e, by simp⟩
  | act f k ih =>
      obtain ⟨x, hx⟩ := hoffers [] c .nil
      have hfirst : Run E c [some i] _ := .concat .nil (.act hp hx)
      obtain ⟨l, d, hrun, hended, hown⟩ :=
        ih x c.shared (fun l d h => hoffers _ _ (hfirst.trans h)) (Function.update_self _ _ _)
      exact ⟨_, d, hfirst.trans hrun, hended, by simpa using hown⟩

end Run

end Interleave

import Mathlib.Tactic.Common

/-!
# Ledgerlock.Interleave.Program

Programs that act on a **shared state** one atomic action at a time, with anybody
else's actions between any two of their own, and rely/guarantee reasoning about one
of them.

* `Prog` — a program: atomic actions, each with an input from outside such as a fresh
  id or a reading of the clock, and then a result or an exception;
* `Env` — what the inputs can be, and what else moves the state;
* `Protocol` — what all parties keep up: an invariant of the shared state, and a
  preorder along which others may move it;
* `Prog.wp` — the weakest precondition of a program under a protocol, with the
  guarantee its own actions are to meet;
* `Prog.Within` — a bound on the actions of a program.

`Ledgerlock.Interleave.Run` runs any number of programs against one state.
-/

namespace Interleave

variable {σ ι ε α β τ : Type}

/-- A program on a shared state of type `σ` with inputs of type `ι`. -/
inductive Prog (σ ι ε : Type) (α : Type) where
  | done (a : α)
  | raise (e : ε)
  /-- One atomic action: on the input `x` the state `s` becomes `f x s`, and the
  program goes on with `x` and `s`. -/
  | act (f : ι → σ → σ) (k : ι → σ → Prog σ ι ε α)

namespace Prog

/-- Run a program, then another on its result. -/
def bind : Prog σ ι ε α → (α → Prog σ ι ε β) → Prog σ ι ε β
  | done a, f => f a
  | raise e, _ => raise e
  | act g k, f => act g fun x s => (k x s).bind f

instance : Monad (Prog σ ι ε) where
  pure := done
  bind := bind

/-- Read the shared state through a query. -/
def read (q : σ → α) : Prog σ ι ε α := act (fun _ s => s) fun _ s => done (q s)

/-- What the program comes to on the state `s` if nobody else acts and its inputs are
all `x`, and the state it leaves. -/
def eval (x : ι) : Prog σ ι ε α → σ → Except ε α × σ
  | done a, s => (.ok a, s)
  | raise e, s => (.error e, s)
  | act f k, s => (k x s).eval x (f x s)

theorem eval_bind (x : ι) (p : Prog σ ι ε α) (f : α → Prog σ ι ε β) (s : σ) :
    (p >>= f).eval x s =
      match p.eval x s with
      | (.ok a, t) => (f a).eval x t
      | (.error e, t) => (.error e, t) := by
  change (p.bind f).eval x s = _
  induction p generalizing s with
  | done a => rfl
  | raise e => rfl
  | act g k ih => exact ih x s (g x s)

@[simp] theorem eval_read (x : ι) (q : σ → α) (s : σ) :
    (read q : Prog σ ι ε α).eval x s = (.ok (q s), s) := rfl

/-- A program that has ended with this result. -/
def ofExcept : Except ε α → Prog σ ι ε α
  | .ok a => done a
  | .error e => raise e

/-- The program has come to an end. -/
inductive Ended : Prog σ ι ε α → Prop
  | done (a : α) : Ended (done a)
  | raise (e : ε) : Ended (raise e)

end Prog

/-- The world around the programs. -/
structure Env (σ ι : Type) where
  /-- The inputs an action may get in a state. -/
  offers : σ → ι → Prop
  moves : σ → σ → Prop

/-- What the parties keep up between them, and the environment with them. -/
structure Protocol (E : Env σ ι) where
  inv : σ → Prop
  /-- What others may do in the meantime. -/
  rely : σ → σ → Prop
  rely_refl : ∀ s, rely s s
  rely_trans : ∀ s t u, rely s t → rely t u → rely s u
  inv_moves : ∀ s t, inv s → E.moves s t → inv t
  rely_moves : ∀ s t, inv s → E.moves s t → rely s t

/-- What is asked of the ends of a program. -/
structure Post (σ ε α : Type) where
  done : α → σ → Prop
  raise : ε → σ → Prop

/-- The same requirements of a first part, whose result is still to be used. -/
def Post.andThen (Q : Post σ ε β) (D : α → σ → Prop) : Post σ ε α where
  done := D
  raise := Q.raise

@[simp] theorem Post.andThen_done (Q : Post σ ε β) (D : α → σ → Prop) :
    (Q.andThen D).done = D := rfl

@[simp] theorem Post.andThen_raise (Q : Post σ ε β) (D : α → σ → Prop) :
    (Q.andThen D).raise = Q.raise := rfl

namespace Prog

variable {E : Env σ ι} {P : Protocol E} {G : σ → σ → Prop} {Q : Post σ ε α} {s t : σ}

/-- The weakest precondition of a program from the state `s`. Before each of its
actions, and after the last of them, the others have moved the state on; each action
keeps the invariant and is one that `G` allows. -/
def wp (P : Protocol E) (G : σ → σ → Prop) (Q : Post σ ε α) : Prog σ ι ε α → σ → Prop
  | done a, s => ∀ t, P.rely s t → P.inv t → Q.done a t
  | raise e, s => ∀ t, P.rely s t → P.inv t → Q.raise e t
  | act f k, s => ∀ t x, P.rely s t → P.inv t → E.offers t x →
      G t (f x t) ∧ P.inv (f x t) ∧ (k x t).wp P G Q (f x t)

/-- What a program asks of a state it asks of every later one. -/
theorem wp_rely {p : Prog σ ι ε α} (h : p.wp P G Q s) (hst : P.rely s t) : p.wp P G Q t := by
  cases p with
  | done a => exact fun u htu => h u (P.rely_trans _ _ _ hst htu)
  | raise e => exact fun u htu => h u (P.rely_trans _ _ _ hst htu)
  | act f k => exact fun u x htu => h u x (P.rely_trans _ _ _ hst htu)

/-- Weaker requirements are easier to establish. -/
theorem wp_mono {p : Prog σ ι ε α} {Q' : Post σ ε α} (h : p.wp P G Q s)
    (hdone : ∀ a t, P.inv t → Q.done a t → Q'.done a t)
    (hraise : ∀ e t, P.inv t → Q.raise e t → Q'.raise e t) : p.wp P G Q' s := by
  induction p generalizing s with
  | done a => exact fun t hst ht => hdone a t ht (h t hst ht)
  | raise e => exact fun t hst ht => hraise e t ht (h t hst ht)
  | act f k ih =>
      intro t x hst ht hx
      obtain ⟨hG, hf, hk⟩ := h t x hst ht hx
      exact ⟨hG, hf, ih x t hk⟩

/-- A program whose own actions are such as the others rely on ends in a state that
comes after its first. -/
theorem wp_frame {p : Prog σ ι ε α} (hG : ∀ s t, P.inv s → G s t → P.rely s t) {r : σ}
    (hr : P.rely r s) (h : p.wp P G Q s) :
    p.wp P G ⟨fun a t => P.rely r t ∧ Q.done a t, fun e t => P.rely r t ∧ Q.raise e t⟩ s := by
  induction p generalizing s with
  | done a => exact fun t hst ht => ⟨P.rely_trans _ _ _ hr hst, h t hst ht⟩
  | raise e => exact fun t hst ht => ⟨P.rely_trans _ _ _ hr hst, h t hst ht⟩
  | act f k ih =>
      intro t x hst ht hx
      obtain ⟨hGt, hf, hk⟩ := h t x hst ht hx
      have hrt := P.rely_trans _ _ _ hr hst
      exact ⟨hGt, hf, ih x t (P.rely_trans _ _ _ hrt (hG _ _ ht hGt)) hk⟩

/-- Sequencing composes preconditions. -/
theorem wp_bind {p : Prog σ ι ε α} {f : α → Prog σ ι ε β} {Q : Post σ ε β} (hs : P.inv s)
    (h : p.wp P G (Q.andThen fun a t => (f a).wp P G Q t) s) : (p >>= f).wp P G Q s := by
  change (p.bind f).wp P G Q s
  induction p generalizing s with
  | done a => exact h s (P.rely_refl s) hs
  | raise e => exact h
  | act g k ih =>
      intro t x hst ht hx
      obtain ⟨hG, hg, hk⟩ := h t x hst ht hx
      exact ⟨hG, hg, ih x t hg hk⟩

/-- A query leaves the state as it finds it. -/
theorem wp_read {q : σ → α} (hG : ∀ t, G t t)
    (h : ∀ t, P.rely s t → P.inv t → ∀ u, P.rely t u → P.inv u → Q.done (q t) u) :
    (read q).wp P G Q s :=
  fun t _ hst ht _ => ⟨hG t, ht, h t hst ht⟩

/-- A loop over a list, with what holds after each part of it. -/
theorem wp_foldlM {body : β → τ → Prog σ ι ε β} {J : List τ → β → σ → Prop}
    {X : ε → σ → Prop} (hstable : ∀ l b s t, P.rely s t → J l b s → J l b t) (xs : List τ)
    (hbody : ∀ x ∈ xs, ∀ l b s, P.inv s → J l b s → (body b x).wp P G ⟨J (l ++ [x]), X⟩ s)
    {l : List τ} {b : β} (hs : P.inv s) (h : J l b s) :
    (xs.foldlM body b).wp P G ⟨J (l ++ xs), X⟩ s := by
  induction xs generalizing l b s with
  | nil =>
      rw [List.append_nil]
      exact fun t hst _ => hstable l b s t hst h
  | cons x xs ih =>
      rw [List.foldlM_cons]
      have hfirst := hbody x List.mem_cons_self l b s hs h
      refine wp_bind hs (wp_mono hfirst (fun b' t ht hb' => ?_) fun _ _ _ he => he)
      have hrest := ih (fun y hy => hbody y (List.mem_cons_of_mem x hy)) ht hb'
      rwa [List.append_assoc, List.singleton_append] at hrest

/-- A loop over a list, with what holds before each part that is left of it. -/
theorem wp_foldlM_left {body : β → τ → Prog σ ι ε β} {J : List τ → β → σ → Prop}
    {X : ε → σ → Prop} (hstable : ∀ l b s t, P.rely s t → J l b s → J l b t)
    (hbody : ∀ x l b s, P.inv s → J (x :: l) b s → (body b x).wp P G ⟨J l, X⟩ s)
    {l : List τ} {b : β} (hs : P.inv s) (h : J l b s) :
    (l.foldlM body b).wp P G ⟨J [], X⟩ s := by
  induction l generalizing b s with
  | nil => exact fun t hst _ => hstable [] b s t hst h
  | cons x l ih =>
      rw [List.foldlM_cons]
      exact wp_bind hs (wp_mono (hbody x l b s hs h) (fun b' t ht hb' => ih ht hb')
        fun _ _ _ he => he)

/-- Every action of the program, with what follows it, is one that `A` allows, and
every result one that `D` does. -/
def Every (A : (ι → σ → σ) → (ι → σ → Prog σ ι ε α) → Prop) (D : α → Prop) :
    Prog σ ι ε α → Prop
  | done a => D a
  | raise _ => True
  | act f k => A f k ∧ ∀ x s, (k x s).Every A D

theorem Every.mono {A B : (ι → σ → σ) → (ι → σ → Prog σ ι ε α) → Prop} {D : α → Prop}
    {p : Prog σ ι ε α} (h : p.Every A D) (hAB : ∀ f k, A f k → B f k) : p.Every B D := by
  induction p with
  | done a => exact h
  | raise e => trivial
  | act f k ih => exact ⟨hAB f k h.1, fun x s => ih x s (h.2 x s)⟩

/-- Of a first part it is asked whatever follows. -/
theorem Every.bind {A : (ι → σ → σ) → (ι → σ → Prog σ ι ε β) → Prop} {D : β → Prop}
    {B : α → Prop} {p : Prog σ ι ε α} {f : α → Prog σ ι ε β}
    (hp : p.Every (fun g _ => ∀ k, A g k) B) (hf : ∀ a, B a → (f a).Every A D) :
    (p >>= f).Every A D := by
  change (p.bind f).Every A D
  induction p with
  | done a => exact hf a hp
  | raise e => trivial
  | act g k ih => exact ⟨hp.1 _, fun x s => ih x s (hp.2 x s)⟩

/-! ### How many actions a program takes -/

/-- The program comes to an end within `n` actions of its own, whatever it sees. -/
def Within : Prog σ ι ε α → Nat → Prop
  | done _, _ => True
  | raise _, _ => True
  | act _ _, 0 => False
  | act _ k, n + 1 => ∀ x s, (k x s).Within n

theorem Within.mono {p : Prog σ ι ε α} {m n : Nat} (h : p.Within m) (hmn : m ≤ n) :
    p.Within n := by
  induction p generalizing m n with
  | done | raise => trivial
  | act f k ih =>
      match m, n, h, hmn with
      | m + 1, n + 1, h, hmn => exact fun x s => ih x s (h x s) (Nat.le_of_succ_le_succ hmn)

theorem Within.bind {p : Prog σ ι ε α} {f : α → Prog σ ι ε β} {m n : Nat} (h : p.Within m)
    (hf : ∀ a, (f a).Within n) : (p >>= f).Within (m + n) := by
  change (p.bind f).Within (m + n)
  induction p generalizing m with
  | done a => exact (hf a).mono (Nat.le_add_left n m)
  | raise e => trivial
  | act g k ih =>
      match m, h with
      | m + 1, h =>
          rw [Nat.succ_add]
          exact fun x s => ih x s (h x s)

theorem Within.foldlM {body : β → τ → Prog σ ι ε β} {n : Nat}
    (hbody : ∀ b x, (body b x).Within n) (xs : List τ) (b : β) :
    (xs.foldlM body b).Within (xs.length * n) := by
  induction xs generalizing b with
  | nil => trivial
  | cons x xs ih =>
      rw [List.foldlM_cons, List.length_cons, Nat.succ_mul, Nat.add_comm]
      exact (hbody b x).bind fun b' => ih b'

end Prog

end Interleave

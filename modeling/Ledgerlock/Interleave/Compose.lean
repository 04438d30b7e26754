import Ledgerlock.Interleave.Run

/-!
# Ledgerlock.Interleave.Compose

Programs on the parts of a larger state, and runs of the whole seen as runs of its parts.

Two environments side by side (`Env.prod`) are acted on by parties that each run a
**guard** on the left part and then, on its result, a **body** on the right one
(`Prog.guarded`). `Run.split` takes a run of such parties apart: it is a run of the guards
and a run of the bodies, and a body has begun only if its guard has ended with a result.
`Run.writers` leaves out of a run the parties that only read.
-/

namespace Interleave

variable {ν σ τ ι κ ε δ α β : Type}

namespace Prog

/-- A program on the part `get` of a larger state, which `put` replaces, with its share of
the input and other names for its results and exceptions. -/
def lift (get : τ → σ) (put : σ → τ → τ) (pick : κ → ι) (f : α → β) (h : ε → δ) :
    Prog σ ι ε α → Prog τ κ δ β
  | done a => done (f a)
  | raise e => raise (h e)
  | act g k => act (fun x t => put (g (pick x) (get t)) t) fun x t =>
      (k (pick x) (get t)).lift get put pick f h

/-- Other names for results and exceptions. -/
def rename (f : α → β) (h : ε → δ) : Prog σ ι ε α → Prog σ ι δ β :=
  lift id (fun s _ => s) id f h

def left (h : ε → δ) : Prog σ ι ε α → Prog (σ × τ) (ι × κ) δ α :=
  lift Prod.fst (fun s t => (s, t.2)) Prod.fst id h

/-- A program on the right, whose result goes with one there is already. -/
def right (a : α) : Prog τ κ δ β → Prog (σ × τ) (ι × κ) δ (α × β) :=
  lift Prod.snd (fun s t => (t.1, s)) Prod.snd (Prod.mk a) id

/-- A guard on the left, and on its result a body on the right. -/
def guarded (h : ε → δ) (g : Prog σ ι ε α) (f : α → Prog τ κ δ β) :
    Prog (σ × τ) (ι × κ) δ (α × β) :=
  g.left h >>= fun a => (f a).right a

/-- The program never changes the state. -/
def ReadOnly (p : Prog σ ι ε α) : Prop :=
  p.Every (fun f _ => ∀ x s, f x s = s) fun _ => True

theorem ReadOnly.read (q : σ → α) : (Prog.read q : Prog σ ι ε α).ReadOnly :=
  ⟨fun _ _ => rfl, fun _ _ => trivial⟩

theorem ReadOnly.ofExcept (r : Except ε α) :
    (Prog.ofExcept r : Prog σ ι ε α).ReadOnly := by
  cases r <;> trivial

theorem ReadOnly.bind {p : Prog σ ι ε α} {f : α → Prog σ ι ε β} (hp : p.ReadOnly)
    (hf : ∀ a, (f a).ReadOnly) : (p >>= f).ReadOnly := by
  change (p.bind f).ReadOnly
  induction p with
  | done a => exact hf a
  | raise e => trivial
  | act g k ih => exact ⟨hp.1, fun x s => ih x s (hp.2 x s)⟩

theorem ReadOnly.lift {get : τ → σ} {put : σ → τ → τ} {pick : κ → ι} {f : α → β} {h : ε → δ}
    {p : Prog σ ι ε α} (hput : ∀ t, put (get t) t = t) (hp : p.ReadOnly) :
    (p.lift get put pick f h).ReadOnly := by
  induction p with
  | done a => trivial
  | raise e => trivial
  | act g k ih =>
      refine ⟨fun x t => ?_, fun x t => ih _ _ (hp.2 _ _)⟩
      show put (g (pick x) (get t)) t = t
      rw [hp.1, hput]

theorem ReadOnly.rename {p : Prog σ ι ε α} {f : α → β} {h : ε → δ} (hp : p.ReadOnly) :
    (p.rename f h).ReadOnly :=
  hp.lift fun _ => rfl

theorem ReadOnly.guarded {h : ε → δ} {g : Prog σ ι ε α} {f : α → Prog τ κ δ β}
    (hg : g.ReadOnly) (hf : ∀ a, (f a).ReadOnly) : (guarded h g f).ReadOnly :=
  (hg.lift fun _ => rfl).bind fun a => (hf a).lift fun _ => rfl

theorem Within.lift {get : τ → σ} {put : σ → τ → τ} {pick : κ → ι} {f : α → β} {h : ε → δ}
    {p : Prog σ ι ε α} {n : Nat} (hp : p.Within n) : (p.lift get put pick f h).Within n := by
  induction p generalizing n with
  | done a => cases n <;> trivial
  | raise e => cases n <;> trivial
  | act g k ih =>
      cases n with
      | zero => exact hp.elim
      | succ n => exact fun x t => ih _ _ (hp _ _)

theorem Within.ofExcept (r : Except ε α) (n : Nat) :
    (Prog.ofExcept r : Prog σ ι ε α).Within n := by
  cases r <;> trivial

theorem Within.guarded {h : ε → δ} {g : Prog σ ι ε α} {f : α → Prog τ κ δ β} {m n : Nat}
    (hg : g.Within m) (hf : ∀ a, (f a).Within n) : (Prog.guarded h g f).Within (m + n) :=
  Within.bind hg.lift fun a => (hf a).lift

/-- What is known of the results is known of them under their other names. -/
theorem Every.rename {p : Prog σ ι ε α} {f : α → β} {h : ε → δ} {A : (ι → σ → σ) → Prop}
    {D : α → Prop} {D' : β → Prop} (hp : p.Every (fun g _ => A g) D) (hD : ∀ a, D a → D' (f a)) :
    (p.rename f h).Every (fun g _ => A g) D' := by
  induction p with
  | done a => exact hD a hp
  | raise e => trivial
  | act g k ih => exact ⟨hp.1, fun x s => ih x s (hp.2 x s)⟩

/-- What is asked of the results of a renamed program is asked of them under their old names. -/
theorem wp_rename {E : Env σ ι} {P : Protocol E} {G : σ → σ → Prop} {Q : Post σ δ β}
    {p : Prog σ ι ε α} {f : α → β} {h : ε → δ} {s : σ}
    (hp : p.wp P G ⟨fun a => Q.done (f a), fun e => Q.raise (h e)⟩ s) :
    (p.rename f h).wp P G Q s := by
  induction p generalizing s with
  | done a => exact hp
  | raise e => exact hp
  | act g k ih =>
      intro t x hst ht hx
      obtain ⟨hG, hinv, hwp⟩ := hp t x hst ht hx
      exact ⟨hG, hinv, ih x t hwp⟩

theorem rename_injective {f : α → β} {h : ε → δ} (hf : Function.Injective f)
    (hh : Function.Injective h) {p p' : Prog σ ι ε α} (heq : p.rename f h = p'.rename f h) :
    p = p' := by
  induction p generalizing p' with
  | done a =>
      cases p' with
      | done a' => rw [hf (Prog.done.inj heq)]
      | raise e' => cases heq
      | act g' k' => cases heq
  | raise e =>
      cases p' with
      | done a' => cases heq
      | raise e' => rw [hh (Prog.raise.inj heq)]
      | act g' k' => cases heq
  | act g k ih =>
      cases p' with
      | done a' => cases heq
      | raise e' => cases heq
      | act g' k' =>
          obtain ⟨hg, hk⟩ := Prog.act.inj heq
          obtain rfl : g = g' := hg
          congr 1
          funext x s
          exact ih x s (congrFun (congrFun hk x) s)

theorem rename_eq_done {p : Prog σ ι ε α} {f : α → β} {h : ε → δ} {b : β}
    (hp : p.rename f h = .done b) : ∃ a, p = .done a ∧ f a = b := by
  cases p with
  | done a => exact ⟨a, rfl, Prog.done.inj hp⟩
  | raise e => cases hp
  | act g k => cases hp

theorem rename_eq_raise {p : Prog σ ι ε α} {f : α → β} {h : ε → δ} {e : δ}
    (hp : p.rename f h = .raise e) : ∃ e', p = .raise e' ∧ h e' = e := by
  cases p with
  | done a => cases hp
  | raise e' => exact ⟨e', rfl, Prog.raise.inj hp⟩
  | act g k => cases hp

theorem rename_eq_act {p : Prog σ ι ε α} {f : α → β} {h : ε → δ} {g : ι → σ → σ}
    {k : ι → σ → Prog σ ι δ β} (hp : p.rename f h = .act g k) :
    ∃ k', p = .act g k' ∧ ∀ x s, k x s = (k' x s).rename f h := by
  cases p with
  | done a => cases hp
  | raise e => cases hp
  | act g' k' =>
      obtain ⟨rfl, rfl⟩ := Prog.act.inj hp
      exact ⟨k', rfl, fun _ _ => rfl⟩

end Prog

/-- Two environments side by side, each with inputs of its own. -/
def Env.prod (E : Env σ ι) (F : Env τ κ) : Env (σ × τ) (ι × κ) where
  offers s x := E.offers s.1 x.1 ∧ F.offers s.2 x.2
  moves s t := E.moves s.1 t.1 ∧ t.2 = s.2 ∨ F.moves s.2 t.2 ∧ t.1 = s.1

/-! ### A guard and then a body -/

/-- Where a party is: turned away at the start for `r`, at its guard, or, since the guard
has ended with a result, at the body `b`. The indices are what is left of guard and body,
and of the whole. -/
inductive Stage (r : Option δ) (h : ε → δ) (f : α → Prog τ κ δ β) (b : Prog τ κ δ β) :
    Prog σ ι ε α → Prog τ κ δ β → Prog (σ × τ) (ι × κ) δ (α × β) → Prop
  | refused {e : δ} (g : Prog σ ι ε α) : r = some e → Stage r h f b g b (.raise e)
  | guarding (g : Prog σ ι ε α) : r = none → Stage r h f b g b (.guarded h g f)
  | admitted (a : α) (q : Prog τ κ δ β) : r = none → Stage r h f b (.done a) q (q.right a)

section Split

variable {r : Option δ} {h : ε → δ} {f : α → Prog τ κ δ β} {b q : Prog τ κ δ β}
  {g : Prog σ ι ε α}

/-- A party at work is at an action of its guard or at one of its body. -/
theorem Stage.of_act {F : ι × κ → σ × τ → σ × τ}
    {K : ι × κ → σ × τ → Prog (σ × τ) (ι × κ) δ (α × β)}
    (hstage : Stage r h f b g q (.act F K))
    (hresult : g.Every (fun _ _ => True) fun a => f a = b) :
    (∃ g' k, g = .act g' k ∧ (∀ x s, F x s = (g' x.1 s.1, s.2)) ∧
      ∀ x s, Stage r h f b (k x.1 s.1) q (K x s)) ∨
    ∃ q' k, q = .act q' k ∧ (∀ x s, F x s = (s.1, q' x.2 s.2)) ∧
      ∀ x s, Stage r h f b g (k x.2 s.2) (K x s) := by
  have hright {a : α} {q : Prog τ κ δ β} (hr : r = none) (hq : q.right a = Prog.act F K) :
      ∃ q' k, q = .act q' k ∧ (∀ x s, F x s = (s.1, q' x.2 s.2)) ∧
        ∀ x s, Stage r h f b (.done a : Prog σ ι ε α) (k x.2 s.2) (K x s) := by
    cases q with
    | done b => cases hq
    | raise e => cases hq
    | act q' k =>
        obtain ⟨rfl, rfl⟩ := Prog.act.inj hq
        exact ⟨q', k, rfl, fun _ _ => rfl, fun x s => .admitted a _ hr⟩
  generalize hp : Prog.act F K = p at hstage
  cases hstage with
  | refused => cases hp
  | guarding _ hr =>
      cases g with
      | done a =>
          -- the guard has ended, and the body is about to begin
          obtain rfl : f a = b := hresult
          exact .inr (hright hr hp.symm)
      | raise e => cases hp
      | act g' k =>
          obtain ⟨rfl, rfl⟩ := Prog.act.inj hp
          exact .inl ⟨g', k, rfl, fun _ _ => rfl, fun x s => .guarding _ hr⟩
  | admitted a _ hr => exact .inr (hright hr hp.symm)

/-- A body that has moved on has had its guard end with a result. -/
theorem Stage.admitted_of_ne {p : Prog (σ × τ) (ι × κ) δ (α × β)}
    (hstage : Stage r h f b g q p) (hq : q ≠ b) : r = none ∧ ∃ a, g = .done a ∧ p = q.right a := by
  cases hstage with
  | refused | guarding => exact absurd rfl hq
  | admitted a _ hr => exact ⟨hr, a, rfl, rfl⟩

/-- A party that has ended with a result has had its guard and its body end with it. -/
theorem Stage.of_done {a : α} {y : β} (hstage : Stage r h f b g q (.done (a, y)))
    (hresult : g.Every (fun _ _ => True) fun a => f a = b) :
    r = none ∧ g = .done a ∧ q = .done y := by
  have hright {a' : α} {q : Prog τ κ δ β}
      (hq : (q.right a' : Prog (σ × τ) (ι × κ) δ (α × β)) = .done (a, y)) :
      a' = a ∧ q = .done y := by
    cases q with
    | done y' =>
        obtain ⟨rfl, rfl⟩ := Prod.mk.inj (Prog.done.inj hq)
        exact ⟨rfl, rfl⟩
    | raise e => cases hq
    | act q' k => cases hq
  generalize hp : Prog.done (a, y) = p at hstage
  cases hstage with
  | refused => cases hp
  | guarding _ hr =>
      cases g with
      | done a' =>
          obtain rfl : f a' = b := hresult
          obtain ⟨rfl, hq⟩ := hright hp.symm
          exact ⟨hr, rfl, hq⟩
      | raise e => cases hp
      | act g' k => cases hp
  | admitted a' _ hr =>
      obtain ⟨rfl, hq⟩ := hright hp.symm
      exact ⟨hr, rfl, hq⟩

/-- A party that has ended with an exception was turned away, or has it from its guard or
from its body. -/
theorem Stage.of_raise {e : δ} (hstage : Stage r h f b g q (.raise e))
    (hresult : g.Every (fun _ _ => True) fun a => f a = b) :
    r = some e ∨ r = none ∧
      ((∃ e', g = .raise e' ∧ h e' = e) ∨ (∃ a, g = .done a) ∧ q = .raise e) := by
  have hright {a' : α} {q : Prog τ κ δ β}
      (hq : (q.right a' : Prog (σ × τ) (ι × κ) δ (α × β)) = .raise e) : q = .raise e := by
    cases q with
    | done y => cases hq
    | raise e' =>
        obtain rfl := Prog.raise.inj hq
        rfl
    | act q' k => cases hq
  generalize hp : Prog.raise e = p at hstage
  cases hstage with
  | refused _ hr =>
      obtain rfl := Prog.raise.inj hp
      exact .inl hr
  | guarding _ hr =>
      refine .inr ⟨hr, ?_⟩
      cases g with
      | done a' =>
          obtain rfl : f a' = b := hresult
          exact .inr ⟨⟨a', rfl⟩, hright hp.symm⟩
      | raise e' => exact .inl ⟨e', rfl, (Prog.raise.inj hp).symm⟩
      | act g' k => cases hp
  | admitted a' _ hr => exact .inr ⟨hr, .inr ⟨⟨a', rfl⟩, hright hp.symm⟩⟩

/-- The parties of `c` are at their guards in `c₁` and at their bodies `b` in `c₂`. -/
structure Config.Splits (r : ν → Option δ) (h : ε → δ) (f : ν → α → Prog τ κ δ β)
    (b : ν → Prog τ κ δ β) (c : Config ν (σ × τ) (ι × κ) δ (α × β)) (c₁ : Config ν σ ι ε α)
    (c₂ : Config ν τ κ δ β) : Prop where
  shared : c.shared = (c₁.shared, c₂.shared)
  stage : ∀ i, Stage (r i) h (f i) (b i) (c₁.prog i) (c₂.prog i) (c.prog i)
  result : ∀ i, (c₁.prog i).Every (fun _ _ => True) fun a => f i a = b i

end Split

section Run

variable [DecidableEq ν] {E : Env σ ι} {F : Env τ κ} {l : List (Option ν)}

/-- What holds of each party's parts holds when one party has moved on. -/
theorem update_rel {P : ν → α → β → Prop} {p : ν → α} {q : ν → β} (hall : ∀ j, P j (p j) (q j))
    {i : ν} {x : α} {y : β} (hi : P i x y) (j : ν) :
    P j (Function.update p i x j) (Function.update q i y j) := by
  by_cases hj : j = i
  · subst hj
    rwa [Function.update_self, Function.update_self]
  · rw [Function.update_of_ne hj, Function.update_of_ne hj]
    exact hall j

/-- A run of guarded parties is a run of the guards and a run of the bodies. -/
theorem Run.split {r : ν → Option δ} {h : ε → δ} {f : ν → α → Prog τ κ δ β} {b : ν → Prog τ κ δ β}
    {c d : Config ν (σ × τ) (ι × κ) δ (α × β)} {c₁ : Config ν σ ι ε α} {c₂ : Config ν τ κ δ β}
    (hrun : Run (E.prod F) c l d) (hc : c.Splits r h f b c₁ c₂) :
    ∃ l₁ d₁ l₂ d₂, Run E c₁ l₁ d₁ ∧ Run F c₂ l₂ d₂ ∧ d.Splits r h f b d₁ d₂ ∧
      ∀ i, some i ∉ l → some i ∉ l₁ ∧ some i ∉ l₂ := by
  induction hrun with
  | nil => exact ⟨[], c₁, [], c₂, .nil, .nil, hc, fun _ _ => ⟨List.not_mem_nil, List.not_mem_nil⟩⟩
  | @concat l d d' m _ hstep ih =>
      obtain ⟨l₁, d₁, l₂, d₂, hrun₁, hrun₂, ⟨hd, hstages, hresults⟩, hidle⟩ := ih
      have hidle' {i : ν} (hi : some i ∉ l ++ [m]) : (some i ∉ l₁ ∧ some i ∉ l₂) ∧ some i ≠ m := by
        rw [List.mem_append, List.mem_singleton, not_or] at hi
        exact ⟨hidle i hi.1, hi.2⟩
      have hconcat {l' : List (Option ν)} {i : ν} {m' : Option ν} (hl : some i ∉ l')
          (hm : some i ≠ m') : some i ∉ l' ++ [m'] := by
        rw [List.mem_append, List.mem_singleton, not_or]
        exact ⟨hl, hm⟩
      cases hstep with
      | @act _ i G K x hp hx =>
          obtain ⟨hx₁, hx₂⟩ := hx
          have hstage := hstages i
          rw [hp] at hstage
          rw [hd] at hx₁ hx₂ ⊢
          rcases hstage.of_act (hresults i) with ⟨g, k, hg, hG, hK⟩ | ⟨q, k, hq, hG, hK⟩
          · have hstep₁ : Step E (some i) d₁ _ := .act hg hx₁
            refine ⟨_, _, l₂, d₂, hrun₁.concat hstep₁, hrun₂, ⟨hG _ _, ?_, fun j => ?_⟩,
              fun j hj => ⟨hconcat (hidle' hj).1.1 (hidle' hj).2, (hidle' hj).1.2⟩⟩
            · exact update_rel (P := fun j g p => Stage (r j) h (f j) (b j) g (d₂.prog j) p)
                hstages (hK x (d₁.shared, d₂.shared))
            · exact (Run.nil.concat hstep₁).every (hresults j)
          · refine ⟨l₁, d₁, _, _, hrun₁, hrun₂.concat (.act hq hx₂), ⟨hG _ _, ?_, hresults⟩,
              fun j hj => ⟨(hidle' hj).1.1, hconcat (hidle' hj).1.2 (hidle' hj).2⟩⟩
            exact update_rel (P := fun j q p => Stage (r j) h (f j) (b j) (d₁.prog j) q p)
              hstages (hK x (d₁.shared, d₂.shared))
      | @env _ s hm =>
          rcases hm with ⟨hm, hkeep⟩ | ⟨hm, hkeep⟩ <;> rw [hd] at hm hkeep
          · exact ⟨_, _, l₂, d₂, hrun₁.concat (.env hm), hrun₂,
              ⟨Prod.ext rfl hkeep, hstages, hresults⟩,
              fun j hj => ⟨hconcat (hidle' hj).1.1 (hidle' hj).2, (hidle' hj).1.2⟩⟩
          · exact ⟨l₁, d₁, _, _, hrun₁, hrun₂.concat (.env hm),
              ⟨Prod.ext hkeep rfl, hstages, hresults⟩,
              fun j hj => ⟨(hidle' hj).1.1, hconcat (hidle' hj).1.2 (hidle' hj).2⟩⟩

/-- Forward simulation: what programs do on a part `e s` of a larger state, the programs
that `R` relates to them can do too. -/
theorem Run.simulate {F : Env τ κ} {e : σ → τ}
    {R : ν → Prog σ ι ε α → Prog τ κ δ β → Prop}
    (hact : ∀ i f k p, R i (.act f k) p → ∃ f' k', p = .act f' k' ∧ ∀ s x, E.offers s x →
      ∃ y, F.offers (e s) y ∧ f' y (e s) = e (f x s) ∧ R i (k x s) (k' y (e s)))
    (hmoves : ∀ s t, E.moves s t → F.moves (e s) (e t))
    {c d : Config ν σ ι ε α} {b : Config ν τ κ δ β} (hrun : Run E c l d)
    (hshared : b.shared = e c.shared) (hprog : ∀ i, some i ∈ l → R i (c.prog i) (b.prog i)) :
    ∃ d', Run F b l d' ∧ d'.shared = e d.shared ∧
      (∀ i, some i ∈ l → R i (d.prog i) (d'.prog i)) ∧
      ∀ i, some i ∉ l → d'.prog i = b.prog i := by
  induction hrun with
  | nil => exact ⟨b, .nil, hshared, hprog, fun _ _ => rfl⟩
  | @concat l d e m hrun hstep ih =>
      obtain ⟨d', hrun', hd, hrel, hsame⟩ := ih fun i hi => hprog i (List.mem_append_left _ hi)
      -- the parties of the steps so far, and the one of the next
      have hrel' {i : ν} (hi : some i ∈ l ++ [m]) : R i (d.prog i) (d'.prog i) := by
        by_cases hl : some i ∈ l
        · exact hrel i hl
        · rw [hrun.prog_of_notMem hl, hsame i hl]
          exact hprog i hi
      cases hstep with
      | @act _ i f k x hp hx =>
          have hi := hrel' (i := i) (List.mem_append_right _ (List.mem_singleton_self _))
          rw [hp] at hi
          obtain ⟨f', k', hp', hsim⟩ := hact i f k _ hi
          obtain ⟨y, hy, hf, hk⟩ := hsim d.shared x hx
          rw [← hd] at hy hf hk
          refine ⟨_, hrun'.concat (.act hp' hy), hf, fun j hj => ?_, fun j hj => ?_⟩
          · exact update_rel (P := fun j p p' => some j ∈ l ++ [some i] → R j p p')
              (fun j hj => hrel' hj) (fun _ => hk) j hj
          · rw [List.mem_append, List.mem_singleton, not_or] at hj
            show Function.update d'.prog i _ j = _
            rw [Function.update_of_ne fun hji => hj.2 (congrArg some hji)]
            exact hsame j hj.1
      | @env _ s hm =>
          refine ⟨_, hrun'.concat (.env (hd ▸ hmoves _ _ hm)), rfl, fun j hj => hrel' hj,
            fun j hj => hsame j fun hl => hj (List.mem_append_left _ hl)⟩

/-- What the parties do that do not only read, they do without the others. -/
theorem Run.writers {c d : Config ν σ ι δ β} {b : Config ν σ ι ε α} {f : α → β} {h : ε → δ}
    {readers : Set ν} (hrun : Run E c l d) (hshared : b.shared = c.shared)
    (hreaders : ∀ i ∈ readers, (c.prog i).ReadOnly)
    (hwriters : ∀ i ∉ readers, c.prog i = (b.prog i).rename f h) :
    ∃ l' d', Run E b l' d' ∧ d'.shared = d.shared ∧
      (∀ i ∈ readers, d'.prog i = b.prog i) ∧
      ∀ i ∉ readers, d.prog i = (d'.prog i).rename f h := by
  induction hrun with
  | nil => exact ⟨[], b, .nil, hshared, fun _ _ => rfl, hwriters⟩
  | @concat l d d' m hrun hstep ih =>
      obtain ⟨l', e, hrun', hd, hread, hwrite⟩ := ih
      cases hstep with
      | @act _ i g k x hp hx =>
          by_cases hi : i ∈ readers
          · have hkeep : g x d.shared = d.shared := by
              have hevery := hrun.every (hreaders i hi)
              rw [hp] at hevery
              exact hevery.1 x d.shared
            refine ⟨l', e, hrun', hd.trans hkeep.symm, hread, fun j hj => ?_⟩
            show Function.update d.prog i _ j = _
            rw [Function.update_of_ne (ne_of_mem_of_not_mem hi hj).symm]
            exact hwrite j hj
          · have hrename := hwrite i hi
            rw [hp] at hrename
            obtain ⟨k', hk', hk⟩ := Prog.rename_eq_act hrename.symm
            have hshared' : g x e.shared = g x d.shared := congrArg (g x) hd
            refine ⟨_, _, hrun'.concat (.act hk' (hd ▸ hx)), hshared', fun j hj => ?_, ?_⟩
            · show Function.update e.prog i _ j = _
              rw [Function.update_of_ne (ne_of_mem_of_not_mem hj hi)]
              exact hread j hj
            · refine update_rel (P := fun j p (q : Prog σ ι ε α) => j ∉ readers → p = q.rename f h)
                hwrite fun _ => ?_
              rw [hk, hd]
      | @env _ s hm =>
          exact ⟨_, _, hrun'.concat (.env (hd ▸ hm)), rfl, hread, hwrite⟩

end Run

end Interleave

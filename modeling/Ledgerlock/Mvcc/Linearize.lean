import Ledgerlock.Mvcc.Outcome
import Mathlib.Data.List.Basic
import Mathlib.Data.List.Sublists

/-!
# Ledgerlock.Mvcc.Linearize

The calls of a run, put in **one order** that explains all of their answers.

A success takes effect at its commit, and a rejection at the committed state that
explains it, which lies within the call's own lifetime. Give the commit at
position `k` of the log the label `2 * k + 1` and a rejection explained by the
first `k` commits the label `2 * k` (`Labelled`): sorting the calls by label, in
the order of their returns where labels agree, is an order that respects real
time and runs through the log from left to right (`Reachable.exists_linearization`).

This wants every commit to be a call's that returned: nothing is written outside
a transaction and no acknowledgement is lost.
-/

namespace Mvcc

variable {ν σ ω κ ι ε α : Type} [DocStore ω σ κ ι]

/-! ### Returns -/

/-- The call that returns. -/
def Event.returner : Event ν → Option ν
  | .invoked _ => none
  | .returned i => some i

@[simp] theorem Event.returner_invoked (i : ν) : (Event.invoked i).returner = none := rfl

@[simp] theorem Event.returner_returned (i : ν) : (Event.returned i).returner = some i := rfl

/-- The calls that have returned, in order. -/
def State.returns (st : State ν σ ω ι ε α) : List ν := st.trace.filterMap Event.returner

/-- `i` had returned when `j` was invoked. -/
def State.Precedes (st : State ν σ ω ι ε α) (i j : ν) : Prop :=
  [Event.returned i, Event.invoked j].Sublist st.trace

/-- A pair of a longer list lies in its first part, in its second, or across. -/
theorem pair_sublist_append {β : Type} {a b : β} {l m : List β}
    (h : [a, b].Sublist (l ++ m)) :
    [a, b].Sublist l ∨ (a ∈ l ∧ b ∈ m) ∨ [a, b].Sublist m := by
  obtain ⟨l₁, l₂, hsplit, h₁, h₂⟩ := List.sublist_append_iff.mp h
  rcases l₁ with _ | ⟨x, _ | ⟨y, l₁⟩⟩
  · obtain rfl : [a, b] = l₂ := hsplit
    exact .inr (.inr h₂)
  · obtain ⟨rfl, rfl⟩ : a = x ∧ [b] = l₂ := by simpa using hsplit
    exact .inr (.inl ⟨List.singleton_sublist.mp h₁, List.singleton_sublist.mp h₂⟩)
  · obtain ⟨rfl, rfl, rfl, rfl⟩ : a = x ∧ b = y ∧ l₁ = [] ∧ l₂ = [] := by simpa using hsplit
    exact .inl h₁

/-- A call that has ended does not move. -/
theorem Move.not_returned {S : System ν σ ω ι ε α} {st : State ν σ ω ι ε α} {i : ν}
    {issued : Set ι} {p : Phase σ ω ι ε α} (h : Move S st i issued p) :
    ∀ n r, st.phase i ≠ .returned n r := by
  intro n r hphase
  cases h with
  | invoke hp | refuse hp | begin hp | read hp | write hp | newId hp | now _ hp | raise hp
  | duplicate hp | invalid hp | conflict hp | fault _ hp =>
      rw [hphase] at hp
      cases hp

/-- The return that entering a phase is. -/
def Phase.returns (i : ν) : Phase σ ω ι ε α → List ν
  | .returned _ _ => [i]
  | _ => []

theorem Phase.returner_events {i : ν} {q p : Phase σ ω ι ε α} (hq : ∀ n r, q ≠ .returned n r) :
    (Phase.events i q p).filterMap Event.returner = p.returns i := by
  cases q with
  | returned n r => exact absurd rfl (hq n r)
  | _ => cases p <;> rfl

theorem Phase.mem_returns {i j : ν} {p : Phase σ ω ι ε α} :
    j ∈ p.returns i ↔ j = i ∧ ∃ n r, p = .returned n r := by
  cases p <;> simp [Phase.returns]

theorem Phase.invoked_mem_events {i j : ν} {q p : Phase σ ω ι ε α}
    (h : .invoked j ∈ Phase.events i q p) : j = i ∧ q = .idle := by
  cases q <;> cases p <;> simp_all [Phase.events]

/-- No step is a return and then a call. -/
theorem Phase.not_sublist_events {i j k : ν} {q p : Phase σ ω ι ε α} :
    ¬ [Event.returned j, Event.invoked k].Sublist (Phase.events i q p) := by
  intro h
  cases q <;> cases p
  case idle.returned =>
    have heq := h.eq_of_length rfl
    cases heq
  all_goals exact absurd h.length_le (by simp [Phase.events])

/-- What an observer sees agrees with the phases the calls are in. -/
structure Traced (st : State ν σ ω ι ε α) : Prop where
  returned : ∀ i, i ∈ st.returns ↔ ∃ n r, st.phase i = .returned n r
  nodup : st.returns.Nodup
  /-- A call returns after it is invoked. -/
  ordered : ∀ i j, st.Precedes i j → j ∈ st.returns → [i, j].Sublist st.returns

section Traced

variable {S : System ν σ ω ι ε α} {st st' : State ν σ ω ι ε α}

/-- Nothing that happens later comes before a call that has begun. -/
theorem State.Precedes.of_enter {i j k : ν} {q p : Phase σ ω ι ε α}
    (h : st'.Precedes j k) (htrace : st'.trace = st.trace ++ Phase.events i q p)
    (hk : k = i → q ≠ .idle) : st.Precedes j k := by
  rw [State.Precedes, htrace] at h
  rcases pair_sublist_append h with h | ⟨-, h⟩ | h
  · exact h
  · obtain ⟨hki, hq⟩ := Phase.invoked_mem_events h
    exact absurd hq (hk hki)
  · exact absurd h Phase.not_sublist_events

theorem Traced.returned_of_precedes (h : Traced st) {i j : ν} (hij : st.Precedes i j) :
    ∃ n r, st.phase i = .returned n r :=
  (h.returned i).mp (List.mem_filterMap.mpr ⟨_, hij.subset List.mem_cons_self, rfl⟩)

variable [DecidableEq ν]

/-- A call enters a new phase. -/
theorem Traced.enter {i : ν} {p : Phase σ ω ι ε α} (h : Traced st)
    (hq : ∀ n r, st.phase i ≠ .returned n r)
    (htrace : st'.trace = st.trace ++ Phase.events i (st.phase i) p)
    (hphase : st'.phase = Function.update st.phase i p) : Traced st' := by
  have hreturns : st'.returns = st.returns ++ p.returns i := by
    rw [State.returns, htrace, List.filterMap_append, Phase.returner_events hq]
    rfl
  have hi : i ∉ st.returns := by
    intro hi
    obtain ⟨n, r, hr⟩ := (h.returned i).mp hi
    exact hq n r hr
  refine ⟨fun j => ?_, ?_, fun j k hjk hk => ?_⟩
  · rw [hreturns, List.mem_append, Phase.mem_returns, hphase]
    by_cases hj : j = i
    · subst hj
      simp [hi]
    · simp [hj, h.returned j]
  · rw [hreturns]
    refine List.Nodup.append h.nodup ?_ fun j hj hj' => ?_
    · cases p <;> simp [Phase.returns]
    · obtain ⟨rfl, -⟩ := Phase.mem_returns.mp hj'
      exact hi hj
  · rw [State.Precedes, htrace] at hjk
    rw [hreturns] at hk ⊢
    -- the earlier call returned before this step
    have hreturned : .returned j ∈ st.trace := by
      rcases pair_sublist_append hjk with h | ⟨h, -⟩ | h
      · exact h.subset List.mem_cons_self
      · exact h
      · exact absurd h Phase.not_sublist_events
    have hj : j ∈ st.returns := List.mem_filterMap.mpr ⟨_, hreturned, rfl⟩
    rcases List.mem_append.mp hk with hk | hk
    · refine (h.ordered j k ?_ hk).trans (List.sublist_append_left _ _)
      rcases pair_sublist_append hjk with h | ⟨-, h⟩ | h
      · exact h
      · exact absurd ((Phase.invoked_mem_events h).1 ▸ hk) hi
      · exact absurd h Phase.not_sublist_events
    · exact (List.singleton_sublist.mpr hj).append (List.singleton_sublist.mpr hk)

theorem Traced.step (h : Traced st) (hstep : Step S st st') : Traced st' := by
  cases hstep with
  | move hm => exact h.enter hm.not_returned rfl rfl
  | commit hp | commitLost _ hp =>
      refine h.enter (fun n r hr => ?_) rfl rfl
      rw [hr] at hp
      cases hp
  | direct => exact ⟨h.returned, h.nodup, h.ordered⟩

theorem Reachable.traced (h : Reachable S st) : Traced st := by
  induction h with
  | refl => exact ⟨by simp [State.returns, System.start], by simp [State.returns, System.start],
      by simp [State.returns, System.start]⟩
  | tail _ hstep ih => exact ih.step hstep

end Traced

/-! ### Labels -/

/-- Is the answer a success or a rejection, and not a failure that the call could
have been spared? -/
def decided : Except (Failure ε) α → Bool
  | .ok _ | .error (.raised _) | .error .duplicateKey => true
  | .error .transient | .error .driver => false

/-- The answer took effect at this place in the log. -/
inductive Explained (S : System ν σ ω ι ε α) (log : List (Commit ν ω ι)) (i : ν) :
    Except (Failure ε) α → Nat → Prop
  | commit {k : Nat} {c : Commit ν ω ι} {r : α} : log[k]? = some c → c.author = some i →
      Explained S log i (.ok r) (2 * k + 1)
  | reject {k : Nat} {f : Failure ε} : k ≤ log.length → RejectedAt S (log.take k) i f →
      Explained S log i (.error f) (2 * k)

theorem Explained.le {S : System ν σ ω ι ε α} {log : List (Commit ν ω ι)} {i : ν}
    {r : Except (Failure ε) α} {label : Nat} (h : Explained S log i r label) :
    label ≤ 2 * log.length := by
  cases h with
  | commit hc =>
      obtain ⟨hlt, -⟩ := List.getElem?_eq_some_iff.mp hc
      omega
  | reject hk => omega

theorem Explained.append {S : System ν σ ω ι ε α} {log : List (Commit ν ω ι)} {i : ν}
    {r : Except (Failure ε) α} {label : Nat} (h : Explained S log i r label)
    (c : Commit ν ω ι) : Explained S (log ++ [c]) i r label := by
  cases h with
  | commit hc hauthor =>
      obtain ⟨hlt, -⟩ := List.getElem?_eq_some_iff.mp hc
      exact .commit (by rwa [List.getElem?_append_left hlt]) hauthor
  | reject hk hrej =>
      refine .reject (hk.trans (by simp)) ?_
      rwa [List.take_append_of_le_length hk]

/-- Commits have odd labels. -/
theorem Explained.of_odd {S : System ν σ ω ι ε α} {log : List (Commit ν ω ι)} {i : ν}
    {r : Except (Failure ε) α} {label k : Nat} (h : Explained S log i r label)
    (hlabel : label = 2 * k + 1) :
    ∃ c a, r = .ok a ∧ log[k]? = some c ∧ c.author = some i := by
  cases h with
  | @commit k' c a hc hauthor =>
      obtain rfl : k' = k := by omega
      exact ⟨c, a, rfl, hc, hauthor⟩
  | reject => omega

/-- Rejections have even labels. -/
theorem Explained.of_even {S : System ν σ ω ι ε α} {log : List (Commit ν ω ι)} {i : ν}
    {r : Except (Failure ε) α} {label k : Nat} (h : Explained S log i r label)
    (hlabel : label = 2 * k) : ∃ f, r = .error f ∧ RejectedAt S (log.take k) i f := by
  cases h with
  | commit => omega
  | @reject k' f _ hrej =>
      obtain rfl : k' = k := by omega
      exact ⟨f, rfl, hrej⟩

/-- Call `i` has ended with a success or a rejection. -/
def State.Decided (st : State ν σ ω ι ε α) (i : ν) : Prop :=
  ∃ n r, st.phase i = .returned n r ∧ decided r = true

/-- Labels for the calls of a run, and how long the log was when each was
invoked. -/
structure Labelled (S : System ν σ ω ι ε α) (st : State ν σ ω ι ε α) (since label : ν → Nat) :
    Prop where
  accounted : ∀ i, Accounted S (since i) st i
  explained : ∀ i n r, st.phase i = .returned n r → decided r = true →
    Explained S st.log i r (label i) ∧ 2 * since i ≤ label i
  realtime : ∀ i j, st.Precedes i j → st.Decided i → label i ≤ 2 * since j
  authored : ∀ k c, st.log[k]? = some c → ∃ i n r, c.author = some i ∧
    st.phase i = .returned n (.ok r) ∧ label i = 2 * k + 1

section Labels

variable {S : System ν σ ω ι ε α} {st st' : State ν σ ω ι ε α} {since label : ν → Nat}

theorem Labelled.label_le (h : Labelled S st since label) {i : ν} (hi : st.Decided i) :
    label i ≤ 2 * st.log.length := by
  obtain ⟨n, r, hphase, hdecided⟩ := hi
  exact (h.explained i n r hphase hdecided).1.le

/-- A move is no success. -/
theorem Move.ne_ok {i : ν} {issued : Set ι} {n : Nat} {r : α} :
    ¬ Move S st i issued (.returned n (.ok r)) := by
  intro h
  cases h with
  | conflict _ _ _ hq =>
      obtain ⟨-, hq⟩ := hq.returned
      cases hq
  | fault _ _ hq =>
      rcases hq with hq | hq
      · obtain ⟨-, hq⟩ := hq.returned
        cases hq
      · cases hq

/-- A call that ends in a move gets the label of the state that rejects it. -/
theorem Move.explained {i : ν} {issued : Set ι} {m n : Nat} {r : Except (Failure ε) α}
    (hst : Sound S st) (hacc : Accounted S m st i) (h : Move S st i issued (.returned n r))
    (hr : decided r = true) : ∃ label, Explained S st.log i r label ∧ 2 * m ≤ label := by
  cases h.answered hst hacc with
  | committed => exact absurd h Move.ne_ok
  | @rejected k f hm hk hrej => exact ⟨2 * k, .reject hk hrej, by omega⟩
  | conflict | invalid => cases hr
  | fault _ hf => rcases hf with rfl | rfl <;> cases hr
  | lost _ _ _ _ _ _ hf => rcases hf with rfl | rfl <;> cases hr

variable [DecidableEq ν]

theorem Labelled.start (S : System ν σ ω ι ε α) : Labelled S S.start (fun _ => 0) (fun _ => 0) where
  accounted := fun i => Reachable.accounted (.refl _) i
  explained := by simp [System.start]
  realtime := by simp
  authored := by simp [System.start]

/-- The bound that a call's move leaves it with: what was committed when the call
was invoked, if that is now, and what it was before. -/
theorem Labelled.exists_since (hst : Sound S st) (h : Labelled S st since label) (i : ν)
    (issued : Set ι) (p : Phase σ ω ι ε α) :
    ∃ m, Accounted S m st i ∧
      ∀ j, (st.moveTo i issued p).Precedes j i → st.Decided j → label j ≤ 2 * m := by
  by_cases hidle : st.phase i = .idle
  · exact ⟨st.log.length, Steps.accounted hst (.inl hidle) (.refl st),
      fun j _ hj => h.label_le hj⟩
  · refine ⟨since i, h.accounted i, fun j hji hj => h.realtime j i ?_ hj⟩
    exact hji.of_enter rfl fun _ => hidle

theorem Labelled.move {i : ν} {issued : Set ι} {p : Phase σ ω ι ε α} (hst : Sound S st)
    (htraced : Traced st) (h : Labelled S st since label) (hm : Move S st i issued p) :
    ∃ since' label', Labelled S (st.moveTo i issued p) since' label' := by
  obtain ⟨m, hacc, hearlier⟩ := h.exists_since hst i issued p
  obtain ⟨l, hl⟩ : ∃ l, ∀ n r, p = .returned n r → decided r = true →
      Explained S st.log i r l ∧ 2 * m ≤ l := by
    by_cases hp : ∃ n r, p = .returned n r ∧ decided r = true
    · obtain ⟨n, r, rfl, hr⟩ := hp
      obtain ⟨l, hl⟩ := hm.explained hst hacc hr
      refine ⟨l, fun n' r' hreturned _ => ?_⟩
      cases hreturned
      exact hl
    · exact ⟨0, fun n r hreturned hr => absurd ⟨n, r, hreturned, hr⟩ hp⟩
  have hself : (st.moveTo i issued p).phase i = p := by simp [State.moveTo]
  have hother : ∀ j, j ≠ i → (st.moveTo i issued p).phase j = st.phase j := by
    intro j hj
    simp [State.moveTo, hj]
  have hended : ∀ j n r, st.phase j = .returned n r → j ≠ i := by
    intro j n r hj heq
    subst heq
    exact hm.not_returned n r hj
  have htraced' : Traced (st.moveTo i issued p) := htraced.enter hm.not_returned rfl rfl
  refine ⟨Function.update since i m, Function.update label i l, fun j => ?_, fun j n r hj hr => ?_,
    fun j k hjk hj => ?_, fun k c hc => ?_⟩
  · by_cases hji : j = i
    · subst hji
      rw [Function.update_self]
      exact hacc.move hst hm
    · rw [Function.update_of_ne hji]
      exact (h.accounted j).move hst hm
  · by_cases hji : j = i
    · subst hji
      simp only [Function.update_self]
      exact hl n r (hself.symm.trans hj) hr
    · simp only [Function.update_of_ne hji]
      exact h.explained j n r ((hother j hji).symm.trans hj) hr
  · have hjk' : j ≠ k := by
      intro heq
      subst heq
      obtain ⟨n, r, hreturned, -⟩ := hj
      have htwice := htraced'.ordered j j hjk ((htraced'.returned j).mpr ⟨n, r, hreturned⟩)
      exact absurd (htraced'.nodup.sublist htwice) (by simp)
    by_cases hki : k = i
    · subst hki
      rw [Function.update_self, Function.update_of_ne hjk']
      obtain ⟨n, r, hreturned, hr⟩ := hj
      exact hearlier j hjk ⟨n, r, (hother j hjk').symm.trans hreturned, hr⟩
    · have hold : st.Precedes j k := hjk.of_enter rfl fun hk => absurd hk hki
      obtain ⟨n, r, hreturned⟩ := htraced.returned_of_precedes hold
      have hji := hended j n r hreturned
      rw [Function.update_of_ne hji, Function.update_of_ne hki]
      obtain ⟨n', r', hreturned', hr'⟩ := hj
      exact h.realtime j k hold ⟨n', r', (hother j hji).symm.trans hreturned', hr'⟩
  · obtain ⟨j, n, r, hauthor, hreturned, hlabel⟩ := h.authored k c hc
    have hji := hended j n _ hreturned
    exact ⟨j, n, r, hauthor, (hother j hji).trans hreturned,
      by rw [Function.update_of_ne hji, hlabel]⟩

theorem Labelled.commit {i : ν} {n : Nat} {a : Attempt σ ω ι ε α} {r : α} (hst : Sound S st)
    (htraced : Traced st) (h : Labelled S st since label) (hp : st.phase i = .running n a)
    (hr : a.rest = .done r) :
    ∃ since' label', Labelled S (st.commit i a (.returned n (.ok r))) since' label' := by
  have hlog : (st.commit i a (.returned n (.ok r))).log =
      st.log ++ [⟨some i, a.start, a.writes, a.ids⟩] := rfl
  have hself : (st.commit i a (.returned n (.ok r))).phase i = .returned n (.ok r) := by
    simp [State.commit]
  have hother : ∀ j, j ≠ i → (st.commit i a (.returned n (.ok r))).phase j = st.phase j := by
    intro j hj
    simp [State.commit, hj]
  have hended : ∀ j n r, st.phase j = .returned n r → j ≠ i := by
    intro j n r hj heq
    subst heq
    rw [hp] at hj
    cases hj
  refine ⟨since, Function.update label i (2 * st.log.length + 1), fun j => ?_,
    fun j n' r' hj hr' => ?_, fun j k hjk hj => ?_, fun k c hc => ?_⟩
  · exact (h.accounted j).commit hst hp hr (.inl rfl)
  · by_cases hji : j = i
    · subst hji
      obtain ⟨rfl, rfl⟩ := Phase.returned.inj (hself.symm.trans hj)
      rw [Function.update_self]
      refine ⟨.commit (c := ⟨some j, a.start, a.writes, a.ids⟩) ?_ rfl, ?_⟩
      · rw [hlog, List.getElem?_concat_length]
      · have := (h.accounted j).recent
        omega
    · rw [Function.update_of_ne hji]
      obtain ⟨hexplained, hle⟩ := h.explained j n' r' ((hother j hji).symm.trans hj) hr'
      exact ⟨hexplained.append _, hle⟩
  · have hold : st.Precedes j k := hjk.of_enter rfl fun hk => by
      rw [hp]
      simp
    obtain ⟨n', r', hreturned⟩ := htraced.returned_of_precedes hold
    have hji := hended j n' r' hreturned
    rw [Function.update_of_ne hji]
    obtain ⟨n'', r'', hreturned', hr'⟩ := hj
    exact h.realtime j k hold ⟨n'', r'', (hother j hji).symm.trans hreturned', hr'⟩
  · rw [hlog] at hc
    rcases Nat.lt_or_ge k st.log.length with hk | hk
    · rw [List.getElem?_append_left hk] at hc
      obtain ⟨j, n', r', hauthor, hreturned, hlabel⟩ := h.authored k c hc
      have hji := hended j n' _ hreturned
      exact ⟨j, n', r', hauthor, (hother j hji).trans hreturned, by
        rw [Function.update_of_ne hji, hlabel]⟩
    · have hlt := (List.getElem?_eq_some_iff.mp hc).1
      rw [List.length_append, List.length_singleton] at hlt
      obtain rfl : k = st.log.length := by omega
      obtain rfl : _ = c := by simpa using hc
      exact ⟨i, n, r, rfl, hself, Function.update_self _ _ _⟩

/-- Every run in which all commits are acknowledged has labels. -/
theorem Reachable.labelled (hlossy : ¬ S.lossy) (hdirect : ∀ st w, ¬ S.direct st w)
    (h : Reachable S st) : ∃ since label, Labelled S st since label := by
  induction h with
  | refl => exact ⟨_, _, .start S⟩
  | @tail st st' hsteps hstep ih =>
      obtain ⟨since, label, ih⟩ := ih
      have hst := Reachable.sound hsteps
      have htraced := Reachable.traced hsteps
      cases hstep with
      | move hm => exact ih.move hst htraced hm
      | commit hp hr => exact ih.commit hst htraced hp hr
      | commitLost hl => exact absurd hl hlossy
      | direct hd => exact absurd hd (hdirect _ _)

end Labels

/-! ### The order -/

/-- The answers, in this order, take the log from one point to another: every
success is the next commit, and every rejection is explained by the commits made
so far. -/
inductive Linear (S : System ν σ ω ι ε α) :
    List (Commit ν ω ι) → List (ν × Except (Failure ε) α) → List (Commit ν ω ι) → Prop
  | nil (log : List (Commit ν ω ι)) : Linear S log [] log
  | commit {log log' : List (Commit ν ω ι)} {c : Commit ν ω ι} {i : ν} {r : α}
      {rest : List (ν × Except (Failure ε) α)} : c.author = some i → Follows S log c →
      Linear S (log ++ [c]) rest log' → Linear S log ((i, .ok r) :: rest) log'
  | reject {log log' : List (Commit ν ω ι)} {i : ν} {f : Failure ε}
      {rest : List (ν × Except (Failure ε) α)} : RejectedAt S log i f →
      Linear S log rest log' → Linear S log ((i, .error f) :: rest) log'

/-- Sorted by their labels, the answers run through the log. The induction is on
the answers still to come, which begin where the log has got to. -/
theorem Linear.of_sorted {S : System ν σ ω ι ε α} {log : List (Commit ν ω ι)}
    {label : ν → Nat} (hlog : History S log) {answers : List (ν × Except (Failure ε) α)}
    {n : Nat} (hn : n ≤ log.length)
    (hsorted : answers.Pairwise fun a b => label a.1 ≤ label b.1)
    (hnodup : (answers.map Prod.fst).Nodup)
    (hexplained : ∀ a ∈ answers, Explained S log a.1 a.2 (label a.1) ∧ 2 * n ≤ label a.1)
    (hcommits : ∀ k c, n ≤ k → log[k]? = some c →
      ∃ a ∈ answers, c.author = some a.1 ∧ label a.1 = 2 * k + 1) :
    Linear S (log.take n) answers log := by
  induction answers generalizing n with
  | nil =>
      -- a commit that is left would have an answer
      have hall : log.length ≤ n := by
        by_contra hlt
        have hlt : n < log.length := by omega
        obtain ⟨a, ha, -⟩ := hcommits n _ le_rfl (List.getElem?_eq_getElem hlt)
        cases ha
      rw [List.take_of_length_le hall]
      exact .nil log
  | cons a rest ih =>
      obtain ⟨hleast, hrest⟩ := List.pairwise_cons.mp hsorted
      rw [List.map_cons, List.nodup_cons] at hnodup
      obtain ⟨hfirst, hage⟩ := hexplained a List.mem_cons_self
      -- the first answer is the earliest, so it is about the next commit
      have hnext : label a.1 = 2 * n ∨ label a.1 = 2 * n + 1 := by
        by_contra hlater
        have hle := hfirst.le
        have hlt : n < log.length := by omega
        obtain ⟨b, hb, -, hlabel⟩ := hcommits n _ le_rfl (List.getElem?_eq_getElem hlt)
        rcases List.mem_cons.mp hb with rfl | hb
        · omega
        · have := hleast b hb
          omega
      have hcommits' : ∀ k c, n ≤ k → log[k]? = some c → label a.1 ≠ 2 * k + 1 →
          ∃ b ∈ rest, c.author = some b.1 ∧ label b.1 = 2 * k + 1 := by
        intro k c hk hc hne
        obtain ⟨b, hb, hauthor, hlabel⟩ := hcommits k c hk hc
        rcases List.mem_cons.mp hb with rfl | hb
        · exact absurd hlabel hne
        · exact ⟨b, hb, hauthor, hlabel⟩
      obtain ⟨i, r⟩ := a
      rcases hnext with heven | hodd
      · obtain ⟨f, rfl, hrej⟩ := hfirst.of_even heven
        refine .reject hrej (ih hn hrest hnodup.2
          (fun b hb => hexplained b (List.mem_cons_of_mem _ hb)) fun k c hk hc => ?_)
        exact hcommits' k c hk hc (by omega)
      · obtain ⟨c, a, rfl, hc, hauthor⟩ := hfirst.of_odd hodd
        refine .commit hauthor (hlog.follows hc) ?_
        have htake : log.take n ++ [c] = log.take (n + 1) := by
          rw [List.take_add_one, hc, Option.toList_some]
        rw [htake]
        refine ih (List.getElem?_eq_some_iff.mp hc).1 hrest hnodup.2 (fun b hb => ?_)
          fun k c' hk hc' => hcommits' k c' (by omega) hc' (by omega)
        obtain ⟨hb', -⟩ := hexplained b (List.mem_cons_of_mem _ hb)
        refine ⟨hb', ?_⟩
        have hle := hleast b hb
        -- no other answer has the label of this commit
        have hne : label b.1 ≠ 2 * n + 1 := by
          intro hsame
          obtain ⟨c', -, -, hc', hauthor'⟩ := hb'.of_odd hsame
          obtain rfl : c = c' := Option.some.inj (hc.symm.trans hc')
          have hib : i = b.1 := Option.some.inj (hauthor.symm.trans hauthor')
          exact hnodup.1 (List.mem_map.mpr ⟨b, hb, hib.symm⟩)
        omega

/-- The answer of a call that has ended with a success or a rejection. -/
def Phase.answer : Phase σ ω ι ε α → Option (Except (Failure ε) α)
  | .returned _ r => if decided r then some r else none
  | _ => none

theorem Phase.answer_eq_some {p : Phase σ ω ι ε α} {r : Except (Failure ε) α} :
    p.answer = some r ↔ (∃ n, p = .returned n r) ∧ decided r = true := by
  cases p with
  | returned n r' =>
      constructor
      · intro h
        simp only [answer] at h
        split at h
        · obtain rfl := Option.some.inj h
          exact ⟨⟨n, rfl⟩, ‹_›⟩
        · cases h
      · intro hanswer
        obtain ⟨⟨m, h⟩, hr⟩ := hanswer
        cases h
        exact if_pos hr
  | _ => simp [answer]

/-- The answers of a run, in the order they were given. -/
def State.answers (st : State ν σ ω ι ε α) : List (ν × Except (Failure ε) α) :=
  st.returns.filterMap fun i => (st.phase i).answer.map (Prod.mk i)

theorem State.answers_calls (st : State ν σ ω ι ε α) :
    st.answers.map Prod.fst = st.returns.filter fun i => (st.phase i).answer.isSome := by
  unfold answers
  induction st.returns with
  | nil => rfl
  | cons i rest ih =>
      cases h : (st.phase i).answer with
      | none => simpa [h] using ih
      | some r => simpa [h] using ih

theorem Traced.mem_answers {st : State ν σ ω ι ε α} (h : Traced st) {i : ν}
    {r : Except (Failure ε) α} :
    (i, r) ∈ st.answers ↔ (∃ n, st.phase i = .returned n r) ∧ decided r = true := by
  rw [← Phase.answer_eq_some]
  simp only [State.answers, List.mem_filterMap, Option.map_eq_some_iff, Prod.mk.injEq]
  constructor
  · intro hreturned
    obtain ⟨j, -, r', hr', rfl, rfl⟩ := hreturned
    exact hr'
  · intro hr
    obtain ⟨⟨n, hreturned⟩, -⟩ := Phase.answer_eq_some.mp hr
    exact ⟨i, (h.returned i).mpr ⟨n, r, hreturned⟩, r, hr, rfl, rfl⟩

/-- The calls that succeeded or were rejected, in an order that respects real
time and explains every one of their answers. -/
structure Linearization (S : System ν σ ω ι ε α) (st : State ν σ ω ι ε α)
    (answers : List (ν × Except (Failure ε) α)) : Prop where
  calls_nodup : (answers.map Prod.fst).Nodup
  mem_iff : ∀ i r, (i, r) ∈ answers ↔ (∃ n, st.phase i = .returned n r) ∧ decided r = true
  realtime : ∀ i j, st.Precedes i j → i ∈ answers.map Prod.fst → j ∈ answers.map Prod.fst →
    [i, j].Sublist (answers.map Prod.fst)
  linear : Linear S [] answers st.log

/-- Every run in which all commits are acknowledged can be put in order. -/
theorem Reachable.exists_linearization [DecidableEq ν] {S : System ν σ ω ι ε α}
    {st : State ν σ ω ι ε α}
    (hlossy : ¬ S.lossy) (hdirect : ∀ st w, ¬ S.direct st w) (h : Reachable S st) :
    ∃ answers, Linearization S st answers := by
  obtain ⟨since, label, hlabelled⟩ := h.labelled hlossy hdirect
  have htraced := h.traced
  have htrans : ∀ a b c : ν × Except (Failure ε) α, decide (label a.1 ≤ label b.1) = true →
      decide (label b.1 ≤ label c.1) = true → decide (label a.1 ≤ label c.1) = true := by
    simp only [decide_eq_true_eq]
    exact fun _ _ _ => le_trans
  have htotal : ∀ a b : ν × Except (Failure ε) α,
      (decide (label a.1 ≤ label b.1) || decide (label b.1 ≤ label a.1)) = true := by
    simp only [Bool.or_eq_true, decide_eq_true_eq]
    exact fun _ _ => le_total _ _
  have hperm := List.mergeSort_perm st.answers fun a b => decide (label a.1 ≤ label b.1)
  have hnodup : (st.answers.map Prod.fst).Nodup := by
    rw [State.answers_calls]
    exact htraced.nodup.filter _
  have hexplained : ∀ a ∈ st.answers, Explained S st.log a.1 a.2 (label a.1) ∧
      2 * since a.1 ≤ label a.1 := by
    rintro ⟨i, r⟩ ha
    obtain ⟨⟨n, hreturned⟩, hr⟩ := htraced.mem_answers.mp ha
    exact hlabelled.explained i n r hreturned hr
  refine ⟨_, (hperm.map _).nodup_iff.mpr hnodup, fun i r => ?_, fun i j hij hi hj => ?_, ?_⟩
  · rw [hperm.mem_iff]
    exact htraced.mem_answers
  · rw [(hperm.map Prod.fst).mem_iff] at hi hj
    have hpair : [i, j].Sublist (st.answers.map Prod.fst) := by
      rw [State.answers_calls, List.mem_filter] at hi hj
      rw [State.answers_calls]
      have h := (htraced.ordered i j hij hj.1).filter fun k => (st.phase k).answer.isSome
      simpa [hi.2, hj.2] using h
    obtain ⟨a, b, hsub, rfl, rfl⟩ : ∃ a b, [a, b].Sublist st.answers ∧ a.1 = i ∧ b.1 = j := by
      obtain ⟨pair, hsub, hmap⟩ := List.sublist_map_iff.mp hpair
      obtain ⟨a, tail, rfl, ha, htail⟩ := List.map_eq_cons_iff.mp hmap.symm
      obtain ⟨b, tail', rfl, hb, hnil⟩ := List.map_eq_cons_iff.mp htail
      obtain rfl := List.map_eq_nil_iff.mp hnil
      exact ⟨a, b, hsub, ha, hb⟩
    have hle : label a.1 ≤ label b.1 := by
      have ha := hsub.subset List.mem_cons_self
      have hb := hsub.subset (List.mem_cons_of_mem a List.mem_cons_self)
      obtain ⟨⟨n, hreturned⟩, hr⟩ := htraced.mem_answers.mp ha
      exact (hlabelled.realtime a.1 b.1 hij ⟨n, a.2, hreturned, hr⟩).trans (hexplained b hb).2
    exact (List.pair_sublist_mergeSort htrans htotal (by simpa using hle) hsub).map Prod.fst
  · have hsorted := List.pairwise_mergeSort htrans htotal st.answers
    simp only [decide_eq_true_eq] at hsorted
    refine Linear.of_sorted (n := 0) h.history (Nat.zero_le _) hsorted
      ((hperm.map _).nodup_iff.mpr hnodup) (fun a ha => ?_) fun k c _ hc => ?_
    · exact ⟨(hexplained a (hperm.mem_iff.mp ha)).1, Nat.zero_le _⟩
    · obtain ⟨i, n, r, hauthor, hreturned, hlabel⟩ := hlabelled.authored k c hc
      exact ⟨(i, .ok r), hperm.mem_iff.mpr (htraced.mem_answers.mpr ⟨⟨n, hreturned⟩, rfl⟩),
        hauthor, hlabel⟩

end Mvcc

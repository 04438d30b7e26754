import Ledgerlock.Mvcc.Serial

/-!
# Ledgerlock.Mvcc.Progress

No call is ever stuck: whatever the other calls hold, it can be brought to its end by steps
of its own (`CanReturn`).
-/

namespace Mvcc

variable {ν σ ω κ ι ε α : Type} [DocStore ω σ κ ι] [DecidableEq ν] {S : System ν σ ω ι ε α}
  {st st' : State ν σ ω ι ε α} {i : ν}

/-- Only finitely many calls have been made. -/
theorem Reachable.begun_finite (h : Reachable S st) : {i | st.phase i ≠ .idle}.Finite := by
  have hstep {st : State ν σ ω ι ε α} (i : ν) (p : Phase σ ω ι ε α)
      (hfin : {j | st.phase j ≠ .idle}.Finite) :
      {j | Function.update st.phase i p j ≠ .idle}.Finite := by
    refine (hfin.insert i).subset fun j hj => ?_
    by_cases hji : j = i
    · exact .inl hji
    · refine .inr ?_
      have hphase : Function.update st.phase i p j ≠ .idle := hj
      rwa [Function.update_of_ne hji] at hphase
  induction h with
  | refl => simp [System.start]
  | tail _ hs ih =>
      cases hs with
      | move | commit | commitLost => exact hstep _ _ ih
      | direct => exact ih

/-- Call `i` can be brought to its end by steps of its own. -/
def CanReturn (S : System ν σ ω ι ε α) (st : State ν σ ω ι ε α) (i : ν) : Prop :=
  ∃ st', Steps S st st' ∧ (∃ n r, st'.phase i = .returned n r) ∧
    (∀ j, j ≠ i → st'.phase j = st.phase j) ∧
    ∀ c ∈ st'.log.drop st.log.length, c.author = some i

theorem CanReturn.of_returned {n : Nat} {r : Except (Failure ε) α}
    (h : st.phase i = .returned n r) : CanReturn S st i :=
  ⟨st, .refl st, ⟨n, r, h⟩, fun _ _ => rfl, by simp⟩

theorem CanReturn.of_move {issued : Set ι} {p : Phase σ ω ι ε α} (hm : Move S st i issued p)
    (h : CanReturn S (st.moveTo i issued p) i) : CanReturn S st i := by
  obtain ⟨st', hsteps, hreturned, hothers, hown⟩ := h
  refine ⟨st', (Steps.single (.move hm)).trans hsteps, hreturned, fun j hj => ?_, hown⟩
  rw [hothers j hj]
  exact Function.update_of_ne hj _ _

/-- A move after which the call has returned. -/
theorem CanReturn.of_end {issued : Set ι} {n : Nat} {r : Except (Failure ε) α}
    (hm : Move S st i issued (.returned n r)) : CanReturn S st i :=
  .of_move hm (.of_returned (Function.update_self _ _ _))

/-- An open attempt can come to its end: every operation is granted or it fails. -/
theorem CanReturn.of_running [Infinite ι] {p : Tx σ ω ι ε α} {n : Nat}
    {a : Attempt σ ω ι ε α} (hfin : st.issued.Finite) (hi : st.phase i = .running n a)
    (hp : a.rest = p) : CanReturn S st i := by
  induction p generalizing st a with
  | done r =>
      refine ⟨_, .single (.commit hi hp), ⟨n, .ok r, Function.update_self _ _ _⟩,
        fun j hj => Function.update_of_ne hj _ _, fun c hc => ?_⟩
      simp only [State.commit, List.drop_left, List.mem_singleton] at hc
      rw [hc]
  | raise e => exact .of_end (.raise hi hp)
  | read k ih =>
      exact .of_move (.read hi hp) (ih _ hfin (Function.update_self _ _ _) rfl)
  | write w k ih =>
      by_cases hfree : st.Free i a.start w
      · by_cases haccepts : DocStore.accepts w = true
        · by_cases hclashes : DocStore.clashes (st.viewOf S a) w = true
          · exact .of_end (.duplicate hi hp (.inl hclashes))
          · exact .of_move (.write hi hp hfree haccepts (by simpa using hclashes))
              (ih hfin (Function.update_self _ _ _) rfl)
        · exact .of_end (.invalid hi hp (by simpa using haccepts))
      · exact .of_end (.conflict hi hp hfree (.inr rfl))
  | newId k ih =>
      obtain ⟨x, hx⟩ := hfin.infinite_compl.nonempty
      exact .of_move (.newId hi hp hx)
        (ih x (hfin.insert x) (Function.update_self _ _ _) rfl)
  | now k ih => exact .of_move (.now 0 hi hp) (ih 0 hfin (Function.update_self _ _ _) rfl)

/-- Any call can return. -/
theorem Reachable.canReturn [Infinite ι] (h : Reachable S st) (hfin : S.issued.Finite) (i : ν) :
    CanReturn S st i := by
  have hissued := h.issued_finite hfin
  have hbetween {st : State ν σ ω ι ε α} {n : Nat} (hissued : st.issued.Finite)
      (hi : st.phase i = .between n) : CanReturn S st i :=
    .of_move (.begin hi) (.of_running hissued (Function.update_self _ _ _) rfl)
  cases hi : st.phase i with
  | idle =>
      cases hadmission : (S.call i).admission with
      | some e => exact .of_end (.refuse hi hadmission)
      | none =>
          exact .of_move (.invoke hi hadmission) (hbetween hissued (Function.update_self _ _ _))
  | between n => exact hbetween hissued hi
  | running n a => exact .of_running hissued hi rfl
  | returned n r => exact .of_returned hi

end Mvcc

import Ledgerlock.Mvcc.Linearize

/-!
# Ledgerlock.Mvcc.Authors

Whose commits a log holds.

A commit of a call is the last thing it does, unless the acknowledgement gets
lost: the driver may then run the program again. `Reachable.settled` says what
is left to such a call. It has returned, or every state it is still to be
answered from comes after its own commit.
-/

namespace Mvcc

variable {ν σ ω κ ι ε α : Type}

/-- The call has returned from its commit, or given up without having learned
of it. -/
def Settled (S : System ν σ ω ι ε α) (st : State ν σ ω ι ε α) (i : ν) : Prop :=
  ∃ n r, st.phase i = .returned n r ∧
    ((∃ a, r = .ok a) ∨ S.lossy ∧ (r = .error .transient ∨ r = .error .driver))

/-- The call has ended with a result. -/
def State.succeeded (st : State ν σ ω ι ε α) (i : ν) : Bool :=
  match st.phase i with
  | .returned _ (.ok _) => true
  | _ => false

theorem State.succeeded_iff {st : State ν σ ω ι ε α} {i : ν} :
    st.succeeded i = true ↔ ∃ n r, st.phase i = .returned n (.ok r) := by
  unfold succeeded
  split
  · rename_i n r hphase
    simp [hphase]
  · rename_i hother
    simpa using hother

theorem State.succeeded_congr {st st' : State ν σ ω ι ε α} {i : ν}
    (h : st'.phase i = st.phase i) : st'.succeeded i = st.succeeded i := by
  simp only [succeeded, h]

variable [DocStore ω σ κ ι] [DecidableEq ν] {S : System ν σ ω ι ε α}
  {st st' : State ν σ ω ι ε α} {i : ν}

/-- A call that has returned stays so. -/
theorem Step.phase_returned (h : Step S st st') {n : Nat} {r : Except (Failure ε) α}
    (hi : st.phase i = .returned n r) : st'.phase i = .returned n r := by
  have hother {j : ν} {p : Phase σ ω ι ε α} (hj : st.phase j ≠ .returned n r) :
      Function.update st.phase j p i = .returned n r := by
    have hij : i ≠ j := fun h => hj (h ▸ hi)
    rw [Function.update_of_ne hij, hi]
  cases h with
  | move hm => exact hother (hm.not_returned n r)
  | commit hp => exact hother (by simp [hp])
  | commitLost _ hp => exact hother (by simp [hp])
  | direct => exact hi

/-- A call that has begun does not go back. -/
theorem Step.phase_ne_idle (h : Step S st st') (hi : st.phase i ≠ .idle) :
    st'.phase i ≠ .idle := by
  have hupdate {j : ν} {p : Phase σ ω ι ε α} (hp : p ≠ .idle) :
      Function.update st.phase j p i ≠ .idle := by
    by_cases hij : i = j
    · subst hij
      rwa [Function.update_self]
    · rwa [Function.update_of_ne hij]
  have hafter {j : ν} {n : Nat} {p : Phase σ ω ι ε α} (hp : S.AfterTransient j n p) :
      p ≠ .idle := by
    rcases hp with ⟨-, rfl⟩ | rfl <;> simp
  cases h with
  | move hm =>
      refine hupdate ?_
      cases hm with
      | conflict _ _ _ hp => exact hafter hp
      | fault _ _ hp =>
          rcases hp with hp | rfl
          · exact hafter hp
          · simp
      | _ => simp
  | commit => exact hupdate (by simp)
  | commitLost _ _ _ hp =>
      rcases hp with hp | rfl
      · exact hupdate (hafter hp)
      · exact hupdate (by simp)
  | direct => exact hi

/-- Whoever has just committed has begun. -/
theorem Step.phase_of_author (h : Step S st st') {c : Commit ν ω ι}
    (hc : c ∈ st'.log.drop st.log.length) (hi : c.author = some i) : st'.phase i ≠ .idle := by
  refine h.phase_ne_idle ?_
  cases h with
  | move => simp [State.moveTo] at hc
  | commit hp | commitLost _ hp =>
      obtain rfl : c = _ := by simpa [State.commit] using hc
      obtain rfl := Option.some.inj hi
      simp [hp]
  | direct =>
      obtain rfl : c = _ := by simpa [State.commitDirect] using hc
      cases hi

theorem Steps.phase_returned (h : Steps S st st') {n : Nat} {r : Except (Failure ε) α}
    (hi : st.phase i = .returned n r) : st'.phase i = .returned n r := by
  induction h with
  | refl => exact hi
  | tail _ hstep ih => exact hstep.phase_returned ih

/-- A call that has returned makes no more commits. -/
theorem Steps.not_author (h : Steps S st st') {n : Nat} {r : Except (Failure ε) α}
    (hi : st.phase i = .returned n r) :
    ∀ c ∈ st'.log.drop st.log.length, c.author ≠ some i := by
  induction h with
  | refl => simp
  | @tail st' st'' hs hstep ih =>
      have hphase := hs.phase_returned hi
      have hlast {d : Commit ν ω ι} (hd : d.author ≠ some i) :
          ∀ c ∈ (st'.log ++ [d]).drop st.log.length, c.author ≠ some i := by
        intro c hc
        rw [List.drop_append_of_le_length hs.log_grows.length_le] at hc
        rcases List.mem_append.mp hc with hc | hc
        · exact ih c hc
        · rwa [List.mem_singleton.mp hc]
      cases hstep with
      | move => exact ih
      | commit hp | commitLost _ hp =>
          refine hlast fun hj => ?_
          rw [Option.some.inj hj, hphase] at hp
          cases hp
      | direct => exact hlast (by simp)

/-- Nobody is at work: a call has returned, or is yet to be made. -/
def State.Resting (st : State ν σ ω ι ε α) : Prop :=
  ∀ i, st.phase i = .idle ∨ ∃ n r, st.phase i = .returned n r

/-- Whoever is at work afterwards was yet to be made. -/
theorem State.Resting.idle_of_running (h : st.Resting) (hs : Steps S st st') {n : Nat}
    {a : Attempt σ ω ι ε α} (hp : st'.phase i = .running n a) : st.phase i = .idle := by
  rcases h i with hidle | ⟨m, r, hreturned⟩
  · exact hidle
  · rw [hs.phase_returned hreturned] at hp
    cases hp

/-- Whoever has committed since a state of rest was idle in it. -/
theorem State.Resting.idle_of_author (h : st.Resting) (hs : Steps S st st') {c : Commit ν ω ι}
    (hc : c ∈ st'.log.drop st.log.length) (hi : c.author = some i) : st.phase i = .idle := by
  rcases h i with hidle | ⟨m, r, hreturned⟩
  · exact hidle
  · exact absurd hi (hs.not_author hreturned c hc)

theorem Settled.step (h : Settled S st i) (hstep : Step S st st') : Settled S st' i := by
  obtain ⟨n, r, hphase, hr⟩ := h
  exact ⟨n, r, hstep.phase_returned hphase, hr⟩

/-- What is left to a call that has committed at position `k` of the log. -/
structure After (S : System ν σ ω ι ε α) (k : Nat) (st : State ν σ ω ι ε α) (i : ν) : Prop where
  begun : st.phase i ≠ .idle
  settled : Settled S st i ∨ S.lossy ∧ Accounted S (k + 1) st i

theorem After.step {k : Nat} (hst : Sound S st) (h : After S k st i) (hstep : Step S st st') :
    After S k st' i where
  begun := hstep.phase_ne_idle h.begun
  settled := h.settled.imp (fun hs => hs.step hstep) fun ⟨hl, ha⟩ => ⟨hl, ha.step hst hstep⟩

/-- The commit just made is the last of its call, unless it gets lost. -/
theorem After.commit {n : Nat} {a : Attempt σ ω ι ε α} {p : Phase σ ω ι ε α}
    (hp : (∃ r, p = .returned n (.ok r)) ∨
      S.lossy ∧ (S.AfterTransient i n p ∨ p = .returned n (.error .driver))) :
    After S st.log.length (st.commit i a p) i := by
  have hphase : (st.commit i a p).phase i = p := by simp [State.commit]
  rcases hp with ⟨r, rfl⟩ | ⟨hl, (⟨-, rfl⟩ | rfl) | rfl⟩
  · exact ⟨by simp [hphase], .inl ⟨n, _, hphase, .inl ⟨r, rfl⟩⟩⟩
  · refine ⟨by simp [hphase], .inr ⟨hl, ?_⟩⟩
    exact ⟨by simp [State.commit], by simp [hphase], by simp [hphase]⟩
  · exact ⟨by simp [hphase], .inl ⟨n, _, hphase, .inr ⟨hl, .inl rfl⟩⟩⟩
  · exact ⟨by simp [hphase], .inl ⟨n, _, hphase, .inr ⟨hl, .inr rfl⟩⟩⟩

/-- A position of a log that grew by one commit. -/
theorem getElem?_concat {β : Type} {l : List β} {b c : β} {k : Nat}
    (h : (l ++ [c])[k]? = some b) : l[k]? = some b ∨ k = l.length ∧ b = c := by
  rcases Nat.lt_trichotomy k l.length with hk | rfl | hk
  · rw [List.getElem?_append_left hk] at h
    exact .inl h
  · exact .inr ⟨rfl, by simpa [eq_comm] using h⟩
  · have : (l ++ [c]).length ≤ k := by simpa using Nat.succ_le_of_lt hk
    rw [List.getElem?_eq_none this] at h
    cases h

/-- Every commit of the log has a call that is done with it. -/
theorem Reachable.settled (h : Reachable S st) {k : Nat} {c : Commit ν ω ι}
    (hc : st.log[k]? = some c) (hi : c.author = some i) : After S k st i := by
  induction h generalizing k c i with
  | refl => simp [System.start] at hc
  | @tail st st' hs hstep ih =>
      have hst : Reachable S st := hs
      have hold {k : Nat} {c : Commit ν ω ι} {i : ν} (hc : st.log[k]? = some c)
          (hi : c.author = some i) : After S k st' i := (ih hc hi).step hst.sound hstep
      cases hstep with
      | move => exact hold hc hi
      | commit hp hr =>
          rcases getElem?_concat hc with hc | ⟨rfl, rfl⟩
          · exact hold hc hi
          · obtain rfl := Option.some.inj hi
            exact .commit (.inl ⟨_, rfl⟩)
      | commitLost hl hp hr hq =>
          rcases getElem?_concat hc with hc | ⟨rfl, rfl⟩
          · exact hold hc hi
          · obtain rfl := Option.some.inj hi
            exact .commit (.inr ⟨hl, hq⟩)
      | direct =>
          rcases getElem?_concat hc with hc | ⟨rfl, rfl⟩
          · exact hold hc hi
          · cases hi

end Mvcc

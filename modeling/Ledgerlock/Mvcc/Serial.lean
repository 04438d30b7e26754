import Ledgerlock.Mvcc.History
import Mathlib.Data.Finite.Defs
import Mathlib.Data.Set.Finite.Basic
import Mathlib.Data.Set.Finite.List

/-!
# Ledgerlock.Mvcc.Serial

Calls run **alone**, and one after the other.

`Alone` is one call run from its beginning to its end with nobody else about,
and `Serially` is a list of calls run so, each on the state the one before it
left: the sequential semantics that a concurrent run is compared with. It is no
second semantics of its own, every serial execution is a run of the system
(`Serially.steps`), and there is always one (`exists_serially`).
-/

namespace Mvcc

variable {ν σ ω κ ι ε α : Type} [DocStore ω σ κ ι]

/-- A program run alone stops when it is finished, when it raises, and when the
server refuses a write for what it is. -/
inductive Ended (s : σ) (ws : List ω) : Tx σ ω ι ε α → Prop
  | done (r : α) : Ended s ws (.done r)
  | raise (e : ε) : Ended s ws (.raise e)
  | duplicate {w : ω} (k : Tx σ ω ι ε α) : DocStore.clashes (view s ws) w = true →
      Ended s ws (.write w k)
  | invalid {w : ω} (k : Tx σ ω ι ε α) : DocStore.accepts w = false → Ended s ws (.write w k)

/-- A program run alone comes to an end, on ids that are not taken. -/
theorem Progress.exists_ended {s : σ} {body p : Tx σ ω ι ε α} {ws : List ω} {ids : List ι}
    {taken : Set ι} (hsupply : ∀ l : List ι, ∃ x, x ∉ taken ∧ x ∉ l)
    (h : Progress s body ws ids p) (hids : ∀ x ∈ ids, x ∉ taken) :
    ∃ ws' ids' q, Progress s body ws' ids' q ∧ (∀ x ∈ ids', x ∉ taken) ∧ Ended s ws' q := by
  induction p generalizing ws ids with
  | done r => exact ⟨ws, ids, _, h, hids, .done r⟩
  | raise e => exact ⟨ws, ids, _, h, hids, .raise e⟩
  | read k ih => exact ih _ h.read hids
  | write w k ih =>
      by_cases hacc : DocStore.accepts w = true
      · by_cases hclash : DocStore.clashes (view s ws) w = true
        · exact ⟨ws, ids, _, h, hids, .duplicate k hclash⟩
        · exact ih (h.write hacc (by simpa using hclash)) hids
      · exact ⟨ws, ids, _, h, hids, .invalid k (by simpa using hacc)⟩
  | newId k ih =>
      obtain ⟨x, hx, hxl⟩ := hsupply ids
      refine ih x (h.newId hxl) fun y hy => ?_
      rcases List.mem_append.mp hy with hy | hy
      · exact hids y hy
      · rwa [List.mem_singleton.mp hy]
  | now k ih => exact ih 0 (h.now 0) hids

/-- Call `i` run alone on the state `s`: its outcome, the writes it commits and
the ids it uses up. -/
inductive Alone (S : System ν σ ω ι ε α) (s : σ) (taken : Set ι) (i : ν) :
    Except (Failure ε) α → List ω → List ι → Prop
  | refused {e : ε} : (S.call i).admission = some e →
      Alone S s taken i (.error (.raised e)) [] []
  | done {ws : List ω} {ids : List ι} {r : α} : (S.call i).admission = none →
      Progress s ((S.call i).body 1) ws ids (.done r) → (∀ x ∈ ids, x ∉ taken) →
      Alone S s taken i (.ok r) ws ids
  | raised {ws : List ω} {ids : List ι} {e : ε} : (S.call i).admission = none →
      Progress s ((S.call i).body 1) ws ids (.raise e) → (∀ x ∈ ids, x ∉ taken) →
      Alone S s taken i (.error (.raised e)) [] ids
  | duplicate {ws : List ω} {ids : List ι} {w : ω} {k : Tx σ ω ι ε α} :
      (S.call i).admission = none → Progress s ((S.call i).body 1) ws ids (.write w k) →
      (∀ x ∈ ids, x ∉ taken) → DocStore.clashes (view s ws) w = true →
      Alone S s taken i (.error .duplicateKey) [] ids
  | invalid {ws : List ω} {ids : List ι} {w : ω} {k : Tx σ ω ι ε α} :
      (S.call i).admission = none → Progress s ((S.call i).body 1) ws ids (.write w k) →
      (∀ x ∈ ids, x ∉ taken) → DocStore.accepts w = false →
      Alone S s taken i (.error .driver) [] ids

/-- The calls of a list, run alone one after the other, with their outcomes. -/
inductive Serially (S : System ν σ ω ι ε α) :
    σ → Set ι → List (ν × Except (Failure ε) α) → σ → Prop
  | nil (s : σ) (taken : Set ι) : Serially S s taken [] s
  | cons {s s' : σ} {taken : Set ι} {i : ν} {r : Except (Failure ε) α} {ws : List ω}
      {ids : List ι} {rest : List (ν × Except (Failure ε) α)} :
      Alone S s taken i r ws ids → Serially S (view s ws) (taken ∪ {x | x ∈ ids}) rest s' →
      Serially S s taken ((i, r) :: rest) s'

/-- The call that comes first runs alone, and the others follow. -/
theorem Serially.head {S : System ν σ ω ι ε α} {outcomes : List (ν × Except (Failure ε) α)}
    {s s' : σ} {taken : Set ι} {i : ν} {is : List ν} (h : Serially S s taken outcomes s')
    (hcalls : outcomes.map Prod.fst = i :: is) : ∃ r ws ids rest, outcomes = (i, r) :: rest ∧
      rest.map Prod.fst = is ∧ Alone S s taken i r ws ids ∧
      Serially S (view s ws) (taken ∪ {x | x ∈ ids}) rest s' := by
  cases h with
  | nil => cases hcalls
  | @cons _ _ _ j r ws ids rest halone hserial =>
      obtain ⟨rfl, hrest⟩ := List.cons.inj hcalls
      exact ⟨r, ws, ids, rest, rfl, hrest, halone, hserial⟩

/-- Every call can be run alone. -/
theorem exists_alone (S : System ν σ ω ι ε α) (s : σ) {taken : Set ι}
    (hsupply : ∀ l : List ι, ∃ x, x ∉ taken ∧ x ∉ l) (i : ν) :
    ∃ r ws ids, Alone S s taken i r ws ids := by
  cases hadm : (S.call i).admission with
  | some e => exact ⟨_, _, _, .refused hadm⟩
  | none =>
      have hstart : Progress s ((S.call i).body 1) [] [] ((S.call i).body 1) := .start
      obtain ⟨ws, ids, p, hp, hids, hend⟩ := hstart.exists_ended hsupply (by simp)
      cases hend with
      | done r => exact ⟨_, _, _, .done hadm hp hids⟩
      | raise e => exact ⟨_, _, _, .raised hadm hp hids⟩
      | duplicate k hclash => exact ⟨_, _, _, .duplicate hadm hp hids hclash⟩
      | invalid k hacc => exact ⟨_, _, _, .invalid hadm hp hids hacc⟩

/-- Every list of calls can be run serially. -/
theorem exists_serially (S : System ν σ ω ι ε α) (s : σ) {taken : Set ι}
    (hsupply : ∀ l : List ι, ∃ x, x ∉ taken ∧ x ∉ l) (calls : List ν) :
    ∃ outcomes s', outcomes.map Prod.fst = calls ∧ Serially S s taken outcomes s' := by
  induction calls generalizing s taken with
  | nil => exact ⟨[], s, rfl, .nil s taken⟩
  | cons i calls ih =>
      obtain ⟨r, ws, ids, h⟩ := exists_alone S s hsupply i
      have hsupply' : ∀ l : List ι, ∃ x, x ∉ taken ∪ {x | x ∈ ids} ∧ x ∉ l := by
        intro l
        obtain ⟨x, hx, hxl⟩ := hsupply (ids ++ l)
        exact ⟨x, by simp_all, by simp_all⟩
      obtain ⟨outcomes, s', hcalls, hrest⟩ := ih (view s ws) hsupply'
      exact ⟨(i, r) :: outcomes, s', by rw [List.map_cons, hcalls], .cons h hrest⟩

/-! ### Fresh ids never run out -/

section Supply

variable [DecidableEq ν] {S : System ν σ ω ι ε α} {st st' : State ν σ ω ι ε α}

theorem Step.issued_finite (h : Step S st st') (hfin : st.issued.Finite) :
    st'.issued.Finite := by
  cases h with
  | move hm =>
      cases hm with
      | newId => exact hfin.insert _
      | _ => exact hfin
  | commit | commitLost => exact hfin
  | direct => exact hfin.union (List.finite_toSet _)

theorem Reachable.issued_finite (h : Reachable S st) (hfin : S.issued.Finite) :
    st.issued.Finite := by
  induction h with
  | refl => exact hfin
  | tail _ hstep ih => exact hstep.issued_finite ih

theorem Reachable.supply [Infinite ι] (h : Reachable S st) (hfin : S.issued.Finite)
    (l : List ι) : ∃ x, x ∉ st.issued ∧ x ∉ l := by
  obtain ⟨x, hx⟩ := ((h.issued_finite hfin).union (List.finite_toSet l)).infinite_compl.nonempty
  exact ⟨x, fun h => hx (.inl h), fun h => hx (.inr h)⟩

end Supply

/-! ### A serial execution is a run -/

section Runs

variable [DecidableEq ν] {S : System ν σ ω ι ε α} {st : State ν σ ω ι ε α}

theorem Steps.trans {st' st'' : State ν σ ω ι ε α} (h : Steps S st st')
    (h' : Steps S st' st'') : Steps S st st'' := by
  induction h' with
  | refl => exact h
  | tail _ hs ih => exact ih.tail hs

theorem Steps.single {st' : State ν σ ω ι ε α} (h : Step S st st') : Steps S st st' :=
  (Steps.refl st).tail h

/-- No call but `i` has an attempt open. -/
def State.QuietBut (st : State ν σ ω ι ε α) (i : ν) : Prop :=
  ∀ j, j ≠ i → ∀ n a, st.phase j ≠ .running n a

/-- Call `i` has got to a point of its attempt, and drawn ids on the way. -/
def State.runTo (st : State ν σ ω ι ε α) (i : ν) (n : Nat) (a : Attempt σ ω ι ε α) :
    State ν σ ω ι ε α where
  log := st.log
  issued := st.issued ∪ {x | x ∈ a.ids}
  phase := Function.update st.phase i (.running n a)
  trace := st.trace

@[simp] theorem State.runTo_phase (st : State ν σ ω ι ε α) (i : ν) (n : Nat)
    (a : Attempt σ ω ι ε α) : (st.runTo i n a).phase i = .running n a := by
  simp [runTo]

/-- An attempt whose writes conflict with nothing gets as far as its program goes
on its snapshot. -/
theorem Steps.runTo {i : ν} {n start : Nat} {ws : List ω} {ids : List ι} {p : Tx σ ω ι ε α}
    (hphase : st.phase i = .running n ⟨start, [], [], (S.call i).body n⟩)
    (hprog : Progress (st.dbAt S start) ((S.call i).body n) ws ids p)
    (hfree : ∀ w ∈ ws, st.Free i start w) (hids : ∀ x ∈ ids, x ∉ st.issued) :
    Steps S st (st.runTo i n ⟨start, ws, ids, p⟩) := by
  have step : ∀ {ws ids p issued ws' ids' p'},
      Move S (st.runTo i n ⟨start, ws, ids, p⟩) i issued (.running n ⟨start, ws', ids', p'⟩) →
      issued = st.issued ∪ {x | x ∈ ids'} →
      Step S (st.runTo i n ⟨start, ws, ids, p⟩) (st.runTo i n ⟨start, ws', ids', p'⟩) := by
    intro ws ids p issued ws' ids' p' hmove hissued
    have hstep := Step.move hmove
    have : (st.runTo i n ⟨start, ws, ids, p⟩).moveTo i issued
        (.running n ⟨start, ws', ids', p'⟩) = st.runTo i n ⟨start, ws', ids', p'⟩ := by
      simp [State.moveTo, State.runTo, Phase.events, hissued]
    rwa [this] at hstep
  induction hprog with
  | start =>
      have : st.runTo i n ⟨start, [], [], (S.call i).body n⟩ = st := by
        simp [State.runTo, ← hphase]
      rw [this]
      exact .refl st
  | read _ ih => exact (ih hfree hids).tail (step (.read (st.runTo_phase _ _ _) rfl) rfl)
  | @write ws ids w k _ hacc hclash ih =>
      have hw : w ∈ ws ++ [w] := by simp
      obtain ⟨hunheld, hunbeaten⟩ := hfree w hw
      refine (ih (fun v hv => hfree v (by simp [hv])) hids).tail
        (step (.write (st.runTo_phase _ _ _) rfl ⟨fun j hj m b hb => ?_, hunbeaten⟩ hacc hclash)
          rfl)
      exact hunheld j hj m b (by simpa [State.runTo, hj] using hb)
  | @newId ws ids x k _ hx ih =>
      refine (ih hfree fun y hy => hids y (by simp [hy])).tail
        (step (.newId (st.runTo_phase _ _ _) rfl ?_) ?_)
      · simp [State.runTo, hx, hids x (by simp)]
      · ext y
        simp [State.runTo, or_comm, or_assoc]
  | now t _ ih => exact (ih hfree hids).tail (step (.now t (st.runTo_phase _ _ _) rfl) rfl)

/-- Call `i` has been made and has taken its first snapshot. -/
def State.begun (S : System ν σ ω ι ε α) (st : State ν σ ω ι ε α) (i : ν) :
    State ν σ ω ι ε α where
  log := st.log
  issued := st.issued
  phase := Function.update st.phase i
    (.running 1 ⟨st.log.length, [], [], (S.call i).body 1⟩)
  trace := st.trace ++ [.invoked i]

theorem Steps.begun {i : ν} (hidle : st.phase i = .idle) (hadm : (S.call i).admission = none) :
    Steps S st (st.begun S i) := by
  have hinvoke := Step.move (Move.invoke hidle hadm)
  have hbetween : (st.moveTo i st.issued (.between 0)).phase i = .between 0 := by
    simp [State.moveTo]
  have hbegin := Step.move (S := S) (Move.begin hbetween)
  have : State.moveTo (st.moveTo i st.issued (.between 0)) i
      (st.moveTo i st.issued (.between 0)).issued
      (.running 1 ⟨st.log.length, [], [], (S.call i).body 1⟩) = st.begun S i := by
    simp [State.moveTo, State.begun, Phase.events, hidle]
  rw [← this]
  exact (Steps.single hinvoke).tail hbegin

/-- A call that nobody stands in the way of gets as far as its program goes on
the present state. -/
theorem Steps.begunTo {i : ν} {ws : List ω} {ids : List ι} {p : Tx σ ω ι ε α}
    (hidle : st.phase i = .idle) (hunheld : ∀ w ∈ ws, st.Unheld i w)
    (hadm : (S.call i).admission = none)
    (hprog : Progress (st.db S) ((S.call i).body 1) ws ids p)
    (hids : ∀ x ∈ ids, x ∉ st.issued) :
    Steps S st ((st.begun S i).runTo i 1 ⟨st.log.length, ws, ids, p⟩) := by
  refine (Steps.begun hidle hadm).trans (Steps.runTo ?_ ?_ ?_ hids)
  · simp [State.begun]
  · simpa [State.dbAt, State.begun, State.db] using hprog
  · refine fun w hw => ⟨fun j hj m b hb => ?_, by simp [State.begun]⟩
    exact hunheld w hw j hj m b (by simpa [State.begun, hj] using hb)

/-- A call about to begin an attempt that raises without a write can do so,
whatever the others are at. -/
theorem Steps.raised {i : ν} {n : Nat} {e : ε} (hphase : st.phase i = .between n)
    (hprog : Progress (st.db S) ((S.call i).body (n + 1)) [] [] (.raise e)) :
    ∃ st', Steps S st st' ∧ st'.phase i = .returned (n + 1) (.error (.raised e)) := by
  have hbegin := Step.move (S := S) (Move.begin hphase)
  have hrun : Steps S _ (State.runTo _ i (n + 1) ⟨st.log.length, [], [], .raise e⟩) :=
    (Steps.single hbegin).trans (Steps.runTo (by simp [State.moveTo])
      (by simpa [State.dbAt, State.moveTo, State.db] using hprog) (by simp) (by simp))
  refine ⟨_, hrun.tail (.move (.raise (State.runTo_phase _ _ _ _) rfl)), ?_⟩
  simp [State.moveTo]

/-- A call run alone on the present state is a run: it leaves the other calls as
they are, and what is committed in it is the call's own. -/
theorem Alone.steps {i : ν} {r : Except (Failure ε) α} {ws : List ω} {ids : List ι}
    (hidle : st.phase i = .idle) (hquiet : st.QuietBut i)
    (h : Alone S (st.db S) st.issued i r ws ids) :
    ∃ st' n, Steps S st st' ∧ st'.db S = view (st.db S) ws ∧
      st'.issued = st.issued ∪ {x | x ∈ ids} ∧
      st'.phase = Function.update st.phase i (.returned n r) ∧
      ∀ c ∈ st'.log.drop st.log.length, c.author = some i := by
  have hunheld : ∀ ws : List ω, ∀ w ∈ ws, st.Unheld i w :=
    fun ws w _ j hj m b hb => absurd hb (hquiet j hj m b)
  -- a failed attempt is aborted from wherever it has got to
  have failed {ws : List ω} {ids : List ι} {p : Tx σ ω ι ε α} {f : Failure ε}
      (hadm : (S.call i).admission = none)
      (hprog : Progress (st.db S) ((S.call i).body 1) ws ids p)
      (hids : ∀ x ∈ ids, x ∉ st.issued)
      (hmove : Move S ((st.begun S i).runTo i 1 ⟨st.log.length, ws, ids, p⟩) i
        (st.issued ∪ {x | x ∈ ids}) (.returned 1 (.error f))) :
      ∃ st' n, Steps S st st' ∧ st'.db S = view (st.db S) ([] : List ω) ∧
        st'.issued = st.issued ∪ {x | x ∈ ids} ∧
        st'.phase = Function.update st.phase i (.returned n (.error f)) ∧
        ∀ c ∈ st'.log.drop st.log.length, c.author = some i :=
    ⟨_, 1, (Steps.begunTo hidle (hunheld _) hadm hprog hids).tail (.move hmove), rfl, rfl,
      by simp [State.moveTo, State.runTo, State.begun],
      by simp [State.moveTo, State.runTo, State.begun]⟩
  cases h with
  | @refused e hadm =>
      refine ⟨_, 0, .single (.move (.refuse hidle hadm)), rfl, ?_, rfl, ?_⟩ <;>
        simp [State.moveTo]
  | @done _ _ r hadm hprog hids =>
      have hrun := Steps.begunTo hidle (hunheld _) hadm hprog hids
      refine ⟨_, 1, hrun.tail (.commit (i := i) (r := r) (State.runTo_phase _ _ _ _) rfl), ?_,
        rfl, ?_, ?_⟩
      · simp [State.db, State.commit, State.runTo, State.begun]
      · simp [State.commit, State.runTo, State.begun]
      · simp [State.commit, State.runTo, State.begun]
  | raised hadm hprog hids =>
      exact failed hadm hprog hids (.raise (State.runTo_phase _ _ _ _) rfl)
  | duplicate hadm hprog hids hclash =>
      refine failed hadm hprog hids (.duplicate (State.runTo_phase _ _ _ _) rfl (.inl ?_))
      simpa [State.viewOf, State.dbAt, State.runTo, State.begun, State.db] using hclash
  | invalid hadm hprog hids hacc =>
      exact failed hadm hprog hids (.invalid (State.runTo_phase _ _ _ _) rfl hacc)

/-- A serial execution is a run. -/
theorem Serially.steps {outcomes : List (ν × Except (Failure ε) α)} {s : σ} {taken : Set ι}
    {s' : σ} (h : Serially S s taken outcomes s') (hs : st.db S = s) (ht : st.issued = taken)
    (hnodup : (outcomes.map Prod.fst).Nodup)
    (hidle : ∀ i ∈ outcomes.map Prod.fst, st.phase i = .idle)
    (hquiet : ∀ i n a, st.phase i ≠ .running n a) :
    ∃ st', Steps S st st' ∧ st'.db S = s' ∧
      (∀ i r, (i, r) ∈ outcomes → ∃ n, st'.phase i = .returned n r) ∧
      ∀ i, i ∉ outcomes.map Prod.fst → st'.phase i = st.phase i := by
  induction h generalizing st with
  | nil s taken => exact ⟨st, .refl st, hs, by simp, fun _ _ => rfl⟩
  | @cons s s' taken i r ws ids rest halone _ ih =>
      subst hs ht
      have hi : st.phase i = .idle := hidle i (by simp)
      obtain ⟨st₁, n, hsteps, hdb, hissued, hphase, -⟩ :=
        halone.steps hi fun j _ m b => hquiet j m b
      rw [List.map_cons, List.nodup_cons] at hnodup
      have hother : ∀ j, j ≠ i → st₁.phase j = st.phase j := by
        intro j hj
        simp [hphase, hj]
      have hidle₁ : ∀ j ∈ rest.map Prod.fst, st₁.phase j = .idle := by
        intro j hj
        rw [hother j fun h => hnodup.1 (h ▸ hj)]
        exact hidle j (by simp [hj])
      have hquiet₁ : ∀ j m b, st₁.phase j ≠ .running m b := by
        intro j m b
        by_cases hji : j = i
        · simp [hphase, hji]
        · rw [hother j hji]
          exact hquiet j m b
      obtain ⟨st₂, hsteps₂, hdb₂, hreturned, hrest⟩ :=
        ih hdb hissued hnodup.2 hidle₁ hquiet₁
      refine ⟨st₂, hsteps.trans hsteps₂, hdb₂, fun j r' hj => ?_, fun j hj => ?_⟩
      · rcases List.mem_cons.mp hj with hj | hj
        · obtain ⟨rfl, rfl⟩ := Prod.mk.inj hj
          exact ⟨n, by rw [hrest j hnodup.1, hphase, Function.update_self]⟩
        · exact hreturned j r' hj
      · obtain ⟨hji, hj⟩ : j ≠ i ∧ j ∉ rest.map Prod.fst := by simpa using hj
        rw [hrest j hj, hother j hji]

/-! ### A call carried to its end -/

/-- Call `i` can be carried to its end while the others stay where they are. -/
def CanEnd (S : System ν σ ω ι ε α) (st : State ν σ ω ι ε α) (i : ν) : Prop :=
  ∃ st' n r, Steps S st st' ∧ (∀ j, j ≠ i → st'.phase j = st.phase j) ∧
    st'.phase i = .returned n r

/-- However far call `i` gets while the others stay where they are, its writes are
granted. -/
def Granted (S : System ν σ ω ι ε α) (st : State ν σ ω ι ε α) (i : ν) : Prop :=
  ∀ st', Steps S st st' → (∀ j, j ≠ i → st'.phase j = st.phase j) →
    ∀ n a w k, st'.phase i = .running n a → a.rest = .write w k →
      st'.Free i a.start w ∧ DocStore.accepts w = true ∧
        DocStore.clashes (st'.viewOf S a) w = false

theorem moveTo_phase_of_ne (st : State ν σ ω ι ε α) {i j : ν} (hj : j ≠ i) (issued : Set ι)
    (p : Phase σ ω ι ε α) : (st.moveTo i issued p).phase j = st.phase j :=
  Function.update_of_ne hj _ _

theorem moveTo_phase_self (st : State ν σ ω ι ε α) (i : ν) (issued : Set ι)
    (p : Phase σ ω ι ε α) : (st.moveTo i issued p).phase i = p :=
  Function.update_self _ _ _

theorem CanEnd.of_move {i : ν} {issued : Set ι} {p : Phase σ ω ι ε α}
    (hm : Move S st i issued p) (h : CanEnd S (st.moveTo i issued p) i) : CanEnd S st i := by
  obtain ⟨st', n, r, hsteps, hothers, hend⟩ := h
  refine ⟨st', n, r, (Steps.single (.move hm)).trans hsteps, fun j hj => ?_, hend⟩
  rw [hothers j hj, moveTo_phase_of_ne st hj]

/-- The last move of a call. -/
theorem CanEnd.of_returned {i : ν} {issued : Set ι} {n : Nat} {r : Except (Failure ε) α}
    (hm : Move S st i issued (.returned n r)) : CanEnd S st i :=
  .of_move hm ⟨_, n, r, .refl _, fun _ _ => rfl, moveTo_phase_self st i _ _⟩

theorem Granted.move {i : ν} {issued : Set ι} {p : Phase σ ω ι ε α} (h : Granted S st i)
    (hm : Move S st i issued p) : Granted S (st.moveTo i issued p) i := by
  intro st' hsteps hothers
  refine h st' ((Steps.single (.move hm)).trans hsteps) fun j hj => ?_
  rw [hothers j hj, moveTo_phase_of_ne st hj]

/-- What is left of an attempt can be gone through. -/
theorem Granted.canEnd_running [Infinite ι] {i : ν} {n : Nat} {a : Attempt σ ω ι ε α}
    (h : Granted S st i) (hfin : st.issued.Finite) (hp : st.phase i = .running n a) :
    CanEnd S st i := by
  generalize hrest : a.rest = p
  induction p generalizing st a with
  | done r =>
      refine ⟨_, n, .ok r, .single (.commit hp hrest), fun j hj => ?_, ?_⟩
      · exact Function.update_of_ne hj _ _
      · exact Function.update_self _ _ _
  | raise e => exact .of_returned (.raise hp hrest)
  | read k ih =>
      have hm := Move.read (S := S) hp hrest
      exact .of_move hm (ih _ (h.move hm) hfin (moveTo_phase_self st i _ _) rfl)
  | write w k ih =>
      obtain ⟨hfree, hacc, hclash⟩ := h st (.refl st) (fun _ _ => rfl) n a w k hp hrest
      have hm := Move.write (S := S) hp hrest hfree hacc hclash
      exact .of_move hm (ih (h.move hm) hfin (moveTo_phase_self st i _ _) rfl)
  | newId k ih =>
      obtain ⟨x, hx⟩ := hfin.exists_notMem
      have hm := Move.newId (S := S) hp hrest hx
      exact .of_move hm (ih x (h.move hm) (hfin.insert x) (moveTo_phase_self st i _ _) rfl)
  | now k ih =>
      have hm := Move.now (S := S) 0 hp hrest
      exact .of_move hm (ih 0 (h.move hm) hfin (moveTo_phase_self st i _ _) rfl)

/-- A call whose writes are granted can be carried to its end, wherever it has got
to. -/
theorem Granted.canEnd [Infinite ι] {i : ν} (h : Granted S st i) (hfin : st.issued.Finite) :
    CanEnd S st i := by
  -- an attempt is begun, and gone through
  have begin {st : State ν σ ω ι ε α} {n : Nat} (h : Granted S st i) (hfin : st.issued.Finite)
      (hp : st.phase i = .between n) : CanEnd S st i := by
    have hm := Move.begin (S := S) hp
    exact .of_move hm ((h.move hm).canEnd_running hfin (moveTo_phase_self st i _ _))
  cases hp : st.phase i with
  | idle =>
      cases hadm : (S.call i).admission with
      | none =>
          have hm := Move.invoke hp hadm
          exact .of_move hm (begin (h.move hm) hfin (moveTo_phase_self st i _ _))
      | some e => exact .of_returned (.refuse hp hadm)
  | between n => exact begin h hfin hp
  | running n a => exact h.canEnd_running hfin hp
  | returned n r => exact ⟨st, n, r, .refl st, fun _ _ => rfl, hp⟩

end Runs

end Mvcc

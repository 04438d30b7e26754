import Ledgerlock.Mvcc.History

/-!
# Ledgerlock.Mvcc.Outcome

Every answer a call ever gets is accounted for by the history.

A success is a commit of the log (`Answered.committed`). A rejection is
explained by one committed state, the snapshot of the attempt that raised it or
the state in which a unique index refused the write (`RejectedAt`). The two
remaining failures are a conflict over a write, a document the validator
refuses, or the infrastructure's doing. In each case the explanation comes with
a bound `m` on its age: nothing that was committed when the call had not begun
is missing from it (`Steps.accounted`).
-/

namespace Mvcc

variable {ν σ ω κ ι ε α : Type} [DocStore ω σ κ ι]

/-- Call `i` was rejected with `f`, and the committed state after `log` explains
it. -/
inductive RejectedAt (S : System ν σ ω ι ε α) (log : List (Commit ν ω ι)) (i : ν) :
    Failure ε → Prop
  /-- Refused before a session was opened. -/
  | refused {e : ε} : (S.call i).admission = some e → RejectedAt S log i (.raised e)
  /-- The program raised, run on this state. -/
  | raised {n : Nat} {ws : List ω} {ids : List ι} {e : ε} :
      (S.call i).admission = none →
      Progress (replay S.initial log) ((S.call i).body n) ws ids (.raise e) →
      RejectedAt S log i (.raised e)
  /-- The program, run on this state, repeated a key. -/
  | repeated {n : Nat} {ws : List ω} {ids : List ι} {w : ω} {k : Tx σ ω ι ε α} :
      (S.call i).admission = none →
      Progress (replay S.initial log) ((S.call i).body n) ws ids (.write w k) →
      (∀ x ∈ ids, x ∉ S.issued ∧ ∀ d ∈ log, x ∉ d.ids) →
      DocStore.clashes (view (replay S.initial log) ws) w = true →
      RejectedAt S log i .duplicateKey
  /-- The program, run on an earlier state, wrote a key that this state holds. -/
  | overtaken {n m : Nat} {ws : List ω} {ids : List ι} {w : ω} {k : Tx σ ω ι ε α} :
      (S.call i).admission = none → m ≤ log.length →
      Progress (replay S.initial (log.take m)) ((S.call i).body n) ws ids (.write w k) →
      (∀ x ∈ ids, x ∉ S.issued ∧ ∀ d ∈ log, x ∉ d.ids) →
      DocStore.clashes (replay S.initial log) w = true →
      RejectedAt S log i .duplicateKey

/-- What the history says about the answer a call got, from states that are at
least `m` commits old. -/
inductive Answered (S : System ν σ ω ι ε α) (m : Nat) (log : List (Commit ν ω ι)) (i : ν) :
    Nat → Except (Failure ε) α → Prop
  | committed {n : Nat} {c : Commit ν ω ι} {r : α} :
      (S.call i).admission = none → m ≤ c.start → c ∈ log → c.author = some i →
      Progress (replay S.initial (log.take c.start)) ((S.call i).body n)
        c.writes c.ids (.done r) →
      Answered S m log i n (.ok r)
  | rejected {n k : Nat} {f : Failure ε} :
      m ≤ k → k ≤ log.length → RejectedAt S (log.take k) i f → Answered S m log i n (.error f)
  /-- A conflict over a write the program came to. -/
  | conflict {n k : Nat} {ws : List ω} {ids : List ι} {w : ω} {p : Tx σ ω ι ε α} :
      m ≤ k → k ≤ log.length →
      Progress (replay S.initial (log.take k)) ((S.call i).body n) ws ids (.write w p) →
      Answered S m log i n (.error .transient)
  /-- The validator refused a document the program came to. -/
  | invalid {n k : Nat} {ws : List ω} {ids : List ι} {w : ω} {p : Tx σ ω ι ε α} :
      m ≤ k → k ≤ log.length →
      Progress (replay S.initial (log.take k)) ((S.call i).body n) ws ids (.write w p) →
      DocStore.accepts w = false → Answered S m log i n (.error .driver)
  | fault {n : Nat} {f : Failure ε} : S.faulty → f = .transient ∨ f = .driver →
      Answered S m log i n (.error f)
  /-- The commit was applied, but the driver did not learn of it. -/
  | lost {n : Nat} {c : Commit ν ω ι} {r : α} {f : Failure ε} : S.lossy →
      (S.call i).admission = none → m ≤ c.start → c ∈ log → c.author = some i →
      Progress (replay S.initial (log.take c.start)) ((S.call i).body n)
        c.writes c.ids (.done r) → f = .transient ∨ f = .driver →
      Answered S m log i n (.error f)

/-- Commits made later do not change what the history says about an answer. -/
theorem Answered.append {S : System ν σ ω ι ε α} {m : Nat} {log : List (Commit ν ω ι)} {i : ν}
    {n : Nat} {r : Except (Failure ε) α} {c : Commit ν ω ι} (hlog : History S log)
    (h : Answered S m log i n r) : Answered S m (log ++ [c]) i n r := by
  have take {k : Nat} (hk : k ≤ log.length) : (log ++ [c]).take k = log.take k :=
    List.take_append_of_le_length hk
  have start_le {d : Commit ν ω ι} (hd : d ∈ log) (hi : d.author = some i) :
      d.start ≤ log.length := by
    obtain ⟨k, hk⟩ := List.mem_iff_getElem?.mp hd
    cases hlog.follows hk with
    | txn _ _ hle => exact hle.trans (List.length_take_le' _ _)
    | direct => cases hi
  have longer : log.length ≤ (log ++ [c]).length := by simp
  cases h with
  | committed hadm hm hd hi hprog =>
      refine .committed hadm hm (List.mem_append_left _ hd) hi ?_
      rwa [take (start_le hd hi)]
  | rejected hm hk hrej => exact .rejected hm (hk.trans longer) (by rwa [take hk])
  | conflict hm hk hprog => exact .conflict hm (hk.trans longer) (by rwa [take hk])
  | invalid hm hk hprog hacc => exact .invalid hm (hk.trans longer) (by rwa [take hk]) hacc
  | fault hf hr => exact .fault hf hr
  | lost hl hadm hm hd hi hprog hr =>
      rw [← take (start_le hd hi)] at hprog
      exact .lost hl hadm hm (List.mem_append_left _ hd) hi hprog hr

/-- Call `i` reads nothing older than `m`, and its answer is accounted for. -/
structure Accounted (S : System ν σ ω ι ε α) (m : Nat) (st : State ν σ ω ι ε α) (i : ν) :
    Prop where
  recent : m ≤ st.log.length
  running : ∀ n a, st.phase i = .running n a → m ≤ a.start
  returned : ∀ n r, st.phase i = .returned n r → Answered S m st.log i n r

/-- A failure labelled transient that ends the call. -/
theorem System.AfterTransient.returned {S : System ν σ ω ι ε α} {i : ν} {n k : Nat}
    {r : Except (Failure ε) α} (h : S.AfterTransient i n (.returned k r)) :
    k = n ∧ r = .error .transient := by
  rcases h with ⟨-, h⟩ | h
  · cases h
  · cases h
    exact ⟨rfl, rfl⟩

/-- A rejection is explained by the snapshot or by the present state. -/
theorem Move.answered {S : System ν σ ω ι ε α} {m : Nat} {st : State ν σ ω ι ε α} {i : ν}
    {issued : Set ι} {n : Nat} {r : Except (Failure ε) α} (hst : Sound S st)
    (hacc : Accounted S m st i) (h : Move S st i issued (.returned n r)) :
    Answered S m st.log i n r := by
  cases h with
  | refuse _ hadm => exact .rejected hacc.recent le_rfl (.refused hadm)
  | @raise _ a e hp he =>
      have ha := hst.running _ _ _ hp
      have hprog := ha.progress
      rw [he] at hprog
      exact .rejected (hacc.running _ _ hp) ha.start_le (.raised ha.admitted hprog)
  | @duplicate _ a w k hp hw hclash =>
      have ha := hst.running _ _ _ hp
      have hprog := ha.progress
      rw [hw] at hprog
      rcases hclash with hclash | hclash
      · refine .rejected (hacc.running _ _ hp) ha.start_le
          (.repeated ha.admitted hprog ?_ hclash)
        exact fun x hx => ⟨(ha.ids_new x hx).1,
          fun d hd => (ha.ids_new x hx).2 d (List.mem_of_mem_take hd)⟩
      · refine .rejected hacc.recent le_rfl ?_
        rw [List.take_length]
        exact .overtaken ha.admitted ha.start_le hprog ha.ids_new hclash
  | @invalid _ a w k hp hw hrefused =>
      have ha := hst.running _ _ _ hp
      have hprog := ha.progress
      rw [hw] at hprog
      exact .invalid (hacc.running _ _ hp) ha.start_le hprog hrefused
  | @conflict _ a w k _ hp hw _ hq =>
      have ha := hst.running _ _ _ hp
      have hprog := ha.progress
      rw [hw] at hprog
      obtain ⟨rfl, rfl⟩ := hq.returned
      exact .conflict (hacc.running _ _ hp) ha.start_le hprog
  | fault hf _ hq =>
      rcases hq with hq | hq
      · obtain ⟨-, rfl⟩ := hq.returned
        exact .fault hf (.inl rfl)
      · cases hq
        exact .fault hf (.inr rfl)

section Runs

variable [DecidableEq ν] {S : System ν σ ω ι ε α} {m : Nat} {st st' : State ν σ ω ι ε α} {i : ν}

theorem Accounted.move {j : ν} {issued : Set ι} {p : Phase σ ω ι ε α} (hst : Sound S st)
    (hacc : Accounted S m st i) (h : Move S st j issued p) :
    Accounted S m (st.moveTo j issued p) i := by
  by_cases hij : i = j
  · subst hij
    have hphase : (st.moveTo i issued p).phase i = p := by simp [State.moveTo]
    refine ⟨hacc.recent, fun n a ha => ?_, fun n r hr => ?_⟩
    · obtain rfl : p = .running n a := hphase.symm.trans ha
      cases h with
      | begin => exact hacc.recent
      | read hp | write hp | newId hp | now _ hp =>
          have hle := hacc.running _ _ hp
          exact hle
      | conflict _ _ _ hq => exact hq.not_running.elim
      | fault _ _ hq =>
          rcases hq with hq | hq
          · exact hq.not_running.elim
          · cases hq
    · obtain rfl : p = .returned n r := hphase.symm.trans hr
      have hans := h.answered hst hacc
      exact hans
  · have hphase : (st.moveTo j issued p).phase i = st.phase i := by simp [State.moveTo, hij]
    exact ⟨hacc.recent, fun n a ha => hacc.running n a (hphase ▸ ha),
      fun n r hr => hacc.returned n r (hphase ▸ hr)⟩

theorem Accounted.commit {j : ν} {n : Nat} {a : Attempt σ ω ι ε α} {r : α}
    {p : Phase σ ω ι ε α} (hst : Sound S st) (hacc : Accounted S m st i)
    (hp : st.phase j = .running n a) (hr : a.rest = .done r)
    (hq : p = .returned n (.ok r) ∨
      S.lossy ∧ (S.AfterTransient j n p ∨ p = .returned n (.error .driver))) :
    Accounted S m (st.commit j a p) i := by
  have hlonger : m ≤ (st.commit j a p).log.length :=
    hacc.recent.trans (by simp [State.commit])
  by_cases hij : i = j
  · subst hij
    have hphase : (st.commit i a p).phase i = p := by simp [State.commit]
    refine ⟨hlonger, fun k b hb => ?_, fun k r' hr' => ?_⟩
    · obtain rfl : p = .running k b := hphase.symm.trans hb
      rcases hq with hq | ⟨-, hq | hq⟩
      · cases hq
      · exact hq.not_running.elim
      · cases hq
    · obtain rfl : p = .returned k r' := hphase.symm.trans hr'
      have ha := hst.running _ _ _ hp
      have hprog := ha.progress
      rw [hr] at hprog
      have hmem : (⟨some i, a.start, a.writes, a.ids⟩ : Commit ν ω ι) ∈
          (st.commit i a (.returned k r')).log := by simp [State.commit]
      have hthen : Progress (replay S.initial
          ((st.commit i a (.returned k r')).log.take a.start)) ((S.call i).body n) a.writes a.ids
          (.done r) := by
        simpa [State.commit, State.dbAt, List.take_append_of_le_length ha.start_le] using hprog
      rcases hq with hq | ⟨hlossy, hq | hq⟩
      · cases hq
        exact .committed ha.admitted (hacc.running _ _ hp) hmem rfl hthen
      · obtain ⟨rfl, rfl⟩ := hq.returned
        exact .lost hlossy ha.admitted (hacc.running _ _ hp) hmem rfl hthen (.inl rfl)
      · cases hq
        exact .lost hlossy ha.admitted (hacc.running _ _ hp) hmem rfl hthen (.inr rfl)
  · have hphase : (st.commit j a p).phase i = st.phase i := by simp [State.commit, hij]
    exact ⟨hlonger, fun n a ha => hacc.running n a (hphase ▸ ha),
      fun n r hr => (hacc.returned n r (hphase ▸ hr)).append hst.history⟩

theorem Accounted.step (hst : Sound S st) (hacc : Accounted S m st i) (h : Step S st st') :
    Accounted S m st' i := by
  cases h with
  | move hm => exact hacc.move hst hm
  | commit hp hr => exact hacc.commit hst hp hr (.inl rfl)
  | commitLost hl hp hr hq => exact hacc.commit hst hp hr (.inr ⟨hl, hq⟩)
  | direct =>
      exact ⟨hacc.recent.trans (by simp [State.commitDirect]), hacc.running,
        fun n r h => (hacc.returned n r h).append hst.history⟩

theorem Accounted.steps (hst : Sound S st) (hacc : Accounted S m st i) (h : Steps S st st') :
    Accounted S m st' i := by
  induction h with
  | refl => exact hacc
  | tail hs hstep ih => exact ih.step (hst.steps hs) hstep

/-- The answer of a call that had not begun an attempt is accounted for by states
that are no older. -/
theorem Steps.accounted (hst : Sound S st) (hi : st.phase i = .idle ∨ st.phase i = .between 0)
    (h : Steps S st st') : Accounted S st.log.length st' i := by
  refine Accounted.steps hst ⟨le_rfl, fun n a ha => ?_, fun n r hr => ?_⟩ h
  · rcases hi with hi | hi <;> simp [hi] at ha
  · rcases hi with hi | hi <;> simp [hi] at hr

/-- Every answer given in a run is accounted for by its history. -/
theorem Reachable.accounted (h : Reachable S st) (i : ν) : Accounted S 0 st i :=
  Steps.accounted (Sound.start S) (.inl rfl) h

end Runs

end Mvcc

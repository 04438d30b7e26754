import Ledgerlock.Mvcc.System
import Mathlib.Data.List.Lattice

/-!
# Ledgerlock.Mvcc.History

What every run of a system leaves behind: a **snapshot-isolated history**.

`History S log` describes a log of commits without mentioning the interleaving
that produced it: every transaction in it was computed on a prefix of the log,
and no commit after that prefix shares a lock with it. `Reachable.history` is
the bridge from the interleaved system to this description, so a property of
the committed state is proved by induction on a history (`History.invariant`),
and a fact that a transaction read is carried from its snapshot to its commit
by `History.since`.
-/

namespace Mvcc

variable {ν σ ω κ ι ε α : Type} [DocStore ω σ κ ι]

/-- `c` may be the next commit after `log`: a transaction computed on a prefix of
the log, on fresh ids, that shares no lock with the commits after that prefix;
or a single write made outside any transaction. -/
inductive Follows (S : System ν σ ω ι ε α) (log : List (Commit ν ω ι)) :
    Commit ν ω ι → Prop
  | txn {c : Commit ν ω ι} {i : ν} {n : Nat} {r : α} :
      c.author = some i → (S.call i).admission = none → c.start ≤ log.length →
      (∀ d ∈ log.drop c.start, c.footprint.Disjoint d.footprint) →
      Progress (replay S.initial (log.take c.start)) ((S.call i).body n)
        c.writes c.ids (.done r) →
      (∀ x ∈ c.ids, x ∉ S.issued ∧ ∀ d ∈ log, x ∉ d.ids) →
      Follows S log c
  | direct {st : State ν σ ω ι ε α} {w : ω} :
      st.log = log → S.direct st w → DocStore.accepts w = true →
      DocStore.clashes (replay S.initial log) w = false →
      (∀ x ∈ DocStore.creates w, x ∉ S.issued ∧ ∀ d ∈ log, x ∉ d.ids) →
      Follows S log ⟨none, log.length, [w], DocStore.creates w⟩

/-- A commit has its ids to itself. -/
theorem Follows.fresh {S : System ν σ ω ι ε α} {log : List (Commit ν ω ι)} {c : Commit ν ω ι}
    (h : Follows S log c) : ∀ x ∈ c.ids, x ∉ S.issued ∧ ∀ d ∈ log, x ∉ d.ids := by
  cases h with
  | txn _ _ _ _ _ hfresh => exact hfresh
  | direct _ _ _ _ hfresh => exact hfresh

/-- A log every commit of which may follow the ones before it. -/
inductive History (S : System ν σ ω ι ε α) : List (Commit ν ω ι) → Prop
  | nil : History S []
  | snoc {log : List (Commit ν ω ι)} {c : Commit ν ω ι} :
      History S log → Follows S log c → History S (log ++ [c])

namespace History

variable {S : System ν σ ω ι ε α} {log : List (Commit ν ω ι)}

/-- Every prefix of a history is a history. -/
theorem take (h : History S log) (n : Nat) : History S (log.take n) := by
  induction h with
  | nil => simpa using History.nil
  | @snoc log c h hc ih =>
      rcases Nat.lt_or_ge log.length n with hn | hn
      · rw [List.take_of_length_le (by simpa using Nat.succ_le_of_lt hn)]
        exact .snoc h hc
      · rw [List.take_append_of_le_length hn]
        exact ih

/-- Every commit of a history follows the log up to it. -/
theorem follows (h : History S log) {n : Nat} {c : Commit ν ω ι} (hc : log[n]? = some c) :
    Follows S (log.take n) c := by
  induction h with
  | nil => simp at hc
  | @snoc log d h hd ih =>
      rcases Nat.lt_trichotomy n log.length with hn | rfl | hn
      · rw [List.getElem?_append_left hn] at hc
        rw [List.take_append_of_le_length hn.le]
        exact ih hc
      · obtain rfl : d = c := by simpa using hc
        simpa using hd
      · have : (log ++ [d]).length ≤ n := by simpa using Nat.succ_le_of_lt hn
        rw [List.getElem?_eq_none this] at hc
        cases hc

/-- No two commits share an id. -/
theorem eq_of_id (h : History S log) {c d : Commit ν ω ι} (hc : c ∈ log) (hd : d ∈ log)
    {x : ι} (hxc : x ∈ c.ids) (hxd : x ∈ d.ids) : c = d := by
  induction h with
  | nil => simp at hc
  | snoc _ hlast ih =>
      rcases List.mem_append.mp hc with hc' | hc'
      · rcases List.mem_append.mp hd with hd' | hd'
        · exact ih hc' hd'
        · obtain rfl := List.mem_singleton.mp hd'
          exact absurd hxc ((hlast.fresh x hxd).2 c hc')
      · obtain rfl := List.mem_singleton.mp hc'
        rcases List.mem_append.mp hd with hd' | hd'
        · exact absurd hxd ((hlast.fresh x hxc).2 d hd')
        · exact (List.mem_singleton.mp hd').symm

/-- The invariant rule: a property of the initial state that every commit
establishes, given that all earlier states had it, holds of every state. -/
theorem invariant {P : σ → Prop} (h : History S log) (h₀ : P S.initial)
    (step : ∀ log c, History S log → Follows S log c →
      (∀ n, P (replay S.initial (log.take n))) → P (replay S.initial (log ++ [c]))) :
    P (replay S.initial log) := by
  have all : ∀ n, P (replay S.initial (log.take n)) := by
    induction h with
    | nil => intro n; simpa using h₀
    | @snoc log c h hc ih =>
        intro n
        rcases Nat.lt_or_ge log.length n with hn | hn
        · rw [List.take_of_length_le (by simpa using Nat.succ_le_of_lt hn)]
          exact step log c h hc ih
        · rw [List.take_append_of_le_length hn]
          exact ih n
  simpa using all log.length

/-- Carrying a fact from a snapshot to a later state: it is enough that every
commit in between keeps it. -/
theorem since {P : σ → Prop} (h : History S log) {n : Nat} (hn : n ≤ log.length)
    (h₀ : P (replay S.initial (log.take n)))
    (step : ∀ m c, n ≤ m → log[m]? = some c → Follows S (log.take m) c →
      P (replay S.initial (log.take m)) →
      P (view (replay S.initial (log.take m)) c.writes)) :
    P (replay S.initial log) := by
  have all : ∀ k, n + k ≤ log.length → P (replay S.initial (log.take (n + k))) := by
    intro k
    induction k with
    | zero => exact fun _ => h₀
    | succ k ih =>
        intro hk
        have hlt : n + k < log.length := by omega
        have hc := List.getElem?_eq_getElem hlt
        rw [← Nat.add_assoc, List.take_add_one, hc, Option.toList_some, replay_concat]
        exact step (n + k) _ (by omega) hc (h.follows hc) (ih (by omega))
  have := all (log.length - n) (by omega)
  rwa [Nat.add_sub_cancel' hn, List.take_length] at this

end History

/-! ### The invariant of a run -/

/-- An open attempt of call `i` is its program run on its snapshot; it holds
nothing that was committed since, and its ids are its own. -/
structure Attempt.Sound (S : System ν σ ω ι ε α) (st : State ν σ ω ι ε α) (i : ν)
    (n : Nat) (a : Attempt σ ω ι ε α) : Prop where
  admitted : (S.call i).admission = none
  start_le : a.start ≤ st.log.length
  progress : Progress (st.dbAt S a.start) ((S.call i).body n) a.writes a.ids a.rest
  unbeaten : ∀ c ∈ st.log.drop a.start, a.held.Disjoint c.footprint
  ids_issued : ∀ x ∈ a.ids, x ∈ st.issued
  ids_new : ∀ x ∈ a.ids, x ∉ S.issued ∧ ∀ c ∈ st.log, x ∉ c.ids

/-- Two attempts share neither locks nor ids. -/
structure Attempt.Apart (a b : Attempt σ ω ι ε α) : Prop where
  held : a.held.Disjoint b.held
  ids : a.ids.Disjoint b.ids

theorem Attempt.Apart.symm {a b : Attempt σ ω ι ε α} (h : a.Apart b) : b.Apart a :=
  ⟨List.Disjoint.symm h.held, List.Disjoint.symm h.ids⟩

/-- The invariant of every run. -/
structure Sound (S : System ν σ ω ι ε α) (st : State ν σ ω ι ε α) : Prop where
  history : History S st.log
  initially_issued : ∀ x ∈ S.issued, x ∈ st.issued
  logged_issued : ∀ c ∈ st.log, ∀ x ∈ c.ids, x ∈ st.issued
  between : ∀ i n, st.phase i = .between n → (S.call i).admission = none
  running : ∀ i n a, st.phase i = .running n a → a.Sound S st i n
  apart : ∀ i j n m a b, i ≠ j → st.phase i = .running n a → st.phase j = .running m b →
    a.Apart b

theorem Sound.start (S : System ν σ ω ι ε α) : Sound S S.start where
  history := .nil
  initially_issued := fun _ h => h
  logged_issued := by simp [System.start]
  between := by simp [System.start]
  running := by simp [System.start]
  apart := by simp [System.start]

/-- A driver that gives up or starts over leaves no attempt open. -/
theorem System.AfterTransient.not_running {S : System ν σ ω ι ε α} {i : ν} {n m : Nat}
    {a : Attempt σ ω ι ε α} (h : S.AfterTransient i n (.running m a)) : False := by
  rcases h with ⟨-, h⟩ | h <;> cases h

/-- A move hands out ids but takes none back. -/
theorem Move.issued_mono {S : System ν σ ω ι ε α} {st : State ν σ ω ι ε α} {i : ν}
    {issued : Set ι} {p : Phase σ ω ι ε α} (h : Move S st i issued p) :
    st.issued ⊆ issued := by
  cases h <;> first | exact subset_rfl | exact Set.subset_insert _ _

/-- After a move into an open attempt, that attempt is sound and apart from
every other. -/
theorem Move.running [DecidableEq ν] {S : System ν σ ω ι ε α} {st : State ν σ ω ι ε α} {i : ν}
    {issued : Set ι} {m : Nat} {b : Attempt σ ω ι ε α} (hst : Sound S st)
    (h : Move S st i issued (.running m b)) :
    b.Sound S (st.moveTo i issued (.running m b)) i m ∧
      ∀ j n a, j ≠ i → st.phase j = .running n a → b.Apart a := by
  cases h with
  | begin hp =>
      refine ⟨⟨hst.between _ _ hp, le_rfl, ?_, by simp [State.moveTo], by simp, by simp⟩,
        fun j n a _ _ => ?_⟩
      · exact .start
      · exact ⟨by simp [Attempt.held], by simp⟩
  | @read n a k hp hk =>
      have ha := hst.running _ _ _ hp
      refine ⟨⟨ha.admitted, ha.start_le, ?_, ha.unbeaten, ha.ids_issued, ha.ids_new⟩,
        fun j m b hj hb => ?_⟩
      · have := ha.progress
        rw [hk] at this
        exact this.read
      · obtain ⟨h₁, h₂⟩ := hst.apart _ _ _ _ _ _ hj.symm hp hb
        exact ⟨h₁, h₂⟩
  | @write n a w k hp hk hfree hacc hclash =>
      have ha := hst.running _ _ _ hp
      have hheld : Attempt.held { a with writes := a.writes ++ [w], rest := k } =
          a.held ++ DocStore.footprint w := by simp [Attempt.held]
      refine ⟨⟨ha.admitted, ha.start_le, ?_, ?_, ha.ids_issued, ha.ids_new⟩, fun j m b hj hb => ?_⟩
      · have := ha.progress
        rw [hk] at this
        exact this.write hacc hclash
      · intro c hc
        rw [hheld]
        exact List.disjoint_append_left.mpr ⟨ha.unbeaten c hc, hfree.2 c hc⟩
      · obtain ⟨h₁, h₂⟩ := hst.apart _ _ _ _ _ _ hj.symm hp hb
        refine ⟨?_, h₂⟩
        rw [hheld]
        exact List.disjoint_append_left.mpr ⟨h₁, hfree.1 j hj m b hb⟩
  | @newId n a x k hp hk hx =>
      have ha := hst.running _ _ _ hp
      have hxa : x ∉ a.ids := fun h => hx (ha.ids_issued x h)
      refine ⟨⟨ha.admitted, ha.start_le, ?_, ha.unbeaten, ?_, ?_⟩, fun j m b hj hb => ?_⟩
      · have := ha.progress
        rw [hk] at this
        exact this.newId hxa
      · intro y hy
        rcases List.mem_append.mp hy with hy | hy
        · exact Set.mem_insert_of_mem _ (ha.ids_issued y hy)
        · rw [List.mem_singleton.mp hy]
          exact Set.mem_insert _ _
      · intro y hy
        rcases List.mem_append.mp hy with hy | hy
        · exact ha.ids_new y hy
        · rw [List.mem_singleton.mp hy]
          exact ⟨fun h => hx (hst.initially_issued x h),
            fun c hc h => hx (hst.logged_issued c hc x h)⟩
      · obtain ⟨h₁, h₂⟩ := hst.apart _ _ _ _ _ _ hj.symm hp hb
        refine ⟨h₁, List.disjoint_append_left.mpr ⟨h₂, ?_⟩⟩
        -- the other attempt's ids were handed out before this one
        rw [List.singleton_disjoint]
        exact fun h => hx ((hst.running _ _ _ hb).ids_issued x h)
  | @now n a k t hp hk =>
      have ha := hst.running _ _ _ hp
      refine ⟨⟨ha.admitted, ha.start_le, ?_, ha.unbeaten, ha.ids_issued, ha.ids_new⟩,
        fun j m b hj hb => ?_⟩
      · have := ha.progress
        rw [hk] at this
        exact this.now t
      · obtain ⟨h₁, h₂⟩ := hst.apart _ _ _ _ _ _ hj.symm hp hb
        exact ⟨h₁, h₂⟩
  | conflict _ _ _ hp => exact hp.not_running.elim
  | fault _ _ hp =>
      rcases hp with hp | hp
      · exact hp.not_running.elim
      · cases hp

/-- Appending to the log keeps an attempt sound when the new commit shares
neither locks nor ids with it. -/
theorem Attempt.Sound.append {S : System ν σ ω ι ε α} {st st' : State ν σ ω ι ε α}
    {i : ν} {n : Nat} {a : Attempt σ ω ι ε α} {c : Commit ν ω ι} (ha : a.Sound S st i n)
    (hlog : st'.log = st.log ++ [c]) (hissued : st.issued ⊆ st'.issued)
    (hheld : a.held.Disjoint c.footprint) (hids : a.ids.Disjoint c.ids) :
    a.Sound S st' i n where
  admitted := ha.admitted
  start_le := by
    rw [hlog, List.length_append]
    exact Nat.le_add_right_of_le ha.start_le
  progress := by
    have : st'.dbAt S a.start = st.dbAt S a.start := by
      simp [State.dbAt, hlog, List.take_append_of_le_length ha.start_le]
    rw [this]
    exact ha.progress
  unbeaten := by
    intro d hd
    rw [hlog, List.drop_append_of_le_length ha.start_le] at hd
    rcases List.mem_append.mp hd with hd | hd
    · exact ha.unbeaten d hd
    · rw [List.mem_singleton.mp hd]
      exact hheld
  ids_issued := fun x hx => hissued (ha.ids_issued x hx)
  ids_new := by
    intro x hx
    refine ⟨(ha.ids_new x hx).1, fun d hd => ?_⟩
    rw [hlog] at hd
    rcases List.mem_append.mp hd with hd | hd
    · exact (ha.ids_new x hx).2 d hd
    · rw [List.mem_singleton.mp hd]
      exact fun h => hids hx h

theorem Sound.direct {S : System ν σ ω ι ε α} {st : State ν σ ω ι ε α} {w : ω}
    (hst : Sound S st) (hd : S.direct st w)
    (hheld : ∀ j n a, st.phase j = .running n a → (DocStore.footprint w).Disjoint a.held)
    (hacc : DocStore.accepts w = true) (hclash : DocStore.clashes (st.db S) w = false)
    (hnew : ∀ x ∈ DocStore.creates w, x ∉ st.issued) : Sound S (st.commitDirect w) := by
  refine ⟨?_, fun x hx => .inl (hst.initially_issued x hx), ?_, hst.between, ?_, hst.apart⟩
  · refine .snoc hst.history (.direct rfl hd hacc hclash fun x hx => ⟨?_, ?_⟩)
    · exact fun h => hnew x hx (hst.initially_issued x h)
    · exact fun c hc h => hnew x hx (hst.logged_issued c hc x h)
  · intro c hc x hx
    rcases List.mem_append.mp hc with hc | hc
    · exact .inl (hst.logged_issued c hc x hx)
    · rw [List.mem_singleton.mp hc] at hx
      exact .inr hx
  · intro j n a hj
    have ha := hst.running _ _ _ hj
    refine ha.append rfl Set.subset_union_left ?_ ?_
    · simpa [Commit.footprint] using List.Disjoint.symm (hheld j n a hj)
    · exact fun x hxa hxw => hnew x hxw (ha.ids_issued x hxa)

section Runs

variable [DecidableEq ν]

theorem Sound.move {S : System ν σ ω ι ε α} {st : State ν σ ω ι ε α} {i : ν}
    {issued : Set ι} {p : Phase σ ω ι ε α} (hst : Sound S st) (h : Move S st i issued p) :
    Sound S (st.moveTo i issued p) := by
  have hmono := h.issued_mono
  have hphase : ∀ j q, (st.moveTo i issued p).phase j = q →
      (j = i ∧ p = q) ∨ (j ≠ i ∧ st.phase j = q) := by
    intro j q hj
    by_cases hji : j = i
    · subst hji
      exact .inl ⟨rfl, by simpa [State.moveTo] using hj⟩
    · exact .inr ⟨hji, by simpa [State.moveTo, hji] using hj⟩
  refine ⟨hst.history, fun x hx => hmono (hst.initially_issued x hx),
    fun c hc x hx => hmono (hst.logged_issued c hc x hx), ?_, ?_, ?_⟩
  · intro j n hj
    rcases hphase j _ hj with ⟨rfl, rfl⟩ | ⟨-, hj⟩
    · cases h with
      | invoke _ hadm => exact hadm
      | conflict hp => exact (hst.running _ _ _ hp).admitted
      | fault _ hp => exact (hst.running _ _ _ hp).admitted
    · exact hst.between j n hj
  · intro j n a hj
    rcases hphase j _ hj with ⟨rfl, rfl⟩ | ⟨hji, hj⟩
    · exact (h.running hst).1
    · have ha := hst.running _ _ _ hj
      exact ⟨ha.admitted, ha.start_le, ha.progress, ha.unbeaten,
        fun x hx => hmono (ha.ids_issued x hx),
        ha.ids_new⟩
  · intro j k n m a b hjk hj hk
    rcases hphase j _ hj with ⟨hji, rfl⟩ | ⟨hji, hj'⟩
    · rcases hphase k _ hk with ⟨hki, -⟩ | ⟨hki, hk'⟩
      · exact absurd (hji.trans hki.symm) hjk
      · exact (h.running hst).2 k m b hki hk'
    · rcases hphase k _ hk with ⟨-, rfl⟩ | ⟨-, hk'⟩
      · exact ((h.running hst).2 j n a hji hj').symm
      · exact hst.apart _ _ _ _ _ _ hjk hj' hk'

theorem Sound.commit {S : System ν σ ω ι ε α} {st : State ν σ ω ι ε α} {i : ν} {n : Nat}
    {a : Attempt σ ω ι ε α} {r : α} {p : Phase σ ω ι ε α} (hst : Sound S st)
    (hp : st.phase i = .running n a) (hr : a.rest = .done r)
    (hdone : ∀ m b, p ≠ .running m b) : Sound S (st.commit i a p) := by
  have ha := hst.running _ _ _ hp
  have hphase : ∀ j m b, (st.commit i a p).phase j = .running m b →
      j ≠ i ∧ st.phase j = .running m b := by
    intro j m b hj
    by_cases hji : j = i
    · subst hji
      exact absurd (by simpa [State.commit] using hj) (hdone m b)
    · exact ⟨hji, by simpa [State.commit, hji] using hj⟩
  refine ⟨?_, hst.initially_issued, ?_, ?_, ?_, ?_⟩
  · have hprog := ha.progress
    rw [hr] at hprog
    exact .snoc hst.history (.txn rfl ha.admitted ha.start_le ha.unbeaten hprog ha.ids_new)
  · intro c hc x hx
    rcases List.mem_append.mp hc with hc | hc
    · exact hst.logged_issued c hc x hx
    · rw [List.mem_singleton.mp hc] at hx
      exact ha.ids_issued x hx
  · intro j m hj
    by_cases hji : j = i
    · exact hji ▸ ha.admitted
    · exact hst.between j m (by simpa [State.commit, hji] using hj)
  · intro j m b hj
    obtain ⟨hji, hj⟩ := hphase j m b hj
    have hab := hst.apart _ _ _ _ _ _ hji hj hp
    exact (hst.running _ _ _ hj).append rfl subset_rfl hab.held hab.ids
  · intro j k m l b b' hjk hj hk
    exact hst.apart _ _ _ _ _ _ hjk (hphase j m b hj).2 (hphase k l b' hk).2

theorem Sound.step {S : System ν σ ω ι ε α} {st st' : State ν σ ω ι ε α} (hst : Sound S st)
    (h : Step S st st') : Sound S st' := by
  cases h with
  | move hm => exact hst.move hm
  | commit hp hr => exact hst.commit hp hr (by simp)
  | commitLost _ hp hr hq =>
      refine hst.commit hp hr fun m b h => ?_
      subst h
      rcases hq with hq | hq
      · exact hq.not_running
      · cases hq
  | direct hd hheld hacc hclash hnew => exact hst.direct hd hheld hacc hclash hnew

theorem Sound.steps {S : System ν σ ω ι ε α} {st st' : State ν σ ω ι ε α} (hst : Sound S st)
    (h : Steps S st st') : Sound S st' := by
  induction h with
  | refl => exact hst
  | tail _ hs ih => exact ih.step hs

/-- The log only grows. -/
theorem Steps.log_grows {S : System ν σ ω ι ε α} {st st' : State ν σ ω ι ε α}
    (h : Steps S st st') : st.log <+: st'.log := by
  induction h with
  | refl => exact List.prefix_rfl
  | tail _ hstep ih =>
      refine ih.trans ?_
      cases hstep with
      | move => exact List.prefix_rfl
      | commit | commitLost | direct => exact List.prefix_append _ _

/-- Every reachable state satisfies the invariant. -/
theorem Reachable.sound {S : System ν σ ω ι ε α} {st : State ν σ ω ι ε α}
    (h : Reachable S st) : Sound S st :=
  (Sound.start S).steps h

theorem Reachable.history {S : System ν σ ω ι ε α} {st : State ν σ ω ι ε α}
    (h : Reachable S st) : History S st.log :=
  h.sound.history

end Runs

end Mvcc

import Ledgerlock.Mvcc.Program
import Mathlib.Logic.Function.Basic

/-!
# Ledgerlock.Mvcc.System

Any number of clients running transaction programs against one store, under
**snapshot isolation**. A configuration (`State`) is the log of commits, the ids
handed out so far, the phase each call is in, and the trace of calls and
returns; the committed state itself is `State.db`, the replay of the log.

The rules are the ones a document database promises for its transactions:

* an attempt reads the committed state of its first operation plus its own
  writes (`begin`, `read`);
* a write is granted when nothing it locks is held by an open attempt or was
  committed after the snapshot (`State.Free`), and is otherwise a transient
  failure (`conflict`); a key the unique indexes already hold may also be
  reported as a duplicate (`duplicate`);
* a commit applies all writes of the attempt at once, and an attempt that ends
  any other way applies none.

After a transient failure the driver re-runs the program from the top or gives
up, at its own discretion, so every retry policy is covered. Two switches widen
the environment: `System.faulty` lets an attempt fail at any point for reasons
of the server's or the network's, and `System.lossy` lets a commit be applied
without the driver learning of it.
-/

namespace Mvcc

variable {ν σ ω κ ι ε α : Type}

/-- Why a transaction did not return a result. -/
inductive Failure (ε : Type)
  /-- An exception of the program itself. -/
  | raised (e : ε)
  /-- A unique index refused a write. -/
  | duplicateKey
  /-- A failure labelled as safe to retry, after the last retry. -/
  | transient
  /-- Any other failure of the server or the driver. -/
  | driver
  deriving Repr, DecidableEq

/-- A client's call: possibly refused before a session is opened, otherwise a
transaction program. The program is told which attempt it is. -/
structure Call (σ ω ι ε α : Type) where
  admission : Option ε
  /-- Does the driver re-run the program after a transient failure? -/
  retries : Bool
  body : Nat → Tx σ ω ι ε α

/-- One open attempt: the length of the log at its snapshot, the writes it
holds, the ids it generated, and the rest of the program. -/
structure Attempt (σ ω ι ε α : Type) where
  start : Nat
  writes : List ω
  ids : List ι
  rest : Tx σ ω ι ε α

/-- What a call is doing; `attempts` counts the attempts begun. -/
inductive Phase (σ ω ι ε α : Type)
  | idle
  | between (attempts : Nat)
  | running (attempts : Nat) (a : Attempt σ ω ι ε α)
  | returned (attempts : Nat) (r : Except (Failure ε) α)

/-- One committed transaction, or one write made outside any (`author = none`). -/
structure Commit (ν ω ι : Type) where
  author : Option ν
  start : Nat
  writes : List ω
  ids : List ι

/-- What an observer of the clients sees. -/
inductive Event (ν : Type)
  | invoked (i : ν)
  | returned (i : ν)
  deriving Repr, DecidableEq

structure State (ν σ ω ι ε α : Type) where
  log : List (Commit ν ω ι)
  issued : Set ι
  phase : ν → Phase σ ω ι ε α
  trace : List (Event ν)

/-- A system: the state it starts from, the ids in use there, the calls, and
what the environment may do. -/
structure System (ν σ ω ι ε α : Type) where
  initial : σ
  issued : Set ι
  call : ν → Call σ ω ι ε α
  /-- The single-document writes made outside any transaction. -/
  direct : State ν σ ω ι ε α → ω → Prop
  /-- May a commit be applied without its acknowledgement arriving? -/
  lossy : Prop
  /-- May an attempt fail for a reason of the server's own? -/
  faulty : Prop

section Replay

variable [DocStore ω σ κ ι]

/-- Everything an attempt holds locks on. -/
def Attempt.held (a : Attempt σ ω ι ε α) : List κ :=
  a.writes.flatMap DocStore.footprint

/-- Everything a commit wrote. -/
def Commit.footprint (c : Commit ν ω ι) : List κ :=
  c.writes.flatMap DocStore.footprint

/-- The state after a log of commits. -/
def replay (s : σ) (log : List (Commit ν ω ι)) : σ :=
  log.foldl (fun s c => view s c.writes) s

@[simp] theorem replay_nil (s : σ) : replay s ([] : List (Commit ν ω ι)) = s := rfl

@[simp] theorem replay_concat (s : σ) (log : List (Commit ν ω ι)) (c : Commit ν ω ι) :
    replay s (log ++ [c]) = view (replay s log) c.writes := by
  simp [replay]

end Replay

section Step

variable [DocStore ω σ κ ι] [DecidableEq ν]

/-- The committed state when the log was `n` commits long. -/
def State.dbAt (S : System ν σ ω ι ε α) (st : State ν σ ω ι ε α) (n : Nat) : σ :=
  replay S.initial (st.log.take n)

/-- The committed state. -/
def State.db (S : System ν σ ω ι ε α) (st : State ν σ ω ι ε α) : σ :=
  replay S.initial st.log

/-- What an open attempt reads. -/
def State.viewOf (S : System ν σ ω ι ε α) (st : State ν σ ω ι ε α)
    (a : Attempt σ ω ι ε α) : σ :=
  view (st.dbAt S a.start) a.writes

/-- No open attempt but `i`'s holds a lock the write needs. -/
def State.Unheld (st : State ν σ ω ι ε α) (i : ν) (w : ω) : Prop :=
  ∀ j, j ≠ i → ∀ n a, st.phase j = .running n a →
    (DocStore.footprint w).Disjoint a.held

/-- The write conflicts with nothing: no other open attempt holds what it locks,
and no commit after the snapshot wrote it. -/
def State.Free (st : State ν σ ω ι ε α) (i : ν) (start : Nat) (w : ω) : Prop :=
  st.Unheld i w ∧ ∀ c ∈ st.log.drop start, (DocStore.footprint w).Disjoint c.footprint

/-- The events an observer sees when a call goes from one phase to another. -/
def Phase.events (i : ν) : Phase σ ω ι ε α → Phase σ ω ι ε α → List (Event ν)
  | .idle, .returned _ _ => [.invoked i, .returned i]
  | .idle, _ => [.invoked i]
  | _, .returned _ _ => [.returned i]
  | _, _ => []

/-- Call `i` enters phase `p`; the committed state does not change. -/
def State.moveTo (st : State ν σ ω ι ε α) (i : ν) (issued : Set ι)
    (p : Phase σ ω ι ε α) : State ν σ ω ι ε α where
  log := st.log
  issued := issued
  phase := Function.update st.phase i p
  trace := st.trace ++ Phase.events i (st.phase i) p

/-- The writes of call `i`'s attempt become part of the committed state, all at
once, and the call enters phase `p`. -/
def State.commit (st : State ν σ ω ι ε α) (i : ν) (a : Attempt σ ω ι ε α)
    (p : Phase σ ω ι ε α) : State ν σ ω ι ε α where
  log := st.log ++ [⟨some i, a.start, a.writes, a.ids⟩]
  issued := st.issued
  phase := Function.update st.phase i p
  trace := st.trace ++ Phase.events i (st.phase i) p

/-- One document is written outside any transaction, at once. -/
def State.commitDirect (st : State ν σ ω ι ε α) (w : ω) : State ν σ ω ι ε α :=
  { st with
    log := st.log ++ [⟨none, st.log.length, [w], DocStore.creates w⟩]
    issued := st.issued ∪ {x | x ∈ DocStore.creates w} }

/-- What the driver does after a failure labelled transient: run the program
again from the top, or give up. -/
def System.AfterTransient (S : System ν σ ω ι ε α) (i : ν) (n : Nat)
    (p : Phase σ ω ι ε α) : Prop :=
  ((S.call i).retries = true ∧ p = .between n) ∨ p = .returned n (.error .transient)

/-- The moves of one call that leave the committed state alone: the ids handed
out afterwards and the phase the call enters. -/
inductive Move (S : System ν σ ω ι ε α) (st : State ν σ ω ι ε α) (i : ν) :
    Set ι → Phase σ ω ι ε α → Prop
  /-- The call is made and opens a session. -/
  | invoke : st.phase i = .idle → (S.call i).admission = none →
      Move S st i st.issued (.between 0)
  /-- The call is refused before a session is opened. -/
  | refuse {e : ε} : st.phase i = .idle → (S.call i).admission = some e →
      Move S st i st.issued (.returned 0 (.error (.raised e)))
  /-- An attempt sends its first operation and so takes its snapshot. -/
  | begin {n : Nat} : st.phase i = .between n →
      Move S st i st.issued
        (.running (n + 1) ⟨st.log.length, [], [], (S.call i).body (n + 1)⟩)
  | read {n : Nat} {a : Attempt σ ω ι ε α} {k : σ → Tx σ ω ι ε α} :
      st.phase i = .running n a → a.rest = .read k →
      Move S st i st.issued (.running n { a with rest := k (st.viewOf S a) })
  /-- A write that conflicts with nothing, repeats no key and passes the
  validator is granted. -/
  | write {n : Nat} {a : Attempt σ ω ι ε α} {w : ω} {k : Tx σ ω ι ε α} :
      st.phase i = .running n a → a.rest = .write w k → st.Free i a.start w →
      DocStore.accepts w = true → DocStore.clashes (st.viewOf S a) w = false →
      Move S st i st.issued (.running n { a with writes := a.writes ++ [w], rest := k })
  | newId {n : Nat} {a : Attempt σ ω ι ε α} {x : ι} {k : ι → Tx σ ω ι ε α} :
      st.phase i = .running n a → a.rest = .newId k → x ∉ st.issued →
      Move S st i (insert x st.issued)
        (.running n { a with ids := a.ids ++ [x], rest := k x })
  | now {n : Nat} {a : Attempt σ ω ι ε α} {k : Nat → Tx σ ω ι ε α} (t : Nat) :
      st.phase i = .running n a → a.rest = .now k →
      Move S st i st.issued (.running n { a with rest := k t })
  /-- An exception leaves the program: the attempt is aborted and not retried. -/
  | raise {n : Nat} {a : Attempt σ ω ι ε α} {e : ε} :
      st.phase i = .running n a → a.rest = .raise e →
      Move S st i st.issued (.returned n (.error (.raised e)))
  /-- A unique index holds the key already, in the view or in the committed
  state. -/
  | duplicate {n : Nat} {a : Attempt σ ω ι ε α} {w : ω} {k : Tx σ ω ι ε α} :
      st.phase i = .running n a → a.rest = .write w k →
      DocStore.clashes (st.viewOf S a) w = true ∨ DocStore.clashes (st.db S) w = true →
      Move S st i st.issued (.returned n (.error .duplicateKey))
  /-- The validator refuses the document. -/
  | invalid {n : Nat} {a : Attempt σ ω ι ε α} {w : ω} {k : Tx σ ω ι ε α} :
      st.phase i = .running n a → a.rest = .write w k → DocStore.accepts w = false →
      Move S st i st.issued (.returned n (.error .driver))
  /-- A write conflict. -/
  | conflict {n : Nat} {a : Attempt σ ω ι ε α} {w : ω} {k : Tx σ ω ι ε α}
      {p : Phase σ ω ι ε α} :
      st.phase i = .running n a → a.rest = .write w k → ¬ st.Free i a.start w →
      S.AfterTransient i n p → Move S st i st.issued p
  /-- The server or the network fails the attempt, wherever it has got to. -/
  | fault {n : Nat} {a : Attempt σ ω ι ε α} {p : Phase σ ω ι ε α} :
      S.faulty → st.phase i = .running n a →
      S.AfterTransient i n p ∨ p = .returned n (.error .driver) →
      Move S st i st.issued p

/-- One step of the system. -/
inductive Step (S : System ν σ ω ι ε α) : State ν σ ω ι ε α → State ν σ ω ι ε α → Prop
  | move {st : State ν σ ω ι ε α} {i : ν} {issued : Set ι} {p : Phase σ ω ι ε α} :
      Move S st i issued p → Step S st (st.moveTo i issued p)
  /-- A finished attempt commits and its call returns. -/
  | commit {st : State ν σ ω ι ε α} {i : ν} {n : Nat} {a : Attempt σ ω ι ε α} {r : α} :
      st.phase i = .running n a → a.rest = .done r →
      Step S st (st.commit i a (.returned n (.ok r)))
  /-- A finished attempt commits but the driver never learns of it: it runs the
  program again or reports a failure. -/
  | commitLost {st : State ν σ ω ι ε α} {i : ν} {n : Nat} {a : Attempt σ ω ι ε α} {r : α}
      {p : Phase σ ω ι ε α} :
      S.lossy → st.phase i = .running n a → a.rest = .done r →
      S.AfterTransient i n p ∨ p = .returned n (.error .driver) →
      Step S st (st.commit i a p)
  /-- A single-document write outside any transaction. -/
  | direct {st : State ν σ ω ι ε α} {w : ω} :
      S.direct st w →
      (∀ j n a, st.phase j = .running n a → (DocStore.footprint w).Disjoint a.held) →
      DocStore.accepts w = true → DocStore.clashes (st.db S) w = false →
      (∀ x ∈ DocStore.creates w, x ∉ st.issued) →
      Step S st (st.commitDirect w)

/-- Finitely many steps. -/
inductive Steps (S : System ν σ ω ι ε α) : State ν σ ω ι ε α → State ν σ ω ι ε α → Prop
  | refl (st : State ν σ ω ι ε α) : Steps S st st
  | tail {st st' st'' : State ν σ ω ι ε α} : Steps S st st' → Step S st' st'' → Steps S st st''

/-- The state before any call is made. -/
def System.start (S : System ν σ ω ι ε α) : State ν σ ω ι ε α where
  log := []
  issued := S.issued
  phase := fun _ => .idle
  trace := []

/-- A state some run of the system reaches. -/
def Reachable (S : System ν σ ω ι ε α) (st : State ν σ ω ι ε α) : Prop :=
  Steps S S.start st

end Step

end Mvcc

import Mathlib.Data.List.Nodup
import Mathlib.Data.Set.Insert

/-!
# Ledgerlock.Mvcc.Program

Transaction **programs** over a document store, and the rules for reasoning
about one program run on one snapshot.

A program (`Tx`) is the code a client runs between opening a transaction and
committing it: reads of the view, writes, freshly generated ids and readings of
the clock. What a read sees is `view s ws`, the snapshot `s` with the program's
own writes `ws` on top, so a program never mentions the committed state that
other clients move underneath it. `Ledgerlock.Mvcc.System` runs any number of
programs against one store; everything here is about one of them.

* `Progress s p ws ids q` — run on the snapshot `s`, the program `p` has written
  `ws`, generated `ids`, and has `q` left to do;
* `Tx.wp` — the weakest precondition of a program on a snapshot, by recursion on
  the program, with `Progress.wp` carrying it to every point the program reaches.
-/

namespace Mvcc

/-- What the rules need to know about a store of documents. `ω` is one write, `σ`
a whole committed state, `κ` the things a write locks and `ι` the ids of
documents. -/
class DocStore (ω : Type) (σ κ ι : outParam Type) where
  /-- The effect of one write. -/
  apply : σ → ω → σ
  /-- The documents and unique-index entries a write holds until its
  transaction ends. -/
  footprint : ω → List κ
  /-- The ids of the documents a write creates. -/
  creates : ω → List ι
  /-- Does the collection's validator accept the write? -/
  accepts : ω → Bool
  /-- Does the write repeat a key that a unique index already holds? -/
  clashes : σ → ω → Bool

variable {σ ω κ ι ε α β : Type}

/-- The state `s` with the writes `ws` on top, in the order they were made. -/
def view [DocStore ω σ κ ι] (s : σ) (ws : List ω) : σ := ws.foldl DocStore.apply s

@[simp] theorem view_nil [DocStore ω σ κ ι] (s : σ) : view s ([] : List ω) = s := rfl

@[simp] theorem view_cons [DocStore ω σ κ ι] (s : σ) (w : ω) (ws : List ω) :
    view s (w :: ws) = view (DocStore.apply s w) ws := rfl

@[simp] theorem view_append [DocStore ω σ κ ι] (s : σ) (ws vs : List ω) :
    view s (ws ++ vs) = view (view s ws) vs := by
  simp [view]

/-- A transaction program. -/
inductive Tx (σ ω ι ε : Type) (α : Type) where
  /-- The program is finished and asks for its writes to be committed. -/
  | done (a : α)
  /-- An exception leaves the program; its writes are dropped. -/
  | raise (e : ε)
  /-- Read the view. -/
  | read (k : σ → Tx σ ω ι ε α)
  /-- Make one write. -/
  | write (w : ω) (k : Tx σ ω ι ε α)
  /-- Generate an id that is in use nowhere. -/
  | newId (k : ι → Tx σ ω ι ε α)
  /-- Read the clock. -/
  | now (k : Nat → Tx σ ω ι ε α)

namespace Tx

/-- Run a program, then another on its result. -/
def bind : Tx σ ω ι ε α → (α → Tx σ ω ι ε β) → Tx σ ω ι ε β
  | done a, f => f a
  | raise e, _ => raise e
  | read k, f => read fun s => (k s).bind f
  | write w k, f => write w (k.bind f)
  | newId k, f => newId fun i => (k i).bind f
  | now k, f => now fun t => (k t).bind f

instance : Monad (Tx σ ω ι ε) where
  pure := done
  bind := bind

/-- Read the view through a query. -/
def query (f : σ → α) : Tx σ ω ι ε α := read fun s => done (f s)

/-- Continue with a computed value, or raise its error. -/
def ofExcept : Except ε α → Tx σ ω ι ε α
  | .ok a => done a
  | .error e => raise e

end Tx

/-- Run on the snapshot `s` with nobody else about, `body` has made the writes
`ws`, generated `ids`, and has the last argument left to do. -/
inductive Progress [DocStore ω σ κ ι] (s : σ) (body : Tx σ ω ι ε α) :
    List ω → List ι → Tx σ ω ι ε α → Prop
  | start : Progress s body [] [] body
  | read {ws : List ω} {ids : List ι} {k : σ → Tx σ ω ι ε α} :
      Progress s body ws ids (.read k) → Progress s body ws ids (k (view s ws))
  | write {ws : List ω} {ids : List ι} {w : ω} {k : Tx σ ω ι ε α} :
      Progress s body ws ids (.write w k) → DocStore.accepts w = true →
      DocStore.clashes (view s ws) w = false → Progress s body (ws ++ [w]) ids k
  | newId {ws : List ω} {ids : List ι} {i : ι} {k : ι → Tx σ ω ι ε α} :
      Progress s body ws ids (.newId k) → i ∉ ids → Progress s body ws (ids ++ [i]) (k i)
  | now {ws : List ω} {ids : List ι} {k : Nat → Tx σ ω ι ε α} (t : Nat) :
      Progress s body ws ids (.now k) → Progress s body ws ids (k t)

/-- What is asked of a program's run on a snapshot: of the result it finishes
with, of the exceptions it raises, and of every write it comes to. -/
structure Post (ω ι ε α : Type) where
  done : α → List ω → List ι → Prop
  raise : ε → Prop
  write : List ω → List ι → ω → Prop

/-- The same requirements of a first part, whose result is still to be used. -/
def Post.andThen (P : Post ω ι ε β) (Q : α → List ω → List ι → Prop) : Post ω ι ε α where
  done := Q
  raise := P.raise
  write := P.write

section Post

variable (P : Post ω ι ε β) (Q : α → List ω → List ι → Prop)

@[simp] theorem Post.andThen_done : (P.andThen Q).done = Q := rfl

@[simp] theorem Post.andThen_raise : (P.andThen Q).raise = P.raise := rfl

@[simp] theorem Post.andThen_write : (P.andThen Q).write = P.write := rfl

end Post

namespace Tx

variable [DocStore ω σ κ ι]

/-- The weakest precondition of a program on the snapshot `s`, from a point
where it has made the writes and generated the ids given last. The server's own
refusals (a conflict, a repeated key, a rejected document) end the run at a
write, so only the write itself is asked about there. -/
def wp (s : σ) (P : Post ω ι ε α) : Tx σ ω ι ε α → List ω → List ι → Prop
  | done a, ws, ids => P.done a ws ids
  | raise e, _, _ => P.raise e
  | read k, ws, ids => (k (view s ws)).wp s P ws ids
  | write w k, ws, ids =>
      P.write ws ids w ∧
        (DocStore.accepts w = true → DocStore.clashes (view s ws) w = false →
          k.wp s P (ws ++ [w]) ids)
  | newId k, ws, ids => ∀ i, i ∉ ids → (k i).wp s P ws (ids ++ [i])
  | now k, ws, ids => ∀ t, (k t).wp s P ws ids

variable {s : σ} {P : Post ω ι ε α} {ws : List ω} {ids : List ι}

@[simp] theorem wp_done (a : α) :
    (done a : Tx σ ω ι ε α).wp s P ws ids = P.done a ws ids := rfl

@[simp] theorem wp_pure (a : α) :
    (pure a : Tx σ ω ι ε α).wp s P ws ids = P.done a ws ids := rfl

@[simp] theorem wp_raise (e : ε) :
    (raise e : Tx σ ω ι ε α).wp s P ws ids = P.raise e := rfl

@[simp] theorem wp_query (f : σ → α) :
    (query f : Tx σ ω ι ε α).wp s P ws ids = P.done (f (view s ws)) ws ids := rfl

@[simp] theorem wp_write (w : ω) (k : Tx σ ω ι ε α) :
    (write w k).wp s P ws ids ↔ P.write ws ids w ∧
      (DocStore.accepts w = true → DocStore.clashes (view s ws) w = false →
        k.wp s P (ws ++ [w]) ids) := Iff.rfl

@[simp] theorem wp_newId (k : ι → Tx σ ω ι ε α) :
    (newId k).wp s P ws ids ↔ ∀ i, i ∉ ids → (k i).wp s P ws (ids ++ [i]) := Iff.rfl

@[simp] theorem wp_now (k : Nat → Tx σ ω ι ε α) :
    (now k).wp s P ws ids ↔ ∀ t, (k t).wp s P ws ids := Iff.rfl

@[simp] theorem wp_ofExcept (x : Except ε α) :
    (ofExcept x : Tx σ ω ι ε α).wp s P ws ids ↔
      (∀ a, x = .ok a → P.done a ws ids) ∧ ∀ e, x = .error e → P.raise e := by
  cases x <;> simp [ofExcept]

/-- Sequencing composes weakest preconditions. -/
@[simp] theorem wp_bind (p : Tx σ ω ι ε α) (f : α → Tx σ ω ι ε β) {P : Post ω ι ε β} :
    (p >>= f).wp s P ws ids ↔
      p.wp s (P.andThen fun a ws' ids' => (f a).wp s P ws' ids') ws ids := by
  change (p.bind f).wp s P ws ids ↔ _
  induction p generalizing ws ids with
  | done a => exact Iff.rfl
  | raise e => exact Iff.rfl
  | read k ih => exact ih _
  | write w k ih =>
      exact and_congr_right fun _ => imp_congr_right fun _ => imp_congr_right fun _ => ih
  | newId k ih => exact forall_congr' fun i => imp_congr_right fun _ => ih i
  | now k ih => exact forall_congr' fun t => ih t

/-- Weaker requirements are easier to establish. -/
theorem wp_mono {p : Tx σ ω ι ε α} {P P' : Post ω ι ε α}
    (hdone : ∀ a ws ids, P.done a ws ids → P'.done a ws ids)
    (hraise : ∀ e, P.raise e → P'.raise e)
    (hwrite : ∀ ws ids w, P.write ws ids w → P'.write ws ids w)
    (h : p.wp s P ws ids) : p.wp s P' ws ids := by
  induction p generalizing ws ids with
  | done a => exact hdone _ _ _ h
  | raise e => exact hraise _ h
  | read k ih => exact ih _ h
  | write w k ih => exact ⟨hwrite _ _ _ h.1, fun ha hc => ih (h.2 ha hc)⟩
  | newId k ih => exact fun i hi => ih i (h i hi)
  | now k ih => exact fun t => ih t (h t)

end Tx

namespace Progress

variable [DocStore ω σ κ ι] {s : σ} {body p : Tx σ ω ι ε α} {ws : List ω} {ids : List ι}
  {P : Post ω ι ε α}

/-- The precondition of the whole program is the precondition of what is left of
it, wherever it has got to. -/
theorem wp (h : Progress s body ws ids p) (hb : body.wp s P [] []) : p.wp s P ws ids := by
  induction h with
  | start => exact hb
  | read _ ih => exact ih
  | write _ ha hc ih => exact ih.2 ha hc
  | newId _ hi ih => exact ih _ hi
  | now t _ ih => exact ih t

theorem wp_done {a : α} (h : Progress s body ws ids (.done a)) (hb : body.wp s P [] []) :
    P.done a ws ids := h.wp hb

theorem wp_raise {e : ε} (h : Progress s body ws ids (.raise e)) (hb : body.wp s P [] []) :
    P.raise e := h.wp hb

theorem wp_write {w : ω} {k : Tx σ ω ι ε α} (h : Progress s body ws ids (.write w k))
    (hb : body.wp s P [] []) : P.write ws ids w := (h.wp hb).1

/-- What is asked of a write, and is not lost when more ids are drawn, holds of every
write made. -/
theorem forall_writes {Q : List ι → ω → Prop} (h : Progress s body ws ids p)
    (hb : body.wp s P [] []) (hQ : ∀ ws ids w, P.write ws ids w → Q ids w)
    (hmono : ∀ ids i w, Q ids w → Q (ids ++ [i]) w) : ∀ w ∈ ws, Q ids w := by
  induction h with
  | start => simp
  | read _ ih => exact ih
  | write h _ _ ih =>
      intro v hv
      rcases List.mem_append.mp hv with hv | hv
      · exact ih v hv
      · rw [List.mem_singleton.mp hv]
        exact hQ _ _ _ (h.wp_write hb)
  | newId _ _ ih => exact fun v hv => hmono _ _ _ (ih v hv)
  | now _ _ ih => exact ih

end Progress

end Mvcc

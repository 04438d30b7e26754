import Ledgerlock.Spec.Commits

/-!
# Ledgerlock.Spec.Status

The status of an account along a history. A transfer reads it and never sets it,
so an account stays ACTIVE for as long as no operator's update of it is committed:
none is while its document is locked, and none at all where there is no operator.
-/

namespace Ledgerlock

open Mvcc

/-- The account exists and is ACTIVE. -/
def Database.Active (d : Database) (id : ObjectId) : Prop :=
  ∃ a, d.findAccount id = some a ∧ a.status = .active

/-- A write that does not set the status of an account to another leaves it
ACTIVE. -/
theorem Database.Active.write {d : Database} {id : ObjectId} {w : DbWrite}
    (hw : ∀ status, w = .setStatus id status → status = .active) (h : d.Active id) :
    (d.write w).Active id := by
  obtain ⟨a, ha, hactive⟩ := h
  cases w with
  | incDebitSerialisationCounter id' =>
      refine ⟨if a.id = id' then incCounter a else a, ?_, ?_⟩
      · have hfind := d.findAccount_updateAccount id' id (f := incCounter) fun _ => rfl
        rw [ha, Option.map_some] at hfind
        exact hfind
      · split
        · exact hactive
        · exact hactive
  | setStatus id' status =>
      refine ⟨if a.id = id' then { a with status } else a, ?_, ?_⟩
      · have hfind := d.findAccount_updateAccount id' id (f := fun a => { a with status })
          fun _ => rfl
        rw [ha, Option.map_some] at hfind
        exact hfind
      · split
        · rename_i hid
          have hid : id = id' := (findAccount_some ha).2.symm.trans hid
          exact hw status (by rw [hid])
        · exact hactive
  | insertAccount b =>
      refine ⟨a, ?_, hactive⟩
      simpa [findAccount, Database.write] using .inl ha
  | insertTransaction t => exact ⟨a, ha, hactive⟩
  | insertLedgerEntry e => exact ⟨a, ha, hactive⟩

theorem Database.Active.view {d : Database} {id : ObjectId} {ws : List DbWrite}
    (hws : ∀ w ∈ ws, ∀ status, w = .setStatus id status → status = .active)
    (h : d.Active id) : (Mvcc.view d ws).Active id := by
  induction ws generalizing d with
  | nil => exact h
  | cons w ws ih =>
      exact ih (fun v hv => hws v (List.mem_cons_of_mem w hv)) (h.write (hws w List.mem_cons_self))

/-- A transfer sets no status. -/
theorem transferWrites_ne_setStatus {source : Account} {args : TransferArgs} {x : Stamp}
    {w : DbWrite} (hw : w ∈ transferWrites source args x) (id : ObjectId)
    (status : AccountStatus) : w ≠ .setStatus id status := by
  intro h
  subst h
  rcases List.mem_append.mp hw with hw | hw
  · unfold lockWrites at hw
    split at hw <;> simp at hw
  · simp at hw

section Commits

variable {ν : Type} [ServerSum] {D : Deployment ν} {log : List (Commit ν DbWrite ObjectId)}

/-- A call sets no status. -/
theorem LedgerCommit.ne_setStatus {c : Commit ν DbWrite ObjectId} {i : ν}
    (h : LedgerCommit D log c) (hauthor : c.author = some i) (id : ObjectId)
    (status : AccountStatus) : c.writes ≠ [.setStatus id status] := by
  intro hset
  cases h with
  | @transfer _ args source x =>
      have hset : transferWrites source args x = [.setStatus id status] := hset
      exact transferWrites_ne_setStatus (hset ▸ List.mem_singleton_self _) id status rfl
  | reconcile => cases hset
  | accountWrite => cases hauthor

/-- Only an operator makes an account inactive. -/
theorem LedgerCommit.active {c : Commit ν DbWrite ObjectId} (h : LedgerCommit D log c)
    {id : ObjectId} (hc : ∀ status, c.writes = [.setStatus id status] → status = .active)
    {d : Database} (hd : d.Active id) : (view d c.writes).Active id := by
  cases h with
  | transfer =>
      exact hd.view fun w hw status hset => absurd hset (transferWrites_ne_setStatus hw id status)
  | reconcile => exact hd
  | @accountWrite w =>
      refine hd.view fun v hv status hset => ?_
      obtain rfl := List.mem_singleton.mp hv
      exact hc status (by rw [hset])

/-- An account whose document is locked stays ACTIVE. -/
theorem active_since {start : Nat} {id : ObjectId} (hlog : History D.system log)
    (hle : start ≤ log.length)
    (hlocked : ∀ c ∈ log.drop start, DbKey.account id ∉ c.footprint)
    (h : (replay D.opening (log.take start)).Active id) : (replay D.opening log).Active id := by
  refine hlog.since (P := fun d => d.Active id) hle h fun m c hm hc hfollows hactive => ?_
  refine (ledgerCommit_of_follows hfollows).active (fun status hset => ?_) hactive
  have hlater : c ∈ log.drop start := by
    refine List.mem_of_getElem? (i := m - start) ?_
    rw [List.getElem?_drop, Nat.add_sub_cancel' hm, hc]
  refine absurd ?_ (hlocked c hlater)
  simp [Commit.footprint, hset, DocStore.footprint, DbWrite.footprint]

end Commits

end Ledgerlock

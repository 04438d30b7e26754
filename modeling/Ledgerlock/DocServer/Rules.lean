import Ledgerlock.DocServer.Server

/-!
# Ledgerlock.DocServer.Rules

What a role that may only append to a collection can do to it, and over whole runs what
it cannot.

* `Step.change` — a step leaves the collection in one of five ways (`Change`), so that
  an invariant of the collection takes five cases;
* `Run.preserves` — the run rule;
* `Run.prefix` — as long as no index can make a document expire, documents are only
  added, and `exposes_iff` says which commands end that;
* `Run.valid` — as long as no `collMod` lets one in, no invalid document gets in.
-/

namespace DocServer

variable {D V : Type} {name : String} {role : Role}

/-- The role may not change or remove a document of the collection, or drop it. -/
structure Role.AppendOnly (role : Role) (name : String) : Prop where
  update : role.grants name .update = false
  remove : role.grants name .remove = false
  dropCollection : role.grants name .dropCollection = false
  dropDatabase : role.grants "" .dropDatabase = false

/-! ### Servers -/

namespace Server

variable {s : Server D} {c : Collection D}

@[simp] theorem put_collections_self : (s.put name c).collections name = some c := by
  simp [put]

theorem put_collections_of_ne {other : String} (h : other ≠ name) :
    (s.put other c).collections name = s.collections name := by
  simp [put, Function.update_of_ne h.symm]

theorem collection_eq (h : s.collections name = some c) : s.collection name = c := by
  simp [collection, h]

theorem map_put_eq_ok {s' : Server D} {r : Except ServerError (Collection D)}
    (h : r.map (s.put name) = .ok s') : ∃ c, r = .ok c ∧ s' = s.put name c := by
  cases r with
  | error e => cases h
  | ok c => exact ⟨c, rfl, (Except.ok.inj h).symm⟩

theorem put_eq_self (h : s.collections name = some c) : s.put name c = s := by
  rw [put, ← h, Function.update_eq_self]

theorem documents_eq (h : s.collections name = some c) : s.documents name = c.documents := by
  rw [documents, collection_eq h]

end Server

variable [Fields D V] {s s' : Server D} {c c' : Collection D}

/-! ### What a step may do to the collection -/

/-- How a step may leave a collection to which the role may only append. -/
inductive Change (role : Role) (name : String) (c : Collection D) :
    Option (Command D) → Collection D → Prop
  | same {l : Option (Command D)} : Change role name c l c
  | insert {document : D} {bypass : Bool} :
      (bypass = false → c.validation.admits document = true) →
      (bypass = true → role.grants name .bypassDocumentValidation = true) →
      Change role name c (some (.insert name document bypass))
        { c with documents := c.documents ++ [document] }
  | createIndex {idx : Index D} : (∀ i ∈ c.indexes, i.name ≠ idx.name) →
      Change role name c (some (.createIndex name idx))
        { c with indexes := c.indexes ++ [idx] }
  | collMod {m : CollMod D} : Change role name c (some (.collMod name m))
      { c with validation := m.validation c.validation, indexes := c.indexes.map m.reindex }
  | expire {before after : List D} {document : D} {idx : Index D} :
      c.documents = before ++ document :: after → idx ∈ c.indexes →
      idx.expiries document ≠ [] →
      Change role name c none { c with documents := before ++ after }

/-! ### Documents that can expire -/

/-- No index can make a document of the collection expire. -/
def Collection.Permanent (c : Collection D) : Prop :=
  ∀ idx ∈ c.indexes, ∀ d ∈ c.documents, idx.expiries d = []

/-- Does the command bring together, in the collection of that name, a document and an
index that can make it expire? -/
def Command.exposes (name : String) (c : Collection D) : Command D → Bool
  | .insert other document _ =>
      decide (other = name) && c.indexes.any fun idx => !(idx.expiries document).isEmpty
  | .createIndex other idx =>
      decide (other = name) && c.indexes.all (fun i => decide (i.name ≠ idx.name))
        && c.documents.any fun d => !(idx.expiries d).isEmpty
  | .collMod other m =>
      decide (other = name) && c.indexes.any fun idx => c.documents.any fun d =>
        !((m.reindex idx).expiries d).isEmpty
  | _ => false

theorem exposes_insert {other : String} {document : D} {bypass : Bool} :
    (Command.insert other document bypass).exposes name c = true ↔
      other = name ∧ ∃ idx ∈ c.indexes, idx.expiries document ≠ [] := by
  simp [Command.exposes]

theorem exposes_createIndex {other : String} {idx : Index D} :
    (Command.createIndex other idx).exposes name c = true ↔
      other = name ∧ (∀ i ∈ c.indexes, i.name ≠ idx.name) ∧
        ∃ d ∈ c.documents, idx.expiries d ≠ [] := by
  simp [Command.exposes, and_assoc]

theorem exposes_collMod {other : String} {m : CollMod D} :
    (Command.collMod other m).exposes name c = true ↔
      other = name ∧ ∃ idx ∈ c.indexes, ∃ d ∈ c.documents, (m.reindex idx).expiries d ≠ [] := by
  simp [Command.exposes]

theorem Change.permanent {l : Option (Command D)} (hc : c.Permanent)
    (hP : ∀ command, l = some command → command.exposes name c = false)
    (h : Change role name c l c') : c'.Permanent ∧ c.documents <+: c'.documents := by
  cases h with
  | same => exact ⟨hc, List.prefix_rfl⟩
  | insert =>
      refine ⟨?_, List.prefix_append _ _⟩
      intro idx hidx d hd
      by_contra hexpiries
      rcases List.mem_append.1 hd with hd | hd
      · exact hexpiries (hc idx hidx d hd)
      · obtain rfl := List.mem_singleton.1 hd
        exact ne_true_of_eq_false (hP _ rfl) (exposes_insert.2 ⟨rfl, idx, hidx, hexpiries⟩)
  | @createIndex idx hfresh =>
      refine ⟨?_, List.prefix_rfl⟩
      intro i hi d hd
      by_contra hexpiries
      rcases List.mem_append.1 hi with hi | hi
      · exact hexpiries (hc i hi d hd)
      · obtain rfl := List.mem_singleton.1 hi
        exact ne_true_of_eq_false (hP _ rfl)
          (exposes_createIndex.2 ⟨rfl, hfresh, d, hd, hexpiries⟩)
  | @collMod m =>
      refine ⟨?_, List.prefix_rfl⟩
      intro i hi d hd
      by_contra hexpiries
      obtain ⟨idx, hidx, rfl⟩ := List.mem_map.1 hi
      exact ne_true_of_eq_false (hP _ rfl) (exposes_collMod.2 ⟨rfl, idx, hidx, d, hd, hexpiries⟩)
  | @expire before after document idx hdocuments hidx hexpiries =>
      exact absurd (hc idx hidx document (by simp [hdocuments])) hexpiries

/-! ### Invalid documents -/

/-- Documents the check lets in satisfy the predicate. -/
def Validation.Guards (v : Validation D) (valid : D → Bool) : Prop :=
  ∀ d, v.admits d = true → valid d = true

/-- The command leaves a check in force that lets an invalid document in. -/
def Command.Loosens (valid : D → Bool) (name : String) (c : Collection D) : Command D → Prop
  | .collMod other m => other = name ∧ ¬ (m.validation c.validation).Guards valid
  | _ => False

theorem Change.valid {valid : D → Bool} {l : Option (Command D)}
    (hbypass : role.grants name .bypassDocumentValidation = false)
    (hguards : c.validation.Guards valid) (hc : ∀ d ∈ c.documents, valid d = true)
    (hP : ∀ command, l = some command → ¬ command.Loosens valid name c)
    (h : Change role name c l c') :
    c'.validation.Guards valid ∧ ∀ d ∈ c'.documents, valid d = true := by
  cases h with
  | same => exact ⟨hguards, hc⟩
  | @insert document bypass hadmits hgrants =>
      refine ⟨hguards, ?_⟩
      intro d hd
      rcases List.mem_append.1 hd with hd | hd
      · exact hc d hd
      · obtain rfl := List.mem_singleton.1 hd
        refine hguards d (hadmits ?_)
        by_contra htrue
        rw [hgrants (by simpa using htrue)] at hbypass
        cases hbypass
  | createIndex => exact ⟨hguards, hc⟩
  | @collMod m =>
      have hloosens := hP _ rfl
      exact ⟨by simpa [Command.Loosens] using hloosens, hc⟩
  | expire hdocuments =>
      refine ⟨hguards, ?_⟩
      intro d hd
      refine hc d ?_
      rw [hdocuments]
      rcases List.mem_append.1 hd with hd | hd <;> simp [hd]

section Steps

variable [BEq V]

/-! ### Commands on one collection -/

theorem Collection.store_eq_ok {documents : List D} (h : c.store documents = .ok c') :
    c' = { c with documents } := by
  unfold store at h
  split at h
  · exact (Except.ok.inj h).symm
  · cases h

theorem Collection.insert_eq_ok {document : D} {bypass : Bool}
    (h : c.insert document bypass = .ok c') :
    c' = { c with documents := c.documents ++ [document] } ∧
      (bypass = false → c.validation.admits document = true) := by
  unfold insert at h
  split at h
  · cases h
  · rename_i hadmits
    refine ⟨store_eq_ok h, ?_⟩
    intro hbypass
    simpa [hbypass] using hadmits

theorem Collection.createIndex_eq_ok {idx : Index D} (h : c.createIndex idx = .ok c') :
    (∃ i ∈ c.indexes, i.name = idx.name) ∧ c' = c ∨
      (∀ i ∈ c.indexes, i.name ≠ idx.name) ∧
        c' = { c with indexes := c.indexes ++ [idx] } := by
  unfold createIndex at h
  split at h
  · rename_i htaken
    exact .inl ⟨by simpa using htaken, (Except.ok.inj h).symm⟩
  · rename_i hfresh
    split at h
    · cases h
    split at h
    · cases h
    · exact .inr ⟨by simpa using hfresh, (Except.ok.inj h).symm⟩

theorem CollMod.map_reindex {m : CollMod D} (h : m.index = none) (indexes : List (Index D)) :
    indexes.map m.reindex = indexes := by
  have hid : m.reindex = id := by
    funext idx
    simp [reindex, h]
  rw [hid, List.map_id]

theorem Collection.modify_eq_ok {m : CollMod D} (h : c.modify m = .ok c') :
    c' = { c with
      validation := m.validation c.validation
      indexes := c.indexes.map m.reindex } := by
  unfold modify at h
  split at h
  · rename_i hindex
    rw [CollMod.map_reindex hindex]
    exact (Except.ok.inj h).symm
  · split at h
    · cases h
    split at h
    · cases h
    · exact (Except.ok.inj h).symm

/-! ### What a command does -/

theorem exec_insert {document : D} {bypass : Bool} (hs : s.collections name = some c)
    (hexec : s.exec (.insert name document bypass) = .ok s') :
    s' = s.put name { c with documents := c.documents ++ [document] } ∧
      (bypass = false → c.validation.admits document = true) := by
  obtain ⟨d, hinsert, rfl⟩ := Server.map_put_eq_ok hexec
  rw [Server.collection_eq hs] at hinsert
  obtain ⟨rfl, hadmits⟩ := Collection.insert_eq_ok hinsert
  exact ⟨rfl, hadmits⟩

theorem exec_createIndex {idx : Index D} (hs : s.collections name = some c)
    (hexec : s.exec (.createIndex name idx) = .ok s') :
    (∃ i ∈ c.indexes, i.name = idx.name) ∧ s' = s ∨
      (∀ i ∈ c.indexes, i.name ≠ idx.name) ∧
        s' = s.put name { c with indexes := c.indexes ++ [idx] } := by
  obtain ⟨d, hcreate, rfl⟩ := Server.map_put_eq_ok hexec
  rw [Server.collection_eq hs] at hcreate
  obtain ⟨htaken, rfl⟩ | ⟨hfresh, rfl⟩ := Collection.createIndex_eq_ok hcreate
  · exact .inl ⟨htaken, Server.put_eq_self hs⟩
  · exact .inr ⟨hfresh, rfl⟩

theorem exec_collMod_eq {m : CollMod D} (hs : s.collections name = some c) :
    s.exec (.collMod name m) = (c.modify m).map (s.put name) := by
  simp only [Server.exec, hs]

theorem exec_collMod {m : CollMod D} (hs : s.collections name = some c)
    (hexec : s.exec (.collMod name m) = .ok s') : s' = s.put name
      { c with validation := m.validation c.validation, indexes := c.indexes.map m.reindex } := by
  rw [exec_collMod_eq hs] at hexec
  obtain ⟨d, hmodify, rfl⟩ := Server.map_put_eq_ok hexec
  rw [Collection.modify_eq_ok hmodify]

/-- May the command change the collection of that name? -/
def Command.addresses (name : String) : Command D → Bool
  | .find _ | .listIndexes _ | .listCollections => false
  | .insert other _ _ | .update other _ _ | .remove other _ | .createCollection other _
  | .createIndex other _ | .collMod other _ | .dropCollection other => decide (other = name)
  | .dropDatabase => true

theorem exec_frame {command : Command D} (haddresses : command.addresses name = false)
    (hexec : s.exec command = .ok s') : s'.collections name = s.collections name := by
  cases command with
  | find | listIndexes | listCollections =>
      obtain rfl := Except.ok.inj hexec
      rfl
  | insert | createIndex =>
      obtain ⟨d, -, rfl⟩ := Server.map_put_eq_ok hexec
      exact Server.put_collections_of_ne (of_decide_eq_false haddresses)
  | update =>
      simp only [Server.exec] at hexec
      split at hexec
      · obtain rfl := Except.ok.inj hexec
        rfl
      · obtain ⟨d, -, rfl⟩ := Server.map_put_eq_ok hexec
        exact Server.put_collections_of_ne (of_decide_eq_false haddresses)
  | remove =>
      simp only [Server.exec] at hexec
      split at hexec <;> obtain rfl := Except.ok.inj hexec
      · rfl
      · exact Server.put_collections_of_ne (of_decide_eq_false haddresses)
  | createCollection =>
      simp only [Server.exec] at hexec
      split at hexec
      · obtain rfl := Except.ok.inj hexec
        exact Server.put_collections_of_ne (of_decide_eq_false haddresses)
      · cases hexec
  | collMod =>
      simp only [Server.exec] at hexec
      split at hexec
      · cases hexec
      · obtain ⟨d, -, rfl⟩ := Server.map_put_eq_ok hexec
        exact Server.put_collections_of_ne (of_decide_eq_false haddresses)
  | dropCollection other =>
      obtain rfl := Except.ok.inj hexec
      exact Function.update_of_ne (Ne.symm (of_decide_eq_false haddresses)) _ _
  | dropDatabase => cases haddresses

/-! ### Steps -/

theorem Role.grants_of_permits {command : Command D} (h : role.permits command = true)
    {other : String} {action : Action} (hneed : (other, action) ∈ command.needs) :
    role.grants other action = true :=
  List.all_eq_true.1 h (other, action) hneed

/-- A command is refused for one action that is not granted. -/
theorem Role.permits_eq_false {command : Command D} {other : String} {action : Action}
    (h : role.grants other action = false) (hneed : (other, action) ∈ command.needs) :
    role.permits command = false := by
  by_contra hpermits
  rw [grants_of_permits (by simpa using hpermits) hneed] at h
  cases h

theorem exec_change (hrole : role.AppendOnly name) {command : Command D}
    (hpermits : role.permits command = true) (hexec : s.exec command = .ok s')
    (hc : s.collections name = some c) :
    ∃ c', s'.collections name = some c' ∧ Change role name c (some command) c' := by
  by_cases haddresses : command.addresses name = false
  · exact ⟨c, (exec_frame haddresses hexec).trans hc, .same⟩
  rw [Bool.not_eq_false] at haddresses
  cases command with
  | find | listIndexes | listCollections => cases haddresses
  | insert other document bypass =>
      obtain rfl : other = name := of_decide_eq_true haddresses
      obtain ⟨rfl, hadmits⟩ := exec_insert hc hexec
      refine ⟨_, Server.put_collections_self, .insert hadmits ?_⟩
      intro hbypass
      subst hbypass
      exact Role.grants_of_permits hpermits (by simp [Command.needs])
  | createIndex other idx =>
      obtain rfl : other = name := of_decide_eq_true haddresses
      obtain ⟨-, rfl⟩ | ⟨hfresh, rfl⟩ := exec_createIndex hc hexec
      · exact ⟨c, hc, .same⟩
      · exact ⟨_, Server.put_collections_self, .createIndex hfresh⟩
  | collMod other m =>
      obtain rfl : other = name := of_decide_eq_true haddresses
      obtain rfl := exec_collMod hc hexec
      exact ⟨_, Server.put_collections_self, .collMod⟩
  | createCollection other validation =>
      -- there is a collection of that name already
      obtain rfl : other = name := of_decide_eq_true haddresses
      simp only [Server.exec, hc] at hexec
      cases hexec
  | update other selects change =>
      -- from here on the role lacks the action
      obtain rfl : other = name := of_decide_eq_true haddresses
      rw [Role.permits_eq_false hrole.update (by simp [Command.needs])] at hpermits
      cases hpermits
  | remove other selects =>
      obtain rfl : other = name := of_decide_eq_true haddresses
      rw [Role.permits_eq_false hrole.remove (by simp [Command.needs])] at hpermits
      cases hpermits
  | dropCollection other =>
      obtain rfl : other = name := of_decide_eq_true haddresses
      rw [Role.permits_eq_false hrole.dropCollection (by simp [Command.needs])] at hpermits
      cases hpermits
  | dropDatabase =>
      rw [Role.permits_eq_false hrole.dropDatabase (by simp [Command.needs])] at hpermits
      cases hpermits

theorem Step.change (hrole : role.AppendOnly name) {l : Option (Command D)}
    (h : Step role s l s') (hc : s.collections name = some c) :
    ∃ c', s'.collections name = some c' ∧ Change role name c l c' := by
  cases h with
  | command hpermits hexec => exact exec_change hrole hpermits hexec hc
  | @expire other d before after document idx t hd hdocuments hidx ht =>
      -- the server deletes in another collection, or in this one
      by_cases hname : other = name
      · obtain rfl := hname
        obtain rfl := Option.some.inj (hc.symm.trans hd)
        exact ⟨_, Server.put_collections_self,
          .expire hdocuments hidx (List.ne_nil_of_mem ht)⟩
      · exact ⟨c, (Server.put_collections_of_ne hname).trans hc, .same⟩
  | clock => exact ⟨c, hc, .same⟩

/-! ### Runs -/

namespace Run

variable {P : Server D → Command D → Prop} {t u : Server D}

/-- **The run rule.** What every change keeps is kept by every run. -/
theorem preserves {M : Collection D → Prop} (hrole : role.AppendOnly name)
    (hrun : Run role P s t) (hc : s.collections name = some c) (hM : M c)
    (hchange : ∀ (u : Server D) (d d' : Collection D) (l : Option (Command D)),
      u.collections name = some d → M d → (∀ command, l = some command → P u command) →
      Change role name d l d' → M d') :
    ∃ c', t.collections name = some c' ∧ M c' := by
  induction hrun with
  | nil => exact ⟨c, hc, hM⟩
  | @concat u v l _ hstep hP ih =>
      obtain ⟨d, hd, hMd⟩ := ih
      obtain ⟨d', hd', hdd'⟩ := hstep.change hrole hd
      exact ⟨d', hd', hchange u d d' l hd hMd hP hdd'⟩

theorem command (hst : Run role P s t) (c : Command D) (hpermits : role.permits c = true)
    (hexec : t.exec c = .ok u) (hP : P t c) : Run role P s u := by
  refine .concat hst (.command hpermits hexec) ?_
  intro c' hc'
  obtain rfl := Option.some.inj hc'
  exact hP

theorem trans (hst : Run role P s t) (htu : Run role P t u) : Run role P s u := by
  induction htu with
  | nil => exact hst
  | concat _ hstep hP ih => exact .concat ih hstep hP

end Run

/-! ### Runs that only append -/

/-- As long as no command exposes a document of the collection, its documents are only
added to. -/
theorem Run.prefix (hrole : role.AppendOnly name)
    {P : Server D → Command D → Prop}
    (hP : ∀ u command, P u command → command.exposes name (u.collection name) = false)
    {t : Server D} (hrun : Run role P s t) (hs : s.collections name = some c)
    (hc : c.Permanent) :
    ∃ c', t.collections name = some c' ∧ c'.Permanent ∧ c.documents <+: c'.documents := by
  refine hrun.preserves hrole hs (M := fun d => d.Permanent ∧ c.documents <+: d.documents)
    ⟨hc, List.prefix_rfl⟩ ?_
  intro u d d' l hd hMd hl hchange
  obtain ⟨hpermanent, hprefix⟩ := hMd
  obtain ⟨hpermanent', hprefix'⟩ := hchange.permanent hpermanent (by
    intro command hcommand
    have hexposes := hP u command (hl command hcommand)
    rwa [Server.collection_eq hd] at hexposes)
  exact ⟨hpermanent', hprefix.trans hprefix'⟩

/-- A command that exposes a document leaves one that can expire. -/
theorem exec_not_permanent {command : Command D} (hexec : s.exec command = .ok s')
    (hs : s.collections name = some c) (hs' : s'.collections name = some c')
    (hexposes : command.exposes name c = true) : ¬ c'.Permanent := by
  intro hc'
  cases command with
  | insert other document bypass =>
      obtain ⟨rfl, idx, hidx, hexpiries⟩ := exposes_insert.1 hexposes
      obtain ⟨rfl, -⟩ := exec_insert hs hexec
      obtain rfl := Option.some.inj (Server.put_collections_self.symm.trans hs')
      exact hexpiries (hc' idx hidx document (by simp))
  | createIndex other idx =>
      obtain ⟨rfl, hfresh, document, hdocument, hexpiries⟩ := exposes_createIndex.1 hexposes
      obtain ⟨⟨i, hi, hname⟩, -⟩ | ⟨-, rfl⟩ := exec_createIndex hs hexec
      · exact hfresh i hi hname
      · obtain rfl := Option.some.inj (Server.put_collections_self.symm.trans hs')
        exact hexpiries (hc' idx (by simp) document hdocument)
  | collMod other m =>
      obtain ⟨rfl, idx, hidx, document, hdocument, hexpiries⟩ := exposes_collMod.1 hexposes
      obtain rfl := exec_collMod hs hexec
      obtain rfl := Option.some.inj (Server.put_collections_self.symm.trans hs')
      exact hexpiries (hc' _ (List.mem_map_of_mem hidx) document hdocument)
  | _ => cases hexposes

/-- The server need only wait to delete a document that can expire. -/
theorem Run.exists_expired {P : Server D → Command D → Prop} {idx : Index D} {document : D}
    {before after : List D} (hs : s.collections name = some c) (hidx : idx ∈ c.indexes)
    (hdocuments : c.documents = before ++ document :: after)
    (hexpiries : idx.expiries document ≠ []) :
    ∃ t, Run role P s t ∧ t.documents name = before ++ after := by
  obtain ⟨t, ht⟩ := List.exists_mem_of_ne_nil _ hexpiries
  have hclock : Step role s none { s with now := max s.now t } := .clock (Int.le_max_left _ _)
  have hexpire : Step role { s with now := max s.now t } none _ :=
    .expire hs hdocuments hidx ht (Int.le_max_right _ _)
  refine ⟨_, .concat (.concat .nil hclock (by simp)) hexpire (by simp), ?_⟩
  rw [Server.documents_eq Server.put_collections_self]

/-- The documents last, whatever the server does by itself, exactly when none of them can
expire. -/
theorem Collection.permanent_iff (hrole : role.AppendOnly name)
    (hs : s.collections name = some c) : c.Permanent ↔
      ∀ t, Run role (fun _ _ => False) s t → s.documents name <+: t.documents name := by
  constructor
  · intro hc t hrun
    obtain ⟨c', ht, -, hprefix⟩ := hrun.prefix hrole (fun _ _ h => h.elim) hs hc
    rwa [Server.documents_eq hs, Server.documents_eq ht]
  · intro hlast idx hidx document hdocument
    by_contra hexpiries
    -- a document that can expire would be lost in a run of the server's own
    obtain ⟨before, after, hdocuments⟩ := List.append_of_mem hdocument
    obtain ⟨t, hrun, ht⟩ := Run.exists_expired hs hidx hdocuments hexpiries
    have hprefix := hlast t hrun
    rw [Server.documents_eq hs, ht, hdocuments] at hprefix
    have hlength := hprefix.length_le
    simp only [List.length_append, List.length_cons] at hlength
    omega

/-- The commands after which the server by itself may lose a document. -/
theorem exposes_iff (hrole : role.AppendOnly name) (hs : s.collections name = some c)
    (hc : c.Permanent) {command : Command D} (hpermits : role.permits command = true)
    (hexec : s.exec command = .ok s') : command.exposes name c = true ↔
      ∃ t, Run role (fun _ _ => False) s' t ∧ ¬ s'.documents name <+: t.documents name := by
  obtain ⟨c', hs', hchange⟩ := exec_change hrole hpermits hexec hs
  have hiff : command.exposes name c = true ↔ ¬ c'.Permanent := by
    constructor
    · exact exec_not_permanent hexec hs hs'
    · intro hc'
      by_contra hexposes
      refine hc' (hchange.permanent hc ?_).1
      intro command' h
      obtain rfl := Option.some.inj h
      simpa using hexposes
  rw [hiff, Collection.permanent_iff hrole hs']
  simp only [not_forall, exists_prop]

/-! ### Runs that keep the documents valid -/

/-- The check of a collection guards the predicate exactly when it refuses every invalid
document that is to be inserted. -/
theorem Validation.guards_iff {valid : D → Bool} (hs : s.collections name = some c) :
    c.validation.Guards valid ↔ ∀ d, valid d = false →
      s.exec (.insert name d false) = .error .documentValidationFailure := by
  constructor
  · intro hguards d hd
    have hadmits : c.validation.admits d = false := by
      by_contra htrue
      rw [hguards d (by simpa using htrue)] at hd
      cases hd
    simp only [Server.exec, Server.collection_eq hs, Collection.insert, hadmits]
    rfl
  · intro hrefuses d hadmits
    by_contra hinvalid
    have herror := hrefuses d (by simpa using hinvalid)
    simp only [Server.exec, Server.collection_eq hs, Collection.insert, Collection.store,
      hadmits] at herror
    split at herror
    · rename_i hrefused
      simp at hrefused
    · split at herror <;> cases herror

/-- Under a role that cannot bypass the check, and as long as no `collMod` loosens it,
every document of the collection is valid. -/
theorem Run.valid {valid : D → Bool} (hrole : role.AppendOnly name)
    (hbypass : role.grants name .bypassDocumentValidation = false)
    {P : Server D → Command D → Prop}
    (hP : ∀ u command, P u command → ¬ command.Loosens valid name (u.collection name))
    {t : Server D} (hrun : Run role P s t) (hs : s.collections name = some c)
    (hguards : c.validation.Guards valid) (hc : ∀ d ∈ c.documents, valid d = true) :
    ∃ c', t.collections name = some c' ∧ c'.validation.Guards valid ∧
      ∀ d ∈ c'.documents, valid d = true := by
  refine hrun.preserves hrole hs
    (M := fun d => d.validation.Guards valid ∧ ∀ d' ∈ d.documents, valid d' = true)
    ⟨hguards, hc⟩ ?_
  intro u d d' l hd hMd hl hchange
  obtain ⟨hguards', hd'⟩ := hMd
  refine hchange.valid hbypass hguards' hd' ?_
  intro command hcommand
  have hloosens := hP u command (hl command hcommand)
  rwa [Server.collection_eq hd] at hloosens

/-- The commands after which the server no longer refuses every invalid document. -/
theorem loosens_iff {valid : D → Bool} (hrole : role.AppendOnly name)
    (hs : s.collections name = some c) (hguards : c.validation.Guards valid)
    {command : Command D} (hpermits : role.permits command = true)
    (hexec : s.exec command = .ok s') : ¬ command.Loosens valid name c ↔
      ∀ d, valid d = false →
        s'.exec (.insert name d false) = .error .documentValidationFailure := by
  obtain ⟨c', hs', hchange⟩ := exec_change hrole hpermits hexec hs
  rw [← Validation.guards_iff hs']
  constructor
  · intro hloosens
    cases hchange with
    | collMod => simpa [Command.Loosens] using hloosens
    | _ => exact hguards
  · intro hguards' hloosens
    cases command with
    | collMod other m =>
        obtain ⟨rfl, hloose⟩ := hloosens
        obtain rfl := exec_collMod hs hexec
        obtain rfl := Option.some.inj (Server.put_collections_self.symm.trans hs')
        exact hloose hguards'
    | _ => exact hloosens

end Steps

end DocServer

import Ledgerlock.Schema.Replicas

/-!
# Ledgerlock.Spec.Initialisation

Replicas that start together.

Each looks at what there is, makes the collections that were not there, and then the
indexes, in an order that is the same for all (`Prepared`). So they help one another on: no
setup fails, and whoever is through with it serves on a database that is `Initialised` and
remains so.
-/

namespace Ledgerlock.Schema

open DocServer
open Interleave (Config Post Prog Protocol Run)

/-! ### How far the setup has got -/

/-- The indexes of a collection when those of the list have been made. -/
def indexesAfter (made : List (String × Index BsonDocument)) (name : String) :
    List (Index BsonDocument) :=
  idIndex :: (made.filter fun p => p.1 = name).map Prod.snd

theorem indexesAfter_concat_self (made : List (String × Index BsonDocument)) (name : String)
    (idx : Index BsonDocument) :
    indexesAfter (made ++ [(name, idx)]) name = indexesAfter made name ++ [idx] := by
  simp [indexesAfter]

theorem indexesAfter_concat_of_ne {made : List (String × Index BsonDocument)}
    {name other : String} (idx : Index BsonDocument) (h : other ≠ name) :
    indexesAfter (made ++ [(other, idx)]) name = indexesAfter made name := by
  simp [indexesAfter, h]

theorem indexesAfter_prefix {made made' : List (String × Index BsonDocument)}
    (h : made <+: made') (name : String) : indexesAfter made name <+: indexesAfter made' name := by
  obtain ⟨later, rfl⟩ := h
  simp [indexesAfter]

/-- A collection whose setup has begun. -/
structure Prepared (name : String) (c : Collection BsonDocument) : Prop where
  validation : c.validation = initialValidation name
  indexes : c.indexes <+: initialIndexes name
  nonempty : 0 < c.indexes.length
  valid : ∀ document ∈ c.documents, (initialValidation name).admits document = true

/-- A database whose setup has begun. Nobody writes before it is through. -/
structure Starting (s : Server BsonDocument) : Prop where
  prepared : ∀ name ∈ allCollections, ∀ c, s.collections name = some c → Prepared name c
  empty : Initialised s ∨
    ∀ name ∈ allCollections, ∀ c, s.collections name = some c → c.documents = []

/-- These indexes have been made. -/
def Made (made : List (String × Index BsonDocument)) (s : Server BsonDocument) : Prop :=
  ∀ name ∈ allCollections, ∃ c, s.collections name = some c ∧
    (indexesAfter made name).length ≤ c.indexes.length

variable {s t u : Server BsonDocument}

theorem initialised_of_made
    (hprepared : ∀ name ∈ allCollections, ∀ c, s.collections name = some c → Prepared name c)
    (h : Made requiredIndexes s) : Initialised s := by
  intro name hname
  obtain ⟨c, hc, hlength⟩ := h name hname
  have hready := hprepared name hname c hc
  exact ⟨c, hc, hready.validation, hready.indexes.eq_of_length_le hlength, hready.valid⟩

theorem Initialised.made (h : Initialised s) : Made requiredIndexes s := by
  intro name hname
  obtain ⟨c, hc, -, hindexes, -⟩ := h name hname
  exact ⟨c, hc, by rw [hindexes]; exact le_rfl⟩

theorem Initialised.prepared (h : Initialised s) :
    ∀ name ∈ allCollections, ∀ c, s.collections name = some c → Prepared name c := by
  intro name hname c hc
  obtain ⟨c', hc', hvalidation, hindexes, hvalid⟩ := h name hname
  obtain rfl := Option.some.inj (hc.symm.trans hc')
  exact ⟨hvalidation, hindexes ▸ List.prefix_rfl, by simp [hindexes, initialIndexes], hvalid⟩

theorem Initialised.starting (h : Initialised s) : Starting s := ⟨h.prepared, .inl h⟩

theorem starting_fresh (now : DocServer.Instant) : Starting (fresh now) :=
  ⟨fun _ _ _ h => (nomatch h), .inr fun _ _ _ h => (nomatch h)⟩

/-- Collections stay, and so do indexes. -/
def Onward (s t : Server BsonDocument) : Prop :=
  ∀ name ∈ allCollections, ∀ c, s.collections name = some c →
    ∃ c', t.collections name = some c' ∧ c.indexes.length ≤ c'.indexes.length

theorem Onward.refl (s : Server BsonDocument) : Onward s s := fun _ _ c hc => ⟨c, hc, le_rfl⟩

theorem Onward.trans (h : Onward s t) (h' : Onward t u) : Onward s u := by
  intro name hname c hc
  obtain ⟨c', hc', hle⟩ := h name hname c hc
  obtain ⟨c'', hc'', hle'⟩ := h' name hname c' hc'
  exact ⟨c'', hc'', hle.trans hle'⟩

theorem Made.later {made : List (String × Index BsonDocument)} (h : Made made s)
    (hst : Onward s t) : Made made t := by
  intro name hname
  obtain ⟨c, hc, hle⟩ := h name hname
  obtain ⟨c', hc', hle'⟩ := hst name hname c hc
  exact ⟨c', hc', hle.trans hle'⟩

theorem Initialised.later (h : Initialised s) (hst : Onward s t) (ht : Starting t) :
    Initialised t :=
  initialised_of_made ht.prepared (h.made.later hst)

/-- One collection is written back. -/
theorem Starting.put (hs : Starting s) {name : String} {c' : Collection BsonDocument}
    (hc' : name ∈ allCollections → Prepared name c' ∧
      (∀ c, s.collections name = some c → c.indexes.length ≤ c'.indexes.length) ∧
      (Initialised s ∨ c'.documents = [])) :
    Starting (s.put name c') ∧ Onward s (s.put name c') := by
  have honward : Onward s (s.put name c') := by
    intro other hother c hc
    by_cases h : name = other
    · subst h
      exact ⟨c', Server.put_collections_self, (hc' hother).2.1 c hc⟩
    · exact ⟨c, by rw [Server.put_collections_of_ne h, hc], le_rfl⟩
  have hprepared : ∀ other ∈ allCollections, ∀ c, (s.put name c').collections other = some c →
      Prepared other c := by
    intro other hother c hc
    by_cases h : name = other
    · subst h
      rw [Server.put_collections_self] at hc
      exact Option.some.inj hc ▸ (hc' hother).1
    · rw [Server.put_collections_of_ne h] at hc
      exact hs.prepared other hother c hc
  refine ⟨⟨hprepared, ?_⟩, honward⟩
  rcases hs.empty with hinit | hempty
  · exact .inl (initialised_of_made hprepared (hinit.made.later honward))
  by_cases hinit : Initialised s
  · exact .inl (initialised_of_made hprepared (hinit.made.later honward))
  refine .inr fun other hother c hc => ?_
  by_cases h : name = other
  · subst h
    rw [Server.put_collections_self] at hc
    rw [← Option.some.inj hc]
    exact (hc' hother).2.2.resolve_left hinit
  · rw [Server.put_collections_of_ne h] at hc
    exact hempty other hother c hc

/-! ### What the server and the handlers do -/

/-- The documents of a collection change, and its check is kept up. -/
theorem Starting.put_documents (hs : Starting s) {name : String} {c : Collection BsonDocument}
    (hc : s.collections name = some c) {documents : List BsonDocument}
    (hinit : name ∈ allCollections → Initialised s ∨ documents = [])
    (hvalid : name ∈ allCollections → ∀ document ∈ documents,
      document ∈ c.documents ∨ c.validation.admits document = true) :
    Starting (s.put name { c with documents }) ∧ Onward s (s.put name { c with documents }) := by
  refine hs.put fun hname => ?_
  have hready := hs.prepared name hname c hc
  refine ⟨⟨hready.validation, hready.indexes, hready.nonempty, fun document hdocument => ?_⟩,
    fun c' hc' => ?_, hinit hname⟩
  · exact (hvalid hname document hdocument).elim (hready.valid document)
      fun h => hready.validation ▸ h
  · rw [Option.some.inj (hc'.symm.trans hc)]

theorem Starting.step (hs : Starting s) (h : Step [] s none t) : Starting t ∧ Onward s t := by
  cases h with
  | @expire name c before after document _ _ hc hdocuments =>
      refine hs.put_documents hc (fun hname => ?_) fun _ d hd => .inl ?_
      · -- there is nothing to expire before the setup is through
        refine hs.empty.imp_right fun hempty => ?_
        have hnone := hempty name hname c hc
        rw [hdocuments] at hnone
        exact absurd hnone (by simp)
      · rw [hdocuments]
        rcases List.mem_append.mp hd with hd | hd
        · exact List.mem_append_left _ hd
        · exact List.mem_append_right _ (List.mem_cons_of_mem _ hd)
  | clock => exact ⟨⟨hs.prepared, hs.empty⟩, fun _ _ c hc => ⟨c, hc, le_rfl⟩⟩

theorem initialValidation_strict (name : String) :
    (initialValidation name).validationLevel = .strict := by
  unfold initialValidation
  split <;> rfl

/-- What handlers write passes the checks. -/
theorem Starting.exec_writes (hs : Starting s) (hinit : Initialised s)
    {command : Command BsonDocument} (hwrites : writesDocuments command = true)
    (hexec : s.exec command = .ok t) : Starting t ∧ Onward s t := by
  cases command with
  | find | listIndexes | listCollections | createCollection | createIndex | collMod
  | dropCollection | dropDatabase => cases hwrites
  | insert name document bypass =>
      cases bypass with
      | true => cases hwrites
      | false =>
          cases hc : s.collections name with
          | some c =>
              obtain ⟨rfl, hadmits⟩ := exec_insert hc hexec
              refine hs.put_documents hc (fun _ => .inl hinit) fun _ d hd => ?_
              rcases List.mem_append.mp hd with hd | hd
              · exact .inl hd
              · rw [List.mem_singleton.mp hd]
                exact .inr (hadmits rfl)
          | none =>
              obtain ⟨c', -, rfl⟩ := Server.map_put_eq_ok hexec
              refine hs.put fun hname => ?_
              obtain ⟨c, hc', -⟩ := hinit name hname
              cases hc.symm.trans hc'
  | update name selects change =>
      simp only [Server.exec] at hexec
      cases hc : s.collections name with
      | none =>
          rw [hc] at hexec
          obtain rfl := Except.ok.inj hexec
          exact ⟨hs, .refl s⟩
      | some c =>
          rw [hc] at hexec
          obtain ⟨c', hupdate, rfl⟩ := Server.map_put_eq_ok hexec
          unfold Collection.update at hupdate
          split at hupdate
          · cases hupdate
          rename_i hadmits
          obtain rfl := Collection.store_eq_ok hupdate
          refine hs.put_documents hc (fun _ => .inl hinit) fun hname d' hd' => ?_
          obtain ⟨d, hd, rfl⟩ := List.mem_map.mp hd'
          split
          · rename_i hselects
            have hchange : c.validation.admitsUpdate d (change d) = true := by
              simp only [List.any_eq_true, not_exists, not_and, Bool.not_eq_true] at hadmits
              simpa [hselects] using hadmits d hd
            have hstrict : c.validation.validationLevel = .strict := by
              rw [(hs.prepared name hname c hc).validation, initialValidation_strict]
            exact .inr (by simpa [Validation.admitsUpdate, hstrict] using hchange)
          · exact .inl hd
  | remove name selects =>
      simp only [Server.exec] at hexec
      cases hc : s.collections name with
      | none =>
          rw [hc] at hexec
          obtain rfl := Except.ok.inj hexec
          exact ⟨hs, .refl s⟩
      | some c =>
          rw [hc] at hexec
          obtain rfl := Except.ok.inj hexec
          exact hs.put_documents hc (fun _ => .inl hinit)
            fun _ d hd => .inl (List.mem_of_mem_filter hd)

/-! ### The setup -/

/-- Nothing is undone. -/
def setupProtocol : Protocol setupEnv where
  inv := Starting
  rely := Onward
  rely_refl := .refl
  rely_trans _ _ _ h h' := h.trans h'
  inv_moves _ _ hs hm := (hs.step hm).1
  rely_moves _ _ hs hm := (hs.step hm).2

variable {Q : Post (Server BsonDocument) SetupError Unit}

/-- A command that the server does not refuse. -/
theorem request_wp {send : Server BsonDocument → Except ServerError (Server BsonDocument)}
    {raised : ServerError → SetupError}
    (h : ∀ t, Onward s t → Starting t → ∃ u, send t = .ok u ∧ Starting u ∧ Onward t u ∧
      ∀ v, Onward u v → Starting v → Q.done () v) :
    (request send raised).wp setupProtocol Onward Q s := by
  intro t _ hst ht _
  obtain ⟨u, hsend, hu, htu, hdone⟩ := h t hst ht
  simp only [hsend]
  exact ⟨htu, hu, hdone⟩

/-! Collections -/

theorem ensureCollection_of_not {ex : String → Bool} {name : String} (hex : ex name = false) :
    ensureCollection ex name = some (.createCollection name (initialValidation name)) := by
  unfold ensureCollection initialValidation
  rw [hex]
  cases collectionValidators.lookup name <;> rfl

theorem prepared_new (name : String) :
    Prepared name ({ validation := initialValidation name } : Collection BsonDocument) where
  validation := rfl
  indexes := indexesAfter_prefix (List.nil_prefix (l := requiredIndexes)) name
  nonempty := Nat.one_pos
  valid _ h := absurd h List.not_mem_nil

/-- What was there is there, and what has been made. -/
def CollectionsMade (ex : String → Bool) (commands : List (Command BsonDocument))
    (s : Server BsonDocument) : Prop :=
  ∀ name ∈ allCollections,
    (ex name = true ∨ .createCollection name (initialValidation name) ∈ commands) →
      ∃ c, s.collections name = some c

theorem CollectionsMade.later {ex : String → Bool} {commands : List (Command BsonDocument)}
    (h : CollectionsMade ex commands s) (hst : Onward s t) : CollectionsMade ex commands t := by
  intro name hname hmem
  obtain ⟨c, hc⟩ := h name hname hmem
  obtain ⟨c', hc', -⟩ := hst name hname c hc
  exact ⟨c', hc'⟩

section Loop

variable [DecidableEq (Validation BsonDocument)]

/-- A collection that was not there is made, by this replica or by another. -/
theorem Starting.execCreate (hs : Starting s) {name : String} (hname : name ∈ allCollections) :
    ∃ t, execCreate s name (initialValidation name) = .ok t ∧ Starting t ∧ Onward s t ∧
      ∃ c, t.collections name = some c := by
  unfold Schema.execCreate
  cases hc : s.collections name with
  | some c =>
      -- whoever made it asked for the same check
      have hvalidation := (hs.prepared name hname c hc).validation
      exact ⟨s, if_pos hvalidation, hs, .refl s, c, hc⟩
  | none =>
      have hnone : ∀ c, s.collections name = some c → False := fun c hc' => by
        cases hc.symm.trans hc'
      obtain ⟨hput, honward⟩ := hs.put fun _ =>
        ⟨prepared_new name, fun c hc' => (hnone c hc').elim, .inr rfl⟩
      refine ⟨s.put name { validation := initialValidation name }, ?_, hput, honward, _,
        Server.put_collections_self⟩
      simp only [Server.exec, hc]

/-- The driver looks, and sends the `create` if there is nothing to be seen. -/
theorem createCollection_wp (hs : Starting s) {name : String} (hname : name ∈ allCollections) :
    (requestTolerant (.createCollection name (initialValidation name))).wp setupProtocol Onward
      ⟨fun _ t => ∃ c, t.collections name = some c, fun _ _ => False⟩ s := by
  refine Prog.wp_bind hs (Prog.wp_read (fun t => .refl t) fun t _ _ u htu _ => ?_)
  cases hexisting : existing t name with
  | true =>
      obtain ⟨c, hc⟩ := Option.isSome_iff_exists.mp hexisting
      intro v huv _
      obtain ⟨c', hc', -⟩ := (htu.trans huv) name hname c hc
      exact ⟨c', hc'⟩
  | false =>
      refine request_wp fun v _ hv => ?_
      obtain ⟨w, hcreate, hw, hvw, c, hc⟩ := hv.execCreate hname
      refine ⟨w, hcreate, hw, hvw, fun x hwx _ => ?_⟩
      obtain ⟨c', hc', -⟩ := hwx name hname c hc
      exact ⟨c', hc'⟩

/-- One command of the loop. -/
theorem ensureCollection_wp {ex : String → Bool} {command : Command BsonDocument}
    (hcommand : command ∈ allCollections.filterMap (ensureCollection ex))
    {done : List (Command BsonDocument)} (hs : Starting s) (h : CollectionsMade ex done s) :
    (requestTolerant command).wp setupProtocol Onward
      ⟨fun _ => CollectionsMade ex (done ++ [command]), fun _ _ => False⟩ s := by
  obtain ⟨name, hname, hensure⟩ := List.mem_filterMap.mp hcommand
  -- later, with what `command` has made
  have hdone {v : Server BsonDocument} (hv : CollectionsMade ex done v)
      (hnew : ∀ other ∈ allCollections,
        command = .createCollection other (initialValidation other) →
          ∃ c, v.collections other = some c) : CollectionsMade ex (done ++ [command]) v := by
    intro other hother hmem
    rw [List.mem_append, List.mem_singleton, ← or_assoc] at hmem
    rcases hmem with hmem | hmem
    · exact hv other hother hmem
    · exact hnew other hother hmem.symm
  cases hex : ex name with
  | true =>
      have hsame {t : Server BsonDocument} (hst : Onward s t) (ht : Starting t) :
          t.exec command = .ok t := by
        obtain ⟨c, hc⟩ := h.later hst name hname (.inl hex)
        exact exec_ensureCollection_eq_self hc (ht.prepared name hname c hc).validation hex hensure
      obtain ⟨q, -, rfl⟩ := ensureCollection_of_existing hex hensure
      exact request_wp fun t hst ht => ⟨t, hsame hst ht, ht, .refl t, fun v htv _ =>
        hdone ((h.later hst).later htv) fun other _ hcreate => by cases hcreate⟩
  | false =>
      obtain rfl := Option.some.inj ((ensureCollection_of_not hex).symm.trans hensure)
      have hframe := Prog.wp_frame (fun _ _ _ h => h) (Onward.refl s) (createCollection_wp hs hname)
      refine Prog.wp_mono hframe (fun _ v _ ⟨hsv, hnew⟩ => ?_) fun _ _ _ ⟨_, he⟩ => he
      refine hdone (h.later hsv) fun other _ hcreate => ?_
      obtain rfl : name = other := (Command.createCollection.inj hcreate).1
      exact hnew

theorem collectionsSetup_wp (hs : Starting s) :
    collectionsSetup.wp setupProtocol Onward
      ⟨fun _ => Made [], fun _ _ => False⟩ s := by
  refine Prog.wp_bind hs (Prog.wp_read (fun t => .refl t) fun t hst ht u htu hu => ?_)
  have hstart : CollectionsMade (existing t) [] u := by
    rintro name hname (hex | hmem)
    · obtain ⟨c, hc⟩ := Option.isSome_iff_exists.mp hex
      obtain ⟨c', hc', -⟩ := htu name hname c hc
      exact ⟨c', hc'⟩
    · cases hmem
  have hloop := Prog.wp_foldlM (P := setupProtocol) (G := Onward) (X := fun _ _ => False)
    (J := fun commands _ => CollectionsMade (existing t) commands)
    (fun l b v w hvw h => h.later hvw)
    (allCollections.filterMap (ensureCollection (existing t)))
    (fun command hcommand _ _ _ hv h => ensureCollection_wp hcommand hv h) (b := ()) hu hstart
  refine Prog.wp_mono hloop (fun _ v hv h name hname => ?_) fun _ _ _ he => he
  obtain ⟨c, hc⟩ := h name hname <| by
    cases hex : existing t name with
    | true => exact .inl rfl
    | false => exact .inr (List.mem_filterMap.mpr ⟨name, hname, ensureCollection_of_not hex⟩)
  exact ⟨c, hc, (hv.prepared name hname c hc).nonempty⟩

end Loop

/-! Indexes -/

theorem requiredIndexes_named : ∀ p ∈ requiredIndexes, p.1 ∈ allCollections ∧
    (p.2.expireAfterSeconds.isSome && !p.2.allowsTtl) = false := by decide

theorem initialIndexes_names_nodup {name : String} (hname : name ∈ allCollections) :
    ((initialIndexes name).map (·.name)).Nodup := by
  revert name
  decide

/-- The next index is made, by this replica or by another. -/
theorem Starting.exec_createIndex (hs : Starting s) {made : List (String × Index BsonDocument)}
    {p : String × Index BsonDocument} (hmade : made ++ [p] <+: requiredIndexes)
    (h : Made made s) : ∃ t, s.exec (.createIndex p.1 p.2) = .ok t ∧ Starting t ∧ Onward s t ∧
      Made (made ++ [p]) t := by
  obtain ⟨name, idx⟩ := p
  obtain ⟨hname, httl⟩ := requiredIndexes_named (name, idx)
    (hmade.subset (List.mem_append_right _ (List.mem_singleton_self _)))
  obtain ⟨c, hc, hlength⟩ := h name hname
  have hready := hs.prepared name hname c hc
  have hnext : indexesAfter made name ++ [idx] <+: initialIndexes name := by
    rw [← indexesAfter_concat_self]
    exact indexesAfter_prefix hmade name
  have hearlier : indexesAfter made name <+: initialIndexes name :=
    (List.prefix_append _ _).trans hnext
  have hothers {other : String} (hne : name ≠ other) (hother : other ∈ allCollections) :
      ∃ c, s.collections other = some c ∧
        (indexesAfter (made ++ [(name, idx)]) other).length ≤ c.indexes.length := by
    rw [indexesAfter_concat_of_ne idx hne]
    exact h other hother
  rcases hlength.lt_or_eq with hlt | heq
  · -- it is there
    have hthere : indexesAfter made name ++ [idx] <+: c.indexes :=
      List.prefix_of_prefix_length_le hnext hready.indexes <| by
        rw [List.length_append, List.length_singleton]
        exact Nat.succ_le_of_lt hlt
    have hidx : idx ∈ c.indexes :=
      hthere.subset (List.mem_append_right _ (List.mem_singleton_self _))
    refine ⟨s, exec_createIndex_eq_self hc hidx, hs, .refl s, fun other hother => ?_⟩
    by_cases hne : name = other
    · subst hne
      exact ⟨c, hc, by rw [indexesAfter_concat_self]; exact hthere.length_le⟩
    · exact hothers hne hother
  · have hall : c.indexes = indexesAfter made name :=
      ((List.prefix_of_prefix_length_le hearlier hready.indexes heq.le).eq_of_length heq).symm
    have hfresh : (c.indexes.any fun i => i.name = idx.name) = false := by
      have hnodup := (initialIndexes_names_nodup hname).sublist (hnext.sublist.map (·.name))
      rw [List.map_append, List.map_singleton, List.nodup_append] at hnodup
      refine List.any_eq_false.mpr fun i hi hsame => ?_
      exact hnodup.2.2 _ (List.mem_map_of_mem (hall ▸ hi)) _ (List.mem_singleton_self _)
        (by simpa using hsame)
    -- so nobody has written yet
    have hempty : c.documents = [] := by
      refine hs.empty.elim (fun hinit => ?_) fun hempty => hempty name hname c hc
      obtain ⟨c', hc', -, hindexes, -⟩ := hinit name hname
      obtain rfl := Option.some.inj (hc.symm.trans hc')
      have hle := hnext.length_le
      rw [← hindexes, List.length_append, List.length_singleton, heq] at hle
      exact absurd hle (Nat.not_succ_le_self _)
    have hcreate : c.createIndex idx = .ok { c with indexes := c.indexes ++ [idx] } := by
      rw [Collection.createIndex, hfresh, httl]
      simp [hempty, Index.holds]
    obtain ⟨hput, honward⟩ : Starting (s.put name { c with indexes := c.indexes ++ [idx] }) ∧
        Onward s (s.put name { c with indexes := c.indexes ++ [idx] }) := by
      refine hs.put fun _ => ⟨⟨hready.validation, hall ▸ hnext, by simp, hready.valid⟩,
        fun c' hc' => ?_, .inr hempty⟩
      rw [Option.some.inj (hc'.symm.trans hc)]
      simp
    refine ⟨_, ?_, hput, honward, fun other hother => ?_⟩
    · show ((s.collection name).createIndex idx).map (s.put name) = _
      rw [Server.collection_eq hc, hcreate]
      rfl
    · by_cases hne : name = other
      · subst hne
        refine ⟨_, Server.put_collections_self, ?_⟩
        rw [indexesAfter_concat_self, hall]
      · rw [Server.put_collections_of_ne hne]
        exact hothers hne hother

/-- One index of the loop. -/
theorem createIndex_wp {p : String × Index BsonDocument} {left : List (String × Index BsonDocument)}
    (h : ∃ made, made ++ p :: left = requiredIndexes ∧ Made made s) :
    (request (·.exec (.createIndex p.1 p.2)) .runtimeError).wp setupProtocol Onward
      ⟨fun _ t => ∃ made, made ++ left = requiredIndexes ∧ Made made t, fun _ _ => False⟩ s := by
  obtain ⟨made, hmade, h⟩ := h
  rw [List.append_cons] at hmade
  refine request_wp fun t hst ht => ?_
  obtain ⟨u, hexec, hu, htu, hnext⟩ := ht.exec_createIndex (p := p) ⟨left, hmade⟩ (h.later hst)
  exact ⟨u, hexec, hu, htu, fun v huv _ => ⟨_, hmade, hnext.later huv⟩⟩

theorem indexesSetup_wp (hs : Starting s) (h : Made [] s) :
    indexesSetup.wp setupProtocol Onward ⟨fun _ => Initialised, fun _ _ => False⟩ s := by
  have hloop := Prog.wp_foldlM_left (P := setupProtocol) (G := Onward) (X := fun _ _ => False)
    (J := fun left _ t => ∃ made, made ++ left = requiredIndexes ∧ Made made t)
    (fun _ _ _ _ htu ⟨made, hmade, h⟩ => ⟨made, hmade, h.later htu⟩)
    (fun _ _ _ _ _ h => createIndex_wp h) (b := ()) hs ⟨[], rfl, h⟩
  refine Prog.wp_mono hloop (fun _ t ht ⟨made, hmade, h⟩ => ?_) fun _ _ _ he => he
  rw [List.append_nil] at hmade
  exact initialised_of_made ht.prepared (hmade ▸ h)

theorem databaseSetup_wp [DecidableEq (Validation BsonDocument)] (hs : Starting s) :
    databaseSetup.wp setupProtocol Onward ⟨fun _ => Initialised, fun _ _ => False⟩ s :=
  Prog.wp_bind hs (Prog.wp_mono (collectionsSetup_wp hs)
    (fun _ _ ht h => indexesSetup_wp ht h) fun _ _ _ he => he)

theorem serve_wp (hinit : Initialised s) {command : Command BsonDocument}
    (hwrites : writesDocuments command = true) :
    (serve command).wp setupProtocol Onward ⟨fun _ => Initialised, fun _ _ => False⟩ s := by
  intro t _ hst ht _
  have hinit' := hinit.later hst ht
  dsimp only
  split
  · rename_i u hexec
    obtain ⟨hu, htu⟩ := ht.exec_writes hinit' hwrites hexec
    exact ⟨htu, hu, fun v huv hv => hinit'.later (htu.trans huv) hv⟩
  · exact ⟨.refl t, ht, fun v htv hv => hinit'.later htv hv⟩

theorem replica_wp [DecidableEq (Validation BsonDocument)] (hs : Starting s)
    {traffic : List (Command BsonDocument)}
    (hwrites : ∀ command ∈ traffic, writesDocuments command = true) :
    (replica traffic).wp setupProtocol Onward ⟨fun _ => Initialised, fun _ _ => False⟩ s := by
  refine Prog.wp_bind hs (Prog.wp_mono (databaseSetup_wp hs) (fun _ t ht hinit => ?_)
    fun _ _ _ he => he)
  -- `Made` is what later states keep by themselves
  have hloop := Prog.wp_foldlM (P := setupProtocol) (G := Onward) (X := fun _ _ => False)
    (J := fun _ _ => Made requiredIndexes) (fun _ _ u v huv h => h.later huv) traffic
    (fun command hcommand _ _ u hu h => Prog.wp_mono
      (serve_wp (initialised_of_made hu.prepared h) (hwrites command hcommand))
      (fun _ _ _ hinit => hinit.made) fun _ _ _ he => he) (l := []) (b := ()) ht hinit.made
  exact Prog.wp_mono hloop (fun _ u hu h => initialised_of_made hu.prepared h) fun _ _ _ he => he

/-! ### How long it takes -/

theorem request_within (send : Server BsonDocument → Except ServerError (Server BsonDocument))
    (raised : ServerError → SetupError) : (request send raised).Within 1 := by
  intro _ s
  dsimp only
  split <;> trivial

theorem requestTolerant_within [DecidableEq (Validation BsonDocument)]
    (command : Command BsonDocument) : (requestTolerant command).Within 2 := by
  cases command with
  | createCollection name validation =>
      refine Prog.Within.bind (p := Prog.read (existing · name)) (m := 1) (n := 1)
        (fun _ _ => trivial) fun there => ?_
      cases there with
      | true => trivial
      | false => exact request_within _ _
  | find | insert | update | remove | createIndex | listIndexes | listCollections | collMod
  | dropCollection | dropDatabase =>
      rw [requestTolerant_of_not (by simp)]
      exact (request_within _ _).mono (Nat.le_succ 1)

theorem databaseSetup_within [DecidableEq (Validation BsonDocument)] :
    databaseSetup.Within (1 + allCollections.length * 2 + requiredIndexes.length) := by
  refine Prog.Within.bind (Prog.Within.bind (m := 1) (fun _ _ => trivial) fun ex => ?_) fun _ => ?_
  · refine (Prog.Within.foldlM (fun _ => requestTolerant_within) _ _).mono ?_
    exact Nat.mul_le_mul_right 2 (List.length_filterMap_le _ _)
  · exact (Prog.Within.foldlM (n := 1) (fun _ _ => request_within _ _) _ _).mono
      (Nat.mul_one _).le

theorem serve_within (command : Command BsonDocument) : (serve command).Within 1 :=
  fun _ _ => trivial

theorem replica_within [DecidableEq (Validation BsonDocument)]
    (traffic : List (Command BsonDocument)) : (replica traffic).Within
      (1 + allCollections.length * 2 + requiredIndexes.length + traffic.length) :=
  databaseSetup_within.bind fun _ =>
    (Prog.Within.foldlM (n := 1) (fun _ => serve_within) _ _).mono (Nat.mul_one _).le

/-! ### Replicas -/

section Replicas

variable [DecidableEq (Validation BsonDocument)] {ν : Type} [DecidableEq ν]
  {traffic : ν → List (Command BsonDocument)} {l : List (Option ν)}
  {c : Config ν (Server BsonDocument) Unit SetupError Unit}

omit [DecidableEq ν] in
theorem replicas_sound (hwrites : ∀ i, ∀ command ∈ traffic i, writesDocuments command = true)
    (hs : Starting s) : (replicas traffic s).Sound setupProtocol (fun _ => Onward)
      fun _ => ⟨fun _ => Initialised, fun _ _ => False⟩ :=
  ⟨hs, fun i => replica_wp hs (hwrites i)⟩

/-- Replicas that start together, on a new database or on one that has been set up before.
No setup fails. A replica that has got through its own finds every collection with its
check and with its indexes, and so does whoever finds a document; from then on they stay.
And no replica waits for another, such as one that was killed half-way. -/
theorem replicas_initialise
    (hwrites : ∀ i, ∀ command ∈ traffic i, writesDocuments command = true)
    (hs : (∃ now, s = fresh now) ∨ Initialised s) (h : Run setupEnv (replicas traffic s) l c) :
    (∀ i e, c.prog i ≠ .raise e) ∧ (∀ i, c.prog i = .done () → Initialised c.shared) ∧
    (∀ name ∈ allCollections, ∀ d, c.shared.collections name = some d → d.documents ≠ [] →
      Initialised c.shared) ∧
    (Initialised c.shared → ∀ l' c', Run setupEnv c l' c' → Initialised c'.shared) ∧
    ∀ i, Interleave.Terminates setupEnv (replicas traffic s) i := by
  have hstarting : Starting s := by
    rcases hs with ⟨now, rfl⟩ | hinit
    · exact starting_fresh now
    · exact hinit.starting
  have hstart := replicas_sound hwrites hstarting
  obtain ⟨hc, -⟩ := h.sound (fun _ _ _ _ h => h) hstart
  refine ⟨fun i e he => hc.of_raise he, fun i hi => hc.of_done hi, fun name hname d hd hne => ?_,
    fun hinit l' c' h' => ?_, fun i => ?_⟩
  · exact hc.inv.empty.resolve_right fun hempty => hne (hempty name hname d hd)
  · obtain ⟨hc', hrely⟩ := h'.sound (fun _ _ _ _ h => h) hc
    exact hinit.later hrely hc'.inv
  · exact Interleave.terminates (replica_within (traffic i)) fun _ => ⟨(), trivial⟩

end Replicas

namespace Example

/-- Each of two replicas is to revoke a token. -/
def revocations (i : Fin 2) : List (Command BsonDocument) :=
  [.insert "revoked_tokens"
    [("_id", .objectId i), ("jti", .string "token"), ("expires_at", .date 60)] false]

open Classical in
/-- One gets through by itself. -/
theorem replicas_initialise_alone : ∃ l c,
    Run setupEnv (replicas revocations (fresh 0)) l c ∧ c.prog 0 = .done () ∧
      Initialised c.shared := by
  obtain ⟨l, c, hrun, hended, -⟩ := Interleave.exists_run_ended
    (c := replicas revocations (fresh 0)) (E := setupEnv) (fun _ _ _ => ⟨(), trivial⟩) 0
  have hwrites : ∀ i, ∀ command ∈ revocations i, writesDocuments command = true := by
    intro i command h
    rw [List.mem_singleton.mp h, writesDocuments]
  obtain ⟨hnone, hdone, -⟩ := replicas_initialise hwrites (.inl ⟨0, rfl⟩) hrun
  cases hprog : c.prog 0 with
  | done => exact ⟨l, c, hrun, hprog, hdone 0 hprog⟩
  | raise e => exact absurd hprog (hnone 0 e)
  | act =>
      rw [hprog] at hended
      cases hended

end Example

end Ledgerlock.Schema

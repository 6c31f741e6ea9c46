import Cove.Lib.KeyedParts
import Cove.Map.IdentityKeys
import Cove.Map.SegmentsAccepted

/-!
# What an identity plan says

Which planned identities name one object, which aliases cannot meet in one, and that the order
of the source rows leaves no trace.

- `keyComponents`, `plannedOf`: the components and what each of their keys becomes.
- `planIdentities_eq_ok_iff`: a successful plan, taken apart.
- `planIdentities_spec`: **the plan merges exactly what the rules allow**, keeps the constraints
  and is one for all orders of the rows.
-/

namespace Cove

open Checked SortedList

/-! ## Components -/

/-- The keys of each component. -/
def keyComponents (keys : List IdentityKey) : List (List IdentityKey) :=
  (componentsOf keys).map fun component => component.2.filterMap fun index => keys[index]?

variable {key key' : IdentityKey}

variable {i : Nat} {component : List IdentityKey}

section

variable {keys : List IdentityKey}

theorem mem_componentsOf {root : Nat} {indexes : List Nat} :
    (root, indexes) ∈ componentsOf keys ↔
      indexes = ((List.range keys.length).filter fun i => componentRoot keys i = root) ∧
        indexes ≠ [] := by
  rw [componentsOf_eq]
  exact Grouping.mem_grouped

theorem getElem?_of_mem_componentsOf {component : Nat × List Nat}
    (h : component ∈ componentsOf keys) (hi : i ∈ component.2) :
    (∃ key, keys[i]? = some key) ∧ componentRoot keys i = component.1 := by
  obtain ⟨root, indexes⟩ := component
  rw [(Iff.mp mem_componentsOf h).1] at hi
  obtain ⟨hrange, hroot⟩ := List.mem_filter.mp hi
  exact ⟨⟨_, List.getElem?_eq_getElem (List.mem_range.mp hrange)⟩, of_decide_eq_true hroot⟩

theorem sameGroup_of_merged {j : Nat} (hi : keys[i]? = some key)
    (hj : keys[j]? = some key') (h : Merged keys i j) : key = key' ∨ key.SameGroup key' := by
  rcases h with rfl | ⟨bytes, hbytes, hbytes'⟩
  · exact .inl (Option.some.inj (hi.symm.trans hj))
  · unfold mergeGroupAt at hbytes hbytes'
    rw [hi] at hbytes
    rw [hj] at hbytes'
    exact .inr ⟨bytes, hbytes, hbytes'⟩

/-- The keys of a component are of one merge group. -/
theorem sameGroup_of_mem_keyComponents
    (h : component ∈ keyComponents keys) : component ≠ [] ∧ ∀ key ∈ component, ∀ key' ∈ component,
      key = key' ∨ key.SameGroup key' := by
  obtain ⟨⟨root, indexes⟩, hmem, rfl⟩ := List.mem_map.mp h
  have hin := fun {i} => getElem?_of_mem_componentsOf (i := i) hmem
  refine ⟨?_, ?_⟩
  · obtain ⟨i, hi⟩ := List.exists_mem_of_ne_nil _ (Iff.mp mem_componentsOf hmem).2
    obtain ⟨key, hkey⟩ := (hin hi).1
    exact List.ne_nil_of_mem (List.mem_filterMap.mpr ⟨i, hi, hkey⟩)
  · intro key hkey key' hkey'
    obtain ⟨i, hi, hkey⟩ := List.mem_filterMap.mp hkey
    obtain ⟨j, hj, hkey'⟩ := List.mem_filterMap.mp hkey'
    refine sameGroup_of_merged hkey hkey' (componentRoot_eq_iff.mp ?_)
    exact (hin hi).2.trans (hin hj).2.symm

/-- Keys of one merge group have a component. -/
theorem exists_keyComponent (hkey : key ∈ keys) (hkey' : key' ∈ keys)
    (h : key = key' ∨ key.SameGroup key') :
    ∃ component ∈ keyComponents keys, key ∈ component ∧ key' ∈ component := by
  obtain ⟨i, hi⟩ := List.getElem?_of_mem hkey
  obtain ⟨j, hj, hmerged⟩ : ∃ j, keys[j]? = some key' ∧ Merged keys i j := by
    rcases h with rfl | ⟨bytes, hbytes, hbytes'⟩
    · exact ⟨i, hi, .inl rfl⟩
    · obtain ⟨j, hj⟩ := List.getElem?_of_mem hkey'
      refine ⟨j, hj, .inr ⟨bytes, ?_, ?_⟩⟩
      · exact (congrArg (Option.bind · _) hi).trans hbytes
      · exact (congrArg (Option.bind · _) hj).trans hbytes'
  have hmem : ∀ {k key}, keys[k]? = some key → componentRoot keys k = componentRoot keys i →
      k ∈ (List.range keys.length).filter fun k => componentRoot keys k = componentRoot keys i := by
    intro k key hk hroot
    exact List.mem_filter.mpr ⟨List.mem_range.mpr (List.getElem?_eq_some_iff.mp hk).1,
      decide_eq_true hroot⟩
  have hiIn := hmem hi rfl
  have hjIn := hmem hj (componentRoot_eq_iff.mpr hmerged).symm
  have hcomponent := Iff.mpr mem_componentsOf ⟨rfl, List.ne_nil_of_mem hiIn⟩
  refine ⟨_, List.mem_map_of_mem hcomponent, ?_, ?_⟩
  · exact List.mem_filterMap.mpr ⟨i, hiIn, hi⟩
  · exact List.mem_filterMap.mpr ⟨j, hjIn, hj⟩

/-! ## The order of the components -/

theorem mem_componentIndexes :
    i ∈ (componentsOf keys).flatMap Prod.snd ↔ i < keys.length := by
  constructor
  · intro hi
    obtain ⟨component, hmem, hi⟩ := List.mem_flatMap.mp hi
    obtain ⟨key, hkey⟩ := (getElem?_of_mem_componentsOf hmem hi).1
    exact (List.getElem?_eq_some_iff.mp hkey).1
  · intro hi
    have hin : i ∈ (List.range keys.length).filter
        fun j => componentRoot keys j = componentRoot keys i :=
      List.mem_filter.mpr ⟨List.mem_range.mpr hi, decide_eq_true rfl⟩
    exact List.mem_flatMap.mpr ⟨_, mem_componentsOf.mpr ⟨rfl, List.ne_nil_of_mem hin⟩, hin⟩

/-- Indexes that are told apart only within a component come in their order. -/
theorem filter_componentIndexes {p : Nat → Bool}
    (htie : ∀ i j, p i = true → p j = true → mergeGroupAt keys i = mergeGroupAt keys j) :
    ((componentsOf keys).flatMap Prod.snd).filter p = (List.range keys.length).filter p := by
  have hleft : (((componentsOf keys).flatMap Prod.snd).filter p).Pairwise (· < ·) := by
    rw [List.filter_flatMap, List.pairwise_flatMap]
    constructor
    · rintro ⟨root, indexes⟩ hmem
      rw [(Iff.mp mem_componentsOf hmem).1]
      exact (List.pairwise_lt_range.filter _).filter _
    · have hsorted : ((componentsOf keys).map Prod.fst).Pairwise (· < ·) := by
        rw [componentsOf_eq]
        exact Grouping.sorted_grouped _ _
      refine (List.pairwise_map.mp hsorted).imp_of_mem ?_
      intro component component' hmem hmem' hlt i hi j hj
      obtain ⟨hi, hpi⟩ := List.mem_filter.mp hi
      obtain ⟨hj, hpj⟩ := List.mem_filter.mp hj
      have hroot := (getElem?_of_mem_componentsOf hmem hi).2
      have hroot' := (getElem?_of_mem_componentsOf hmem' hj).2
      have hgroup := htie i j hpi hpj
      -- a merge group would put both indexes in one component
      cases hnone : mergeGroupAt keys i with
      | none =>
        rw [componentRoot_of_singleton hnone] at hroot
        rw [componentRoot_of_singleton (hgroup ▸ hnone)] at hroot'
        omega
      | some bytes =>
        have hsame := componentRoot_eq_iff.mpr (.inr ⟨bytes, hnone, hgroup ▸ hnone⟩)
        omega
  have hright : ((List.range keys.length).filter p).Pairwise (· < ·) :=
    List.pairwise_lt_range.filter _
  refine List.Perm.eq_of_pairwise (fun a b _ _ hab hba => absurd hab hba.not_gt) hleft hright ?_
  refine (List.perm_ext_iff_of_nodup (hleft.imp ne_of_lt) (hright.imp ne_of_lt)).mpr fun i => ?_
  rw [List.mem_filter, List.mem_filter, mem_componentIndexes, List.mem_range]

theorem filterMap_getElem?_range {α : Type u} (l : List α) :
    (List.range l.length).filterMap (fun i => l[i]?) = l := by
  have hmap : (List.range l.length).map (fun i => l[i]?) = l.map some := by
    refine List.ext_getElem (by simp) fun i hi hi' => ?_
    simp only [List.getElem_map, List.getElem_range]
    exact List.getElem?_eq_getElem _
  have hid := List.filterMap_map (f := fun i => l[i]?) (g := id) (l := List.range l.length)
  rw [hmap, List.filterMap_map] at hid
  simpa using hid.symm

theorem flatten_keyComponents (keys : List IdentityKey) : (keyComponents keys).flatten =
    ((componentsOf keys).flatMap Prod.snd).filterMap fun i => keys[i]? := by
  unfold keyComponents
  rw [← List.flatMap_def, List.filterMap_flatMap]

/-- Keys that are told apart only within a component come in their order. -/
theorem filter_keyComponents {q : IdentityKey → Bool}
    (htie : ∀ key ∈ keys, ∀ key' ∈ keys, q key = true → q key' = true →
      key.mergeGroupKey = key'.mergeGroupKey) :
    (keyComponents keys).flatten.filter q = keys.filter q := by
  have hfilter : ∀ indexes : List Nat, (indexes.filterMap fun i => keys[i]?).filter q =
      (indexes.filter fun i => (keys[i]?).any q).filterMap fun i => keys[i]? := by
    intro indexes
    rw [List.filter_filterMap, List.filterMap_filter]
    refine List.filterMap_congr fun i _ => ?_
    cases keys[i]? with
    | none => simp
    | some key => cases hq : q key <;> simp [Option.filter, hq]
  have hkeys := filterMap_getElem?_range keys
  rw [flatten_keyComponents, hfilter, filter_componentIndexes, ← hfilter, hkeys]
  have hany : ∀ {i : Nat}, (keys[i]?).any q = true → ∃ key, keys[i]? = some key ∧ q key = true := by
    intro i hi
    cases hkey : keys[i]? with
    | none =>
      rw [hkey] at hi
      cases hi
    | some key =>
      rw [hkey] at hi
      exact ⟨key, rfl, hi⟩
  intro i j hi hj
  obtain ⟨key, hkey, hq⟩ := hany hi
  obtain ⟨key', hkey', hq'⟩ := hany hj
  unfold mergeGroupAt
  rw [hkey, hkey']
  exact htie key (List.mem_of_getElem? hkey) key' (List.mem_of_getElem? hkey') hq hq'

end

/-! ## Planned identities -/

/-- What a key becomes. -/
def plannedOf (ext : Externals) (file : CovemapFile) (key : IdentityKey) : PlannedIdentity where
  sourceId := key.sourceId
  rowIndex := key.rowIndex
  rowDigest := key.rowDigest
  schemaFingerprint := key.schemaFingerprint
  sourceRowIdentity := key.sourceRowIdentity
  rowRuleId := key.rowRuleId
  identityRuleId := key.identityRuleId
  objectType := key.objectType
  joinKeySha256 := key.joinKeySha256
  identityAlias := key.anchorAlias
  equivalenceId := colon key.objectType (hexEncode (goidOf ext file key))
  canonicalAnchor := key.anchorAlias
  goid := goidOf ext file key

/-- The aliases of a planned identity. -/
def PlannedIdentity.aliases (identity : PlannedIdentity) : List Text :=
  [identity.sourceRowIdentity, identity.rowDigest, identity.identityAlias,
    colon identity.objectType identity.joinKeySha256]

/-- The object type ids of a mapping. -/
def typeIdsOf (objectTypes : List ObjectTypeEntryV1) : List (Text × Nat) :=
  AssocMap.collect (objectTypes.map fun ty => (ty.typeName, ty.objectTypeId))

/-- Keys of one object become the identities that they say they do, whichever is the anchor. -/
theorem planComponent_eq {ext : Externals} {file : CovemapFile}
    (hne : component ≠ []) (hsame : ∀ key ∈ component, ∀ key' ∈ component,
      goidOf ext file key = goidOf ext file key' ∧ key.objectType = key'.objectType ∧
        key.anchorAlias = key'.anchorAlias) :
    planComponent ext file component = .ok (component.map (plannedOf ext file)) := by
  obtain ⟨anchor, hanchor⟩ : ∃ anchor, component.argmin IdentityKey.anchorSortKey = some anchor := by
    cases h : component.argmin IdentityKey.anchorSortKey with
    | none => exact absurd (List.argmin_eq_none.mp h) hne
    | some anchor => exact ⟨anchor, rfl⟩
  unfold planComponent
  rw [hanchor]
  refine congrArg Except.ok (List.map_congr_left fun key hkey => ?_)
  obtain ⟨hgoid, htype, halias⟩ := hsame key hkey anchor (List.argmin_mem hanchor)
  unfold plannedOf
  rw [hgoid, htype, halias]
  rfl

/-- The constraints hold of every two keys of one merge group. -/
def ConstraintsHold (constraints : List (Text × Text)) (keys : List IdentityKey) : Prop :=
  ∀ c ∈ constraints, ∀ key ∈ keys, ∀ key' ∈ keys, (key = key' ∨ key.SameGroup key') →
    ¬ (c.1 ∈ key.aliases ∧ c.2 ∈ key'.aliases)

theorem validateDoNotMerge_eq_ok_iff {constraints : List (Text × Text)}
    {keys : List IdentityKey} :
    validateDoNotMerge constraints (keyComponents keys) = .ok () ↔
      ConstraintsHold constraints keys := by
  constructor
  · rintro h c hc key hkey key' hkey' hgroup ⟨hleft, hright⟩
    obtain ⟨component, hcomponent, hin, hin'⟩ := exists_keyComponent hkey hkey' hgroup
    have hok := forM_eq_ok.mp h component hcomponent
    dsimp only at hok
    split at hok
    · next hnone =>
      refine List.find?_eq_none.mp hnone c hc ?_
      rw [Bool.and_eq_true, List.contains_iff_mem, List.contains_iff_mem]
      exact ⟨List.mem_flatMap.mpr ⟨key, hin, hleft⟩, List.mem_flatMap.mpr ⟨key', hin', hright⟩⟩
    · cases hok
  · intro h
    refine forM_eq_ok.mpr fun component hcomponent => ?_
    dsimp only
    split
    · rfl
    · next left right hfind =>
      exfalso
      have hboth := List.find?_some hfind
      rw [Bool.and_eq_true, List.contains_iff_mem, List.contains_iff_mem] at hboth
      obtain ⟨key, hin, hleft⟩ := List.mem_flatMap.mp hboth.1
      obtain ⟨key', hin', hright⟩ := List.mem_flatMap.mp hboth.2
      have hkeys : ∀ k ∈ component, k ∈ keys := by
        intro k hk
        obtain ⟨c, -, rfl⟩ := List.mem_map.mp hcomponent
        obtain ⟨i, -, hi⟩ := List.mem_filterMap.mp hk
        exact List.mem_of_getElem? hi
      exact h (left, right) (List.mem_of_find?_eq_some hfind) key (hkeys key hin) key'
        (hkeys key' hin') ((sameGroup_of_mem_keyComponents hcomponent).2 key hin key' hin')
        ⟨hleft, hright⟩

/-! ## A plan taken apart -/

section

variable {ext : Externals} {file : CovemapFile} {rows : List SourceRow} {plan : IdentityPlan}

theorem planIdentities_eq_ok_iff : planIdentities ext file rows = .ok plan ↔
    ∃ context objectTypes planned, mappingContext file = .ok context ∧
      objectTypesFromMapping ext context = .ok objectTypes ∧
      (∀ row ∈ rows, ∃ identities,
        identitiesOfRow ext context (typeIdsOf objectTypes) row = .ok identities) ∧
      validateDoNotMerge context.doNotMerge
        (keyComponents (rows.flatMap (rowKeys ext context (typeIdsOf objectTypes)))) = .ok () ∧
      (keyComponents (rows.flatMap (rowKeys ext context (typeIdsOf objectTypes)))).mapM
        (planComponent ext file) = .ok planned ∧
      plan = ⟨sortBy PlannedIdentity.sortKey planned.flatten, sortBy CandidateMatch.sortKey
        (rows.flatMap (rowCandidates ext context (typeIdsOf objectTypes)))⟩ := by
  have hflat : ∀ {γ : Type} (context : MappingContext) (objectTypes : List ObjectTypeEntryV1)
      (pick : RowIdentity → Option γ) (identities : List (List RowIdentity)),
      rows.mapM (identitiesOfRow ext context (typeIdsOf objectTypes)) = .ok identities →
      identities.flatten.filterMap pick = rows.flatMap fun row =>
        (elements (identitiesOfRow ext context (typeIdsOf objectTypes) row)).filterMap pick := by
    intro γ context objectTypes pick identities h
    have hflatten : (do
        .ok (← rows.mapM (identitiesOfRow ext context (typeIdsOf objectTypes))).flatten :
          Except Text (List RowIdentity)) = .ok identities.flatten := by
      rw [h]
      rfl
    have hjoin := mapM_flatten_eq_ok.mp hflatten
    rw [hjoin.2, List.filterMap_flatMap]
  constructor
  · intro h
    obtain ⟨context, hcontext, h⟩ := bind_eq_ok.mp h
    obtain ⟨objectTypes, hobjects, h⟩ := bind_eq_ok.mp h
    obtain ⟨identities, hidentities, h⟩ := bind_eq_ok.mp h
    obtain ⟨⟨⟩, hvalid, h⟩ := bind_eq_ok.mp h
    obtain ⟨planned, hplanned, h⟩ := bind_eq_ok.mp h
    rw [hflat context objectTypes _ _ hidentities] at hvalid hplanned
    rw [hflat context objectTypes _ _ hidentities] at h
    refine ⟨context, objectTypes, planned, hcontext, hobjects, ?_, hvalid, hplanned,
      (Except.ok.inj h).symm⟩
    intro row hrow
    obtain ⟨ids, -, hids⟩ := exists_of_mapM_mem hidentities hrow
    exact ⟨ids, hids⟩
  · rintro ⟨context, objectTypes, planned, hcontext, hobjects, hrows, hvalid, hplanned, rfl⟩
    obtain ⟨identities, hidentities⟩ := exists_forall₂ hrows
    have hidentities := mapM_eq_ok.mpr hidentities
    refine bind_eq_ok.mpr ⟨context, hcontext, bind_eq_ok.mpr ⟨objectTypes, hobjects,
      bind_eq_ok.mpr ⟨identities, hidentities, ?_⟩⟩⟩
    have hkeys := hflat context objectTypes RowIdentity.key? _ hidentities
    have hcandidates := hflat context objectTypes RowIdentity.candidate? _ hidentities
    dsimp only
    rw [hkeys, hcandidates]
    exact bind_eq_ok.mpr ⟨(), hvalid, bind_eq_ok.mpr ⟨planned, hplanned, rfl⟩⟩

/-! ## The keys of a run -/

/-- A key that some row of the run gives. -/
def IsPlanKey (ext : Externals) (file : CovemapFile) (rows : List SourceRow) (key : IdentityKey) :
    Prop :=
  ∃ context objectTypes, mappingContext file = .ok context ∧
    objectTypesFromMapping ext context = .ok objectTypes ∧
    ∃ row ∈ rows, key ∈ rowKeys ext context (typeIdsOf objectTypes) row

/-- What the run groups by and hashes is of lengths that eight bytes can hold. -/
def PlanFits (ext : Externals) (file : CovemapFile) (rows : List SourceRow) : Prop :=
  ∀ key, IsPlanKey ext file rows key → (∀ part ∈ key.mergeGroupParts, part.length < 2 ^ 64) ∧
    ∀ part ∈ (goidPartsOf file key).parts, part.length < 2 ^ 64

/-- The truncated digest tells apart what the run hashes into object ids. -/
def DigestInjective (ext : Externals) (file : CovemapFile) (rows : List SourceRow) : Prop :=
  Set.InjOn (fun bytes => first16 (ext.sha256 bytes))
    {bytes | ∃ key, IsPlanKey ext file rows key ∧ (goidPartsOf file key).bytes = bytes}

section Run

variable {context : MappingContext} {objectTypes : List ObjectTypeEntryV1}
  (hcontext : mappingContext file = .ok context)
  (hobjects : objectTypesFromMapping ext context = .ok objectTypes)
  (hfits : PlanFits ext file rows)

include hcontext hobjects

theorem isPlanKey {key : IdentityKey}
    (h : key ∈ rows.flatMap (rowKeys ext context (typeIdsOf objectTypes))) :
    IsPlanKey ext file rows key :=
  ⟨context, objectTypes, hcontext, hobjects, List.mem_flatMap.mp h⟩

omit hobjects in
theorem exists_origin {key : IdentityKey}
    (h : key ∈ rows.flatMap (rowKeys ext context (typeIdsOf objectTypes))) :
    ∃ row ∈ rows, ∃ rule, KeyOrigin ext context (typeIdsOf objectTypes) row rule key := by
  obtain ⟨row, hrow, hkey⟩ := List.mem_flatMap.mp h
  exact ⟨row, hrow, exists_keyOrigin (mappingContext_spec hcontext).1 hkey⟩

include hfits in
/-- Every component is planned, each key as it says itself. -/
theorem mapM_planComponent :
    (keyComponents (rows.flatMap (rowKeys ext context (typeIdsOf objectTypes)))).mapM
        (planComponent ext file) =
      .ok ((keyComponents (rows.flatMap (rowKeys ext context (typeIdsOf objectTypes)))).map
        (List.map (plannedOf ext file))) := by
  refine mapM_eq_ok.mpr (forall₂_map_self fun component hcomponent => ?_)
  obtain ⟨hne, hgroup⟩ := sameGroup_of_mem_keyComponents hcomponent
  refine planComponent_eq hne fun key hkey key' hkey' => ?_
  have hmem : ∀ k ∈ component,
      k ∈ rows.flatMap (rowKeys ext context (typeIdsOf objectTypes)) := by
    intro k hk
    obtain ⟨c, -, rfl⟩ := List.mem_map.mp hcomponent
    obtain ⟨i, -, hi⟩ := List.mem_filterMap.mp hk
    exact List.mem_of_getElem? hi
  rcases hgroup key hkey key' hkey' with rfl | hgroup
  · exact ⟨rfl, rfl, rfl⟩
  · obtain ⟨row, -, rule, h⟩ := exists_origin hcontext (hmem key hkey)
    obtain ⟨row', -, rule', h'⟩ := exists_origin hcontext (hmem key' hkey')
    obtain ⟨hid, htuple, -, hmerge⟩ := (sameGroup_iff h h'
      (hfits key (isPlanKey hcontext hobjects (hmem key hkey))).1
      (hfits key' (isPlanKey hcontext hobjects (hmem key' hkey'))).1).mp hgroup
    obtain rfl := h.rule_eq h' hid
    exact ⟨goidOf_eq h h' htuple hmerge file, h.objectType.trans h'.objectType.symm,
      h.anchorAlias_eq h' htuple⟩

omit hobjects in
/-- A planned identity tells its row, and with it its merge group under a rule. -/
theorem mergeGroupKey_eq_of_sortKey
    (hrows : (rows.map fun row => (row.sourceId, row.rowIndex)).Nodup)
    (hkey : key ∈ rows.flatMap (rowKeys ext context (typeIdsOf objectTypes)))
    (hkey' : key' ∈ rows.flatMap (rowKeys ext context (typeIdsOf objectTypes)))
    (h : (plannedOf ext file key).sortKey = (plannedOf ext file key').sortKey) :
    key.mergeGroupKey = key'.mergeGroupKey := by
  obtain ⟨row, hrow, rule, ho⟩ := exists_origin hcontext hkey
  obtain ⟨row', hrow', rule', ho'⟩ := exists_origin hcontext hkey'
  obtain ⟨hsource, h⟩ := Prod.mk.inj (toLex.injective h)
  obtain ⟨hindex, h⟩ := Prod.mk.inj (toLex.injective h)
  obtain ⟨hid, -⟩ := Prod.mk.inj (toLex.injective h)
  have hsame : row = row' := by
    refine List.inj_on_of_nodup_map hrows hrow hrow' ?_
    rw [← ho.sourceId, ← ho'.sourceId, ← ho.rowIndex, ← ho'.rowIndex]
    exact Prod.ext hsource hindex
  subst hsame
  have hrule : rule.ruleId = rule'.ruleId := by
    rw [← ho.identityRuleId, ← ho'.identityRuleId]
    exact Name.ext hid
  obtain rfl := ho.rule_eq ho' hrule
  rw [key.mergeGroupKey_eq, key'.mergeGroupKey_eq]
  unfold IdentityKey.mergeGroupParts
  rw [ho.mergeClass, ho'.mergeClass, ho.objectType, ho'.objectType, ho.identityRuleId,
    ho'.identityRuleId, ho.sourceId, ho'.sourceId, ho.tuple_eq ho']

omit hobjects in
/-- **The plan lists the identities of the rows**, sorted. -/
theorem sortBy_planned (hrows : (rows.map fun row => (row.sourceId, row.rowIndex)).Nodup) :
    sortBy PlannedIdentity.sortKey
        ((keyComponents (rows.flatMap (rowKeys ext context (typeIdsOf objectTypes)))).map
          (List.map (plannedOf ext file))).flatten =
      sortBy PlannedIdentity.sortKey (rows.flatMap fun row =>
        (rowKeys ext context (typeIdsOf objectTypes) row).map (plannedOf ext file)) := by
  refine sortBy_eq_of_filter_eq PlannedIdentity.sortKey fun v => ?_
  rw [← List.map_flatten, ← List.map_flatMap, List.filter_map, List.filter_map]
  refine congrArg (List.map (plannedOf ext file)) (filter_keyComponents ?_)
  intro key hkey key' hkey' h h'
  exact mergeGroupKey_eq_of_sortKey hcontext hrows hkey hkey'
    ((@of_decide_eq_true _ (_) h).trans (@of_decide_eq_true _ (_) h').symm)

end Run

/-- **A successful plan, row by row.** -/
theorem planIdentities_eq_ok (hrows : (rows.map fun row => (row.sourceId, row.rowIndex)).Nodup)
    (hfits : PlanFits ext file rows) : planIdentities ext file rows = .ok plan ↔
    ∃ context objectTypes, mappingContext file = .ok context ∧
      objectTypesFromMapping ext context = .ok objectTypes ∧
      (∀ row ∈ rows, ∃ identities,
        identitiesOfRow ext context (typeIdsOf objectTypes) row = .ok identities) ∧
      ConstraintsHold context.doNotMerge
        (rows.flatMap (rowKeys ext context (typeIdsOf objectTypes))) ∧
      plan = ⟨sortBy PlannedIdentity.sortKey (rows.flatMap fun row =>
          (rowKeys ext context (typeIdsOf objectTypes) row).map (plannedOf ext file)),
        sortBy CandidateMatch.sortKey
          (rows.flatMap (rowCandidates ext context (typeIdsOf objectTypes)))⟩ := by
  rw [planIdentities_eq_ok_iff]
  constructor
  · rintro ⟨context, objectTypes, planned, hcontext, hobjects, hall, hvalid, hplanned, rfl⟩
    rw [mapM_planComponent hcontext hobjects hfits] at hplanned
    obtain rfl := Except.ok.inj hplanned
    exact ⟨context, objectTypes, hcontext, hobjects, hall, validateDoNotMerge_eq_ok_iff.mp hvalid,
      by rw [sortBy_planned hcontext hrows]⟩
  · rintro ⟨context, objectTypes, hcontext, hobjects, hall, hvalid, rfl⟩
    exact ⟨context, objectTypes, _, hcontext, hobjects, hall,
      validateDoNotMerge_eq_ok_iff.mpr hvalid, mapM_planComponent hcontext hobjects hfits,
      by rw [sortBy_planned hcontext hrows]⟩

/-- **The order of the rows leaves no trace.** -/
theorem planIdentities_perm (hrows : (rows.map fun row => (row.sourceId, row.rowIndex)).Nodup)
    (hfits : PlanFits ext file rows) (hplan : planIdentities ext file rows = .ok plan)
    {rows' : List SourceRow} (hperm : rows'.Perm rows) :
    planIdentities ext file rows' = .ok plan := by
  have hrows' := (hperm.map fun row => (row.sourceId, row.rowIndex)).nodup_iff.mpr hrows
  have hfits' : PlanFits ext file rows' := by
    rintro key ⟨context, objectTypes, hcontext, hobjects, row, hrow, hkey⟩
    exact hfits key ⟨context, objectTypes, hcontext, hobjects, row, hperm.mem_iff.mp hrow, hkey⟩
  obtain ⟨context, objectTypes, hcontext, hobjects, hall, hvalid, rfl⟩ :=
    (planIdentities_eq_ok hrows hfits).mp hplan
  refine (planIdentities_eq_ok hrows' hfits').mpr ⟨context, objectTypes, hcontext, hobjects,
    fun row hrow => hall row (hperm.mem_iff.mp hrow), ?_, ?_⟩
  · have hmem := fun {key} =>
      (hperm.flatMap_right (rowKeys ext context (typeIdsOf objectTypes))).mem_iff (a := key)
    intro c hc key hkey key' hkey'
    exact hvalid c hc key (hmem.mp hkey) key' (hmem.mp hkey')
  · congr 1
    · refine (KeyedParts.sortBy_flatMap_perm PlannedIdentity.sortKey
        (q := fun p => (p.sourceId, p.rowIndex)) hrows hperm ?_ ?_).symm
      · intro row hrow p hp
        obtain ⟨key, hkey, rfl⟩ := List.mem_map.mp hp
        obtain ⟨rule, h⟩ := exists_keyOrigin (mappingContext_spec hcontext).1 hkey
        exact Prod.ext h.sourceId h.rowIndex
      · intro p p' h
        obtain ⟨hsource, h⟩ := Prod.mk.inj (toLex.injective h)
        obtain ⟨hindex, -⟩ := Prod.mk.inj (toLex.injective h)
        exact Prod.ext hsource hindex
    · refine (KeyedParts.sortBy_flatMap_perm CandidateMatch.sortKey
        (q := fun c => (c.sourceId, c.rowIndex)) hrows hperm ?_ ?_).symm
      · intro row hrow c hc
        obtain ⟨hsource, hindex⟩ := source_of_mem_rowCandidates hc
        exact Prod.ext hsource hindex
      · intro c c' h
        obtain ⟨hsource, h⟩ := Prod.mk.inj (toLex.injective h)
        obtain ⟨hindex, -⟩ := Prod.mk.inj (toLex.injective h)
        exact Prod.ext hsource hindex

/-! ## What the plan says -/

/-- The row, the identity rule and the join key of a planned identity. -/
structure PlannedFrom (ext : Externals) (file : CovemapFile) (rows : List SourceRow)
    (identity : PlannedIdentity) (row : SourceRow) (rule : MapIdentityRule)
    (tuple : List UInt8) : Prop where
  mem : row ∈ rows
  sourceId : identity.sourceId = row.sourceId
  rowIndex : identity.rowIndex = row.rowIndex
  ruleId : identity.identityRuleId = rule.ruleId
  joinKey : ∃ context objectTypes objectTypeId, mappingContext file = .ok context ∧
    objectTypesFromMapping ext context = .ok objectTypes ∧
    AssocMap.get rule.ruleId.val context.identityRules = some rule ∧
    AssocMap.get rule.objectType (typeIdsOf objectTypes) = some objectTypeId ∧
    joinKeyTupleFromRule ext rule row objectTypeId = .ok tuple

section Spec

variable {context : MappingContext} {objectTypes : List ObjectTypeEntryV1}
  (hrows : (rows.map fun row => (row.sourceId, row.rowIndex)).Nodup)
  (hcontext : mappingContext file = .ok context)
  (hobjects : objectTypesFromMapping ext context = .ok objectTypes)

include hrows hcontext hobjects

/-- The key of a planned identity is that of its row and rule. -/
theorem keyOrigin_of_plannedFrom {row : SourceRow} {rule : MapIdentityRule}
    {tuple : List UInt8} (hkey : key ∈ rows.flatMap (rowKeys ext context (typeIdsOf objectTypes)))
    (h : PlannedFrom ext file rows (plannedOf ext file key) row rule tuple) :
    KeyOrigin ext context (typeIdsOf objectTypes) row rule key ∧ key.joinKeyTuple = tuple := by
  obtain ⟨row', hrow', rule', ho⟩ := exists_origin hcontext hkey
  obtain ⟨context', objectTypes', objectTypeId, hcontext', hobjects', hrule, htype, htuple⟩ :=
    h.joinKey
  obtain rfl := Except.ok.inj (hcontext.symm.trans hcontext')
  obtain rfl := Except.ok.inj (hobjects.symm.trans hobjects')
  have hsame : row' = row := by
    refine List.inj_on_of_nodup_map hrows hrow' h.mem ?_
    rw [← ho.sourceId, ← ho.rowIndex]
    exact Prod.ext h.sourceId h.rowIndex
  subst hsame
  have hid : rule'.ruleId = rule.ruleId := ho.identityRuleId.symm.trans h.ruleId
  have hrules : rule' = rule := by
    have hget := ho.ruleOf
    rw [hid, hrule] at hget
    exact (Option.some.inj hget).symm
  subst hrules
  refine ⟨ho, ?_⟩
  have heq := ho.tupleOf
  rw [Option.some.inj (ho.typeOf.symm.trans htype), htuple] at heq
  exact (Except.ok.inj heq).symm

omit hrows in
theorem exists_plannedFrom {key : IdentityKey}
    (hkey : key ∈ rows.flatMap (rowKeys ext context (typeIdsOf objectTypes))) :
    ∃ row rule tuple, PlannedFrom ext file rows (plannedOf ext file key) row rule tuple := by
  obtain ⟨row, hrow, rule, ho⟩ := exists_origin hcontext hkey
  exact ⟨row, rule, key.joinKeyTuple, hrow, ho.sourceId, ho.rowIndex, ho.identityRuleId, context,
    objectTypes, key.objectTypeId, hcontext, hobjects, ho.ruleOf, ho.typeOf, ho.tupleOf⟩

/-- Two aliases of one object are aliases within one merge group. -/
theorem constraints_of_goid (hfits : PlanFits ext file rows) (hhash : DigestInjective ext file rows)
    (hhold : ConstraintsHold context.doNotMerge
      (rows.flatMap (rowKeys ext context (typeIdsOf objectTypes))))
    (hkey : key ∈ rows.flatMap (rowKeys ext context (typeIdsOf objectTypes)))
    (hkey' : key' ∈ rows.flatMap (rowKeys ext context (typeIdsOf objectTypes)))
    (hgoid : goidOf ext file key = goidOf ext file key') {c : Text × Text}
    (hc : c ∈ context.doNotMerge) : ¬ (c.1 ∈ key.aliases ∧ c.2 ∈ key'.aliases) := by
  have hplan := isPlanKey hcontext hobjects hkey
  have hplan' := isPlanKey hcontext hobjects hkey'
  obtain ⟨row, hrow, rule, h⟩ := exists_origin hcontext hkey
  obtain ⟨row', hrow', rule', h'⟩ := exists_origin hcontext hkey'
  obtain ⟨hid, htuple, hmerge⟩ := (goidOf_eq_iff h h' (hfits key hplan).2 (hfits key' hplan').2
    fun heq => hhash ⟨key, hplan, rfl⟩ ⟨key', hplan', rfl⟩ heq).mp hgoid
  by_cases hsingle : mergeClass rule = .singleton
  · -- the keys are of one row and one rule, so their aliases are the same
    rw [hsingle] at hmerge
    have hsame : row = row' := List.inj_on_of_nodup_map hrows hrow hrow' (Prod.ext hmerge.1 hmerge.2)
    subst hsame
    obtain rfl := h.rule_eq h' hid
    rw [← h.aliases_eq h']
    exact hhold c hc key hkey key hkey (.inl rfl)
  · exact hhold c hc key hkey key' hkey' (.inr ((sameGroup_iff h h' (hfits key hplan).1
      (hfits key' hplan').1).mpr ⟨hid, htuple, hsingle, hmerge⟩))

end Spec

/-- **What a plan says.** Every identity has a row, a rule and a join key; two have one object
exactly when rule and join key are the same and the class of the rule lets their rows merge; no
object has both sides of a constraint among its aliases; and any order of the rows gives the
plan. -/
theorem planIdentities_spec (hrows : (rows.map fun row => (row.sourceId, row.rowIndex)).Nodup)
    (hfits : PlanFits ext file rows) (hhash : DigestInjective ext file rows)
    (hplan : planIdentities ext file rows = .ok plan) :
    (∀ p ∈ plan.canonical, ∃ row rule tuple, PlannedFrom ext file rows p row rule tuple) ∧
    (∀ p ∈ plan.canonical, ∀ q ∈ plan.canonical, ∀ row rule tuple row' rule' tuple',
      PlannedFrom ext file rows p row rule tuple → PlannedFrom ext file rows q row' rule' tuple' →
      (p.goid = q.goid ↔
        rule.ruleId = rule'.ruleId ∧ tuple = tuple' ∧ MayMerge (mergeClass rule) row row')) ∧
    (∀ c ∈ file.doNotMerge, ∀ p ∈ plan.canonical, ∀ q ∈ plan.canonical, p.goid = q.goid →
      ¬ (c.leftIdentity ∈ p.aliases ∧ c.rightIdentity ∈ q.aliases)) ∧
    ∀ rows', List.Perm rows' rows → planIdentities ext file rows' = .ok plan := by
  obtain ⟨context, objectTypes, hcontext, hobjects, hall, hhold, hout⟩ :=
    (planIdentities_eq_ok hrows hfits).mp hplan
  have hmem : ∀ p ∈ plan.canonical, ∃ key ∈ rows.flatMap
      (rowKeys ext context (typeIdsOf objectTypes)), plannedOf ext file key = p := by
    intro p hp
    rw [hout] at hp
    have hp := (List.mem_insertionSort _).mp hp
    rw [← List.map_flatMap] at hp
    exact List.mem_map.mp hp
  refine ⟨?_, ?_, ?_, fun rows' hperm => planIdentities_perm hrows hfits hplan hperm⟩
  · intro p hp
    obtain ⟨key, hkey, rfl⟩ := hmem p hp
    exact exists_plannedFrom hcontext hobjects hkey
  · intro p hp q hq row rule tuple row' rule' tuple' hfrom hfrom'
    obtain ⟨key, hkey, rfl⟩ := hmem p hp
    obtain ⟨key', hkey', rfl⟩ := hmem q hq
    obtain ⟨ho, rfl⟩ := keyOrigin_of_plannedFrom hrows hcontext hobjects hkey hfrom
    obtain ⟨ho', rfl⟩ := keyOrigin_of_plannedFrom hrows hcontext hobjects hkey' hfrom'
    have hkeyOf := isPlanKey hcontext hobjects hkey
    have hkeyOf' := isPlanKey hcontext hobjects hkey'
    exact goidOf_eq_iff ho ho' (hfits key hkeyOf).2 (hfits key' hkeyOf').2
      fun heq => hhash ⟨key, hkeyOf, rfl⟩ ⟨key', hkeyOf', rfl⟩ heq
  · intro c hc p hp q hq hgoid
    obtain ⟨key, hkey, rfl⟩ := hmem p hp
    obtain ⟨key', hkey', rfl⟩ := hmem q hq
    have hordered := (mappingContext_spec hcontext).2 c hc
    rintro ⟨hleft, hright⟩
    -- the constraint is kept with its sides in order
    unfold MappingContext.orderedConstraint at hordered
    split at hordered
    · exact constraints_of_goid hrows hcontext hobjects hfits hhash hhold hkey hkey' hgoid hordered
        ⟨hleft, hright⟩
    · exact constraints_of_goid hrows hcontext hobjects hfits hhash hhold hkey' hkey hgoid.symm
        hordered ⟨hright, hleft⟩

end

/-! ### A small mapping -/

/-- The keys of a run. -/
def planKeys (ext : Externals) (file : CovemapFile) (rows : List SourceRow) :
    Except Text (List IdentityKey) := do
  let context ← mappingContext file
  let objectTypes ← objectTypesFromMapping ext context
  .ok (rows.flatMap (rowKeys ext context (typeIdsOf objectTypes)))

/-- What two keys of the run are checked for. -/
theorem isPlanKey_pair {ext : Externals} {file : CovemapFile} {rows : List SourceRow}
    {p : IdentityKey → IdentityKey → Bool}
    (h : (elements (planKeys ext file rows)).all
      (fun key => (elements (planKeys ext file rows)).all (p key)) = true)
    {key key' : IdentityKey} (hkey : IsPlanKey ext file rows key)
    (hkey' : IsPlanKey ext file rows key') : p key key' = true := by
  have hmem : ∀ {k}, IsPlanKey ext file rows k → k ∈ elements (planKeys ext file rows) := by
    rintro k ⟨context, objectTypes, hcontext, hobjects, hk⟩
    unfold planKeys
    rw [hcontext, ok_bind, hobjects, ok_bind, elements_ok]
    exact List.mem_flatMap.mpr hk
  exact List.all_eq_true.mp (List.all_eq_true.mp h key (hmem hkey)) key' (hmem hkey')

set_option maxRecDepth 10000 in
theorem planIdentities_spec_upserts : ∃ plan,
    planIdentities .ascii Sample.upserts Sample.rows = .ok plan ∧ plan.canonical.length = 2 ∧
    (∀ p ∈ plan.canonical, ∃ row rule tuple,
      PlannedFrom .ascii Sample.upserts Sample.rows p row rule tuple) ∧
    (∀ p ∈ plan.canonical, ∀ q ∈ plan.canonical, ∀ row rule tuple row' rule' tuple',
      PlannedFrom .ascii Sample.upserts Sample.rows p row rule tuple →
      PlannedFrom .ascii Sample.upserts Sample.rows q row' rule' tuple' →
      (p.goid = q.goid ↔
        rule.ruleId = rule'.ruleId ∧ tuple = tuple' ∧ MayMerge (mergeClass rule) row row')) ∧
    (∀ c ∈ Sample.upserts.doNotMerge, ∀ p ∈ plan.canonical, ∀ q ∈ plan.canonical,
      p.goid = q.goid → ¬ (c.leftIdentity ∈ p.aliases ∧ c.rightIdentity ∈ q.aliases)) ∧
    ∀ rows', List.Perm rows' Sample.rows →
      planIdentities .ascii Sample.upserts rows' = .ok plan := by
  obtain ⟨plan, hplan, hlength⟩ := exists_ok_of_any
    (p := fun plan : IdentityPlan => decide (plan.canonical.length = 2))
    (x := planIdentities .ascii Sample.upserts Sample.rows) (by decide +kernel)
  -- both rows are of one object, so one byte string is hashed
  have hkeys := fun {key key'} => @isPlanKey_pair .ascii Sample.upserts Sample.rows
    (fun key key' => key.mergeGroupParts.all (fun part => decide (part.length < 2 ^ 64)) &&
      (goidPartsOf Sample.upserts key).parts.all (fun part => decide (part.length < 2 ^ 64)) &&
      decide ((goidPartsOf Sample.upserts key).bytes = (goidPartsOf Sample.upserts key').bytes))
    (by decide +kernel) key key'
  refine ⟨plan, hplan, of_decide_eq_true hlength, planIdentities_spec (by decide) ?_ ?_ hplan⟩
  · intro key hkey
    have h := hkeys hkey hkey
    simp only [Bool.and_eq_true, List.all_eq_true, decide_eq_true_iff] at h
    exact h.1
  · rintro _ ⟨key, hkey, rfl⟩ _ ⟨key', hkey', rfl⟩ -
    have h := hkeys hkey hkey'
    simp only [Bool.and_eq_true, decide_eq_true_iff] at h
    exact h.2

end Cove

import Cove.Map.Components
import Cove.Map.HashInputs

/-!
# Where identity keys come from

What a row and an identity rule determine of a key, and with it when two keys are of one
merge group and when they name one object.

- `KeyOrigin`: the row and the rule of a key.
- `mergeGroupKey_eq_iff`: **one merge group**, in terms of the rows and rules.
- `goidOf_eq_iff`: **one object id**, where the digest tells the hashed bytes apart.
-/

namespace Cove

open Checked Framing TextOps

/-! ## Rules of a context -/

/-- Every identity rule is filed under its own id. -/
def MappingContext.RulesNamed (context : MappingContext) : Prop :=
  ∀ id rule, AssocMap.get id context.identityRules = some rule → rule.ruleId.val = id

/-- The constraints of the identity catalogs of a file. -/
def CovemapFile.doNotMerge (file : CovemapFile) : List MapDoNotMergeConstraint :=
  file.sections.flatMap fun sec =>
    match sec.body with
    | .identityRuleCatalog _ constraints => constraints
    | _ => []

namespace MappingContext

variable {context out : MappingContext}

variable {rule : MapIdentityRule}

theorem rulesNamed_addIdentityRule (hnamed : context.RulesNamed)
    (h : context.addIdentityRule rule = .ok out) : out.RulesNamed := by
  obtain ⟨-, h⟩ := ite_error_eq_ok.mp h
  obtain rfl := Except.ok.inj h
  intro id rule' hget
  rw [AssocMap.get_insert] at hget
  by_cases hid : rule.ruleId.val = id
  · rw [if_pos hid] at hget
    exact Option.some.inj hget ▸ hid
  · rw [if_neg hid] at hget
    exact hnamed id rule' hget

theorem addSource_eq {source : MapSourceEntry} (h : context.addSource source = .ok out) :
    out.identityRules = context.identityRules ∧ out.doNotMerge = context.doNotMerge := by
  obtain ⟨-, h⟩ := ite_error_eq_ok.mp h
  obtain rfl := Except.ok.inj h
  exact ⟨rfl, rfl⟩

theorem doNotMerge_addIdentityRule
    (h : context.addIdentityRule rule = .ok out) : out.doNotMerge = context.doNotMerge := by
  obtain ⟨-, h⟩ := ite_error_eq_ok.mp h
  obtain rfl := Except.ok.inj h
  rfl

/-- A section keeps the rules named, the constraints there are, and adds its own. -/
theorem addSection_spec {body : EmbeddedMapBody} (hnamed : context.RulesNamed)
    (h : context.addSection body = .ok out) :
    out.RulesNamed ∧ (∀ c ∈ context.doNotMerge, c ∈ out.doNotMerge) ∧
      ∀ rules constraints, body = .identityRuleCatalog rules constraints →
        ∀ c ∈ constraints, orderedConstraint c ∈ out.doNotMerge := by
  cases body with
  | sourceCatalog policy sources =>
    obtain ⟨-, h⟩ := ite_error_eq_ok.mp h
    have hinv := foldlM_preserves (P := fun c : MappingContext =>
        c.RulesNamed ∧ c.doNotMerge = context.doNotMerge) h ⟨hnamed, rfl⟩ <| by
      rintro c source - ⟨hn, hc⟩ c' hstep
      obtain ⟨hrules, hconstraints⟩ := addSource_eq hstep
      refine ⟨?_, hconstraints.trans hc⟩
      intro id rule hget
      exact hn id rule (hrules ▸ hget)
    exact ⟨hinv.1, fun c hc => hinv.2 ▸ hc, nofun⟩
  | identityRuleCatalog rules constraints =>
    obtain ⟨mid, hrules, h⟩ := bind_eq_ok.mp h
    obtain rfl := Except.ok.inj h
    have hinv := foldlM_preserves (P := fun c : MappingContext =>
        c.RulesNamed ∧ c.doNotMerge = context.doNotMerge) hrules ⟨hnamed, rfl⟩ <| by
      rintro c rule - ⟨hn, hc⟩ c' hstep
      exact ⟨rulesNamed_addIdentityRule hn hstep, (doNotMerge_addIdentityRule hstep).trans hc⟩
    refine ⟨hinv.1, ?_, ?_⟩
    · intro c hc
      exact List.mem_append_left _ (hinv.2 ▸ hc)
    · intro rules' constraints' hbody c hc
      obtain ⟨-, rfl⟩ := EmbeddedMapBody.identityRuleCatalog.inj hbody
      exact List.mem_append_right _ (List.mem_map_of_mem hc)
  | rowSemanticsCatalog rules =>
    obtain rfl := Except.ok.inj h
    exact ⟨hnamed, fun c hc => hc, nofun⟩
  | _ =>
    obtain rfl := Except.ok.inj h
    exact ⟨hnamed, fun c hc => hc, nofun⟩

end MappingContext

variable {file : CovemapFile}

theorem mappingContext_spec {context : MappingContext}
    (h : mappingContext file = .ok context) : context.RulesNamed ∧
      ∀ c ∈ file.doNotMerge, MappingContext.orderedConstraint c ∈ context.doNotMerge := by
  obtain ⟨folded, hfold, h⟩ := bind_eq_ok.mp h
  obtain ⟨-, h⟩ := ite_error_eq_ok.mp h
  obtain rfl := Except.ok.inj h
  have hrun : ∀ (sections : List EmbeddedMapSection) (start : MappingContext),
      start.RulesNamed → (sections.map EmbeddedMapSection.body).foldlM MappingContext.addSection
        start = .ok folded →
      folded.RulesNamed ∧ (∀ c ∈ start.doNotMerge, c ∈ folded.doNotMerge) ∧
        ∀ sec ∈ sections, ∀ rules constraints, sec.body = .identityRuleCatalog rules constraints →
          ∀ c ∈ constraints, MappingContext.orderedConstraint c ∈ folded.doNotMerge := by
    intro sections
    induction sections with
    | nil =>
      intro start hnamed h
      obtain rfl := Except.ok.inj h
      exact ⟨hnamed, fun c hc => hc, fun sec hsec => by cases hsec⟩
    | cons sec sections ih =>
      intro start hnamed h
      rw [List.map_cons, List.foldlM_cons] at h
      obtain ⟨mid, hstep, h⟩ := bind_eq_ok.mp h
      obtain ⟨hmid, hkeep, hadd⟩ := MappingContext.addSection_spec hnamed hstep
      obtain ⟨hout, hkeep', hadd'⟩ := ih mid hmid h
      refine ⟨hout, fun c hc => hkeep' c (hkeep c hc), ?_⟩
      intro sec' hsec' rules constraints hbody c hc
      rcases List.mem_cons.mp hsec' with rfl | hsec'
      · exact hkeep' _ (hadd rules constraints hbody c hc)
      · exact hadd' sec' hsec' rules constraints hbody c hc
  obtain ⟨hnamed, -, hall⟩ := hrun file.sections .empty (fun id rule h => by cases h) hfold
  refine ⟨hnamed, fun c hc => ?_⟩
  obtain ⟨sec, hsec, hc⟩ := List.mem_flatMap.mp hc
  cases hbody : sec.body with
  | identityRuleCatalog rules constraints =>
    rw [hbody] at hc
    exact hall sec hsec rules constraints hbody c hc
  | _ =>
    rw [hbody] at hc
    cases hc

/-! ## The origin of a key -/

section

variable {ext : Externals} {context : MappingContext} {typeIds : List (Text × Nat)}

/-- The row and the identity rule a key is made from. -/
structure KeyOrigin (ext : Externals) (context : MappingContext) (typeIds : List (Text × Nat))
    (row : SourceRow) (rule : MapIdentityRule) (key : IdentityKey) : Prop where
  ruleOf : AssocMap.get rule.ruleId.val context.identityRules = some rule
  typeOf : AssocMap.get rule.objectType typeIds = some key.objectTypeId
  tupleOf : joinKeyTupleFromRule ext rule row key.objectTypeId = .ok key.joinKeyTuple
  sourceId : key.sourceId = row.sourceId
  rowIndex : key.rowIndex = row.rowIndex
  rowDigest : key.rowDigest = Cove.rowDigest ext row
  sourceRowIdentity : key.sourceRowIdentity = row.identity
  identityRuleId : key.identityRuleId = rule.ruleId
  objectType : key.objectType = rule.objectType
  joinKeySha256 : key.joinKeySha256 = ext.sha256Hex key.joinKeyTuple
  mergeClass : key.mergeClass = Cove.mergeClass rule

theorem exists_keyOrigin_of_identityOfRow (hnamed : context.RulesNamed) {row : SourceRow}
    {rowRule : MapRowSemanticRule} {key : IdentityKey}
    (h : identityOfRow ext context typeIds row rowRule = .ok (.key key)) :
    ∃ rule, KeyOrigin ext context typeIds row rule key := by
  obtain ⟨rule, hrule, h⟩ := bind_eq_ok.mp h
  obtain ⟨objectTypeId, htype, h⟩ := bind_eq_ok.mp h
  obtain ⟨tuple, htuple, h⟩ := bind_eq_ok.mp h
  have hrule := okOr_eq_ok.mp hrule
  dsimp only at h
  by_cases hcandidate : isCandidateIdentityRule rule = true
  · rw [if_pos hcandidate] at h
    exact RowIdentity.noConfusion (Except.ok.inj h)
  · rw [if_neg hcandidate] at h
    obtain rfl := RowIdentity.key.inj (Except.ok.inj h)
    have hid := hnamed _ _ hrule
    exact ⟨rule, {
      ruleOf := hid.symm ▸ hrule
      typeOf := okOr_eq_ok.mp htype
      tupleOf := htuple
      sourceId := rfl
      rowIndex := rfl
      rowDigest := rfl
      sourceRowIdentity := rfl
      identityRuleId := rfl
      objectType := rfl
      joinKeySha256 := rfl
      mergeClass := rfl }⟩

/-- The keys of a row. -/
def rowKeys (ext : Externals) (context : MappingContext) (typeIds : List (Text × Nat))
    (row : SourceRow) : List IdentityKey :=
  (elements (identitiesOfRow ext context typeIds row)).filterMap RowIdentity.key?

/-- The candidate matches of a row. -/
def rowCandidates (ext : Externals) (context : MappingContext) (typeIds : List (Text × Nat))
    (row : SourceRow) : List CandidateMatch :=
  (elements (identitiesOfRow ext context typeIds row)).filterMap RowIdentity.candidate?

/-- Whatever a row yields is what one of its rules yields. -/
theorem exists_identityOfRow {row : SourceRow} {identity : RowIdentity}
    (h : identity ∈ elements (identitiesOfRow ext context typeIds row)) :
    ∃ rowRule, identityOfRow ext context typeIds row rowRule = .ok identity := by
  cases hrow : identitiesOfRow ext context typeIds row with
  | error e =>
    rw [hrow] at h
    cases h
  | ok identities =>
    rw [hrow, elements_ok] at h
    unfold identitiesOfRow at hrow
    split at hrow
    · cases hrow
    · obtain ⟨rowRule, -, hrule⟩ := exists_of_mem_mapM hrow h
      exact ⟨rowRule, hrule⟩

theorem exists_keyOrigin (hnamed : context.RulesNamed) {row : SourceRow} {key : IdentityKey}
    (h : key ∈ rowKeys ext context typeIds row) :
    ∃ rule, KeyOrigin ext context typeIds row rule key := by
  obtain ⟨identity, hidentity, hkey⟩ := List.mem_filterMap.mp h
  obtain ⟨rowRule, hrule⟩ := exists_identityOfRow hidentity
  cases identity with
  | candidate candidate => cases hkey
  | key key' =>
    obtain rfl : key' = key := Option.some.inj hkey
    exact exists_keyOrigin_of_identityOfRow hnamed hrule

theorem source_of_mem_rowCandidates {row : SourceRow} {candidate : CandidateMatch}
    (h : candidate ∈ rowCandidates ext context typeIds row) :
    candidate.sourceId = row.sourceId ∧ candidate.rowIndex = row.rowIndex := by
  obtain ⟨identity, hidentity, hcandidate⟩ := List.mem_filterMap.mp h
  obtain ⟨rowRule, hrule⟩ := exists_identityOfRow hidentity
  cases identity with
  | key key => cases hcandidate
  | candidate candidate' =>
    obtain rfl : candidate' = candidate := Option.some.inj hcandidate
    obtain ⟨rule, -, h⟩ := bind_eq_ok.mp hrule
    obtain ⟨objectTypeId, -, h⟩ := bind_eq_ok.mp h
    obtain ⟨tuple, -, h⟩ := bind_eq_ok.mp h
    dsimp only at h
    by_cases hc : isCandidateIdentityRule rule = true
    · rw [if_pos hc] at h
      obtain rfl := RowIdentity.candidate.inj (Except.ok.inj h)
      exact ⟨rfl, rfl⟩
    · rw [if_neg hc] at h
      exact RowIdentity.noConfusion (Except.ok.inj h)

namespace KeyOrigin

variable {row row' : SourceRow} {rule rule' : MapIdentityRule} {key key' : IdentityKey}

/-- One id, one rule. -/
theorem rule_eq (h : KeyOrigin ext context typeIds row rule key)
    (h' : KeyOrigin ext context typeIds row' rule' key') (hid : rule.ruleId = rule'.ruleId) :
    rule = rule' := by
  have hget := h.ruleOf
  rw [hid, h'.ruleOf] at hget
  exact (Option.some.inj hget).symm

theorem objectTypeId_eq (h : KeyOrigin ext context typeIds row rule key)
    (h' : KeyOrigin ext context typeIds row' rule key') : key.objectTypeId = key'.objectTypeId := by
  have htype := h.typeOf
  rw [h'.typeOf] at htype
  exact (Option.some.inj htype).symm

/-- One row and one rule have one tuple. -/
theorem tuple_eq (h : KeyOrigin ext context typeIds row rule key)
    (h' : KeyOrigin ext context typeIds row rule key') : key.joinKeyTuple = key'.joinKeyTuple := by
  have htuple := h.tupleOf
  rw [h.objectTypeId_eq h', h'.tupleOf] at htuple
  exact (Except.ok.inj htuple).symm

theorem anchorAlias_eq (h : KeyOrigin ext context typeIds row rule key)
    (h' : KeyOrigin ext context typeIds row' rule key')
    (htuple : key.joinKeyTuple = key'.joinKeyTuple) : key.anchorAlias = key'.anchorAlias := by
  unfold IdentityKey.anchorAlias
  rw [h.identityRuleId, h'.identityRuleId, h.joinKeySha256, h'.joinKeySha256, htuple]

theorem aliases_eq (h : KeyOrigin ext context typeIds row rule key)
    (h' : KeyOrigin ext context typeIds row rule key') : key.aliases = key'.aliases := by
  unfold IdentityKey.aliases
  rw [h.anchorAlias_eq h' (h.tuple_eq h'), h.sourceRowIdentity, h'.sourceRowIdentity, h.rowDigest,
    h'.rowDigest, h.objectType, h'.objectType, h.joinKeySha256, h'.joinKeySha256, h.tuple_eq h']

end KeyOrigin

end

/-! ## Merge groups -/

namespace IdentityKey

/-- The parts of a merge group key. -/
def mergeGroupParts (key : IdentityKey) : List (List UInt8) :=
  [utf8Bytes key.objectType, utf8Bytes key.identityRuleId.val] ++
    (if key.mergeClass = .mergeWithinSource then [utf8Bytes key.sourceId] else []) ++
    [key.joinKeyTuple]

theorem mergeGroupKey_eq (key : IdentityKey) : key.mergeGroupKey =
    if key.mergeClass = .singleton then none else some (key.mergeGroupParts.flatMap framed) := by
  unfold mergeGroupKey mergeGroupParts
  split
  · rfl
  · simp only [appendLenBytes_eq]
    split <;> simp

/-- The two keys are of one merge group. -/
def SameGroup (key key' : IdentityKey) : Prop :=
  ∃ bytes, key.mergeGroupKey = some bytes ∧ key'.mergeGroupKey = some bytes

end IdentityKey

/-- The class of a rule lets two rows be one object: any rows, rows of one source, or one row
only. -/
def MayMerge (mergeClass : IdentityMergeClass) (row row' : SourceRow) : Prop :=
  match mergeClass with
  | .mergeGlobal => True
  | .mergeWithinSource => row.sourceId = row'.sourceId
  | .singleton => row.sourceId = row'.sourceId ∧ row.rowIndex = row'.rowIndex

section

variable {ext : Externals} {context : MappingContext} {typeIds : List (Text × Nat)}
  {row row' : SourceRow} {rule rule' : MapIdentityRule} {key key' : IdentityKey}

/-- **One merge group**: one rule that merges, one tuple, rows that it lets merge. -/
theorem sameGroup_iff (h : KeyOrigin ext context typeIds row rule key)
    (h' : KeyOrigin ext context typeIds row' rule' key')
    (hfits : ∀ part ∈ key.mergeGroupParts, part.length < 2 ^ 64)
    (hfits' : ∀ part ∈ key'.mergeGroupParts, part.length < 2 ^ 64) :
    key.SameGroup key' ↔ rule.ruleId = rule'.ruleId ∧ key.joinKeyTuple = key'.joinKeyTuple ∧
      mergeClass rule ≠ .singleton ∧ MayMerge (mergeClass rule) row row' := by
  unfold IdentityKey.SameGroup
  rw [key.mergeGroupKey_eq, key'.mergeGroupKey_eq, h.mergeClass, h'.mergeClass]
  constructor
  · rintro ⟨bytes, hbytes, hbytes'⟩
    by_cases hsingle : mergeClass rule = .singleton
    · rw [if_pos hsingle] at hbytes
      cases hbytes
    by_cases hsingle' : mergeClass rule' = .singleton
    · rw [if_pos hsingle'] at hbytes'
      cases hbytes'
    rw [if_neg hsingle] at hbytes
    rw [if_neg hsingle'] at hbytes'
    have hparts := selfDelimiting_framed.flatMap_injOn (fun part _ => framed_ne_nil part) hfits
      hfits' ((Option.some.inj hbytes).trans (Option.some.inj hbytes').symm)
    unfold IdentityKey.mergeGroupParts at hparts
    rw [List.append_assoc, List.append_assoc] at hparts
    obtain ⟨hnames, hrest⟩ := List.append_inj hparts rfl
    have hid : rule.ruleId = rule'.ruleId := by
      rw [← h.identityRuleId, ← h'.identityRuleId]
      exact Name.ext (utf8Bytes_injective (List.cons.inj (List.cons.inj hnames).2).1)
    obtain rfl := h.rule_eq h' hid
    rw [h.mergeClass, h'.mergeClass] at hrest
    obtain ⟨hsource, htuple⟩ := List.append_inj' hrest rfl
    refine ⟨rfl, (List.cons.inj htuple).1, hsingle, ?_⟩
    cases hclass : mergeClass rule with
    | mergeGlobal => trivial
    | singleton => exact absurd hclass hsingle
    | mergeWithinSource =>
      rw [hclass, if_pos rfl, if_pos rfl] at hsource
      have hsources := utf8Bytes_injective (List.cons.inj hsource).1
      rwa [h.sourceId, h'.sourceId] at hsources
  · rintro ⟨hid, htuple, hsingle, hmerge⟩
    obtain rfl := h.rule_eq h' hid
    refine ⟨key.mergeGroupParts.flatMap framed, by rw [if_neg hsingle], ?_⟩
    rw [if_neg hsingle]
    have hsource : key.mergeClass = .mergeWithinSource → key.sourceId = key'.sourceId := by
      intro hclass
      rw [h.mergeClass] at hclass
      rw [hclass] at hmerge
      rw [h.sourceId, h'.sourceId]
      exact hmerge
    unfold IdentityKey.mergeGroupParts
    rw [h.objectType, h'.objectType, h.identityRuleId, h'.identityRuleId, htuple,
      h'.mergeClass.trans h.mergeClass.symm]
    by_cases hclass : key.mergeClass = .mergeWithinSource
    · rw [hsource hclass]
    · rw [if_neg hclass, if_neg hclass]

/-! ## Object ids -/

/-- What the object id of a key is made from. -/
def goidPartsOf (file : CovemapFile) (key : IdentityKey) : GoidParts :=
  .mapped file.mappingId (utf8Bytes file.mappingVersion) key.objectTypeId
    (utf8Bytes key.identityRuleId.val) key.joinKeyTuple key.goidSourceScope

/-- The object id of a key. -/
def goidOf (ext : Externals) (file : CovemapFile) (key : IdentityKey) : Id16 :=
  first16 (ext.sha256 (goidPartsOf file key).bytes)

/-- A source row is told by its identity: row indexes hold no colon. -/
theorem rowIdentity_inj (h : row.identity = row'.identity) :
    row.sourceId = row'.sourceId ∧ row.rowIndex = row'.rowIndex := by
  have hcolon : ∀ {n : Nat} {u v : Text}, natText n = u ++ ':' :: v → False := by
    intro n u v hn
    exact colon_notMem_natText n (hn ▸ List.mem_append_right u List.mem_cons_self)
  rcases append_cons_eq_iff.mp h with ⟨hsource, hindex⟩ | ⟨u, -, hu⟩ | ⟨u, -, hu⟩
  · exact ⟨hsource, natText_injective hindex⟩
  · exact (hcolon hu).elim
  · exact (hcolon hu).elim

/-- The scope of one rule is what its class looks at. -/
theorem goidSourceScope_eq_iff (h : KeyOrigin ext context typeIds row rule key)
    (h' : KeyOrigin ext context typeIds row' rule key') :
    key.goidSourceScope.getD [] = key'.goidSourceScope.getD [] ↔
      MayMerge (mergeClass rule) row row' := by
  unfold IdentityKey.goidSourceScope
  rw [h.mergeClass, h'.mergeClass]
  cases mergeClass rule with
  | mergeGlobal => exact iff_of_true rfl trivial
  | mergeWithinSource =>
    show key.sourceId = key'.sourceId ↔ row.sourceId = row'.sourceId
    rw [h.sourceId, h'.sourceId]
  | singleton =>
    show key.sourceRowIdentity = key'.sourceRowIdentity ↔
      row.sourceId = row'.sourceId ∧ row.rowIndex = row'.rowIndex
    rw [h.sourceRowIdentity, h'.sourceRowIdentity]
    refine ⟨rowIdentity_inj, ?_⟩
    rintro ⟨hsource, hindex⟩
    unfold SourceRow.identity
    rw [hsource, hindex]

/-- Keys of one rule, one tuple and rows that may merge have one object id. -/
theorem goidOf_eq (h : KeyOrigin ext context typeIds row rule key)
    (h' : KeyOrigin ext context typeIds row' rule key')
    (htuple : key.joinKeyTuple = key'.joinKeyTuple) (hmerge : MayMerge (mergeClass rule) row row')
    (file : CovemapFile) : goidOf ext file key = goidOf ext file key' := by
  have hscope := (goidSourceScope_eq_iff h h').mpr hmerge
  unfold goidOf goidPartsOf GoidParts.bytes GoidParts.parts
  dsimp only
  rw [h.objectTypeId_eq h', h.identityRuleId, h'.identityRuleId, htuple, hscope]

/-- **One object id**: one rule, one tuple, rows that the rule lets merge. -/
theorem goidOf_eq_iff (h : KeyOrigin ext context typeIds row rule key)
    (h' : KeyOrigin ext context typeIds row' rule' key')
    (hfits : ∀ part ∈ (goidPartsOf file key).parts, part.length < 2 ^ 64)
    (hfits' : ∀ part ∈ (goidPartsOf file key').parts, part.length < 2 ^ 64)
    (hhash : goidOf ext file key = goidOf ext file key' →
      (goidPartsOf file key).bytes = (goidPartsOf file key').bytes) :
    goidOf ext file key = goidOf ext file key' ↔ rule.ruleId = rule'.ruleId ∧
      key.joinKeyTuple = key'.joinKeyTuple ∧ MayMerge (mergeClass rule) row row' := by
  constructor
  · intro hgoid
    have hparts := GoidParts.parts_eq_of_bytes hfits hfits' (hhash hgoid)
    simp only [goidPartsOf, GoidParts.parts, List.cons.injEq, and_true] at hparts
    obtain ⟨-, -, -, hid, htuple, hscope⟩ := hparts
    have hid : rule.ruleId = rule'.ruleId := by
      rw [← h.identityRuleId, ← h'.identityRuleId]
      exact Name.ext (utf8Bytes_injective hid)
    obtain rfl := h.rule_eq h' hid
    exact ⟨rfl, htuple, (goidSourceScope_eq_iff h h').mp (utf8Bytes_injective hscope)⟩
  · rintro ⟨hid, htuple, hmerge⟩
    obtain rfl := h.rule_eq h' hid
    exact goidOf_eq h h' htuple hmerge file

end

end Cove

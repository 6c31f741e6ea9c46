import Cove.Lib.Framing
import Cove.Map.Associations

/-!
# What is hashed into identifiers

The byte strings behind join keys, object ids and record ids, and when two of them are the
same.

- `joinKeyTuple_inj`: a join key tells its object type, its rule and its components.
- `GoidParts`, `GoidParts.bytes_inj`: the parts of an object id, up to an absent and an empty
  source scope.
- `RecordParts`, `RecordParts.material_eq_iff`: record ids join their parts with colons, which
  leaves them open where a source id is another one and a row index.
- `hashInputsInjective_iff`: **the byte strings are injective exactly when no source ids and
  rule ids overlap so**.
-/

namespace Cove

open Framing TextOps

/-! ## Texts with a length in front -/

/-- The text takes fewer bytes than its length prefix can count. -/
def FitsLength (text : Text) : Prop := (utf8Bytes text).length < 2 ^ 64

theorem appendLenBytes_eq (out bytes : List UInt8) :
    appendLenBytes out bytes = out ++ framed bytes :=
  List.append_assoc _ _ _

theorem selfDelimiting_text :
    SelfDelimiting {text | FitsLength text} fun text => framed (utf8Bytes text) :=
  selfDelimiting_framed.comp (fun _ h => h) utf8Bytes_injective.injOn

/-! ## Join keys -/

/-- What a join key writes of a component. -/
def joinKeyPart (component : MapJoinKeyComponent × Option (List UInt8)) :
    (Text × Text) × Option (List UInt8) :=
  ((component.1.roleId, component.1.logicalType), component.2)

/-- The lengths of a component fit their prefixes. -/
def JoinKeyPartFits (part : (Text × Text) × Option (List UInt8)) : Prop :=
  (FitsLength part.1.1 ∧ FitsLength part.1.2) ∧ ∀ bytes ∈ part.2, bytes.length < 2 ^ 64

def joinKeyPartBytes (part : (Text × Text) × Option (List UInt8)) : List UInt8 :=
  (framed (utf8Bytes part.1.1) ++ framed (utf8Bytes part.1.2)) ++ tagged framed part.2

theorem selfDelimiting_joinKeyPart : SelfDelimiting {part | JoinKeyPartFits part} joinKeyPartBytes :=
  (selfDelimiting_text.append selfDelimiting_text).append
    (selfDelimiting_tagged selfDelimiting_framed)

theorem joinKeyPartBytes_ne_nil (part : (Text × Text) × Option (List UInt8)) :
    joinKeyPartBytes part ≠ [] := by
  intro h
  exact tagged_ne_nil framed part.2 (List.append_eq_nil_iff.mp h).2

/-- A loop that adds to the end. -/
theorem foldl_eq_append_flatMap {step : List β → α → List β} (f : α → List β)
    (h : ∀ out a, step out a = out ++ f a) (l : List α) (head : List β) :
    l.foldl step head = head ++ l.flatMap f := by
  induction l generalizing head with
  | nil => simp
  | cons a l ih => rw [List.foldl_cons, ih, h, List.flatMap_cons, List.append_assoc]

theorem joinKeyTuple_eq (objectTypeId : Nat) (ruleId : Text)
    (components : List (MapJoinKeyComponent × Option (List UInt8))) :
    joinKeyTuple objectTypeId ruleId components =
      utf8Bytes "COVE-MAP-JOIN-KEY-V1".toList ++ (LittleEndian.toLe 4 objectTypeId ++
        (framed (utf8Bytes ruleId) ++ (LittleEndian.toLe 4 components.length ++
          (components.map joinKeyPart).flatMap joinKeyPartBytes))) := by
  unfold joinKeyTuple
  rw [foldl_eq_append_flatMap (fun c => joinKeyPartBytes (joinKeyPart c)), appendLenBytes_eq,
    List.flatMap_map]
  · simp only [List.append_assoc]
  · rintro out ⟨component, value⟩
    cases value <;> simp [appendLenBytes_eq, joinKeyPart, joinKeyPartBytes, tagged]

/-- **A join key tells its parts**: the count of components wraps, but each component tells
where it ends. -/
theorem joinKeyTuple_inj {objectTypeId objectTypeId' : Nat} {ruleId ruleId' : Text}
    {components components' : List (MapJoinKeyComponent × Option (List UInt8))}
    (htype : objectTypeId < 2 ^ 32) (htype' : objectTypeId' < 2 ^ 32)
    (hrule : FitsLength ruleId) (hrule' : FitsLength ruleId')
    (hparts : ∀ c ∈ components, JoinKeyPartFits (joinKeyPart c))
    (hparts' : ∀ c ∈ components', JoinKeyPartFits (joinKeyPart c))
    (h : joinKeyTuple objectTypeId ruleId components =
      joinKeyTuple objectTypeId' ruleId' components') :
    objectTypeId = objectTypeId' ∧ ruleId = ruleId' ∧
      components.map joinKeyPart = components'.map joinKeyPart := by
  rw [joinKeyTuple_eq, joinKeyTuple_eq] at h
  have h := List.append_cancel_left h
  obtain ⟨htypes, h⟩ := selfDelimiting_toLe 4 htype htype' _ _ h
  obtain ⟨hrules, h⟩ := selfDelimiting_text hrule hrule' _ _ h
  obtain ⟨-, h⟩ := List.append_inj h (by simp)
  refine ⟨htypes, hrules, selfDelimiting_joinKeyPart.flatMap_injOn
    (fun part _ => joinKeyPartBytes_ne_nil part) ?_ ?_ h⟩
  · exact List.forall_mem_map.mpr hparts
  · exact List.forall_mem_map.mpr hparts'

/-! ## Object ids -/

/-- What an object id is made from: the key of an object, or the ends of an association. -/
inductive GoidParts where
  | mapped (mappingId mappingVersion : List UInt8) (objectTypeId : Nat)
      (anchorKind anchorBytes : List UInt8) (sourceScope : Option Text)
  | association (mappingId mappingVersion : List UInt8) (associationType assertionId : Text)
      (sourceGoid targetGoid : Id16)

/-- The bytes of an id. -/
def idBytes (id : Id16) : List UInt8 := (LittleEndian.toLe 16 id.val).reverse

variable {p q : GoidParts}

namespace GoidParts

def parts : GoidParts → List (List UInt8)
  | mapped mappingId mappingVersion objectTypeId anchorKind anchorBytes sourceScope =>
    [mappingId, mappingVersion, LittleEndian.toLe 4 objectTypeId, anchorKind, anchorBytes,
      utf8Bytes (sourceScope.getD [])]
  | association mappingId mappingVersion associationType assertionId sourceGoid targetGoid =>
    [mappingId, mappingVersion, utf8Bytes (associationTypeName associationType),
      utf8Bytes assertionId, idBytes sourceGoid ++ idBytes targetGoid]

/-- The input of the hash. -/
def bytes (goid : GoidParts) : List UInt8 := goid.parts.flatMap framed

/-- The parts fit their length prefixes, and the type id its four bytes. -/
def Fits (goid : GoidParts) : Prop :=
  (∀ part ∈ goid.parts, part.length < 2 ^ 64) ∧
    match goid with
    | mapped _ _ objectTypeId _ _ _ => objectTypeId < 2 ^ 32
    | association _ _ _ _ _ _ => True

/-- The source scope, when there is one, is of the set. -/
def ScopeIn (scopes : Set (Option Text)) : GoidParts → Prop
  | mapped _ _ _ _ _ sourceScope => sourceScope ∈ scopes
  | association _ _ _ _ _ _ => True

/-- With an absent scope written as the empty one is. -/
def scopeless : GoidParts → GoidParts
  | mapped mappingId mappingVersion objectTypeId anchorKind anchorBytes sourceScope =>
    mapped mappingId mappingVersion objectTypeId anchorKind anchorBytes (some (sourceScope.getD []))
  | goid => goid

theorem parts_eq_of_bytes (hp : ∀ part ∈ p.parts, part.length < 2 ^ 64)
    (hq : ∀ part ∈ q.parts, part.length < 2 ^ 64) (h : p.bytes = q.bytes) : p.parts = q.parts :=
  selfDelimiting_framed.flatMap_injOn (fun part _ => framed_ne_nil part) hp hq h

end GoidParts

theorem length_idBytes (id : Id16) : (idBytes id).length = 16 := by
  simp [idBytes]

theorem idBytes_injective : Function.Injective idBytes := by
  intro a b h
  have hle := List.reverse_injective h
  exact Fin.ext (LittleEndian.toLe_injective (w := 16) a.isLt b.isLt hle)

/-- **The bytes of an object id tell its parts**, but for an absent and an empty scope. -/
theorem GoidParts.bytes_inj (hp : p.Fits) (hq : q.Fits)
    (h : p.bytes = q.bytes) : p.scopeless = q.scopeless := by
  have hparts := parts_eq_of_bytes hp.1 hq.1 h
  cases p with
  | mapped mappingId mappingVersion objectTypeId anchorKind anchorBytes sourceScope =>
    cases q with
    | mapped mappingId' mappingVersion' objectTypeId' anchorKind' anchorBytes' sourceScope' =>
      simp only [parts, List.cons.injEq, and_true] at hparts
      obtain ⟨rfl, rfl, htype, rfl, rfl, hscope⟩ := hparts
      obtain rfl := LittleEndian.toLe_injective hp.2 hq.2 htype
      simp only [scopeless, utf8Bytes_injective hscope]
    | association => simp [parts] at hparts
  | association mappingId mappingVersion associationType assertionId sourceGoid targetGoid =>
    cases q with
    | mapped => simp [parts] at hparts
    | association mappingId' mappingVersion' associationType' assertionId' sourceGoid'
        targetGoid' =>
      simp only [parts, List.cons.injEq, and_true] at hparts
      obtain ⟨rfl, rfl, htype, hassertion, hends⟩ := hparts
      obtain rfl := List.append_cancel_left (utf8Bytes_injective htype)
      obtain rfl := utf8Bytes_injective hassertion
      obtain ⟨hsource, htarget⟩ := List.append_inj hends (by simp only [length_idBytes])
      rw [idBytes_injective hsource, idBytes_injective htarget]

theorem GoidParts.eq_of_scopeless {scopes : Set (Option Text)}
    (hscopes : ¬ (none ∈ scopes ∧ some [] ∈ scopes)) (hp : p.ScopeIn scopes)
    (hq : q.ScopeIn scopes) (h : p.scopeless = q.scopeless) : p = q := by
  cases p with
  | mapped mappingId mappingVersion objectTypeId anchorKind anchorBytes sourceScope =>
    cases q with
    | mapped mappingId' mappingVersion' objectTypeId' anchorKind' anchorBytes' sourceScope' =>
      simp only [scopeless, mapped.injEq, Option.some.injEq] at h
      obtain ⟨rfl, rfl, rfl, rfl, rfl, hscope⟩ := h
      cases sourceScope with
      | none =>
        cases sourceScope' with
        | none => rfl
        | some scope' =>
          obtain rfl : scope' = [] := hscope.symm
          exact absurd ⟨hp, hq⟩ hscopes
      | some scope =>
        cases sourceScope' with
        | none =>
          obtain rfl : scope = [] := hscope
          exact absurd ⟨hq, hp⟩ hscopes
        | some scope' =>
          obtain rfl : scope = scope' := hscope
          rfl
    | association => exact GoidParts.noConfusion h
  | association =>
    cases q with
    | mapped => exact GoidParts.noConfusion h
    | association => exact h

/-! ## Record ids -/

/-- What a record id is made from. -/
structure RecordParts where
  sourceId : Text
  rowIndex : Nat
  ruleId : Text
  goid : Id16

/-- `{source_id}:{row_index}:{rule_id}:{goid}`. -/
def RecordParts.material (record : RecordParts) : Text :=
  colon record.sourceId (colon (natText record.rowIndex)
    (colon record.ruleId (hexEncode record.goid)))

theorem colon_assoc (a b c : Text) : colon (colon a b) c = colon a (colon b c) := by
  simp [colon]

theorem colon_notMem_natText (n : Nat) : ':' ∉ natText n := by
  intro h
  exact absurd (isDigit_of_mem_natText h) (by decide)

theorem hexEncode_injective : Function.Injective hexEncode :=
  fun a b h => Fin.ext (@hexText_inj 32 a.val b.val a.isLt b.isLt h)

/-- The longer source id is the other one and a row index, and what is between there and the
next colon ends a rule id: the parts can be read both ways. -/
def RecordOverlap (sourceId ruleId sourceId' ruleId' : Text) : Prop :=
  ∃ rowIndex < 2 ^ 64, ∃ rowIndex' < 2 ^ 64,
    (sourceId' = colon sourceId (natText rowIndex) ∧ ruleId = colon (natText rowIndex') ruleId') ∨
    ∃ middle, sourceId' = colon sourceId (colon (natText rowIndex) middle) ∧
      ruleId = colon middle (colon (natText rowIndex') ruleId')

/-- A row index read off the front of the longer source id. -/
theorem exists_middle {rowIndex : Nat} {rest u v : Text}
    (h : colon (natText rowIndex) rest = colon u v) :
    (u = natText rowIndex ∧ rest = v) ∨ ∃ middle, u = colon (natText rowIndex) middle ∧
      rest = colon middle v := by
  rcases append_cons_eq_iff.mp h with ⟨hu, hrest⟩ | ⟨middle, hu, hrest⟩ | ⟨middle, hu, -⟩
  · exact .inl ⟨hu.symm, hrest⟩
  · exact .inr ⟨middle, hu, hrest⟩
  · have hcolon : ':' ∈ natText rowIndex := by
      rw [hu]
      exact List.mem_append_right u List.mem_cons_self
    exact absurd hcolon (colon_notMem_natText rowIndex)

variable {s' r' s r : Text}

theorem recordOverlap_of_eq {u : Text} {i i' : Nat} (hi : i < 2 ^ 64)
    (hi' : i' < 2 ^ 64) (hs : s' = colon s u)
    (h : colon (natText i) r = colon u (colon (natText i') r')) : RecordOverlap s r s' r' := by
  rcases exists_middle h with ⟨rfl, hr⟩ | ⟨middle, rfl, hr⟩
  · exact ⟨i, hi, i', hi', .inl ⟨hs, hr⟩⟩
  · exact ⟨i, hi, i', hi', .inr ⟨middle, hs, hr⟩⟩

/-- **When two record ids are made from the same text.** -/
theorem RecordParts.material_eq_iff {p q : RecordParts} (hp : p.rowIndex < 2 ^ 64)
    (hq : q.rowIndex < 2 ^ 64) (h : p.material = q.material) :
    p = q ∨ RecordOverlap p.sourceId p.ruleId q.sourceId q.ruleId ∨
      RecordOverlap q.sourceId q.ruleId p.sourceId p.ruleId := by
  obtain ⟨s, i, r, g⟩ := p
  obtain ⟨s', i', r', g'⟩ := q
  -- the goid is the last 32 characters, whatever they are
  have hends : colon s (colon (natText i) r) ++ ':' :: hexEncode g =
      colon s' (colon (natText i') r') ++ ':' :: hexEncode g' := by
    simpa [material, colon] using h
  obtain ⟨hfront, hgoid⟩ := List.append_inj' hends (by simp [hexEncode])
  obtain rfl := hexEncode_injective (List.cons.inj hgoid).2
  rcases append_cons_eq_iff.mp hfront with ⟨rfl, hrest⟩ | ⟨u, hs, hrest⟩ | ⟨u, hs, hrest⟩
  · obtain ⟨hi, rfl⟩ := append_cons_inj (colon_notMem_natText i) (colon_notMem_natText i') hrest
    obtain rfl := natText_injective hi
    exact .inl rfl
  · exact .inr (.inl (recordOverlap_of_eq hp hq hs hrest))
  · exact .inr (.inr (recordOverlap_of_eq hq hp hs hrest))

/-- Overlapping ids have a collision. -/
theorem RecordOverlap.collides (h : RecordOverlap s r s' r') :
    ∃ i < 2 ^ 64, ∃ i' < 2 ^ 64, ∀ goid, RecordParts.material ⟨s, i, r, goid⟩ =
      RecordParts.material ⟨s', i', r', goid⟩ := by
  obtain ⟨i, hi, i', hi', ⟨rfl, rfl⟩ | ⟨middle, rfl, rfl⟩⟩ := h
  · exact ⟨i, hi, i', hi', fun goid => by simp only [RecordParts.material, colon_assoc]⟩
  · exact ⟨i, hi, i', hi', fun goid => by simp only [RecordParts.material, colon_assoc]⟩

theorem RecordOverlap.ne (h : RecordOverlap s r s' r') : s ≠ s' := by
  obtain ⟨i, -, i', -, ⟨rfl, -⟩ | ⟨middle, rfl, -⟩⟩ := h
  · intro heq
    have := congrArg List.length heq
    simp [colon] at this
  · intro heq
    have := congrArg List.length heq
    simp [colon] at this

/-! ## All three -/

/-- The byte strings of join keys, object ids and record ids come from one list of parts
each, for the source ids, rule ids and source scopes of the sets. -/
structure HashInputsInjective (sourceIds ruleIds : Set Text) (scopes : Set (Option Text)) :
    Prop where
  joinKey : ∀ {objectTypeId objectTypeId' : Nat} {ruleId ruleId' : Text}
    {components components' : List (MapJoinKeyComponent × Option (List UInt8))},
    objectTypeId < 2 ^ 32 → objectTypeId' < 2 ^ 32 → FitsLength ruleId → FitsLength ruleId' →
    (∀ c ∈ components, JoinKeyPartFits (joinKeyPart c)) →
    (∀ c ∈ components', JoinKeyPartFits (joinKeyPart c)) →
    joinKeyTuple objectTypeId ruleId components = joinKeyTuple objectTypeId' ruleId' components' →
    objectTypeId = objectTypeId' ∧ ruleId = ruleId' ∧
      components.map joinKeyPart = components'.map joinKeyPart
  goid : ∀ {p q : GoidParts}, p.Fits → q.Fits → p.ScopeIn scopes → q.ScopeIn scopes →
    p.bytes = q.bytes → p = q
  record : ∀ {p q : RecordParts}, p.rowIndex < 2 ^ 64 → q.rowIndex < 2 ^ 64 →
    p.sourceId ∈ sourceIds → q.sourceId ∈ sourceIds → p.ruleId ∈ ruleIds → q.ruleId ∈ ruleIds →
    utf8Bytes p.material = utf8Bytes q.material → p = q

/-- **The byte strings are injective exactly when** the scopes do not hold both the absent and
the empty one, and no source id is another one and a row index with rule ids to match. -/
theorem hashInputsInjective_iff (sourceIds ruleIds : Set Text) (scopes : Set (Option Text)) :
    HashInputsInjective sourceIds ruleIds scopes ↔
      ¬ (none ∈ scopes ∧ some [] ∈ scopes) ∧
      ∀ s ∈ sourceIds, ∀ s' ∈ sourceIds, ∀ r ∈ ruleIds, ∀ r' ∈ ruleIds,
        ¬ RecordOverlap s r s' r' := by
  constructor
  · intro h
    refine ⟨?_, ?_⟩
    · rintro ⟨hnone, hempty⟩
      have hfits : ∀ scope, scope.getD [] = [] →
          (GoidParts.mapped [] [] 0 [] [] scope).Fits := by
        intro scope hscope
        refine ⟨?_, Nat.two_pow_pos 32⟩
        simp only [GoidParts.parts, hscope]
        decide
      have heq := h.goid (hfits none rfl) (hfits (some []) rfl) hnone hempty rfl
      simp at heq
    · intro s hs s' hs' r hr r' hr' hoverlap
      obtain ⟨i, hi, i', hi', hmaterial⟩ := hoverlap.collides
      have heq := h.record (p := ⟨s, i, r, 0⟩) (q := ⟨s', i', r', 0⟩) hi hi' hs hs' hr hr'
        (congrArg utf8Bytes (hmaterial 0))
      exact hoverlap.ne (congrArg RecordParts.sourceId heq)
  · rintro ⟨hscopes, hoverlap⟩
    refine ⟨joinKeyTuple_inj, ?_, ?_⟩
    · intro p q hp hq hpscope hqscope h
      exact GoidParts.eq_of_scopeless hscopes hpscope hqscope (GoidParts.bytes_inj hp hq h)
    · intro p q hp hq hps hqs hpr hqr h
      rcases RecordParts.material_eq_iff hp hq (utf8Bytes_injective h) with h | h | h
      · exact h
      · exact absurd h (hoverlap _ hps _ hqs _ hpr _ hqr)
      · exact absurd h (hoverlap _ hqs _ hps _ hqr _ hpr)

/-- Row 1 of one source and row 2 of another, under two rules, have the record id of one
object in common. -/
theorem recordIds_collide :
    (⟨"a".toList, 1, "2:r".toList, 7⟩ : RecordParts) ≠ ⟨"a:1".toList, 2, "r".toList, 7⟩ ∧
    RecordParts.material ⟨"a".toList, 1, "2:r".toList, 7⟩ =
      RecordParts.material ⟨"a:1".toList, 2, "r".toList, 7⟩ ∧
    recordIdFor Externals.ascii "a".toList 1 "2:r".toList 7 =
      recordIdFor Externals.ascii "a:1".toList 2 "r".toList 7 := by
  have hmaterial : RecordParts.material ⟨"a".toList, 1, "2:r".toList, 7⟩ =
      RecordParts.material ⟨"a:1".toList, 2, "r".toList, 7⟩ := by decide
  refine ⟨?_, hmaterial, ?_⟩
  · intro h
    have := congrArg RecordParts.rowIndex h
    simp at this
  · exact congrArg (fun text => first16 (Externals.ascii.sha256 (utf8Bytes text))) hmaterial

end Cove

import Cove.Core.DictionarySections
import Cove.DataFusion.FileCodeLiteral

/-!
# Membership filters against the dictionary

A dictionary identifies a value by its tag and its payload, the reverse lookup by the
payload alone. A filter is resolved through the reverse lookup.

- `FileDictionary.HoldsLiteral`: the entry of a code is one of the literals.
- `FiltersExactly`: the reverse lookup is built, and a filter resolves to the codes of the
  literals and no others.
- `filtersExactly_iff`: **so it is exactly when no payload occurs twice in the dictionary,
  and an entry with the payload of a literal has the tag of one**.
- `bool_dictionary_rejected`: the dictionary of `false` and `true`.
-/

namespace Cove

open Checked

/-! ## The statement -/

/-- One of the literals has the tag and the payload, as a value of the type. -/
def LiteralValue (logical : CoveLogicalType) (literals : List LowerLiteral) (valueTag : ValueTag)
    (payload : List UInt8) : Prop :=
  ∃ literal ∈ literals, ∃ value, literalValue logical literal = .ok (some value) ∧
    value.valueTag = valueTag ∧ value.encode = .ok payload

/-- The entry of the code holds one of the literals. -/
def FileDictionary.HoldsLiteral (dictionary : FileDictionary) (logical : CoveLogicalType)
    (literals : List LowerLiteral) (code : Nat) : Prop :=
  ∃ entry payload, dictionary.entries[code]? = some entry ∧ entry.payload? = some payload ∧
    LiteralValue logical literals entry.valueTag payload

/-- The reverse lookup is built and the filter resolves to the codes of the literals. -/
def FiltersExactly (dictionary : FileDictionary) (columnIndex : Nat) (column : ColumnEntry)
    (literals : List LowerLiteral) : Prop :=
  ∃ lookup, buildReverseLookup dictionary = .ok lookup ∧
    ∀ predicate, fileCodeInFilter columnIndex column literals = some predicate →
      ∀ code, code ∈ (resolvePredicate (some lookup) predicate).fileCodes ↔
        dictionary.HoldsLiteral column.logical literals code

/-- A filter of the column and the literals is lowered: each of them is a value of the type,
or null. -/
def Lowered (column : ColumnEntry) (literals : List LowerLiteral) : Prop :=
  column.physical = .fileCode ∧
    ∀ literal ∈ literals, ∃ canonical, canonicalLiteral column.logical literal = .ok canonical

/-- The condition: the payload alone tells the entries apart, and tells the literals from
other entries. -/
structure PayloadsTellApart (dictionary : FileDictionary) (column : ColumnEntry)
    (literals : List LowerLiteral) : Prop where
  distinct : (dictionary.entries.filterMap DictionaryEntry.payload?).Nodup
  tagged : Lowered column literals →
    ∀ entry ∈ dictionary.entries, ∀ payload, entry.payload? = some payload →
      ∀ literal ∈ literals, ∀ value, literalValue column.logical literal = .ok (some value) →
        value.encode = .ok payload →
          LiteralValue column.logical literals entry.valueTag payload

/-! ## The reverse lookup -/

variable {lookup : ReverseLookup} {payload : List UInt8} {literals : List LowerLiteral}
  {logical : CoveLogicalType} {columnIndex : Nat}

variable {dictionary : FileDictionary} {code : Nat} {payloads : List (List UInt8)}
  {column : ColumnEntry}

/-- A payload looks up the code of its entry. -/
theorem fileCodeForCanonical_eq_some (h : buildReverseLookup dictionary = .ok lookup) :
    fileCodeForCanonical (some lookup) payload = some code ↔
      ∃ entry, dictionary.entries[code]? = some entry ∧ entry.payload? = some payload := by
  obtain ⟨hkeys, hlists⟩ := reverseLookupFrom_eq_ok h List.nodup_nil
  have hget : fileCodeForCanonical (some lookup) payload = some code ↔
      (payload, code) ∈ lookup.byCanonicalValue :=
    ⟨AssocMap.mem_of_get, AssocMap.get_of_mem hkeys⟩
  rw [hget, hlists]
  constructor
  · rintro (h | ⟨i, entry, hentry, hpayload, hcode⟩)
    · cases h
    · rw [Nat.zero_add] at hcode
      subst hcode
      exact ⟨entry, hentry, hpayload⟩
  · rintro ⟨entry, hentry, hpayload⟩
    exact .inr ⟨code, entry, hentry, hpayload, (Nat.zero_add code).symm⟩

/-! ## The filter -/

theorem mem_canonicalLiterals (h : canonicalLiterals logical literals = .ok payloads) :
    payload ∈ payloads ↔
      ∃ literal ∈ literals, canonicalLiteral logical literal = .ok (some payload) := by
  induction literals generalizing payloads with
  | nil =>
    obtain rfl := Except.ok.inj h
    simp
  | cons literal literals ih =>
    obtain ⟨canonical, hcanonical, h⟩ := bind_eq_ok.mp h
    rw [List.exists_mem_cons_iff, hcanonical]
    cases canonical with
    | none =>
      rw [ih h]
      simp
    | some canonical =>
      obtain ⟨rest, hrest, h⟩ := bind_eq_ok.mp h
      obtain rfl := Except.ok.inj h
      rw [List.mem_cons, ih hrest]
      simp [eq_comm]

theorem canonicalLiterals_isOk :
    (∃ payloads, canonicalLiterals logical literals = .ok payloads) ↔
      ∀ literal ∈ literals, ∃ canonical, canonicalLiteral logical literal = .ok canonical := by
  induction literals with
  | nil => exact iff_of_true ⟨[], rfl⟩ (by simp)
  | cons literal literals ih =>
    rw [List.forall_mem_cons, ← ih]
    constructor
    · rintro ⟨payloads, h⟩
      obtain ⟨canonical, hcanonical, h⟩ := bind_eq_ok.mp h
      refine ⟨⟨canonical, hcanonical⟩, ?_⟩
      cases canonical with
      | none => exact ⟨payloads, h⟩
      | some canonical =>
        obtain ⟨rest, hrest, -⟩ := bind_eq_ok.mp h
        exact ⟨rest, hrest⟩
    · rintro ⟨⟨canonical, hcanonical⟩, rest, hrest⟩
      cases canonical with
      | none => exact ⟨rest, bind_eq_ok.mpr ⟨none, hcanonical, hrest⟩⟩
      | some canonical =>
        exact ⟨canonical :: rest,
          bind_eq_ok.mpr ⟨_, hcanonical, bind_eq_ok.mpr ⟨rest, hrest, rfl⟩⟩⟩

theorem fileCodeInFilter_isSome :
    (∃ predicate, fileCodeInFilter columnIndex column literals = some predicate) ↔
      Lowered column literals := by
  unfold fileCodeInFilter Lowered
  rw [← canonicalLiterals_isOk]
  split
  · next hphysical => exact iff_of_false nofun fun h => hphysical h.1
  · next hphysical =>
    rw [and_iff_right (not_not.mp hphysical)]
    split
    · next payloads hpayloads => exact iff_of_true ⟨_, rfl⟩ ⟨payloads, hpayloads⟩
    · next e herror =>
      refine iff_of_false nofun ?_
      rintro ⟨payloads, h⟩
      rw [herror] at h
      cases h

/-- The payload of a literal is that of its value. -/
theorem canonicalLiteral_eq_some {literal : LowerLiteral} :
    canonicalLiteral logical literal = .ok (some payload) ↔
      ∃ value, literalValue logical literal = .ok (some value) ∧ value.encode = .ok payload := by
  unfold canonicalLiteral
  rw [bind_eq_ok]
  constructor
  · rintro ⟨value, hvalue, h⟩
    cases value with
    | none => cases h
    | some value =>
      obtain ⟨bytes, hbytes, h⟩ := bind_eq_ok.mp h
      obtain rfl := Option.some.inj (Except.ok.inj h)
      exact ⟨value, hvalue, hbytes⟩
  · rintro ⟨value, hvalue, hbytes⟩
    exact ⟨some value, hvalue, bind_eq_ok.mpr ⟨payload, hbytes, rfl⟩⟩

theorem mem_resolved :
    code ∈ (resolvePredicate (some lookup)
        (pruningFileCodeInWithCanonical columnIndex [] payloads)).fileCodes ↔
      ∃ payload ∈ payloads, fileCodeForCanonical (some lookup) payload = some code := by
  unfold pruningFileCodeInWithCanonical resolvePredicate
  dsimp only
  by_cases hempty : (payloads.insertionSort (· ≤ ·)).dedup.isEmpty = true
  · have hnil : payloads = [] := by
      have h := List.isEmpty_iff.mp hempty
      refine List.eq_nil_iff_forall_not_mem.mpr fun payload hp => ?_
      have hmem : payload ∈ (payloads.insertionSort (· ≤ ·)).dedup := by simpa using hp
      rw [h] at hmem
      cases hmem
    rw [if_pos hempty, hnil]
    simp [CovePredicate.fileCodes]
  · rw [if_neg hempty]
    simp [CovePredicate.fileCodes, resolveFileCodePredicateForFile]

/-- The codes of a filter are those of the entries with the payload of a literal. -/
theorem mem_resolvePredicate (hlookup : buildReverseLookup dictionary = .ok lookup)
    {predicate : CovePredicate}
    (h : fileCodeInFilter columnIndex column literals = some predicate) :
    code ∈ (resolvePredicate (some lookup) predicate).fileCodes ↔
      ∃ entry payload, dictionary.entries[code]? = some entry ∧ entry.payload? = some payload ∧
        ∃ literal ∈ literals, canonicalLiteral column.logical literal = .ok (some payload) := by
  unfold fileCodeInFilter at h
  split at h
  · cases h
  split at h
  · next payloads hpayloads =>
    obtain rfl := Option.some.inj h
    rw [mem_resolved]
    constructor
    · rintro ⟨payload, hmem, hcode⟩
      obtain ⟨entry, hentry, hpayload⟩ := (fileCodeForCanonical_eq_some hlookup).mp hcode
      exact ⟨entry, payload, hentry, hpayload, (mem_canonicalLiterals hpayloads).mp hmem⟩
    · rintro ⟨entry, payload, hentry, hpayload, hliteral⟩
      exact ⟨payload, (mem_canonicalLiterals hpayloads).mpr hliteral,
        (fileCodeForCanonical_eq_some hlookup).mpr ⟨entry, hentry, hpayload⟩⟩
  · cases h

/-- **A filter resolves to the codes of its literals exactly when payloads tell the entries
and the literals apart.** -/
theorem filtersExactly_iff (dictionary : FileDictionary) (columnIndex : Nat)
    (column : ColumnEntry) (literals : List LowerLiteral) :
    FiltersExactly dictionary columnIndex column literals ↔
      PayloadsTellApart dictionary column literals := by
  constructor
  · rintro ⟨lookup, hlookup, hexact⟩
    refine ⟨buildReverseLookup_isOk.mp ⟨lookup, hlookup⟩, ?_⟩
    intro hlowered entry hentry payload hpayload literal hliteral value hvalue hencode
    obtain ⟨predicate, hpredicate⟩ := fileCodeInFilter_isSome.mpr hlowered
    obtain ⟨code, hcode⟩ := List.mem_iff_getElem?.mp hentry
    have hresolved := (mem_resolvePredicate hlookup hpredicate).mpr
      ⟨entry, payload, hcode, hpayload, literal, hliteral,
        canonicalLiteral_eq_some.mpr ⟨value, hvalue, hencode⟩⟩
    obtain ⟨entry', payload', hcode', hpayload', hheld⟩ :=
      (hexact predicate hpredicate code).mp hresolved
    obtain rfl := Option.some.inj (hcode.symm.trans hcode')
    obtain rfl := Option.some.inj (hpayload.symm.trans hpayload')
    exact hheld
  · rintro ⟨hdistinct, htagged⟩
    obtain ⟨lookup, hlookup⟩ := buildReverseLookup_isOk.mpr hdistinct
    refine ⟨lookup, hlookup, fun predicate hpredicate code => ?_⟩
    rw [mem_resolvePredicate hlookup hpredicate]
    constructor
    · rintro ⟨entry, payload, hcode, hpayload, literal, hliteral, hcanonical⟩
      obtain ⟨value, hvalue, hencode⟩ := canonicalLiteral_eq_some.mp hcanonical
      refine ⟨entry, payload, hcode, hpayload, ?_⟩
      exact htagged (fileCodeInFilter_isSome.mp ⟨predicate, hpredicate⟩) entry
        (List.mem_of_getElem? hcode) payload hpayload literal hliteral value hvalue hencode
    · rintro ⟨entry, payload, hcode, hpayload, literal, hliteral, value, hvalue, -, hencode⟩
      exact ⟨entry, payload, hcode, hpayload, literal, hliteral,
        canonicalLiteral_eq_some.mpr ⟨value, hvalue, hencode⟩⟩

/-! ## The booleans -/

/-- An index section of inline entries without payload, by their tags. -/
def tagOnlyIndex (tags : List ValueTag) : List UInt8 :=
  LittleEndian.toLe 4 tags.length ++ List.replicate 4 0 ++ LittleEndian.toLe 2 48 ++
    List.replicate 34 0 ++
    tags.flatMap fun tag => LittleEndian.toLe 2 tag.code ++ List.replicate 46 0

/-- **The dictionary of both booleans is rejected, and that of one answers for the other**:
the payload of a boolean is empty, its value is the tag. -/
theorem bool_dictionary_rejected :
    FileDictionary.parse (fun _ => true) (tagOnlyIndex [.boolFalse, .boolTrue]) [] =
        .ok ⟨[⟨.boolFalse, .rawBytes []⟩, ⟨.boolTrue, .rawBytes []⟩]⟩ ∧
      (∀ lookup, buildReverseLookup
        ⟨[⟨.boolFalse, .rawBytes []⟩, ⟨.boolTrue, .rawBytes []⟩]⟩ ≠ .ok lookup) ∧
      FileDictionary.parse (fun _ => true) (tagOnlyIndex [.boolTrue]) [] =
        .ok ⟨[⟨.boolTrue, .rawBytes []⟩]⟩ ∧
      ¬ FiltersExactly ⟨[⟨.boolTrue, .rawBytes []⟩]⟩ 0
        ⟨0, .bool, .fileCode, 0, 0⟩ [.boolean false] := by
  refine ⟨by decide +kernel, nofun, by decide +kernel, ?_⟩
  rintro ⟨lookup, hlookup, hexact⟩
  have hcode : 0 ∈ (resolvePredicate (some lookup)
      (pruningFileCodeInWithCanonical 0 [] [[]])).fileCodes := by
    obtain rfl := Except.ok.inj hlookup
    decide +kernel
  obtain ⟨entry, payload, hentry, -, literal, hliteral, value, hvalue, htag, -⟩ :=
    (hexact _ rfl 0).mp hcode
  obtain rfl := Option.some.inj hentry
  obtain rfl := List.mem_singleton.mp hliteral
  obtain rfl := Option.some.inj (Except.ok.inj hvalue)
  cases htag

end Cove

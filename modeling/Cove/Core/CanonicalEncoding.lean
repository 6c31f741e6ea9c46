import Cove.Core.CanonicalGrammar

/-!
# Encoding and the grammar

What `encode` writes is a well-formed payload, spelled with the shortest varints. Struct fields
and map entries are sorted on the way, so the order they come in is forgotten, and nothing else
is but the width of the integers.

- `SpelledBy`: a spelling of a value that `encode` writes.
- `exists_spelledBy`: **what is encoded is spelled**, for values nested to any depth.
- `encode_validates`, `encode_permuted`, `encode_inj`: it is accepted, it does not depend on the
  order of entries and fields, and it determines the value.
- `encode_canonical`: the three together.
-/

namespace Cove

open Ieee754 (F32 F64)
open Checked Spelling CanonicalTree

/-! ## Scalars -/

variable {a b : CanonicalValue}

namespace CanonicalValue

/-- An integer in its widest type. -/
def widen : CanonicalValue → CanonicalValue
  | int _ v => .int 8 v
  | uint _ v => .uint 8 v
  | v => v

/-- Equal up to the width of an integer. -/
def SameScalar (a b : CanonicalValue) : Prop := a.widen = b.widen

theorem SameScalar.symm (h : a.SameScalar b) : b.SameScalar a := Eq.symm h

theorem SameScalar.trans {c : CanonicalValue} (h : a.SameScalar b) (h' : b.SameScalar c) :
    a.SameScalar c := Eq.trans h h'

end CanonicalValue

/-- A value and the spelling that `encode` writes for it. -/
structure SpelledBy (validJson : List UInt8 → Bool) (t : CanonicalTree) (s : Spelling) : Prop where
  wellFormed : s.WellFormed validJson
  tag_eq : s.tag = .shortest t.valueTag
  encode_eq : t.encode = .ok s.payload
  value_eq : SameUpTo CanonicalValue.SameScalar s.value t

variable {value : CanonicalValue} {t : CanonicalTree}

variable {body : List UInt8}

section

variable {validJson : List UInt8 → Bool}

/-- A scalar whose payload has a fixed width. -/
theorem spelledBy_fixed {bytes : List UInt8} (hencode : value.encode = .ok bytes)
    (hwidth : value.valueTag.fixedWidth = some bytes.length)
    (hvalue : (scalarValue value.valueTag bytes).SameScalar value) :
    SpelledBy validJson (.scalar value) (.fixed (.shortest value.valueTag) bytes) := by
  refine ⟨.fixed hwidth, rfl, ?_, ?_⟩
  · rw [payload_fixed, encode]
    exact hencode
  · rw [value_fixed]
    exact sameUpTo_scalar.mpr hvalue

/-- A scalar whose payload has its length in front. -/
theorem spelledBy_text (hencode : value.encode = .ok (lengthPrefixed body))
    (hfits : (lengthPrefixed body).length < 2 ^ 64)
    (hvalid : value.valueTag.ValidText validJson body)
    (hvalue : (scalarValue value.valueTag body).SameScalar value) :
    SpelledBy validJson (.scalar value)
      (.text (.shortest value.valueTag) (.ofNat body.length) body) := by
  unfold lengthPrefixed at hencode hfits
  rw [List.length_append] at hfits
  have hlength : body.length < 2 ^ 64 := by omega
  refine ⟨.text (Varint.ofNat_value hlength) ?_ hvalid, rfl, ?_, ?_⟩
  · rw [Varint.ofNat_bytes hlength]
    exact hfits
  · rw [payload_text, Varint.ofNat_bytes hlength, encode]
    exact hencode
  · rw [value_text]
    exact sameUpTo_scalar.mpr hvalue

/-- The bytes of a word give the word back. -/
theorem ofNat_ofLe_toLe {n w : Nat} (hn : n = 8 * w) (bits : BitVec n) :
    BitVec.ofNat n (LittleEndian.ofLe (LittleEndian.toLe w bits.toNat)) = bits := by
  subst hn
  have hlt : bits.toNat < 256 ^ w := by
    have := bits.isLt
    rwa [Nat.pow_mul] at this
  rw [LittleEndian.ofLe_toLe hlt, BitVec.ofNat_toNat, BitVec.setWidth_eq]

theorem length_signedLe (w : Nat) (v : Int) : (signedLe w v).length = w :=
  LittleEndian.length_toLe w _

/-- The bytes of a number within its type give the number back. -/
theorem signed_ofLe_signedLe {w : Nat} {v : Int} (hw : 0 < w)
    (hv : -(256 ^ w / 2 : Nat) ≤ v ∧ v < (256 ^ w / 2 : Nat)) :
    LittleEndian.signed w (LittleEndian.ofLe (signedLe w v)) = v := by
  unfold signedLe
  rw [LittleEndian.ofLe_toLe (LittleEndian.unsigned_lt w v),
    LittleEndian.signed_unsigned hw hv.1 hv.2]

theorem strFromUtf8_bytes (s : Str) : strFromUtf8 s.bytes = some s := by
  unfold strFromUtf8
  rw [dif_pos s.valid]

/-- **What is encoded of a scalar is spelled.** -/
theorem exists_spelledBy_scalar (htyped : value.Typed)
    (hjson : ∀ s, value = .json s → validJson s.bytes = true) {bytes : List UInt8}
    (h : value.encode = .ok bytes) (hfits : bytes.length < 2 ^ 64) :
    ∃ s, SpelledBy validJson (.scalar value) s := by
  cases value with
  | null =>
    obtain rfl := Except.ok.inj h
    exact ⟨_, spelledBy_fixed h rfl rfl⟩
  | bool b =>
    obtain rfl := Except.ok.inj h
    cases b <;> exact ⟨_, spelledBy_fixed h rfl rfl⟩
  | int width v =>
    obtain ⟨hrange, rfl⟩ := encodeI64Width_bounds h
    refine ⟨_, spelledBy_fixed h (by rw [length_signedLe]; rfl) ?_⟩
    exact congrArg (CanonicalValue.int 8) (signed_ofLe_signedLe (by decide) hrange)
  | uint width v =>
    obtain ⟨hrange, rfl⟩ := encodeU64Width_bounds h
    refine ⟨_, spelledBy_fixed h (by rw [LittleEndian.length_toLe]; rfl) ?_⟩
    exact congrArg (CanonicalValue.uint 8) (LittleEndian.ofLe_toLe hrange)
  | float32 v =>
    obtain rfl := Except.ok.inj h
    refine ⟨_, spelledBy_fixed h (by rw [LittleEndian.length_toLe]; rfl) ?_⟩
    have hbits := ofNat_ofLe_toLe (n := 32) (w := 4) rfl v.bits
    show CanonicalValue.float32 ⟨BitVec.ofNat 32 _⟩ = .float32 v
    rw [hbits]
  | float64 v =>
    obtain rfl := Except.ok.inj h
    refine ⟨_, spelledBy_fixed h (by rw [LittleEndian.length_toLe]; rfl) ?_⟩
    have hbits := ofNat_ofLe_toLe (n := 64) (w := 8) rfl v.bits
    show CanonicalValue.float64 ⟨BitVec.ofNat 64 _⟩ = .float64 v
    rw [hbits]
  | decimal64 v =>
    obtain rfl := Except.ok.inj h
    refine ⟨_, spelledBy_fixed h (by rw [length_signedLe]; rfl) ?_⟩
    exact congrArg CanonicalValue.decimal64 (signed_ofLe_signedLe (by decide) htyped)
  | decimal128 v =>
    obtain rfl := Except.ok.inj h
    refine ⟨_, spelledBy_fixed h (by rw [length_signedLe]; rfl) ?_⟩
    exact congrArg CanonicalValue.decimal128 (signed_ofLe_signedLe (by decide) htyped)
  | dateDays v =>
    obtain rfl := Except.ok.inj h
    refine ⟨_, spelledBy_fixed h (by rw [length_signedLe]; rfl) ?_⟩
    exact congrArg CanonicalValue.dateDays (signed_ofLe_signedLe (by decide) htyped)
  | timestampMicros v =>
    obtain rfl := Except.ok.inj h
    refine ⟨_, spelledBy_fixed h (by rw [length_signedLe]; rfl) ?_⟩
    exact congrArg CanonicalValue.timestampMicros (signed_ofLe_signedLe (by decide) htyped)
  | timestampNanos v =>
    obtain rfl := Except.ok.inj h
    refine ⟨_, spelledBy_fixed h (by rw [length_signedLe]; rfl) ?_⟩
    exact congrArg CanonicalValue.timestampNanos (signed_ofLe_signedLe (by decide) htyped)
  | uuid v =>
    obtain rfl := Except.ok.inj h
    refine ⟨_, spelledBy_fixed h (by rw [v.property]; rfl) ?_⟩
    exact congrArg CanonicalValue.widen (dif_pos v.property)
  | utf8 s =>
    obtain rfl := Except.ok.inj h
    refine ⟨_, spelledBy_text h hfits s.valid ?_⟩
    show CanonicalValue.widen (((strFromUtf8 s.bytes).map CanonicalValue.utf8).getD .null) = _
    rw [strFromUtf8_bytes]
    rfl
  | bytes b =>
    obtain rfl := Except.ok.inj h
    exact ⟨_, spelledBy_text h hfits trivial rfl⟩
  | json s =>
    obtain rfl := Except.ok.inj h
    refine ⟨_, spelledBy_text h hfits (hjson s rfl) ?_⟩
    show CanonicalValue.widen (((strFromUtf8 s.bytes).map CanonicalValue.json).getD _) = _
    rw [strFromUtf8_bytes]
    rfl

end

/-! ## Members -/

/-- The tagged bytes of a value. -/
def Encodes (t : CanonicalTree) (bytes : List UInt8) : Prop :=
  ∃ payload, t.encode = .ok payload ∧ bytes = CanonicalTree.tagged t.valueTag payload

variable {elements : List CanonicalTree}

theorem encodeElements_eq_ok :
    encodeElements elements = .ok body ↔
      ∃ parts, List.Forall₂ Encodes elements parts ∧ body = parts.flatten := by
  induction elements generalizing body with
  | nil =>
    rw [encodeElements]
    constructor
    · intro h
      exact ⟨[], .nil, (Except.ok.inj h).symm⟩
    · rintro ⟨parts, hparts, rfl⟩
      cases hparts
      rfl
  | cons e es ih =>
    rw [encodeElements]
    constructor
    · intro h
      obtain ⟨payload, he, h⟩ := bind_eq_ok.mp h
      obtain ⟨rest, hes, h⟩ := bind_eq_ok.mp h
      obtain ⟨parts, hparts, rfl⟩ := ih.mp hes
      exact ⟨_ :: parts, .cons ⟨payload, he, rfl⟩ hparts, (Except.ok.inj h).symm⟩
    · rintro ⟨parts, hparts, rfl⟩
      obtain _ | ⟨⟨payload, he, rfl⟩, hparts⟩ := hparts
      rw [he, ok_bind, ih.mpr ⟨_, hparts, rfl⟩, ok_bind, List.flatten_cons]

theorem encodeFields_eq (fields : List (Nat × CanonicalTree)) :
    encodeFields fields = fields.map fun f =>
      (f.1, (encode f.2).map (CanonicalTree.tagged f.2.valueTag)) := by
  induction fields with
  | nil => rw [encodeFields]; rfl
  | cons f fs ih =>
    obtain ⟨fieldId, value⟩ := f
    rw [encodeFields, ih, List.map_cons]

variable {entries : List (CanonicalTree × CanonicalTree)}
  {R : CanonicalValue → CanonicalValue → Prop}

theorem encodeEntries_eq_ok {encoded : List (List UInt8 × List UInt8)} :
    encodeEntries entries = .ok encoded ↔
      List.Forall₂ (fun e x => e.1.isScalarKey = true ∧ Encodes e.1 x.1 ∧ Encodes e.2 x.2)
        entries encoded := by
  induction entries generalizing encoded with
  | nil =>
    rw [encodeEntries]
    constructor
    · intro h
      obtain rfl := Except.ok.inj h
      exact .nil
    · intro h
      cases h
      rfl
  | cons e es ih =>
    obtain ⟨key, value⟩ := e
    rw [encodeEntries]
    constructor
    · intro h
      split at h
      · cases h
      next hscalar =>
      obtain ⟨keyPayload, hkey, h⟩ := bind_eq_ok.mp h
      obtain ⟨valuePayload, hvalue, h⟩ := bind_eq_ok.mp h
      obtain ⟨rest, hrest, h⟩ := bind_eq_ok.mp h
      obtain rfl := Except.ok.inj h
      rw [Bool.not_eq_true', Bool.not_eq_false] at hscalar
      exact .cons ⟨hscalar, ⟨_, hkey, rfl⟩, ⟨_, hvalue, rfl⟩⟩ (ih.mp hrest)
    · intro h
      cases h with
      | @cons _ x _ rest hx hrest =>
        obtain ⟨k, v⟩ := x
        obtain ⟨hscalar, ⟨keyPayload, hkey, hk⟩, ⟨valuePayload, hvalue, hv⟩⟩ := hx
        dsimp only at hscalar hkey hk hvalue hv
        rw [hscalar, if_neg (by simp), hkey, ok_bind, hvalue, ok_bind, ih.mpr hrest, ok_bind, hk, hv]

/-! ## Sorting -/

theorem canonicalizeStruct_eq_ok {fields : List (Nat × Except CoveError (List UInt8))}
    {bytes : List UInt8} :
    canonicalizeStruct fields = .ok bytes ↔
      ((SortedList.sortBy Prod.fst fields).map Prod.fst).Pairwise (· < ·) ∧
        ∃ parts, List.Forall₂ (fun f part => ∃ value, f.2 = .ok value ∧
            part = Leb128.leb128 f.1 ++ value) (SortedList.sortBy Prod.fst fields) parts ∧
          bytes = Leb128.leb128 fields.length ++ parts.flatten := by
  have hrepeat := SortedList.hasRepeat_eq_false_iff (SortedList.pairwise_sortBy_fst fields)
  have hstep : ∀ (f : Nat × Except CoveError (List UInt8)) part,
      (do .ok (Leb128.leb128 f.1 ++ (← f.2)) : Except CoveError (List UInt8)) = .ok part ↔
        ∃ value, f.2 = .ok value ∧ part = Leb128.leb128 f.1 ++ value := by
    intro f part
    rw [bind_eq_ok]
    exact exists_congr fun value => and_congr_right fun _ => ⟨fun h => (Except.ok.inj h).symm,
      fun h => congrArg _ h.symm⟩
  unfold canonicalizeStruct
  dsimp only
  by_cases hdup : SortedList.hasRepeat ((SortedList.sortBy Prod.fst fields).map Prod.fst) = true
  · rw [if_pos hdup]
    constructor
    · intro h
      cases h
    · rintro ⟨hascending, -⟩
      rw [hrepeat.mpr hascending] at hdup
      cases hdup
  · rw [if_neg hdup, bind_eq_ok, ← hrepeat, Bool.eq_false_iff]
    rw [List.length_insertionSort]
    constructor
    · rintro ⟨parts, hparts, h⟩
      refine ⟨hdup, parts, ?_, (Except.ok.inj h).symm⟩
      exact (mapM_eq_ok.mp hparts).imp fun f part => (hstep f part).mp
    · rintro ⟨-, parts, hparts, rfl⟩
      refine ⟨parts, mapM_eq_ok.mpr ?_, rfl⟩
      exact hparts.imp fun f part => (hstep f part).mpr

theorem canonicalizeMap_eq_ok {entries : List (List UInt8 × List UInt8)} {bytes : List UInt8} :
    canonicalizeMap entries = .ok bytes ↔
      ((SortedList.sortBy Prod.fst entries).map Prod.fst).Pairwise (· < ·) ∧
        bytes = Leb128.leb128 entries.length ++
          (SortedList.sortBy Prod.fst entries).flatMap fun entry => entry.1 ++ entry.2 := by
  have hrepeat := SortedList.hasRepeat_eq_false_iff (SortedList.pairwise_sortBy_fst entries)
  unfold canonicalizeMap
  dsimp only
  by_cases hdup : SortedList.hasRepeat ((SortedList.sortBy Prod.fst entries).map Prod.fst) = true
  · rw [if_pos hdup]
    constructor
    · intro h
      cases h
    · rintro ⟨hascending, -⟩
      rw [hrepeat.mpr hascending] at hdup
      cases hdup
  · rw [if_neg hdup, ← hrepeat, Bool.eq_false_iff, List.length_insertionSort]
    constructor
    · intro h
      exact ⟨hdup, (Except.ok.inj h).symm⟩
    · rintro ⟨-, rfl⟩
      rfl

theorem canonicalizeMap_perm {entries entries' : List (List UInt8 × List UInt8)}
    {bytes : List UInt8} (hperm : entries.Perm entries') (h : canonicalizeMap entries = .ok bytes) :
    canonicalizeMap entries' = .ok bytes := by
  have hkeys := (canonicalizeMap_eq_ok.mp h).1
  rw [canonicalizeMap_eq_ok, ← SortedList.sortBy_eq_of_perm hperm hkeys, ← hperm.length_eq]
  exact canonicalizeMap_eq_ok.mp h

/-! ## Spelled values -/

variable {u : CanonicalTree}

section

variable {validJson : List UInt8 → Bool}

/-- Two lists that stand beside a third one, the second read off the first. -/
theorem eq_map_of_forall₂ {α β γ : Type} {R : α → β → Prop} {S : α → γ → Prop} {f : γ → β}
    {as : List α} {bs : List β} {cs : List γ} (hb : List.Forall₂ R as bs)
    (hc : List.Forall₂ S as cs) (h : ∀ a b c, R a b → S a c → b = f c) : bs = cs.map f := by
  have hboth : List.Forall₂ (fun b c => b = f c) bs cs :=
    forall₂_comp (fun b _ a c hab hac => h a b c hab hac) hb.flip hc
  rw [← List.forall₂_eq_eq_eq, List.forall₂_map_right_iff]
  exact hboth

/-- The tagged bytes of a value are those of its spelling. -/
theorem SpelledBy.tagged_eq {s : Spelling} (h : SpelledBy validJson t s)
    {bytes : List UInt8} (henc : Encodes t bytes) : bytes = s.tagged := by
  obtain ⟨payload, hpayload, rfl⟩ := henc
  have heq : payload = s.payload := Except.ok.inj (hpayload.symm.trans h.encode_eq)
  have hcode : t.valueTag.code < 2 ^ 64 := by
    have := t.valueTag.code_lt
    omega
  rw [Spelling.tagged, CanonicalTree.tagged, heq, h.tag_eq]
  exact congrArg (· ++ s.payload) (Varint.ofNat_bytes hcode).symm

theorem length_tagged_pos {bytes : List UInt8} (h : Encodes t bytes) :
    0 < bytes.length := by
  obtain ⟨payload, -, rfl⟩ := h
  rw [CanonicalTree.tagged, List.length_append]
  have := Leb128.length_leb128_pos t.valueTag.code
  omega

theorem length_le_tagged {payload bytes : List UInt8}
    (hpayload : t.encode = .ok payload) (h : Encodes t bytes) : payload.length ≤ bytes.length := by
  obtain ⟨payload', hpayload', rfl⟩ := h
  obtain rfl := Except.ok.inj (hpayload.symm.trans hpayload')
  rw [CanonicalTree.tagged, List.length_append]
  omega

/-- The elements, fields or entries of what fits are no more than its bytes, and each fits. -/
theorem parts_fit {head : List UInt8} {parts : List (List UInt8)}
    (hpos : ∀ part ∈ parts, 0 < part.length) (hfits : (head ++ parts.flatten).length < 2 ^ 64) :
    parts.length < 2 ^ 64 ∧ ∀ part ∈ parts, part.length < 2 ^ 64 := by
  rw [List.length_append] at hfits
  have hcount : parts.length ≤ parts.flatten.length := by
    clear hfits
    induction parts with
    | nil => exact Nat.le_refl _
    | cons part parts ih =>
      have hpart := hpos part List.mem_cons_self
      have hrest := ih fun p hp => hpos p (List.mem_cons_of_mem _ hp)
      rw [List.flatten_cons, List.length_cons, List.length_append]
      omega
  refine ⟨by omega, fun part hpart => ?_⟩
  have hle : part.length ≤ parts.flatten.length := by
    have := length_le_flatMap (f := id) hpart
    rwa [List.flatMap_id] at this
  omega

/-- What the induction asks of the members. -/
def Spellable (validJson : List UInt8 → Bool) (t : CanonicalTree) : Prop :=
  ∀ bytes, t.encode = .ok bytes → bytes.length < 2 ^ 64 → ∃ s, SpelledBy validJson t s

/-- A member whose tagged bytes fit is spelled. -/
theorem Spellable.exists_of_encodes (h : Spellable validJson t)
    {bytes : List UInt8} (henc : Encodes t bytes) (hfits : bytes.length < 2 ^ 64) :
    ∃ s, SpelledBy validJson t s := by
  obtain ⟨payload, hpayload, -⟩ := id henc
  have hle := length_le_tagged hpayload henc
  exact h payload hpayload (by omega)

theorem encode_list_eq_ok {bytes : List UInt8} :
    (list elements).encode = .ok bytes ↔ ∃ parts, List.Forall₂ Encodes elements parts ∧
      bytes = Leb128.leb128 elements.length ++ parts.flatten := by
  rw [encode, bind_eq_ok]
  constructor
  · rintro ⟨body, hbody, h⟩
    obtain ⟨parts, hparts, rfl⟩ := encodeElements_eq_ok.mp hbody
    exact ⟨parts, hparts, (Except.ok.inj h).symm⟩
  · rintro ⟨parts, hparts, rfl⟩
    exact ⟨_, encodeElements_eq_ok.mpr ⟨parts, hparts, rfl⟩, rfl⟩

theorem Spellable.list {elements : List CanonicalTree}
    (ih : ∀ e ∈ elements, Spellable validJson e) : Spellable validJson (.list elements) := by
  intro bytes h hfits
  obtain ⟨parts, hparts, rfl⟩ := encode_list_eq_ok.mp h
  have hpos : ∀ part ∈ parts, 0 < part.length := by
    intro part hpart
    obtain ⟨e, -, henc⟩ := exists_of_forall₂_left hparts.flip hpart
    exact length_tagged_pos henc
  obtain ⟨hcount, heach⟩ := parts_fit hpos hfits
  rw [← hparts.length_eq] at hcount
  obtain ⟨spelled, hspelled⟩ : ∃ spelled, List.Forall₂ (SpelledBy validJson) elements spelled := by
    refine exists_forall₂ fun e he => ?_
    obtain ⟨part, hpart, henc⟩ := exists_of_forall₂_left hparts he
    exact (ih e he).exists_of_encodes henc (heach part hpart)
  have hbytes : parts = spelled.map Spelling.tagged :=
    eq_map_of_forall₂ hparts hspelled fun e part s henc hs => hs.tagged_eq henc
  refine ⟨.list (.shortest .list) (.ofNat elements.length) spelled, ?_, rfl, ?_, ?_⟩
  · refine .list rfl ?_ fun s hs => ?_
    · rw [Varint.ofNat_value hcount, hspelled.length_eq]
    · obtain ⟨e, -, he⟩ := exists_of_forall₂_left hspelled.flip hs
      exact he.wellFormed
  · rw [h, payload_list, Varint.ofNat_bytes hcount, hbytes, List.flatMap_def]
  · rw [value_list]
    exact sameUpTo_list.mpr (List.forall₂_map_left_iff.mpr (hspelled.flip.imp fun s e he =>
      he.value_eq))

/-- The bytes of a field of a struct. -/
def FieldEncodes (field : Nat × CanonicalTree) (part : List UInt8) : Prop :=
  ∃ value, Encodes field.2 value ∧ part = Leb128.leb128 field.1 ++ value

theorem encode_struct_eq_ok {fields : List (Nat × CanonicalTree)} {bytes : List UInt8} :
    (struct fields).encode = .ok bytes ↔
      ((SortedList.sortBy Prod.fst fields).map Prod.fst).Pairwise (· < ·) ∧
        ∃ parts, List.Forall₂ FieldEncodes (SortedList.sortBy Prod.fst fields) parts ∧
          bytes = Leb128.leb128 fields.length ++ parts.flatten := by
  have hsort : ∀ g : Nat × CanonicalTree → Nat × Except CoveError (List UInt8),
      (∀ f, (g f).1 = f.1) →
      SortedList.sortBy Prod.fst (fields.map g) = (SortedList.sortBy Prod.fst fields).map g := by
    intro g hg
    refine (List.map_insertionSort _ _ g fields fun a _ b _ => ?_).symm
    rw [hg, hg]
  have hfield : ∀ (f : Nat × CanonicalTree) part,
      (∃ value, (encode f.2).map (CanonicalTree.tagged f.2.valueTag) = .ok value ∧
        part = Leb128.leb128 f.1 ++ value) ↔ FieldEncodes f part := by
    intro f part
    refine exists_congr fun value => and_congr_left fun _ => ?_
    rw [Checked.map_eq_ok]
    exact exists_congr fun payload => and_congr_right fun _ => eq_comm
  rw [encode, canonicalizeStruct_eq_ok, encodeFields_eq, hsort _ fun _ => rfl, List.map_map,
    List.length_map]
  refine and_congr_right fun _ => exists_congr fun parts => and_congr_left fun _ => ?_
  rw [List.forall₂_map_left_iff]
  exact ⟨fun h => h.imp fun f part => (hfield f part).mp,
    fun h => h.imp fun f part => (hfield f part).mpr⟩

theorem Spellable.struct {fields : List (Nat × CanonicalTree)}
    (hids : ∀ f ∈ fields, f.1 < 2 ^ 64) (ih : ∀ f ∈ fields, Spellable validJson f.2) :
    Spellable validJson (.struct fields) := by
  intro bytes h hfits
  obtain ⟨hascending, parts, hparts, rfl⟩ := encode_struct_eq_ok.mp h
  have hmem : ∀ f ∈ SortedList.sortBy Prod.fst fields, f ∈ fields := fun f =>
    (List.mem_insertionSort _).mp
  have hpos : ∀ part ∈ parts, 0 < part.length := by
    intro part hpart
    obtain ⟨f, -, value, -, rfl⟩ := exists_of_forall₂_left hparts.flip hpart
    rw [List.length_append]
    have := Leb128.length_leb128_pos f.1
    omega
  obtain ⟨hcount, heach⟩ := parts_fit hpos hfits
  rw [← hparts.length_eq, List.length_insertionSort] at hcount
  obtain ⟨spelled, hspelled⟩ : ∃ spelled : List (Varint × Spelling),
      List.Forall₂ (fun f s => s.1.value = f.1 ∧ s.1.bytes = Leb128.leb128 f.1 ∧
        SpelledBy validJson f.2 s.2) (SortedList.sortBy Prod.fst fields) spelled := by
    refine exists_forall₂ fun f hf => ?_
    obtain ⟨part, hpart, value, henc, rfl⟩ := exists_of_forall₂_left hparts hf
    have hlen := heach _ hpart
    rw [List.length_append] at hlen
    obtain ⟨s, hs⟩ := (ih f (hmem f hf)).exists_of_encodes henc (by omega)
    have hid := hids f (hmem f hf)
    exact ⟨(.ofNat f.1, s), Varint.ofNat_value hid, Varint.ofNat_bytes hid, hs⟩
  have hbytes : parts = spelled.map fieldTagged := by
    refine eq_map_of_forall₂ hparts hspelled ?_
    rintro f part s ⟨value, henc, rfl⟩ ⟨-, hid, hs⟩
    rw [fieldTagged, hid, hs.tagged_eq henc]
  have hkeys : (spelled.map fun s => s.1.value) = (SortedList.sortBy Prod.fst fields).map Prod.fst :=
    map_eq_of_forall₂ (fun f s hs => hs.1) hspelled
  refine ⟨.struct (.shortest .struct) (.ofNat fields.length) spelled, ?_, rfl, ?_, ?_⟩
  · refine .struct rfl ?_ ?_ fun s hs => ?_
    · rw [Varint.ofNat_value hcount, ← hspelled.length_eq, List.length_insertionSort]
    · rw [hkeys]
      exact hascending
    · obtain ⟨f, -, hf⟩ := exists_of_forall₂_left hspelled.flip hs
      exact hf.2.2.wellFormed
  · rw [h, payload_struct, Varint.ofNat_bytes hcount, hbytes, List.flatMap_def]
  · rw [value_struct]
    refine sameUpTo_struct.mpr ⟨SortedList.sortBy Prod.fst fields, List.perm_insertionSort _ _, ?_⟩
    exact List.forall₂_map_left_iff.mpr (hspelled.flip.imp fun s f hs => ⟨hs.1, hs.2.2.value_eq⟩)

/-- The bytes of an entry of a map. -/
def EntryEncodes (entry : CanonicalTree × CanonicalTree) (bytes : List UInt8 × List UInt8) : Prop :=
  entry.1.isScalarKey = true ∧ Encodes entry.1 bytes.1 ∧ Encodes entry.2 bytes.2

theorem encode_map_eq_ok {bytes : List UInt8} :
    (map entries).encode = .ok bytes ↔ ∃ encoded, List.Forall₂ EntryEncodes entries encoded ∧
      canonicalizeMap encoded = .ok bytes := by
  rw [encode, bind_eq_ok]
  exact exists_congr fun encoded => and_congr_left fun _ => encodeEntries_eq_ok

theorem isScalar_valueTag (h : t.isScalarKey = true) :
    t.valueTag.isScalar = true := by
  cases t with
  | scalar value =>
    rw [CanonicalTree.valueTag]
    cases value
    case bool b => cases b <;> rfl
    all_goals rfl
  | list | struct | map => cases h

theorem Spellable.map {entries : List (CanonicalTree × CanonicalTree)}
    (ihkey : ∀ e ∈ entries, Spellable validJson e.1) (ih : ∀ e ∈ entries, Spellable validJson e.2) :
    Spellable validJson (.map entries) := by
  intro bytes h hfits
  obtain ⟨encoded, hencoded, hbytes⟩ := encode_map_eq_ok.mp h
  obtain ⟨hascending, rfl⟩ := canonicalizeMap_eq_ok.mp hbytes
  have hlength := hencoded.length_eq
  -- the entries in the order of their encoded keys
  obtain ⟨sorted, hsorted, hperm⟩ : ∃ sorted, List.Forall₂ EntryEncodes sorted
      (SortedList.sortBy Prod.fst encoded) ∧ sorted.Perm entries := by
    have hsort : (SortedList.sortBy Prod.fst encoded).Perm encoded := List.perm_insertionSort _ _
    obtain ⟨sorted, hsorted, hperm⟩ := List.perm_comp_forall₂ hsort hencoded.flip
    exact ⟨sorted, hsorted.flip, hperm⟩
  have hsame := hsorted.length_eq
  rw [List.flatMap_def] at hfits
  have hpos : ∀ part ∈ (SortedList.sortBy Prod.fst encoded).map fun entry => entry.1 ++ entry.2,
      0 < part.length := by
    intro part hpart
    obtain ⟨x, hx, rfl⟩ := List.mem_map.mp hpart
    obtain ⟨e, -, -, hkey, -⟩ := exists_of_forall₂_left hsorted.flip hx
    have := length_tagged_pos hkey
    rw [List.length_append]
    omega
  obtain ⟨hcount, heach⟩ := parts_fit hpos hfits
  rw [List.length_map, List.length_insertionSort, ← hlength] at hcount
  obtain ⟨spelled, hspelled⟩ : ∃ spelled : List (Spelling × Spelling),
      List.Forall₂ (fun e s => e.1.isScalarKey = true ∧ SpelledBy validJson e.1 s.1 ∧
        SpelledBy validJson e.2 s.2) sorted spelled := by
    refine exists_forall₂ fun e he => ?_
    obtain ⟨x, hx, hscalar, hkey, hvalue⟩ := exists_of_forall₂_left hsorted he
    have hlen := heach _ (List.mem_map_of_mem hx)
    rw [List.length_append] at hlen
    obtain ⟨s, hs⟩ := (ihkey e (hperm.subset he)).exists_of_encodes hkey (by omega)
    obtain ⟨s', hs'⟩ := (ih e (hperm.subset he)).exists_of_encodes hvalue (by omega)
    exact ⟨(s, s'), hscalar, hs, hs'⟩
  have hbytes : SortedList.sortBy Prod.fst encoded =
      spelled.map fun s => (s.1.tagged, s.2.tagged) := by
    refine eq_map_of_forall₂ hsorted hspelled ?_
    rintro e ⟨k, v⟩ s ⟨-, hkey, hvalue⟩ ⟨-, hs, hs'⟩
    rw [← hs.tagged_eq hkey, ← hs'.tagged_eq hvalue]
  refine ⟨.map (.shortest .map) (.ofNat entries.length) spelled, ?_, rfl, ?_, ?_⟩
  · refine .map rfl ?_ ?_ ?_ ?_ ?_
    · rw [Varint.ofNat_value hcount, ← hspelled.length_eq, hperm.length_eq]
    · intro s hs
      obtain ⟨e, -, hscalar, hkey, -⟩ := exists_of_forall₂_left hspelled.flip hs
      rw [hkey.tag_eq]
      exact isScalar_valueTag hscalar
    · rw [hbytes, List.map_map] at hascending
      exact hascending
    · intro s hs
      obtain ⟨e, -, -, hkey, -⟩ := exists_of_forall₂_left hspelled.flip hs
      exact hkey.wellFormed
    · intro s hs
      obtain ⟨e, -, -, -, hvalue⟩ := exists_of_forall₂_left hspelled.flip hs
      exact hvalue.wellFormed
  · rw [h, payload_map, Varint.ofNat_bytes hcount, hbytes, hlength, List.flatMap_map]
    rfl
  · rw [value_map]
    refine sameUpTo_map.mpr ⟨sorted, hperm, ?_⟩
    exact List.forall₂_map_left_iff.mpr (hspelled.flip.imp fun s e hs =>
      ⟨hs.2.1.value_eq, hs.2.2.value_eq⟩)

/-- **What is encoded is spelled**, by induction on the nesting. -/
theorem CanonicalTree.Typed.spellable (h : t.Typed validJson) :
    Spellable validJson t := by
  induction h with
  | scalar typed json =>
    intro bytes h hfits
    rw [encode] at h
    exact exists_spelledBy_scalar typed json h hfits
  | list _ ih => exact .list ih
  | struct ids _ ih => exact .struct ids ih
  | map _ _ ihkey ih => exact .map ihkey ih

/-! ## Order -/

theorem CanonicalTree.SameUpTo.valueTag_eq
    (hR : ∀ {a b}, R a b → a.valueTag = b.valueTag) (h : SameUpTo R t u) :
    t.valueTag = u.valueTag := by
  cases t with
  | scalar a =>
    obtain ⟨b, rfl, hab⟩ := h.scalar_left
    exact hR hab
  | list =>
    obtain ⟨_, rfl, -⟩ := h.list_left
    rfl
  | struct =>
    obtain ⟨_, rfl, -⟩ := h.struct_left
    rfl
  | map =>
    obtain ⟨_, rfl, -⟩ := h.map_left
    rfl

theorem CanonicalTree.SameUpTo.isScalarKey (h : SameUpTo R t u) (ht : t.isScalarKey = true) :
    u.isScalarKey = true := by
  cases t with
  | scalar a =>
    obtain ⟨b, rfl, -⟩ := h.scalar_left
    rfl
  | list | struct | map => cases ht

/-- What keeps the payload of a value keeps its tagged bytes. -/
theorem Encodes.of_same (hsame : SameUpTo Eq t u)
    (ih : ∀ {u bytes}, SameUpTo Eq t u → t.encode = .ok bytes → u.encode = .ok bytes)
    {bytes : List UInt8} (h : Encodes t bytes) : Encodes u bytes := by
  obtain ⟨payload, hpayload, rfl⟩ := h
  refine ⟨payload, ih hsame hpayload, ?_⟩
  rw [hsame.valueTag_eq fun hab => congrArg _ hab]

/-- **The order of entries and fields is forgotten**, by induction on the nesting. -/
theorem encode_permuted {bytes : List UInt8} (hsame : SameUpTo Eq t u)
    (h : t.encode = .ok bytes) : u.encode = .ok bytes := by
  induction t generalizing u bytes with
  | scalar value =>
    obtain ⟨b, rfl, rfl⟩ := hsame.scalar_left
    exact h
  | list elements ih =>
    obtain ⟨elements', rfl, hall⟩ := hsame.list_left
    obtain ⟨parts, hparts, rfl⟩ := encode_list_eq_ok.mp h
    refine encode_list_eq_ok.mpr ⟨parts, ?_, by rw [hall.length_eq]⟩
    have hmembers := forall₂_imp_of_mem (S := fun e e' => ∀ part, Encodes e part → Encodes e' part)
      (fun e he e' hee part henc => henc.of_same hee (ih e he)) hall
    exact forall₂_comp (fun e' _ e part hee henc => hee part henc) hmembers.flip hparts
  | struct fields ih =>
    obtain ⟨fields', rfl, fields₁, hperm, hall⟩ := hsame.struct_left
    obtain ⟨hascending, parts, hparts, rfl⟩ := encode_struct_eq_ok.mp h
    have hlength : fields.length = fields'.length := hall.length_eq.trans hperm.length_eq
    have hmembers := forall₂_imp_of_mem (S := fun f f' => f.1 = f'.1 ∧
        ∀ part, FieldEncodes f part → FieldEncodes f' part) (fun f hf f' hff => by
      refine ⟨hff.1, ?_⟩
      rintro part ⟨value, henc, rfl⟩
      exact ⟨value, henc.of_same hff.2 (ih f hf), by rw [hff.1]⟩) hall
    -- the fields of the other struct, in the order of their ids
    have hsort : (SortedList.sortBy Prod.fst fields).Perm fields := List.perm_insertionSort _ _
    obtain ⟨sorted, hsorted, hperm'⟩ := List.perm_comp_forall₂ hsort hmembers
    have hkeys : sorted.map Prod.fst = (SortedList.sortBy Prod.fst fields).map Prod.fst :=
      map_eq_of_forall₂ (fun f f' hff => hff.1.symm) hsorted
    have heq : SortedList.sortBy Prod.fst fields' = sorted :=
      SortedList.sortBy_eq_of_ascending (hperm'.trans hperm) (by rw [hkeys]; exact hascending)
    rw [hlength]
    refine encode_struct_eq_ok.mpr ⟨?_, parts, ?_, rfl⟩
    · rw [heq, hkeys]
      exact hascending
    · rw [heq]
      exact forall₂_comp (fun f' _ f part hff henc => hff.2 part henc) hsorted.flip hparts
  | map entries ih =>
    obtain ⟨entries', rfl, entries₁, hperm, hall⟩ := hsame.map_left
    obtain ⟨encoded, hencoded, hbytes⟩ := encode_map_eq_ok.mp h
    have hmembers := forall₂_imp_of_mem (S := fun e e' => ∀ x, EntryEncodes e x →
        EntryEncodes e' x) (fun e he e' hee x hx => by
      obtain ⟨hscalar, hkey, hvalue⟩ := hx
      exact ⟨hee.1.isScalarKey hscalar, hkey.of_same hee.1 (ih e he).1,
        hvalue.of_same hee.2 (ih e he).2⟩) hall
    have hencoded₁ : List.Forall₂ EntryEncodes entries₁ encoded :=
      forall₂_comp (fun e' _ e x hee hx => hee x hx) hmembers.flip hencoded
    obtain ⟨encoded', hencoded', hperm'⟩ := List.perm_comp_forall₂ hperm.symm hencoded₁
    exact encode_map_eq_ok.mpr ⟨encoded', hencoded', canonicalizeMap_perm hperm'.symm hbytes⟩

/-! ## The canonical encoding -/

/-- What is encoded spells a payload of its tag. -/
theorem CanonicalTree.Typed.exists_spells {bytes : List UInt8}
    (ht : t.Typed validJson) (h : t.encode = .ok bytes) (hfits : bytes.length < 2 ^ 64) :
    ∃ s, Spells validJson t.valueTag bytes s ∧ SameUpTo CanonicalValue.SameScalar s.value t := by
  obtain ⟨s, hs⟩ := ht.spellable bytes h hfits
  have hpayload : s.payload = bytes := Except.ok.inj (hs.encode_eq.symm.trans h)
  exact ⟨s, ⟨hs.wellFormed, hs.tag_eq, hpayload⟩, hs.value_eq⟩

/-- **What is encoded is accepted, whatever the order of its entries and fields, and determines
the value up to that order and the width of its integers.** -/
theorem encode_canonical {t : CanonicalTree} {bytes : List UInt8} (ht : t.Typed validJson)
    (h : t.encode = .ok bytes) (hfits : bytes.length < 2 ^ 64) :
    validateCanonicalPayload validJson t.valueTag bytes = .ok () ∧
      (∀ u, SameUpTo Eq t u → u.encode = .ok bytes) ∧
      ∀ u : CanonicalTree, u.Typed validJson → u.valueTag = t.valueTag → u.encode = .ok bytes →
        SameUpTo CanonicalValue.SameScalar t u := by
  obtain ⟨s, hspells, hvalue⟩ := ht.exists_spells h hfits
  refine ⟨validate_iff.mpr ⟨s, hspells⟩, fun u hsame => encode_permuted hsame h, ?_⟩
  intro u hu htag hu_encode
  obtain ⟨s', hspells', hvalue'⟩ := hu.exists_spells hu_encode hfits
  rw [htag] at hspells'
  obtain rfl : s = s' := hspells.unique hspells'
  exact SameUpTo.trans (R := CanonicalValue.SameScalar) CanonicalValue.SameScalar.trans
    (hvalue.symm CanonicalValue.SameScalar.symm) hvalue'

end

/-- A struct of a map and a list, out of order. -/
def nestedSample : CanonicalTree :=
  .struct [(2, .map [(.scalar (.utf8 ⟨[98], by decide +kernel⟩), .scalar (.int 1 5)),
      (.scalar (.utf8 ⟨[97], by decide +kernel⟩), .scalar .null)]),
    (1, .list [.scalar (.bool true)])]

theorem nestedSample_typed : nestedSample.Typed fun _ => true := by
  have hscalar : ∀ v : CanonicalValue, v.Typed → (CanonicalTree.scalar v).Typed fun _ => true :=
    fun v hv => .scalar hv fun _ _ => rfl
  refine .struct (by decide) ?_
  simp only [List.forall_mem_cons, List.not_mem_nil, false_imp_iff, implies_true, and_true]
  refine ⟨.map ?_ ?_, .list ?_⟩ <;>
    simp only [List.forall_mem_cons, List.not_mem_nil, false_imp_iff, implies_true, and_true]
  · exact ⟨hscalar _ trivial, hscalar _ trivial⟩
  · exact ⟨hscalar _ trivial, hscalar _ trivial⟩
  · exact hscalar _ trivial

theorem nestedSample_encode :
    nestedSample.encode = .ok [2, 1, 16, 1, 2, 2, 18, 2, 12, 1, 97, 0, 12, 1, 98, 3, 5, 0, 0, 0, 0, 0,
      0, 0] := by
  rfl

theorem nestedSample_canonical :
    nestedSample.Typed (fun _ => true) ∧
      validateCanonicalPayload (fun _ => true) .struct
        [2, 1, 16, 1, 2, 2, 18, 2, 12, 1, 97, 0, 12, 1, 98, 3, 5, 0, 0, 0, 0, 0, 0, 0] = .ok () :=
  ⟨nestedSample_typed, (encode_canonical nestedSample_typed nestedSample_encode (by decide)).1⟩

end Cove

import Cove.Core.CanonicalEncoding

/-!
# Payloads of one value

Two values are equal exactly when their tags and payloads are (Spec §6.6, §16), so every value
should have one payload. The validator takes a varint in any spelling, and that is the one
choice it leaves: payloads of the same value are the same bytes as soon as their varints are
equally long.

- `scalarValue_inj`: a scalar payload is determined by its value.
- `Alike`: varints of the same length in the same places.
- `eq_of_alike`: **alike spellings of one value are the same**.
- `KeysDistinct`, `KeysAlike`: no two entries of a map have the same key, and the keys of a map
  that are the same value are spelled alike; one holds when the other does.
- `accepted_unique_iff`: both, for any two accepted payloads.
-/

namespace Cove

open Ieee754 (F32 F64)
open Checked Spelling CanonicalTree

/-! ## Scalars -/

variable {w : Nat} {s t : Spelling}

theorem signed_range {n : Nat} (hw : 0 < w) (h : n < 256 ^ w) :
    -(256 ^ w / 2 : Nat) ≤ LittleEndian.signed w n ∧
      LittleEndian.signed w n < (256 ^ w / 2 : Nat) := by
  obtain ⟨v, rfl⟩ : ∃ v, w = v + 1 := ⟨w - 1, by omega⟩
  have heven : (256 : Nat) ^ (v + 1) = 2 * (256 ^ (v + 1) / 2) := by
    rw [Nat.mul_div_cancel']
    exact Dvd.dvd.trans (by decide) (Nat.pow_dvd_pow 256 (Nat.le_add_left 1 v))
  have hcast : (256 : Int) ^ (v + 1) = ((256 ^ (v + 1) : Nat) : Int) := by norm_cast
  unfold LittleEndian.signed
  rw [hcast]
  generalize (256 : Nat) ^ (v + 1) = p at *
  split <;> omega

variable {bytes : List UInt8} {tag tag' : TagVarint} {count count' : Varint}

/-- The bytes of a signed number, read and written again. -/
theorem signedLe_signed (h : bytes.length = w) :
    signedLe w (LittleEndian.signed w (LittleEndian.ofLe bytes)) = bytes := by
  subst h
  unfold signedLe
  rw [LittleEndian.unsigned_signed (LittleEndian.ofLe_lt bytes), LittleEndian.toLe_ofLe]

theorem toLe_ofLe_of_length (h : bytes.length = w) :
    LittleEndian.toLe w (LittleEndian.ofLe bytes) = bytes := by
  subst h
  exact LittleEndian.toLe_ofLe bytes

/-- The bits of a word, read and written again. -/
theorem toLe_ofNat_ofLe {n : Nat} (hn : n = 8 * w) (h : bytes.length = w) :
    LittleEndian.toLe w (BitVec.ofNat n (LittleEndian.ofLe bytes)).toNat = bytes := by
  subst hn h
  have hlt : LittleEndian.ofLe bytes < 2 ^ (8 * bytes.length) := by
    rw [Nat.pow_mul]
    exact LittleEndian.ofLe_lt bytes
  rw [BitVec.toNat_ofNat, Nat.mod_eq_of_lt hlt, LittleEndian.toLe_ofLe]

/-- A payload of fixed width is written again from its value. -/
theorem encode_scalarValue {tag : ValueTag} (h : tag.fixedWidth = some bytes.length) :
    (scalarValue tag bytes).valueTag = tag ∧ (scalarValue tag bytes).encode = .ok bytes := by
  cases tag with
  | null | boolFalse | boolTrue =>
    obtain rfl : bytes = [] := List.length_eq_zero_iff.mp (Option.some.inj h).symm
    exact ⟨rfl, rfl⟩
  | int64 =>
    have hlen : bytes.length = 8 := (Option.some.inj h).symm
    have hlt : LittleEndian.ofLe bytes < 256 ^ 8 := hlen ▸ LittleEndian.ofLe_lt bytes
    refine ⟨rfl, (encodeI64Width_eq_ok (w := 8) (by simp [IntegerWidth])).mpr
      ⟨?_, (signedLe_signed hlen).symm⟩⟩
    have hrange := signed_range (w := 8) (by decide) hlt
    norm_num at hrange ⊢
    exact hrange
  | uint64 =>
    have hlen : bytes.length = 8 := (Option.some.inj h).symm
    have hlt : LittleEndian.ofLe bytes < 256 ^ 8 := hlen ▸ LittleEndian.ofLe_lt bytes
    refine ⟨rfl, (encodeU64Width_eq_ok (w := 8) (by simp [IntegerWidth])).mpr
      ⟨?_, (toLe_ofLe_of_length hlen).symm⟩⟩
    norm_num at hlt ⊢
    exact hlt
  | float32Bits =>
    have hlen : bytes.length = 4 := (Option.some.inj h).symm
    have hbits := toLe_ofNat_ofLe (n := 32) (w := 4) rfl hlen
    exact ⟨rfl, congrArg Except.ok hbits⟩
  | float64Bits =>
    have hlen : bytes.length = 8 := (Option.some.inj h).symm
    have hbits := toLe_ofNat_ofLe (n := 64) (w := 8) rfl hlen
    exact ⟨rfl, congrArg Except.ok hbits⟩
  | decimal64 | timestampMicros | timestampNanos | dateDays | decimal128 =>
    exact ⟨rfl, congrArg Except.ok (signedLe_signed (Option.some.inj h).symm)⟩
  | uuid =>
    have hlen : bytes.length = 16 := (Option.some.inj h).symm
    have hvalue : scalarValue .uuid bytes = .uuid ⟨bytes, hlen⟩ := dif_pos hlen
    rw [hvalue]
    exact ⟨rfl, rfl⟩
  | utf8 | binary | json | list | struct | map => cases h

/-- A payload with its length in front is written again from its value. -/
theorem encode_scalarValue_text {validJson : List UInt8 → Bool} {tag : ValueTag}
    {body : List UInt8} (hjson : ∀ bytes, validJson bytes = true → isUtf8 bytes = true)
    (h : tag.ValidText validJson body) :
    (scalarValue tag body).valueTag = tag ∧
      (scalarValue tag body).encode = .ok (lengthPrefixed body) := by
  have hstr : ∀ hvalid : isUtf8 body = true, strFromUtf8 body = some ⟨body, hvalid⟩ :=
    fun hvalid => dif_pos hvalid
  cases tag with
  | utf8 =>
    have hvalue : scalarValue .utf8 body = .utf8 ⟨body, h⟩ := by
      show ((strFromUtf8 body).map CanonicalValue.utf8).getD .null = _
      rw [hstr h]
      rfl
    rw [hvalue]
    exact ⟨rfl, rfl⟩
  | json =>
    have hvalue : scalarValue .json body = .json ⟨body, hjson body h⟩ := by
      show ((strFromUtf8 body).map CanonicalValue.json).getD (.bytes body) = _
      rw [hstr (hjson body h)]
      rfl
    rw [hvalue]
    exact ⟨rfl, rfl⟩
  | binary => exact ⟨rfl, rfl⟩
  | _ => exact h.elim

/-- A value that was read has the widest integers already. -/
theorem widen_scalarValue (tag : ValueTag) (body : List UInt8) :
    (scalarValue tag body).widen = scalarValue tag body := by
  cases tag
  case utf8 =>
    show CanonicalValue.widen (((strFromUtf8 body).map CanonicalValue.utf8).getD .null) =
      ((strFromUtf8 body).map CanonicalValue.utf8).getD .null
    cases strFromUtf8 body <;> rfl
  case json =>
    show CanonicalValue.widen (((strFromUtf8 body).map CanonicalValue.json).getD (.bytes body)) =
      ((strFromUtf8 body).map CanonicalValue.json).getD (.bytes body)
    cases strFromUtf8 body <;> rfl
  case uuid =>
    by_cases h : body.length = 16
    · rw [show scalarValue .uuid body = .uuid ⟨body, h⟩ from dif_pos h]
      rfl
    · rw [show scalarValue .uuid body = .null from dif_neg h]
      rfl
  all_goals rfl

variable {bytes' : List UInt8}

/-- Scalars read from their payloads are the same only if their tags are, and so are what they
are written as. -/
theorem scalarValue_inj {tag tag' : ValueTag}
    (hsame : (scalarValue tag bytes).SameScalar (scalarValue tag' bytes'))
    (htag : (scalarValue tag bytes).valueTag = tag)
    (htag' : (scalarValue tag' bytes').valueTag = tag') :
    tag = tag' ∧ (scalarValue tag bytes).encode = (scalarValue tag' bytes').encode := by
  unfold CanonicalValue.SameScalar at hsame
  rw [widen_scalarValue, widen_scalarValue] at hsame
  refine ⟨?_, congrArg _ hsame⟩
  rw [← htag, ← htag', hsame]

/-! ## Alike spellings -/

namespace Spelling

/-- Two spellings stand for the same value. -/
def SameValue (s t : Spelling) : Prop := SameUpTo CanonicalValue.SameScalar s.value t.value

theorem SameValue.symm (h : s.SameValue t) : t.SameValue s :=
  SameUpTo.symm CanonicalValue.SameScalar.symm h

/-- Varints of the same length in the same places. The entries of two maps are in the same place
when their keys are the same value. -/
inductive Alike : Spelling → Spelling → Prop
  | fixed {tag tag' : TagVarint} {payload payload' : List UInt8}
      (tags : tag.varint.bytes.length = tag'.varint.bytes.length) :
      Alike (.fixed tag payload) (.fixed tag' payload')
  | text {tag tag' : TagVarint} {len len' : Varint} {body body' : List UInt8}
      (tags : tag.varint.bytes.length = tag'.varint.bytes.length)
      (lens : len.bytes.length = len'.bytes.length) :
      Alike (.text tag len body) (.text tag' len' body')
  | list {tag tag' : TagVarint} {count count' : Varint} {elements elements' : List Spelling}
      (tags : tag.varint.bytes.length = tag'.varint.bytes.length)
      (counts : count.bytes.length = count'.bytes.length)
      (each : ∀ p ∈ elements.zip elements', Alike p.1 p.2) :
      Alike (.list tag count elements) (.list tag' count' elements')
  | struct {tag tag' : TagVarint} {count count' : Varint}
      {fields fields' : List (Varint × Spelling)}
      (tags : tag.varint.bytes.length = tag'.varint.bytes.length)
      (counts : count.bytes.length = count'.bytes.length)
      (ids : ∀ p ∈ fields.zip fields', p.1.1.bytes.length = p.2.1.bytes.length)
      (each : ∀ p ∈ fields.zip fields', Alike p.1.2 p.2.2) :
      Alike (.struct tag count fields) (.struct tag' count' fields')
  | map {tag tag' : TagVarint} {count count' : Varint} {entries entries' : List (Spelling × Spelling)}
      (tags : tag.varint.bytes.length = tag'.varint.bytes.length)
      (counts : count.bytes.length = count'.bytes.length)
      (keys : ∀ e ∈ entries, ∀ e' ∈ entries', e.1.SameValue e'.1 → Alike e.1 e'.1)
      (each : ∀ e ∈ entries, ∀ e' ∈ entries', e.1.SameValue e'.1 → Alike e.2 e'.2) :
      Alike (.map tag count entries) (.map tag' count' entries')

end Spelling

/-- Equally long spellings of one tag are the same. -/
theorem TagVarint.eq_of_length_eq {v w : TagVarint} (htag : v.tag = w.tag)
    (hlen : v.varint.bytes.length = w.varint.bytes.length) : v = w :=
  ext_varint (Varint.eq_of_length_eq (by rw [v.code, w.code, htag]) hlen)

theorem eq_of_mem_zip_self {α : Type} {l : List α} {a b : α} (h : (a, b) ∈ l.zip l) : a = b := by
  have hall : List.Forall₂ (· = ·) l l := List.forall₂_same.mpr fun _ _ => rfl
  exact (List.forall₂_iff_zip.mp hall).2 h

/-- Lists that agree place by place. -/
theorem eq_of_zip {α : Type} {as bs : List α} (hlen : as.length = bs.length)
    (h : ∀ p ∈ as.zip bs, p.1 = p.2) : as = bs := by
  have hall : List.Forall₂ (· = ·) as bs :=
    List.forall₂_iff_zip.mpr ⟨hlen, fun hab => h _ hab⟩
  rwa [List.forall₂_eq_eq_eq] at hall

variable {entries entries' : List (Spelling × Spelling)}

section

variable {validJson : List UInt8 → Bool}
  (hjson : ∀ bytes, validJson bytes = true → isUtf8 bytes = true)

/-- What the induction shows of two spellings. -/
def EqOfSame (validJson : List UInt8 → Bool) (s t : Spelling) : Prop :=
  s.WellFormed validJson → t.WellFormed validJson → s.SameValue t → s = t

theorem eq_of_alike_fixed (tags : tag.varint.bytes.length = tag'.varint.bytes.length) :
    EqOfSame validJson (.fixed tag bytes) (.fixed tag' bytes') := by
  intro hs ht hsame
  obtain ⟨width⟩ := hs
  obtain ⟨width'⟩ := ht
  unfold Spelling.SameValue at hsame
  rw [value_fixed, value_fixed, sameUpTo_scalar] at hsame
  obtain ⟨hkind, hencode⟩ := encode_scalarValue width
  obtain ⟨hkind', hencode'⟩ := encode_scalarValue width'
  obtain ⟨htag, hbytes⟩ := scalarValue_inj hsame hkind hkind'
  rw [hencode, hencode'] at hbytes
  rw [TagVarint.eq_of_length_eq htag tags, Except.ok.inj hbytes]

include hjson in
theorem eq_of_alike_text {len len' : Varint} {body body' : List UInt8}
    (tags : tag.varint.bytes.length = tag'.varint.bytes.length)
    (lens : len.bytes.length = len'.bytes.length) :
    EqOfSame validJson (.text tag len body) (.text tag' len' body') := by
  intro hs ht hsame
  obtain _ | ⟨length, -, valid⟩ := hs
  obtain _ | ⟨length', -, valid'⟩ := ht
  unfold Spelling.SameValue at hsame
  rw [value_text, value_text, sameUpTo_scalar] at hsame
  obtain ⟨hkind, hencode⟩ := encode_scalarValue_text hjson valid
  obtain ⟨hkind', hencode'⟩ := encode_scalarValue_text hjson valid'
  obtain ⟨htag, hbytes⟩ := scalarValue_inj hsame hkind hkind'
  rw [hencode, hencode'] at hbytes
  obtain rfl := lengthPrefixed_injective (Except.ok.inj hbytes)
  rw [TagVarint.eq_of_length_eq htag tags,
    Varint.eq_of_length_eq (length.trans length'.symm) lens]

theorem eq_of_alike_list {elements elements' : List Spelling}
    (tags : tag.varint.bytes.length = tag'.varint.bytes.length)
    (counts : count.bytes.length = count'.bytes.length)
    (ih : ∀ p ∈ elements.zip elements', EqOfSame validJson p.1 p.2) :
    EqOfSame validJson (.list tag count elements) (.list tag' count' elements') := by
  intro hs ht hsame
  cases hs with | list kind length each =>
  cases ht with | list kind' length' each' =>
  unfold Spelling.SameValue at hsame
  rw [value_list, value_list, sameUpTo_list, List.forall₂_map_left_iff,
    List.forall₂_map_right_iff, List.forall₂_iff_zip] at hsame
  obtain ⟨hlen, hmembers⟩ := hsame
  obtain rfl : elements = elements' := by
    refine eq_of_zip hlen fun p hp => ?_
    obtain ⟨he, he'⟩ := List.of_mem_zip (a := p.1) (b := p.2) hp
    exact ih p hp (each _ he) (each' _ he') (hmembers hp)
  rw [TagVarint.eq_of_length_eq (kind.trans kind'.symm) tags,
    Varint.eq_of_length_eq (length.trans length'.symm) counts]

/-- Fields that are sorted by their ids are the same up to order only if they are in order. -/
theorem forall₂_of_sorted {fields fields' : List (Nat × CanonicalTree)}
    {R : CanonicalValue → CanonicalValue → Prop} (h : SameUpTo R (.struct fields) (.struct fields'))
    (hs : (fields.map Prod.fst).Pairwise (· < ·)) (ht : (fields'.map Prod.fst).Pairwise (· < ·)) :
    List.Forall₂ (fun f g => f.1 = g.1 ∧ SameUpTo R f.2 g.2) fields fields' := by
  obtain ⟨fields₁, hperm, hall⟩ := sameUpTo_struct.mp h
  have hkeys : fields₁.map Prod.fst = fields.map Prod.fst :=
    map_eq_of_forall₂ (fun f g hfg => hfg.1.symm) hall
  have hsorted : SortedList.sortBy Prod.fst fields' = fields₁ :=
    SortedList.sortBy_eq_of_ascending hperm (by rw [hkeys]; exact hs)
  rw [SortedList.sortBy_eq_of_ascending (List.Perm.refl _) ht] at hsorted
  rw [hsorted]
  exact hall

theorem eq_of_alike_struct {fields fields' : List (Varint × Spelling)}
    (tags : tag.varint.bytes.length = tag'.varint.bytes.length)
    (counts : count.bytes.length = count'.bytes.length)
    (ids : ∀ p ∈ fields.zip fields', p.1.1.bytes.length = p.2.1.bytes.length)
    (ih : ∀ p ∈ fields.zip fields', EqOfSame validJson p.1.2 p.2.2) :
    EqOfSame validJson (.struct tag count fields) (.struct tag' count' fields') := by
  intro hs ht hsame
  cases hs with | struct kind length ascending each =>
  cases ht with | struct kind' length' ascending' each' =>
  unfold Spelling.SameValue at hsame
  rw [value_struct, value_struct] at hsame
  have hall := forall₂_of_sorted hsame (by rw [List.map_map]; exact ascending)
    (by rw [List.map_map]; exact ascending')
  rw [List.forall₂_map_left_iff, List.forall₂_map_right_iff, List.forall₂_iff_zip] at hall
  obtain ⟨hlen, hmembers⟩ := hall
  obtain rfl : fields = fields' := by
    refine eq_of_zip hlen fun p hp => ?_
    obtain ⟨hf, hf'⟩ := List.of_mem_zip (a := p.1) (b := p.2) hp
    obtain ⟨hid, hvalue⟩ := hmembers hp
    exact Prod.ext (Varint.eq_of_length_eq hid (ids p hp))
      (ih p hp (each _ hf) (each' _ hf') hvalue)
  rw [TagVarint.eq_of_length_eq (kind.trans kind'.symm) tags,
    Varint.eq_of_length_eq (length.trans length'.symm) counts]

/-- Entries that are the same up to order, as spellings. -/
theorem exists_matching
    (h : Spelling.SameValue (.map tag count entries) (.map tag' count' entries')) :
    ∃ matched : List (Spelling × Spelling), matched.Perm entries' ∧
      List.Forall₂ (fun e e' => e.1.SameValue e'.1 ∧ e.2.SameValue e'.2) entries matched := by
  unfold Spelling.SameValue at h
  rw [value_map, value_map] at h
  obtain ⟨values, hperm, hall⟩ := sameUpTo_map.mp h
  have hself : List.Forall₂ (fun x (e : Spelling × Spelling) => x = (e.1.value, e.2.value))
      (entries'.map fun e => (e.1.value, e.2.value)) entries' :=
    List.forall₂_map_left_iff.mpr (List.forall₂_same.mpr fun e _ => rfl)
  obtain ⟨matched, hmatched, hperm'⟩ := List.perm_comp_forall₂ hperm hself
  refine ⟨matched, hperm', ?_⟩
  rw [List.forall₂_map_left_iff] at hall
  refine forall₂_comp ?_ hall hmatched
  rintro e - x e' hsame rfl
  exact hsame

theorem eq_of_alike_map (tags : tag.varint.bytes.length = tag'.varint.bytes.length)
    (counts : count.bytes.length = count'.bytes.length)
    (ihkey : ∀ e ∈ entries, ∀ e' ∈ entries', e.1.SameValue e'.1 → EqOfSame validJson e.1 e'.1)
    (ih : ∀ e ∈ entries, ∀ e' ∈ entries', e.1.SameValue e'.1 → EqOfSame validJson e.2 e'.2) :
    EqOfSame validJson (.map tag count entries) (.map tag' count' entries') := by
  intro hs ht hsame
  cases hs with | map kind length scalar ascending keys each =>
  cases ht with | map kind' length' scalar' ascending' keys' each' =>
  obtain ⟨matched, hperm, hall⟩ := exists_matching hsame
  obtain ⟨hlen, hmembers⟩ := List.forall₂_iff_zip.mp hall
  obtain rfl : entries = matched := by
    refine eq_of_zip hlen fun p hp => ?_
    obtain ⟨he, hmem⟩ := List.of_mem_zip (a := p.1) (b := p.2) hp
    have he' := hperm.subset hmem
    obtain ⟨hkey, hvalue⟩ := hmembers hp
    exact Prod.ext (ihkey _ he _ he' hkey (keys _ he) (keys' _ he') hkey)
      (ih _ he _ he' hkey (each _ he) (each' _ he') hvalue)
  -- both are in the order of their keys
  obtain rfl : entries = entries' := by
    refine List.Perm.eq_of_pairwise (fun a b _ _ hab hba => ?_) (List.pairwise_map.mp ascending)
      (List.pairwise_map.mp ascending') hperm
    exact absurd (hab.trans hba) (lt_irrefl _)
  rw [TagVarint.eq_of_length_eq (kind.trans kind'.symm) tags,
    Varint.eq_of_length_eq (length.trans length'.symm) counts]

include hjson in
/-- **Alike spellings of one value are the same**, by induction on the places. -/
theorem eq_of_alike (h : Alike s t) : EqOfSame validJson s t := by
  induction h with
  | fixed tags => exact eq_of_alike_fixed tags
  | text tags lens => exact eq_of_alike_text hjson tags lens
  | list tags counts _ ih => exact eq_of_alike_list tags counts ih
  | struct tags counts ids _ ih => exact eq_of_alike_struct tags counts ids ih
  | map tags counts _ _ ihkey ih => exact eq_of_alike_map tags counts ihkey ih

end

/-! ## Keys -/

namespace Spelling

/-- Any two keys of a map inside, the first before the second. -/
inductive EachKeys (Q : Spelling → Spelling → Prop) : Spelling → Prop
  | fixed {tag : TagVarint} {payload : List UInt8} : EachKeys Q (.fixed tag payload)
  | text {tag : TagVarint} {len : Varint} {body : List UInt8} : EachKeys Q (.text tag len body)
  | list {tag : TagVarint} {count : Varint} {elements : List Spelling}
      (each : ∀ e ∈ elements, EachKeys Q e) : EachKeys Q (.list tag count elements)
  | struct {tag : TagVarint} {count : Varint} {fields : List (Varint × Spelling)}
      (each : ∀ f ∈ fields, EachKeys Q f.2) : EachKeys Q (.struct tag count fields)
  | map {tag : TagVarint} {count : Varint} {entries : List (Spelling × Spelling)}
      (pairs : entries.Pairwise fun e e' => Q e.1 e'.1) (keys : ∀ e ∈ entries, EachKeys Q e.1)
      (each : ∀ e ∈ entries, EachKeys Q e.2) : EachKeys Q (.map tag count entries)

/-- No two entries of a map have the same logical key. -/
def KeysDistinct (s : Spelling) : Prop := s.EachKeys fun key key' => ¬ key.SameValue key'

/-- Keys of a map that are the same value have varints of the same length. -/
def KeysAlike (s : Spelling) : Prop :=
  s.EachKeys fun key key' => key.SameValue key' → Alike key key'

end Spelling

section

variable {validJson : List UInt8 → Bool}
  (hjson : ∀ bytes, validJson bytes = true → isUtf8 bytes = true)

/-- A property of the keys of a map may use that they are well formed and ascend. -/
theorem Spelling.EachKeys.imp {Q Q' : Spelling → Spelling → Prop}
    (hs : s.WellFormed validJson) (h : s.EachKeys Q)
    (hQ : ∀ key key' : Spelling, key.WellFormed validJson → key'.WellFormed validJson →
      key.tagged < key'.tagged → Q key key' → Q' key key') : s.EachKeys Q' := by
  induction h with
  | fixed => exact .fixed
  | text => exact .text
  | list _ ih =>
    cases hs with | list _ _ wf => exact .list fun e he => ih e he (wf e he)
  | struct _ ih =>
    cases hs with | struct _ _ _ wf => exact .struct fun f hf => ih f hf (wf f hf)
  | map pairs _ _ ihkey ih =>
    cases hs with
    | map _ _ _ ascending keys wf =>
      refine .map ?_ (fun e he => ihkey e he (keys e he)) fun e he => ih e he (wf e he)
      have hboth := (List.pairwise_map.mp ascending).and pairs
      refine hboth.imp_of_mem fun he he' hpair => ?_
      exact hQ _ _ (keys _ he) (keys _ he') hpair.1 hpair.2

include hjson in
/-- Keys are distinct exactly when those of the same value are alike. -/
theorem keysDistinct_iff (hs : s.WellFormed validJson) :
    s.KeysDistinct ↔ s.KeysAlike := by
  constructor
  · intro h
    exact h.imp hs fun key key' _ _ _ hne hsame => absurd hsame hne
  · intro h
    refine h.imp hs fun key key' hkey hkey' hlt halike hsame => ?_
    rw [eq_of_alike hjson (halike hsame) hkey hkey' hsame] at hlt
    exact absurd hlt (lt_irrefl _)

/-- A spelling with distinct keys is alike to itself. -/
theorem alike_self (h : s.KeysDistinct) : Alike s s := by
  unfold KeysDistinct at h
  induction h with
  | fixed => exact .fixed rfl
  | text => exact .text rfl rfl
  | @list tag count elements _ ih =>
    refine .list rfl rfl ?_
    rintro ⟨e, e'⟩ hp
    obtain rfl := eq_of_mem_zip_self hp
    exact ih e (List.of_mem_zip hp).1
  | @struct tag count fields _ ih =>
    refine .struct rfl rfl ?_ ?_
    · rintro ⟨f, f'⟩ hp
      obtain rfl := eq_of_mem_zip_self hp
      rfl
    · rintro ⟨f, f'⟩ hp
      obtain rfl := eq_of_mem_zip_self hp
      exact ih f (List.of_mem_zip hp).1
  | @map tag count entries pairs _ _ ihkey ih =>
    have hdistinct : ∀ ⦃e⦄, e ∈ entries → ∀ ⦃e'⦄, e' ∈ entries → e.1.SameValue e'.1 → e = e' := by
      refine List.Pairwise.forall_of_forall_of_flip (fun e _ _ => rfl) ?_ ?_
      · exact pairs.imp fun hne hsame => absurd hsame hne
      · exact pairs.imp fun hne hsame => absurd hsame.symm hne
    refine .map rfl rfl ?_ ?_
    · intro e he e' he' hsame
      obtain rfl := hdistinct he he' hsame
      exact ihkey e he
    · intro e he e' he' hsame
      obtain rfl := hdistinct he he' hsame
      exact ih e he

include hjson in
/-- **Accepted payloads of one value are the same bytes, and the keys of every map in them are
distinct, exactly when their varints are equally long wherever they stand for the same thing.** -/
theorem accepted_unique_iff {tag : ValueTag} {a b : List UInt8}
    (ha : validateCanonicalPayload validJson tag a = .ok ())
    (hb : validateCanonicalPayload validJson tag b = .ok ()) :
    ∃ s t, Spells validJson tag a s ∧ Spells validJson tag b t ∧
      ((s.SameValue t → a = b) ∧ s.KeysDistinct ∧ t.KeysDistinct ↔
        (s.SameValue t → Alike s t) ∧ s.KeysAlike ∧ t.KeysAlike) := by
  obtain ⟨s, hs⟩ := validate_iff.mp ha
  obtain ⟨t, ht⟩ := validate_iff.mp hb
  refine ⟨s, t, hs, ht, ?_⟩
  rw [← keysDistinct_iff hjson hs.wellFormed, ← keysDistinct_iff hjson ht.wellFormed]
  refine and_congr_left fun hkeys => imp_congr_right fun hsame => ?_
  constructor
  · rintro rfl
    obtain rfl := hs.unique ht
    exact alike_self hkeys.1
  · intro halike
    obtain rfl := eq_of_alike hjson halike hs.wellFormed ht.wellFormed hsame
    exact hs.payload_eq.symm.trans ht.payload_eq

end

/-- The number one in two bytes. -/
def overlongOne : Varint := ⟨[129, 0], 1, by rfl⟩

/-- A text, and the same text behind an overlong length. -/
theorem overlong_length_accepted :
    validateCanonicalPayload (fun _ => false) .utf8 [1, 107] = .ok () ∧
      validateCanonicalPayload (fun _ => false) .utf8 [129, 0, 107] = .ok () := by
  decide +kernel

theorem overlong_payloads_unequal :
    ∃ s t, Spells (fun _ => false) .utf8 [1, 107] s ∧ Spells (fun _ => false) .utf8 [129, 0, 107] t ∧
      ((s.SameValue t → ([1, 107] : List UInt8) = [129, 0, 107]) ∧ s.KeysDistinct ∧ t.KeysDistinct ↔
        (s.SameValue t → Alike s t) ∧ s.KeysAlike ∧ t.KeysAlike) :=
  accepted_unique_iff (fun _ h => absurd h (by decide)) overlong_length_accepted.1
    overlong_length_accepted.2

/-- Two payloads of one text are both accepted, and so is a map with one key twice. -/
theorem overlong_varints_refuted :
    ¬ ((∀ (validJson : List UInt8 → Bool) (tag : ValueTag) (a b : List UInt8) (s t : Spelling),
          Spells validJson tag a s → Spells validJson tag b t → s.SameValue t → a = b)) ∧
      ¬ ∀ (validJson : List UInt8 → Bool) (tag : ValueTag) (a : List UInt8) (s : Spelling),
          Spells validJson tag a s → s.KeysDistinct := by
  have htext : ∀ len : Varint, len.value = 1 → len.bytes.length < 10 →
      Spelling.WellFormed (fun _ => false) (.text (.shortest .utf8) len [107]) := by
    intro len hlen hshort
    refine .text hlen ?_ (show isUtf8 [107] = true by decide +kernel)
    rw [List.length_singleton]
    omega
  constructor
  · intro h
    have heq := h (fun _ => false) .utf8 _ _ (.text (.shortest .utf8) (.ofNat 1) [107])
      (.text (.shortest .utf8) overlongOne [107])
      ⟨htext _ rfl (by decide), rfl, rfl⟩ ⟨htext _ rfl (by decide), rfl, rfl⟩ ?_
    · revert heq
      decide
    · unfold Spelling.SameValue
      rw [value_text, value_text]
      exact sameUpTo_scalar.mpr rfl
  · intro h
    have hdistinct := h (fun _ => false) .map _ (.map (.shortest .map) (.ofNat 2)
      [(.text (.shortest .utf8) (.ofNat 1) [107], .fixed (.shortest .null) []),
        (.text (.shortest .utf8) overlongOne [107], .fixed (.shortest .null) [])]) ⟨?_, rfl, rfl⟩
    · cases hdistinct with
      | map pairs _ _ =>
        refine (List.pairwise_cons.mp pairs).1 _ List.mem_cons_self ?_
        unfold Spelling.SameValue
        rw [value_text, value_text]
        exact sameUpTo_scalar.mpr rfl
    · have hnull : Spelling.WellFormed (fun _ => false) (.fixed (.shortest .null) []) := .fixed rfl
      refine .map rfl rfl (by decide) (by decide +kernel) ?_ ?_
      · simp only [List.forall_mem_cons, List.not_mem_nil, false_imp_iff, implies_true, and_true]
        exact ⟨htext _ rfl (by decide), htext _ rfl (by decide)⟩
      · simp only [List.forall_mem_cons, List.not_mem_nil, false_imp_iff, implies_true, and_true]
        exact ⟨hnull, hnull⟩

end Cove

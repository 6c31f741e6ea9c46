import Mathlib.Data.List.Basic

/-!
# UTF-8 in pieces

Whether bytes are UTF-8, and what that says of pieces that stand one after the other.

- `Valid`: the bytes are the encoding of some characters.
- `isContinuation`: the bytes that no character starts with.
- `valid_append_iff`: two pieces, the second not starting inside a character.
- `valid_flatten_iff`: **the pieces are valid one by one exactly when together they are and none
  starts inside a character**.
- `valid_of_ascii`: bytes below 128.
-/

namespace Utf8

/-- The bytes of characters. -/
def encode (cs : List Char) : List UInt8 := cs.flatMap String.utf8EncodeChar

/-- The bytes are UTF-8. -/
def Valid (bytes : List UInt8) : Prop := ∃ cs, encode cs = bytes

variable {bytes : List UInt8}

/-- The bytes are UTF-8 as the byte arrays of strings are. -/
theorem valid_iff : Valid bytes ↔ bytes.toByteArray.validateUTF8 = true := by
  rw [ByteArray.validateUTF8_eq_true_iff]
  constructor
  · rintro ⟨cs, rfl⟩
    exact ⟨cs, rfl⟩
  · rintro ⟨cs, hcs⟩
    have hdata := congrArg (fun bytes => bytes.data.toList) hcs
    refine ⟨cs, ?_⟩
    simpa [List.utf8Encode, encode] using hdata.symm

instance (bytes : List UInt8) : Decidable (Valid bytes) := decidable_of_iff _ valid_iff.symm

/-- `byte & 0b1100_0000 == 0b1000_0000`. -/
def isContinuation (byte : UInt8) : Bool := byte &&& 0b11000000 == 0b10000000

/-- The bytes are empty or start with the first byte of a character. -/
def StartsCharacter (bytes : List UInt8) : Prop :=
  ∀ byte ∈ bytes.head?, isContinuation byte = false

/-! ## Characters -/

theorem isContinuation_tail (n : Nat) : isContinuation (UInt8.ofNat (n % 0x40 + 0x80)) = true := by
  have h : ∀ k : Fin 0x40, isContinuation (UInt8.ofNat (k + 0x80)) = true := by decide
  exact h ⟨n % 0x40, Nat.mod_lt _ (by decide)⟩

/-- The bytes of a character: one that is no continuation, and continuations. -/
theorem encodeChar_cases (c : Char) : ∃ first rest, String.utf8EncodeChar c = first :: rest ∧
    isContinuation first = false ∧ ∀ byte ∈ rest, isContinuation byte = true := by
  have hone : ∀ k : Fin 0x80, isContinuation (UInt8.ofNat k) = false := by decide
  have htwo : ∀ k : Fin 0x20, isContinuation (UInt8.ofNat (k + 0xc0)) = false := by decide
  have hthree : ∀ k : Fin 0x10, isContinuation (UInt8.ofNat (k + 0xe0)) = false := by decide
  have hfour : ∀ k : Fin 0x08, isContinuation (UInt8.ofNat (k + 0xf0)) = false := by decide
  unfold String.utf8EncodeChar
  dsimp only
  split
  · next h => exact ⟨_, _, rfl, hone ⟨_, Nat.lt_succ_of_le h⟩, nofun⟩
  split
  · exact ⟨_, _, rfl, htwo ⟨_, Nat.mod_lt _ (by decide)⟩,
      List.forall_mem_singleton.mpr (isContinuation_tail _)⟩
  split
  · exact ⟨_, _, rfl, hthree ⟨_, Nat.mod_lt _ (by decide)⟩,
      List.forall_mem_cons.mpr ⟨isContinuation_tail _,
        List.forall_mem_singleton.mpr (isContinuation_tail _)⟩⟩
  · exact ⟨_, _, rfl, hfour ⟨_, Nat.mod_lt _ (by decide)⟩,
      List.forall_mem_cons.mpr ⟨isContinuation_tail _,
        List.forall_mem_cons.mpr ⟨isContinuation_tail _,
          List.forall_mem_singleton.mpr (isContinuation_tail _)⟩⟩⟩

theorem encodeChar_ascii {byte : UInt8} (h : byte < 128) :
    String.utf8EncodeChar (Char.ofNat byte.toNat) = [byte] := by
  have hall : ∀ k : Fin 128, String.utf8EncodeChar (Char.ofNat k) = [UInt8.ofNat k] := by decide
  have hbyte := hall ⟨byte.toNat, h⟩
  rwa [UInt8.ofNat_toNat] at hbyte

/-! ## Pieces -/

theorem Valid.nil : Valid [] := ⟨[], rfl⟩

variable {a b : List UInt8} {pieces : List (List UInt8)}

theorem Valid.append (ha : Valid a) (hb : Valid b) : Valid (a ++ b) := by
  obtain ⟨cs, rfl⟩ := ha
  obtain ⟨ds, rfl⟩ := hb
  exact ⟨cs ++ ds, List.flatMap_append⟩

theorem Valid.startsCharacter (h : Valid bytes) : StartsCharacter bytes := by
  obtain ⟨cs, rfl⟩ := h
  cases cs with
  | nil => nofun
  | cons c cs =>
    obtain ⟨first, rest, heq, hfirst, -⟩ := encodeChar_cases c
    rintro byte hbyte
    rw [encode, List.flatMap_cons, heq, List.cons_append, List.head?_cons] at hbyte
    rw [← Option.some.inj hbyte]
    exact hfirst

/-- Characters are cut apart only where a piece starts with a continuation. The induction is on
the characters, as long as they lie in the first piece. -/
theorem valid_append_iff (hb : StartsCharacter b) :
    Valid (a ++ b) ↔ Valid a ∧ Valid b := by
  refine ⟨?_, fun h => h.1.append h.2⟩
  rintro ⟨cs, hcs⟩
  induction cs generalizing a with
  | nil =>
    obtain ⟨rfl, rfl⟩ := List.append_eq_nil_iff.mp hcs.symm
    exact ⟨.nil, .nil⟩
  | cons c cs ih =>
    cases a with
    | nil => exact ⟨.nil, c :: cs, hcs⟩
    | cons x a =>
      obtain ⟨first, rest, heq, -, hrest⟩ := encodeChar_cases c
      rw [encode, List.flatMap_cons, heq, List.cons_append, List.cons_append] at hcs
      obtain ⟨rfl, hsplit⟩ := List.cons.inj hcs
      obtain ⟨a', rfl, htail⟩ | ⟨b', rfl, htail⟩ := List.append_eq_append_iff.mp hsplit
      · -- the character ends in the first piece
        obtain ⟨⟨ds, hds⟩, hvalid⟩ := ih htail
        exact ⟨⟨c :: ds, by rw [encode, List.flatMap_cons, heq]; exact congrArg _ hds⟩, hvalid⟩
      · cases b' with
        | nil =>
          rw [List.append_nil] at heq
          exact ⟨⟨[c], by rw [encode, List.flatMap_singleton, heq]⟩, cs, htail.symm⟩
        | cons y b' =>
          -- the second piece would start with a continuation
          have hcont := hrest y (List.mem_append_right _ List.mem_cons_self)
          rw [hb y (by rw [htail]; rfl)] at hcont
          cases hcont

theorem startsCharacter_flatten
    (h : ∀ piece ∈ pieces, StartsCharacter piece) : StartsCharacter pieces.flatten := by
  induction pieces with
  | nil => nofun
  | cons piece pieces ih =>
    obtain ⟨hpiece, hpieces⟩ := List.forall_mem_cons.mp h
    cases piece with
    | nil => exact ih hpieces
    | cons byte piece => exact hpiece

/-- **The pieces are valid one by one exactly when together they are and none starts inside a
character.** -/
theorem valid_flatten_iff :
    (∀ piece ∈ pieces, Valid piece) ↔
      Valid pieces.flatten ∧ ∀ piece ∈ pieces, StartsCharacter piece := by
  constructor
  · intro h
    refine ⟨?_, fun piece hpiece => (h piece hpiece).startsCharacter⟩
    induction pieces with
    | nil => exact .nil
    | cons piece pieces ih =>
      obtain ⟨hpiece, hpieces⟩ := List.forall_mem_cons.mp h
      exact hpiece.append (ih hpieces)
  · rintro ⟨hvalid, hstarts⟩
    induction pieces with
    | nil => nofun
    | cons piece pieces ih =>
      obtain ⟨-, hstarts⟩ := List.forall_mem_cons.mp hstarts
      obtain ⟨hpiece, hpieces⟩ :=
        (valid_append_iff (startsCharacter_flatten hstarts)).mp hvalid
      exact List.forall_mem_cons.mpr ⟨hpiece, ih hpieces hstarts⟩

/-- Bytes below 128. -/
theorem valid_of_ascii (h : ∀ byte ∈ bytes, byte < 128) : Valid bytes := by
  induction bytes with
  | nil => exact .nil
  | cons byte bytes ih =>
    obtain ⟨hbyte, hbytes⟩ := List.forall_mem_cons.mp h
    have hone : Valid [byte] := ⟨[Char.ofNat byte.toNat], by
      rw [encode, List.flatMap_singleton, encodeChar_ascii hbyte]⟩
    exact hone.append (ih hbytes)

end Utf8

import Cove.Lib.Json

/-!
# Operations on strings

Strings are lists of characters. Their order is that of their characters, which is also
the order of their UTF-8 bytes.

- `trim`: without the white space at both ends.
- `natText`, `intText`, `hexText`: rendered numbers.
- `utf8Bytes`: the bytes of a string.
- `natText_injective`, `hexText_inj`, `utf8Bytes_injective`: a rendering tells what it renders.
-/

namespace TextOps

/-- The property `White_Space`. -/
def isWhitespace (c : Char) : Bool :=
  let n := c.toNat
  (9 ≤ n && n ≤ 13) || n == 0x20 || n == 0x85 || n == 0xA0 || n == 0x1680 ||
    (0x2000 ≤ n && n ≤ 0x200A) || n == 0x2028 || n == 0x2029 || n == 0x202F || n == 0x205F ||
    n == 0x3000

def trimStart (t : Text) : Text := t.dropWhile isWhitespace

def trimEnd (t : Text) : Text := (trimStart t.reverse).reverse

/-- `str::trim`. -/
def trim (t : Text) : Text := trimEnd (trimStart t)

/-- `strip_prefix`. -/
def stripPrefix (p t : Text) : Option Text := p.isPrefixOf? t

/-- `strip_suffix`. -/
def stripSuffix (s t : Text) : Option Text := (stripPrefix s.reverse t.reverse).map List.reverse

/-- `starts_with`. -/
def startsWith (p t : Text) : Bool := p.isPrefixOf t

def natText (n : Nat) : Text := Nat.toDigits 10 n

def intText (z : Int) : Text := if z < 0 then '-' :: natText z.natAbs else natText z.natAbs

/-- The `width` lower hexadecimal digits of a number. -/
def hexText (width n : Nat) : Text :=
  match width with
  | 0 => []
  | width + 1 => hexText width (n / 16) ++ [Nat.digitChar (n % 16)]

/-- The UTF-8 bytes of a string. -/
def utf8Bytes (t : Text) : List UInt8 := t.flatMap String.utf8EncodeChar

/-- `from_utf8`. -/
def fromUtf8 (bytes : List UInt8) : Option Text :=
  (ByteArray.utf8Decode? bytes.toByteArray).map Array.toList

def asciiLower (t : Text) : Text := t.map Char.toLower

/-- `join`. -/
def join (separator : Text) : List Text → Text
  | [] => []
  | [t] => t
  | t :: ts => t ++ separator ++ join separator ts

/-! ## What a rendering tells -/

theorem natText_injective : Function.Injective natText := by
  intro m n h
  have hread : ∀ k, Nat.ofDigitChars 10 (natText k) 0 = k := fun k =>
    Nat.ofDigitChars_toDigits (by decide) (by decide)
  rw [← hread m, h, hread n]

theorem isDigit_of_mem_natText {n : Nat} {c : Char} (h : c ∈ natText n) : c.isDigit :=
  Nat.isDigit_of_mem_toDigits (by decide) (by decide) h

@[simp] theorem length_hexText (width n : Nat) : (hexText width n).length = width := by
  induction width generalizing n with
  | zero => rfl
  | succ width ih => simp [hexText, ih]

theorem digitChar_inj {m n : Nat} (hm : m < 16) (hn : n < 16)
    (h : Nat.digitChar m = Nat.digitChar n) : m = n := by
  have hall : ∀ m n : Fin 16, Nat.digitChar m = Nat.digitChar n → m = n := by decide
  exact congrArg Fin.val (hall ⟨m, hm⟩ ⟨n, hn⟩ h)

theorem hexText_inj {width m n : Nat} (hm : m < 16 ^ width) (hn : n < 16 ^ width)
    (h : hexText width m = hexText width n) : m = n := by
  induction width generalizing m n with
  | zero => omega
  | succ width ih =>
    rw [pow_succ] at hm hn
    obtain ⟨hhigh, hlow⟩ := List.append_inj' h rfl
    have hdiv := ih (by omega) (by omega) hhigh
    have hmod := digitChar_inj (by omega) (by omega) (List.cons.inj hlow).1
    omega

theorem utf8Bytes_injective : Function.Injective utf8Bytes := by
  intro s t h
  have hread : ∀ u : Text, (utf8Bytes u).toByteArray.utf8Decode? = some u.toArray := fun u =>
    List.utf8Decode?_utf8Encode
  have hst : s.toArray = t.toArray := Option.some.inj (by rw [← hread s, h, hread t])
  exact Array.toList_inj.mpr hst

end TextOps

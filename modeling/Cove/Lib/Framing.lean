import Mathlib.Data.Set.Function
import Cove.Lib.LittleEndian

/-!
# Writers whose output can be cut apart

What is needed for one byte string put together from several values to have come from these
values only.

- `SelfDelimiting`: where a value ends can be told without knowing what follows.
- `ofWidth`, `framed`: values of one width, and a length in front.
- `SelfDelimiting.append`, `tagged`, `flatMap_injOn`: pairs, options, lists.
- `append_cons_eq_iff`: **what a separator leaves open**.
-/

namespace Framing

variable {α : Type u} {β : Type v} {γ : Type w}

/-- What a writer puts in front of any rest gives the value and the rest. -/
def SelfDelimiting (s : Set α) (write : α → List γ) : Prop :=
  ∀ ⦃a⦄, a ∈ s → ∀ ⦃b⦄, b ∈ s → ∀ r r', write a ++ r = write b ++ r' → a = b ∧ r = r'

namespace SelfDelimiting

variable {s : Set α} {t : Set β} {write : α → List γ} {write' : β → List γ}

/-- Values of one width. -/
theorem ofWidth {n : Nat} (hwidth : ∀ a ∈ s, (write a).length = n) (hinj : Set.InjOn write s) :
    SelfDelimiting s write := by
  intro a ha b hb r r' h
  obtain ⟨hab, hr⟩ := List.append_inj h ((hwidth a ha).trans (hwidth b hb).symm)
  exact ⟨hinj ha hb hab, hr⟩

/-- One value written by way of another. -/
theorem comp {f : β → α} (h : SelfDelimiting s write) (hmaps : Set.MapsTo f t s)
    (hinj : Set.InjOn f t) : SelfDelimiting t fun b => write (f b) := by
  intro a ha b hb r r' hab
  obtain ⟨hf, hr⟩ := h (hmaps ha) (hmaps hb) r r' hab
  exact ⟨hinj ha hb hf, hr⟩

/-- One value after another. -/
theorem append (h : SelfDelimiting s write) (h' : SelfDelimiting t write') :
    SelfDelimiting (s ×ˢ t) fun p => write p.1 ++ write' p.2 := by
  rintro ⟨a, b⟩ ⟨ha, hb⟩ ⟨a', b'⟩ ⟨ha', hb'⟩ r r' heq
  simp only [List.append_assoc] at heq
  obtain ⟨hfirst, heq⟩ := h ha ha' _ _ heq
  obtain ⟨hsecond, heq⟩ := h' hb hb' _ _ heq
  exact ⟨Prod.ext hfirst hsecond, heq⟩

/-- A list of values, one after the other, to the end. -/
theorem flatMap_injOn (h : SelfDelimiting s write) (hne : ∀ a ∈ s, write a ≠ []) :
    Set.InjOn (List.flatMap write) {l | ∀ a ∈ l, a ∈ s} := by
  intro l hl l' hl' heq
  induction l generalizing l' with
  | nil =>
    cases l' with
    | nil => rfl
    | cons a l' => exact absurd (List.append_eq_nil_iff.mp heq.symm).1 (hne a (hl' a (by simp)))
  | cons a l ih =>
    cases l' with
    | nil => exact absurd (List.append_eq_nil_iff.mp heq).1 (hne a (hl a (by simp)))
    | cons b l' =>
      obtain ⟨rfl, hrest⟩ := h (hl a (by simp)) (hl' b (by simp)) _ _ heq
      rw [ih (fun c hc => hl c (by simp [hc])) (fun c hc => hl' c (by simp [hc])) hrest]

end SelfDelimiting

/-! ## Bytes -/

/-- The number of bytes in eight bytes, then the bytes. -/
def framed (bytes : List UInt8) : List UInt8 := LittleEndian.toLe 8 bytes.length ++ bytes

theorem framed_ne_nil (bytes : List UInt8) : framed bytes ≠ [] := by
  intro h
  have := congrArg List.length h
  simp [framed] at this

theorem selfDelimiting_toLe (w : Nat) :
    SelfDelimiting {n | n < 256 ^ w} (LittleEndian.toLe w) :=
  SelfDelimiting.ofWidth (fun n _ => LittleEndian.length_toLe w n)
    fun _ hm _ hn => LittleEndian.toLe_injective hm hn

theorem selfDelimiting_framed :
    SelfDelimiting {bytes : List UInt8 | bytes.length < 2 ^ 64} framed := by
  intro a ha b hb r r' h
  simp only [framed, List.append_assoc] at h
  obtain ⟨hlen, h⟩ := selfDelimiting_toLe 8 (a := a.length) ha (b := b.length) hb _ _ h
  exact List.append_inj h hlen

/-- An absent value by a zero, a present one by a one and its bytes. -/
def tagged (write : α → List UInt8) : Option α → List UInt8
  | none => [0]
  | some a => 1 :: write a

theorem tagged_ne_nil (write : α → List UInt8) (x : Option α) : tagged write x ≠ [] := by
  cases x <;> exact List.cons_ne_nil _ _

theorem selfDelimiting_tagged {s : Set α} {write : α → List UInt8} (h : SelfDelimiting s write) :
    SelfDelimiting {x | ∀ a ∈ x, a ∈ s} (tagged write) := by
  intro x hx y hy r r' heq
  cases x with
  | none =>
    cases y with
    | none => exact ⟨rfl, (List.cons.inj heq).2⟩
    | some b => exact absurd (List.cons.inj heq).1 (by decide)
  | some a =>
    cases y with
    | none => exact absurd (List.cons.inj heq).1 (by decide)
    | some b =>
      obtain ⟨rfl, hr⟩ := h (hx a rfl) (hy b rfl) r r' (List.cons.inj heq).2
      exact ⟨rfl, hr⟩

/-! ## Separators -/

variable {a' b' a b : List γ}

/-- A separator can also be read as one further in, or further out. -/
theorem append_cons_eq_iff {x : γ} :
    a ++ x :: b = a' ++ x :: b' ↔ (a = a' ∧ b = b') ∨
      (∃ u, a' = a ++ x :: u ∧ b = u ++ x :: b') ∨
      (∃ u, a = a' ++ x :: u ∧ b' = u ++ x :: b) := by
  constructor
  · intro h
    rcases List.append_eq_append_iff.mp h with ⟨u, hu, hb⟩ | ⟨u, hu, hb⟩
    · cases u with
      | nil => exact .inl ⟨by simp [hu], (List.cons.inj hb).2⟩
      | cons y u =>
        rw [List.cons_append, List.cons.injEq] at hb
        obtain ⟨rfl, rfl⟩ := hb
        exact .inr (.inl ⟨u, hu, rfl⟩)
    · cases u with
      | nil => exact .inl ⟨by simp [hu], (List.cons.inj hb).2.symm⟩
      | cons y u =>
        rw [List.cons_append, List.cons.injEq] at hb
        obtain ⟨rfl, rfl⟩ := hb
        exact .inr (.inr ⟨u, hu, rfl⟩)
  · rintro (⟨rfl, rfl⟩ | ⟨u, rfl, rfl⟩ | ⟨u, rfl, rfl⟩)
    · rfl
    · simp
    · simp

/-- A separator that neither first part holds. -/
theorem append_cons_inj {x : γ} (ha : x ∉ a) (ha' : x ∉ a')
    (h : a ++ x :: b = a' ++ x :: b') : a = a' ∧ b = b' := by
  rcases append_cons_eq_iff.mp h with h | ⟨u, hu, -⟩ | ⟨u, hu, -⟩
  · exact h
  · exact absurd (hu ▸ List.mem_append_right a List.mem_cons_self) ha'
  · exact absurd (hu ▸ List.mem_append_right a' List.mem_cons_self) ha

end Framing

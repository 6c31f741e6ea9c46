import Mathlib.Algebra.Ring.Nat
import Mathlib.Data.List.Forall2

/-!
# Fallible computations and checked arithmetic

- `bind_eq_ok`, `ite_error_eq_ok`, `map_eq_ok`: inverting a successful sequence of fallible steps.
- `forM_eq_ok`, `mapM_eq_ok`, `foldlM_preserves`: inverting a successful loop.
- `map_eq_of_mapM`, `exists_of_mem_mapM`: the results of a successful map;
  `exists_error_of_mapM`: what stops one.
- `mapM_flatten_eq_ok`: a map whose results are joined.
- `addU64`, `mulU64`, `sub`: unsigned 64-bit arithmetic that fails instead of wrapping, with
  `addU32` and `mulU32` for 32-bit numbers.
-/

namespace Checked

variable {ε : Type u} {α : Type v} {β : Type v}

theorem ok_bind (a : α) (f : α → Except ε β) : (Except.ok a >>= f) = f a := rfl

variable {f : α → Except ε β} {x : Except ε α} {e : ε} {a b c : Nat}

/-- A sequence succeeds exactly when both steps do. -/
theorem bind_eq_ok {b : β} :
    x >>= f = .ok b ↔ ∃ a, x = .ok a ∧ f a = .ok b := by
  cases x with
  | error e => exact ⟨nofun, nofun⟩
  | ok a => exact ⟨fun h => ⟨a, rfl, h⟩, fun ⟨_, rfl, h⟩ => h⟩

/-- Two sequences with one first step, that go on alike from what it gives. -/
theorem bind_congr_of_ok {g : α → Except ε β}
    (h : ∀ a, x = .ok a → f a = g a) : x >>= f = x >>= g := by
  cases x with
  | error e => rfl
  | ok a => exact h a rfl

/-- A guarded computation succeeds exactly when the guard lets it run and it does. -/
theorem ite_error_eq_ok {c : Prop} [Decidable c] {a : α} :
    (if c then .error e else x) = .ok a ↔ ¬c ∧ x = .ok a := by
  by_cases h : c
  · rw [if_pos h]
    exact ⟨nofun, fun ⟨hn, _⟩ => absurd h hn⟩
  · rw [if_neg h]
    exact ⟨fun hx => ⟨h, hx⟩, fun ⟨_, hx⟩ => hx⟩

/-- A mapped computation succeeds exactly when the computation does. -/
theorem map_eq_ok {γ : Type w} {g : α → γ} {c : γ} :
    x.map g = .ok c ↔ ∃ a, x = .ok a ∧ g a = c := by
  cases x with
  | error e => exact ⟨nofun, nofun⟩
  | ok a => exact ⟨fun h => ⟨a, rfl, Except.ok.inj h⟩, fun ⟨_, rfl, h⟩ => congrArg _ h⟩

theorem mapError_eq_ok {ε' : Type w} {f : ε → ε'} {a : α} :
    x.mapError f = .ok a ↔ x = .ok a := by
  cases x with
  | error e => exact ⟨nofun, nofun⟩
  | ok b => exact ⟨fun h => congrArg _ (Except.ok.inj h), fun h => congrArg _ (Except.ok.inj h)⟩

theorem toOption_eq_some {a : α} : x.toOption = some a ↔ x = .ok a := by
  cases x with
  | error e => exact ⟨nofun, nofun⟩
  | ok b => exact ⟨fun h => congrArg _ (Option.some.inj h), fun h => congrArg _ (Except.ok.inj h)⟩

/-- A loop succeeds exactly when every step does. -/
theorem forM_eq_ok {α : Type w} {f : α → Except ε Unit} {l : List α} :
    l.forM f = .ok () ↔ ∀ a ∈ l, f a = .ok () := by
  induction l with
  | nil => exact iff_of_true rfl fun a ha => nomatch ha
  | cons a l ih =>
    rw [List.forall_mem_cons, ← ih]
    show (f a >>= fun _ => l.forM f) = .ok () ↔ _
    rw [bind_eq_ok]
    exact ⟨fun ⟨_, h, hrest⟩ => ⟨h, hrest⟩, fun ⟨h, hrest⟩ => ⟨(), h, hrest⟩⟩

/-- A map succeeds exactly when it does on every element. -/
theorem mapM_eq_ok {l : List α} {out : List β} :
    l.mapM f = .ok out ↔ List.Forall₂ (fun a b => f a = .ok b) l out := by
  induction l generalizing out with
  | nil =>
    rw [List.mapM_nil, List.forall₂_nil_left_iff]
    exact ⟨fun h => (Except.ok.inj h).symm, fun h => h ▸ rfl⟩
  | cons a l ih =>
    rw [List.mapM_cons, bind_eq_ok]
    constructor
    · rintro ⟨b, hb, h⟩
      obtain ⟨bs, hbs, h⟩ := bind_eq_ok.mp h
      obtain rfl := Except.ok.inj h
      exact .cons hb (ih.mp hbs)
    · rintro (_ | ⟨hb, hbs⟩)
      exact ⟨_, hb, bind_eq_ok.mpr ⟨_, ih.mpr hbs, rfl⟩⟩

/-! ## Lists related element by element -/

section Related

variable {γ : Type w} {R : α → β → Prop} {l : List α} {out : List β}

/-- A relation between elements of the lists alone. -/
theorem forall₂_imp_of_mem {S : α → β → Prop} (h : ∀ a ∈ l, ∀ b, R a b → S a b)
    (hall : List.Forall₂ R l out) : List.Forall₂ S l out := by
  induction hall with
  | nil => exact .nil
  | cons hab _ ih =>
    exact .cons (h _ List.mem_cons_self _ hab) (ih fun a ha => h a (List.mem_cons_of_mem _ ha))

theorem exists_of_forall₂_left (hall : List.Forall₂ R l out) {a : α} (ha : a ∈ l) :
    ∃ b ∈ out, R a b := by
  induction hall with
  | nil => cases ha
  | cons hab _ ih =>
    rcases List.mem_cons.mp ha with rfl | ha
    · exact ⟨_, List.mem_cons_self, hab⟩
    · obtain ⟨b, hb, hab⟩ := ih ha
      exact ⟨b, List.mem_cons_of_mem _ hb, hab⟩

theorem map_eq_of_forall₂ {f : β → γ} {g : α → γ} (h : ∀ a b, R a b → f b = g a)
    (hall : List.Forall₂ R l out) : out.map f = l.map g := by
  induction hall with
  | nil => rfl
  | cons hab _ ih => rw [List.map_cons, List.map_cons, h _ _ hab, ih]

/-- Elements that are each related to something. -/
theorem exists_forall₂ (h : ∀ a ∈ l, ∃ b, R a b) : ∃ out, List.Forall₂ R l out := by
  induction l with
  | nil => exact ⟨[], .nil⟩
  | cons a l ih =>
    obtain ⟨b, hb⟩ := h a List.mem_cons_self
    obtain ⟨out, hout⟩ := ih fun a ha => h a (List.mem_cons_of_mem _ ha)
    exact ⟨b :: out, .cons hb hout⟩

/-- The images of the elements are related to them. -/
theorem forall₂_map_self {f : α → β} (h : ∀ a ∈ l, R a (f a)) :
    List.Forall₂ R l (l.map f) := by
  induction l with
  | nil => exact .nil
  | cons a l ih =>
    exact .cons (h a List.mem_cons_self) (ih fun b hb => h b (List.mem_cons_of_mem _ hb))

/-- A function that gives every element a result. -/
theorem map_some_eq_iff {f : α → Option β} :
    out.map some = l.map f ↔ List.Forall₂ (fun a b => f a = some b) l out := by
  induction l generalizing out with
  | nil => simp
  | cons a l ih =>
    cases out with
    | nil => simp
    | cons b out =>
      rw [List.map_cons, List.map_cons, List.forall₂_cons, ← ih, List.cons_eq_cons]
      exact and_congr_left fun _ => eq_comm

end Related

/-- A map whose steps end in a function is the map of the steps, ended so at once. -/
theorem mapM_map {γ : Type v} (f : α → Except ε β) (g : β → γ) (l : List α) :
    l.mapM (fun a => (f a).map g) = (l.mapM f).map (List.map g) := by
  induction l with
  | nil => rfl
  | cons a l ih =>
    rw [List.mapM_cons, List.mapM_cons, ih]
    cases f a with
    | error e => rfl
    | ok b => cases l.mapM f <;> rfl

/-- A map fails where one of its steps does. -/
theorem exists_error_of_mapM {l : List α} (h : l.mapM f = .error e) : ∃ a ∈ l, f a = .error e := by
  induction l with
  | nil => cases h
  | cons a l ih =>
    rw [List.mapM_cons] at h
    cases ha : f a with
    | error e' =>
      rw [ha] at h
      obtain rfl : e' = e := Except.error.inj h
      exact ⟨a, List.mem_cons_self, ha⟩
    | ok b =>
      rw [ha, ok_bind] at h
      cases hl : l.mapM f with
      | error e' =>
        rw [hl] at h
        obtain rfl : e' = e := Except.error.inj h
        obtain ⟨a', ha', hfail⟩ := ih hl
        exact ⟨a', List.mem_cons_of_mem _ ha', hfail⟩
      | ok out =>
        rw [hl] at h
        cases h

/-- What a step says of its result, a map says of the list. -/
theorem map_eq_of_mapM {γ : Type w} {g : β → γ} {k : α → γ} {l : List α}
    {out : List β} (h : l.mapM f = .ok out) (hstep : ∀ a b, f a = .ok b → g b = k a) :
    out.map g = l.map k := map_eq_of_forall₂ hstep (mapM_eq_ok.mp h)

/-- Every result of a map is that of an element. -/
theorem exists_of_mem_mapM {l : List α} {out : List β}
    (h : l.mapM f = .ok out) {b : β} (hb : b ∈ out) : ∃ a ∈ l, f a = .ok b :=
  exists_of_forall₂_left (mapM_eq_ok.mp h).flip hb

/-- Every element of a map has a result. -/
theorem exists_of_mapM_mem {l : List α} {out : List β}
    (h : l.mapM f = .ok out) {a : α} (ha : a ∈ l) : ∃ b ∈ out, f a = .ok b :=
  exists_of_forall₂_left (mapM_eq_ok.mp h) ha

/-- The elements of a list that was computed, none when that failed. -/
def elements (x : Except ε (List β)) : List β := x.toOption.getD []

@[simp] theorem elements_ok (l : List β) : elements (.ok l : Except ε (List β)) = l := rfl

/-- A map whose results are joined succeeds exactly when it does on every element. -/
theorem mapM_flatten_eq_ok {f : α → Except ε (List β)} {l : List α} {out : List β} :
    (do .ok (← l.mapM f).flatten : Except ε (List β)) = .ok out ↔
      (∀ a ∈ l, ∃ bs, f a = .ok bs) ∧ out = l.flatMap fun a => elements (f a) := by
  rw [bind_eq_ok]
  constructor
  · rintro ⟨parts, hparts, h⟩
    obtain rfl := Except.ok.inj h
    refine ⟨fun a ha => ?_, ?_⟩
    · obtain ⟨bs, -, hbs⟩ := exists_of_mapM_mem hparts ha
      exact ⟨bs, hbs⟩
    · have heq := map_eq_of_mapM (g := id) (k := fun a => elements (f a)) hparts
        fun a bs h => by rw [h]; rfl
      rw [List.map_id] at heq
      rw [heq, List.flatMap_def]
  · rintro ⟨hall, rfl⟩
    have hparts : l.mapM f = .ok (l.map fun a => elements (f a)) := by
      refine mapM_eq_ok.mpr (forall₂_map_self fun a ha => ?_)
      obtain ⟨bs, hbs⟩ := hall a ha
      rw [hbs, elements_ok]
    exact ⟨_, hparts, by rw [List.flatMap_def]⟩

/-- A second map over the results of a first one, element by element. -/
theorem mapM_mapM_eq_ok {ε' : Type w} {γ : Type v} {g : β → Except ε' γ}
    {l : List α} {mid : List β} (hmid : l.mapM f = .ok mid) {out : List γ} :
    mid.mapM g = .ok out ↔
      out.map some = l.map fun a => (f a).toOption.bind fun b => (g b).toOption := by
  have hall := mapM_eq_ok.mp hmid
  clear hmid
  induction hall generalizing out with
  | nil => exact mapM_eq_ok.trans (by simp)
  | @cons a b l mid hab hrest ih =>
    have hcomp : ((f a).toOption.bind fun b => (g b).toOption) = (g b).toOption := by rw [hab]; rfl
    rw [List.map_cons, hcomp, List.mapM_cons, bind_eq_ok]
    constructor
    · rintro ⟨c, hc, h⟩
      obtain ⟨cs, hcs, h⟩ := bind_eq_ok.mp h
      obtain rfl := Except.ok.inj h
      rw [List.map_cons, hc, ih.mp hcs]
      rfl
    · intro h
      cases out with
      | nil => cases h
      | cons c cs =>
        obtain ⟨hc, hcs⟩ := List.cons.inj h
        refine ⟨c, ?_, bind_eq_ok.mpr ⟨cs, ih.mpr hcs, rfl⟩⟩
        cases hg : g b with
        | error e =>
          rw [hg] at hc
          cases hc
        | ok c' =>
          rw [hg] at hc
          rw [Option.some.inj hc]

/-- What every step of a loop preserves holds of its result. -/
theorem foldlM_preserves {f : β → α → Except ε β} {P : β → Prop} {l : List α} {b out : β}
    (h : l.foldlM f b = .ok out) (hb : P b)
    (hstep : ∀ b, ∀ a ∈ l, P b → ∀ b', f b a = .ok b' → P b') : P out := by
  induction l generalizing b with
  | nil => exact Except.ok.inj h ▸ hb
  | cons a l ih =>
    rw [List.foldlM_cons] at h
    obtain ⟨b', hb', h⟩ := bind_eq_ok.mp h
    exact ih h (hstep b a List.mem_cons_self hb b' hb')
      fun b a ha => hstep b a (List.mem_cons_of_mem _ ha)

/-- Adding up succeeds exactly when every summand is found. -/
theorem foldlM_add_isOk {ε : Type} {α : Type v} {f : α → Except ε Nat} {l : List α} (acc : Nat) :
    (∃ n, l.foldlM (fun sum a => do .ok (sum + (← f a))) acc = .ok n) ↔
      ∀ a ∈ l, ∃ n, f a = .ok n := by
  induction l generalizing acc with
  | nil => exact iff_of_true ⟨acc, rfl⟩ (by simp)
  | cons a l ih =>
    rw [List.forall_mem_cons, List.foldlM_cons]
    constructor
    · rintro ⟨n, h⟩
      obtain ⟨acc', hstep, h⟩ := bind_eq_ok.mp h
      obtain ⟨d, hd, -⟩ := bind_eq_ok.mp hstep
      exact ⟨⟨d, hd⟩, (ih acc').mp ⟨n, h⟩⟩
    · rintro ⟨⟨d, hd⟩, hrest⟩
      obtain ⟨n, hn⟩ := (ih (acc + d)).mpr hrest
      exact ⟨n, bind_eq_ok.mpr ⟨acc + d, bind_eq_ok.mpr ⟨d, hd, rfl⟩, hn⟩⟩

/-- `checked_add` on 64-bit numbers. -/
def addU64 (overflow : ε) (a b : Nat) : Except ε Nat :=
  if a + b < 2 ^ 64 then .ok (a + b) else .error overflow

@[simp] theorem addU64_eq_ok :
    addU64 e a b = .ok c ↔ a + b < 2 ^ 64 ∧ c = a + b := by
  unfold addU64
  by_cases h : a + b < 2 ^ 64
  · rw [if_pos h]
    exact ⟨fun heq => ⟨h, (Except.ok.inj heq).symm⟩, fun ⟨_, heq⟩ => congrArg _ heq.symm⟩
  · rw [if_neg h]
    exact ⟨nofun, fun ⟨hlt, _⟩ => absurd hlt h⟩

/-- `checked_mul` on 64-bit numbers. -/
def mulU64 (overflow : ε) (a b : Nat) : Except ε Nat :=
  if a * b < 2 ^ 64 then .ok (a * b) else .error overflow

@[simp] theorem mulU64_eq_ok :
    mulU64 e a b = .ok c ↔ a * b < 2 ^ 64 ∧ c = a * b := by
  unfold mulU64
  by_cases h : a * b < 2 ^ 64
  · rw [if_pos h]
    exact ⟨fun heq => ⟨h, (Except.ok.inj heq).symm⟩, fun ⟨_, heq⟩ => congrArg _ heq.symm⟩
  · rw [if_neg h]
    exact ⟨nofun, fun ⟨hlt, _⟩ => absurd hlt h⟩

/-- `checked_add` on 32-bit numbers. -/
def addU32 (overflow : ε) (a b : Nat) : Except ε Nat :=
  if a + b < 2 ^ 32 then .ok (a + b) else .error overflow

@[simp] theorem addU32_eq_ok :
    addU32 e a b = .ok c ↔ a + b < 2 ^ 32 ∧ c = a + b := by
  unfold addU32
  by_cases h : a + b < 2 ^ 32
  · rw [if_pos h]
    exact ⟨fun heq => ⟨h, (Except.ok.inj heq).symm⟩, fun ⟨_, heq⟩ => congrArg _ heq.symm⟩
  · rw [if_neg h]
    exact ⟨nofun, fun ⟨hlt, _⟩ => absurd hlt h⟩

/-- `checked_mul` on 32-bit numbers. -/
def mulU32 (overflow : ε) (a b : Nat) : Except ε Nat :=
  if a * b < 2 ^ 32 then .ok (a * b) else .error overflow

@[simp] theorem mulU32_eq_ok :
    mulU32 e a b = .ok c ↔ a * b < 2 ^ 32 ∧ c = a * b := by
  unfold mulU32
  by_cases h : a * b < 2 ^ 32
  · rw [if_pos h]
    exact ⟨fun heq => ⟨h, (Except.ok.inj heq).symm⟩, fun ⟨_, heq⟩ => congrArg _ heq.symm⟩
  · rw [if_neg h]
    exact ⟨nofun, fun ⟨hlt, _⟩ => absurd hlt h⟩

/-- `checked_sub` on unsigned numbers. -/
def sub (underflow : ε) (a b : Nat) : Except ε Nat :=
  if b ≤ a then .ok (a - b) else .error underflow

@[simp] theorem sub_eq_ok :
    sub e a b = .ok c ↔ b ≤ a ∧ c = a - b := by
  unfold sub
  by_cases h : b ≤ a
  · simp [h, eq_comm]
  · simp [h]

end Checked

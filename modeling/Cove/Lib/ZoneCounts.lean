import Mathlib.Algebra.BigOperators.Group.List.Lemmas
import Cove.Lib.OrderedMap

/-!
# Counts over zones

A population is counted zone by zone, or by the keys of its members.

- `timesIn`: how many zones an element is in.
- `sum_countP_zones`: **counting zone by zone counts an element once for each of its zones**.
- `sum_selected`: **key counts that add up to the whole count every selection of keys**.
- `tally`: amounts added up by key, and `Tallied`, a map after some were added.
-/

namespace ZoneCounts

variable {ρ : Type u} {ζ : Type v} {κ : Type w}

/-! ## Zones -/

section Zones

variable {inZone : ζ → ρ → Bool} {zones : List ζ} {p : ρ → Bool} {rows : List ρ}

/-- How many zones an element is in. -/
def timesIn (inZone : ζ → ρ → Bool) (zones : List ζ) (r : ρ) : Nat :=
  zones.countP fun z => inZone z r

theorem sum_indicator {α : Type u} (q : α → Bool) (l : List α) :
    (l.map fun a => if q a then 1 else 0).sum = l.countP q := by
  induction l with
  | nil => rfl
  | cons a l ih => rw [List.map_cons, List.sum_cons, ih, List.countP_cons, Nat.add_comm]

/-- **Counting zone by zone counts an element once for each of its zones.** -/
theorem sum_countP_zones (inZone : ζ → ρ → Bool) (zones : List ζ) (p : ρ → Bool)
    (rows : List ρ) :
    (zones.map fun z => rows.countP fun r => inZone z r && p r).sum =
      ((rows.filter p).map (timesIn inZone zones)).sum := by
  induction rows with
  | nil => exact List.sum_eq_zero (by simp)
  | cons r rows ih =>
    simp only [List.countP_cons]
    rw [List.sum_map_add, ih]
    by_cases hp : p r = true
    · simp only [hp, Bool.and_true]
      rw [List.filter_cons_of_pos hp, List.map_cons, List.sum_cons, sum_indicator, Nat.add_comm]
      rfl
    · simp only [hp, Bool.and_false]
      rw [List.filter_cons_of_neg hp]
      simp

/-- Zones that hold each element once count each once. -/
theorem sum_countP_of_once (h : ∀ r ∈ rows, p r = true → timesIn inZone zones r = 1) :
    (zones.map fun z => rows.countP fun r => inZone z r && p r).sum = rows.countP p := by
  have hone : (rows.filter p).map (timesIn inZone zones) = (rows.filter p).map fun _ => 1 :=
    List.map_congr_left fun r hr =>
      h r (List.mem_filter.mp hr).1 (List.mem_filter.mp hr).2
  rw [sum_countP_zones, hone, List.map_const', List.sum_replicate, nsmul_eq_mul, Nat.mul_one,
    List.countP_eq_length_filter]
  rfl

end Zones

/-! ## Keys -/

variable {q : ρ → Bool}

section Keys

variable [DecidableEq κ] {β : Type v} {keyOf : β → κ} {amount : β → Nat} {key : ρ → Option κ}
  {buckets : List β} {rows : List ρ}

variable {p : ρ → Bool}

theorem countP_add_of_disjoint (h : ∀ r ∈ rows, p r = true → q r = false) :
    rows.countP p + rows.countP q = rows.countP fun r => p r || q r := by
  induction rows with
  | nil => rfl
  | cons r rows ih =>
    obtain ⟨hr, hrest⟩ := List.forall_mem_cons.mp h
    rw [List.countP_cons, List.countP_cons, List.countP_cons, ← ih hrest]
    by_cases hp : p r = true
    · rw [hp, hr hp]
      simp only [Bool.or_false, if_true, Bool.false_eq_true, if_false]
      omega
    · rw [Bool.not_eq_true] at hp
      rw [hp, Bool.false_or]
      simp only [Bool.false_eq_true, if_false]
      omega

/-- Two counts that are equal are of the same elements where one is among the other. -/
theorem iff_of_countP_eq (himp : ∀ r ∈ rows, p r = true → q r = true)
    (heq : rows.countP p = rows.countP q) {r : ρ} (hr : r ∈ rows) : p r = true ↔ q r = true := by
  refine ⟨himp r hr, fun hq => ?_⟩
  have hsplit : rows.countP p + rows.countP (fun r => q r && !p r) = rows.countP q := by
    rw [countP_add_of_disjoint fun r _ hp => by rw [hp, Bool.not_true, Bool.and_false]]
    refine List.countP_congr fun r hr => ?_
    cases hp : p r with
    | true => simp [himp r hr hp]
    | false => simp
  have hnone := List.countP_eq_zero.mp (show rows.countP (fun r => q r && !p r) = 0 by omega) r hr
  cases hp : p r with
  | true => rfl
  | false => exact absurd (by rw [hq, hp]; rfl) hnone

/-- Buckets of distinct keys count the elements that have one of them. -/
theorem sum_countP_keys (h : (buckets.map keyOf).Nodup) :
    (buckets.map fun b => rows.countP fun r => key r == some (keyOf b)).sum =
      rows.countP fun r => (key r).any fun k => decide (k ∈ buckets.map keyOf) := by
  induction buckets with
  | nil =>
    refine (List.countP_eq_zero.mpr fun r _ => ?_).symm
    cases key r <;> simp
  | cons b buckets ih =>
    obtain ⟨hb, hrest⟩ := List.nodup_cons.mp h
    rw [List.map_cons, List.sum_cons, ih hrest, countP_add_of_disjoint]
    · refine List.countP_congr fun r _ => ?_
      cases key r with
      | none => simp
      | some k => simp
    · intro r _ hr
      rw [beq_iff_eq.mp hr]
      exact decide_eq_false hb

/-- **Key counts that add up to the whole count every selection of keys.** -/
theorem sum_selected (hnodup : (buckets.map keyOf).Nodup)
    (hcount : ∀ b ∈ buckets, amount b = rows.countP fun r => key r == some (keyOf b))
    (htotal : (buckets.map amount).sum = rows.countP fun r => (key r).isSome) (p : κ → Bool) :
    ((buckets.filter fun b => p (keyOf b)).map amount).sum =
      rows.countP fun r => (key r).any p := by
  have hlisted : ∀ r ∈ rows, ∀ k, key r = some k → k ∈ buckets.map keyOf := by
    intro r hr k hk
    rw [List.map_congr_left hcount, sum_countP_keys hnodup] at htotal
    have hiff := iff_of_countP_eq (fun r _ h => ?_) htotal hr
    · rw [hk] at hiff
      exact of_decide_eq_true (hiff.mpr rfl)
    · cases hkey : key r with
      | none => rw [hkey] at h; cases h
      | some k => rfl
  have hsub : ((buckets.filter fun b => p (keyOf b)).map keyOf).Nodup :=
    hnodup.sublist (List.filter_sublist.map keyOf)
  rw [List.map_congr_left fun b hb => hcount b (List.mem_filter.mp hb).1, sum_countP_keys hsub]
  refine List.countP_congr fun r hr => ?_
  cases hk : key r with
  | none => simp
  | some k =>
    rw [Option.any_some, Option.any_some, decide_eq_true_eq]
    constructor
    · intro h
      obtain ⟨b, hb, rfl⟩ := List.mem_map.mp h
      exact (List.mem_filter.mp hb).2
    · intro h
      obtain ⟨b, hb, rfl⟩ := List.mem_map.mp (hlisted r hr k hk)
      exact List.mem_map_of_mem (List.mem_filter.mpr ⟨hb, h⟩)

end Keys

/-! ## Amounts by key -/

variable {n : Nat}

section Tally

/-- The amounts of a key, added up; none where it has none. -/
def tally [DecidableEq κ] (k : κ) : List (κ × Nat) → Option Nat
  | [] => none
  | entry :: entries =>
    if entry.1 = k then (some entry.2).merge (· + ·) (tally k entries) else tally k entries

/-- The sum of the amounts of a key. -/
def amountOf [DecidableEq κ] (k : κ) (entries : List (κ × Nat)) : Nat :=
  ((entries.filter fun entry => decide (entry.1 = k)).map Prod.snd).sum

section

variable [DecidableEq κ] {k : κ} {entries : List (κ × Nat)}

theorem amountOf_cons (k : κ) (entry : κ × Nat) (entries : List (κ × Nat)) :
    amountOf k (entry :: entries) =
      (if entry.1 = k then entry.2 else 0) + amountOf k entries := by
  unfold amountOf
  by_cases h : entry.1 = k
  · rw [List.filter_cons, if_pos (decide_eq_true h), if_pos h, List.map_cons, List.sum_cons]
  · rw [List.filter_cons, if_neg (by simpa using h), if_neg h, Nat.zero_add]

theorem amountOf_append (k : κ) (front rest : List (κ × Nat)) :
    amountOf k (front ++ rest) = amountOf k front + amountOf k rest := by
  unfold amountOf
  rw [List.filter_append, List.map_append, List.sum_append]

theorem amountOf_flatMap {α : Type u} (k : κ) (f : α → List (κ × Nat)) (l : List α) :
    amountOf k (l.flatMap f) = (l.map fun a => amountOf k (f a)).sum := by
  induction l with
  | nil => rfl
  | cons a l ih => rw [List.flatMap_cons, amountOf_append, ih, List.map_cons, List.sum_cons]

theorem le_amountOf (h : (k, n) ∈ entries) : n ≤ amountOf k entries := by
  induction entries with
  | nil => cases h
  | cons entry entries ih =>
    rw [amountOf_cons]
    rcases List.mem_cons.mp h with rfl | h
    · rw [if_pos rfl]
      exact Nat.le_add_right _ _
    · exact (ih h).trans (Nat.le_add_left _ _)

theorem tally_append (k : κ) (front rest : List (κ × Nat)) :
    tally k (front ++ rest) = (tally k front).merge (· + ·) (tally k rest) := by
  induction front with
  | nil => rw [List.nil_append, tally, Option.merge_none_left]
  | cons entry front ih =>
    rw [List.cons_append, tally, tally, ih]
    split
    · cases tally k front <;> cases tally k rest <;> simp [Nat.add_assoc]
    · rfl

theorem tally_eq_none : tally k entries = none ↔ k ∉ entries.map Prod.fst := by
  induction entries with
  | nil => simp [tally]
  | cons entry entries ih =>
    rw [tally, List.map_cons, List.mem_cons, not_or, ← ih]
    split
    · next h =>
      refine iff_of_false (fun hnone => ?_) fun hboth => hboth.1 h.symm
      exact Option.some_ne_none _ (Option.merge_eq_none_iff.mp hnone).1
    · next h => exact ⟨fun hrest => ⟨fun heq => h heq.symm, hrest⟩, And.right⟩

theorem getD_tally : (tally k entries).getD 0 = amountOf k entries := by
  induction entries with
  | nil => rfl
  | cons entry entries ih =>
    rw [tally, amountOf_cons, ← ih]
    by_cases h : entry.1 = k
    · rw [if_pos h, if_pos h]
      cases tally k entries <;> rfl
    · rw [if_neg h, if_neg h, Nat.zero_add]

/-- A key of an amount has their sum. -/
theorem tally_eq_some : tally k entries = some n ↔
    k ∈ entries.map Prod.fst ∧ n = amountOf k entries := by
  rw [← getD_tally]
  cases h : tally k entries with
  | none => exact iff_of_false nofun fun hboth => tally_eq_none.mp h hboth.1
  | some m =>
    have hmem : k ∈ entries.map Prod.fst := by
      by_contra hnot
      rw [tally_eq_none.mpr hnot] at h
      cases h
    rw [and_iff_right hmem, Option.some.injEq, Option.getD_some, eq_comm]

/-- Where no amount is zero, a key has amounts when their sum is not. -/
theorem tally_eq_some_of_pos (hpos : ∀ entry ∈ entries, 0 < entry.2) :
    tally k entries = some n ↔ n = amountOf k entries ∧ 0 < n := by
  rw [tally_eq_some, and_comm]
  refine and_congr_right fun hn => ⟨fun hmem => ?_, fun hlt => ?_⟩
  · obtain ⟨entry, hentry, rfl⟩ := List.mem_map.mp hmem
    exact (hpos entry hentry).trans_le (hn ▸ le_amountOf hentry)
  · by_contra hnot
    rw [hn, ← getD_tally, tally_eq_none.mpr hnot] at hlt
    exact absurd hlt (Nat.lt_irrefl 0)

end

variable [DecidableEq κ] [LinearOrder κ] {ε : Type v} {add : Nat → Nat → Except ε Nat}
  {m m' m'' : OrderedMap κ Nat} {pairs pairs' : List (κ × Nat)}

/-- A map after some amounts were added to it. -/
def Tallied (m m' : OrderedMap κ Nat) (pairs : List (κ × Nat)) : Prop :=
  ∀ k, m'.get? k = (m.get? k).merge (· + ·) (tally k pairs)

theorem Tallied.refl (m : OrderedMap κ Nat) : Tallied m m [] := fun _ =>
  (Option.merge_none_right).symm

theorem Tallied.trans (h : Tallied m m' pairs) (h' : Tallied m' m'' pairs') :
    Tallied m m'' (pairs ++ pairs') := by
  intro k
  rw [h' k, h k, tally_append]
  cases m.get? k <;> cases tally k pairs <;> cases tally k pairs' <;> simp [Nat.add_assoc]

/-- Adding an amount to the entry of its key, which is zero when there is none yet. -/
def addTo (add : Nat → Nat → Except ε Nat) (m : OrderedMap κ Nat) (k : κ) (n : Nat) :
    Except ε (OrderedMap κ Nat) :=
  m.upsert k 0 fun slot => add slot n

theorem tallied_addTo (hadd : ∀ a b c, add a b = .ok c → c = a + b) {k : κ}
    (h : addTo add m k n = .ok m') : Tallied m m' [(k, n)] := by
  intro k'
  unfold addTo OrderedMap.upsert at h
  split at h
  · next entries hentries =>
    obtain rfl := Except.ok.inj h
    obtain ⟨v, old, hv, hold, hmem⟩ := OrderedMap.mem_upsertEntries m.sorted hentries
    obtain rfl := hadd _ _ _ hv
    by_cases hk : k = k'
    · subst hk
      have hnew : OrderedMap.get? ⟨entries, OrderedMap.sorted_upsertEntries m.sorted hentries⟩ k =
          some (old + n) := OrderedMap.get?_eq_some.mpr ((hmem _).mpr (.inl rfl))
      rw [hnew, tally, if_pos rfl, tally]
      rcases hold with ⟨rfl, hnone⟩ | hin
      · have hget : m.get? k = none := by
          by_contra hsome
          obtain ⟨w, hw⟩ := Option.ne_none_iff_exists'.mp hsome
          exact hnone _ (OrderedMap.get?_eq_some.mp hw) rfl
        rw [hget, Nat.zero_add]
        rfl
      · rw [OrderedMap.get?_eq_some.mpr hin]
        rfl
    · have hsame : OrderedMap.get? ⟨entries, OrderedMap.sorted_upsertEntries m.sorted hentries⟩ k' =
          m.get? k' := by
        refine Option.ext fun w => ?_
        rw [OrderedMap.get?_eq_some, OrderedMap.get?_eq_some]
        refine (hmem _).trans ⟨?_, fun hin => .inr ⟨hin, fun heq => hk heq.symm⟩⟩
        rintro (heq | hin)
        · exact absurd (congrArg Prod.fst heq).symm hk
        · exact hin.1
      rw [hsame, tally, if_neg hk, tally, Option.merge_none_right]
  · cases h

end Tally

end ZoneCounts

import Mathlib.Data.Finmap
import Mathlib.Data.Finset.Sort

/-! Finite tables. A hash map of the source is a Mathlib finite map; this module
adds what the bookkeeping proofs read off a table: its values as a multiset, its
number of entries, the number of entries whose value meets a predicate, and how
the three change when a fresh key is inserted, a present key is erased or the
value at a present key is replaced. -/

namespace RedevPlugin

/-- A finite map with a fixed value type. -/
abbrev Table (K V : Type*) := Finmap (fun _ : K => V)

end RedevPlugin

namespace Finmap

open RedevPlugin

variable {K V : Type*}

/-- The values of a table, one for each entry. -/
def values (m : Table K V) : Multiset V := m.entries.map Sigma.snd

def size (m : Table K V) : ℕ := Multiset.card m.values

/-- The number of entries whose value meets `p`. -/
def count (p : V → Bool) (m : Table K V) : ℕ := m.values.countP (fun v => p v = true)

def sortedKeys [LinearOrder K] (m : Table K V) : List K := m.keys.sort (· ≤ ·)

theorem mem_sortedKeys [LinearOrder K] {m : Table K V} {a : K} : a ∈ m.sortedKeys ↔ a ∈ m.keys :=
  Finset.mem_sort _

def filter (p : K → V → Bool) (m : Table K V) : Table K V where
  entries := m.entries.filter (fun e => p e.1 e.2)
  nodupKeys := by
    rw [← Multiset.nodup_keys]
    exact Multiset.nodup_of_le (Multiset.map_le_map (Multiset.filter_le _ _))
      (Multiset.nodup_keys.mpr m.nodupKeys)

@[simp] theorem values_empty : values (∅ : Table K V) = 0 := rfl

@[simp] theorem size_empty : size (∅ : Table K V) = 0 := rfl

theorem values_filter (p : V → Bool) (m : Table K V) :
    (m.filter fun _ b => p b).values = m.values.filter (p · = true) := by
  rw [values, values, Multiset.filter_map]
  rfl

variable [DecidableEq K]

theorem lookup_insert_ite (m : Table K V) (a a' : K) (b : V) :
    (m.insert a b).lookup a' = if a' = a then some b else m.lookup a' := by
  split_ifs with h
  · subst h; exact lookup_insert m
  · exact lookup_insert_of_ne m h

theorem lookup_erase_ite (m : Table K V) (a a' : K) :
    (m.erase a).lookup a' = if a' = a then none else m.lookup a' := by
  split_ifs with h
  · subst h; exact lookup_erase a' m
  · exact lookup_erase_ne h

theorem lookup_filter (p : K → V → Bool) (m : Table K V) (a : K) :
    (m.filter p).lookup a = (m.lookup a).filter (p a) := by
  apply Option.ext
  intro b
  rw [Option.filter_eq_some_iff, lookup_eq_some_iff, lookup_eq_some_iff]
  simp [filter]

variable {b : V} {a : K} {m : Table K V} {p : V → Bool}

theorem lookup_of_insert {a' c} (h : (m.insert a b).lookup a' = some c) :
    a' = a ∧ c = b ∨ m.lookup a' = some c := by
  rw [lookup_insert_ite] at h
  split_ifs at h with he
  · exact .inl ⟨he, (Option.some.inj h).symm⟩
  · exact .inr h

theorem lookup_of_erase {a'} (h : (m.erase a).lookup a' = some b) :
    a' ≠ a ∧ m.lookup a' = some b := by
  rw [lookup_erase_ite] at h
  split_ifs at h with he
  exact ⟨he, h⟩

theorem erase_of_lookup_none (h : m.lookup a = none) : m.erase a = m := by
  apply ext_lookup
  intro a'
  rw [lookup_erase_ite]
  split_ifs with he
  · subst he; exact h.symm
  · rfl

theorem insert_erase (h : m.lookup a = some b) : (m.erase a).insert a b = m := by
  apply ext_lookup
  intro a'
  rw [lookup_insert_ite, lookup_erase_ite]
  split_ifs with he
  · subst he; exact h.symm
  · rfl

theorem erase_insert_self (m : Table K V) (a : K) (b : V) : (m.insert a b).erase a = m.erase a := by
  apply ext_lookup
  intro a'
  rw [lookup_erase_ite, lookup_erase_ite, lookup_insert_ite]
  split_ifs <;> rfl

theorem mem_values : b ∈ m.values ↔ ∃ a, m.lookup a = some b := by
  simp only [values, Multiset.mem_map, Sigma.exists, exists_eq_right]
  constructor <;> rintro ⟨a, h⟩
  · exact ⟨a, lookup_eq_some_iff.mpr h⟩
  · exact ⟨a, lookup_eq_some_iff.mp h⟩

theorem values_insert (h : m.lookup a = none) (b : V) : (m.insert a b).values = b ::ₘ m.values := by
  simp [values, entries_insert_of_notMem (lookup_eq_none.mp h)]

theorem values_erase (h : m.lookup a = some b) : m.values = b ::ₘ (m.erase a).values := by
  conv_lhs => rw [← insert_erase h]
  exact values_insert (lookup_erase a m) b

theorem values_nodup {key : V → K} (h : ∀ a b, m.lookup a = some b → key b = a) :
    m.values.Nodup := by
  have hmap : m.values.map key = m.entries.map Sigma.fst := by
    rw [values, Multiset.map_map]
    refine Multiset.map_congr rfl fun x hx => ?_
    exact h x.1 x.2 (lookup_eq_some_iff.mpr hx)
  exact Multiset.Nodup.of_map key (hmap ▸ Multiset.nodup_keys.mpr m.nodupKeys)

theorem size_insert (h : m.lookup a = none) (b : V) : (m.insert a b).size = m.size + 1 := by
  simp [size, values_insert h]

theorem size_erase (h : m.lookup a = some b) : m.size = (m.erase a).size + 1 := by
  rw [size, values_erase h, Multiset.card_cons]
  rfl

theorem count_insert (h : m.lookup a = none) (b : V) (p : V → Bool) :
    (m.insert a b).count p = m.count p + if p b then 1 else 0 := by
  simp [count, values_insert h, Multiset.countP_cons]

theorem count_erase (h : m.lookup a = some b) (p : V → Bool) :
    m.count p = (m.erase a).count p + if p b then 1 else 0 := by
  conv_lhs => rw [count, values_erase h, Multiset.countP_cons]
  rfl

theorem count_pos (h : m.lookup a = some b) (hp : p b = true) : 0 < m.count p := by
  rw [count_erase h p, if_pos hp]
  omega

theorem size_congr {W : Type*} {n : Table K W}
    (h : ∀ a, (m.lookup a).isSome = (n.lookup a).isSome) : m.size = n.size := by
  have hk : m.keys = n.keys := by
    ext a
    rw [mem_keys, mem_keys, ← lookup_isSome, ← lookup_isSome, h a]
  have hca := congrArg Finset.card hk
  simpa [keys, Multiset.keys, size, values] using hca

/-- Replacing a value does not change the size. -/
theorem size_insert_of_some (h : m.lookup a ≠ none) (b : V) : (m.insert a b).size = m.size := by
  refine size_congr fun x => ?_
  rw [lookup_insert_ite]
  split_ifs with hx
  · rw [hx]
    exact (Option.isSome_iff_ne_none.mpr h).symm
  · rfl

theorem size_le {W : Type*} {n : Table K W} (h : ∀ a, (m.lookup a).isSome → (n.lookup a).isSome) :
    m.size ≤ n.size := by
  have hk : m.keys ⊆ n.keys := by
    intro a ha
    rw [mem_keys, ← lookup_isSome] at ha ⊢
    exact h a ha
  have hca := Finset.card_le_card hk
  simpa [keys, Multiset.keys, size, values] using hca

/-- The keys whose value meets `p`. -/
def keysWith (p : V → Bool) (m : Table K V) : Finset K :=
  m.keys.filter (fun a => (m.lookup a).any p)

theorem mem_keysWith : a ∈ m.keysWith p ↔ ∃ b, m.lookup a = some b ∧ p b = true := by
  rw [keysWith, Finset.mem_filter, mem_keys]
  cases hl : m.lookup a with
  | none => simp
  | some b => simp [mem_of_lookup_eq_some hl]

theorem card_keysWith (p : V → Bool) (m : Table K V) : (m.keysWith p).card = m.count p := by
  have hk : m.keys.val = m.entries.map Sigma.fst := rfl
  rw [keysWith, Finset.card_def, Finset.filter_val, hk, ← Multiset.countP_eq_card_filter,
    Multiset.countP_map, count, values, Multiset.countP_map]
  congr 1
  refine Multiset.filter_congr fun e he => ?_
  rw [lookup_eq_some_iff.mpr he, Option.any_some]

/-- A count that reads the values through `g` sees no other part of them. -/
theorem count_comp_eq {W : Type*} {m' : Table K V} {g : V → W}
    (h : ∀ a, (m'.lookup a).map g = (m.lookup a).map g) (p : W → Bool) :
    m'.count (fun v => p (g v)) = m.count (fun v => p (g v)) := by
  rw [← card_keysWith, ← card_keysWith]
  congr 1
  ext a
  rw [mem_keysWith, mem_keysWith]
  have hre : ∀ o : Option V,
      (∃ b, o = some b ∧ p (g b) = true) ↔ ∃ c, o.map g = some c ∧ p c = true := by
    intro o
    cases o <;> simp
  rw [hre, hre, h]

/-- The entries of two tables with different keys, each matched by an entry of a
third one that has one more, are fewer than those of the third. -/
theorem count_add_count_lt {V₁ V₂ : Type*} {m₁ : Table K V₁} {m₂ : Table K V₂} {p₁ : V₁ → Bool}
    {p₂ : V₂ → Bool} (hap : ∀ k ∈ m₁, k ∉ m₂)
    (h₁ : ∀ k v, m₁.lookup k = some v → p₁ v = true → ∃ w, m.lookup k = some w ∧ p w = true)
    (h₂ : ∀ k v, m₂.lookup k = some v → p₂ v = true → ∃ w, m.lookup k = some w ∧ p w = true)
    (ha : m.lookup a = some b) (hb : p b = true) (ha₁ : a ∉ m₁) (ha₂ : a ∉ m₂) :
    m₁.count p₁ + m₂.count p₂ < m.count p := by
  have hne : ∀ k ∈ m₁.keysWith p₁, k ∉ m₂.keysWith p₂ := by
    intro k hk₁ hk₂
    obtain ⟨v, hv, -⟩ := mem_keysWith.mp hk₁
    obtain ⟨w, hw, -⟩ := mem_keysWith.mp hk₂
    exact hap k (mem_of_lookup_eq_some hv) (mem_of_lookup_eq_some hw)
  have hdi := Finset.disjoint_left.mpr hne
  rw [← card_keysWith, ← card_keysWith, ← card_keysWith, ← Finset.card_union_of_disjoint hdi]
  apply Finset.card_lt_card
  refine (Finset.ssubset_iff_of_subset fun k hk => ?_).mpr
    ⟨a, mem_keysWith.mpr ⟨b, ha, hb⟩, fun hm => ?_⟩
  · rcases Finset.mem_union.mp hk with hk | hk <;> obtain ⟨v, hv, hp⟩ := mem_keysWith.mp hk
    · exact mem_keysWith.mpr (h₁ k v hv hp)
    · exact mem_keysWith.mpr (h₂ k v hv hp)
  · rcases Finset.mem_union.mp hm with hm | hm <;> obtain ⟨v, hv, -⟩ := mem_keysWith.mp hm
    · exact ha₁ (mem_of_lookup_eq_some hv)
    · exact ha₂ (mem_of_lookup_eq_some hv)

omit [DecidableEq K] in
theorem count_true (m : Table K V) : m.count (fun _ => true) = m.size := by
  simp [count, size]

omit [DecidableEq K] in
theorem eq_empty_of_size {m : Table K V} (h : m.size = 0) : m = ∅ := by
  apply ext
  have he : m.entries = 0 := by
    simpa [size, values] using h
  exact he

end Finmap

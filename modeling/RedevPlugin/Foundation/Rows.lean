import Mathlib.Data.List.Nodup

/-! Tables of a database. A table is the list of its rows, in the order of a scan, with
distinct primary keys. A statement updates the rows that meet a condition, deletes them or
adds a row; what it does is read off by looking up a key. -/

namespace RedevPlugin

variable {K V : Type*}

/-- The rows of a table, with distinct keys. -/
structure Rows (key : V → K) where
  rows : List V
  nodup : (rows.map key).Nodup

namespace Rows

variable {key : V → K}

instance [DecidableEq V] : DecidableEq (Rows key) := fun t u =>
  decidable_of_iff (t.rows = u.rows) (by
    cases t
    cases u
    simp)

def empty : Rows key := ⟨[], List.nodup_nil⟩

/-- A change of a row that keeps its key. -/
structure Change (key : V → K) where
  apply : V → V
  keeps : ∀ v, key (apply v) = key v

/-- `UPDATE ... WHERE`. -/
def update (p : V → Bool) (f : Change key) (t : Rows key) : Rows key where
  rows := t.rows.map fun v => if p v then f.apply v else v
  nodup := by
    have hkey : (key ∘ fun v => if p v then f.apply v else v) = key := by
      funext v
      simp only [Function.comp_apply]
      split_ifs with hp
      · exact f.keeps v
      · rfl
    rw [List.map_map, hkey]
    exact t.nodup

/-- `DELETE ... WHERE`. -/
def delete (p : V → Bool) (t : Rows key) : Rows key where
  rows := t.rows.filter fun v => !p v
  nodup := t.nodup.sublist (List.filter_sublist.map key)

/-- The number of rows that meet a condition. -/
def affected (p : V → Bool) (t : Rows key) : ℕ := t.rows.countP p

variable [DecidableEq K]

/-- `SELECT ... WHERE` for a key. -/
def find (t : Rows key) (k : K) : Option V := t.rows.find? fun v => key v = k

variable {v : V} {k : K} {t : Rows key} {f : Change key} {p : V → Bool}

theorem find_eq_some : t.find k = some v ↔ v ∈ t.rows ∧ key v = k := by
  constructor
  · intro h
    exact ⟨List.mem_of_find?_eq_some h, by simpa using List.find?_some h⟩
  · rintro ⟨hv, rfl⟩
    cases hfind : t.find (key v) with
    | none =>
      have hne := List.find?_eq_none.mp hfind v hv
      simp at hne
    | some w =>
      have hw : key w = key v := by simpa using List.find?_some hfind
      rw [List.inj_on_of_nodup_map t.nodup (List.mem_of_find?_eq_some hfind) hv hw]

theorem find_eq_none : t.find k = none ↔ ∀ v ∈ t.rows, key v ≠ k := by
  simp [find]

theorem key_of_find (h : t.find k = some v) : key v = k := (find_eq_some.mp h).2

theorem mem_of_find (h : t.find k = some v) : v ∈ t.rows := (find_eq_some.mp h).1

@[simp] theorem find_empty (k : K) : (empty : Rows key).find k = none := rfl

@[simp] theorem find_update (k : K) :
    (t.update p f).find k = (t.find k).map fun v => if p v then f.apply v else v := by
  have hkey : ∀ v, key (if p v then f.apply v else v) = key v := by
    intro v
    split_ifs with hp
    · exact f.keeps v
    · rfl
  rw [find, update, List.find?_map]
  simp only [Function.comp_def, hkey]
  rfl

@[simp] theorem find_delete (k : K) : (t.delete p).find k = (t.find k).filter fun v => !p v := by
  apply Option.ext
  intro v
  rw [Option.filter_eq_some_iff, find_eq_some, find_eq_some, delete, List.mem_filter]
  tauto

/-- The table with one more row, whose key is new. -/
def push (v : V) (t : Rows key) (h : t.find (key v) = none) : Rows key where
  rows := t.rows ++ [v]
  nodup := by
    rw [List.map_append, List.map_singleton, List.nodup_append_comm]
    simp only [List.singleton_append, List.nodup_cons, List.mem_map, not_exists, not_and]
    exact ⟨fun w hw => find_eq_none.mp h w hw, t.nodup⟩

theorem find_push {h} (k : K) : (t.push v h).find k = if k = key v then some v else t.find k := by
  split_ifs with hk
  · exact find_eq_some.mpr ⟨by simp [push], hk.symm⟩
  · apply Option.ext
    intro w
    simp only [find_eq_some, push, List.mem_append, List.mem_singleton]
    constructor
    · rintro ⟨hw | rfl, hkey⟩
      · exact ⟨hw, hkey⟩
      · exact absurd hkey.symm hk
    · rintro ⟨hw, hkey⟩
      exact ⟨.inl hw, hkey⟩

/-- `INSERT`, which fails if there is a row with the key. -/
def insert (v : V) (t : Rows key) : Option (Rows key) :=
  if h : t.find (key v) = none then some (t.push v h) else none

theorem insert_eq_some {t'} (h : t.insert v = some t') :
    ∃ hnone : t.find (key v) = none, t' = t.push v hnone := by
  unfold insert at h
  split_ifs at h with hnone
  cases h
  exact ⟨hnone, rfl⟩

/-- `INSERT ... ON CONFLICT DO UPDATE`: the change is made to a row with the key. -/
def upsert (v : V) (f : Change key) (t : Rows key) : Rows key :=
  if h : t.find (key v) = none then t.push v h else t.update (fun w => key w = key v) f

theorem find_upsert (k : K) :
    (t.upsert v f).find k =
      if k = key v then some ((t.find k).elim v f.apply) else t.find k := by
  unfold upsert
  split_ifs with h hk hk
  · rw [find_push, if_pos hk, hk, h]
    rfl
  · rw [find_push, if_neg hk]
  · subst hk
    obtain ⟨w, hw⟩ := Option.ne_none_iff_exists'.mp h
    simp [hw, key_of_find hw]
  · rw [find_update]
    cases hw : t.find k with
    | none => rfl
    | some w => simp [key_of_find hw, hk]

/-- A condition that names a key meets one row or none. -/
theorem affected_eq (hp : ∀ v, p v = true → key v = k) :
    t.affected p = if (t.find k).any p then 1 else 0 := by
  have hle : t.affected p ≤ 1 := by
    rw [affected, List.countP_eq_length_filter]
    by_contra hlt
    obtain ⟨a, b, rest, hro⟩ : ∃ a b rest, t.rows.filter p = a :: b :: rest := by
      rcases hfi : t.rows.filter p with _ | ⟨a, _ | ⟨b, rest⟩⟩
      · simp [hfi] at hlt
      · simp [hfi] at hlt
      · exact ⟨a, b, rest, rfl⟩
    have hno : ((t.rows.filter p).map key).Nodup := t.nodup.sublist (List.filter_sublist.map key)
    have hall : ∀ v ∈ t.rows.filter p, key v = k := fun v hv => hp v (List.mem_filter.mp hv).2
    rw [hro] at hno hall
    simp [hall a (by simp), hall b (by simp)] at hno
  have hpos : 0 < t.affected p ↔ (t.find k).any p = true := by
    rw [affected, List.countP_pos_iff, Option.any_eq_true]
    constructor <;> rintro ⟨v, hv, hpv⟩
    · exact ⟨v, find_eq_some.mpr ⟨hv, hp v hpv⟩, hpv⟩
    · exact ⟨v, mem_of_find hv, hpv⟩
  split_ifs with h
  · have := hpos.mpr h
    omega
  · have : ¬ 0 < t.affected p := fun hlt => h (hpos.mp hlt)
    omega

theorem affected_eq_one (hp : ∀ v, p v = true → key v = k) :
    t.affected p = 1 ↔ ∃ v, t.find k = some v ∧ p v = true := by
  rw [affected_eq hp]
  cases hfind : t.find k <;> simp

end Rows

end RedevPlugin

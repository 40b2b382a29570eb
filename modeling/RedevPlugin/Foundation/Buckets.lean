import RedevPlugin.Foundation.Table

/-! Secondary indexes. An index keeps a bucket of identifiers for each key; a bucket that
becomes empty is dropped. `Indexes` says that an index goes with a table: what is in a
bucket is a row of the table with that key, and every live row with a key is found. The
lemmas say how the rows and the index change together. -/

namespace RedevPlugin

/-- Sets of identifiers by key. -/
structure Buckets (K H : Type*) where
  entries : Table K (Finset H)

namespace Buckets

variable {K H R : Type*} [DecidableEq K] [DecidableEq H]

def empty : Buckets K H := ⟨∅⟩

/-- The bucket of a key; it is empty if there is none. -/
def bucket (m : Buckets K H) (k : K) : Finset H := (m.entries.lookup k).getD ∅

def add (m : Buckets K H) (k : K) (h : H) : Buckets K H :=
  ⟨m.entries.insert k (insert h (m.bucket k))⟩

def remove (m : Buckets K H) (k : K) (h : H) : Buckets K H :=
  match m.entries.lookup k with
  | none => m
  | some bucket =>
    if bucket.erase h = ∅ then ⟨m.entries.erase k⟩ else ⟨m.entries.insert k (bucket.erase h)⟩

omit [DecidableEq H] in
@[simp] theorem bucket_empty (k : K) : (empty : Buckets K H).bucket k = ∅ := by
  simp [bucket, empty]

theorem bucket_add (m : Buckets K H) (k k' : K) (h : H) :
    (m.add k h).bucket k' = if k' = k then insert h (m.bucket k) else m.bucket k' := by
  rw [bucket, add, Finmap.lookup_insert_ite]
  split_ifs <;> rfl

theorem bucket_remove (m : Buckets K H) (k k' : K) (h : H) :
    (m.remove k h).bucket k' = if k' = k then (m.bucket k).erase h else m.bucket k' := by
  unfold remove
  cases hl : m.entries.lookup k with
  | none =>
    by_cases hk : k' = k
    · subst hk
      simp [bucket, hl]
    · simp [hk]
  | some b =>
    have hb : m.bucket k = b := by simp [bucket, hl]
    rw [hb]
    dsimp only
    split_ifs with hem hk hk
    · rw [bucket, Finmap.lookup_erase_ite, if_pos hk, hem]
      rfl
    · rw [bucket, Finmap.lookup_erase_ite, if_neg hk]
      rfl
    · rw [bucket, Finmap.lookup_insert_ite, if_pos hk]
      rfl
    · rw [bucket, Finmap.lookup_insert_ite, if_neg hk]
      rfl

variable {h h' : H} {k k' : K}

theorem mem_add {m : Buckets K H} :
    h' ∈ (m.add k h).bucket k' ↔ (k' = k ∧ h' = h) ∨ h' ∈ m.bucket k' := by
  rw [bucket_add]
  split_ifs with hk
  · subst hk
    simp
  · simp [hk]

theorem mem_remove {m : Buckets K H} :
    h' ∈ (m.remove k h).bucket k' ↔ h' ∈ m.bucket k' ∧ ¬(k' = k ∧ h' = h) := by
  rw [bucket_remove]
  split_ifs with hk
  · subst hk
    simp [and_comm]
  · simp [hk]

/-- The index `m` goes with the rows of `t`, of which the live ones must be found. -/
structure Indexes (m : Buckets K H) (t : Table H R) (key : R → Option K) (live : R → Prop) :
    Prop where
  sound : ∀ {k h}, h ∈ m.bucket k → ∃ r, t.lookup h = some r ∧ key r = some k
  complete : ∀ {k h r}, t.lookup h = some r → live r → key r = some k → h ∈ m.bucket k

namespace Indexes

variable {m : Buckets K H} {t : Table H R} {key : R → Option K} {live : R → Prop}

theorem nil : (empty : Buckets K H).Indexes (∅ : Table H R) key live :=
  ⟨fun h => by simp at h, fun h => by simp at h⟩

variable {r : R} {h : H} {k : K}

section

variable (hm : m.Indexes t key live)

include hm

theorem insert_none (hfree : t.lookup h = none) (hkey : key r = none) :
    m.Indexes (t.insert h r) key live := by
  refine ⟨fun {k h'} hmem => ?_, fun {k h' r'} hrow hli hk => ?_⟩
  · obtain ⟨r', hrow, hk⟩ := hm.sound hmem
    refine ⟨r', ?_, hk⟩
    rw [Finmap.lookup_insert_of_ne _ (by rintro rfl; simp [hfree] at hrow)]
    exact hrow
  · rcases Finmap.lookup_of_insert hrow with ⟨-, rfl⟩ | hrow
    · simp [hkey] at hk
    · exact hm.complete hrow hli hk

theorem insert_some (hfree : t.lookup h = none) (hkey : key r = some k) :
    (m.add k h).Indexes (t.insert h r) key live := by
  refine ⟨fun {k' h'} hmem => ?_, fun {k' h' r'} hrow hli hk => ?_⟩
  · rcases mem_add.mp hmem with ⟨rfl, rfl⟩ | hmem
    · exact ⟨r, Finmap.lookup_insert _, hkey⟩
    · obtain ⟨r', hrow, hk⟩ := hm.sound hmem
      refine ⟨r', ?_, hk⟩
      rw [Finmap.lookup_insert_of_ne _ (by rintro rfl; simp [hfree] at hrow)]
      exact hrow
  · rw [Finmap.lookup_insert_ite] at hrow
    rw [mem_add]
    split_ifs at hrow with hh
    · cases hrow
      exact .inl ⟨Option.some.inj (hk.symm.trans hkey), hh⟩
    · exact .inr (hm.complete hrow hli hk)

/-- A row is erased and taken out of its bucket, or of any bucket if it has no key. -/
theorem erase (hrow : t.lookup h = some r) (hkey : ∀ k', key r = some k' → k' = k) :
    (m.remove k h).Indexes (t.erase h) key live := by
  refine ⟨fun {k' h'} hmem => ?_, fun {k' h' r'} hrow' hli hk => ?_⟩
  · obtain ⟨hmem, hne⟩ := mem_remove.mp hmem
    obtain ⟨r', hrow', hk⟩ := hm.sound hmem
    refine ⟨r', ?_, hk⟩
    rw [Finmap.lookup_erase_ite]
    split_ifs with hh
    · subst hh
      cases hrow.symm.trans hrow'
      exact absurd ⟨hkey k' hk, rfl⟩ hne
    · exact hrow'
  · obtain ⟨hne, hrow'⟩ := Finmap.lookup_of_erase hrow'
    exact mem_remove.mpr ⟨hm.complete hrow' hli hk, fun h' => hne h'.2⟩

/-- The rows change and keep their keys. -/
theorem rows {t' : Table H R} {f : H → R → R} (hro : ∀ h, t'.lookup h = (t.lookup h).map (f h))
    (hkey : ∀ {h r}, t.lookup h = some r → key (f h r) = key r)
    (hli : ∀ {h r}, t.lookup h = some r → live (f h r) → live r) : m.Indexes t' key live := by
  refine ⟨fun {k h} hmem => ?_, fun {k h r'} hrow hl hk => ?_⟩
  · obtain ⟨r, hr, hk⟩ := hm.sound hmem
    exact ⟨f h r, by rw [hro, hr]; rfl, (hkey hr).trans hk⟩
  · rw [hro, Option.map_eq_some_iff] at hrow
    obtain ⟨r, hr, rfl⟩ := hrow
    exact hm.complete hr (hli hr hl) ((hkey hr).symm.trans hk)

/-- A row that is not live leaves the index. -/
theorem drop (hde : ∀ r, t.lookup h = some r → ¬ live r) : (m.remove k h).Indexes t key live := by
  refine ⟨fun {k' h'} hmem => hm.sound (mem_remove.mp hmem).1, fun {k' h' r} hrow hl hk => ?_⟩
  refine mem_remove.mpr ⟨hm.complete hrow hl hk, ?_⟩
  rintro ⟨-, rfl⟩
  exact hde r hrow hl

end

end Indexes

end Buckets

end RedevPlugin

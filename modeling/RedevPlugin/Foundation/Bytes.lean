import Mathlib.Data.List.Induction
import Mathlib.Data.String.Basic
import Mathlib.Algebra.Order.Ring.Nat

/-! Byte strings. Numbers are written in a fixed number of bytes, the most
significant one first. A byte string with its length in front can be told from what
follows it, so a list of them can be read back from their concatenation. -/

namespace RedevPlugin.Bytes

/-! ### Numbers -/

/-- The last `width` bytes of a number. -/
def bigEndian : ℕ → ℕ → List UInt8
  | 0, _ => []
  | width + 1, n => bigEndian width (n / 256) ++ [UInt8.ofNat n]

/-- The number that bytes stand for. -/
def value (bs : List UInt8) : ℕ := bs.foldl (fun n b => n * 256 + b.toNat) 0

@[simp] theorem length_bigEndian (width n : ℕ) : (bigEndian width n).length = width := by
  induction width generalizing n with
  | zero => rfl
  | succ width ih => simp [bigEndian, ih]

theorem value_append_singleton (bs : List UInt8) (b : UInt8) :
    value (bs ++ [b]) = value bs * 256 + b.toNat := by
  simp [value]

theorem value_bigEndian (width n : ℕ) (h : n < 256 ^ width) : value (bigEndian width n) = n := by
  induction width generalizing n with
  | zero =>
    obtain rfl : n = 0 := by simpa using h
    rfl
  | succ width ih =>
    have hhi : n / 256 < 256 ^ width := by
      rw [Nat.div_lt_iff_lt_mul (by decide), ← pow_succ]
      exact h
    rw [bigEndian, value_append_singleton, ih _ hhi, UInt8.toNat_ofNat']
    omega

theorem value_lt (bs : List UInt8) : value bs < 256 ^ bs.length := by
  induction bs using List.reverseRecOn with
  | nil => decide
  | append_singleton _ b =>
    have hb : b.toNat < 256 := b.toNat_lt
    rw [value_append_singleton, List.length_append, List.length_singleton, pow_succ]
    omega

theorem bigEndian_value (bs : List UInt8) : bigEndian bs.length (value bs) = bs := by
  induction bs using List.reverseRecOn with
  | nil => rfl
  | append_singleton bs b ih =>
    have hb : b.toNat < 256 := b.toNat_lt
    have hhi : (value bs * 256 + b.toNat) / 256 = value bs := by omega
    rw [List.length_append, List.length_singleton, bigEndian, value_append_singleton, hhi, ih]
    congr 2
    exact UInt8.toNat_inj.mp (by rw [UInt8.toNat_ofNat']; omega)

variable {width n a b : ℕ} {bs front : List UInt8}

theorem bigEndian_value_mod (h : bs.length = width) :
    bigEndian width (value bs % 256 ^ width) = bs := by
  rw [← h, Nat.mod_eq_of_lt (value_lt bs), bigEndian_value]

/-! ### Taking bytes from the front -/

/-- The first `n` bytes and the rest, if there are so many. -/
def readExact (n : ℕ) (bs : List UInt8) : Option (List UInt8 × List UInt8) :=
  if n ≤ bs.length then some (bs.take n, bs.drop n) else none

theorem readExact_eq_some_iff {rest} :
    readExact n bs = some (front, rest) ↔ bs = front ++ rest ∧ front.length = n := by
  constructor
  · intro h
    obtain ⟨hle, rfl, rfl⟩ : n ≤ bs.length ∧ bs.take n = front ∧ bs.drop n = rest := by
      simpa [readExact] using h
    exact ⟨(List.take_append_drop n bs).symm, List.length_take_of_le hle⟩
  · rintro ⟨rfl, rfl⟩
    simp [readExact]

theorem readExact_append (h : front.length = n) (rest : List UInt8) :
    readExact n (front ++ rest) = some (front, rest) :=
  readExact_eq_some_iff.mpr ⟨rfl, h⟩

/-- The bytes from one place up to another. -/
def slice (bs : List UInt8) (start stop : ℕ) : List UInt8 := (bs.take stop).drop start

theorem length_slice {start stop} (h : stop ≤ bs.length) :
    (slice bs start stop).length = stop - start := by
  simp [slice, h]

theorem slice_append_slice {c} (hab : a ≤ b) (hbc : b ≤ c) (hc : c ≤ bs.length) :
    slice bs a b ++ slice bs b c = slice bs a c := by
  have hcut : bs.take b = (bs.take c).take b := by rw [List.take_take, min_eq_left hbc]
  have hle : a ≤ ((bs.take c).take b).length := by
    rw [List.length_take, List.length_take]
    omega
  rw [slice, slice, slice, hcut, ← List.drop_append_of_le_length hle, List.take_append_drop]

theorem slice_all (bs : List UInt8) : slice bs 0 bs.length = bs := by simp [slice]

theorem slice_middle {middle} (ha : front.length = a) (hb : a + middle.length = b)
    (rest : List UInt8) : slice (front ++ (middle ++ rest)) a b = middle := by
  subst ha hb
  simp [slice, List.take_append]

/-! ### Byte strings with their lengths -/

/-- Byte strings that are not empty are no more than the bytes of their concatenation. -/
theorem length_le_length_flatMap {α : Type*} {f : α → List UInt8} (hne : ∀ a, f a ≠ [])
    (l : List α) : l.length ≤ (l.flatMap f).length := by
  induction l with
  | nil => simp
  | cons a l ih =>
    have hpos := List.length_pos_iff.mpr (hne a)
    rw [List.flatMap_cons, List.length_append, List.length_cons]
    omega

/-! ### Texts -/

/-- The UTF-8 bytes of a text. -/
def utf8 (s : String) : List UInt8 := s.toUTF8.data.toList

theorem utf8_injective : Function.Injective utf8 := by
  intro s t h
  apply String.toByteArray_inj.mp
  exact ByteArray.ext (Array.toList_inj.mp h)

/-- The characters of UTF-8 bytes. -/
def decodeUtf8 (bs : List UInt8) : Option (List Char) :=
  (ByteArray.utf8Decode? ⟨bs.toArray⟩).map Array.toList

theorem decodeUtf8_utf8 (s : String) : decodeUtf8 (utf8 s) = some s.toList := by
  have hb : (⟨(utf8 s).toArray⟩ : ByteArray) = s.toList.utf8Encode := by
    simp [utf8]
  rw [decodeUtf8, hb, List.utf8Decode?_utf8Encode]
  simp

end RedevPlugin.Bytes

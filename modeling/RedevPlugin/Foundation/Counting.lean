import Mathlib.Data.List.Nodup
import Mathlib.Data.List.Count

/-! Counting list entries by a Boolean predicate: what the counts of the
bookkeeping proofs need beyond the library's. -/

namespace List

variable {α : Type*}

theorem countP_not_add (f : α → Bool) (l : List α) :
    l.countP f + l.countP (fun a => !f a) = l.length := by
  induction l with
  | nil => rfl
  | cons a l ih =>
    simp only [countP_cons, length_cons]
    cases f a <;> simp <;> omega

theorem countP_congr_mem {f g : α → Bool} {l : List α} (h : ∀ a ∈ l, f a = g a) :
    l.countP f = l.countP g :=
  countP_congr fun a ha => by rw [h a ha]

/-- Two predicates that differ at one entry of a duplicate-free list. -/
theorem countP_flip {f g : α → Bool} {l : List α} {a : α} (hn : l.Nodup) (ha : a ∈ l)
    (hf : f a = true) (hg : g a = false) (he : ∀ x ∈ l, x ≠ a → f x = g x) :
    l.countP f = l.countP g + 1 := by
  induction l with
  | nil => cases ha
  | cons b l ih =>
    obtain ⟨hb, hn⟩ := nodup_cons.mp hn
    rw [countP_cons, countP_cons]
    by_cases hab : b = a
    · subst hab
      have hre : l.countP f = l.countP g :=
        countP_congr_mem fun x hx => he x (mem_cons_of_mem _ hx) fun h => hb (h ▸ hx)
      rw [hre, hf, hg]
      rfl
    · have hmem : a ∈ l := (mem_cons.mp ha).resolve_left fun h => hab h.symm
      rw [ih hn hmem fun x hx => he x (mem_cons_of_mem _ hx), he b mem_cons_self hab]
      omega

end List

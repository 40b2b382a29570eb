import Mathlib.Data.List.Nodup
import Mathlib.Data.List.Count

/-! Order within a list. `Precedes a b l` says that `a` stands before `b`; for
entries that occur once it is decided by any sublist that holds both. `Fifo`
relates the log of a first-in-first-out queue to its content: what was accepted,
less what was removed from the middle, is what was taken from the front followed
by what still waits. -/

namespace List

variable {α : Type*}

/-- `a` occurs before some occurrence of `b`. -/
def Precedes (a b : α) (l : List α) : Prop := [a, b].Sublist l

namespace Precedes

variable {a b : α} {l l' : List α}

theorem of_sublist (hs : l'.Sublist l) (h : Precedes a b l') : Precedes a b l := h.trans hs

theorem right_mem (h : Precedes a b l) : b ∈ l := h.subset (by simp)

theorem of_mem_left (ha : a ∈ l) (b : α) (r : List α) : Precedes a b (l ++ b :: r) :=
  (singleton_sublist.mpr ha).append (singleton_sublist.mpr mem_cons_self)

theorem of_cons_ne {c} (hne : a ≠ c) (h : Precedes a b (c :: l)) : Precedes a b l := by
  cases h with
  | cons _ h => exact h
  | cons_cons => exact absurd rfl hne

theorem of_append_notMem {r} (ha : a ∉ l) (h : Precedes a b (l ++ r)) : Precedes a b r := by
  induction l with
  | nil => exact h
  | cons c l ih =>
    rw [mem_cons, not_or] at ha
    exact ih ha.2 (of_cons_ne ha.1 h)

theorem total (ha : a ∈ l) (hb : b ∈ l) (hne : a ≠ b) : Precedes a b l ∨ Precedes b a l := by
  obtain ⟨x, y, rfl⟩ := append_of_mem ha
  rcases mem_append.mp hb with hb | hb
  · exact .inr (of_mem_left hb a y)
  · have hy : b ∈ y := (mem_cons.mp hb).resolve_left hne.symm
    exact .inl ((cons_sublist_cons.mpr (singleton_sublist.mpr hy)).trans
      (sublist_append_right x (a :: y)))

variable [DecidableEq α]

theorem asymm (ha : l.count a = 1) (hb : l.count b = 1) (hne : a ≠ b) (h : Precedes a b l) :
    ¬ Precedes b a l := by
  intro h'
  induction l with
  | nil => cases h
  | cons c l ih =>
    by_cases hca : c = a
    · subst hca
      rw [count_cons_self, Nat.add_eq_right, count_eq_zero] at ha
      exact ha (of_cons_ne hne.symm h').right_mem
    · by_cases hcb : c = b
      · subst hcb
        rw [count_cons_self, Nat.add_eq_right, count_eq_zero] at hb
        exact hb (of_cons_ne hne h).right_mem
      · rw [count_cons_of_ne hca] at ha
        rw [count_cons_of_ne hcb] at hb
        exact ih ha hb (of_cons_ne (Ne.symm hca) h) (of_cons_ne (Ne.symm hcb) h')

/-- A sublist keeps the order of the entries it holds. -/
theorem sublist (h : Precedes a b l) (hs : l'.Sublist l) (ha : l.count a = 1)
    (hb : l.count b = 1) (hne : a ≠ b) (ha' : a ∈ l') (hb' : b ∈ l') : Precedes a b l' :=
  (total ha' hb' hne).resolve_right fun h' => h.asymm ha hb hne (h'.of_sublist hs)

end Precedes

/-- A sublist that keeps the entries with `p` has the same entries with `p`. -/
theorem Sublist.filter_eq {l l' : List α} (h : l'.Sublist l) (hn : l.Nodup) {p : α → Bool}
    (hk : ∀ a ∈ l, p a = true → a ∈ l') : l.filter p = l'.filter p := by
  induction h with
  | slnil => rfl
  | @cons _ _ a h ih =>
    obtain ⟨ha, hn⟩ := nodup_cons.mp hn
    have hp : p a = false := by
      by_contra hp
      exact ha (h.subset (hk a mem_cons_self (by simpa using hp)))
    rw [filter_cons_of_neg (by simp [hp]), ih hn fun x hx => hk x (mem_cons_of_mem a hx)]
  | @cons_cons _ _ a _ ih =>
    obtain ⟨ha, hn⟩ := nodup_cons.mp hn
    have hih := ih hn fun x hx hpx => (mem_cons.mp (hk x (mem_cons_of_mem a hx) hpx)).resolve_left
      fun he => ha (he ▸ hx)
    rw [filter_cons, filter_cons, hih]

section Fifo

variable [DecidableEq α]

/-- The log of a queue: accepted less removed is taken and then waiting. -/
def Fifo (accepted removed taken waiting : List α) : Prop :=
  accepted.filter (fun a => a ∉ removed) = taken ++ waiting

namespace Fifo

variable {accepted removed taken waiting : List α}

theorem push (h : Fifo accepted removed taken waiting) {a} (ha : a ∉ removed) :
    Fifo (accepted ++ [a]) removed taken (waiting ++ [a]) := by
  rw [Fifo, filter_append, h, append_assoc]
  simp [ha]

theorem pop {a} (h : Fifo accepted removed taken (a :: waiting)) :
    Fifo accepted removed (taken ++ [a]) waiting := by
  rw [Fifo, h, append_assoc, singleton_append]

theorem remove (h : Fifo accepted removed taken waiting) {gone} (hta : ∀ a ∈ taken, a ∉ gone) :
    Fifo accepted (removed ++ gone) taken (waiting.filter (fun a => a ∉ gone)) := by
  have hsp : accepted.filter (fun a => a ∉ removed ++ gone) =
      (accepted.filter (fun a => a ∉ removed)).filter (fun a => a ∉ gone) := by
    rw [filter_filter]
    exact filter_congr fun a _ => by simp [Bool.and_comm]
  rw [Fifo, hsp, h, filter_append, filter_eq_self.mpr (by simpa using hta)]

/-- Nothing is both taken and waiting if nothing was accepted twice. -/
theorem disjoint (h : Fifo accepted removed taken waiting) (hn : accepted.Nodup) {a}
    (ht : a ∈ taken) : a ∉ waiting := by
  have hn' : (taken ++ waiting).Nodup := h ▸ hn.filter _
  exact fun hw => (nodup_append.mp hn').2.2 a ht a hw rfl

end Fifo

end Fifo

end List

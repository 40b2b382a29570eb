import RedevPlugin.Resource.Custody

/-! Closing an entry waits for its operations. After its mark a call of `close` takes
every lock of the entry once. An operation that has a lock after that has it from a
later time, and finds the mark. So when `Revoke` returns, an operation on an entry that
it has removed cannot succeed any more. -/

namespace RedevPlugin.Resource

open Threads

variable {Q : Type}

/-- The order in which `close` takes the locks. -/
def Mutex.rank : Mutex → ℕ
  | .operation => 0
  | .read => 1
  | .write => 2
  | .control => 3

/-- The call has marked the entry and has not returned from `close`. -/
def Call.closing (e : ℕ) : Call Q → ℕ
  | .shut e' .closeResource _ | .shut e' (.await _) _ => if e' = e then 1 else 0
  | _ => 0

/-- The call has marked the entry and has still to take the lock. -/
def Call.pending (e : ℕ) (m : Mutex) : Call Q → ℕ
  | .shut e' .closeResource _ => if e' = e then 1 else 0
  | .shut e' (.await m') _ => if e' = e ∧ m'.rank ≤ m.rank then 1 else 0
  | _ => 0

/-- The call has found the mark, or will. -/
def Call.Late : Call Q → Prop
  | .check .. => True
  | .release _ _ _ result => result.err ≠ none
  | _ => False

/-- The entries that `Revoke` is done with. -/
def After.done (e : ℕ) : After Q → Prop
  | .revoke _ _ removed rest => e ∈ removed ∧ e ∉ rest
  | _ => False

def Call.done (e : ℕ) : Call Q → Prop
  | .revoking _ _ removed rest => e ∈ removed ∧ e ∉ rest
  | .shut e' _ after => e' ≠ e ∧ after.done e
  | _ => False

open Call (closing pending done locks)

theorem Call.pending_le_closing (c : Call Q) (e : ℕ) (m : Mutex) : c.pending e m ≤ c.closing e := by
  cases c with
  | shut _ stage =>
    cases stage with
    | closeResource | mark => exact le_rfl
    | await =>
      simp only [pending, closing]
      split_ifs <;> simp_all
  | _ => exact le_rfl

namespace HandleTable

variable {limits : Limits} {holds : Q → Owner → Bool} {s t : HandleTable} {c d : Call Q}
  {ev : Event Q} {n : Option (Call Q)} {calls rest : Multiset (Call Q)}

/-- All operations that have not found the mark of the entry are over. -/
def Finished (s : HandleTable) (calls : Multiset (Call Q)) (e : ℕ) : Prop :=
  (s.heap e).closed = true ∧ ∀ m, weight (pending e m) calls = 0

structure Drained (s : HandleTable) (calls : Multiset (Call Q)) : Prop where
  alone : ∀ e, weight (closing e) calls ≤ (s.heap e).closed.toNat
  late : ∀ e m, (s.heap e).closed = true → weight (pending e m) calls = 0 →
    ∀ c ∈ calls, c.locks e m ≠ 0 → c.Late
  done : ∀ c ∈ calls, ∀ e, c.done e → s.Finished calls e

variable {e : ℕ} {m : Mutex}

section

variable (h : Step limits holds s c ev t n)

include h

theorem Step.closed_mono (he : e ≠ s.next) (hclosed : (s.heap e).closed = true) :
    (t.heap e).closed = true := by
  cases h with
  | published => simpa [heap_insertEntry, he] using hclosed
  | marked | closed | locked | released =>
    rw [heap_setEntry]
    split_ifs with heq
    · simp_all
    · exact hclosed
  | _ => exact hclosed

/-- An entry is marked once. -/
theorem Step.closing (hfresh : (s.heap s.next).closed = false) (e : ℕ) :
    n.elim 0 (closing e) + (s.heap e).closed.toNat ≤ c.closing e + (t.heap e).closed.toNat := by
  cases h with
  | @notPublished =>
    rw [Call.unlock_weight fun _ => rfl]
    simp [closing]
  | @published =>
    rw [Call.unlock_weight fun _ => rfl, heap_insertEntry]
    split_ifs with he
    · simp [he, hfresh, closing]
    · simp [closing]
  | @marked e' _ hclosed =>
    by_cases he : e = e'
    · subst he
      simp [closing, heap_setEntry, hclosed]
    · simp [closing, heap_setEntry, he, Ne.symm he]
  | @closed e' | @locked _ e' | @released _ e' =>
    by_cases he : e = e'
    · simp [closing, heap_setEntry, he]
    · simp [closing, heap_setEntry, he, Ne.symm he]
  | @twice _ after | @shut _ after => cases after <;> simp [closing, After.next]
  | _ => simp [closing]

/-- All locks are still to be taken when an entry is marked. -/
theorem Step.pending_of_mark (hopen : (s.heap e).closed = false)
    (hclosed : (t.heap e).closed = true) (m : Mutex) : n.elim 0 (pending e m) = 1 := by
  cases h with
  | published =>
    rw [heap_insertEntry] at hclosed
    split_ifs at hclosed
    simp [hopen] at hclosed
  | @marked =>
    rw [heap_setEntry] at hclosed
    split_ifs at hclosed with he
    · simp [pending, he]
    · simp [hopen] at hclosed
  | @closed | @locked | @released =>
    rw [heap_setEntry] at hclosed
    split_ifs at hclosed with he
    · simp [← he, hopen] at hclosed
    · simp [hopen] at hclosed
  | _ => exact absurd (hopen.symm.trans hclosed) (by simp)

/-- After the mark no lock comes to those that are still to be taken. -/
theorem Step.pending_le (hclosed : (s.heap e).closed = true) (m : Mutex) :
    n.elim 0 (pending e m) ≤ c.pending e m := by
  cases h with
  | @notPublished | @published =>
    rw [Call.unlock_weight fun _ => rfl]
    exact Nat.zero_le _
  | @marked e' _ hopen =>
    have he : e' ≠ e := by
      rintro rfl
      simp [hclosed] at hopen
    simp [pending, he]
  | closed =>
    simp only [Option.elim, pending, Mutex.rank, Nat.zero_le, and_true]
    exact le_rfl
  | waited _ hnext =>
    simp only [List.mem_cons, Prod.mk.injEq, List.not_mem_nil, or_false] at hnext
    simp only [Option.elim, pending]
    rcases hnext with ⟨rfl, rfl⟩ | ⟨rfl, rfl⟩ | ⟨rfl, rfl⟩ <;> cases m <;> simp [Mutex.rank]
  | @twice _ after | @shut _ after => cases after <;> simp [pending, After.next]
  | _ => simp [pending]

/-- A lock that is no longer to be taken was free. -/
theorem Step.free_of_pending (hdr : n.elim 0 (pending e m) < c.pending e m) :
    (s.heap e).held m = false ∧ n.elim 0 (locks e m) = 0 := by
  cases h with
  | closed =>
    simp only [Option.elim, pending, Mutex.rank, Nat.zero_le, and_true] at hdr
    exact absurd hdr (lt_irrefl _)
  | @waited e' _ m' _ _ hnext =>
    simp only [Option.elim, pending] at hdr
    have hpos : e' = e ∧ m'.rank ≤ m.rank := by
      by_contra hnot
      rw [if_neg hnot] at hdr
      exact absurd hdr (Nat.not_lt_zero _)
    obtain ⟨rfl, hra⟩ := hpos
    simp only [List.mem_cons, Prod.mk.injEq, List.not_mem_nil, or_false] at hnext
    refine ⟨?_, rfl⟩
    rcases hnext with ⟨rfl, rfl⟩ | ⟨rfl, rfl⟩ | ⟨rfl, rfl⟩ <;> cases m <;>
      simp_all [Mutex.rank]
  | @shut e' =>
    have hpos : e' = e ∧ Mutex.control.rank ≤ m.rank := by
      by_contra hnot
      rw [pending, if_neg hnot] at hdr
      exact absurd hdr (Nat.not_lt_zero _)
    obtain ⟨rfl, hra⟩ := hpos
    cases m <;> simp_all [Mutex.rank]
  | _ => simp [pending] at hdr

/-- After the mark an operation does not go on. -/
theorem Step.late_of_closed (hn : n = some d) (hclosed : (s.heap e).closed = true)
    (hd : d.locks e m ≠ 0) (hc : c.locks e m ≠ 0 → c.Late) : d.Late := by
  cases h with
  | @notPublished inv | @published inv =>
    cases hl : inv.lifetime <;> rw [hl] at hn <;> cases hn
    exact absurd rfl hd
  | @twice _ after | @shut _ after =>
    cases after <;> cases hn
    exact absurd rfl hd
  | locked =>
    cases hn
    trivial
  | late | refused =>
    cases hn
    simp [Call.Late]
  | passed hopen =>
    cases hn
    simp only [locks, ne_eq, ite_eq_right_iff, one_ne_zero, imp_false, not_not] at hd
    simp [hd.1, hclosed] at hopen
  | reached | replied =>
    cases hn
    exact (hc hd).elim
  | _ => cases hn <;> exact absurd rfl hd

theorem Step.done (hn : n = some d) (hd : d.done e) :
    c.done e ∨ (∃ after, c = .shut e .mark after ∧ (s.heap e).closed = true) ∨
      (∃ after, c = .shut e (.await .control) after) ∧ ∀ m, d.pending e m = 0 := by
  cases h with
  | @notPublished inv | @published inv =>
    cases hl : inv.lifetime <;> rw [hl] at hn <;> cases hn
    exact hd.elim
  | taken | stale =>
    cases hn
    exact hd.2.elim
  | removing =>
    cases hn
    exact absurd hd.1 hd.2
  | going =>
    cases hn
    obtain ⟨hne, hmem, hre⟩ := hd
    refine .inl ⟨hmem, fun hco => ?_⟩
    rcases List.mem_cons.mp hco with rfl | hco
    · exact hne rfl
    · exact hre hco
  | @twice e' after hclosed =>
    by_cases he : e' = e
    · subst he
      exact .inr (.inl ⟨after, rfl, hclosed⟩)
    · cases after <;> cases hn
      exact .inl ⟨he, hd⟩
  | @shut e' after =>
    cases after <;> cases hn
    by_cases he : e' = e
    · subst he
      exact .inr (.inr ⟨⟨_, rfl⟩, fun _ => rfl⟩)
    · exact .inl ⟨he, hd⟩
  | marked | closed | waited =>
    cases hn
    exact .inl hd
  | _ => cases hn <;> exact hd.elim

end

theorem entry_quiet (hc : entry c = true) : (∀ e, c.closing e = 0) ∧ (∀ e m, c.pending e m = 0) ∧
    (∀ e m, c.locks e m = 0) ∧ ∀ e, ¬ c.done e := by
  cases c <;> simp [entry, closing, pending, locks, done] at hc ⊢

theorem Finished.enter (h : s.Finished calls e) (hc : entry c = true) :
    s.Finished (c ::ₘ calls) e := by
  refine ⟨h.1, fun m => ?_⟩
  rw [weight_cons, h.2 m, (entry_quiet hc).2.1]

theorem Drained.enter (h : Drained s calls) (hc : entry c = true) : Drained s (c ::ₘ calls) := by
  obtain ⟨hcl, hpending, hlo, hdo⟩ := entry_quiet hc
  refine ⟨fun e => ?_, fun e m hclosed hz d hd hloc => ?_, fun d hd e he => ?_⟩
  · rw [weight_cons, hcl, zero_add]
    exact h.alone e
  · rw [weight_cons, hpending, zero_add] at hz
    rcases Multiset.mem_cons.mp hd with rfl | hd
    · exact absurd (hlo e m) hloc
    · exact h.late e m hclosed hz d hd hloc
  · rcases Multiset.mem_cons.mp hd with rfl | hd
    · exact absurd he (hdo e)
    · exact (h.done d hd e he).enter hc

theorem Finished.advance (hs : Sound limits s (c ::ₘ rest)) (h : s.Finished (c ::ₘ rest) e)
    (hstep : Step limits holds s c ev t n) : t.Finished (Threads.next n + rest) e := by
  have he : e ≠ s.next := by
    rintro rfl
    exact absurd h.1 (by simp [hs.fresh.2.1])
  refine ⟨hstep.closed_mono he h.1, fun m => ?_⟩
  have hle := hstep.pending_le h.1 m
  have hz := h.2 m
  rw [weight_cons] at hz
  rw [weight_next]
  omega

theorem Drained.advance (hs : Sound limits s (c ::ₘ rest)) (h : Drained s (c ::ₘ rest))
    (hstep : Step limits holds s c ev t n) : Drained t (Threads.next n + rest) := by
  have hc := Multiset.mem_cons_self c rest
  refine ⟨fun e => ?_, fun e m hclosed hz d hd hlo => ?_, fun d hd e he => ?_⟩
  · have hmo := hstep.closing hs.fresh.2.1 e
    have hb := h.alone e
    rw [weight_cons] at hb
    rw [weight_next]
    omega
  · rw [weight_next] at hz
    cases hb : (s.heap e).closed with
    | false =>
      have hone := hstep.pending_of_mark hb hclosed m
      omega
    | true =>
      by_cases hpending : weight (pending e m) (c ::ₘ rest) = 0
      · have hla := h.late e m hb hpending
        rcases mem_next_add.mp hd with hn | hd
        · exact hstep.late_of_closed hn hb hlo (hla c hc)
        · exact hla d (Multiset.mem_cons_of_mem hd) hlo
      · -- the step takes the lock, so that no call has it
        rw [weight_cons] at hpending
        obtain ⟨hfree, hnext⟩ := hstep.free_of_pending (e := e) (m := m) (by omega)
        rcases mem_next_add.mp hd with rfl | hd
        · exact absurd hnext hlo
        have hheld := hs.held_of_locks (Multiset.mem_cons_of_mem hd) hlo
        simp [hfree] at hheld
  · rcases mem_next_add.mp hd with rfl | hd
    · rcases hstep.done rfl he with hdo | ⟨after, rfl, hclosed⟩ | ⟨⟨after, rfl⟩, hpending⟩
      · exact (h.done c hc e hdo).advance hs hstep
      · exact absurd hclosed (by simp [hs.open_of_mark])
      have hal := h.alone e
      rw [weight_cons, closing, if_pos rfl] at hal
      have hone := Bool.toNat_le (s.heap e).closed
      have hclosed : (s.heap e).closed = true := Bool.toNat_eq_one.mp (by omega)
      have he : e ≠ s.next := by
        rintro rfl
        exact absurd hclosed (by simp [hs.fresh.2.1])
      refine ⟨hstep.closed_mono he hclosed, fun m => ?_⟩
      have hle : weight (pending e m) rest ≤ weight (closing e) rest :=
        weight_le_weight (fun c => c.pending_le_closing e m) rest
      rw [weight_next, Option.elim, hpending m]
      omega
    · exact (h.done d (Multiset.mem_cons_of_mem hd) e he).advance hs hstep

end HandleTable

end RedevPlugin.Resource

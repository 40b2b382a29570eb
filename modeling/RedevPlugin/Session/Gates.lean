import Mathlib.Algebra.BigOperators.Group.Multiset.Basic
import Mathlib.Tactic.Abel
import RedevPlugin.Session.Coordinator

/-! What the gates count. Every call at a gate puts a load on it: a reservation, the
ownership of a teardown, a wait. The numbers in a gate are the sum of these loads, and
a gate is in the map exactly while its load is not zero. A section of a call swaps the
load of the call for another one, so that one lemma covers all of them. -/

namespace RedevPlugin.Session

open Threads
open Coordinator (setGate cleanupGateLocked newGate signalGateLocked advance)
open Multiset (mem_cons_of_mem mem_cons_self mem_add mem_cons)
open Function (update_self update_of_ne update update_eq_self)

variable {S : Type}

/-- The scope and the gate that a call stands at. -/
def Call.at : Call S → Option (S × ℕ)
  | .reserve _ | .acquire _ _ => none
  | .reserveWait scope g _ | .reserveGet scope g | .reserveDrop scope g _ | .reservation scope g
  | .acquireWait _ scope g _ | .drain _ scope g | .drainWait _ scope g _ | .store _ scope g
  | .mark scope g | .teardown scope g | .release _ scope g _ => some (scope, g)

/-- Reservations, ownership and waits of a call. -/
def Call.load : Call S → ℕ × ℕ × ℕ
  | .reserve _ | .acquire _ _ => 0
  | .reserveWait .. | .acquireWait .. => (0, 0, 1)
  | .reserveGet .. | .reserveDrop .. | .reservation .. => (1, 0, 0)
  | .drainWait .. => (0, 1, 1)
  | .drain .. | .store .. | .mark .. | .teardown .. | .release .. => (0, 1, 0)

/-- The owner has seen that there are no reservations. -/
def Call.drained : Call S → Bool
  | .store .. | .mark .. | .teardown .. | .release .. => true
  | _ => false

/-- The scope and the gate of a `Finalize` that owns it. -/
def Call.finalizing : Call S → Option (S × ℕ)
  | .drain .finalize scope g | .drainWait .finalize scope g _ | .store .finalize scope g
  | .release .finalize scope g _ => some (scope, g)
  | _ => none

def ScopeGate.load (gate : ScopeGate) : ℕ × ℕ × ℕ :=
  (gate.active, gate.teardown.toNat, gate.waiters)

/-- The calls that know of a record: it was found or written, or it was deleted. -/
def Call.tells : Call S → Bool
  | .mark _ _ => true
  | .reserveDrop _ _ revoked => revoked
  | .release op _ _ ok => op = .finalize && ok
  | _ => false

inductive Section [DecidableEq S] (s : Coordinator S) :
    Call S → Event S → Coordinator S → Option (Call S) → Prop
  | refused {k g u} (hu : s.gateLocked k = (g, u))
      (hteardown : (u.heap g).teardown = true) (hfenced : (u.heap g).fenced = true) :
    Section s (.reserve k) (.refused k) u none
  /-- A call comes to the gate of its scope. -/
  | arrived {c d k g u gate}
      (hu : s.gateLocked k = (g, u)) (hc : c.at = none) (hd : d.at = some (k, g))
      (hload : gate.load = (u.heap g).load + d.load)
      (hactive : gate.active ≤ (u.heap g).active ∨ (u.heap g).teardown = false)
      (hdrained : d.drained = true → gate.active = 0) (htells : d.tells = false)
      (hfenced : gate.fenced = (u.heap g).fenced)
      (hfin : d.finalizing = none ∨ c = .acquire .finalize k ∧ (u.heap g).teardown = false) :
    Section s c .silent (u.setGate g gate) (some d)
  /-- The end of a wait. -/
  | left {c k g e n}
      (hc : c.at = some (k, g)) (hload : c.load = (0, 0, 1)) (hn : ∀ d ∈ n, d.at = none)
      (he : e = .silent ∨ e = .failed k) : Section s c e (s.leaveWait k g) n
  /-- An owner looks at the gate. -/
  | stayed {c d k g gate t}
      (ht : t = s.setGate g gate) (hc : c.at = some (k, g)) (hd : d.at = some (k, g))
      (hload : gate.load + c.load = (s.heap g).load + d.load)
      (hactive : gate.active ≤ (s.heap g).active) (hdrained : d.drained = true → gate.active = 0)
      (hctells : c.tells = false) (htells : d.tells = false)
      (hfenced : gate.fenced = (s.heap g).fenced) (hfin : d.finalizing = c.finalizing) :
    Section s c .silent t (some d)
  | woken {op k g changed} :
    Section s (.drainWait op k g changed) .silent
      (s.setGate g { s.heap g with waiters := (s.heap g).waiters - 1 }) (some (.drain op k g))
  | canceled {op k g changed} :
    Section s (.drainWait op k g changed) (.failed k) ((s.setGate g (signalGateLocked
      { s.heap g with waiters := (s.heap g).waiters - 1, teardown := false })).cleanupGateLocked
        k g)
      none
  /-- The gates stay as they are. -/
  | moved {c d k g e} (hc : c.at = some (k, g))
      (hd : d.at = some (k, g)) (hload : d.load = c.load)
      (hdrained : d.drained = true → c.drained = true) (hctells : c.tells = false)
      (htells : d.tells = true → d = .reserveDrop k g true ∧ s.records k = true)
      (hfin : d.finalizing = c.finalizing)
      (he : e = .silent ∨ e = .reserved k ∧ c = .reserveGet k g ∧ s.records k = false) :
    Section s c e s (some d)
  | written {k g d} (hd : d = .mark k g ∨ d = .release .begin k g false) :
    Section s (.store .begin k g) (.written k) (s.setRecord k true) (some d)
  | deleted {k g} :
    Section s (.store .finalize k g) .silent (s.setRecord k false)
      (some (.release .finalize k g true))
  | marked {k g} :
    Section s (.mark k g) (.begun k) (s.markGateFenced k g) (some (.teardown k g))
  | unreserved {c k g e} (hc : c.at = some (k, g))
      (hload : c.load = (1, 0, 0))
      (he : e = .silent ∨ e = .failed k ∨ e = .refused k ∧ c = .reserveDrop k g true) :
    Section s c e (s.releaseReservation k g) none
  | released {c k g e} (hc : c.at = some (k, g))
      (hdrained : c.drained = true)
      (he : e = .finalized k ∧ c = .release .finalize k g true ∨
        c.tells = false ∧ (e = .silent ∨ e = .failed k)) :
    Section s c e (s.releaseTeardown k g) none

variable {c d : Call S} {g g' : ℕ} {k : S} {calls rest : Multiset (Call S)} {n : Option (Call S)}
  {s t : Coordinator S} {gate : ScopeGate} {op : TeardownOp} {e : Event S} {o : Choice}

theorem Call.load_eq_zero_iff : c.load = 0 ↔ c.at = none := by
  cases c <;> simp [Call.load, Call.at, Prod.ext_iff]

theorem Call.at_of_finalizing (h : c.finalizing = some (k, g)) :
    c.at = some (k, g) ∧ c.load.2.1 = 1 := by
  revert h
  fun_cases Call.finalizing c <;> rintro ⟨⟩ <;> exact ⟨rfl, rfl⟩

theorem Call.load_of_drained (h : c.drained = true) : c.load = (0, 1, 0) := by
  cases c <;> simp_all [Call.drained, Call.load]

def Call.loadOn (g : ℕ) (c : Call S) : ℕ × ℕ × ℕ :=
  if c.at.map Prod.snd = some g then c.load else 0

theorem Call.loadOn_of_at (h : c.at = some (k, g)) : c.loadOn g = c.load := by
  simp [Call.loadOn, h]

theorem Call.loadOn_of_ne (h : c.at = none ∨ c.at = some (k, g)) (hne : g' ≠ g) :
    c.loadOn g' = 0 := by
  rcases h with h | h <;> simp [Call.loadOn, h, Ne.symm hne]

/-- At this gate or at none, the load is on this gate. -/
theorem Call.loadOn_eq_load (h : c.at = none ∨ c.at = some (k, g)) : c.loadOn g = c.load := by
  rcases h with h | h
  · rw [Call.loadOn, Call.load_eq_zero_iff.mpr h, ite_self]
  · exact Call.loadOn_of_at h

/-- The loads of calls on a gate. -/
def total (calls : Multiset (Call S)) (g : ℕ) : ℕ × ℕ × ℕ := (calls.map (Call.loadOn g)).sum

@[simp] theorem total_cons (c : Call S) (calls : Multiset (Call S)) (g : ℕ) :
    total (c ::ₘ calls) g = c.loadOn g + total calls g := by
  rw [total, Multiset.map_cons, Multiset.sum_cons, total]

theorem loadOn_le_total (h : c ∈ calls) (g : ℕ) : c.loadOn g ≤ total calls g := by
  obtain ⟨rest, rfl⟩ := Multiset.exists_cons_of_mem h
  rw [total_cons]
  exact ⟨Nat.le_add_right _ _, Nat.le_add_right _ _, Nat.le_add_right _ _⟩

/-- The load of the position that a section leads to. -/
def nextLoad (n : Option (Call S)) : ℕ × ℕ × ℕ := n.elim 0 Call.load

theorem total_next (hn : ∀ d ∈ n, d.at = none ∨ d.at = some (k, g)) (g' : ℕ) :
    total (next n + rest) g' = (if g' = g then nextLoad n else 0) + total rest g' := by
  cases n with
  | none => simp [nextLoad]
  | some d =>
    have hd := hn d rfl
    rw [next_some, Multiset.singleton_add, total_cons]
    by_cases hg : g' = g
    · subst hg
      rw [if_pos rfl, Call.loadOn_eq_load hd]
      rfl
    · rw [if_neg hg, Call.loadOn_of_ne hd hg]

/-- The gates in the map count the calls at them. -/
structure Loose (s : Coordinator S) (calls : Multiset (Call S)) : Prop where
  fresh : ∀ k g, s.gates k = some g → g < s.next
  injective : ∀ k k' g, s.gates k = some g → s.gates k' = some g → k = k'
  refs : ∀ c ∈ calls, ∀ k g, c.at = some (k, g) → s.gates k = some g
  load : ∀ k g, s.gates k = some g → (s.heap g).load = total calls g
  drained : ∀ c ∈ calls, c.drained = true → ∀ k g, c.at = some (k, g) → (s.heap g).active = 0

/-- Besides, no gate is idle. -/
structure Coherent (s : Coordinator S) (calls : Multiset (Call S)) : Prop
    extends Loose s calls where
  used : ∀ k g, s.gates k = some g → (s.heap g).load ≠ 0

theorem Loose.load_le (h : Loose s calls) (hc : c ∈ calls) (hat : c.at = some (k, g)) :
    c.load ≤ (s.heap g).load := by
  rw [h.load k g (h.refs c hc k g hat), ← Call.loadOn_of_at hat]
  exact loadOn_le_total hc g

/-- An owner has set the flag. -/
theorem Loose.teardown_of_drained (h : Loose s calls) (hc : c ∈ calls)
    (hdrained : c.drained = true) (hat : c.at = some (k, g)) : (s.heap g).teardown = true := by
  have hle := (h.load_le hc hat).2.1
  rw [Call.load_of_drained hdrained] at hle
  cases ht : (s.heap g).teardown with
  | true => rfl
  | false => simp [ScopeGate.load, ht] at hle

/-- A section swaps the load of its call. -/
theorem Loose.swap (h : Loose s (c ::ₘ rest)) (hg : s.gates k = some g)
    (hc : c.at = none ∨ c.at = some (k, g)) (hn : ∀ d ∈ n, d.at = none ∨ d.at = some (k, g))
    (hload : gate.load + c.load = (s.heap g).load + nextLoad n)
    (hactive : gate.active ≤ (s.heap g).active ∨ (s.heap g).teardown = false)
    (hdrained : ∀ d ∈ n, d.drained = true → gate.active = 0) :
    Loose (s.setGate g gate) (next n + rest) where
  fresh := h.fresh
  injective := h.injective
  refs d hd k' g' hat := by
    rcases mem_next_add.mp hd with hd | hd
    · rcases hn d hd with hd | hd <;> cases hd.symm.trans hat
      exact hg
    · exact h.refs d (mem_cons_of_mem hd) k' g' hat
  load k' g' hg' := by
    have hold := h.load k' g' hg'
    rw [total_cons] at hold
    rw [total_next hn]
    by_cases hne : g' = g
    · subst hne
      rw [Call.loadOn_eq_load hc] at hold
      rw [if_pos rfl]
      simp only [setGate, update_self]
      rw [hold] at hload
      have hca : gate.load + c.load = nextLoad n + total rest g' + c.load := by
        rw [hload]
        abel
      exact add_right_cancel hca
    · rw [Call.loadOn_of_ne hc hne] at hold
      rw [if_neg hne]
      simpa only [setGate, update_of_ne hne] using hold
  drained d hd hdr k' g' hat := by
    by_cases hne : g' = g
    · subst hne
      simp only [setGate, update_self]
      rcases mem_next_add.mp hd with hd | hd
      · exact hdrained d hd hdr
      · have hmem := mem_cons_of_mem (b := c) hd
        rcases hactive with hle | hfa
        · have hz := h.drained d hmem hdr k' g' hat
          omega
        · simp [h.teardown_of_drained hmem hdr hat] at hfa
    · simp only [setGate, update_of_ne hne]
      rcases mem_next_add.mp hd with hd | hd
      · rcases hn d hd with hd | hd <;> cases hd.symm.trans hat
        exact absurd rfl hne
      · exact h.drained d (mem_cons_of_mem hd) hdr k' g' hat

theorem total_ne_zero (hc : c ∈ calls) (hat : c.at = some (k, g)) : total calls g ≠ 0 := by
  intro hz
  have hle := loadOn_le_total hc g
  rw [hz, Call.loadOn_of_at hat] at hle
  have hload : c.load = 0 := by
    simp only [Prod.le_def, Prod.ext_iff, Prod.fst_zero, Prod.snd_zero, Nat.le_zero] at hle ⊢
    exact hle
  simp [Call.load_eq_zero_iff.mp hload] at hat

/-- A call at no gate does not count. -/
theorem coherent_cons_iff (hc : c.at = none) : Coherent s (c ::ₘ rest) ↔ Coherent s rest := by
  have hto : ∀ g, total (c ::ₘ rest) g = total rest g := by
    intro g
    rw [total_cons, Call.loadOn, hc]
    exact zero_add _
  have hmem : ∀ {d k g}, d ∈ c ::ₘ rest → d.at = some (k, g) → d ∈ rest := by
    intro d k g hd hat
    rcases mem_cons.mp hd with rfl | hd
    · cases hc.symm.trans hat
    · exact hd
  constructor <;> rintro ⟨⟨hfresh, hin, hre, hload, hdrained⟩, hus⟩
  · exact ⟨⟨hfresh, hin, fun d hd => hre d (mem_cons_of_mem hd),
      fun k g hg => (hload k g hg).trans (hto g),
      fun d hd => hdrained d (mem_cons_of_mem hd)⟩, hus⟩
  · exact ⟨⟨hfresh, hin, fun d hd k g hat => hre d (hmem hd hat) k g hat,
      fun k g hg => (hload k g hg).trans (hto g).symm,
      fun d hd hdr k g hat => hdrained d (hmem hd hat) hdr k g hat⟩, hus⟩

/-- What `gateLocked` returns: the gate of the scope, with all others in use. -/
structure Opened (s t : Coordinator S) (k : S) (g : ℕ) (calls : Multiset (Call S)) : Prop where
  gate : t.gates k = some g
  loose : Loose t calls
  others : ∀ k' g', k' ≠ k → t.gates k' = some g' → (t.heap g').load ≠ 0
  records : t.records = s.records
  existing : (t.heap g).teardown = true → t = s

/-- The first section of a call, which puts it at the gate of its scope. -/
theorem Opened.swap (h : Opened s t k g (c ::ₘ rest)) (hc : c.at = none)
    (hd : d.at = some (k, g)) (hload : gate.load = (t.heap g).load + d.load)
    (hactive : gate.active ≤ (t.heap g).active ∨ (t.heap g).teardown = false)
    (hdrained : d.drained = true → gate.active = 0) :
    Coherent (t.setGate g gate) (next (some d) + rest) := by
  have hn : ∀ d' ∈ some d, d'.at = none ∨ d'.at = some (k, g) := by
    rintro d' ⟨⟩
    exact .inr hd
  have hload' : gate.load + c.load = (t.heap g).load + nextLoad (some d) := by
    rw [hload, Call.load_eq_zero_iff.mpr hc]
    rfl
  have hlo := h.loose.swap h.gate (.inl hc) hn hload' hactive (by rintro d' ⟨⟩; exact hdrained)
  refine ⟨hlo, fun k' g' hk' => ?_⟩
  by_cases hne : k' = k
  · subst hne
    have hg : g' = g := Option.some.inj (hk'.symm.trans h.gate)
    subst hg
    rw [hlo.load k' g' hk']
    exact total_ne_zero (mem_add.mpr (.inl (Multiset.mem_singleton_self d))) hd
  · have hg : g' ≠ g := fun heq => hne (h.loose.injective k' k g (heq ▸ hk') h.gate)
    simp only [setGate, update_of_ne hg]
    exact h.others k' g' hne hk'

theorem checkActive_cases (s : Coordinator S) (op : TeardownOp) (k : S) (g : ℕ) :
    ((s.heap g).active = 0 ∧ s.checkActive op k g = (.silent, s, some (.store op k g))) ∨
    ((s.heap g).active ≠ 0 ∧ s.checkActive op k g =
      (.silent, s.setGate g { s.heap g with waiters := (s.heap g).waiters + 1 },
        some (.drainWait op k g (s.heap g).changed))) := by
  rw [Coordinator.checkActive]
  by_cases h : (s.heap g).active = 0
  · exact .inl ⟨h, if_pos h⟩
  · exact .inr ⟨h, if_neg h⟩

/-- An owner that waits has set the flag, and is counted among the waiters. -/
theorem Loose.drainWait {changed} (h : Loose s calls) (hc : .drainWait op k g changed ∈ calls) :
    (s.heap g).teardown = true ∧ 1 ≤ (s.heap g).waiters := by
  have hle := h.load_le hc rfl
  have hnat : 1 ≤ (s.heap g).teardown.toNat := hle.2.1
  refine ⟨?_, hle.2.2⟩
  cases ht : (s.heap g).teardown with
  | true => rfl
  | false => simp [ht] at hnat

theorem coherent_new {s : Coordinator S} (h : s.New) : Coherent s 0 := by
  have hg : ∀ k g, s.gates k ≠ some g := by
    intro k g hk
    simp [show s.gates = _ from h] at hk
  exact ⟨⟨fun k g hk => absurd hk (hg k g), fun k _ g hk => absurd hk (hg k g), by simp,
    fun k g hk => absurd hk (hg k g), by simp⟩, fun k g hk => absurd hk (hg k g)⟩

/-- What two calls load on a gate, it counts. -/
theorem Loose.add_load_le (h : Loose s (c ::ₘ rest)) (hd : d ∈ rest) (hc : c.at = some (k, g))
    (hdat : d.at = some (k, g')) : c.load + d.load ≤ (s.heap g).load := by
  have hg := h.refs c (mem_cons_self c rest) k g hc
  have hg' := h.refs d (mem_cons_of_mem hd) k g' hdat
  rw [hg] at hg'
  cases hg'
  rw [h.load k g hg, total_cons, Call.loadOn_of_at hc, ← Call.loadOn_of_at hdat]
  have hle := loadOn_le_total hd g
  exact ⟨Nat.add_le_add_left hle.1 _, Nat.add_le_add_left hle.2.1 _, Nat.add_le_add_left hle.2.2 _⟩

theorem Loose.owner_unique (h : Loose s (c ::ₘ rest)) (hd : d ∈ rest) (hc : c.at = some (k, g))
    (hdat : d.at = some (k, g')) (hcl : c.load.2.1 = 1) (hdl : d.load.2.1 = 1) : False := by
  have hle : c.load.2.1 + d.load.2.1 ≤ (s.heap g).teardown.toNat := (h.add_load_le hd hc hdat).2.1
  have hone : (s.heap g).teardown.toNat ≤ 1 := Bool.toNat_le _
  omega

/-- There is no reservation of a scope while its owner has seen that there is none. -/
theorem Loose.exclusive (h : Loose s calls) (hc : c ∈ calls) (hd : d ∈ calls)
    (hcat : c.at = some (k, g)) (hdat : d.at = some (k, g')) (hload : c.load.1 = 1)
    (hdd : d.drained = true) : False := by
  have hg := h.refs c hc k g hcat
  rw [h.refs d hd k g' hdat] at hg
  cases hg
  have hz := h.drained d hd hdd k g hdat
  have hle : c.load.1 ≤ (s.heap g).active := (h.load_le hc hcat).1
  omega

variable [DecidableEq S]

/-- The gate that a section was at is removed if it is idle. -/
theorem Loose.cleanup (h : Loose s calls) (hg : s.gates k = some g)
    (hus : ∀ k' g', k' ≠ k → s.gates k' = some g' → (s.heap g').load ≠ 0) :
    Coherent (s.cleanupGateLocked k g) calls := by
  rw [cleanupGateLocked]
  split_ifs with hidle
  · have hz : total calls g = 0 := by
      rw [← h.load k g hg, ScopeGate.load, hidle.2.1, hidle.2.2.1, hidle.2.2.2]
      rfl
    have hga : ∀ k' g', update s.gates k none k' = some g' → k' ≠ k ∧ s.gates k' = some g' := by
      intro k' g' hk'
      by_cases hne : k' = k
      · subst hne
        simp at hk'
      · rw [update_of_ne hne] at hk'
        exact ⟨hne, hk'⟩
    refine ⟨⟨?_, ?_, ?_, ?_, h.drained⟩, ?_⟩
    · exact fun k' g' hk' => h.fresh k' g' (hga k' g' hk').2
    · exact fun k' k'' g' h1 h2 => h.injective k' k'' g' (hga k' g' h1).2 (hga k'' g' h2).2
    · intro c hc k' g' hat
      have hk' := h.refs c hc k' g' hat
      by_cases hne : k' = k
      · subst hne
        rw [hg] at hk'
        cases hk'
        exact absurd hz (total_ne_zero hc hat)
      · exact (update_of_ne hne _ _).trans hk'
    · exact fun k' g' hk' => h.load k' g' (hga k' g' hk').2
    · exact fun k' g' hk' => hus k' g' (hga k' g' hk').1 (hga k' g' hk').2
  · refine ⟨h, fun k' g' hk' => ?_⟩
    by_cases hne : k' = k
    · subst hne
      rw [hg] at hk'
      cases hk'
      intro hload
      simp only [ScopeGate.load, Prod.ext_iff, Prod.fst_zero, Prod.snd_zero,
        Bool.toNat_eq_zero] at hload
      exact hidle ⟨hg, hload.1, hload.2.1, hload.2.2⟩
    · exact hus k' g' hne hk'

theorem cleanupGateLocked_of_load (h : (s.heap g).load ≠ 0) (k : S) :
    s.cleanupGateLocked k g = s := by
  rw [cleanupGateLocked, if_neg]
  rintro ⟨-, hactive, hteardown, hwa⟩
  exact h (by rw [ScopeGate.load, hactive, hteardown, hwa]; rfl)

/-- A section of a call that is at a gate, with the cleanup behind it. -/
theorem Coherent.swap_cleanup (h : Coherent s (c ::ₘ rest)) (hc : c.at = some (k, g))
    (hn : ∀ d ∈ n, d.at = none ∨ d.at = some (k, g))
    (hload : gate.load + c.load = (s.heap g).load + nextLoad n)
    (hactive : gate.active ≤ (s.heap g).active)
    (hdrained : ∀ d ∈ n, d.drained = true → gate.active = 0) :
    Coherent ((s.setGate g gate).cleanupGateLocked k g) (next n + rest) := by
  have hg := h.refs c (mem_cons_self c rest) k g hc
  refine (h.swap hg (.inr hc) hn hload (.inl hactive) hdrained).cleanup hg fun k' g' hne hk' => ?_
  have hne' : g' ≠ g := fun heq => hne (h.injective k' k g (heq ▸ hk') hg)
  simp only [setGate, update_of_ne hne']
  exact h.used k' g' hk'

theorem Coherent.swap_keep (h : Coherent s (c ::ₘ rest)) (hc : c.at = some (k, g))
    (hd : d.at = some (k, g)) (hload : gate.load + c.load = (s.heap g).load + d.load)
    (hactive : gate.active ≤ (s.heap g).active) (hdrained : d.drained = true → gate.active = 0) :
    Coherent (s.setGate g gate) (next (some d) + rest) := by
  have hn : ∀ d' ∈ some d, d'.at = none ∨ d'.at = some (k, g) := by
    rintro d' ⟨⟩
    exact .inr hd
  have hg := h.refs c (mem_cons_self c rest) k g hc
  have hsw := h.swap_cleanup hc hn hload hactive (by rintro d' ⟨⟩; exact hdrained)
  have hlo := h.swap hg (.inr hc) hn hload (.inl hactive) (by rintro d' ⟨⟩; exact hdrained)
  have hne : ((s.setGate g gate).heap g).load ≠ 0 := by
    rw [hlo.load k g hg]
    exact total_ne_zero (mem_add.mpr (.inl (Multiset.mem_singleton_self d))) hd
  rwa [cleanupGateLocked_of_load hne] at hsw

theorem Coherent.opened (h : Coherent s calls) (k : S) :
    Opened s (s.gateLocked k).2 k (s.gateLocked k).1 calls := by
  rw [Coordinator.gateLocked]
  cases hk : s.gates k with
  | some g => exact ⟨hk, h.toLoose, fun k' g' _ => h.used k' g', rfl, fun _ => rfl⟩
  | none =>
    have hg : ∀ k' g', update s.gates k (some s.next) k' = some g' →
        k' = k ∧ g' = s.next ∨ k' ≠ k ∧ s.gates k' = some g' := by
      intro k' g' hk'
      by_cases hne : k' = k
      · subst hne
        rw [update_self] at hk'
        exact .inl ⟨rfl, (Option.some.inj hk').symm⟩
      · rw [update_of_ne hne] at hk'
        exact .inr ⟨hne, hk'⟩
    have hre : ∀ c ∈ calls, ∀ k' g', c.at = some (k', g') → k' ≠ k ∧ g' < s.next := by
      intro c hc k' g' hat
      have hk' := h.refs c hc k' g' hat
      refine ⟨?_, h.fresh k' g' hk'⟩
      rintro rfl
      simp [hk] at hk'
    have hto : total calls s.next = 0 := by
      apply Multiset.sum_eq_zero
      intro x hx
      obtain ⟨c, hc, rfl⟩ := Multiset.mem_map.mp hx
      rw [Call.loadOn, if_neg]
      intro hat
      obtain ⟨⟨k', g'⟩, hat, rfl⟩ := Option.map_eq_some_iff.mp hat
      exact absurd (hre c hc k' _ hat).2 (lt_irrefl _)
    have hhe : ∀ g', g' < s.next → update s.heap s.next newGate g' = s.heap g' :=
      fun g' hg' => update_of_ne (Nat.ne_of_lt hg') _ _
    refine ⟨update_self .., ⟨?_, ?_, ?_, ?_, ?_⟩, ?_, rfl, ?_⟩
    · intro k' g' hk'
      rcases hg k' g' hk' with ⟨-, rfl⟩ | ⟨-, hk'⟩
      · exact Nat.lt_succ_self _
      · exact Nat.lt_succ_of_lt (h.fresh k' g' hk')
    · intro k' k'' g' h1 h2
      rcases hg k' g' h1 with ⟨hk', hg'⟩ | ⟨-, hk'⟩ <;>
        rcases hg k'' g' h2 with ⟨hk'', hg''⟩ | ⟨-, hk''⟩
      · rw [hk', hk'']
      · exact absurd (hg' ▸ h.fresh k'' g' hk'') (lt_irrefl _)
      · exact absurd (hg'' ▸ h.fresh k' g' hk') (lt_irrefl _)
      · exact h.injective k' k'' g' hk' hk''
    · intro c hc k' g' hat
      exact (update_of_ne (hre c hc k' g' hat).1 _ _).trans (h.refs c hc k' g' hat)
    · intro k' g' hk'
      rcases hg k' g' hk' with ⟨-, rfl⟩ | ⟨-, hk'⟩
      · rw [hto]
        simp [newGate, ScopeGate.load]
      · exact (congrArg ScopeGate.load (hhe g' (h.fresh k' g' hk'))).trans (h.load k' g' hk')
    · intro c hc hdr k' g' hat
      exact (congrArg ScopeGate.active (hhe g' (hre c hc k' g' hat).2)).trans
        (h.drained c hc hdr k' g' hat)
    · intro k' g' hne hk'
      rcases hg k' g' hk' with ⟨rfl, -⟩ | ⟨-, hk'⟩
      · exact absurd rfl hne
      · have hload := congrArg ScopeGate.load (hhe g' (h.fresh k' g' hk'))
        exact fun hz => h.used k' g' hk' (hload.symm.trans hz)
    · intro hteardown
      simp [newGate] at hteardown

section

variable (h : Coherent s (c ::ₘ rest)) (hc : c.at = some (k, g))

include h hc

theorem Coherent.leaveWait (hload : c.load = (0, 0, 1)) (hn : ∀ d ∈ n, d.at = none) :
    Coherent (s.leaveWait k g) (next n + rest) := by
  have hle := (h.load_le (mem_cons_self c rest) hc).2.2
  rw [hload] at hle
  simp only [ScopeGate.load] at hle
  have hnext : nextLoad n = 0 := by
    cases n with
    | none => rfl
    | some d => exact Call.load_eq_zero_iff.mpr (hn d rfl)
  rw [Coordinator.leaveWait]
  apply h.swap_cleanup hc (fun d hd => .inl (hn d hd))
  · rw [hload, hnext]
    simp [ScopeGate.load, Nat.sub_add_cancel hle]
  · exact le_rfl
  · intro d hd hdr
    have hat := hn d hd
    simp [← Call.load_eq_zero_iff, Call.load_of_drained hdr] at hat

theorem Coherent.releaseReservation (hload : c.load = (1, 0, 0)) :
    Coherent (s.releaseReservation k g) rest := by
  have hle := (h.load_le (mem_cons_self c rest) hc).1
  rw [hload] at hle
  simp only [ScopeGate.load] at hle
  have hg := h.refs c (mem_cons_self c rest) k g hc
  rw [Coordinator.releaseReservation, if_neg (by simp [hg]; omega)]
  rw [← zero_add rest, ← next_none]
  apply h.swap_cleanup hc (by simp)
  · rw [hload]
    simp [ScopeGate.load, signalGateLocked, nextLoad, Nat.sub_add_cancel hle]
  · exact Nat.sub_le _ _
  · simp

theorem Coherent.releaseTeardown (hdrained : c.drained = true) :
    Coherent (s.releaseTeardown k g) rest := by
  have hteardown := h.teardown_of_drained (mem_cons_self c rest) hdrained hc
  have hg := h.refs c (mem_cons_self c rest) k g hc
  rw [Coordinator.releaseTeardown, if_neg (by simp [hg, hteardown])]
  rw [← zero_add rest, ← next_none]
  apply h.swap_cleanup hc (by simp)
  · rw [Call.load_of_drained hdrained]
    simp [ScopeGate.load, signalGateLocked, nextLoad, hteardown]
  · exact le_rfl
  · simp

end

theorem Coherent.setRecord (h : Coherent s calls) (k : S) (b : Bool) :
    Coherent (s.setRecord k b) calls :=
  ⟨⟨h.fresh, h.injective, h.refs, h.load, h.drained⟩, h.used⟩

/-- A section that leaves the gates as they are. -/
theorem Coherent.move (h : Coherent s (c ::ₘ rest)) (hc : c.at = some (k, g))
    (hd : d.at = some (k, g)) (hload : d.load = c.load)
    (hdrained : d.drained = true → c.drained = true) : Coherent s (next (some d) + rest) := by
  have hactive : d.drained = true → (s.heap g).active = 0 := fun hdr =>
    h.drained c (mem_cons_self c rest) (hdrained hdr) k g hc
  have hk : Coherent (s.setGate g (s.heap g)) (next (some d) + rest) :=
    h.swap_keep hc hd (by rw [hload]) le_rfl hactive
  rwa [setGate, update_eq_self] at hk

theorem Coherent.markGateFenced (h : Coherent s (.mark k g ::ₘ rest)) :
    Coherent (s.markGateFenced k g) (next (some (.teardown k g)) + rest) := by
  have hmem := mem_cons_self (.mark k g) rest
  have hteardown := h.teardown_of_drained hmem rfl rfl
  have hactive := h.drained _ hmem rfl k g rfl
  have hg := h.refs _ hmem k g rfl
  rw [Coordinator.markGateFenced, if_neg (by simp [hg, hteardown])]
  exact h.swap_keep rfl rfl rfl le_rfl (fun _ => hactive)

theorem advance_section (hstep : s.advance c o = some (e, t, n)) : Section s c e t n := by
  revert hstep
  fun_cases s.advance c o <;> try rintro ⟨⟩
  · exact .refused ‹_› ‹_› ‹_›
  · exact .arrived ‹_› rfl rfl rfl (.inl le_rfl) (by simp [Call.drained]) rfl rfl (.inl rfl)
  · exact .arrived ‹_› rfl rfl rfl (.inr (Bool.eq_false_iff.mpr ‹_›)) (by simp [Call.drained]) rfl
      rfl (.inl rfl)
  · exact .left rfl rfl (by rintro d ⟨⟩; rfl) (.inl rfl)
  · exact .left rfl rfl (by simp) (.inr rfl)
  · exact .moved rfl rfl rfl (by simp [Call.drained]) rfl (fun _ => ⟨rfl, ‹_›⟩) rfl (.inl rfl)
  · exact .moved rfl rfl rfl (by simp [Call.drained]) rfl (by simp [Call.tells]) rfl
      (.inr ⟨rfl, rfl, by simp_all⟩)
  · exact .moved rfl rfl rfl (by simp [Call.drained]) rfl (by simp [Call.tells]) rfl (.inl rfl)
  · rename_i revoked
    cases revoked
    · exact .unreserved rfl rfl (.inr (.inl rfl))
    · exact .unreserved rfl rfl (.inr (.inr ⟨rfl, rfl⟩))
  · exact .unreserved rfl rfl (.inl rfl)
  · exact .arrived ‹_› rfl rfl rfl (.inl le_rfl) (by simp [Call.drained]) rfl rfl (.inl rfl)
  · -- the flag is set and the reservations are looked at in one section
    rename_i op k g u hu _ hteardown
    intro hstep
    replace hteardown : (u.heap g).teardown = false := Bool.eq_false_iff.mpr hteardown
    have hfin {d : Call S} (h : op = .begin → d.finalizing = none) :
        d.finalizing = none ∨ Call.acquire op k = .acquire .finalize k ∧
          (u.heap g).teardown = false := by
      cases op with
      | begin => exact .inl (h rfl)
      | finalize => exact .inr ⟨rfl, hteardown⟩
    have hhe : (u.setGate g { u.heap g with teardown := true }).heap g =
        { u.heap g with teardown := true } := update_self ..
    obtain ⟨hactive, hr⟩ | ⟨-, hr⟩ :=
      checkActive_cases (u.setGate g { u.heap g with teardown := true }) op k g
    · cases hr.symm.trans (Option.some.inj hstep)
      rw [hhe] at hactive
      exact .arrived hu rfl rfl (by simp_all [ScopeGate.load, Call.load]) (.inl le_rfl)
        (fun _ => hactive) rfl rfl (hfin fun h => h ▸ rfl)
    · cases hr.symm.trans (Option.some.inj hstep)
      rw [hhe, setGate, setGate, Function.update_idem]
      exact .arrived hu rfl rfl (by simp [ScopeGate.load, Call.load, hteardown, add_comm])
        (.inl le_rfl) (by simp [Call.drained]) rfl rfl (hfin fun h => h ▸ rfl)
  · exact .left rfl rfl (by rintro d ⟨⟩; rfl) (.inl rfl)
  · exact .left rfl rfl (by simp) (.inr rfl)
  · rename_i op k g
    intro hstep
    obtain ⟨hactive, hr⟩ | ⟨-, hr⟩ := checkActive_cases s op k g
    · cases hr.symm.trans (Option.some.inj hstep)
      exact .stayed (by rw [setGate, update_eq_self]) rfl rfl rfl le_rfl (fun _ => hactive) rfl rfl
        rfl (by cases op <;> rfl)
    · cases hr.symm.trans (Option.some.inj hstep)
      exact .stayed rfl rfl rfl (by simp [ScopeGate.load, Call.load, add_comm]) le_rfl
        (by simp [Call.drained]) rfl rfl rfl (by cases op <;> rfl)
  · exact .woken
  · exact .canceled
  · exact .written (.inl rfl)
  · exact .moved rfl rfl rfl (fun _ => rfl) rfl (by simp [Call.tells]) rfl (.inl rfl)
  · exact .written (.inr rfl)
  · exact .deleted
  · exact .moved rfl rfl rfl (fun _ => rfl) rfl (by simp [Call.tells]) rfl (.inl rfl)
  · exact .marked
  · exact .released rfl rfl (.inr ⟨rfl, .inl rfl⟩)
  · split_ifs with hok
    · obtain ⟨rfl, rfl⟩ := hok
      exact .released rfl rfl (.inl ⟨rfl, rfl⟩)
    · exact .released rfl rfl (.inr ⟨by simpa [Call.tells] using hok, .inr rfl⟩)

theorem Section.coherent (hsec : Section s c e t n) (h : Coherent s (c ::ₘ rest)) :
    Coherent t (next n + rest) := by
  cases hsec with
  | @refused k _ _ hu hteardown =>
    have hope := h.opened k
    rw [hu] at hope
    obtain rfl : t = s := hope.existing hteardown
    rw [next_none, zero_add]
    exact (coherent_cons_iff rfl).mp h
  | @arrived _ _ k _ _ _ hu hc hd hload hactive hdrained =>
    have hope := h.opened k
    rw [hu] at hope
    exact hope.swap hc hd hload hactive hdrained
  | left hc hload hn => exact h.leaveWait hc hload hn
  | stayed ht hc hd hload hactive hdrained =>
    subst ht
    exact h.swap_keep hc hd hload hactive hdrained
  | woken =>
    refine h.swap_keep rfl rfl ?_ le_rfl (by simp [Call.drained])
    simp [ScopeGate.load, Call.load, Nat.sub_add_cancel (h.drainWait (mem_cons_self _ rest)).2]
  | canceled =>
    obtain ⟨hteardown, hwa⟩ := h.drainWait (mem_cons_self _ rest)
    refine h.swap_cleanup rfl (by simp) ?_ le_rfl (by simp)
    simp [ScopeGate.load, Call.load, signalGateLocked, nextLoad, Nat.sub_add_cancel hwa, hteardown]
  | moved hc hd hload hdrained => exact h.move hc hd hload hdrained
  | @written k _ d hd =>
    have hmo : Coherent s (next (some d) + rest) := by
      rcases hd with rfl | rfl <;> exact h.move rfl rfl rfl fun _ => rfl
    exact hmo.setRecord k true
  | @deleted k g =>
    exact (h.move (d := .release .finalize k g true) rfl rfl rfl fun _ => rfl).setRecord k false
  | marked => exact h.markGateFenced
  | unreserved hc hload =>
    rw [next_none, zero_add]
    exact h.releaseReservation hc hload
  | released hc hdrained =>
    rw [next_none, zero_add]
    exact h.releaseTeardown hc hdrained

theorem Coherent.advance (h : Coherent s (c ::ₘ rest)) (hstep : s.advance c o = some (e, t, n)) :
    Coherent t (next n + rest) :=
  (advance_section hstep).coherent h

end RedevPlugin.Session

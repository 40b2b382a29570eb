import RedevPlugin.Resource.Steps

/-! The invariant of the table of handles. Every entry that was made is in one place: in
the table, with the one call that has to close it, or closed. What a call has found it
was allowed to find, and the entries of one owner and class stay within the limit. -/

namespace RedevPlugin.Resource

open Session Threads
open Multiset (count_pos notMem_zero mem_cons mem_cons_self mem_cons_of_mem)

variable {Q : Type}

/-! ### Calls and entries -/

/-- The entries that a call knows. -/
def After.Mentions (e : ℕ) : After Q → Prop
  | .revoke _ _ removed rest => e ∈ removed ∨ e ∈ rest
  | _ => False

def Call.Mentions (e : ℕ) : Call Q → Prop
  | .shut e' _ after => e' = e ∨ after.Mentions e
  | .revoking _ _ removed rest => e ∈ removed ∨ e ∈ rest
  | .lock _ e' _ _ | .check _ e' _ _ _ | .ready _ e' _ _ _ | .inside _ e' _ _ _
  | .release _ e' _ _ => e' = e
  | _ => False

def Call.found : Call Q → Option (ℕ × Owner)
  | .lock _ e owner _ | .check _ e owner _ _ | .ready _ e owner _ _
  | .inside _ e owner _ _ => some (e, owner)
  | _ => none

def Call.publishes : Call Q → Option ℕ
  | .publish inv _ _ => inv.lifetime
  | _ => none

open Call (found publishes locks guards owes marks)

variable {e : ℕ}

theorem Call.mentions_of_found {c : Call Q} {owner : Owner} (h : c.found = some (e, owner)) :
    c.Mentions e := by
  cases c <;> simp_all [found, Call.Mentions]

theorem Call.mentions_of_locks {c : Call Q} {m : Mutex} (h : c.locks e m ≠ 0) : c.Mentions e := by
  cases c <;> simp_all [locks, Call.Mentions]

theorem Call.marks_le_owes (c : Call Q) (e : ℕ) : c.marks e ≤ c.owes e := by
  cases c with
  | shut _ stage =>
    cases stage with
    | closeResource => exact Nat.le_add_right _ _
    | mark | await => exact Nat.zero_le _
  | _ => exact Nat.zero_le _

theorem Call.guards_of_publishes {c : Call Q} {l : ℕ} (h : c.publishes = some l) :
    c.guards l = 1 := by
  cases c <;> simp_all [publishes, guards]

theorem weight_le_weight {κ : Type} {v w} (h : ∀ c, v c ≤ w c) (calls : Multiset κ) :
    weight v calls ≤ weight w calls := by
  induction calls using Multiset.induction with
  | empty => exact le_rfl
  | cons c calls ih =>
    rw [weight_cons, weight_cons]
    exact Nat.add_le_add (h c) ih

namespace HandleTable

variable {limits : Limits} {holds : Q → Owner → Bool} {s t : HandleTable} {c d : Call Q}
  {ev : Event Q} {n : Option (Call Q)}

variable {e l : ℕ} {after : After Q}

theorem listed_pos {id} (h : s.entries.lookup id = some e) : 0 < s.listed e :=
  count_pos.mpr (Finmap.mem_values.mpr ⟨id, h⟩)

section

variable (h : Step limits holds s c ev t n)

include h

/-- What does not change of an entry once it is made. -/
theorem Step.static (he : e ≠ s.next) :
    (t.heap e).owner = (s.heap e).owner ∧ (t.heap e).kind = (s.heap e).kind ∧
      (t.heap e).lifetime = (s.heap e).lifetime := by
  cases h with
  | published => simp [heap_insertEntry, he]
  | marked | closed | locked | released =>
    rw [heap_setEntry]
    split_ifs with heq
    · rw [heq]
      exact ⟨rfl, rfl, rfl⟩
    · exact ⟨rfl, rfl, rfl⟩
  | _ => exact ⟨rfl, rfl, rfl⟩

theorem Step.next_le : s.next ≤ t.next := by
  cases h with
  | published => exact Nat.le_succ _
  | _ => exact le_rfl

/-- A call knows an entry from before, or has found it in the table. -/
theorem Step.mentions (hn : n = some d) (hd : d.Mentions e) : c.Mentions e ∨ 0 < s.listed e := by
  cases h with
  | unbound | bound => cases hn; exact hd.elim
  | @notPublished inv | @published inv =>
    cases hl : inv.lifetime <;> rw [hl] at hn <;> cases hn
    exact hd.elim
  | taken hlookup | stale hlookup =>
    cases hn
    obtain rfl | hd := hd
    · exact .inr (listed_pos hlookup)
    · exact hd.elim
  | @removing _ _ removed hremoved =>
    cases hn
    have hmem : e ∈ removed := or_self_iff.mp hd
    rw [← Multiset.mem_coe, hremoved, Finmap.values_filter] at hmem
    exact .inr (count_pos.mpr (Multiset.mem_of_mem_filter hmem))
  | going =>
    cases hn
    left
    rcases hd with rfl | hd | hd
    · exact .inr List.mem_cons_self
    · exact .inl hd
    · exact .inr (List.mem_cons_of_mem _ hd)
  | @twice _ after | @shut _ after =>
    cases after <;> cases hn
    exact .inl (.inr hd)
  | marked | closed | waited | locked | late | passed | refused | reached | replied =>
    cases hn
    exact .inl hd
  | found hlookup =>
    cases hn
    cases hd
    exact .inr (listed_pos hlookup)
  | _ => cases hn

/-- The owner of what a call has found was compared. -/
theorem Step.owners (hn : n = some d) {owner} (hd : d.found = some (e, owner)) :
    c.found = some (e, owner) ∨ (s.heap e).owner.matches owner = true ∧ 0 < s.listed e := by
  cases h with
  | @notPublished inv | @published inv =>
    cases hl : inv.lifetime <;> rw [hl] at hn <;> cases hn
    cases hd
  | @twice _ after | @shut _ after =>
    cases after <;> cases hn
    cases hd
  | found hlookup howner =>
    cases hn
    cases hd
    exact .inr ⟨howner, listed_pos hlookup⟩
  | locked | passed | reached =>
    cases hn
    exact .inl hd
  | _ => cases hn <;> cases hd

/-- A call that is about to publish has found its lifetime open. -/
theorem Step.publishes (hn : n = some d) (hd : d.publishes = some l) :
    (s.lifetimes l).closed = false ∧ t = s.setLifetime l { s.lifetimes l with held := true } := by
  cases h with
  | unbound hl =>
    cases hn
    simp [publishes, hl] at hd
  | bound hl _ hclosed =>
    cases hn
    rw [publishes, hl] at hd
    cases hd
    exact ⟨hclosed, rfl⟩
  | @notPublished inv | @published inv =>
    cases hl : inv.lifetime <;> rw [hl] at hn <;> cases hn
    cases hd
  | @twice _ after | @shut _ after =>
    cases after <;> cases hn
    cases hd
  | _ => cases hn <;> cases hd

/-- Only `Stop` closes a lifetime, and it waits for the lock. -/
theorem Step.lifetime_closed (hl : (s.lifetimes l).closed = false) :
    (t.lifetimes l).closed = false ∨ (s.lifetimes l).held = false ∧ c = .stop l := by
  cases h with
  | @bound _ _ _ l' | @unlocked l' | @canceled l' =>
    by_cases he : l = l'
    · subst he
      simpa [setLifetime] using hl
    · simpa [setLifetime, he] using hl
  | @stopped l' hheld =>
    by_cases he : l = l'
    · subst he
      exact .inr ⟨hheld, rfl⟩
    · refine .inl ?_
      simpa [setLifetime, he] using hl
  | _ => exact .inl hl

/-- Nothing comes into the table, except what is published. -/
theorem Step.values :
    (t.entries.values ≤ s.entries.values ∧ t.next = s.next) ∨
      ∃ inv kind id resource, t = s.insertEntry inv kind id resource ∧
        s.entries.lookup id = none ∧ s.ownerKindCountLocked inv.owner (kindClassFor kind) <
          limitFor limits (kindClassFor kind) := by
  cases h with
  | published hfresh hadmitted => exact .inr ⟨_, _, _, _, rfl, hfresh, hadmitted⟩
  | taken hlookup | stale hlookup =>
    refine .inl ⟨?_, rfl⟩
    rw [Finmap.values_erase hlookup]
    exact Multiset.le_cons_self _ _
  | @removing _ _ =>
    refine .inl ⟨?_, rfl⟩
    rw [Finmap.values_filter fun e => !s.selects holds _ e]
    exact Multiset.filter_le _ _
  | _ => exact .inl ⟨le_rfl, rfl⟩

end

/-! ### The invariant -/

structure Sound (limits : Limits) (s : HandleTable) (calls : Multiset (Call Q)) : Prop where
  custody : ∀ e, s.listed e + weight (owes e) calls + (s.heap e).closes =
    if e < s.next then 1 else 0
  marking : ∀ e, (s.heap e).closed.toNat = (s.heap e).closes + weight (marks e) calls
  locking : ∀ e m, ((s.heap e).held m).toNat = weight (locks e m) calls
  guarding : ∀ l, (s.lifetimes l).held.toNat = weight (guards l) calls
  known : ∀ c ∈ calls, ∀ e, c.Mentions e → e < s.next
  owners : ∀ c ∈ calls, ∀ e owner, c.found = some (e, owner) → (s.heap e).owner.matches owner = true
  publishing : ∀ c ∈ calls, ∀ l, c.publishes = some l → (s.lifetimes l).closed = false
  limit : ∀ owner cls, s.ownerKindCountLocked owner cls ≤ limitFor limits cls

variable {calls rest : Multiset (Call Q)}

theorem Sound.enter (h : Sound limits s calls) (hc : entry c = true) :
    Sound limits s (c ::ₘ calls) := by
  have hk : (∀ e, c.owes e = 0) ∧ (∀ e, c.marks e = 0) ∧ (∀ e m, c.locks e m = 0) ∧
      (∀ l, c.guards l = 0) ∧ (∀ e, ¬ c.Mentions e) ∧ c.found = none ∧ c.publishes = none := by
    cases c <;> simp [entry, owes, marks, locks, guards, Call.Mentions, found, publishes] at hc ⊢
  obtain ⟨how, hma, hlo, hg, hme, hfound, hpu⟩ := hk
  refine ⟨?_, ?_, ?_, ?_, fun d hd e he => ?_, fun d hd e owner he => ?_, fun d hd l hl => ?_,
    h.limit⟩
  · simpa [how] using h.custody
  · simpa [hma] using h.marking
  · simpa [hlo] using h.locking
  · simpa [hg] using h.guarding
  · rcases mem_cons.mp hd with rfl | hd
    · exact absurd he (hme e)
    · exact h.known d hd e he
  · rcases mem_cons.mp hd with rfl | hd
    · simp [hfound] at he
    · exact h.owners d hd e owner he
  · rcases mem_cons.mp hd with rfl | hd
    · simp [hpu] at hl
    · exact h.publishing d hd l hl

/-! ### What the invariant says -/

theorem Sound.lt_of_listed (h : Sound limits s calls) (he : 0 < s.listed e) : e < s.next := by
  by_contra hlt
  have hcu := h.custody e
  rw [if_neg hlt] at hcu
  omega

theorem Sound.fresh (h : Sound limits s calls) :
    (s.heap s.next).closes = 0 ∧ (s.heap s.next).closed = false ∧
      ∀ m, (s.heap s.next).held m = false := by
  have hcu := h.custody s.next
  rw [if_neg (lt_irrefl _)] at hcu
  have hmar : weight (marks s.next) calls ≤ weight (owes s.next) calls :=
    weight_le_weight (fun c => c.marks_le_owes s.next) calls
  have hma := h.marking s.next
  refine ⟨by omega, Bool.toNat_eq_zero.mp (by omega), fun m => ?_⟩
  · have hz : weight (locks s.next m) calls = 0 := by
      refine weight_eq_zero fun c hc => ?_
      by_contra hloc
      exact lt_irrefl _ (h.known c hc s.next (Call.mentions_of_locks hloc))
    have hlo := h.locking s.next m
    rw [hz] at hlo
    simpa using hlo

/-- The call that has to mark an entry is alone with it. -/
theorem Sound.open_of_mark (h : Sound limits s (.shut e .mark after ::ₘ rest)) :
    (s.heap e).closed = false := by
  have hcu := h.custody e
  have hma := h.marking e
  rw [if_pos (h.known _ (mem_cons_self _ _) e (.inl rfl)), weight_cons] at hcu
  rw [weight_cons] at hma
  have hmar : weight (marks e) rest ≤ weight (owes e) rest :=
    weight_le_weight (fun c => c.marks_le_owes e) rest
  simp only [owes, marks, if_true] at hcu hma
  exact Bool.toNat_eq_zero.mp (by omega)

theorem Sound.closing (h : Sound limits s (.shut e .closeResource after ::ₘ rest)) :
    s.listed e = 0 ∧ (s.heap e).closes = 0 := by
  have hcu := h.custody e
  rw [if_pos (h.known _ (mem_cons_self _ _) e (.inl rfl)), weight_cons] at hcu
  simp only [owes, if_true] at hcu
  omega

theorem Sound.held_of_locks (h : Sound limits s calls) {m} (hc : c ∈ calls)
    (hloc : c.locks e m ≠ 0) : (s.heap e).held m = true := by
  have hle := le_weight (locks e m) hc
  have hlo := h.locking e m
  have hone := Bool.toNat_le ((s.heap e).held m)
  exact Bool.toNat_eq_one.mp (by omega)

theorem Sound.held_of_guards (h : Sound limits s calls) (hc : c ∈ calls) (hgu : c.guards l ≠ 0) :
    (s.lifetimes l).held = true := by
  have hle := le_weight (guards l) hc
  have hg := h.guarding l
  have hone := Bool.toNat_le (s.lifetimes l).held
  exact Bool.toNat_eq_one.mp (by omega)

/-! ### Steps keep it -/

section

variable (h : Sound limits s (c ::ₘ rest)) (hstep : Step limits holds s c ev t n)

include h hstep

/-- The limit, for an owner and a class. -/
theorem Sound.limit_step (owner : Owner) (cls : KindClass) :
    t.ownerKindCountLocked owner cls ≤ limitFor limits cls := by
  have hsame : ∀ e, e ≠ s.next → t.counted owner cls e = s.counted owner cls e := by
    intro e he
    obtain ⟨howner, hkind, -⟩ := hstep.static he
    rw [counted, counted, howner, hkind]
  have hold : ∀ e ∈ s.entries.values, e ≠ s.next := by
    intro e he
    exact (h.lt_of_listed (count_pos.mpr he)).ne
  have hco : s.entries.values.countP (t.counted owner cls · = true) =
      s.ownerKindCountLocked owner cls := by
    refine Multiset.countP_congr rfl fun e he => ?_
    rw [hsame e (hold e he)]
  obtain ⟨hle, -⟩ | ⟨inv, kind, id, resource, rfl, hfresh, hadmitted⟩ := hstep.values
  · calc t.ownerKindCountLocked owner cls
        ≤ s.entries.values.countP (t.counted owner cls · = true) := Multiset.countP_le_of_le _ hle
      _ = s.ownerKindCountLocked owner cls := hco
      _ ≤ limitFor limits cls := h.limit owner cls
  · have hsp : (s.insertEntry inv kind id resource).ownerKindCountLocked owner cls =
        s.ownerKindCountLocked owner cls +
          if (s.insertEntry inv kind id resource).counted owner cls s.next = true
            then 1 else 0 := by
      rw [← hco, ownerKindCountLocked, Finmap.count, entries_insertEntry,
        Finmap.values_insert hfresh, Multiset.countP_cons]
    rw [hsp]
    split_ifs with hnew
    · -- the new entry is counted with those that were counted when it was admitted
      simp only [counted, heap_insertEntry, if_true, Bool.and_eq_true, decide_eq_true_eq] at hnew
      obtain ⟨⟨hpl, hscope⟩, rfl⟩ := hnew
      have hcou : s.counted owner (kindClassFor kind) =
          s.counted inv.owner (kindClassFor kind) := by
        funext e
        rw [counted, counted, hpl, (ResourceScope.matches_iff.mp hscope).2]
      rw [ownerKindCountLocked, hcou]
      exact hadmitted
    · exact h.limit owner cls

theorem Sound.advance : Sound limits t (Threads.next n + rest) := by
  have hc := mem_cons_self c rest
  obtain ⟨hcl, hclosed, hheld⟩ := h.fresh
  have hfi : ∀ e after, c = .shut e .mark after → (s.heap e).closed = false := by
    rintro e after rfl
    exact h.open_of_mark
  have hsta : ∀ e, e < s.next → (t.heap e).owner = (s.heap e).owner :=
    fun e he => (hstep.static he.ne).1
  have hlt : ∀ d ∈ Threads.next n + rest, ∀ e, d.Mentions e → e < s.next := by
    intro d hd e he
    rcases mem_next_add.mp hd with hn | hd
    · rcases hstep.mentions hn he with hold | hli
      · exact h.known c hc e hold
      · exact h.lt_of_listed hli
    · exact h.known d (mem_cons_of_mem hd) e he
  refine ⟨fun e => ?_, fun e => ?_, fun e m => ?_, fun l => ?_, fun d hd e he => ?_,
    fun d hd e owner hfound => ?_, fun d hd l hl => ?_, h.limit_step hstep⟩
  · have hb := h.custody e
    have hmo := hstep.custody hfi hcl e
    have hnext := hstep.next_le
    rw [weight_cons] at hb
    rw [weight_next]
    split_ifs at hb hmo ⊢ <;> omega
  · have hb := h.marking e
    have hmo := hstep.marking hcl hclosed e
    rw [weight_cons] at hb
    rw [weight_next]
    omega
  · exact weight_swap (h.locking e m) (hstep.locking hheld (h.held_of_locks hc))
  · exact weight_swap (h.guarding l) (hstep.guarding (h.held_of_guards hc))
  · exact (hlt d hd e he).trans_le hstep.next_le
  · rw [hsta e (hlt d hd e (Call.mentions_of_found hfound))]
    rcases mem_next_add.mp hd with hn | hd
    · rcases hstep.owners hn hfound with hold | ⟨hma, -⟩
      · exact h.owners c hc e owner hold
      · exact hma
    · exact h.owners d (mem_cons_of_mem hd) e owner hfound
  · rcases mem_next_add.mp hd with hn | hd
    · obtain ⟨hopen, rfl⟩ := hstep.publishes hn hl
      simpa [setLifetime] using hopen
    · have hd' : d ∈ c ::ₘ rest := mem_cons_of_mem hd
      rcases hstep.lifetime_closed (h.publishing d hd' l hl) with hopen | ⟨hfree, -⟩
      · exact hopen
      · have hg := h.held_of_guards hd' (by rw [Call.guards_of_publishes hl]; simp)
        simp [hfree] at hg

end

end HandleTable

end RedevPlugin.Resource

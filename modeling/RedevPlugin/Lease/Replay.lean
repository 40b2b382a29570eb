import RedevPlugin.Foundation.Transition
import RedevPlugin.Foundation.Table
import Mathlib.Data.Prod.Lex
import Mathlib.Data.String.Basic

/-! The replay cache for execution leases. A worker thread reads the clock, checks
that the lease has not expired and then consumes it in the cache, under its lock:
entries that have expired by the clock value it read are pruned, and the lease is
refused if it is still there. Between the reading and the lock other threads may
consume with later clock values, so an entry can be pruned while a thread that
found the lease unexpired is on its way. -/

namespace RedevPlugin.Lease

open Transition

structure WorkerLeaseReplayKey where
  leaseId : String
  leaseNonce : String
  expiresAtUnixMs : ℤ
  deriving DecidableEq

structure RuntimeLeaseReplayIdentity where
  leaseId : String
  leaseNonce : String
  deriving DecidableEq

def WorkerLeaseReplayKey.identity (key : WorkerLeaseReplayKey) : RuntimeLeaseReplayIdentity :=
  ⟨key.leaseId, key.leaseNonce⟩

inductive RuntimeLeaseReplayError where
  | replayed (leaseId : String)
  | capacityExceeded
  deriving DecidableEq

abbrev ExpiryEntry := ℤ × RuntimeLeaseReplayIdentity

/-- The order of the heap: by expiry, then by lease id, then by nonce. -/
def entryRank (entry : ExpiryEntry) : ℤ ×ₗ String ×ₗ String :=
  toLex (entry.1, toLex (entry.2.leaseId, entry.2.leaseNonce))

/-- The heap is the list of its entries in order: its top is the head. -/
structure RuntimeLeaseReplayCache where
  consumedLeases : Table RuntimeLeaseReplayIdentity ℤ := ∅
  expiryIndex : List ExpiryEntry := []
  maxEntries : ℕ := 16384

namespace RuntimeLeaseReplayCache

/-- The loop of `prune_expired`. -/
def prune (now : ℤ) : List ExpiryEntry → Table RuntimeLeaseReplayIdentity ℤ →
    List ExpiryEntry × Table RuntimeLeaseReplayIdentity ℤ
  | [], consumed => ([], consumed)
  | (expires, identity) :: rest, consumed =>
    if now < expires then ((expires, identity) :: rest, consumed)
    else prune now rest
      (if consumed.lookup identity = some expires then consumed.erase identity else consumed)

def pruneExpired (now : ℤ) (c : RuntimeLeaseReplayCache) : RuntimeLeaseReplayCache :=
  { c with
    expiryIndex := (prune now c.expiryIndex c.consumedLeases).1
    consumedLeases := (prune now c.expiryIndex c.consumedLeases).2 }

def push (entry : ExpiryEntry) (heap : List ExpiryEntry) : List ExpiryEntry :=
  heap.orderedInsert (fun a b => entryRank a ≤ entryRank b) entry

def consumeKey (key : WorkerLeaseReplayKey) (now : ℤ) (c : RuntimeLeaseReplayCache) :
    Except RuntimeLeaseReplayError Unit × RuntimeLeaseReplayCache :=
  let c := c.pruneExpired now
  if key.identity ∈ c.consumedLeases then (.error (.replayed key.leaseId), c)
  else if c.maxEntries = 0 ∨ c.maxEntries ≤ c.consumedLeases.size then
    (.error .capacityExceeded, c)
  else (.ok (), { c with
    consumedLeases := c.consumedLeases.insert key.identity key.expiresAtUnixMs
    expiryIndex := push (key.expiresAtUnixMs, key.identity) c.expiryIndex })

theorem prune_suffix (now : ℤ) (heap : List ExpiryEntry)
    (consumed : Table RuntimeLeaseReplayIdentity ℤ) : (prune now heap consumed).1 <:+ heap := by
  induction heap generalizing consumed with
  | nil => exact List.suffix_rfl
  | cons entry rest ih =>
    simp only [prune]
    split_ifs
    · exact List.suffix_rfl
    · exact (ih _).trans (List.suffix_cons ..)
    · exact (ih _).trans (List.suffix_cons ..)

/-- Map and heap have the same entries, each lease once. -/
structure Agrees (heap : List ExpiryEntry) (consumed : Table RuntimeLeaseReplayIdentity ℤ) :
    Prop where
  entry : ∀ identity expires, consumed.lookup identity = some expires ↔ (expires, identity) ∈ heap
  once : (heap.map Prod.snd).Nodup
  sorted : heap.Pairwise (fun a b => entryRank a ≤ entryRank b)

namespace Agrees

variable {heap : List ExpiryEntry} {consumed : Table RuntimeLeaseReplayIdentity ℤ}
  {identity : RuntimeLeaseReplayIdentity} {expires now : ℤ}

variable {rest : List ExpiryEntry}

theorem lookup_head (h : Agrees ((expires, identity) :: rest) consumed) :
    consumed.lookup identity = some expires :=
  (h.entry identity expires).mpr List.mem_cons_self

/-- Without its top the heap agrees with the map without its entry. -/
theorem pop (h : Agrees ((expires, identity) :: rest) consumed) :
    Agrees rest (consumed.erase identity) := by
  have hno := h.once
  simp only [List.map_cons, List.nodup_cons] at hno
  refine ⟨fun i e => ?_, hno.2, h.sorted.of_cons⟩
  rw [Finmap.lookup_erase_ite]
  split_ifs with hi
  · subst hi
    refine ⟨by simp, fun hm => (hno.1 ?_).elim⟩
    exact List.mem_map_of_mem (f := Prod.snd) hm
  · rw [h.entry i e, List.mem_cons, Prod.mk.injEq]
    exact or_iff_right fun he => hi he.2

theorem size_eq (h : Agrees heap consumed) : consumed.size = heap.length := by
  induction heap generalizing consumed with
  | nil =>
    have hem : consumed = ∅ := Finmap.ext_lookup fun i => by
      cases hl : consumed.lookup i with
      | none => simp
      | some e => simpa using (h.entry i e).mp hl
    simp [hem]
  | cons entry rest ih =>
    have hsi := Finmap.size_erase h.lookup_head
    rw [ih h.pop] at hsi
    simpa using hsi

/-- Nothing behind an entry expires before it. -/
theorem expires_le (h : Agrees ((expires, identity) :: rest) consumed) {entry} (hm : entry ∈ rest) :
    expires ≤ entry.1 := by
  have hle := List.rel_of_pairwise_cons h.sorted hm
  rw [entryRank, entryRank, Prod.Lex.toLex_le_toLex] at hle
  rcases hle with hlt | ⟨heq, -⟩
  · exact hlt.le
  · exact heq.le

/-- What is left after the loop are the entries that have not expired. -/
theorem prune (h : Agrees heap consumed) (now : ℤ) :
    Agrees (prune now heap consumed).1 (prune now heap consumed).2 ∧
      ∀ i, (RuntimeLeaseReplayCache.prune now heap consumed).2.lookup i =
        (consumed.lookup i).filter (fun e => now < e) := by
  induction heap generalizing consumed with
  | nil =>
    refine ⟨h, fun i => ?_⟩
    cases hl : consumed.lookup i with
    | none => simp [RuntimeLeaseReplayCache.prune, hl]
    | some e => simpa using (h.entry i e).mp hl
  | cons entry rest ih =>
    obtain ⟨expires, identity⟩ := entry
    by_cases hlt : now < expires
    · simp only [RuntimeLeaseReplayCache.prune, if_pos hlt]
      refine ⟨h, fun i => ?_⟩
      cases hl : consumed.lookup i with
      | none => rfl
      | some e =>
        have hle : expires ≤ e := by
          rcases List.mem_cons.mp ((h.entry i e).mp hl) with he | hm
          · exact (Prod.mk.inj he).1.ge
          · exact h.expires_le hm
        simp [Option.filter, hlt.trans_le hle]
    · simp only [RuntimeLeaseReplayCache.prune, if_neg hlt, if_pos h.lookup_head]
      obtain ⟨hag, hlookup⟩ := ih h.pop
      refine ⟨hag, fun i => ?_⟩
      rw [hlookup i, Finmap.lookup_erase_ite]
      split_ifs with hi
      · subst hi
        simp [h.lookup_head, Option.filter, hlt]
      · rfl

theorem push (h : Agrees heap consumed) (hnew : consumed.lookup identity = none) (expires : ℤ) :
    Agrees (push (expires, identity) heap) (consumed.insert identity expires) := by
  have hpe := List.perm_orderedInsert (fun a b => entryRank a ≤ entryRank b)
    (expires, identity) heap
  refine ⟨fun i e => ?_, ?_, ?_⟩
  · rw [RuntimeLeaseReplayCache.push, hpe.mem_iff, List.mem_cons, Prod.mk.injEq,
      Finmap.lookup_insert_ite]
    split_ifs with hi
    · subst hi
      have hnot : (e, i) ∉ heap := fun hm => by simp [(h.entry i e).mpr hm] at hnew
      simp [hnot, eq_comm]
    · rw [h.entry i e]
      exact (or_iff_right fun he => hi he.2).symm
  · refine (hpe.map Prod.snd).nodup_iff.mpr (List.nodup_cons.mpr ⟨fun hm => ?_, h.once⟩)
    obtain ⟨⟨e, i⟩, hmem, rfl⟩ := List.mem_map.mp hm
    simp [(h.entry i e).mpr hmem] at hnew
  · have : IsTrans ExpiryEntry (fun a b => entryRank a ≤ entryRank b) := ⟨fun _ _ _ => le_trans⟩
    have : Std.Total (fun a b : ExpiryEntry => entryRank a ≤ entryRank b) :=
      ⟨fun a b => le_total (entryRank a) (entryRank b)⟩
    exact h.sorted.orderedInsert _ _

end Agrees

variable {c c' : RuntimeLeaseReplayCache} {key : WorkerLeaseReplayKey} {now : ℤ}
  {result : Except RuntimeLeaseReplayError Unit}

/-- What a call of `consume_key` leaves: the unexpired entries, and the new one if
it returned `Ok`. -/
theorem consumeKey_eq (h : consumeKey key now c = (result, c')) :
    (c' = c.pruneExpired now ∧ result ≠ .ok ()) ∨
    (result = .ok () ∧ (c.pruneExpired now).consumedLeases.lookup key.identity = none ∧
      (c.pruneExpired now).consumedLeases.size < c.maxEntries ∧
      c' = { c.pruneExpired now with
        consumedLeases :=
          (c.pruneExpired now).consumedLeases.insert key.identity key.expiresAtUnixMs
        expiryIndex :=
          push (key.expiresAtUnixMs, key.identity) (c.pruneExpired now).expiryIndex }) := by
  unfold consumeKey at h
  simp only at h
  split_ifs at h with hmem hfull
  · cases h
    exact .inl ⟨rfl, nofun⟩
  · cases h
    exact .inl ⟨rfl, nofun⟩
  · cases h
    exact .inr ⟨rfl, Finmap.lookup_eq_none.mpr hmem, not_le.mp fun hle => hfull (.inr hle), rfl⟩

/-- The cache within its bounds. -/
structure Bounded (c : RuntimeLeaseReplayCache) : Prop where
  agrees : Agrees c.expiryIndex c.consumedLeases
  size_le : c.consumedLeases.size ≤ c.maxEntries

theorem Bounded.init (maxEntries : ℕ) : Bounded { maxEntries } :=
  ⟨⟨by simp, by simp, by simp⟩, Nat.zero_le _⟩

theorem Bounded.pruneExpired (h : Bounded c) (now : ℤ) : Bounded (c.pruneExpired now) := by
  have hag := (h.agrees.prune now).1
  refine ⟨hag, ?_⟩
  calc (c.pruneExpired now).consumedLeases.size
      = (c.pruneExpired now).expiryIndex.length := hag.size_eq
    _ ≤ c.expiryIndex.length := (prune_suffix ..).length_le
    _ = c.consumedLeases.size := h.agrees.size_eq.symm
    _ ≤ c.maxEntries := h.size_le

theorem Bounded.consumeKey (h : Bounded c) (hc : c.consumeKey key now = (result, c')) :
    Bounded c' ∧ c'.maxEntries = c.maxEntries := by
  have hpr := h.pruneExpired now
  rcases consumeKey_eq hc with ⟨rfl, -⟩ | ⟨-, hnew, hlt, rfl⟩
  · exact ⟨hpr, rfl⟩
  · refine ⟨⟨hpr.agrees.push hnew _, ?_⟩, rfl⟩
    rw [Finmap.size_insert hnew]
    exact hlt

end RuntimeLeaseReplayCache

/-- The part of `validate_runtime_lease` that reads the clock. -/
def validateExpiry (key : WorkerLeaseReplayKey) (now : ℤ) : Bool :=
  0 < key.expiresAtUnixMs ∧ now < key.expiresAtUnixMs

structure ReplayState where
  cache : RuntimeLeaseReplayCache := {}
  /-- Threads that validated a lease and do not have the lock yet. -/
  waiting : List (WorkerLeaseReplayKey × ℤ) := []

inductive ReplayOp where
  | validate (key : WorkerLeaseReplayKey) (now : ℤ)
  | consume (key : WorkerLeaseReplayKey) (now : ℤ)

inductive ReplayOutput where
  | validated
  | invalid
  | accepted
  | refused (error : RuntimeLeaseReplayError)
  deriving DecidableEq

namespace ReplayState

/-- One step of one thread: the clock and the check, or the call under the lock. -/
def perform (s : ReplayState) : ReplayOp → Option (ReplayOutput × ReplayState)
  | .validate key now =>
    if validateExpiry key now then
      some (.validated, { s with waiting := s.waiting ++ [(key, now)] })
    else some (.invalid, s)
  | .consume key now =>
    if (key, now) ∈ s.waiting then
      match s.cache.consumeKey key now with
      | (.ok (), cache) => some (.accepted, { cache, waiting := s.waiting.erase (key, now) })
      | (.error error, cache) => some (.refused error,
          { cache, waiting := s.waiting.erase (key, now) })
    else none

end ReplayState

def replays (maxEntries : ℕ) : System ReplayState (ReplayOp × ReplayOutput) :=
  .ofOption (fun s => s = { cache := { maxEntries } }) ReplayState.perform

/-- A step does nothing to the cache, or is a call of `consume_key`. -/
theorem step_cache {maxEntries s t l} (h : (replays maxEntries).step s l t) :
    (t.cache = s.cache ∧ ∃ key now, l.1 = .validate key now) ∨
    ∃ key now result, l.1 = .consume key now ∧
      s.cache.consumeKey key now = (result, t.cache) ∧
      (l.2 = .accepted ↔ result = .ok ()) := by
  obtain ⟨op, out⟩ := l
  change s.perform op = some (out, t) at h
  revert h
  fun_cases s.perform op <;> rintro ⟨⟩
  · exact .inl ⟨rfl, _, _, rfl⟩
  · exact .inl ⟨rfl, _, _, rfl⟩
  · exact .inr ⟨_, _, .ok (), rfl, ‹_›, by simp⟩
  · exact .inr ⟨_, _, .error _, rfl, ‹_›, by simp⟩

def consumeOf : ReplayOp × ReplayOutput → Option (WorkerLeaseReplayKey × ℤ)
  | (.consume key now, _) => some (key, now)
  | _ => none

def acceptedOf : ReplayOp × ReplayOutput → Option WorkerLeaseReplayKey
  | (.consume key _, .accepted) => some key
  | _ => none

/-- The clock values that have reached the cache. -/
def clocks (h : List (ReplayOp × ReplayOutput)) : List ℤ := (h.filterMap consumeOf).map Prod.snd

/-- When a lease reaches the cache, each lease with its id and nonce that reached
it before expires later than every clock value so far, this one included. -/
def stillRecorded (h : List (ReplayOp × ReplayOutput)) : ReplayOp → Bool
  | .consume key now => (h.filterMap consumeOf).all fun earlier =>
      !decide (earlier.1.identity = key.identity) ||
        (now :: clocks h).all fun clock => clock < earlier.1.expiresAtUnixMs
  | .validate .. => true

/-- An accepted lease is in the map until a clock at or after its expiry reached
the cache. -/
structure Recorded (h : List (ReplayOp × ReplayOutput)) (c : RuntimeLeaseReplayCache) : Prop where
  agrees : RuntimeLeaseReplayCache.Agrees c.expiryIndex c.consumedLeases
  once : ((h.filterMap acceptedOf).map WorkerLeaseReplayKey.identity).Nodup
  entry : ∀ key ∈ h.filterMap acceptedOf,
    c.consumedLeases.lookup key.identity = some key.expiresAtUnixMs ∨
      ∃ clock ∈ clocks h, key.expiresAtUnixMs ≤ clock

section

variable {h : List (ReplayOp × ReplayOutput)} {c c' : RuntimeLeaseReplayCache}
  {key : WorkerLeaseReplayKey} {now : ℤ}

theorem exists_consume_of_accepted (hk : key ∈ h.filterMap acceptedOf) :
    ∃ now, (key, now) ∈ h.filterMap consumeOf := by
  obtain ⟨⟨op, out⟩, hl, he⟩ := List.mem_filterMap.mp hk
  cases op with
  | validate => cases he
  | consume _ now =>
    cases out with cases he
    | accepted => exact ⟨now, List.mem_filterMap.mpr ⟨_, hl, rfl⟩⟩

variable {earlier : WorkerLeaseReplayKey} {out : ReplayOutput}

section

variable (hr : Recorded h c)

include hr

/-- A guarded call finds what was accepted before. -/
theorem Recorded.found (hg : stillRecorded h (.consume key now) = true)
    (hk : earlier ∈ h.filterMap acceptedOf) (hid : earlier.identity = key.identity) :
    c.consumedLeases.lookup key.identity = some earlier.expiresAtUnixMs ∧
      now < earlier.expiresAtUnixMs := by
  obtain ⟨clock, hc⟩ := exists_consume_of_accepted hk
  simp only [stillRecorded, List.all_eq_true, Bool.or_eq_true, Bool.not_eq_true',
    decide_eq_false_iff_not, decide_eq_true_eq] at hg
  have hla := (hg _ hc).resolve_left (not_not.mpr hid)
  refine ⟨?_, hla now List.mem_cons_self⟩
  rcases hr.entry earlier hk with hen | ⟨clock, hcl, hle⟩
  · rw [← hid]
    exact hen
  · exact absurd (hla clock (List.mem_cons_of_mem _ hcl)) (not_lt.mpr hle)

/-- An entry that is pruned has expired by the clock of the call. -/
theorem Recorded.pruned (now : ℤ) (hk : earlier ∈ h.filterMap acceptedOf) :
    (c.pruneExpired now).consumedLeases.lookup earlier.identity = some earlier.expiresAtUnixMs ∨
      ∃ clock ∈ clocks h ++ [now], earlier.expiresAtUnixMs ≤ clock := by
  rcases hr.entry earlier hk with hen | ⟨clock, hcl, hle⟩
  · by_cases hlt : now < earlier.expiresAtUnixMs
    · left
      exact ((hr.agrees.prune now).2 _).trans (by simp [hen, Option.filter, hlt])
    · exact .inr ⟨now, by simp, not_lt.mp hlt⟩
  · exact .inr ⟨clock, List.mem_append_left _ hcl, hle⟩

/-- A guarded call does not accept what was accepted before. -/
theorem Recorded.fresh (hg : stillRecorded h (.consume key now) = true)
    (hnew : (c.pruneExpired now).consumedLeases.lookup key.identity = none)
    (hk : earlier ∈ h.filterMap acceptedOf) : earlier.identity ≠ key.identity := by
  intro hid
  obtain ⟨hen, hlt⟩ := hr.found hg hk hid
  have hso : (c.pruneExpired now).consumedLeases.lookup key.identity =
      some earlier.expiresAtUnixMs :=
    ((hr.agrees.prune now).2 _).trans (by simp [hen, Option.filter, hlt])
  simp [hso] at hnew

theorem Recorded.consume (hg : stillRecorded h (.consume key now) = true) {result}
    (hc : c.consumeKey key now = (result, c')) (hout : out = .accepted ↔ result = .ok ()) :
    Recorded (h ++ [(.consume key now, out)]) c' := by
  have hag := (hr.agrees.prune now).1
  have hcl : clocks (h ++ [(.consume key now, out)]) = clocks h ++ [now] := by
    simp [clocks, consumeOf]
  rcases RuntimeLeaseReplayCache.consumeKey_eq hc with ⟨rfl, hno⟩ | ⟨rfl, hnew, -, rfl⟩
  · have hac : (h ++ [(ReplayOp.consume key now, out)]).filterMap acceptedOf =
        h.filterMap acceptedOf := by
      cases out <;> simp_all [acceptedOf]
    refine ⟨hag, hac ▸ hr.once, ?_⟩
    rw [hac, hcl]
    exact fun earlier => hr.pruned now
  · obtain rfl := hout.mpr rfl
    have hac : (h ++ [(ReplayOp.consume key now, ReplayOutput.accepted)]).filterMap
        acceptedOf = h.filterMap acceptedOf ++ [key] := by
      simp [acceptedOf]
    refine ⟨hag.push hnew _, ?_, ?_⟩
    · rw [hac, List.map_append, List.nodup_append_comm]
      refine List.nodup_cons.mpr ⟨fun hm => ?_, hr.once⟩
      obtain ⟨earlier, hk, hid⟩ := List.mem_map.mp hm
      exact hr.fresh hg hnew hk hid
    · rw [hac, hcl]
      intro earlier hk
      rcases List.mem_append.mp hk with hk | hk
      · refine (hr.pruned now hk).imp_left fun hen => ?_
        exact (Finmap.lookup_insert_of_ne _ (hr.fresh hg hnew hk)).trans hen
      · rw [List.mem_singleton.mp hk]
        exact .inl (Finmap.lookup_insert _)

theorem Recorded.validate : Recorded (h ++ [(.validate key now, out)]) c := by
  have hac : (h ++ [(ReplayOp.validate key now, out)]).filterMap acceptedOf =
      h.filterMap acceptedOf := by
    simp [acceptedOf]
  have hcl : clocks (h ++ [(.validate key now, out)]) = clocks h := by
    simp [clocks, consumeOf]
  exact ⟨hr.agrees, hac ▸ hr.once, by rw [hac, hcl]; exact hr.entry⟩

end

end

/-- In every run the cache keeps its bound and its map and heap agree. In runs in
which a lease that comes back expires later than every clock value so far, no
lease id and nonce are accepted twice. -/
theorem leases_accepted_once (maxEntries : ℕ) {tr : List ((ReplayOp × ReplayOutput) × ReplayState)}
    (hr : (replays maxEntries).Run { cache := { maxEntries } } tr) :
    (Guarded (fun h _ l => stillRecorded h l.1) [] { cache := { maxEntries } } tr →
      (((labels tr).filterMap acceptedOf).map WorkerLeaseReplayKey.identity).Nodup) ∧
    ∀ u ∈ states { cache := { maxEntries } } tr,
      RuntimeLeaseReplayCache.Agrees u.cache.expiryIndex u.cache.consumedLeases ∧
        u.cache.consumedLeases.size ≤ maxEntries ∧ u.cache.expiryIndex.length ≤ maxEntries := by
  refine ⟨fun hg => ?_, fun u hu => ?_⟩
  · have hrecorded := hr.invariant (I := fun h s => Recorded h s.cache) (h := []) ?_
      ⟨(RuntimeLeaseReplayCache.Bounded.init maxEntries).agrees, by simp, by simp⟩ hg
    · exact hrecorded.once
    · rintro h s ⟨op, out⟩ t hI hguard ht
      rcases step_cache ht with ⟨hcache, key, now, rfl⟩ | ⟨key, now, result, rfl, hc, hout⟩
      · rw [hcache]
        exact hI.validate
      · exact hI.consume hguard hc hout
  · have hbounded := hr.forall_states (C := fun _ _ _ => True) (h := [])
      (I := fun s => s.cache.Bounded ∧ s.cache.maxEntries = maxEntries) ?_
      ⟨.init maxEntries, rfl⟩ (guarded_true _ _ _) u hu
    · obtain ⟨hb, hmax⟩ := hbounded
      refine ⟨hb.agrees, hmax ▸ hb.size_le, ?_⟩
      rw [← hb.agrees.size_eq, ← hmax]
      exact hb.size_le
    · rintro h s ⟨op, out⟩ t ⟨hb, hmax⟩ - ht
      rcases step_cache ht with ⟨hcache, -⟩ | ⟨key, now, result, -, hc, -⟩
      · rw [hcache]
        exact ⟨hb, hmax⟩
      · obtain ⟨hb', hmax'⟩ := hb.consumeKey hc
        exact ⟨hb', hmax'.trans hmax⟩

/-- Two threads with one lease, one after the other. -/
theorem leases_accepted_once_replayed :
    (labels (trace ReplayState.perform { cache := { maxEntries := 2 } }
      [.validate ⟨"l", "n", 105⟩ 100, .consume ⟨"l", "n", 105⟩ 100, .validate ⟨"l", "n", 105⟩ 104,
        .consume ⟨"l", "n", 105⟩ 104])).map Prod.snd =
          [.validated, .accepted, .validated, .refused (.replayed "l")] ∧
    (((labels (trace ReplayState.perform { cache := { maxEntries := 2 } }
      [.validate ⟨"l", "n", 105⟩ 100, .consume ⟨"l", "n", 105⟩ 100, .validate ⟨"l", "n", 105⟩ 104,
        .consume ⟨"l", "n", 105⟩ 104])).filterMap acceptedOf).map
          WorkerLeaseReplayKey.identity).Nodup :=
  ⟨by decide, (leases_accepted_once 2 (System.run_trace _ _ _ _)).1 (by decide)⟩

/-- Two threads find one lease unexpired; before the second gets the lock, a third
consumes another lease with a later clock value and prunes the first. -/
theorem pruned_lease_accepted_again :
    ∃ tr, (replays 16384).Run { cache := { maxEntries := 16384 } } tr ∧
      (labels tr).filterMap acceptedOf = [⟨"l", "n", 105⟩, ⟨"m", "n", 200⟩, ⟨"l", "n", 105⟩] :=
  ⟨trace ReplayState.perform { cache := { maxEntries := 16384 } }
    [.validate ⟨"l", "n", 105⟩ 100, .consume ⟨"l", "n", 105⟩ 100, .validate ⟨"l", "n", 105⟩ 104,
      .validate ⟨"m", "n", 200⟩ 106, .consume ⟨"m", "n", 200⟩ 106, .consume ⟨"l", "n", 105⟩ 104],
    System.run_trace _ _ _ _, by decide⟩

end RedevPlugin.Lease

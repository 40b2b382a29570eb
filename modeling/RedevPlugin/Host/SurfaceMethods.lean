import Mathlib.Data.Finset.Card
import RedevPlugin.Foundation.Threads

/-! Calls of application methods. An open surface has at most one current receiver, which a later
registration closes and replaces. Callers queue calls at a receiver; the pollers of the application
claim them and complete them. Receivers share nothing but the context of their surface, and a
request or a caller that has found a receiver may come to use it at any later time: so the model is
one receiver, from its registration on, with any number of calls of the host at it. Each section
under its lock is one step, and contexts end at any time. -/

namespace RedevPlugin.Host.SurfaceMethods

open Threads Transition

/-! ### The receiver -/

def maxSurfaceMethodCalls : ℕ := 32

inductive Error where
  | unavailable
  | conflict
  | quotaExceeded
  | other
  deriving DecidableEq

/-- How a call ends. The first two travel through its channel. -/
inductive Outcome where
  | completed (data : String) (failed : Bool)
  /-- Its method is no longer configured. -/
  | withdrawn
  /-- Its context has ended. -/
  | expired (claimed : Bool)
  | refused (error : Error)
  deriving DecidableEq

/-- A call that was not dispatched is reported as not committed. -/
def Outcome.dispatched : Outcome → Bool
  | .completed _ _ => true
  | .expired claimed => claimed
  | .withdrawn | .refused _ => false

structure Call where
  method : String
  /-- Its context has ended. -/
  done : Bool := false
  claimed : Bool := false
  /-- The channel, of capacity one. -/
  result : Option Outcome := none

structure Receiver where
  methods : List String
  closed : Bool := false
  /-- Its surface has another receiver. -/
  replaced : Bool := false
  /-- The context of its surface has ended. -/
  ended : Bool := false
  /-- All calls made for it, by invocation id. -/
  made : ℕ → Option Call := fun _ => none
  /-- The ids in its table of calls. -/
  calls : Finset ℕ := ∅
  queue : List ℕ := []

/-- The operations of `SurfaceMethods` on a receiver. -/
inductive Operation where
  | configure (methods : List String)
  | complete (id : ℕ) (data : String) (failed : Bool)
  | close
  | claim (active : List ℕ)
  deriving DecidableEq

/-- Where a call of the host that uses the receiver stands. -/
inductive Position where
  /-- The registration of another receiver. -/
  | replace
  | endSurface
  | apply (op : Operation)
  /-- A claim that found nothing. -/
  | poll (active : List ℕ)
  | enqueue (method : String)
  | wait (id : ℕ)
  | expire (id : ℕ)
  | leave (id : ℕ) (outcome : Outcome)
  /-- The deadline, the execution or the receiver ends the context of a call. -/
  | cancel (id : ℕ)
  deriving DecidableEq

inductive Choice where
  | ok
  | fail (error : Error)
  | timeout
  /-- The parameters cannot be cloned. -/
  | broken
  /-- A fresh id. -/
  | fresh (id : ℕ)
  deriving DecidableEq

inductive Event where
  | silent
  | refused (error : Error)
  | handed (id : ℕ) (cancelled : List ℕ)
  | idle (cancelled : List ℕ)
  | completed (id : ℕ) (data : String) (failed : Bool)
  | closed
  | returned (id : ℕ) (outcome : Outcome)
  deriving DecidableEq

namespace Receiver

variable (v : Receiver)

/-- Its own context ends when it is closed. -/
def live : Bool := !v.closed && !v.ended

def find (id : ℕ) : Option Call := if id ∈ v.calls then v.made id else none

def update (id : ℕ) (f : Call → Call) : Receiver :=
  { v with made := Function.update v.made id ((v.made id).map f) }

def delete (id : ℕ) : Receiver := { v with calls := v.calls.erase id }

/-- The calls not yet claimed whose methods are gone. -/
def dropped (methods : List String) : Finset ℕ :=
  v.calls.filter fun id => (v.made id).any fun c => !c.claimed && c.method ∉ methods

def configure (methods : List String) : Receiver :=
  { v with
    methods
    calls := v.calls \ v.dropped methods
    made := fun id => if id ∈ v.dropped methods then
      (v.made id).map fun c => { c with result := some .withdrawn } else v.made id }

/-- One round of the loop of a claim. -/
def claim (active : List ℕ) (o : Choice) : Event × Receiver × Option Position :=
  let cancelled := active.filter fun id => !(v.find id).any (!·.done)
  match v.queue.dropWhile fun id => !(v.find id).any fun c => !c.done && !c.claimed with
  | id :: queue =>
    (if o = .broken then .refused .other else .handed id cancelled,
      { v with queue }.update id fun c => { c with claimed := true }, none)
  | [] =>
    if cancelled = [] then (.silent, { v with queue := [] }, some (.poll active))
    else (.idle cancelled, { v with queue := [] }, none)

def enqueue (id : ℕ) (method : String) : Event × Receiver × Option Position :=
  let w := { v with made := Function.update v.made id (some { method }) }
  if !v.live || method ∉ v.methods then (.returned id (.refused .unavailable), w, none)
  else if maxSurfaceMethodCalls ≤ v.calls.card then
    (.returned id (.refused .quotaExceeded), w, none)
  else (.silent, { w with calls := insert id v.calls, queue := v.queue ++ [id] }, some (.wait id))

def apply : Operation → Choice → Event × Receiver × Option Position
  | .close, _ => (.closed, { v with closed := true }, none)
  | .configure methods, _ =>
    if v.live then (.silent, v.configure methods, none) else (.refused .unavailable, v, none)
  | .complete id data failed, o =>
    if !v.live then (.refused .unavailable, v, none)
    else if (v.find id).any fun c => c.claimed && !c.done then
      match o with
      | .fail error => (.refused error, v, none)
      | _ => (.completed id data failed, (v.delete id).update id fun c =>
          { c with result := some (.completed data failed) }, none)
    else (.refused .conflict, v, none)
  | .claim _, .fail error => (.refused error, v, none)
  | .claim active, o => if v.live then v.claim active o else (.refused .unavailable, v, none)

/-- A section under the lock of the receiver. -/
def step : Position → Choice → Option (Event × Receiver × Option Position)
  | .replace, _ => some (.closed, { v with closed := true, replaced := true }, none)
  | .endSurface, _ => some (.silent, { v with ended := true }, none)
  | .apply op, o => some (v.apply op o)
  | .poll _, .fail error => some (.refused error, v, none)
  | .poll active, .ok => some (.silent, v, some (.apply (.claim active)))
  | .poll _, .timeout => some (.idle [], v, none)
  | .enqueue method, .fresh id =>
    if (v.made id).isSome then none else some (v.enqueue id method)
  | .wait id, .ok =>
    (v.made id).bind fun c => c.result.map fun outcome =>
      (.silent, v.update id fun c => { c with result := none }, some (.leave id outcome))
  | .wait id, .timeout =>
    if (v.made id).any (·.done) then some (.silent, v, some (.expire id)) else none
  | .expire id, _ =>
    (v.made id).map fun c => (.silent, v.delete id, some (.leave id (.expired c.claimed)))
  | .leave id outcome, _ =>
    some (.returned id outcome, { v.delete id with queue := v.queue.erase id }, none)
  | .cancel id, _ => some (.silent, v.update id fun c => { c with done := true }, none)
  | _, _ => none

end Receiver

/-- Calls of the host come to the receiver with an operation or with a method to invoke. -/
def Position.entry : Position → Bool
  | .replace | .endSurface | .apply _ | .enqueue _ | .cancel _ => true
  | _ => false

def program : Program Receiver Position Choice Event := ⟨Position.entry, Receiver.step⟩

abbrev Label := Action Position Choice × Option Event

def system : System (Pool Receiver Position) Label :=
  program.system fun v => ∃ methods, v = { methods }

/-! ### What a section of a receiver does -/

namespace Receiver

/-- The outcome of a call is true: a call said to be not committed was not claimed and cannot be
any more, and what completed a call named it. -/
def Backed (events : List Event) (v : Receiver) (id : ℕ) (o : Outcome) : Prop :=
  (o.dispatched = false → (v.made id).isSome ∧ (v.made id).all (!·.claimed) ∧ id ∉ v.calls) ∧
    ∀ data failed, o = .completed data failed → .completed id data failed ∈ events

/-- What an event leaves behind. -/
def Marked (events : List Event) (v : Receiver) : Event → Prop
  | .handed id _ => (v.made id).any (·.claimed)
  | .completed id _ _ => (v.made id).isSome ∧ id ∉ v.calls
  | .closed => v.closed = true
  | .returned id o => Backed events v id o
  | _ => True

def Holds (v : Receiver) (id : ℕ) (o : Outcome) : Prop :=
  ∃ c, v.made id = some c ∧ c.result = some o

/-- A call is handed out by the open current receiver, while its method is registered; a completed
call was claimed, and its channel is empty before and holds the result then. -/
def Fits (v w : Receiver) : Event → Prop
  | .handed id _ => v.closed = false ∧ v.replaced = false ∧ v.ended = false ∧
    ∃ c, v.find id = some c ∧ c.claimed = false ∧ c.method ∈ v.methods
  | .completed id data failed => w.Holds id (.completed data failed) ∧
    ∃ c, v.find id = some c ∧ c.claimed = true ∧ c.result = none
  | _ => True

structure Sound (v : Receiver) : Prop where
  known : ∀ id ∈ v.calls, (v.made id).isSome
  pending : ∀ id ∈ v.calls, ∀ c, v.made id = some c → c.result = none ∧
    (c.claimed = false → c.method ∈ v.methods)
  within : v.calls.card ≤ maxSurfaceMethodCalls
  replaced : v.replaced = true → v.closed = true

/-- What a section keeps, and what its event says. -/
structure Spec (v : Receiver) (p : Position) (e : Event) (w : Receiver) (n : Option Position) :
    Prop where
  known : ∀ id ∈ w.calls, (w.made id).isSome
  pending : ∀ id ∈ w.calls, ∀ c, w.made id = some c → c.result = none ∧
    (c.claimed = false → c.method ∈ w.methods)
  within : w.calls ⊆ v.calls ∨ w.calls.card ≤ maxSurfaceMethodCalls
  kept : ∀ id, (v.made id).isSome → (w.made id).isSome
  claimed : ∀ id c d, v.made id = some c → w.made id = some d →
    (c.claimed = true → d.claimed = true) ∧ (d.claimed = true → c.claimed = true ∨ id ∈ v.calls)
  calls : ∀ id ∈ w.calls, id ∈ v.calls ∨ v.made id = none
  closed : v.closed = true → w.closed = true
  replaced : w.replaced = true → w.closed = true
  results : ∀ id o, w.Holds id o → v.Holds id o ∨ Backed [e] w id o
  leaving : ∀ id o, n = some (.leave id o) → v.Holds id o ∨ Backed [e] w id o
  fits : v.Fits w e
  marked : (∃ id o, p = .leave id o ∧ e = .returned id o) ∨ Marked [e] w e

variable {v w : Receiver} {p : Position} {o : Choice} {e : Event}
  {n : Option Position} {id : ℕ}

@[grind =] theorem made_update (f : Call → Call) (i : ℕ) :
    (v.update id f).made i = if i = id then (v.made i).map f else v.made i := by
  split_ifs with hi
  · exact hi ▸ Function.update_self ..
  · exact Function.update_of_ne hi ..

@[grind =] theorem made_delete : (v.delete id).made = v.made := rfl

@[grind =] theorem made_configure (methods : List String) (i : ℕ) :
    (v.configure methods).made i = if i ∈ v.dropped methods then
      (v.made i).map (fun c => { c with result := some .withdrawn }) else v.made i := rfl

@[grind =] theorem mem_dropped (methods : List String) : id ∈ v.dropped methods ↔
    id ∈ v.calls ∧ ∃ c, v.made id = some c ∧ c.claimed = false ∧ c.method ∉ methods := by
  cases hc : v.made id <;> simp [dropped, hc]

theorem find_any {q} (h : (v.find id).any q = true) :
    id ∈ v.calls ∧ ∃ c, v.made id = some c ∧ q c = true := by
  unfold find at h
  split_ifs at h with hid
  · cases hc : v.made id with
    | none => simp [hc] at h
    | some c => exact ⟨hid, c, rfl, by simpa [hc] using h⟩
  · cases h

attribute [local grind] Holds Backed Fits Marked live find Outcome.dispatched update delete
  configure

attribute [local grind =] Function.update_apply Option.map_eq_some_iff

section

variable (h : v.Sound)

include h

/-- A section that leaves the calls made as they are. -/
theorem Spec.trim (hma : w.made = v.made) (hca : w.calls ⊆ v.calls) (hme : w.methods = v.methods)
    (hclosed : v.closed = true → w.closed = true) (hre : w.replaced = true → w.closed = true)
    (hn : ∀ id o, n = some (.leave id o) → Backed [e] w id o) (hf : v.Fits w e)
    (hm : (∃ id o, p = .leave id o ∧ e = .returned id o) ∨ Marked [e] w e) : v.Spec p e w n where
  known id hid := hma ▸ h.known id (hca hid)
  pending id hid := by
    rw [hma, hme]
    exact h.pending id (hca hid)
  within := .inl hca
  kept _ := hma ▸ fun h => h
  claimed id c d hc hd := by
    cases hc.symm.trans (hma ▸ hd)
    exact ⟨fun h => h, .inl⟩
  calls _ hid := .inl (hca hid)
  closed := hclosed
  replaced := hre
  results id o := by
    rintro ⟨c, hc, hr⟩
    exact .inl ⟨c, hma ▸ hc, hr⟩
  leaving id o ho := .inr (hn id o ho)
  fits := hf
  marked := hm

/-- A refusal or a pause. -/
theorem Spec.same (hn : ∀ id o, n ≠ some (.leave id o)) (hf : v.Fits v e) (hm : Marked [e] v e) :
    v.Spec p e v n :=
  .trim h rfl subset_rfl rfl (fun h => h) h.replaced (fun id o h => absurd h (hn id o)) hf (.inr hm)

theorem spec_claim (hli : v.live = true) (active : List ℕ) (hs : v.claim active o = (e, w, n)) :
    v.Spec p e w n := by
  unfold claim at hs
  split at hs
  · rename_i id queue hq
    have hid := List.head_dropWhile_not (l := v.queue)
      (p := fun id => !(v.find id).any fun c => !c.done && !c.claimed) (by simp [hq])
    simp only [hq, List.head_cons, Bool.not_eq_false'] at hid
    obtain ⟨hid, c, hc, hfree⟩ := find_any hid
    obtain ⟨hk, hpending, -, hre⟩ := h
    cases hs
    split_ifs <;> constructor <;> grind
  · simp only at hs
    split_ifs at hs <;> cases hs <;>
      exact .trim h rfl subset_rfl rfl (fun h => h) h.replaced nofun trivial (.inr trivial)

theorem spec_enqueue (hid : v.made id = none) (method : String)
    (hs : v.enqueue id method = (e, w, n)) : v.Spec p e w n := by
  obtain ⟨hk, hpending, -, hre⟩ := h
  unfold enqueue at hs
  split_ifs at hs <;> cases hs <;> constructor <;> grind

theorem spec_configure (methods : List String) : v.Spec p .silent (v.configure methods) none := by
  obtain ⟨hk, hpending, -, hre⟩ := h
  constructor <;> grind

theorem spec_complete (hfind : (v.find id).any (fun c => c.claimed && !c.done) = true)
    (data : String) (failed : Bool) : v.Spec p (.completed id data failed)
      ((v.delete id).update id fun c => { c with result := some (.completed data failed) })
        none := by
  obtain ⟨hk, hpending, -, hre⟩ := h
  obtain ⟨hid, c, hc, hcl⟩ := find_any hfind
  constructor <;> grind

/-- A change of a call that neither claims it nor fills its channel. -/
theorem spec_update (f : Call → Call) (hf : ∀ c, (f c).method = c.method ∧
      (f c).claimed = c.claimed ∧ ((f c).result = none ∨ (f c).result = c.result))
    (hn : ∀ i o, n = some (.leave i o) → v.Holds i o) : v.Spec p .silent (v.update id f) n := by
  obtain ⟨hk, hpending, -, hre⟩ := h
  constructor <;> grind

theorem spec_apply {op} (hs : v.apply op o = (e, w, n)) : v.Spec p e w n := by
  revert hs
  fun_cases apply v op o <;> try rintro ⟨⟩
  · exact .trim h rfl subset_rfl rfl (fun _ => rfl) (fun _ => rfl) nofun trivial (.inr rfl)
  · exact spec_configure h _
  · exact .same h nofun trivial trivial
  · exact .same h nofun trivial trivial
  · exact .same h nofun trivial trivial
  · exact spec_complete h ‹_› _ _
  · exact .same h nofun trivial trivial
  · exact .same h nofun trivial trivial
  · exact spec_claim h ‹_› _
  · exact .same h nofun trivial trivial

theorem step_spec (hs : v.step p o = some (e, w, n)) : v.Spec p e w n := by
  revert hs
  fun_cases step v p o <;> try rintro ⟨⟩
  · exact .trim h rfl subset_rfl rfl (fun _ => rfl) (fun _ => rfl) nofun trivial (.inr rfl)
  · exact .trim h rfl subset_rfl rfl (fun h => h) h.replaced nofun trivial (.inr trivial)
  · exact fun hs => spec_apply h (Option.some.inj hs)
  · exact .same h nofun trivial trivial
  · exact .same h nofun trivial trivial
  · exact .same h nofun trivial trivial
  · exact fun hs => spec_enqueue h (by simp_all) _ (Option.some.inj hs)
  · intro hs
    obtain ⟨c, hc, hre⟩ := Option.bind_eq_some_iff.mp hs
    obtain ⟨outcome, hou, ⟨⟩⟩ := Option.map_eq_some_iff.mp hre
    refine spec_update h _ (fun c => ⟨rfl, rfl, .inl rfl⟩) fun i o ho => ?_
    cases ho
    exact ⟨c, hc, hou⟩
  · exact .same h nofun trivial trivial
  · -- a call that leaves unclaimed is no longer in the table
    intro hs
    obtain ⟨c, hc, ⟨⟩⟩ := Option.map_eq_some_iff.mp hs
    refine .trim h rfl (Finset.erase_subset _ _) rfl (fun h => h) h.replaced (fun i o ho => ?_)
      trivial (.inr trivial)
    cases ho
    exact ⟨fun (hd : c.claimed = false) =>
      ⟨by simp [made_delete, hc], by simp [made_delete, hc, hd],
      Finset.notMem_erase _ _⟩, nofun⟩
  · exact .trim h rfl (Finset.erase_subset _ _) rfl (fun h => h) h.replaced nofun trivial
      (.inl ⟨_, _, rfl, rfl⟩)
  · exact spec_update h _ (fun c => ⟨rfl, rfl, .inr rfl⟩) nofun

end

/-! ### The events of a receiver -/

/-- No call is handed out or completed twice, and none is handed out after the end. -/
def Apart : Event → Event → Prop
  | .handed i _, .handed j _ | .completed i _ _, .completed j _ _ => i ≠ j
  | .closed, .handed _ _ => False
  | _, _ => True

/-- What the events so far say about a receiver and the calls of the host at it. -/
structure Ledger (h : List Event) (v : Receiver) (at_ : Position → Prop) : Prop where
  sound : v.Sound
  results : ∀ id o, v.Holds id o → Backed h v id o
  leaving : ∀ id o, at_ (.leave id o) → Backed h v id o
  marked : ∀ e ∈ h, Marked h v e
  apart : h.Pairwise Apart

theorem Marked.mono {a b} (h : Marked a v e) (hab : a ⊆ b) : Marked b v e := by
  cases e <;> grind

theorem Spec.mark {a b x} (hs : v.Spec p e w n) (h : Marked a v x) (hab : a ⊆ b) :
    Marked b w x := by
  obtain ⟨-, -, -, hk, hcl, hca, hclosed, -⟩ := hs
  cases x with
  | handed id | returned id =>
    cases hv : v.made id <;> cases hw : w.made id <;> grind
  | _ => grind

theorem Spec.sound (h : v.Sound) (hs : v.Spec p e w n) : w.Sound :=
  ⟨hs.known, hs.pending, hs.within.elim (fun hsub => (Finset.card_le_card hsub).trans h.within) id,
    hs.replaced⟩

theorem Ledger.step {h P Q} (hl : Ledger h v P) (hs : v.Spec p e w n) (hp : P p)
    (hq : ∀ q, Q q → P q ∨ n = some q) : Ledger (h ++ [e]) w Q := by
  have hsub : h ⊆ h ++ [e] := List.subset_append_left h [e]
  have hnew : [e] ⊆ h ++ [e] := List.subset_append_right h [e]
  have hb : ∀ {id o}, Backed h v id o → Backed (h ++ [e]) w id o := fun {id o} ho =>
    hs.mark (x := .returned id o) ho hsub
  have hre : ∀ id o, v.Holds id o ∨ Backed [e] w id o → Backed (h ++ [e]) w id o := by
    rintro id o (ho | ho)
    · exact hb (hl.results id o ho)
    · exact ⟨ho.1, fun data failed hd => hnew (ho.2 data failed hd)⟩
  refine ⟨hs.sound hl.sound, fun id o ho => hre id o (hs.results id o ho),
    fun id o ho => ?_, fun x hx => ?_, List.pairwise_append.mpr
      ⟨hl.apart, List.pairwise_singleton _ _, fun x hx y hy => ?_⟩⟩
  · exact (hq _ ho).elim (fun ho => hb (hl.leaving id o ho)) fun ho =>
      hre id o (hs.leaving id o ho)
  · rcases List.mem_append.mp hx with hx | hx
    · exact hs.mark (hl.marked x hx) hsub
    · obtain rfl := List.mem_singleton.mp hx
      rcases hs.marked with ⟨id, o, rfl, rfl⟩ | hm
      · exact hb (hl.leaving id o hp)
      · exact hm.mono hnew
  · obtain rfl := List.mem_singleton.mp hy
    have hm := hl.marked x hx
    have hf := hs.fits
    cases x <;> cases y <;> first | exact True.intro | grind [Apart]

end Receiver

/-! ### Runs -/

open Receiver

def eventsOf (h : List Label) : List Event := h.filterMap Prod.snd

theorem sound_new (methods : List String) : Receiver.Sound { methods } :=
  ⟨by simp, by simp, by simp, nofun⟩

variable {u : Pool Receiver Position} {tr : List (Label × Pool Receiver Position)}

theorem run_ledger (hu : system.init u) (hr : system.Run u tr) :
    Ledger (eventsOf (labels tr)) (last u tr).shared (· ∈ (last u tr).calls) := by
  refine Program.invariant (I := fun h v calls => Ledger (eventsOf h) v (· ∈ calls)) ?_ ?_ ?_ hu hr
  · rintro ⟨methods, hv⟩
    rw [hv]
    exact ⟨sound_new methods, nofun, by simp, nofun, .nil⟩
  · intro h v calls c hc hl
    have hev : eventsOf (h ++ [(.enter c, none)]) = eventsOf h := by simp [eventsOf]
    rw [hev]
    refine { hl with leaving := fun id o ho => hl.leaving id o ?_ }
    refine (Multiset.mem_cons.mp ho).resolve_left fun he => ?_
    rw [← he] at hc
    cases hc
  · intro h v rest c o e w n hl hs
    have hev : eventsOf (h ++ [(.advance c o, some e)]) = eventsOf h ++ [e] := by
      simp [eventsOf]
    rw [hev]
    refine hl.step (step_spec hl.sound hs) (Multiset.mem_cons_self c rest) fun q hq => ?_
    exact (mem_next_add.mp hq).symm.imp_left Multiset.mem_cons_of_mem

/-- In every run of a receiver its calls stay within the limit. A call is handed out only by the
open current receiver, while its method is registered, at most once, and never after the receiver
was closed or replaced. A completion, also a failed one, finds the channel of its call empty and
leaves its result there, there is at most one for each call, and a call that returns as completed
was named by the completion. A call that is reported as not committed is not handed out in the
whole run. -/
theorem surface_calls_safe {u : Pool Receiver Position}
    {tr : List (Label × Pool Receiver Position)} (hu : system.init u) (hr : system.Run u tr) :
    (∀ v ∈ states u tr, v.shared.calls.card ≤ maxSurfaceMethodCalls) ∧
    (∀ x ∈ steps u tr, ∀ e, x.2.1.2 = some e → x.1.shared.Fits x.2.2.shared e) ∧
    (eventsOf (labels tr)).Pairwise Apart ∧
    ∀ id o, .returned id o ∈ eventsOf (labels tr) →
      (o.dispatched = false → ∀ cancelled, .handed id cancelled ∉ eventsOf (labels tr)) ∧
      ∀ data failed, o = .completed data failed →
        .completed id data failed ∈ eventsOf (labels tr) := by
  have hstates : ∀ v ∈ states u tr, v.shared.Sound :=
    Program.forall_states (I := fun v _ => v.Sound)
      (by rintro _ ⟨methods, rfl⟩; exact sound_new methods) (fun _ _ _ _ h => h)
      (fun _ _ _ _ _ _ _ h hs => (step_spec h hs).sound h) hu hr
  have hsteps : ∀ x ∈ steps u tr, ∀ e, x.2.1.2 = some e → x.1.shared.Fits x.2.2.shared e := by
    refine hr.forall_steps (I := fun v => v.shared.Sound)
      (P := fun v l w => ∀ e, l.2 = some e → v.shared.Fits w.shared e)
        (fun v l w h hs => ?_) hstates
    obtain ⟨c, -, rfl, -⟩ | ⟨c, o, e, t, n, rest, rfl, -, hadvance, rfl⟩ := Program.step_cases hs
    · exact nofun
    · exact fun e' he => Option.some.inj he ▸ (step_spec h hadvance).fits
  have hl := run_ledger hu hr
  refine ⟨fun v hv => (hstates v hv).within, hsteps, hl.apart, fun id o ho => ?_⟩
  obtain ⟨hsettled, hnamed⟩ : Backed _ _ id o := hl.marked _ ho
  refine ⟨fun hd cancelled hmem => ?_, hnamed⟩
  have hclaimed : ((last u tr).shared.made id).any (·.claimed) = true := hl.marked _ hmem
  obtain ⟨-, hnot, -⟩ := hsettled hd
  cases hmade : (last u tr).shared.made id <;> simp [hmade] at hclaimed hnot
  simp [hclaimed] at hnot

def sampleActions : List (Action Position Choice) :=
  [.enter (.enqueue "m"), .advance (.enqueue "m") (.fresh 0),
    .enter (.apply (.claim [])), .advance (.apply (.claim [])) .ok,
    .enter (.apply (.complete 0 "d" true)), .advance (.apply (.complete 0 "d" true)) .ok,
    .advance (.wait 0) .ok, .advance (.leave 0 (.completed "d" true)) .ok]

theorem surface_calls_safe_completed :
    let u : Pool Receiver Position := ⟨{ methods := ["m"] }, 0⟩
    let events := eventsOf (labels (trace program.perform u sampleActions))
    .returned 0 (.completed "d" true) ∈ events ∧ .completed 0 "d" true ∈ events ∧
      events.Pairwise Apart := by
  intro u events
  have hmem : .returned 0 (.completed "d" true) ∈ events := by decide
  have hsafe := surface_calls_safe (u := u) ⟨⟨["m"], rfl⟩, rfl⟩
    (System.run_trace _ program.perform u sampleActions)
  exact ⟨hmem, (hsafe.2.2.2 0 _ hmem).2 "d" true rfl, hsafe.2.2.1⟩

end RedevPlugin.Host.SurfaceMethods

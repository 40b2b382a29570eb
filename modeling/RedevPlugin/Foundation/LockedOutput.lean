import RedevPlugin.Foundation.Transition

/-! An output that writers share under a lock. A writer takes the lock, puts the
pieces of one message on the output and lets go of the lock. Between two of its
pieces no other writer can step in, so the output is made of whole messages, in
the order in which the lock was taken, up to the message that is being written. -/

namespace RedevPlugin.LockedOutput

open Transition

variable {W M P : Type*} [DecidableEq W]

/-- What was put out, and the holder of the lock with the pieces it has still to put out. -/
structure Output (W P : Type*) where
  out : List P
  held : Option (W × List P)

inductive Action (W M : Type*) where
  | acquire (w : W) (m : M)
  | emit (w : W)
  | release (w : W)

def step (pieces : M → List P) : Output W P → Action W M → Option (Output W P)
  | ⟨out, none⟩, .acquire w m => some ⟨out, some (w, pieces m)⟩
  | ⟨out, some (v, p :: ps)⟩, .emit w => if v = w then some ⟨out ++ [p], some (v, ps)⟩ else none
  | ⟨out, some (v, [])⟩, .release w => if v = w then some ⟨out, none⟩ else none
  | _, _ => none

def system (pieces : M → List P) : System (Output W P) (Action W M) where
  init s := s = ⟨[], none⟩
  step s a t := step pieces s a = some t

/-- The writers that took the lock, with their messages, in this order. -/
def acquired (as : List (Action W M)) : List (W × M) :=
  as.filterMap fun
    | .acquire w m => some (w, m)
    | _ => none

omit [DecidableEq W] in
@[simp] theorem acquired_append (as bs : List (Action W M)) :
    acquired (as ++ bs) = acquired as ++ acquired bs :=
  List.filterMap_append

/-- What the holder has still to put out. -/
def Output.pending (s : Output W P) : List P := (s.held.map Prod.snd).getD []

/-- The output and what is pending are the messages. -/
def Whole (pieces : M → List P) (as : List (Action W M)) (s : Output W P) : Prop :=
  s.out ++ s.pending = (acquired as).flatMap fun x => pieces x.2

variable {a : Action W M} {as : List (Action W M)} {s t : Output W P} {pieces : M → List P}
  {tr : List (Action W M × Output W P)}

theorem Whole.step (hs : Whole pieces as s) (h : step pieces s a = some t) :
    Whole pieces (as ++ [a]) t := by
  rw [Whole, acquired_append, List.flatMap_append, ← hs]
  unfold LockedOutput.step at h
  split at h
  · cases h
    simp [Output.pending, acquired]
  · simp only [Option.ite_none_right_eq_some, Option.some.injEq] at h
    rw [← h.2]
    simp [Output.pending, acquired]
  · simp only [Option.ite_none_right_eq_some, Option.some.injEq] at h
    rw [← h.2]
    simp [Output.pending, acquired]
  · cases h

/-- When nobody holds the lock the output is made of the messages, in its order. -/
theorem out_eq_flatMap (hs : (system pieces).init s) (hr : (system pieces).Run s tr)
    (hfree : (last s tr).held = none) :
    (last s tr).out = (acquired (labels tr)).flatMap fun x => pieces x.2 := by
  have h := hr.invariant (C := fun _ _ _ => True) (I := Whole pieces) (h := [])
    (fun _ _ _ _ hu _ hstep => hu.step hstep) (by cases hs; rfl) (guarded_true [] s tr)
  rw [List.nil_append, Whole, Output.pending, hfree] at h
  simpa using h

/-- The holder of the lock can put out what is pending and let go of the lock. -/
theorem exists_finish (pieces : M → List P) (s : Output W P) :
    ∃ tr, (system pieces).Run s tr ∧ acquired (labels tr) = [] ∧ (last s tr).held = none := by
  obtain ⟨out, _ | ⟨w, ps⟩⟩ := s
  · exact ⟨[], trivial, rfl, rfl⟩
  induction ps generalizing out with
  | nil => exact ⟨[(.release w, ⟨out, none⟩)], ⟨if_pos rfl, trivial⟩, rfl, rfl⟩
  | cons p ps ih =>
    obtain ⟨tr, hr, hno, hfree⟩ := ih (out ++ [p])
    exact ⟨(.emit w, ⟨out ++ [p], some (w, ps)⟩) :: tr, ⟨if_pos rfl, hr⟩, hno, hfree⟩

/-- Whatever is being written, any more messages can be written after it. -/
theorem exists_write (pieces : M → List P) (s : Output W P) (ws : List (W × M)) :
    ∃ tr, (system pieces).Run s tr ∧ acquired (labels tr) = ws ∧ (last s tr).held = none := by
  induction ws generalizing s with
  | nil => exact exists_finish pieces s
  | cons x ws ih =>
    obtain ⟨w, m⟩ := x
    obtain ⟨p, hp, hno, hfree⟩ := exists_finish pieces s
    obtain ⟨q, hq, hws, hlast⟩ := ih ⟨(last s p).out, some (w, pieces m)⟩
    refine ⟨p ++ (.acquire w m, _) :: q, ?_, ?_, by rwa [last_append]⟩
    · refine (System.run_append _ s p _).mpr ⟨hp, ?_, hq⟩
      change step pieces (last s p) (.acquire w m) = _
      rw [show last s p = ⟨(last s p).out, none⟩ from hfree ▸ rfl]
      rfl
    · rw [labels_append, acquired_append, hno, labels_cons, ← hws]
      rfl

end RedevPlugin.LockedOutput

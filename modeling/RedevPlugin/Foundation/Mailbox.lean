import Mathlib.Data.Fintype.Card

/-! A channel that several senders share and one receiver reads. It keeps everything
that was sent and how much of it was taken, so that what was received is a first part of
what was sent. When every sender sends at most once, a receiver that has taken as many
messages as there are senders has heard all of them. -/

namespace RedevPlugin

variable {ι α : Type*}

structure Mailbox (ι α : Type*) where
  sent : List (ι × α) := []
  taken : ℕ := 0

namespace Mailbox

section

variable (b : Mailbox ι α) (i : ι) (a : α)

def send : Mailbox ι α := { b with sent := b.sent ++ [(i, a)] }

def receive : Option ((ι × α) × Mailbox ι α) :=
  b.sent[b.taken]?.map fun m => (m, { b with taken := b.taken + 1 })

/-- The messages taken so far, in order. -/
def received : List (ι × α) := b.sent.take b.taken

@[simp] theorem taken_send : (b.send i a).taken = b.taken := rfl

@[simp] theorem sent_send : (b.send i a).sent = b.sent ++ [(i, a)] := rfl

end

variable {m : ι × α} {b b' : Mailbox ι α} {status : ι → Option α} {i : ι}

theorem receive_spec (h : b.receive = some (m, b')) :
    b'.sent = b.sent ∧ b'.taken = b.taken + 1 ∧ b'.received = b.received ++ [m] ∧
      b.taken < b.sent.length := by
  obtain ⟨m', hm, he⟩ := Option.map_eq_some_iff.mp h
  cases he
  obtain ⟨hlt, rfl⟩ := List.getElem?_eq_some_iff.mp hm
  refine ⟨rfl, rfl, ?_, hlt⟩
  exact (List.take_concat_get hlt).symm.trans (by simp [received])

theorem received_send (h : b.taken ≤ b.sent.length) (i : ι) (a : α) :
    (b.send i a).received = b.received :=
  List.take_append_of_le_length h

/-- What each sender has sent: it sends at most once, and no more was taken than sent. -/
structure Once (b : Mailbox ι α) (status : ι → Option α) : Prop where
  nodup : (b.sent.map Prod.fst).Nodup
  mem : ∀ i a, (i, a) ∈ b.sent ↔ status i = some a
  taken : b.taken ≤ b.sent.length

theorem once_empty : Once ({} : Mailbox ι α) fun _ => none := ⟨List.nodup_nil, by simp, le_rfl⟩

section

variable (h : b.Once status)

include h

theorem Once.receive (hr : b.receive = some (m, b')) : b'.Once status := by
  obtain ⟨hsent, hta, -, hlt⟩ := receive_spec hr
  refine ⟨hsent ▸ h.nodup, hsent ▸ h.mem, ?_⟩
  rw [hsent, hta]
  exact hlt

theorem Once.send [DecidableEq ι] (hi : status i = none) (a : α) :
    (b.send i a).Once (Function.update status i (some a)) := by
  have hnew : i ∉ b.sent.map Prod.fst := by
    intro hmem
    obtain ⟨⟨j, a'⟩, hj, rfl⟩ := List.mem_map.mp hmem
    simp [h.mem, hi] at hj
  refine ⟨?_, fun j a' => ?_, ?_⟩
  · rw [sent_send, List.map_append]
    exact h.nodup.append (List.nodup_singleton _) (by simpa using hnew)
  · rw [sent_send, List.mem_append, h.mem, List.mem_singleton, Prod.mk.injEq, Function.update_apply]
    split_ifs with hj
    · subst hj
      simp [hi, eq_comm]
    · simp [hj]
  · rw [taken_send, sent_send, List.length_append]
    exact h.taken.trans (Nat.le_add_right _ _)

theorem Once.length_sent_le [Fintype ι] : b.sent.length ≤ Fintype.card ι := by
  simpa using h.nodup.length_le_card

theorem Once.received_nodup : (b.received.map Prod.fst).Nodup := by
  rw [received, List.map_take]
  exact h.nodup.sublist (List.take_sublist _ _)

/-- Once as many messages as senders were taken, every sender was heard. -/
theorem Once.complete [Fintype ι] (hall : b.taken = Fintype.card ι) :
    (∀ i, ∃ a, status i = some a) ∧ ∀ i a, (i, a) ∈ b.received ↔ status i = some a := by
  classical
  have hle : b.sent.length = b.taken := le_antisymm (h.length_sent_le.trans hall.ge) h.taken
  have hre : b.received = b.sent := List.take_of_length_le hle.le
  have hsu : ∀ i, i ∈ b.sent.map Prod.fst := by
    have hun : (b.sent.map Prod.fst).toFinset = Finset.univ := by
      rw [← Finset.card_eq_iff_eq_univ, List.toFinset_card_of_nodup h.nodup, List.length_map,
        hle, hall]
    intro i
    exact List.mem_toFinset.mp (hun ▸ Finset.mem_univ i)
  refine ⟨fun i => ?_, fun i a => hre ▸ h.mem i a⟩
  obtain ⟨⟨j, a⟩, hj, rfl⟩ := List.mem_map.mp (hsu i)
  exact ⟨a, (h.mem j a).mp hj⟩

end

end Mailbox

end RedevPlugin

import RedevPlugin.Exchange.Steps

/-! The host's I/O slots. There is one for each worker of the runtime, a request
takes one when the host reads it, and the goroutine that serves it gives it back
after it has written the response. The runtime counts otherwise: its route is
free when it reads the response, or when it cancels. A worker may therefore send
its next request while the host still holds the slot of the last one. -/

namespace RedevPlugin.Exchange

open Scheduler Transition RedevPlugin.Runtime RedevPlugin.Host

variable {n : ℕ} {limits : RuntimeLimits} {g : String} {s t : ExchangeState n}

/-- The slots in use and those that requests under way will take. -/
def slotsClaimed (s : ExchangeState n) : ℕ := s.serving.length + s.outbox.countP isIoFrame

/-- Only an I/O request can be one too many. -/
theorem accept_full {frame} (h : s.accept frame = .error .routeCapacityExhausted) :
    isIoFrame frame = true ∧ n ≤ s.serving.length := by
  rcases ExchangeState.accept_error h with ⟨parent, request, rfl, hd⟩ | hv
  · refine ⟨rfl, ?_⟩
    rcases dispatchRuntimeIOFrame_some hd with hv | hsl
    · simp at hv
    rcases takeIORouteSlot_some hsl with ⟨hv, -⟩ | ⟨-, hle⟩
    · cases hv
    · exact hle
  · simp at hv

/-- A request is sent only while a slot is left for it: the slots in use and the
requests the host has not read are fewer than the workers. -/
def slotLeft (s : ExchangeState n) : ExchangeOp n → Bool
  | .send _ => slotsClaimed s < n
  | _ => true

theorem slotsClaimed_deliver (s : ExchangeState n) (id : RequestId) (expected phase : CallerPhase) :
    slotsClaimed (s.deliver id expected phase) = slotsClaimed s := by
  rcases s.deliver_eq id expected phase with he | ⟨call, -, -, he⟩
  · rw [he]
  · rw [he]
    rfl

/-- Requests and goroutines never claim more slots than there are. -/
theorem slotsClaimed_step {op out} (h : slotsClaimed s ≤ n) (hg : slotLeft s op = true)
    (hs : Step limits g s op out t) : slotsClaimed t ≤ n := by
  unfold slotsClaimed at h
  cases hs with
  | served ho | flightRegistered ho | flightCompleted ho | claimed ho =>
    simp only [slotsClaimed, ho, List.countP_cons, isIoFrame, List.length_append] at h ⊢
    simpa [add_right_comm, add_assoc] using h
  | resulted ho | acknowledged ho =>
    rw [slotsClaimed_deliver]
    simpa [slotsClaimed, ho, isIoFrame] using h
  | answered he =>
    have hpos := List.length_pos_of_mem he
    simp only [slotsClaimed, ExchangeState.write, List.length_append, List.length_erase_of_mem he,
      List.length_singleton]
    omega
  | slotReleased he =>
    simp only [slotsClaimed, List.length_erase_of_mem he]
    omega
  | sent =>
    have hlt : s.serving.length + s.outbox.countP isIoFrame < n := of_decide_eq_true hg
    simp only [slotsClaimed, ExchangeState.post, ExchangeState.setPosition, List.countP_append,
      List.countP_singleton, isIoFrame, if_true]
    omega
  | rejected | cancelQueued | posted | led | published
  | artifactRequested | flightEnded =>
    simpa [slotsClaimed, ExchangeState.post, ExchangeState.setPosition, isIoFrame] using h
  | _ => exact h

/-- In a run whose requests are sent while a slot is left for them, the host
never finds its slots exhausted. -/
theorem slots_never_exhausted (limits : RuntimeLimits) (g : String)
    {tr : List ((ExchangeOp limits.workerCount × ExchangeOutput) ×
      ExchangeState limits.workerCount)}
    (hr : (exchange limits g).Run {} tr) (hg : Guarded (fun _ s l => slotLeft s l.1) [] {} tr) :
    ∀ op frame, (op, ExchangeOutput.violated frame .routeCapacityExhausted) ∉ labels tr := by
  have hstep : ∀ h s l t, (slotsClaimed s ≤ limits.workerCount ∧ ∀ op frame,
        (op, ExchangeOutput.violated frame .routeCapacityExhausted) ∉ h) → slotLeft s l.1 = true →
      (exchange limits g).step s l t → (slotsClaimed t ≤ limits.workerCount ∧ ∀ op frame,
        (op, ExchangeOutput.violated frame .routeCapacityExhausted) ∉ h ++ [l]) := by
    rintro h s ⟨op', out⟩ t ⟨hle, hold⟩ hleft hs
    have hstep := step_of_exchange hs
    refine ⟨slotsClaimed_step hle hleft hstep, fun op frame hm => ?_⟩
    rcases List.mem_append.mp hm with hm | hm
    · exact hold op frame hm
    · cases List.mem_singleton.mp hm
      cases hstep with
      | violated ho hv =>
        -- the request in hand has a claim of its own
        obtain ⟨hio, hfull⟩ := accept_full hv
        simp only [slotsClaimed, ho, List.countP_cons, hio] at hle hfull
        simp only [if_true] at hle
        omega
  exact (System.Run.invariant hstep ⟨Nat.zero_le _, by simp⟩ hr hg).2

/-- Two requests of one worker, the slot of the first released in between. -/
theorem slots_never_exhausted_released :
    (labels (exchangeRun oneWorker "g" (startOps none ++ [.register 0 (.read 7 16), .check 0,
      .send 0, .readFrame, .answer 1, .readInput, .resume 0, .register 0 (.read 7 16), .check 0,
      .releaseSlot 1, .send 0, .readFrame]))).getLast?.map Prod.snd =
        some (.read (.io "a" ⟨.ioRead, 2, "v", 7, 16, 0, 0, 0, 0⟩)) ∧
    ∀ op frame, (op, ExchangeOutput.violated frame .routeCapacityExhausted) ∉
      labels (exchangeRun oneWorker "g" (startOps none ++ [.register 0 (.read 7 16), .check 0,
        .send 0, .readFrame, .answer 1, .readInput, .resume 0, .register 0 (.read 7 16), .check 0,
        .releaseSlot 1, .send 0, .readFrame])) :=
  ⟨rfl, slots_never_exhausted oneWorker "g" (System.run_trace _ _ _ _) (by decide)⟩

/-- The worker's next request reaches the host before the goroutine of the last
one has released its slot. -/
theorem next_request_exhausts_slots :
    validateRuntimeLimits oneWorker = .ok () ∧
      ∃ tr, (exchange oneWorker "g").Run {} tr ∧
        (labels tr).getLast? = some (.readFrame,
          .violated (.io "a" ⟨.ioRead, 2, "v", 7, 16, 0, 0, 0, 0⟩) .routeCapacityExhausted) :=
  ⟨rfl, exchangeRun oneWorker "g" (startOps none ++ [.register 0 (.read 7 16), .check 0, .send 0,
    .readFrame, .answer 1, .readInput, .resume 0, .register 0 (.read 7 16), .check 0, .send 0,
    .readFrame]), System.run_trace _ _ _ _, rfl⟩

end RedevPlugin.Exchange

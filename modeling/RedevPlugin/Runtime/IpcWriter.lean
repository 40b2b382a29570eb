import RedevPlugin.Foundation.Transition

/-! The thread that writes frames to the host. Senders put frames into a bounded
channel; the writer takes the first frame of a batch with a blocking receive and
more of them as long as they are there, and flushes. The frame that would make a
batch too large waits for the next one. The output may fail at any write or flush,
after any part of what it was given; the writer stops then. The channel may have
any capacity. -/

namespace RedevPlugin.Runtime.IpcWriter

open Transition

def maxBatchFrames : ℕ := 64
def maxBatchBytes : ℕ := 256 * 1024

/-- `usize::checked_add`. -/
def checkedAdd (a b : ℕ) : Option ℕ := if a + b < UInt64.size then some (a + b) else none

/-- The bytes of a frame; no vector has more than `isize::MAX` of them. -/
abbrev Frame := { bytes : List UInt8 // bytes.length < UInt64.size / 2 }

def bytes (frames : List Frame) : List UInt8 := frames.flatMap Subtype.val

/-- A `BufWriter` with the bytes that its output has got. -/
structure BufWriter where
  output : List UInt8 := []
  buffer : List UInt8 := []

def BufWriter.flush (w : BufWriter) : BufWriter := ⟨w.output ++ w.buffer, []⟩

def BufWriter.writeAll (w : BufWriter) (data : List UInt8) : BufWriter :=
  let w := if w.buffer.length + data.length > maxBatchBytes then w.flush else w
  if data.length ≥ maxBatchBytes then { w with output := w.output ++ data }
  else { w with buffer := w.buffer ++ data }

/-- Where the writer is. A batch is what was written since the last flush: `frame_count` and
`byte_count` are its length and the length of its bytes. -/
inductive Phase where
  | first
  | frame (batch : List Frame) (frame : Frame)
  | more (batch : List Frame)
  | flush (batch : List Frame)
  | returned
  | failed

/-- The channel and the writer; `flushed` are the batches that were flushed. -/
structure Writer where
  queue : List Frame := []
  closed : Bool := false
  pending : Option Frame := none
  phase : Phase := .first
  out : BufWriter := {}
  flushed : List (List Frame) := []

def Writer.advance (s : Writer) : Option Writer :=
  match s.phase with
  | .first =>
    match s.pending, s.queue with
    | some frame, _ => some { s with pending := none, phase := .frame [] frame }
    | none, frame :: queue => some { s with queue, phase := .frame [] frame }
    | none, [] => if s.closed then some { s with phase := .returned } else none
  | .frame batch frame =>
    match checkedAdd (bytes batch).length frame.1.length with
    | none => some { s with phase := .failed }
    | some nextByteCount =>
      if batch.length > 0 ∧ nextByteCount > maxBatchBytes then
        some { s with pending := some frame, phase := .flush batch }
      else
        let batch' := batch ++ [frame]
        some { s with
          out := s.out.writeAll frame.1
          phase := if batch'.length ≥ maxBatchFrames ∨ nextByteCount ≥ maxBatchBytes then
            .flush batch' else .more batch' }
  | .more batch =>
    match s.queue with
    | frame :: queue => some { s with queue, phase := .frame batch frame }
    | [] => some { s with phase := .flush batch }
  | .flush batch =>
    some { s with out := s.out.flush, flushed := s.flushed ++ [batch], phase := .first }
  | .returned | .failed => none

inductive Operation where
  | send (frame : Frame)
  | close
  | advance
  /-- The output takes so many of the bytes it is given and fails. -/
  | fail (taken : ℕ)

def Writer.perform (capacity : ℕ) (s : Writer) : Operation → Option Writer
  | .send frame =>
    if s.closed ∨ s.queue.length ≥ capacity then none
    else some { s with queue := s.queue ++ [frame] }
  | .close => some { s with closed := true }
  | .advance => s.advance
  | .fail taken =>
    match s.phase with
    | .frame _ frame =>
      some { s with
        phase := .failed, out := ⟨s.out.output ++ (s.out.buffer ++ frame.1).take taken, []⟩ }
    | .flush _ =>
      some { s with phase := .failed, out := ⟨s.out.output ++ s.out.buffer.take taken, []⟩ }
    | _ => none

def system (capacity : ℕ) : System Writer Operation where
  init s := s = {}
  step s op t := s.perform capacity op = some t

/-- The frames that the senders put into the channel, in this order. -/
def sent (ops : List Operation) : List Frame :=
  ops.filterMap fun
    | .send frame => some frame
    | _ => none

/-- A batch is small, or one frame. -/
def Bounded (batch : List Frame) : Prop :=
  batch.length ≤ maxBatchFrames ∧ ((bytes batch).length ≤ maxBatchBytes ∨ batch.length = 1)

/-- A batch that may get another frame. -/
def Open (batch : List Frame) : Prop :=
  batch.length < maxBatchFrames ∧ (bytes batch).length < maxBatchBytes

/-- Unless the output failed, the frames that were sent are those of the batches, the one in hand,
the one that waits and those of the channel, in this order; the first have been written. -/
structure Ordered (ops : List Operation) (s : Writer) (batch held : List Frame) : Prop where
  sent_eq : sent ops = s.flushed.flatten ++ batch ++ held ++ s.pending.toList ++ s.queue
  out_eq : s.out.output ++ s.out.buffer = bytes (s.flushed.flatten ++ batch)
  bounded : ∀ b ∈ s.flushed, Bounded b

inductive Sound (ops : List Operation) (s : Writer) : Prop
  | first (h : s.phase = .first) (ho : Ordered ops s [] []) (hb : s.out.buffer = [])
  | frame {batch f} (h : s.phase = .frame batch f) (ho : Ordered ops s batch [f])
      (hp : s.pending = none) (hopen : Open batch)
  | more {batch} (h : s.phase = .more batch) (ho : Ordered ops s batch [])
      (hp : s.pending = none) (hopen : Open batch)
  | flush {batch} (h : s.phase = .flush batch) (ho : Ordered ops s batch []) (hb : Bounded batch)
  | returned (h : s.phase = .returned) (ho : Ordered ops s [] []) (hb : s.out.buffer = [])
      (hp : s.pending = none) (hq : s.queue = []) (hc : s.closed = true)
  | failed {n} (h : s.phase = .failed) (hn : .fail n ∈ ops) (ho : s.out.output <+: bytes (sent ops))
      (hb : ∀ b ∈ s.flushed, Bounded b)

@[simp] theorem bytes_append (a b : List Frame) : bytes (a ++ b) = bytes a ++ bytes b :=
  List.flatMap_append

@[simp] theorem bytes_singleton (f : Frame) : bytes [f] = f.1 := by simp [bytes]

theorem BufWriter.writeAll_eq (w : BufWriter) (data : List UInt8) :
    (w.writeAll data).output ++ (w.writeAll data).buffer = w.output ++ w.buffer ++ data := by
  unfold BufWriter.writeAll
  split_ifs with hfull hla hla
  · simp [BufWriter.flush]
  · simp [BufWriter.flush]
  · -- a large frame meets an empty buffer
    have hb : w.buffer = [] := by
      rw [← List.length_eq_zero_iff]
      omega
    simp [hb]
  · simp

theorem Open.bounded {batch} (h : Open batch) : Bounded batch :=
  ⟨Nat.le_of_lt h.1, .inl (Nat.le_of_lt h.2)⟩

theorem open_nil : Open [] := ⟨by decide, by decide⟩

theorem sent_append (a b : List Operation) : sent (a ++ b) = sent a ++ sent b :=
  List.filterMap_append

/-- No sum of lengths overflows: the batch is small and the frame fits into memory. -/
theorem Open.checkedAdd_eq {batch} (h : Open batch) (f : Frame) :
    checkedAdd (bytes batch).length f.1.length = some ((bytes batch).length + f.1.length) := by
  have hb := h.2
  have hf := f.2
  refine if_pos ?_
  simp only [maxBatchBytes, UInt64.size] at hb hf ⊢
  omega

variable {ops : List Operation} {s t : Writer} {batch held : List Frame}

/-- What the output has got, and any part of what it may be given, starts what was sent. -/
theorem Ordered.output_prefix (ho : Ordered ops s batch held) (n : ℕ) :
    s.out.output ++ (s.out.buffer ++ bytes held).take n <+: bytes (sent ops) := by
  refine ((List.prefix_append_right_inj _).mpr (List.take_prefix _ _)).trans ?_
  rw [← List.append_assoc, ho.out_eq, ho.sent_eq]
  simp [List.append_assoc]

theorem Ordered.send (ho : Ordered ops s batch held) (f : Frame) :
    Ordered (ops ++ [.send f]) { s with queue := s.queue ++ [f] } batch held := by
  refine ⟨?_, ho.out_eq, ho.bounded⟩
  rw [sent_append, ho.sent_eq]
  simp [sent]

theorem Sound.advance (hs : Sound ops s) (h : s.advance = some t) : Sound ops t := by
  cases hs with
  | first hphase ho hb =>
    simp only [Writer.advance, hphase] at h
    split at h
    next frame hp =>
      cases h
      exact .frame rfl ⟨by simpa [hp] using ho.sent_eq, ho.out_eq, ho.bounded⟩ rfl open_nil
    next frame queue hp hq =>
      cases h
      exact .frame rfl ⟨by simpa [hp, hq] using ho.sent_eq, ho.out_eq, ho.bounded⟩ hp open_nil
    next hp hq =>
      split at h
      next hc =>
        cases h
        exact .returned rfl ⟨ho.sent_eq, ho.out_eq, ho.bounded⟩ hb hp hq hc
      · cases h
  | @frame batch f hphase ho hp hopen =>
    simp only [Writer.advance, hphase, hopen.checkedAdd_eq f] at h
    split at h
    next hla =>
      cases h
      exact .flush rfl ⟨by simpa [hp] using ho.sent_eq, ho.out_eq, ho.bounded⟩ hopen.bounded
    next hsm =>
      cases h
      have ho' : Ordered ops { s with out := s.out.writeAll f.1 } (batch ++ [f]) [] := by
        refine ⟨by simpa [hp] using ho.sent_eq, ?_, ho.bounded⟩
        rw [BufWriter.writeAll_eq, ho.out_eq]
        simp
      have hlen' : (bytes (batch ++ [f])).length = (bytes batch).length + f.1.length := by simp
      have hco : (batch ++ [f]).length = batch.length + 1 := by simp
      by_cases hfull : (batch ++ [f]).length ≥ maxBatchFrames ∨
          (bytes batch).length + f.1.length ≥ maxBatchBytes
      · refine .flush (if_pos hfull) ⟨ho'.sent_eq, ho'.out_eq, ho'.bounded⟩ ⟨?_, ?_⟩
        · have := hopen.1
          omega
        · omega
      · refine .more (if_neg hfull) ⟨ho'.sent_eq, ho'.out_eq, ho'.bounded⟩ hp ⟨?_, ?_⟩ <;> omega
  | @more _ hphase ho hp hopen =>
    simp only [Writer.advance, hphase] at h
    split at h
    next frame queue hq =>
      cases h
      exact .frame rfl ⟨by simpa [hp, hq] using ho.sent_eq, ho.out_eq, ho.bounded⟩ hp hopen
    next hq =>
      cases h
      exact .flush rfl ⟨ho.sent_eq, ho.out_eq, ho.bounded⟩ hopen.bounded
  | @flush _ hphase ho hb =>
    simp only [Writer.advance, hphase, Option.some.injEq] at h
    subst h
    refine .first rfl ⟨by simpa using ho.sent_eq, ?_, ?_⟩ rfl
    · simpa [BufWriter.flush] using ho.out_eq
    · simpa [or_imp, forall_and] using ⟨ho.bounded, hb⟩
  | returned hphase | failed hphase => simp [Writer.advance, hphase] at h

/-- An operation that sends nothing, and perhaps closes the channel, is nothing to what the writer
keeps. -/
theorem Sound.concat {op closed} (hs : Sound ops s) (h : sent [op] = []) (hle : s.closed ≤ closed) :
    Sound (ops ++ [op]) { s with closed } := by
  have he : sent (ops ++ [op]) = sent ops := by rw [sent_append, h, List.append_nil]
  have hor {batch held} (ho : Ordered ops s batch held) :
      Ordered (ops ++ [op]) { s with closed } batch held := ⟨he ▸ ho.1, ho.2, ho.3⟩
  cases hs with
  | first h ho hb => exact .first h (hor ho) hb
  | frame h ho hp hopen => exact .frame h (hor ho) hp hopen
  | more h ho hp hopen => exact .more h (hor ho) hp hopen
  | flush h ho hb => exact .flush h (hor ho) hb
  | returned h ho hb hp hq hc => exact .returned h (hor ho) hb hp hq (hle hc)
  | failed h hn ho hb => exact .failed h (List.mem_append_left _ hn) (he ▸ ho) hb

theorem Sound.send (hs : Sound ops s) (hc : s.closed = false) (f : Frame) :
    Sound (ops ++ [.send f]) { s with queue := s.queue ++ [f] } := by
  cases hs with
  | first h ho hb => exact .first h (ho.send f) hb
  | frame h ho hp hopen => exact .frame h (ho.send f) hp hopen
  | more h ho hp hopen => exact .more h (ho.send f) hp hopen
  | flush h ho hb => exact .flush h (ho.send f) hb
  | returned _ _ _ _ _ hclosed =>
    simp [hc] at hclosed
  | failed h hn ho hb =>
    exact .failed h (List.mem_append_left _ hn) (ho.trans (by simp [sent_append])) hb

theorem Sound.perform {capacity op} (hs : Sound ops s) (h : s.perform capacity op = some t) :
    Sound (ops ++ [op]) t := by
  cases op with
  | send f =>
    simp only [Writer.perform, Option.ite_none_left_eq_some, not_or] at h
    cases h.2
    exact hs.send (by simpa using h.1.1) f
  | close =>
    cases h
    exact hs.concat rfl fun _ => rfl
  | advance => exact (hs.advance h).concat rfl id
  | fail n =>
    have hn : .fail n ∈ ops ++ [.fail n] := by simp
    have he : sent (ops ++ [.fail n]) = sent ops := by simp [sent]
    cases hs with
    | frame hphase ho =>
      simp only [Writer.perform, hphase, Option.some.injEq] at h
      subst h
      exact .failed rfl hn (by simpa [he] using ho.output_prefix n) ho.bounded
    | flush hphase ho =>
      simp only [Writer.perform, hphase, Option.some.injEq] at h
      subst h
      exact .failed rfl hn (by simpa [he, bytes] using ho.output_prefix n) ho.bounded
    | first hphase | more hphase | returned hphase | failed hphase =>
      simp [Writer.perform, hphase] at h

theorem Sound.output_prefix (hs : Sound ops s) : s.out.output <+: bytes (sent ops) := by
  cases hs with
  | first _ ho | frame _ ho | more _ ho | flush _ ho | returned _ ho =>
    simpa using ho.output_prefix 0
  | failed _ _ ho => exact ho

/-- When nothing waits and nothing is in the buffer, the output has got all. -/
theorem Ordered.all_written (ho : Ordered ops s [] []) (hb : s.out.buffer = [])
    (hp : s.pending = none) (hq : s.queue = []) : s.out.output = bytes (sent ops) := by
  have hsent := ho.sent_eq
  simp only [hp, hq, Option.toList_none, List.append_nil] at hsent
  simpa [hb, hsent] using ho.out_eq

/-- A writer whose output did not fail stops only where it waits for a frame, or returns: it has
written all that was sent. -/
theorem Sound.stopped (hs : Sound ops s) (h : s.advance = none) :
    (s.pending = none ∧ s.queue = [] ∧ s.out = ⟨bytes (sent ops), []⟩) ∨
      ∃ n, .fail n ∈ ops := by
  cases hs with
  | first hphase ho hb =>
    simp only [Writer.advance, hphase] at h
    split at h
    · cases h
    · cases h
    next hp hq => exact .inl ⟨hp, hq, by rw [← ho.all_written hb hp hq, ← hb]⟩
  | @frame batch f hphase _ _ hopen =>
    simp only [Writer.advance, hphase, hopen.checkedAdd_eq f] at h
    split at h <;> cases h
  | more hphase =>
    simp only [Writer.advance, hphase] at h
    split at h <;> cases h
  | flush hphase => simp [Writer.advance, hphase] at h
  | returned _ ho hb hp hq => exact .inl ⟨hp, hq, by rw [← ho.all_written hb hp hq, ← hb]⟩
  | failed _ hn => exact .inr ⟨_, hn⟩

end RedevPlugin.Runtime.IpcWriter

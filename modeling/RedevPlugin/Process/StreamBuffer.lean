import RedevPlugin.Foundation.Transition

/-! The output buffers of a supervised process. What the process writes to a
stream is kept up to a limit: the oldest bytes go first, and offsets count the
bytes ever produced, so that a reader can hold a cursor across the loss. A read
of the supervisor looks at the exit state first and at the buffer after it; the
exit state it goes by may therefore be older than the one of the process. The
offsets, of type `uint64` in the source, do not wrap around: a process produces
fewer than `2 ^ 64` bytes. -/

namespace RedevPlugin.Process

open Transition

def maxOutputBufferBytes : Int := 16 * 1024 * 1024

inductive Error where
  | invalidRequest

structure ReadRequest where
  cursor : Nat
  maxBytes : Int

structure ReadResult where
  data : List UInt8
  cursor : Nat
  eof : Bool
  processExit : Bool
  streamGap : Bool
  droppedBytes : Nat

/-- `streamBuffer`: `data` starts at the offset `start`, `cursor` counts the bytes produced. -/
structure StreamBuffer where
  limit : Nat
  data : List UInt8 := []
  start : Nat := 0
  cursor : Nat := 0
  closed : Bool := false

namespace StreamBuffer

def append (b : StreamBuffer) (data : List UInt8) : StreamBuffer :=
  let kept := b.data ++ data
  if kept.length > b.limit then
    let dropped := kept.length - b.limit
    { b with
      data := kept.drop dropped, cursor := b.cursor + data.length, start := b.start + dropped }
  else
    { b with data := kept, cursor := b.cursor + data.length }

def close (b : StreamBuffer) : StreamBuffer := { b with closed := true }

def read (b : StreamBuffer) (request : ReadRequest) (processExit : Bool) :
    Except Error ReadResult :=
  if request.maxBytes ≤ 0 ∨ request.maxBytes > maxOutputBufferBytes then
    .error .invalidRequest
  else if request.cursor > b.cursor then
    .error .invalidRequest
  else if request.cursor < b.start then
    let data := b.data.take (min request.maxBytes.toNat b.data.length)
    .ok
      { data, processExit, streamGap := true, droppedBytes := b.start - request.cursor
        cursor := b.start + data.length
        -- The end is reported here without a look at the bytes that are still retained.
        eof := b.closed && processExit }
  else
    let offset := request.cursor - b.start
    let data :=
      if offset < b.data.length then
        (b.data.take (min (offset + request.maxBytes.toNat) b.data.length)).drop offset
      else []
    let cursor := request.cursor + data.length
    .ok
      { data, cursor, processExit, streamGap := false, droppedBytes := 0
        eof := b.closed && processExit && decide (cursor ≥ b.cursor) }

/-- The buffer holds the end of what was produced. -/
structure Holds (b : StreamBuffer) (produced : List UInt8) : Prop where
  cursor_eq : b.cursor = produced.length
  start_le : b.start ≤ produced.length
  data_eq : b.data = produced.drop b.start

variable {b : StreamBuffer} {produced : List UInt8}

theorem Holds.length_eq (hb : Holds b produced) : b.start + b.data.length = produced.length := by
  rw [hb.data_eq, List.length_drop]
  exact Nat.add_sub_cancel' hb.start_le

theorem Holds.append (hb : Holds b produced) (data : List UInt8) :
    Holds (b.append data) (produced ++ data) := by
  have hd : b.data ++ data = (produced ++ data).drop b.start := by
    rw [List.drop_append_of_le_length hb.start_le, ← hb.data_eq]
  have hlen := hb.length_eq
  have hc := hb.cursor_eq
  simp only [StreamBuffer.append]
  split
  next hov =>
    refine ⟨by simp [hc], ?_, ?_⟩
    · simp only [List.length_append]
      omega
    · simp only [hd, List.drop_drop]
  next => exact ⟨by simp [hc], by simp only [List.length_append]; omega, hd⟩

/-- A piece of the retained bytes is the same piece of the bytes produced. -/
theorem Holds.piece (hb : Holds b produced) {first} (hf : b.start ≤ first) (n : Nat) :
    (b.data.drop (first - b.start)).take n =
      (produced.take (first + min n (produced.length - first))).drop first := by
  rw [hb.data_eq, List.drop_drop, List.drop_take, Nat.add_sub_cancel' hf, Nat.add_sub_cancel_left,
    ← List.length_drop, ← List.take_eq_take_min]

variable {request : ReadRequest} {processExit : Bool} {result : ReadResult}

theorem Holds.read (hb : Holds b produced) (h : b.read request processExit = .ok result) :
    let first := max request.cursor b.start
    0 < request.maxBytes ∧ first ≤ produced.length ∧
    result.cursor = first + min request.maxBytes.toNat (produced.length - first) ∧
    result.data = (produced.take result.cursor).drop first ∧
    result.droppedBytes = first - request.cursor ∧
    result.eof = (b.closed && processExit &&
      (decide (request.cursor < b.start) || decide (result.cursor ≥ produced.length))) := by
  have hlen := hb.length_eq
  have hc := hb.cursor_eq
  simp only [StreamBuffer.read] at h
  split at h
  · cases h
  next hmax =>
  split at h
  · cases h
  next hcur =>
  split at h
  next hgap =>
    have hp := hb.piece (Nat.le_refl b.start) request.maxBytes.toNat
    rw [Nat.sub_self, List.drop_zero, List.take_eq_take_min] at hp
    cases h
    rw [Nat.max_eq_right (Nat.le_of_lt hgap)]
    refine ⟨by omega, by omega, ?_, ?_, rfl, by simp [hgap]⟩
    · simp only [List.length_take]
      omega
    · simp only [hp, List.length_drop, List.length_take]
      congr 2
      omega
  next hgap =>
    have hp := hb.piece (Nat.not_lt.mp hgap) request.maxBytes.toNat
    rw [Nat.max_eq_left (Nat.not_lt.mp hgap)]
    have hda : (if request.cursor - b.start < b.data.length then
        (b.data.take (min (request.cursor - b.start + request.maxBytes.toNat)
          b.data.length)).drop (request.cursor - b.start) else []) =
        (b.data.drop (request.cursor - b.start)).take request.maxBytes.toNat := by
      split
      · rw [← List.take_eq_take_min, List.drop_take, Nat.add_sub_cancel_left]
      next hoff => rw [List.drop_eq_nil_of_le (Nat.not_lt.mp hoff), List.take_nil]
    rw [hda] at h
    cases h
    have hl : ((b.data.drop (request.cursor - b.start)).take request.maxBytes.toNat).length =
        min request.maxBytes.toNat (produced.length - request.cursor) := by
      rw [List.length_take, List.length_drop]
      omega
    exact ⟨by omega, by omega, by rw [hl], by rw [hl, hp], by simp, by simp [hgap, hc]⟩

/-- What a read should return of the bytes produced so far: those from the cursor, or from the
oldest retained byte, up to the returned cursor, the gap before them, and the end of the file only
when the stream is closed and everything was returned. -/
def Faithful (b : StreamBuffer) (produced : List UInt8) (request : ReadRequest)
    (result : ReadResult) : Prop :=
  let first := max request.cursor b.start
  first ≤ result.cursor ∧ result.cursor ≤ produced.length ∧
  result.data = (produced.take result.cursor).drop first ∧
  result.droppedBytes = first - request.cursor ∧
  (result.eof = true → b.closed = true ∧ result.cursor = produced.length)

/-- The read starts before the retained bytes of a finished stream and is too short for them. -/
def CutGap (b : StreamBuffer) (request : ReadRequest) (processExit : Bool) : Prop :=
  b.closed = true ∧ processExit = true ∧ request.cursor < b.start ∧ request.maxBytes < b.data.length

theorem faithful_read_iff (hb : Holds b produced) (h : b.read request processExit = .ok result) :
    Faithful b produced request result ↔ ¬ CutGap b request processExit := by
  obtain ⟨hmax, hfi, hcur, hda, hdr, heof⟩ := hb.read h
  have hlen := hb.length_eq
  constructor
  · rintro ⟨-, -, -, -, hend⟩ ⟨hclosed, hex, hgap, hcut⟩
    have := (hend (by simp [heof, hclosed, hex, hgap])).2
    omega
  · intro hcut
    refine ⟨by omega, by omega, hda, hdr, fun he => ?_⟩
    simp only [heof, Bool.and_eq_true, Bool.or_eq_true, decide_eq_true_eq] at he
    obtain ⟨⟨hclosed, hex⟩, hend⟩ := he
    refine ⟨hclosed, ?_⟩
    rcases hend with hgap | hend
    · have : ¬ request.maxBytes < b.data.length := fun hlt => hcut ⟨hclosed, hex, hgap, hlt⟩
      omega
    · omega

end StreamBuffer

inductive Stream where
  | stdout
  | stderr
  deriving DecidableEq

/-- The part of a supervised process that its streams live in. -/
structure Session where
  buffers : Stream → StreamBuffer
  exited : Bool

/-- `Supervisor.Read`, with the exit state it looked up before. -/
def Session.read (s : Session) (stream : Stream) (request : ReadRequest) (exited : Bool) :
    Except Error ReadResult :=
  match stream with
  | .stdout => (s.buffers .stdout).read request exited
  | .stderr => (s.buffers .stderr).read request exited

inductive Operation where
  | write (stream : Stream) (data : List UInt8)
  | close (stream : Stream)
  | exit
  | read (stream : Stream) (request : ReadRequest) (exited : Bool)

abbrev Outcome := Option (Except Error ReadResult)

def Session.perform (s : Session) : Operation → Option (Outcome × Session)
  | .write stream data =>
    some (none, { s with
      buffers := Function.update s.buffers stream ((s.buffers stream).append data) })
  | .close stream =>
    some (none, { s with buffers := Function.update s.buffers stream (s.buffers stream).close })
  | .exit => some (none, { s with exited := true })
  | .read stream request exited =>
    if exited && !s.exited then none else some (some (s.read stream request exited), s)

/-- A process started with any limit for its buffers. -/
def system : System Session (Operation × Outcome) :=
  .ofOption (fun s => ∃ limit, s = ⟨fun _ => { limit }, false⟩) Session.perform

/-- The bytes the process wrote to a stream. -/
def produced (stream : Stream) : List (Operation × Outcome) → List UInt8
  | [] => []
  | (.write written data, _) :: history =>
    (if written = stream then data else []) ++ produced stream history
  | _ :: history => produced stream history

theorem produced_append (stream : Stream) (p q : List (Operation × Outcome)) :
    produced stream (p ++ q) = produced stream p ++ produced stream q := by
  induction p with
  | nil => rfl
  | cons x p ih =>
    obtain ⟨op, out⟩ := x
    cases op with
    | write => simp [produced, ih]
    | close | exit | read => exact ih

theorem Session.step_holds {history s t l}
    (hs : ∀ stream, (s.buffers stream).Holds (produced stream history)) (h : system.step s l t)
    (stream : Stream) : (t.buffers stream).Holds (produced stream (history ++ [l])) := by
  obtain ⟨op, out⟩ := l
  rw [produced_append]
  change s.perform op = some (out, t) at h
  cases op with try cases h
  | write written data =>
    by_cases he : stream = written
    · subst he
      simpa [produced] using (hs stream).append data
    · simpa [produced, he, Ne.symm he] using hs stream
  | close closed =>
    have hb := hs stream
    by_cases he : stream = closed
    · subst he
      simpa [produced] using ⟨hb.cursor_eq, hb.start_le, hb.data_eq⟩
    · simpa [produced, he] using hb
  | exit => simpa [produced] using hs stream
  | read =>
    simp only [perform, Option.ite_none_left_eq_some] at h
    cases h.2
    simpa [produced] using hs stream

/-- Every read of every run returns what it should, but for the end of the file that a read
reports after a gap when it leaves retained bytes behind. -/
theorem read_faithful_iff {s : Session} {tr : List ((Operation × Outcome) × Session)}
    (hin : system.init s) (hr : system.Run s tr) {p q : List ((Operation × Outcome) × Session)}
    {stream : Stream} {request : ReadRequest} {exited : Bool} {result : ReadResult} {t : Session}
    (htr : tr = p ++ ((.read stream request exited, some (.ok result)), t) :: q) :
    ((last s p).buffers stream).Faithful (produced stream (labels p)) request result ↔
      ¬ ((last s p).buffers stream).CutGap request exited := by
  rw [htr, System.run_append, System.run_cons] at hr
  obtain ⟨limit, rfl⟩ := hin
  have hb := System.Run.invariant
    (I := fun history s => ∀ stream, (s.buffers stream).Holds (produced stream history))
    (fun _ _ _ _ hs _ h => Session.step_holds hs h) (fun _ => ⟨rfl, Nat.le_refl 0, rfl⟩) hr.1
    (guarded_true [] _ p)
  have h := hr.2.1
  simp only [system, System.ofOption, Session.perform, Option.ite_none_left_eq_some] at h
  have hre : (last _ p).read stream request exited = .ok result :=
    Option.some.inj (congrArg Prod.fst (Option.some.inj h.2))
  exact StreamBuffer.faithful_read_iff (hb stream) (by cases stream <;> exact hre)

/-- A finished stream of eight bytes that keeps four of them, read from its beginning. -/
def gapOperations (maxBytes : Int) : List Operation :=
  [.write .stdout [1, 2, 3, 4, 5, 6, 7, 8], .close .stdout, .exit, .read .stdout ⟨0, maxBytes⟩ true]

def gapRun (maxBytes : Int) : List ((Operation × Outcome) × Session) :=
  trace Session.perform ⟨fun _ => { limit := 4 }, false⟩ (gapOperations maxBytes)

theorem read_faithful_iff_whole_gap :
    let before := (gapRun 4).take 3
    ((last ⟨fun _ => { limit := 4 }, false⟩ before).buffers .stdout).Faithful
      (produced .stdout (labels before)) ⟨0, 4⟩ ⟨[5, 6, 7, 8], 8, true, true, true, 4⟩ :=
  (read_faithful_iff ⟨4, rfl⟩ (System.run_trace _ _ _ (gapOperations 4)) (q := []) rfl).mpr
    fun h => absurd h.2.2.2 (by decide)

/-- Read by two bytes, the end is reported with two bytes still to come. -/
theorem read_ends_before_the_stream :
    (labels (gapRun 2)).getLast? =
        some (.read .stdout ⟨0, 2⟩ true, some (.ok ⟨[5, 6], 6, true, true, true, 4⟩)) ∧
      (produced .stdout (labels (gapRun 2))).length = 8 :=
  ⟨rfl, rfl⟩

end RedevPlugin.Process

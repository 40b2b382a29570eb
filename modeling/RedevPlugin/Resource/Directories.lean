import Mathlib.Algebra.GroupWithZero.Nat
import RedevPlugin.Foundation.Transition

/-! Pages of a directory. A call of `fs.read_dir.next` takes entries from the open
directory one by one, until the page has as many as were asked for, the next one
would make it too long, the directory has no more or a read fails. An entry that no
longer fits waits for the next page. The entries of a page that a failed read cuts
short are not kept: they are lost, unless the read is the first thing the call does. -/

namespace RedevPlugin.Directories

open Transition

/-- A string of the source, any bytes. -/
abbrev Text := List UInt8

def ascii (s : String) : Text := s.toList.map fun c => c.toNat.toUInt8

inductive FileKind where
  | file
  | directory
  | symlink
  | other
  deriving DecidableEq

/-- An entry as the file system gives it, with the kind of its mode. -/
structure DirEntry where
  name : Text
  kind : FileKind

structure DirectoryEntry where
  name : Text
  uri : Text
  kind : FileKind
  deriving DecidableEq

structure DirectoryPage where
  entries : List DirectoryEntry
  eof : Bool
  deriving DecidableEq

inductive ResourceError where
  | invalidHandle
  | closed
  | limit
  | read (message : String)
  deriving DecidableEq

/-- `file` has what the open directory has not given yet. -/
structure DirectoryStream where
  file : List DirEntry
  mountID : Text
  path : Text
  pending : Option DirectoryEntry := none
  closed : Bool := false

/-- The read of a call that fails, counted from zero, and its error. -/
abbrev Fault := Option (Nat × String)

def maxPageBytes : Nat := 60 * 1024

section

-- `uri` is `URI.String` of a mount and a path, `marshal` is `json.Marshal` of an entry
variable (uri : Text → Text → Text) (marshal : DirectoryEntry → Text)

namespace DirectoryStream

variable (s : DirectoryStream)

def entry (e : DirEntry) : DirectoryEntry :=
  let path := if s.path = ascii "." then e.name else s.path ++ ascii "/" ++ e.name
  ⟨e.name, uri s.mountID path, e.kind⟩

/-- The entry that is pending after the first part of the loop's body, with what is
left in the directory; `none` at its end. -/
def advance (fault : Fault) :
    Except ResourceError (Option (DirectoryEntry × List DirEntry × Fault)) :=
  match s.pending with
  | some entry => .ok (some (entry, s.file, fault))
  | none =>
    match fault, s.file with
    | some (0, message), _ => .error (.read message)
    | _, [] => .ok none
    | fault, e :: file =>
      .ok (some (s.entry uri e, file, fault.map fun f => (f.1 - 1, f.2)))

/-- The loop of `Next` with room for so many more entries. -/
def fill : Nat → Fault → DirectoryStream → List DirectoryEntry → Nat →
    Except ResourceError DirectoryPage × DirectoryStream
  | 0, _, s, entries, _ => (.ok ⟨entries, false⟩, s)
  | room + 1, fault, s, entries, encodedBytes =>
    match s.advance uri fault with
    | .error e => (.error e, s)
    | .ok none => (.ok ⟨entries, true⟩, { s with closed := true })
    | .ok (some (entry, file, fault)) =>
      if encodedBytes + (marshal entry).length + 1 > maxPageBytes then
        (if entries = [] then .error .limit else .ok ⟨entries, false⟩,
          { s with file, pending := some entry })
      else
        fill room fault { s with file, pending := none } (entries ++ [entry])
          (encodedBytes + (marshal entry).length + 1)

def next (limit : Int) (fault : Fault) : Except ResourceError DirectoryPage × DirectoryStream :=
  if s.closed then (.error .closed, s)
  else if limit < 1 ∨ limit > 1000 then (.error .limit, s)
  else s.fill uri marshal limit.toNat fault [] (ascii "\x7b\"entries\":[],\"eof\":false\x7d").length

/-- What is still to be delivered. -/
def left : List DirectoryEntry := s.pending.toList ++ s.file.map (s.entry uri)

end DirectoryStream

open DirectoryStream

variable (s : Option DirectoryStream)

/-- `fs.read_dir.next`; a handle whose directory has ended is closed. -/
def readDirNext (limit : Int) (fault : Fault) :
    Except ResourceError DirectoryPage × Option DirectoryStream :=
  match s with
  | none => (.error .invalidHandle, none)
  | some stream =>
    match stream.next uri marshal limit fault with
    | (.error e, stream) => (.error e, some stream)
    | (.ok page, stream) => (.ok page, if page.eof then none else some stream)

abbrev Label := (Int × Fault) × Except ResourceError DirectoryPage

def perform (op : Int × Fault) :
    Option (Except ResourceError DirectoryPage × Option DirectoryStream) :=
  some (readDirNext uri marshal s op.1 op.2)

def pages : System (Option DirectoryStream) Label := .ofOption (fun _ => True) (perform uri marshal)

/-- The elements of the array, each after the first behind a comma. -/
def elementsJSON (first : Bool) : List DirectoryEntry → Text
  | [] => []
  | e :: es => (if first then [] else ascii ",") ++ marshal e ++ elementsJSON false es

/-- `json.Marshal` of a page. -/
def pageJSON (page : DirectoryPage) : Text :=
  ascii "\x7b\"entries\":[" ++ elementsJSON marshal true page.entries ++
    ascii (if page.eof then "],\"eof\":true\x7d" else "],\"eof\":false\x7d")

def entriesOf : Except ResourceError DirectoryPage → List DirectoryEntry
  | .ok page => page.entries
  | .error _ => []

/-- The entries of the pages that the calls returned. -/
def delivered (h : List Label) : List DirectoryEntry := h.flatMap fun l => entriesOf l.2

/-- What a handle has still to deliver. -/
def remaining : List DirectoryEntry := s.elim [] (left uri)

/-- The read that fails, if there is one, is the first thing its call does. -/
def failsFirst : Fault → Bool
  | none => true
  | some (k, _) => k = 0 && s.all fun stream => stream.pending.isNone

variable (entries : List DirectoryEntry)

/-- The bytes `Next` counts for a page. -/
def pageBytes : Nat := 26 + (entries.map fun e => (marshal e).length + 1).sum

theorem length_elementsJSON (first : Bool) (entries : List DirectoryEntry) :
    (elementsJSON marshal first entries).length ≤
      (entries.map fun e => (marshal e).length + 1).sum := by
  induction entries generalizing first with
  | nil => exact Nat.le_refl 0
  | cons e es ih =>
    have hes := ih false
    have hsep : (if first then [] else ascii ",").length ≤ 1 := by cases first <;> decide
    rw [elementsJSON, List.length_append, List.length_append, List.map_cons, List.sum_cons]
    omega

theorem length_pageJSON (page : DirectoryPage) :
    (pageJSON marshal page).length ≤ pageBytes marshal page.entries := by
  have hel := length_elementsJSON marshal true page.entries
  have hhead : (ascii "\x7b\"entries\":[").length = 12 := rfl
  have htail : (ascii (if page.eof then "],\"eof\":true\x7d" else "],\"eof\":false\x7d")).length ≤
      14 := by
    cases page.eof <;> decide
  rw [pageJSON, List.length_append, List.length_append, pageBytes, hhead]
  omega

theorem pageBytes_snoc (e : DirectoryEntry) :
    pageBytes marshal (entries ++ [e]) = pageBytes marshal entries + (marshal e).length + 1 := by
  simp only [pageBytes, List.map_append, List.sum_append, List.map_cons, List.map_nil,
    List.sum_cons, List.sum_nil]
  omega

/-- A pass of the loop takes the first of what is left. -/
theorem advance_spec (s : DirectoryStream) (fault : Fault) :
    match s.advance uri fault with
    | .error _ => fault ≠ none
    | .ok none => s.left uri = []
    | .ok (some (e, file, fault')) =>
      s.left uri = e :: file.map (s.entry uri) ∧ (fault = none → fault' = none) := by
  unfold advance left
  cases s.pending with
  | some e => exact ⟨rfl, id⟩
  | none => rcases fault with _ | ⟨_ | k, message⟩ <;> cases s.file <;> simp

/-- Only a failed read drops entries that the loop has taken. -/
theorem fill_spec (room : Nat) (fault : Fault) (s : DirectoryStream)
    (entries : List DirectoryEntry) (hle : pageBytes marshal entries ≤ maxPageBytes) :
    match fill uri marshal room fault s entries (pageBytes marshal entries) with
    | (.error _, t) => fault = none → entries = [] ∧ t.left uri = s.left uri ∧ t.closed = s.closed
    | (.ok page, t) => entries ++ s.left uri = page.entries ++ t.left uri ∧
      pageBytes marshal page.entries ≤ maxPageBytes ∧
      page.entries.length ≤ entries.length + room ∧
      if page.eof then t.left uri = [] else t.closed = s.closed := by
  induction room generalizing fault s entries with
  | zero => exact ⟨rfl, hle, Nat.le_refl _, rfl⟩
  | succ room ih =>
    have hadv := advance_spec uri s fault
    rw [fill]
    rcases hs : s.advance uri fault with e | _ | ⟨e, file, fault'⟩ <;> simp only [hs] at hadv ⊢
    · exact fun hnone => absurd hnone hadv
    · exact ⟨rfl, hle, by omega, hadv⟩
    · obtain ⟨hleft, hf⟩ := hadv
      split_ifs with hlong hem
      · exact fun _ => ⟨hem, hleft.symm, rfl⟩
      · exact ⟨by rw [hleft]; rfl, hle, by simp only; omega, rfl⟩
      · have hrec := ih fault' { s with file, pending := none } (entries ++ [e])
          (by rw [pageBytes_snoc]; omega)
        rw [pageBytes_snoc, List.append_assoc, List.length_append, List.length_singleton] at hrec
        split at hrec
        · exact fun hnone => absurd (hrec (hf hnone)).1 (by simp)
        · exact ⟨hleft ▸ hrec.1, hrec.2.1, by omega, hrec.2.2.2⟩

variable {uri marshal} {u v : Option DirectoryStream} {limit : Int} {fault : Fault}
  {out : Except ResourceError DirectoryPage}

/-- A call gives the first of what remains, if no read fails after it has taken an entry. -/
theorem readDirNext_spec (hopen : ∀ s, u = some s → s.closed = false)
    (hfirst : failsFirst u fault = true) (h : readDirNext uri marshal u limit fault = (out, v)) :
    (∀ s, v = some s → s.closed = false) ∧ remaining uri u = entriesOf out ++ remaining uri v ∧
      ∀ page, out = .ok page → (pageJSON marshal page).length ≤ maxPageBytes ∧
        (page.entries.length : Int) ≤ limit ∧ (page.eof = true → v = none) := by
  unfold readDirNext at h
  cases u with
  | none =>
    cases h
    exact ⟨hopen, rfl, by simp⟩
  | some s =>
    have hs := hopen s rfl
    simp only [next, hs, Bool.false_eq_true, if_false] at h
    by_cases hlimit : limit < 1 ∨ limit > 1000
    · rw [if_pos hlimit] at h
      cases h
      exact ⟨hopen, rfl, by simp⟩
    rw [if_neg hlimit, show (ascii _).length = pageBytes marshal [] from rfl] at h
    obtain ⟨room, hroom⟩ : ∃ room, limit.toNat = room + 1 := ⟨limit.toNat - 1, by omega⟩
    have hspec := fill_spec uri marshal (room + 1) fault s [] (by simp [pageBytes, maxPageBytes])
    rw [hroom] at h
    rcases hfill : fill uri marshal (room + 1) fault s [] (pageBytes marshal []) with
      ⟨e | page, t⟩ <;> simp only [hfill] at hspec h <;> cases h
    · have hsame : t.left uri = s.left uri ∧ t.closed = s.closed := by
        rcases fault with _ | ⟨k, message⟩
        · exact (hspec rfl).2
        · -- the read fails before the call has taken anything
          simp only [failsFirst, Option.all_some, Bool.and_eq_true, decide_eq_true_eq,
            Option.isNone_iff_eq_none] at hfirst
          simp only [fill, advance, hfirst] at hfill
          cases hfill
          exact ⟨rfl, rfl⟩
      exact ⟨by rintro _ ⟨⟩; exact hsame.2.trans hs, hsame.1.symm, by simp⟩
    · obtain ⟨hall, hbytes, hlen, hend⟩ := hspec
      refine ⟨fun t' ht => ?_, ?_, ?_⟩
      · split_ifs at ht with heof
        cases ht
        rw [if_neg heof] at hend
        exact hend.trans hs
      · split_ifs at hend ⊢ with heof
        · exact hall.trans (hend ▸ rfl)
        · exact hall
      · rintro _ ⟨⟩
        refine ⟨Nat.le_trans (length_pageJSON marshal page) hbytes, ?_, fun heof => if_pos heof⟩
        rw [List.length_nil] at hlen
        omega

end

/-- In every run in which a read fails only as the first thing its call does, the entries of the
pages, with those that remain, are the entries of the directory in order; a page stays within
its limits; and when the end was reported all of them have been delivered. -/
theorem directory_pages_complete (uri : Text → Text → Text) (marshal : DirectoryEntry → Text)
    {s : DirectoryStream} {tr : List (Label × Option DirectoryStream)} (hp : s.pending = none)
    (hs : s.closed = false) (hr : (pages uri marshal).Run (some s) tr)
    (hg : Guarded (fun _ s l => failsFirst s l.1.2) [] (some s) tr) :
    delivered (labels tr) ++ remaining uri (last (some s) tr) = s.file.map (s.entry uri) ∧
      ∀ l ∈ labels tr, ∀ page, l.2 = .ok page → (pageJSON marshal page).length ≤ maxPageBytes ∧
        (page.entries.length : Int) ≤ l.1.1 ∧
        (page.eof = true → delivered (labels tr) = s.file.map (s.entry uri)) := by
  have hinv := hr.invariant (h := []) (C := fun _ s l => failsFirst s l.1.2)
    (I := fun h v => (∀ stream, v = some stream → stream.closed = false) ∧
      delivered h ++ remaining uri v = s.file.map (s.entry uri) ∧
      ∀ l ∈ h, ∀ page, l.2 = .ok page → (pageJSON marshal page).length ≤ maxPageBytes ∧
        (page.entries.length : Int) ≤ l.1.1 ∧ (page.eof = true → v = none))
    (fun h v l t hI hfirst hstep => ?_) ⟨by simp [hs],
      by simp [delivered, remaining, DirectoryStream.left, hp], by simp⟩ hg
  · obtain ⟨-, htotal, hpages⟩ := hinv
    refine ⟨htotal, fun l hl page hp => ?_⟩
    obtain ⟨hbytes, hlen, hend⟩ := hpages l hl page hp
    refine ⟨hbytes, hlen, fun heof => ?_⟩
    rwa [hend heof, remaining, Option.elim_none, List.append_nil] at htotal
  · obtain ⟨hopen, htotal, hpages⟩ := hI
    obtain ⟨hopen', hleft, hpage⟩ := readDirNext_spec hopen hfirst (Option.some.inj hstep)
    refine ⟨hopen', ?_, fun l' hl page hp => ?_⟩
    · rw [← htotal, hleft, delivered, List.flatMap_append, List.flatMap_singleton,
        List.append_assoc, delivered]
    · rcases List.mem_append.mp hl with hl | hl
      · obtain ⟨hbytes, hlen, hend⟩ := hpages l' hl page hp
        refine ⟨hbytes, hlen, fun heof => ?_⟩
        -- a closed handle stays closed
        obtain rfl := hend heof
        exact (congrArg Prod.snd (Option.some.inj hstep)).symm
      · cases List.mem_singleton.mp hl
        exact hpage page hp

/-- A directory with a file and a directory in it. -/
def sampleStream : DirectoryStream :=
  { file := [⟨ascii "a", .file⟩, ⟨ascii "b", .directory⟩], mountID := ascii "m", path := ascii "." }

def sampleRun (fault : Fault) : List (Label × Option DirectoryStream) :=
  trace (perform (fun _ path => path) fun e => e.name) (some sampleStream) [(10, fault), (10, none)]

/-- The first read fails and is repeated. -/
theorem directory_pages_complete_repeated :
    (labels (sampleRun (some (0, "i/o")))).map Prod.snd = [.error (.read "i/o"),
        .ok ⟨[⟨ascii "a", ascii "a", .file⟩, ⟨ascii "b", ascii "b", .directory⟩], true⟩] ∧
      ∀ l ∈ labels (sampleRun (some (0, "i/o"))), ∀ page, l.2 = .ok page →
        (pageJSON (fun e => e.name) page).length ≤ maxPageBytes :=
  ⟨by decide, fun l hl page hp => ((directory_pages_complete (s := sampleStream) _ _ rfl rfl
    (System.run_trace _ _ _ _) (by decide)).2 l hl page hp).1⟩

/-- The second read fails: the first entry is lost, and the repeated call reports the end. -/
theorem failed_read_loses_entry :
    (labels (sampleRun (some (1, "i/o")))).map Prod.snd =
        [.error (.read "i/o"), .ok ⟨[⟨ascii "b", ascii "b", .directory⟩], true⟩] ∧
      delivered (labels (sampleRun (some (1, "i/o")))) ≠
        sampleStream.file.map (sampleStream.entry fun _ path => path) := by
  decide

end RedevPlugin.Directories

import Mathlib.Data.UInt
import RedevPlugin.Foundation.Bytes
import RedevPlugin.Foundation.Table
import RedevPlugin.Lease.Signature

/-! The identity of a package. Its hash covers the JSON list of its entries, with the path,
size, digest and content type of each file. The type of a file that is neither JSON nor a
known image comes from the MIME table of the host. So the hash always tells the files, and
two hosts agree on it exactly when their tables agree on these files. -/

namespace RedevPlugin.Package

open Bytes (utf8 utf8_injective)
open Json (present present_inj decimal_injective)
open Lease (goFormat)
open Wire (Forms bind_eq_ok goEscape_forms omitEmpty)
open Function (Injective)
open Finmap (mem_sortedKeys mem_iff mem_keys)

/-- Path and contents; the paths are valid UTF-8. -/
abbrev Files : Type := Table String (List UInt8)

structure Entry where
  path : String
  size : ℕ
  sha256 : String
  mode : String
  contentType : String

def Entry.fields (e : Entry) : List (String × Option (Json String ℤ)) :=
  [("path", some (.string e.path)), ("size", some (.number e.size)),
    ("sha256", some (.string e.sha256)), ("mode", some (.string e.mode)),
    ("content_type", (omitEmpty e.contentType).map .string)]

def Entry.json (e : Entry) : Json String ℤ := .object (present e.fields)

/-- `path.Ext`: from the last dot of the last element on. -/
def ext (path : String) : String :=
  let base := path.toList.reverse.takeWhile (· ≠ '/')
  if '.' ∈ base then String.ofList ('.' :: (base.takeWhile (· ≠ '.')).reverse) else ""

/-- `mime.TypeByExtension` of a host; empty for extensions that it does not know. -/
structure Host where
  typeByExtension : String → String

structure ValidationError where
  (code reason path pointer : String)

/-- The checks of a package, which read the files only. -/
structure Checks where
  decodeCanonical : List UInt8 → Except ValidationError (List UInt8)
  /-- The artifact boundary, the artifacts and the assets that the manifest names. -/
  validateFiles : Files → Except ValidationError Unit
  validateEntryPath : String → Except ValidationError Unit

section Reading

-- The SHA-256 of bytes in hexadecimal, and `http.DetectContentType`.
variable (sum : List UInt8 → String) (detect : List UInt8 → String)

def sha256String (content : List UInt8) : String := "sha256:" ++ sum content

def isJSON (path : String) : Bool := path = "manifest.json" ∨ ".json".toList <:+ path.toList

def isRaster (type : String) : Bool := type ∈ ["image/png", "image/jpeg", "image/gif", "image/webp"]

def contentType (host : Host) (path : String) (content : List UInt8) : String :=
  if isJSON path then "application/json"
  else if isRaster (detect content) then detect content
  else if ext path ≠ "" ∧ host.typeByExtension (ext path) ≠ "" then host.typeByExtension (ext path)
  else "application/octet-stream"

def makeEntry (checks : Checks) (host : Host) (path : String) (content : List UInt8) :
    Except ValidationError Entry := do
  checks.validateEntryPath path
  return ⟨path, content.length, sha256String sum content, "0644",
    contentType detect host path content⟩

/-- `json.Marshal`, in bytes. -/
def marshal (v : Json String ℤ) : List UInt8 := utf8 (String.ofList (goFormat.write v))

def canonicalHashes (entries : List Entry) (manifestHash : String) : String × String :=
  let list : Json String ℤ := .array (entries.map Entry.json)
  let entriesHash := sha256String sum (marshal list)
  (entriesHash, sha256String sum (marshal (.object [("manifest_sha256", .string manifestHash),
    ("entries_sha256", .string entriesHash), ("entries", list)])))

structure Metadata where
  packageHash : String
  manifestHash : String
  canonicalManifest : List UInt8
  entries : List Entry
  entriesHash : String

/-- The entries are made in any order and sorted by their paths, as bytes or as characters. -/
def packageMetadataFromFiles (checks : Checks) (host : Host) (files : Files) :
    Except ValidationError Metadata :=
  match files.lookup "manifest.json" with
  | none => .error ⟨"PLUGIN_MANIFEST_INVALID", "manifest_missing", "manifest.json", ""⟩
  | some manifestBytes => do
    let canonical ← checks.decodeCanonical manifestBytes
    checks.validateFiles files
    let entries ← files.sortedKeys.mapM fun path =>
      makeEntry sum detect checks host path ((files.lookup path).getD [])
    let manifestHash := sha256String sum canonical
    let hashes := canonicalHashes sum entries manifestHash
    return ⟨hashes.2, manifestHash, canonical, entries, hashes.1⟩

/-- The type that the table gives for a file whose type is not told by the file. -/
def Host.fallback (host : Host) (path : String) : String :=
  if host.typeByExtension (ext path) = "" then "application/octet-stream"
  else host.typeByExtension (ext path)

/-- The hosts agree on the files whose type comes from the table. -/
def SameTypes (a b : Host) (files : Files) : Prop :=
  ∀ path content, files.lookup path = some content → isJSON path = false →
    isRaster (detect content) = false → ext path ≠ "" → a.fallback path = b.fallback path

variable {sum detect} {checks : Checks} {a b : Host} {f g : Files} {p q : Metadata}

theorem contentType_eq_iff {path content} :
    contentType detect a path content = contentType detect b path content ↔
      (isJSON path = false → isRaster (detect content) = false → ext path ≠ "" →
        a.fallback path = b.fallback path) := by
  unfold contentType Host.fallback
  cases isJSON path with
  | true => simp
  | false =>
    cases isRaster (detect content) with
    | true => simp
    | false =>
      by_cases hext : ext path = ""
      · simp [hext]
      · by_cases ha : a.typeByExtension (ext path) = "" <;>
          by_cases hb : b.typeByExtension (ext path) = "" <;> simp [hext, ha, hb]

theorem marshal_injective : Injective marshal := fun _ _ h =>
  goFormat.write_injective (Forms.injective (goEscape_forms true)) decimal_injective
    (String.ofList_injective (utf8_injective h))

theorem sha256String_injective (hsum : Injective sum) :
    Injective (sha256String sum) := fun _ _ h => hsum (String.append_right_inj _ |>.mp h)

theorem Entry.json_injective : Injective Entry.json := by
  intro x y h
  have hk : x.fields.map Prod.fst = y.fields.map Prod.fst := rfl
  have hdi : (x.fields.map Prod.fst).Nodup := by
    change ["path", "size", "sha256", "mode", "content_type"].Nodup
    decide
  have hfi := present_inj hk hdi (Json.object.inj h)
  have hom : ∀ s t : String, (omitEmpty s).map (Json.string (N := ℤ)) =
      (omitEmpty t).map .string ↔ s = t := by
    intro s t
    by_cases hs : s = "" <;> by_cases ht : t = "" <;> simp [omitEmpty, hs, ht, eq_comm]
  obtain ⟨⟩ := x
  obtain ⟨⟩ := y
  simpa [Entry.fields, hom, Int.natCast_inj] using hfi

theorem canonicalHashes_inj (hsum : Injective sum) {xs ys m n}
    (h : (canonicalHashes sum xs m).2 = (canonicalHashes sum ys n).2) : xs = ys := by
  have hj := marshal_injective (sha256String_injective hsum h)
  simp only [Json.object.injEq, List.cons.injEq, Prod.mk.injEq, Json.array.injEq, true_and] at hj
  exact List.map_injective_iff.mpr Entry.json_injective hj.2.2.1

def entryOf (sum detect : List UInt8 → String) (host : Host) (files : Files) (path : String) :
    Entry :=
  let content := (files.lookup path).getD []
  ⟨path, content.length, sha256String sum content, "0644", contentType detect host path content⟩

theorem mapM_makeEntry {paths : List String} {entries : List Entry} (h : (paths.mapM fun path =>
      makeEntry sum detect checks a path ((f.lookup path).getD [])) = .ok entries) :
    entries = paths.map (entryOf sum detect a f) := by
  induction paths generalizing entries with
  | nil =>
    cases h
    rfl
  | cons path paths ih =>
    rw [List.mapM_cons] at h
    obtain ⟨entry, hen, h⟩ := bind_eq_ok.mp h
    obtain ⟨rest, hre, h⟩ := bind_eq_ok.mp h
    obtain ⟨-, -, hen⟩ := bind_eq_ok.mp hen
    cases h
    cases hen
    rw [ih hre]
    rfl

theorem packageMetadataFromFiles_ok (h : packageMetadataFromFiles sum detect checks a f = .ok p) :
    ∃ canonical, (f.lookup "manifest.json").map checks.decodeCanonical = some (.ok canonical) ∧
      p.packageHash = (canonicalHashes sum (f.sortedKeys.map (entryOf sum detect a f))
        (sha256String sum canonical)).2 := by
  unfold packageMetadataFromFiles at h
  split at h
  · cases h
  rename_i hma
  obtain ⟨canonical, hde, h⟩ := bind_eq_ok.mp h
  obtain ⟨-, -, h⟩ := bind_eq_ok.mp h
  obtain ⟨entries, hen, h⟩ := bind_eq_ok.mp h
  cases h
  exact ⟨_, by rw [hma, Option.map_some, hde], by rw [mapM_makeEntry hen]⟩

theorem packageHash_eq_iff (hsum : Injective sum)
    (hp : packageMetadataFromFiles sum detect checks a f = .ok p)
    (hq : packageMetadataFromFiles sum detect checks b g = .ok q) :
    p.packageHash = q.packageHash ↔ f = g ∧ SameTypes detect a b f := by
  obtain ⟨m, hm, hp⟩ := packageMetadataFromFiles_ok hp
  obtain ⟨n, hn, hq⟩ := packageMetadataFromFiles_ok hq
  rw [hp, hq]
  constructor
  · intro h
    have hen := canonicalHashes_inj hsum h
    have hpa : f.sortedKeys = g.sortedKeys := by
      simpa [Function.comp_def, entryOf] using congrArg (List.map Entry.path) hen
    have hk : f.keys = g.keys := by
      ext path
      rw [← mem_sortedKeys, hpa, mem_sortedKeys]
    have hent : ∀ path ∈ f.keys, entryOf sum detect a f path = entryOf sum detect b g path := by
      intro path hpat
      rw [← hpa] at hen
      exact List.map_inj_left.mp hen path (mem_sortedKeys.mpr hpat)
    have hfi : f = g := by
      refine Finmap.ext_lookup fun path => ?_
      by_cases hpat : path ∈ f.keys
      · have hsha := sha256String_injective hsum (congrArg Entry.sha256 (hent path hpat))
        obtain ⟨x, hx⟩ := mem_iff.mp (mem_keys.mp hpat)
        obtain ⟨y, hy⟩ := mem_iff.mp (mem_keys.mp (hk ▸ hpat))
        rw [hx, hy] at hsha ⊢
        exact congrArg some hsha
      · have hp' := hk ▸ hpat
        rw [mem_keys, ← Finmap.lookup_eq_none] at hpat hp'
        rw [hpat, hp']
    subst hfi
    refine ⟨rfl, fun path content hrow => contentType_eq_iff.mp ?_⟩
    have htyp := congrArg Entry.contentType
      (hent path (mem_keys.mpr (Finmap.mem_of_lookup_eq_some hrow)))
    simpa [entryOf, hrow] using htyp
  · rintro ⟨rfl, hty⟩
    cases hm.symm.trans hn
    congr 2
    refine List.map_inj_left.mpr fun path hpat => ?_
    obtain ⟨x, hx⟩ := mem_iff.mp (mem_keys.mp (mem_sortedKeys.mp hpat))
    simp [entryOf, hx, contentType_eq_iff.mpr (hty path x hx)]

/-- The hashes of two packages, each read on its own host, are equal exactly for equal files if
and only if the tables of the hosts agree on the files whose type they give. -/
theorem packageHash_identifies (hsum : Injective sum)
    (hp : packageMetadataFromFiles sum detect checks a f = .ok p)
    (hq : packageMetadataFromFiles sum detect checks b g = .ok q) :
    (p.packageHash = q.packageHash ↔ f = g) ↔ (f = g → SameTypes detect a b f) := by
  rw [packageHash_eq_iff hsum hp hq]
  exact ⟨fun h he => (h.mpr he).2, fun h => ⟨And.left, fun he => ⟨he, h he⟩⟩⟩

end Reading

/-! A manifest and an empty file, on hosts that know its extension or not. -/

def sampleSum (bytes : List UInt8) : String := String.ofList (bytes.map UInt8.toChar)

theorem sampleSum_injective : Injective sampleSum := by
  have hch : Injective UInt8.toChar := fun _ _ h =>
    UInt8.toUInt32_inj.mp (congrArg Char.val h)
  exact fun _ _ h => List.map_injective_iff.mpr hch (String.ofList_injective h)

/-- A manifest in its canonical form. -/
def sampleManifest : List UInt8 :=
  marshal (.object [("api", .object [("major", .number 1)]), ("methods", .array []),
    ("permissions", .array []), ("plugin", .object [("display_name", .string "Notes"),
      ("plugin_id", .string "notes"), ("version", .string "1.0.0")]),
    ("presentation", .object [("locales", .object [("default", .string "en-US")])]),
    ("publisher", .object [("publisher_id", .string "example")]),
    ("schema_version", .string "redevplugin.manifest.v9"), ("surfaces", .array []),
    ("workers", .array [])])

def sampleChecks : Checks where
  decodeCanonical bytes :=
    if bytes = sampleManifest then .ok bytes
    else .error ⟨"PLUGIN_MANIFEST_INVALID", "manifest_decode", "manifest.json", ""⟩
  validateFiles _ := .ok ()
  validateEntryPath _ := .ok ()

def sampleFiles : Files :=
  (∅ : Files).insert "manifest.json" sampleManifest |>.insert "notes.foo" []

def sampleHost (type : String) : Host := ⟨fun e => if e = ".foo" then type else ""⟩

def sampleDetect (_ : List UInt8) : String := "text/plain; charset=utf-8"

def sampleMetadata (type : String) : Except ValidationError Metadata :=
  packageMetadataFromFiles sampleSum sampleDetect sampleChecks (sampleHost type) sampleFiles

theorem sampleMetadata_ok (type : String) : ∃ p, sampleMetadata type = .ok p := by
  have hma : sampleFiles.lookup "manifest.json" = some sampleManifest := by simp [sampleFiles]
  have hde : sampleChecks.decodeCanonical sampleManifest = .ok sampleManifest := by
    simp [sampleChecks]
  have hen : ∀ path, makeEntry sampleSum sampleDetect sampleChecks (sampleHost type) path
      ((sampleFiles.lookup path).getD []) =
        pure (entryOf sampleSum sampleDetect (sampleHost type) sampleFiles path) := fun _ => rfl
  simp only [sampleMetadata, packageMetadataFromFiles, hma, hde, hen, List.mapM_pure]
  exact ⟨_, rfl⟩

theorem packageHash_identifies_notes : ∃ p q, sampleMetadata "" = .ok p ∧
    sampleMetadata "text/foo" = .ok q ∧
    ((p.packageHash = q.packageHash ↔ sampleFiles = sampleFiles) ↔ (sampleFiles = sampleFiles →
      SameTypes sampleDetect (sampleHost "") (sampleHost "text/foo") sampleFiles)) := by
  obtain ⟨p, hp⟩ := sampleMetadata_ok ""
  obtain ⟨q, hq⟩ := sampleMetadata_ok "text/foo"
  exact ⟨p, q, hp, hq, packageHash_identifies sampleSum_injective hp hq⟩

/-- One archive gets two hashes. -/
theorem packageHash_of_notes_differs : ∃ p q, sampleMetadata "" = .ok p ∧
    sampleMetadata "text/foo" = .ok q ∧ p.packageHash ≠ q.packageHash := by
  obtain ⟨p, hp⟩ := sampleMetadata_ok ""
  obtain ⟨q, hq⟩ := sampleMetadata_ok "text/foo"
  refine ⟨p, q, hp, hq, fun h => ?_⟩
  have htypes := ((packageHash_eq_iff sampleSum_injective hp hq).mp h).2 "notes.foo" []
    (by decide) (by decide) (by decide) (by decide)
  exact absurd htypes (by decide)

end RedevPlugin.Package

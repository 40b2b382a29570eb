import RedevPlugin.Foundation.Bytes
import RedevPlugin.Foundation.Table

/-! Release tags of a repository index. A plugin is released under tags that its
template renders: a key, `-v` and a stable version. A key may have hyphens, so one key
may begin another, but a stable version has none: the last hyphen of a tag ends its
key. An index is accepted only if different plugins have different templates. -/

namespace RedevPlugin.ReleaseTags

open Bytes (utf8)

/-- A string of the source, any bytes. -/
abbrev Text := List UInt8

def isLower (c : UInt8) : Bool := 97 ≤ c && c ≤ 122

def isDigit (c : UInt8) : Bool := 48 ≤ c && c ≤ 57

/-- `[A-Za-z0-9]` -/
def isAlphanumeric (c : UInt8) : Bool := isLower c || isDigit c || (65 ≤ c && c ≤ 90)

/-- `[A-Za-z0-9._+@-]` -/
def isName (c : UInt8) : Bool := isAlphanumeric c || c ∈ utf8 "._+@-"

/-- `[A-Za-z0-9._-]` -/
def isIdentifier (c : UInt8) : Bool := isAlphanumeric c || c ∈ utf8 "._-"

/-- `^[A-Za-z0-9][A-Za-z0-9._-]{0,254}$` -/
def identifierPattern (t : Text) : Bool :=
  t.head?.any isAlphanumeric && t.all isIdentifier && t.length ≤ 255

/-- `^[A-Za-z0-9_][A-Za-z0-9._-]*$` -/
def pathPartPattern (t : Text) : Bool :=
  (t.head?.any fun c => isAlphanumeric c || c ∈ utf8 "_") && t.all isIdentifier

/-- `^[a-z0-9]+(?:-[a-z0-9]+)*$` -/
def slugPattern (t : Text) : Bool :=
  (t.splitOn 45).all (!·.isEmpty) && t.all fun c => isLower c || isDigit c || c = 45

def marker : Text := utf8 "\x7bversion\x7d"

/-- `^[a-z0-9]+(?:-[a-z0-9]+)*-v\{version\}$` -/
def tagPattern (t : Text) : Bool :=
  (utf8 "-v" ++ marker).isSuffixOf t && slugPattern (t.take (t.length - 11))

/-- `^[A-Za-z0-9._+@-]*\{version\}[A-Za-z0-9._+@-]*$` -/
def templatePattern (t : Text) : Bool :=
  marker.isPrefixOf (t.dropWhile isName) && ((t.dropWhile isName).drop 9).all isName

/-- `^[A-Za-z0-9._+@-]+(?:\{version\}[A-Za-z0-9._+@-]*)?$` -/
def assetPattern (t : Text) : Bool :=
  !(t.takeWhile isName).isEmpty && ((t.dropWhile isName).isEmpty || templatePattern t)

/-- `strings.Split` at a separator with a first byte. `skip` bytes still belong to the
separator. -/
def split (sep : Text) : ℕ → Text → List Text
  | _, [] => [[]]
  | skip + 1, _ :: t => split sep skip t
  | 0, c :: t =>
    if sep.isPrefixOf (c :: t) then [] :: split sep (sep.length - 1) t
    else (split sep 0 t).modifyHead (c :: ·)

def replaceAll (t old new : Text) : Text := new.intercalate (split old 0 t)

/-! ### Templates -/

inductive TagError where
  | templateInvalid
  | versionInvalid
  | nameTooLong
  | tagInvalid
  | tagMismatch
  | tagUnstable
  | indexOutOfRange
  deriving DecidableEq

/-- `0|[1-9][0-9]*` -/
def numeric (t : Text) : Bool := t = utf8 "0" || (t.head?.any (· ≠ 48) && t.all isDigit)

/-- Without `+` and `-` the pattern of `version.ParseSemVer` has only its three numbers, and its
other checks hold of them. -/
def versionpkgParseStable (v : Text) : Bool :=
  !(v.any fun c => c ∈ utf8 "+-") && (v.splitOn 46).length = 3 && (v.splitOn 46).all numeric

def render (template version : Text) : Except TagError Text :=
  if template.length > 255 || !assetPattern template then .error .templateInvalid
  else if !versionpkgParseStable version then .error .versionInvalid
  else
    let result := replaceAll template marker version
    if result.length > 255 then .error .nameTooLong else .ok result

def versionFromTag (template tag : Text) : Except TagError Text :=
  if template.length > 255 || !tagPattern template || tag.length > 255 then .error .tagInvalid
  else match split marker 0 template with
    | front :: back :: _ =>
      if !front.isPrefixOf tag || !back.isSuffixOf tag ||
          tag.length < front.length + back.length then
        .error .tagMismatch
      else
        let value := (tag.take (tag.length - back.length)).drop front.length
        if !versionpkgParseStable value then .error .tagUnstable else .ok value
    | _ => .error .indexOutOfRange

/-! ### The index -/

structure Release where
  tagTemplate : Text
  packageAssetTemplate : Text
  deriving DecidableEq

structure Plugin where
  (slug pluginID path manifest : Text)
  release : Option Release

structure Target where
  ecosystem : Text
  host : Text
  plugins : List Plugin

structure Index where
  repositoryID : ℤ
  schemaVersion : Text
  targets : List Target

inductive ReleaseError where
  | tagTemplate
  | packageAsset
  /-- The order of a map decides which of two templates the error names. -/
  | templateInvalid
  deriving DecidableEq

/-- A position is that of a target and of a plugin in it. -/
inductive IndexError where
  | schemaVersion
  | targetCount
  | ecosystemOrHost (target : ℕ)
  | targetDuplicate (target : ℕ)
  | pluginCount (target : ℕ)
  | tooManyPlugins
  | slug (target plugin : ℕ)
  | pluginIDDeclared
  | identityMismatch
  | slugDuplicate (target : ℕ) (slug : Text)
  | unsafePath (target plugin : ℕ)
  | releaseRequired (target plugin : ℕ)
  | release (target plugin : ℕ) (error : ReleaseError)
  | namespaceShared (previous slug : Text)
  | inconsistent (slug : Text)
  deriving DecidableEq

def validateSlug (slug : Text) : Bool := slug.length ≤ 80 && slugPattern slug

/-- `GitHub` of package `pluginidentity`. -/
def gitHub (repositoryID : ℤ) (slug : Text) : Option Text :=
  if repositoryID ≤ 0 ∨ repositoryID > 9007199254740991 ∨ !validateSlug slug then none
  else some (utf8 "github.repo." ++ utf8 repositoryID.repr ++ utf8 "." ++ slug)

def safeRelativePath (value : Text) : Bool :=
  value.length ≤ 512 && (value = utf8 "." ||
    !(value.isEmpty || value.head? = some 47 || value.any (· ∈ utf8 "\\:") ||
      (utf8 "./").isPrefixOf value || value.tails.any (utf8 "//").isPrefixOf) &&
    (value.splitOn 47).all fun part =>
      !part.isEmpty && part ≠ utf8 "." && part ≠ utf8 ".." && pathPartPattern part)

def validateRelease (value : Release) : Except ReleaseError Unit :=
  if !tagPattern value.tagTemplate then .error .tagTemplate
  else if !(utf8 ".redevplugin").isSuffixOf value.packageAssetTemplate then .error .packageAsset
  else if value.tagTemplate.length > 255 || !templatePattern value.tagTemplate ||
      value.packageAssetTemplate.length > 255 || !assetPattern value.packageAssetTemplate then
    .error .templateInvalid
  else .ok ()

/-- What the loops of `Validate` have seen. -/
structure Seen where
  targets : Finset Text := ∅
  plugins : ℕ := 0
  byID : Table Text Plugin := ∅
  byTag : Table Text Text := ∅

/-- The body of the loop over the plugins of a target, with the slugs of the target so far. -/
def validatePlugin (repositoryID : ℤ) (target position : ℕ) (seenIDs : Finset Text) (seen : Seen)
    (plugin : Plugin) : Except IndexError Seen :=
  if seen.plugins + 1 > 256 then .error .tooManyPlugins
  else if !validateSlug plugin.slug then .error (.slug target position)
  else if repositoryID = 0 ∧ plugin.pluginID ≠ [] then .error .pluginIDDeclared
  else if repositoryID ≠ 0 ∧ gitHub repositoryID plugin.slug ≠ some plugin.pluginID then
    .error .identityMismatch
  else if plugin.slug ∈ seenIDs then .error (.slugDuplicate target plugin.slug)
  else if !safeRelativePath plugin.path || plugin.manifest = utf8 "." ||
      !safeRelativePath plugin.manifest then .error (.unsafePath target position)
  else match plugin.release with
    | none => .error (.releaseRequired target position)
    | some release =>
      match validateRelease release with
      | .error e => .error (.release target position e)
      | .ok () =>
        let previous := seen.byTag.lookup release.tagTemplate
        if previous.any (· ≠ plugin.slug) then
          .error (.namespaceShared (previous.getD []) plugin.slug)
        else if (seen.byID.lookup plugin.slug).any fun previous => previous.path ≠ plugin.path ||
            previous.manifest ≠ plugin.manifest || previous.release ≠ plugin.release then
          .error (.inconsistent plugin.slug)
        else .ok { seen with
          plugins := seen.plugins + 1, byTag := seen.byTag.insert release.tagTemplate plugin.slug
          byID := seen.byID.insert plugin.slug plugin }

def validatePlugins (repositoryID : ℤ) (target : ℕ) :
    ℕ → Finset Text → Seen → List Plugin → Except IndexError Seen
  | _, _, seen, [] => .ok seen
  | position, seenIDs, seen, plugin :: plugins =>
    match validatePlugin repositoryID target position seenIDs seen plugin with
    | .error e => .error e
    | .ok seen =>
      validatePlugins repositoryID target (position + 1) (insert plugin.slug seenIDs) seen plugins

def validateTargets (repositoryID : ℤ) : ℕ → Seen → List Target → Except IndexError Seen
  | _, seen, [] => .ok seen
  | position, seen, target :: targets =>
    let targetKey := target.ecosystem ++ [0] ++ target.host
    if target.ecosystem ≠ utf8 "redevplugin" || !identifierPattern target.host then
      .error (.ecosystemOrHost position)
    else if targetKey ∈ seen.targets then .error (.targetDuplicate position)
    else if target.plugins = [] ∨ target.plugins.length > 256 then .error (.pluginCount position)
    else
      match validatePlugins repositoryID position 0 ∅
        { seen with targets := insert targetKey seen.targets } target.plugins with
      | .error e => .error e
      | .ok seen => validateTargets repositoryID (position + 1) seen targets

def validate (value : Index) : Except IndexError Unit :=
  if value.schemaVersion ≠ utf8 "redevplugin.repository-index.v1" then .error .schemaVersion
  else if value.targets = [] ∨ value.targets.length > 32 then .error .targetCount
  else (validateTargets value.repositoryID 0 {} value.targets).map fun _ => ()

def Index.plugins (value : Index) : List Plugin := value.targets.flatMap Target.plugins

/-! ### Tags -/

variable {t key front tag version : Text}

/-- A template is a key, `-v` and the marker. -/
theorem tagPattern_eq (h : tagPattern t = true) :
    ∃ key, t = key ++ [45, 118] ++ marker ∧ ∀ c ∈ key ++ [45, 118], isName c = true := by
  rw [tagPattern, Bool.and_eq_true, List.isSuffixOf_iff_suffix] at h
  obtain ⟨⟨key, rfl⟩, hslug⟩ := h
  rw [List.length_append, show (utf8 "-v" ++ marker).length = 11 from by decide,
    Nat.add_sub_cancel, List.take_left' rfl, slugPattern, Bool.and_eq_true] at hslug
  refine ⟨key, by rw [List.append_assoc]; rfl, fun c hc => ?_⟩
  rcases List.mem_append.mp hc with hc | hc
  · have hclass := List.all_eq_true.mp hslug.2 c hc
    simp only [Bool.or_eq_true, decide_eq_true_eq] at hclass
    rcases hclass with hclass | rfl
    · simp [isName, isAlphanumeric, hclass]
    · decide
  · rcases List.mem_pair.mp hc with rfl | rfl <;> decide

theorem split_marker (h : ∀ c ∈ t, isName c = true) : split marker 0 (t ++ marker) = [t, []] := by
  induction t with
  | nil => decide
  | cons c t ih =>
    rw [List.forall_mem_cons] at h
    have hne : (123 == c) = false := by
      rw [beq_eq_false_iff_ne]
      rintro rfl
      exact absurd h.1 (by decide)
    have hno : marker.isPrefixOf (c :: (t ++ marker)) = false :=
      Bool.and_eq_false_iff.mpr (.inl hne)
    simp [split, hno, ih h.2]

theorem assetPattern_marker (h : ∀ c ∈ t, isName c = true) (hne : t ≠ []) :
    assetPattern (t ++ marker) = true := by
  have htake : (t ++ marker).takeWhile isName = t := by
    rw [List.takeWhile_append_of_pos h]
    exact List.append_nil t
  have hdrop : (t ++ marker).dropWhile isName = marker := List.dropWhile_append_of_pos h
  simp [assetPattern, templatePattern, htake, hdrop, hne, show marker.drop 9 = [] from by decide]

/-- The name of a version under a key. -/
def Names (key version tag : Text) : Prop :=
  versionpkgParseStable version = true ∧ tag = key ++ [45, 118] ++ version ∧ tag.length ≤ 255

theorem versionFromTag_eq_ok_iff (hname : ∀ c ∈ front, isName c = true)
    (hlen : (front ++ marker).length ≤ 255) (h : tagPattern (front ++ marker) = true) :
    versionFromTag (front ++ marker) tag = .ok version ↔
      versionpkgParseStable version = true ∧ tag = front ++ version ∧ tag.length ≤ 255 := by
  simp only [versionFromTag, split_marker hname, h, List.length_nil, Nat.sub_zero, List.take_length]
  constructor
  · intro hok
    split_ifs at hok with hlong hmatch hstable
    cases hok
    simp only [Bool.or_eq_true, Bool.not_eq_true', not_or, Bool.not_eq_false,
      List.isPrefixOf_iff_prefix] at hmatch hstable
    obtain ⟨rest, rfl⟩ := hmatch.1.1
    simp_all
  · rintro ⟨hstable, rfl, hle⟩
    have hfront := List.isPrefixOf_iff_prefix.mpr (List.prefix_append front version)
    grind

theorem validateRelease_ok {release} (h : validateRelease release = .ok ()) :
    ∃ key, release.tagTemplate = key ++ [45, 118] ++ marker ∧ ∀ version,
      replaceAll release.tagTemplate marker version = key ++ [45, 118] ++ version ∧ ∀ tag,
        (versionFromTag release.tagTemplate tag = .ok version ↔ Names key version tag) ∧
          (render release.tagTemplate version = .ok tag ↔ Names key version tag) := by
  revert h
  fun_cases validateRelease release <;> rintro ⟨⟩
  rename_i htag _ hbounds
  simp only [Bool.not_eq_true', Bool.not_eq_false, Bool.or_eq_true, not_or, decide_eq_true_eq,
    Nat.not_lt] at htag hbounds
  obtain ⟨key, heq, hname⟩ := tagPattern_eq htag
  have hlen := hbounds.1.1.1
  rw [heq] at htag hlen ⊢
  refine ⟨key, rfl, fun version => ?_⟩
  have hall : replaceAll (key ++ [45, 118] ++ marker) marker version =
    key ++ [45, 118] ++ version := by
    rw [replaceAll, split_marker hname]
    simp
  refine ⟨hall, fun tag => ⟨versionFromTag_eq_ok_iff hname hlen htag, ?_⟩⟩
  simp only [render, hall, assetPattern_marker hname (by simp), Names]
  grind

/-- A stable version has no hyphen, so the last one of a tag ends its key. -/
theorem Names.key_eq {key' version'} (h : Names key version tag) (h' : Names key' version' tag) :
    key = key' := by
  have hlast : ∀ {key version}, Names key version tag →
      tag.reverse.dropWhile (· ≠ 45) = 45 :: key.reverse := by
    rintro key version ⟨hstable, rfl, -⟩
    simp only [versionpkgParseStable, Bool.and_eq_true, Bool.not_eq_true', List.any_eq_false]
      at hstable
    have hno : ∀ c ∈ version.reverse, decide (c ≠ 45) = true := by
      intro c hc
      rw [decide_eq_true_iff]
      rintro rfl
      exact hstable.1.1 45 (List.mem_reverse.mp hc) (by decide)
    rw [List.reverse_append, List.dropWhile_append_of_pos hno]
    simp
  simpa using (hlast h).symm.trans (hlast h')

/-! ### Accepted indexes -/

variable {seen seen' : Seen} {repositoryID : ℤ} {target position : ℕ} {seenIDs : Finset Text}

/-- What the loops know of a plugin they have accepted. -/
def Accepted (seen : Seen) (plugin : Plugin) : Prop :=
  ∃ release, plugin.release = some release ∧ validateRelease release = .ok () ∧
    seen.byTag.lookup release.tagTemplate = some plugin.slug

/-- A template stays with the plugin it was seen with. -/
def Extends (seen seen' : Seen) : Prop :=
  ∀ {template slug}, seen.byTag.lookup template = some slug →
    seen'.byTag.lookup template = some slug

theorem Accepted.extends {plugin} (h : Accepted seen plugin) (he : Extends seen seen') :
    Accepted seen' plugin :=
  let ⟨release, hr, hok, htag⟩ := h
  ⟨release, hr, hok, he htag⟩

theorem validatePlugin_ok {plugin}
    (h : validatePlugin repositoryID target position seenIDs seen plugin = .ok seen') :
    Extends seen seen' ∧ Accepted seen' plugin := by
  revert h
  fun_cases validatePlugin repositoryID target position seenIDs seen plugin <;> rintro ⟨⟩
  rename_i release hr hok previous hshared _
  refine ⟨fun {template slug} htag => ?_, release, hr, hok, Finmap.lookup_insert _⟩
  simp only [Finmap.lookup_insert_ite]
  split_ifs with heq
  · subst heq
    have hslug : slug = plugin.slug := by simpa [previous, htag] using hshared
    rw [hslug]
  · exact htag

theorem validatePlugins_ok {plugins}
    (h : validatePlugins repositoryID target position seenIDs seen plugins = .ok seen') :
    Extends seen seen' ∧ ∀ plugin ∈ plugins, Accepted seen' plugin := by
  revert h
  fun_induction validatePlugins repositoryID target position seenIDs seen plugins <;> try rintro ⟨⟩
  · exact ⟨fun h => h, by simp⟩
  · rename_i hplugin ih
    intro h
    obtain ⟨hfirst, hac⟩ := validatePlugin_ok hplugin
    obtain ⟨hrest, hall⟩ := ih h
    exact ⟨fun h => hrest (hfirst h), List.forall_mem_cons.mpr ⟨hac.extends hrest, hall⟩⟩

theorem validateTargets_ok {targets}
    (h : validateTargets repositoryID position seen targets = .ok seen') :
    Extends seen seen' ∧ ∀ plugin ∈ targets.flatMap Target.plugins, Accepted seen' plugin := by
  revert h
  fun_induction validateTargets repositoryID position seen targets <;> try rintro ⟨⟩
  · exact ⟨fun h => h, by simp⟩
  · rename_i hplugins ih
    intro h
    obtain ⟨hfirst, hac⟩ := validatePlugins_ok hplugins
    obtain ⟨hrest, hall⟩ := ih h
    refine ⟨fun h => hrest (hfirst h), fun plugin hplugin => ?_⟩
    rw [List.flatMap_cons, List.mem_append] at hplugin
    exact hplugin.elim (fun hp => (hac _ hp).extends hrest) (hall _)

theorem accepted_of_validate {index} (h : validate index = .ok ()) :
    ∃ seen, ∀ plugin ∈ index.plugins, Accepted seen plugin := by
  unfold validate at h
  split_ifs at h
  cases hseen : validateTargets index.repositoryID 0 {} index.targets with rw [hseen] at h
  | error => cases h
  | ok seen => exact ⟨seen, (validateTargets_ok hseen).2⟩

/-- For an accepted index, reading a version from a tag inverts rendering the template of a
plugin, a stable version is rendered if the name is not too long, and no tag is read by the
templates of two plugins. -/
theorem release_tags_attributed {index : Index} (h : validate index = .ok ()) :
    (∀ plugin ∈ index.plugins, ∃ release, plugin.release = some release ∧ ∀ version,
      (∀ tag, versionFromTag release.tagTemplate tag = .ok version ↔
        render release.tagTemplate version = .ok tag) ∧
      (versionpkgParseStable version = true →
        (replaceAll release.tagTemplate marker version).length ≤ 255 →
          ∃ tag, render release.tagTemplate version = .ok tag)) ∧
    ∀ plugin ∈ index.plugins, ∀ other ∈ index.plugins, plugin.slug ≠ other.slug →
      ∀ release ∈ plugin.release, ∀ release' ∈ other.release, ∀ tag version version',
        versionFromTag release.tagTemplate tag = .ok version →
          versionFromTag release'.tagTemplate tag ≠ .ok version' := by
  obtain ⟨seen, hall⟩ := accepted_of_validate h
  refine ⟨fun plugin hplugin => ?_, fun plugin hplugin other hother hne => ?_⟩
  · obtain ⟨release, hr, hok, -⟩ := hall plugin hplugin
    obtain ⟨key, -, hnames⟩ := validateRelease_ok hok
    refine ⟨release, hr, fun version => ⟨fun tag => ?_, fun hstable hfits => ?_⟩⟩
    · rw [((hnames version).2 tag).1, ((hnames version).2 tag).2]
    · rw [(hnames version).1] at hfits
      exact ⟨_, ((hnames version).2 _).2.mpr ⟨hstable, rfl, hfits⟩⟩
  · rintro release hr release' hr' tag version version' hread hread'
    obtain ⟨_, hr₁, hok, hseen⟩ := hall plugin hplugin
    obtain ⟨_, hr₂, hok', hseen'⟩ := hall other hother
    cases hr₁.symm.trans hr
    cases hr₂.symm.trans hr'
    obtain ⟨key, heq, hnames⟩ := validateRelease_ok hok
    obtain ⟨key', heq', hnames'⟩ := validateRelease_ok hok'
    have hkey := (((hnames version).2 tag).1.mp hread).key_eq
      (((hnames' version').2 tag).1.mp hread')
    rw [heq, hkey, ← heq', hseen'] at hseen
    exact hne (Option.some.inj hseen).symm

/-- Two plugins, the key of one with the tags of the other before it. -/
def nestedKeys : Index :=
  let plugin slug template := ⟨utf8 slug, [], utf8 ".", utf8 "manifest.json",
    some ⟨utf8 template, utf8 "a.redevplugin"⟩⟩
  ⟨0, utf8 "redevplugin.repository-index.v1", [⟨utf8 "redevplugin", utf8 "h",
    [plugin "a" "a-v\x7bversion\x7d", plugin "b" "a-v1-v\x7bversion\x7d"]⟩]⟩

theorem release_tags_attributed_nested : validate nestedKeys = .ok () ∧
    versionFromTag (utf8 "a-v1-v\x7bversion\x7d") (utf8 "a-v1-v2.0.0") = .ok (utf8 "2.0.0") ∧
    ∀ version, versionFromTag (utf8 "a-v\x7bversion\x7d") (utf8 "a-v1-v2.0.0") ≠ .ok version :=
  have h : validate nestedKeys = .ok () := by decide
  ⟨h, by decide, fun version => (release_tags_attributed h).2 _ (.tail _ (.head _)) _ (.head _)
    (by decide) _ rfl _ rfl _ (utf8 "2.0.0") version (by decide)⟩

end RedevPlugin.ReleaseTags

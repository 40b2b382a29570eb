import RedevPlugin.PluginData.Streams

/-! The bytes that streams have staged. The entry of a key is what the calls in progress with
that key have reserved, whatever happens to them, and there are no entries without such a
call. A release panics as long as nothing was ever reserved; the key tells apart identifiers
that differ in white space at their ends; and a stream with a maximum of its own has a
smaller budget than two quotas. -/

namespace RedevPlugin.PluginData

open Session (ResourceScope ScopeKind validOwnerHash)
open Text (trim)
open Threads Transition
open Option (some getD_some elim_some elim_none)

/-! ### The budget of a call -/

def Call.stream : Call → Option Stream
  | .readFile st | .readChunks st _ _ _ | .send st | .receive st _ _ | .commit st
  | .release st _ => some st
  | .readOpen _ | .writeOpen _ => none

/-- What a call has reserved under a key. -/
def Call.stagedUnder (key : String) (c : Call) : ℕ :=
  c.stream.elim 0 fun st => if st.budget.key = key then st.budget.bytes else 0

/-- What a stream that goes on at `n` has. -/
def streamOf (n : Option Call) : Option Stream := n.bind Call.stream

theorem elim_stagedUnder (n : Option Call) (key : String) :
    n.elim 0 (Call.stagedUnder key) =
      (streamOf n).elim 0 fun st => if st.budget.key = key then st.budget.bytes else 0 := by
  cases n <;> rfl

/-! ### What a section does -/

inductive Step (s : StreamBytes) (c : Call) :
    Choice → Event → StreamBytes → Option Call → Prop where
  /-- The table is not read. -/
  | moved (o n) (hsame : streamOf n = c.stream) (hnone : c.stream = none → n = none) :
    Step s c o .moved s n
  | opened (n req quota limit) (hnone : c.stream = none)
    (hreq : c = .readOpen req ∨ c = .writeOpen req)
    (hlimit : limit = 2 * quota.bytes ∨ c = .writeOpen req ∧ limit = 2 * uploadMaximum req quota)
    (hfound : req.namespace ≠ none) (hn : n.stream = some (newStream req quota limit)) :
    Step s c (.opened quota) .opened s (some n)
  | reserved (o : Choice) (st : Stream) (k : ℕ) (n : Call) (hst : c.stream = some st) (hpos : 0 < k)
    (hfits : s.entry st.budget.key + k ≤ st.budget.limit)
    (hn : n.stream = some { st with budget := { st.budget with bytes := st.budget.bytes + k } }) :
    Step s c o (.reserved k)
      (some ((s.getD ∅).insert st.budget.key (s.entry st.budget.key + k))) (some n)
  | refused (o : Choice) (st : Stream) (k : ℕ) (n : Call) (hst : c.stream = some st)
    (hfull : st.budget.limit < s.entry st.budget.key + k) (hn : n.stream = some st) :
    Step s c o (.refused k) (some (s.getD ∅)) (some n)
  | released (o st err m) (hc : c = .release st err) (hs : s = some m) (t)
    (ht : st.budget.release s = some t) : Step s c o (.released err) t none
  | panicked (o st err) (hc : c = .release st err) (hs : s = none) : Step s c o .panicked s none

variable {n : Option Call} {e : Event} {st : Stream} {o : Choice} {c : Call} {s t : StreamBytes}
  {calls rest : Multiset Call} {ns : NamespaceID} {req : StreamRequest}
  {hist : List (Action Call Choice × Option Event)}

theorem stageChunk_step {k written done} (hst : c.stream = some st) (hpos : 0 < k)
    (hdo : ∀ st, (done st).stream = some st) (h : stageChunk s st k written done = (e, t, n)) :
    Step s c o e t n := by
  unfold stageChunk NamespaceStageWriter.write at h
  split_ifs at h with hfull
  · cases h
    exact .refused o st k _ hst (by omega) rfl
  · have hfits : s.entry st.budget.key + k ≤ st.budget.limit := by omega
    cases written with
    | error =>
      cases h
      exact .reserved o st k _ hst hpos hfits rfl
    | ok all =>
      cases all with cases h
      | false => exact .reserved o st k _ hst hpos hfits rfl
      | true => exact .reserved o st k _ hst hpos hfits (hdo _)

theorem stream_afterReceive (st : Stream) (maximum uploaded n : ℤ) (readEnd : Option ReadEnd) :
    (afterReceive st maximum uploaded n readEnd).stream = some st := by
  unfold afterReceive
  split
  · rfl
  · rfl
  · split_ifs <;> rfl

theorem advance_step (h : advance s c o = some (e, t, n)) : Step s c o e t n := by
  revert h
  fun_cases advance s c o <;> try rintro ⟨⟩
  case case3 hnone => exact .opened _ _ _ _ rfl (.inl rfl) (.inl (mul_comm ..)) hnone rfl
  case case20 hnone _ => exact .opened _ _ _ _ rfl (.inr rfl) (.inr ⟨rfl, mul_comm ..⟩) hnone rfl
  case case11 k _ _ _ =>
    have hpos : 0 < k := by omega
    exact fun h => stageChunk_step rfl hpos (fun _ => rfl) (some.inj h)
  case case24 k _ _ _ _ _ =>
    have hpos : 0 < k.toNat := by omega
    exact fun h => stageChunk_step rfl hpos (fun st => stream_afterReceive st _ _ k _) (some.inj h)
  case case25 => exact .moved _ _ (stream_afterReceive ..) nofun
  case case28 hre =>
    cases s with
    | none => exact .panicked _ _ _ rfl rfl
    | some m => cases hre
  case case29 hre =>
    cases s with
    | none => cases hre
    | some m => exact .released _ _ _ m rfl rfl _ hre
  -- every other branch leaves the table and keeps the stream of the call
  all_goals exact .moved _ _ rfl (by simp [Call.stream])

/-! ### The table counts what is staged -/

structure Ledger (s : StreamBytes) (calls : Multiset Call) : Prop where
  entry : ∀ key, s.entry key = weight (Call.stagedUnder key) calls
  used : ∀ {m key v}, s = some m → m.lookup key = some v → v ≠ 0

theorem entry_insert (m : Table String ℤ) (key key' : String) (v : ℤ) :
    StreamBytes.entry (some (m.insert key v)) key' =
      if key' = key then v else StreamBytes.entry (some m) key' := by
  unfold StreamBytes.entry
  rw [getD_some, Finmap.lookup_insert_ite]
  split_ifs <;> rfl

theorem entry_erase (m : Table String ℤ) (key key' : String) :
    StreamBytes.entry (some (m.erase key)) key' =
      if key' = key then 0 else StreamBytes.entry (some m) key' := by
  unfold StreamBytes.entry
  rw [getD_some, Finmap.lookup_erase_ite]
  split_ifs <;> rfl

theorem entry_release {w : NamespaceStageWriter} {m : Table String ℤ}
    (h : w.release (some m) = some t) (key : String) :
    t.entry key = StreamBytes.entry (some m) key - if w.key = key then (w.bytes : ℤ) else 0 := by
  simp only [NamespaceStageWriter.release, some.injEq] at h
  subst h
  split_ifs with hz hkey hkey
  · rw [entry_erase, if_pos hkey.symm, ← hkey, hz]
  · rw [entry_erase, if_neg (Ne.symm hkey), sub_zero]
  · rw [entry_insert, if_pos hkey.symm, ← hkey]
  · rw [entry_insert, if_neg (Ne.symm hkey), sub_zero]

theorem entry_getD (s : StreamBytes) (key : String) :
    StreamBytes.entry (some (s.getD ∅)) key = s.entry key := rfl

theorem Ledger.used_getD (hl : Ledger s calls) {key v} (hv : (s.getD ∅).lookup key = some v) :
    v ≠ 0 := by
  cases s with
  | none => simp at hv
  | some m => exact hl.used rfl hv

theorem Step.ledger (h : Step s c o e t n) (hl : Ledger s (c ::ₘ rest)) :
    Ledger t (next n + rest) := by
  have hb : ∀ key, s.entry key = Call.stagedUnder key c + weight (Call.stagedUnder key) rest := by
    intro key
    rw [hl.entry, weight_cons]
    push_cast
    rfl
  have haf : ∀ key, (weight (Call.stagedUnder key) (next n + rest) : ℤ) =
      n.elim 0 (Call.stagedUnder key) + weight (Call.stagedUnder key) rest := by
    intro key
    rw [weight_next]
    push_cast
    rfl
  cases h with
  | moved _ _ hsame =>
    refine ⟨fun key => ?_, hl.used⟩
    rw [haf, hb, elim_stagedUnder, hsame]
    rfl
  | opened _ _ _ _ hnone _ _ _ hn =>
    refine ⟨fun key => ?_, hl.used⟩
    rw [haf, hb]
    simp [Call.stagedUnder, hnone, hn, newStream]
  | reserved _ st k _ hst _ _ hn =>
    have hk : ∀ key, StreamBytes.entry
        (some ((s.getD ∅).insert st.budget.key (s.entry st.budget.key + k))) key =
        s.entry key + if st.budget.key = key then (k : ℤ) else 0 := by
      intro key
      rw [entry_insert]
      split_ifs with h h' h'
      · rw [h]
      · exact absurd h.symm h'
      · exact absurd h'.symm h
      · exact (add_zero _).symm
    refine ⟨fun key => ?_, fun {m key v} hm hv => ?_⟩
    · rw [haf, hk, hb]
      simp only [Call.stagedUnder, hst, hn, elim_some]
      split_ifs <;> omega
    · cases hm
      rw [Finmap.lookup_insert_ite] at hv
      split_ifs at hv with hkey
      · have hno : 0 ≤ s.entry st.budget.key := by
          rw [hl.entry]
          exact Int.natCast_nonneg _
        cases hv
        omega
      · exact hl.used_getD hv
  | refused _ _ _ _ hst _ hn =>
    refine ⟨fun key => ?_, fun {m key v} hm hv => ?_⟩
    · rw [haf, entry_getD, hb]
      simp only [Call.stagedUnder, hst, hn, elim_some]
    · cases hm
      exact hl.used_getD hv
  | released _ _ _ _ hc hs _ ht =>
    subst hc hs
    refine ⟨fun key => ?_, fun {m' key v} hm hv => ?_⟩
    · rw [haf, entry_release ht, hb]
      simp only [Call.stagedUnder, Call.stream, elim_some, elim_none]
      split_ifs <;> omega
    · rw [NamespaceStageWriter.release, hm, some.injEq, some.injEq] at ht
      subst ht
      split_ifs at hv with hz
      · exact hl.used rfl (Finmap.lookup_of_erase hv).2
      · rcases Finmap.lookup_of_insert hv with ⟨-, rfl⟩ | hv
        · exact hz
        · exact hl.used rfl hv
  | panicked _ _ _ hc hs =>
    subst hc
    refine ⟨fun key => ?_, hl.used⟩
    -- nothing is staged as long as the map was not made
    have hkey := hb key
    rw [hs, show StreamBytes.entry none key = 0 from rfl] at hkey
    rw [haf, hs, show StreamBytes.entry none key = 0 from rfl, elim_none]
    omega

/-! ### Keys of namespaces -/

def NamespaceID.key (ns : NamespaceID) : String :=
  streamStageKey ns.pluginInstanceID ns.storeID ns.owner

theorem slash_notMem_normalizeIdentifier {value x} (h : normalizeIdentifier value = some x) :
    '/' ∉ x.toList ∧ x = trim value := by
  unfold normalizeIdentifier at h
  split at h
  · cases h
  rename_i c cs hcs
  split_ifs at h with hva
  cases h
  refine ⟨fun hmem => ?_, rfl⟩
  simp only [Bool.and_eq_true, List.all_eq_true] at hva
  rw [hcs] at hmem
  rcases List.mem_cons.mp hmem with rfl | hmem
  · exact absurd hva.1.2 (by decide)
  · exact absurd (hva.2 _ hmem) (by decide)

theorem validOwnerHash_of_valid {scope : ResourceScope} (h : scope.valid = true) :
    validOwnerHash scope.ownerEnvHash = true ∧ '/' ∉ (scopeKindText scope.kind).toList := by
  obtain ⟨kind, env, user⟩ := scope
  cases kind with
  | other => cases h
  | user | environment =>
    simp only [ResourceScope.valid, Bool.and_eq_true] at h
    refine ⟨h.1, ?_⟩
    dsimp only [scopeKindText]
    decide

theorem namespace_eq_some (h : req.namespace = some ns) :
    ns.pluginInstanceID = trim req.pluginInstanceID ∧ ns.storeID = trim req.storeID ∧
      ns.owner = req.resourceScope ∧ ns.owner.valid = true ∧
      '/' ∉ ns.pluginInstanceID.toList ∧ '/' ∉ ns.storeID.toList := by
  unfold StreamRequest.namespace at h
  split at h
  · rename_i plugin store hpl hsto
    split_ifs at h with hva
    cases h
    obtain ⟨hp, rfl⟩ := slash_notMem_normalizeIdentifier hpl
    obtain ⟨hs, rfl⟩ := slash_notMem_normalizeIdentifier hsto
    exact ⟨rfl, rfl, rfl, hva, hp, hs⟩
  · cases h

theorem key_inj {req' : StreamRequest} {ns' : NamespaceID} (h : req.namespace = some ns)
    (h' : req'.namespace = some ns') (heq : ns.key = ns'.key) : ns = ns' := by
  obtain ⟨-, -, -, hva, hpl, hsto⟩ := namespace_eq_some h
  obtain ⟨-, -, -, hv', hp', hs'⟩ := namespace_eq_some h'
  obtain ⟨plugin, store, kind, env, user⟩ := ns
  obtain ⟨plugin', store', kind', env', user'⟩ := ns'
  obtain ⟨henv, hkind⟩ := validOwnerHash_of_valid hva
  obtain ⟨henv', hkind'⟩ := validOwnerHash_of_valid hv'
  have hsl : "/" = String.singleton '/' := by decide
  simp only [NamespaceID.key, streamStageKey, hsl, String.append_assoc] at heq
  dsimp only at hpl hp' hsto hs' hkind hkind' henv henv'
  obtain ⟨hplu, hre⟩ := Text.join_inj_right hpl hp' heq
  obtain ⟨hstor, hsc⟩ := Text.join_inj_right hsto hs' hre
  obtain ⟨hk, how⟩ := Text.join_inj_right hkind hkind' hsc
  obtain ⟨rfl, rfl⟩ := Text.join_inj_right (Session.notMem_of_validOwnerHash henv (by decide))
    (Session.notMem_of_validOwnerHash henv' (by decide)) how
  subst hplu hstor
  cases kind with
  | other => cases hva
  | _ =>
    cases kind' with
    | other => cases hv'
    | _ => first | rfl | exact absurd hk (by decide)

/-! ### Streams of a namespace -/

/-- The identifiers have no white space at their ends. -/
def StreamRequest.Plain (req : StreamRequest) : Prop :=
  trim req.pluginInstanceID = req.pluginInstanceID ∧ trim req.storeID = req.storeID

instance (req : StreamRequest) : Decidable req.Plain := inferInstanceAs (Decidable (_ ∧ _))

def Call.request : Call → StreamRequest
  | .readOpen req => req
  | .readFile st | .readChunks st _ _ _ | .send st => st.req
  | .writeOpen req => req
  | .receive st _ _ | .commit st | .release st _ => st.req

def Call.stagedFor (ns : NamespaceID) (c : Call) : ℕ :=
  c.stream.elim 0 fun st => if st.req.namespace = some ns then st.budget.bytes else 0

/-- A stream with the key of its namespace and a budget of two quotas. -/
structure Stream.Regular (st : Stream) : Prop where
  plain : st.req.Plain
  found : st.req.namespace ≠ none
  key : st.budget.key = streamStageKey st.req.pluginInstanceID st.req.storeID st.req.resourceScope
  limit : st.budget.limit = 2 * st.quota.bytes

def Call.Regular (c : Call) : Prop := c.request.Plain ∧ ∀ st, c.stream = some st → st.Regular

/-- The identifiers are plain, a maximum of a stream is not below the quota, and a stream ends
only once the table of the staged bytes was made. -/
def Careful (_ : List (Action Call Choice × Option Event)) (u : Pool StreamBytes Call)
    (l : Action Call Choice × Option Event) : Prop :=
  match l.1 with
  | .enter c => c.request.Plain
  | .advance (.writeOpen req) (.opened quota) => req.maxBytes ≤ 0 ∨ quota.bytes ≤ req.maxBytes
  | .advance (.release _ _) _ => u.shared.isSome = true
  | .advance _ _ => True

theorem key_eq_iff (hst : st.Regular) (hns : req.namespace = some ns) :
    st.budget.key = ns.key ↔ st.req.namespace = some ns := by
  obtain ⟨ns', hns'⟩ := Option.ne_none_iff_exists'.mp hst.found
  have hkey : st.budget.key = ns'.key := by
    obtain ⟨hpl, hsto, howner, -⟩ := namespace_eq_some hns'
    rw [hst.key, NamespaceID.key, hpl, hsto, howner, hst.plain.1, hst.plain.2]
  rw [hns', hkey]
  refine ⟨fun heq => ?_, fun heq => ?_⟩
  · rw [key_inj hns' hns heq]
  · rw [some.inj heq]

theorem stagedFor_eq (hc : c.Regular) (hns : req.namespace = some ns) :
    c.stagedFor ns = c.stagedUnder ns.key := by
  unfold Call.stagedFor Call.stagedUnder
  cases hst : c.stream with
  | none => simp only [elim_none]
  | some => simp only [elim_some, key_eq_iff (hc.2 _ hst) hns]

theorem request_eq (h : c.stream = some st) : c.request = st.req := by
  cases c with cases h
  | _ => rfl

theorem Call.Regular.next {d : Call} {st' : Stream} (hc : c.Regular) (hst : c.stream = some st)
    (hd : d.stream = some st') (hreq : st'.req = st.req) (hqu : st'.quota = st.quota)
    (hkey : st'.budget.key = st.budget.key) (hlimit : st'.budget.limit = st.budget.limit) :
    d.Regular := by
  obtain ⟨hpl, hfound, hkey', hlimit'⟩ := hc.2 st hst
  refine ⟨by rw [request_eq hd, hreq]; exact hpl, fun st'' hst'' => ?_⟩
  cases hd.symm.trans hst''
  exact ⟨hreq ▸ hpl, hreq ▸ hfound, by rw [hkey, hreq, hkey'], by rw [hlimit, hqu, hlimit']⟩

/-- A careful section leaves the stream of its call regular. -/
theorem Step.regular (h : Step s c o e t n) (hc : c.Regular)
    (hca : Careful hist ⟨s, calls⟩ (.advance c o, some e)) : ∀ d, n = some d → d.Regular := by
  intro d hd
  cases h with
  | moved _ _ hsame hnone =>
    subst hd
    cases hst : c.stream with
    | none => cases hnone hst
    | some st => exact hc.next hst (hsame.trans hst) rfl rfl rfl rfl
  | opened _ req quota limit _ hreq hlimit hfound hn =>
    cases hd
    have hpl : req.Plain := by
      rcases hreq with rfl | rfl <;> exact hc.1
    have htw : limit = 2 * quota.bytes := by
      rcases hlimit with h | ⟨rfl, h⟩
      · exact h
      · have hla : req.maxBytes ≤ 0 ∨ quota.bytes ≤ req.maxBytes := hca
        rw [h, uploadMaximum, if_neg (by omega)]
    refine ⟨by rw [request_eq hn]; exact hpl, fun st hst => ?_⟩
    cases hn.symm.trans hst
    exact ⟨hpl, hfound, rfl, htw⟩
  | reserved _ _ _ _ hst _ _ hn | refused _ _ _ _ hst _ hn =>
    cases hd
    exact hc.next hst hn rfl rfl rfl rfl
  | released | panicked => cases hd

/-! ### Runs -/

/-- The table says what is staged for each namespace, and it is empty without streams. -/
structure Accounted (u : Pool StreamBytes Call) : Prop where
  staged : ∀ (req : StreamRequest) ns, req.namespace = some ns →
    u.shared.entry ns.key = weight (Call.stagedFor ns) u.calls
  empty : u.calls = 0 → u.shared.getD ∅ = ∅

/-- No release panics, and a stream is refused only when there would be more than two quotas. -/
def Fair (u : Pool StreamBytes Call) (l : Action Call Choice × Option Event) : Prop :=
  l.2 ≠ some .panicked ∧ ∀ c o k, l = (.advance c o, some (.refused k)) →
    ∃ st ns, c.stream = some st ∧ st.req.namespace = some ns ∧
      2 * st.quota.bytes < weight (Call.stagedFor ns) u.calls + k

theorem Ledger.empty (hl : Ledger s calls) (h : calls = 0) : s.getD ∅ = ∅ := by
  refine Finmap.ext_lookup fun key => ?_
  rw [Finmap.lookup_empty]
  cases hv : (s.getD ∅).lookup key with
  | none => rfl
  | some v =>
    have hen := hl.entry key
    rw [h, weight_zero, StreamBytes.entry, hv] at hen
    exact absurd hen (hl.used_getD hv)

theorem weight_stagedFor (h : ∀ c ∈ calls, c.Regular) (hns : req.namespace = some ns) :
    weight (Call.stagedFor ns) calls = weight (Call.stagedUnder ns.key) calls := by
  unfold weight
  rw [Multiset.map_congr rfl fun c hc => stagedFor_eq (h c hc) hns]

theorem Step.fair (h : Step s c o e t n) (hl : Ledger s (c ::ₘ rest))
    (hreg : ∀ d ∈ c ::ₘ rest, d.Regular)
    (hca : Careful hist ⟨s, c ::ₘ rest⟩ (.advance c o, some e)) :
    Fair ⟨s, c ::ₘ rest⟩ (.advance c o, some e) := by
  refine ⟨fun hpa => ?_, fun c' o' k hk => ?_⟩
  · cases h with
    | panicked _ _ _ hc hs =>
      subst hc hs
      cases (show (none : StreamBytes).isSome = true from hca)
    | _ => cases hpa
  · cases h with cases hk
    | refused _ st _ _ hst hfull =>
      have hst' := (hreg c (Multiset.mem_cons_self c rest)).2 st hst
      obtain ⟨ns, hns⟩ := Option.ne_none_iff_exists'.mp hst'.found
      refine ⟨st, ns, hst, hns, ?_⟩
      rw [weight_stagedFor hreg hns, ← hl.entry, ← (key_eq_iff hst' hns).mpr hns, ← hst'.limit]
      exact hfull

/-- A release panics just when the table was not made. -/
def PanicsUnmade (u : Pool StreamBytes Call) (l : Action Call Choice × Option Event) : Prop :=
  ∀ st err o, l.1 = .advance (.release st err) o → (l.2 = some .panicked ↔ u.shared = none)

theorem advance_panicsUnmade (h : advance s c o = some (e, t, n)) :
    PanicsUnmade ⟨s, calls⟩ (.advance c o, some e) := by
  intro st err o' hc
  cases hc
  cases o with
  | finished =>
    cases s with cases h
    | none => exact ⟨fun _ => rfl, fun _ => rfl⟩
    | some m =>
      refine ⟨fun hpa => ?_, fun hnone => ?_⟩
      · cases hpa
      · cases hnone
  | _ => cases h

theorem stream_of_entry (h : entry c = true) : c.stream = none := by
  cases c with
  | readOpen | writeOpen => rfl
  | _ => cases h

theorem Ledger.enter (hl : Ledger s calls) (hc : PluginData.entry c = true) :
    Ledger s (c ::ₘ calls) := by
  refine ⟨fun key => ?_, hl.used⟩
  rw [hl.entry, weight_cons, Call.stagedUnder, stream_of_entry hc, elim_none, zero_add]

def sampleRequest (plugin : String) (maxBytes : ℤ) : StreamRequest :=
  ⟨plugin, "s", ⟨.environment, "e", ""⟩, maxBytes⟩

def sampleQuota : Quota := ⟨100, by decide, by decide⟩

def sampleStream (plugin : String) (maxBytes limit : ℤ) (bytes : ℕ) : Stream :=
  ⟨sampleRequest plugin maxBytes, sampleQuota,
    ⟨streamStageKey plugin "s" ⟨.environment, "e", ""⟩, limit, bytes⟩⟩

def sampleOpen (plugin : String) : List (Action Call Choice) :=
  [.enter (.readOpen (sampleRequest plugin 0)),
    .advance (.readOpen (sampleRequest plugin 0)) (.opened sampleQuota)]

/-- A file of this size is staged. -/
def sampleRead (plugin : String) (n : ℕ) : List (Action Call Choice) :=
  sampleOpen plugin ++
  [.advance (.readFile (sampleStream plugin 0 200 0)) (.found n true true),
    .advance (.readChunks (sampleStream plugin 0 200 0) n 0 true) (.chunk n (.ok true))]

/-- While a file is read, a stream that may write up to the quota stages a chunk and is refused the
next. -/
def sampleStreams : List (Action Call Choice) :=
  sampleRead "p" 150 ++ [.enter (.writeOpen (sampleRequest "p" 100)),
    .advance (.writeOpen (sampleRequest "p" 100)) (.opened sampleQuota),
    .advance (.receive (sampleStream "p" 100 200 0) 100 0) (.received 40 none (.ok true)),
    .advance (.readChunks (sampleStream "p" 0 200 150) 150 150 true) .finished,
    .advance (.receive (sampleStream "p" 100 200 40) 100 40) (.received 60 none (.ok true)),
    .advance (.send (sampleStream "p" 0 200 150)) .finished,
    .advance (.release (sampleStream "p" 0 200 150) none) .finished,
    .advance (.release (sampleStream "p" 100 200 40) (some .quotaExceeded)) .finished]

def sampleTrace (actions : List (Action Call Choice)) :
    List ((Action Call Choice × Option Event) × Pool StreamBytes Call) :=
  trace program.perform ⟨none, 0⟩ actions

/-- In every run from a fresh store, with any failures and in any order, an entry of the table is
what the calls with its key have staged, the table is empty without calls, and a release
panics just when the table was not made. If identifiers have no white space at their ends, no
maximum is below the quota and no stream ends before the table was made, then the entries are
those of the namespaces, no release panics, and a stream is refused only when the namespace
would have more than two quotas staged. -/
theorem run_accounts_staged_bytes
    {tr : List ((Action Call Choice × Option Event) × Pool StreamBytes Call)}
    (hr : (program.system (· = none)).Run ⟨none, 0⟩ tr) :
    (∀ u ∈ states ⟨none, 0⟩ tr, Ledger u.shared u.calls ∧ (u.calls = 0 → u.shared.getD ∅ = ∅)) ∧
    (∀ x ∈ steps ⟨none, 0⟩ tr, PanicsUnmade x.1 x.2.1) ∧
    (Guarded Careful [] ⟨none, 0⟩ tr →
      (∀ u ∈ states ⟨none, 0⟩ tr, Accounted u) ∧ ∀ x ∈ steps ⟨none, 0⟩ tr, Fair x.1 x.2.1) := by
  have hfresh : Ledger none 0 := ⟨fun key => rfl, fun h => by cases h⟩
  obtain ⟨hledger, hpanics⟩ := Program.forall_guarded (I := Ledger) (E := PanicsUnmade)
    (fun _ s calls c hc _ hl => ⟨hl.enter hc, fun _ _ _ h => by cases h⟩)
    (fun _ s rest c o e t n hl _ hadv =>
      ⟨(advance_step hadv).ledger hl, advance_panicsUnmade hadv⟩)
    hfresh hr (guarded_true [] _ tr)
  refine ⟨fun u hu => ⟨hledger u hu, (hledger u hu).empty⟩, hpanics, fun hg => ?_⟩
  have hentered : ∀ {calls c}, PluginData.entry c = true → c.request.Plain →
      (∀ d ∈ calls, Call.Regular d) → ∀ d ∈ c ::ₘ calls, Call.Regular d := by
    intro calls c hc hplain hall d hd
    rcases Multiset.mem_cons.mp hd with rfl | hd
    · exact ⟨hplain, fun st hst => by rw [stream_of_entry hc] at hst; cases hst⟩
    · exact hall d hd
  have hadvanced : ∀ {h s rest c o e t n}, advance s c o = some (e, t, n) →
      Careful h ⟨s, c ::ₘ rest⟩ (.advance c o, some e) → (∀ d ∈ c ::ₘ rest, Call.Regular d) →
      ∀ d ∈ next n + rest, Call.Regular d := by
    intro h s rest c o e t n hadv hcareful hall d hd
    rcases mem_next_add.mp hd with hn | hd
    · exact (advance_step hadv).regular (hall c (Multiset.mem_cons_self c rest)) hcareful d hn
    · exact hall d (Multiset.mem_cons_of_mem hd)
  obtain ⟨hregular, hfair⟩ := Program.forall_guarded
    (I := fun s calls => Ledger s calls ∧ ∀ c ∈ calls, c.Regular) (E := Fair)
    (fun _ s calls c hc hcareful hI =>
      ⟨⟨hI.1.enter hc, hentered hc hcareful hI.2⟩, by simp [Fair]⟩)
    (fun _ s rest c o e t n hI hcareful hadv =>
      ⟨⟨(advance_step hadv).ledger hI.1, hadvanced hadv hcareful hI.2⟩,
        (advance_step hadv).fair hI.1 hI.2 hcareful⟩)
    ⟨hfresh, fun c hc => by simp at hc⟩ hr hg
  refine ⟨fun u hu => ⟨fun req ns hns => ?_, (hledger u hu).empty⟩, hfair⟩
  rw [weight_stagedFor (hregular u hu).2 hns]
  exact (hledger u hu).entry ns.key

theorem run_accounts_staged_bytes_two :
    (sampleTrace sampleStreams).map (fun x => x.2.shared.entry "p/s/environment/e/") =
      [0, 0, 0, 150, 150, 150, 190, 190, 190, 190, 40, 0] ∧
    Guarded Careful [] ⟨none, 0⟩ (sampleTrace sampleStreams) ∧
    (∀ u ∈ states ⟨none, 0⟩ (sampleTrace sampleStreams), Accounted u) ∧
    ∀ x ∈ steps ⟨none, 0⟩ (sampleTrace sampleStreams), Fair x.1 x.2.1 := by
  have hcareful : Guarded Careful [] ⟨none, 0⟩ (sampleTrace sampleStreams) :=
    ⟨⟨by decide, by decide⟩, trivial, trivial, trivial, ⟨by decide, by decide⟩, .inr le_rfl,
      trivial,
      trivial, trivial, trivial, rfl, rfl, trivial⟩
  exact ⟨by decide, hcareful,
    (run_accounts_staged_bytes (System.run_trace _ program.perform _ _)).2.2 hcareful⟩

/-- A stream of a file that is missing panics in a fresh store. A stream with a maximum of ten
bytes is refused while fifteen of two hundred are staged. What is staged for a plugin that is
named with a blank is not in the entry of its namespace. -/
theorem stream_staging_misbehaves :
    (labels (sampleTrace (sampleOpen "p" ++
        [.advance (.readFile (sampleStream "p" 0 200 0)) (.fail "missing"),
          .advance (.release (sampleStream "p" 0 200 0) (some (.external "missing")))
            .finished]))).getLast?.map Prod.snd = some (some .panicked) ∧
    (labels (sampleTrace (sampleRead "p" 15 ++ [.enter (.writeOpen (sampleRequest "p" 10)),
          .advance (.writeOpen (sampleRequest "p" 10)) (.opened sampleQuota),
          .advance (.receive (sampleStream "p" 10 20 0) 10 0)
            (.received 10 none (.ok true))]))).getLast?.map Prod.snd = some (some (.refused 10)) ∧
    ((sampleRequest " p" 0).namespace = some ⟨"p", "s", ⟨.environment, "e", ""⟩⟩ ∧
      weight (Call.stagedFor ⟨"p", "s", ⟨.environment, "e", ""⟩⟩)
        (last ⟨none, 0⟩ (sampleTrace (sampleRead " p" 5))).calls = 5 ∧
      (last ⟨none, 0⟩ (sampleTrace (sampleRead " p" 5))).shared.entry
        (NamespaceID.key ⟨"p", "s", ⟨.environment, "e", ""⟩⟩) = 0) := by
  refine ⟨by decide, by decide, by decide, by decide, by decide⟩

end RedevPlugin.PluginData

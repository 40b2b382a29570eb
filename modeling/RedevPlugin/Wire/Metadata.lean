import RedevPlugin.Foundation.JsonTokens
import RedevPlugin.Foundation.Bytes

/-! The metadata of a frame: nothing, or one JSON value with integers only, no key
twice in an object, at most 100000 values and none deeper than 64. The runtime
checks it while `serde_json` descends into the value; the host reads one token after
the other from a decoder that knows which tokens may come next. Both accept the
same values, except that the runtime does not read escapes of half a surrogate
pair. -/

namespace RedevPlugin.Wire

open Json

def maxMetadataDepth : ℕ := 64

def maxMetadataNodes : ℕ := 100000

/-- The metadata that a reader accepts. -/
structure StrictTree (R : Reader) (v : Tree) : Prop where
  strict : Strict R v
  depth : height v ≤ maxMetadataDepth
  nodes : nodeCount v ≤ maxMetadataNodes

mutual

/-- `StrictJsonSeed::deserialize`, with the nodes counted so far; it gives the new count and the
tokens behind the value. The first argument bounds the number of calls. -/
def deserialize (R : Reader) : ℕ → ℕ → ℕ → List Token → Option (ℕ × List Token)
  | 0, _, _, _ => none
  | fuel + 1, depth, nodes, ts =>
    if maxMetadataDepth < depth ∨ maxMetadataNodes ≤ nodes then none
    else match ts with
      | .null :: ts | .bool _ :: ts => some (nodes + 1, ts)
      | .number n :: ts => if R.number n then some (nodes + 1, ts) else none
      | .string s :: ts => (R.string s).bind fun _ => some (nodes + 1, ts)
      | .openArray :: ts => visitSeq R fuel depth (nodes + 1) true ts
      | .openObject :: ts => visitMap R fuel depth (nodes + 1) [] true ts
      | _ => none

def visitSeq (R : Reader) : ℕ → ℕ → ℕ → Bool → List Token → Option (ℕ × List Token)
  | 0, _, _, _, _ => none
  | fuel + 1, depth, nodes, first, ts =>
    match ts with
    | .closeArray :: ts => some (nodes, ts)
    | ts =>
      (separator first ts).bind fun ts =>
        (deserialize R fuel (depth + 1) nodes ts).bind fun (nodes, ts) =>
          visitSeq R fuel depth nodes false ts

def visitMap (R : Reader) :
    ℕ → ℕ → ℕ → List String → Bool → List Token → Option (ℕ × List Token)
  | 0, _, _, _, _, _ => none
  | fuel + 1, depth, nodes, keys, first, ts =>
    match ts with
    | .closeObject :: ts => some (nodes, ts)
    | ts =>
      (separator first ts).bind fun ts =>
        match ts with
        | .string k :: .colon :: ts =>
          (R.string k).bind fun key =>
            if key ∈ keys then none
            else (deserialize R fuel (depth + 1) nodes ts).bind fun (nodes, ts) =>
              visitMap R fuel depth nodes (key :: keys) false ts
        | _ => none

end

theorem one_le_length_tokens (v : Tree) : 1 ≤ (tokens v).length := by
  cases v <;> simp [tokens]

theorem one_le_length_elementTokens (first : Bool) (xs : List Tree) :
    1 ≤ (elementTokens first xs).length := by
  cases xs with
  | nil => simp [elementTokens]
  | cons x xs =>
    have := one_le_length_tokens x
    simp only [elementTokens, List.length_append]
    omega

variable {ts : List Token} {first : Bool} {fuel depth nodes : ℕ} {R : Reader} {keys : List String}

theorem visitSeq_open (h : ∀ rest, ts ≠ .closeArray :: rest) :
    visitSeq R (fuel + 1) depth nodes first ts = (separator first ts).bind fun ts =>
      (deserialize R fuel (depth + 1) nodes ts).bind fun r =>
        visitSeq R fuel depth r.1 false r.2 := by
  rw [visitSeq]
  exact h

theorem visitSeq_element (first : Bool) (x : Tree) (xs : List Tree) (rest : List Token) :
    visitSeq R (fuel + 1) depth nodes first (elementTokens first (x :: xs) ++ rest) =
      (deserialize R fuel (depth + 1) nodes (tokens x ++ (elementTokens false xs ++ rest))).bind
        fun r => visitSeq R fuel depth r.1 false r.2 := by
  cases first with
  | true =>
    rw [elementTokens, if_pos rfl, List.nil_append, List.append_assoc,
      visitSeq_open fun _ => by cases x <;> simp [tokens]]
    rfl
  | false =>
    rw [visitSeq_open (by simp [elementTokens])]
    simp [elementTokens, separator]

/-- A key, the colon behind it, and its value. -/
def visitEntry (R : Reader) (fuel depth nodes : ℕ) (keys : List String) :
    List Token → Option (ℕ × List Token)
  | .string k :: .colon :: ts =>
    (R.string k).bind fun key =>
      if key ∈ keys then none
      else (deserialize R fuel (depth + 1) nodes ts).bind fun r =>
        visitMap R fuel depth r.1 (key :: keys) false r.2
  | _ => none

theorem visitMap_open (h : ∀ rest, ts ≠ .closeObject :: rest) :
    visitMap R (fuel + 1) depth nodes keys first ts =
      (separator first ts).bind (visitEntry R fuel depth nodes keys) := by
  rw [visitMap]
  · congr 1
  · exact h

theorem visitMap_member (first : Bool) (k : List StringPart) (x : Tree)
    (ms : List (List StringPart × Tree)) (rest : List Token) :
    visitMap R (fuel + 1) depth nodes keys first (memberTokens first ((k, x) :: ms) ++ rest) =
      (R.string k).bind fun key =>
        if key ∈ keys then none
        else (deserialize R fuel (depth + 1) nodes
          (tokens x ++ (memberTokens false ms ++ rest))).bind fun r =>
            visitMap R fuel depth r.1 (key :: keys) false r.2 := by
  cases first <;> simp [memberTokens, visitMap, separator]

mutual

variable {R : Reader}

theorem deserialize_tokens : ∀ (v : Tree) {fuel depth nodes : ℕ} (rest : List Token),
    Strict R v → depth + height v ≤ maxMetadataDepth → nodes + nodeCount v ≤ maxMetadataNodes →
    (tokens v).length ≤ fuel →
    deserialize R fuel depth nodes (tokens v ++ rest) = some (nodes + nodeCount v, rest)
  | v, 0, _, _, _, _, _, _, hfu => by cases v <;> simp [tokens] at hfu
  | v, fuel + 1, depth, nodes, rest, hstr, hde, hno, hfu => by
    have hlimits : ¬ (maxMetadataDepth < depth ∨ maxMetadataNodes ≤ nodes) := by
      have := one_le_nodeCount v
      omega
    cases v with
    | null | bool => simp [tokens, deserialize, hlimits, nodeCount]
    | number =>
      rw [Strict] at hstr
      simp [tokens, deserialize, hlimits, nodeCount, hstr]
    | string =>
      rw [Strict] at hstr
      obtain ⟨text, hte⟩ := hstr
      simp [tokens, deserialize, hlimits, nodeCount, hte]
    | array =>
      simp only [Strict, height, nodeCount, tokens, List.length_cons] at hstr hde hno hfu
      rw [tokens, List.cons_append, deserialize, if_neg hlimits,
        visitSeq_tokens _ true rest hstr hde (by omega) (by omega), nodeCount, Nat.add_assoc]
    | object =>
      simp only [Strict, height, nodeCount, tokens, List.length_cons] at hstr hde hno hfu
      rw [tokens, List.cons_append, deserialize, if_neg hlimits,
        visitMap_tokens _ [] true rest hstr hde (by omega) (by omega), nodeCount,
        Nat.add_assoc]

theorem visitSeq_tokens : ∀ (xs : List Tree) {fuel depth nodes : ℕ} (first : Bool)
    (rest : List Token), StrictElements R xs → depth + elementHeight xs ≤ maxMetadataDepth →
    nodes + elementCount xs ≤ maxMetadataNodes → (elementTokens first xs).length ≤ fuel →
    visitSeq R fuel depth nodes first (elementTokens first xs ++ rest) =
      some (nodes + elementCount xs, rest)
  | xs, 0, _, _, first, _, _, _, _, hfu => by
    have := one_le_length_elementTokens first xs
    omega
  | [], fuel + 1, _, _, _, _, _, _, _, _ => by simp [elementTokens, visitSeq, elementCount]
  | x :: xs, fuel + 1, depth, nodes, first, rest, hstr, hde, hno, hfu => by
    simp only [StrictElements, elementHeight, elementCount, elementTokens, List.length_append]
      at hstr hde hno hfu
    have hx := one_le_length_tokens x
    have hxs := one_le_length_elementTokens false xs
    rw [visitSeq_element, deserialize_tokens x _ hstr.1 (by omega) (by omega) (by omega),
      Option.bind_some, visitSeq_tokens xs false rest hstr.2 (by omega) (by omega) (by omega),
      elementCount, Nat.add_assoc]

theorem visitMap_tokens : ∀ (ms : List (List StringPart × Tree))
    {fuel depth nodes : ℕ} (keys : List String) (first : Bool) (rest : List Token),
    StrictMembers R keys ms → depth + memberHeight ms ≤ maxMetadataDepth →
    nodes + memberCount ms ≤ maxMetadataNodes → (memberTokens first ms).length ≤ fuel →
    visitMap R fuel depth nodes keys first (memberTokens first ms ++ rest) =
      some (nodes + memberCount ms, rest)
  | ms, 0, _, _, _, first, _, _, _, _, hfu => by cases ms <;> simp [memberTokens] at hfu
  | [], fuel + 1, _, _, _, _, _, _, _, _, _ => by simp [memberTokens, visitMap, memberCount]
  | (k, x) :: ms, fuel + 1, depth, nodes, keys, first, rest, hstr, hde, hno, hfu => by
    simp only [StrictMembers, memberHeight, memberCount, memberTokens, List.length_append,
      List.length_cons] at hstr hde hno hfu
    obtain ⟨key, hkey, hnew, hx, hms⟩ := hstr
    rw [visitMap_member, hkey, Option.bind_some, if_neg hnew,
      deserialize_tokens x _ hx (by omega) (by omega) (by omega), Option.bind_some,
      visitMap_tokens ms (key :: keys) false rest hms (by omega) (by omega) (by omega),
      memberCount, Nat.add_assoc]

end

theorem separator_eq_some {us} (h : separator first ts = some us) :
    ts = (if first then [] else [.comma]) ++ us := by
  cases first with
  | true =>
    obtain rfl : ts = us := by simpa [separator] using h
    rfl
  | false =>
    match ts with
    | .comma :: ts =>
      obtain rfl : ts = us := by simpa [separator] using h
      rfl

mutual

theorem deserialize_eq_some {R} : ∀ {fuel depth nodes n : ℕ} {ts rest : List Token},
    deserialize R fuel depth nodes ts = some (n, rest) → ∃ v, ts = tokens v ++ rest ∧ Strict R v ∧
      depth + height v ≤ maxMetadataDepth ∧ n = nodes + nodeCount v ∧ n ≤ maxMetadataNodes
  | 0, _, _, _, _, _, h => by simp [deserialize] at h
  | fuel + 1, depth, nodes, n, ts, rest, h => by
    have hlimits : ¬ (maxMetadataDepth < depth ∨ maxMetadataNodes ≤ nodes) := by
      intro hlimits
      unfold deserialize at h
      simp [hlimits] at h
    have hde : depth ≤ maxMetadataDepth := by omega
    have hno : nodes + 1 ≤ maxMetadataNodes := by omega
    cases ts with
    | nil => simp [deserialize, hlimits] at h
    | cons t =>
      cases t with
      | null =>
        obtain ⟨rfl, rfl⟩ : nodes + 1 = n ∧ _ = rest := by simpa [deserialize, hlimits] using h
        exact ⟨.null, by simp [tokens, Strict, height, nodeCount, hde, hno]⟩
      | bool b =>
        obtain ⟨rfl, rfl⟩ : nodes + 1 = n ∧ _ = rest := by simpa [deserialize, hlimits] using h
        exact ⟨.bool b, by simp [tokens, Strict, height, nodeCount, hde, hno]⟩
      | number l =>
        obtain ⟨hl, rfl, rfl⟩ : R.number l = true ∧ nodes + 1 = n ∧ _ = rest := by
          simpa [deserialize, hlimits] using h
        exact ⟨.number l, by simp [tokens, Strict, height, nodeCount, hde, hno, hl]⟩
      | string s =>
        obtain ⟨⟨text, hte⟩, rfl, rfl⟩ : (∃ text, R.string s = some text) ∧ nodes + 1 = n ∧
            _ = rest := by
          simpa [deserialize, hlimits, Option.bind_eq_some_iff] using h
        exact ⟨.string s, by simp [tokens, Strict, height, nodeCount, hde, hno, hte]⟩
      | openArray =>
        rw [deserialize, if_neg hlimits] at h
        obtain ⟨xs, rfl, hxs, hhe, rfl, hco⟩ := visitSeq_eq_some hde hno h
        exact ⟨.array xs, by rw [tokens]; rfl, hxs, hhe, by rw [nodeCount, Nat.add_assoc], hco⟩
      | openObject =>
        rw [deserialize, if_neg hlimits] at h
        obtain ⟨ms, rfl, hms, hhe, rfl, hco⟩ := visitMap_eq_some hde hno h
        exact ⟨.object ms, by rw [tokens]; rfl, hms, hhe, by rw [nodeCount, Nat.add_assoc], hco⟩
      | _ => simp [deserialize, hlimits] at h

theorem visitSeq_eq_some {R} : ∀ {fuel depth nodes n : ℕ} {first : Bool}
    {ts rest : List Token}, depth ≤ maxMetadataDepth → nodes ≤ maxMetadataNodes →
    visitSeq R fuel depth nodes first ts = some (n, rest) →
    ∃ xs, ts = elementTokens first xs ++ rest ∧ StrictElements R xs ∧
      depth + elementHeight xs ≤ maxMetadataDepth ∧ n = nodes + elementCount xs ∧
        n ≤ maxMetadataNodes
  | 0, _, _, _, _, _, _, _, _, h => by simp [visitSeq] at h
  | fuel + 1, depth, nodes, n, first, ts, rest, hde, hno, h => by
    by_cases hcl : ∃ us, ts = .closeArray :: us
    · obtain ⟨us, rfl⟩ := hcl
      obtain ⟨rfl, rfl⟩ : nodes = n ∧ us = rest := by simpa [visitSeq] using h
      exact ⟨[], by simp [elementTokens, StrictElements, elementHeight, elementCount, hde, hno]⟩
    · rw [visitSeq_open (fun us hus => hcl ⟨us, hus⟩)] at h
      obtain ⟨us, hse, h⟩ := Option.bind_eq_some_iff.mp h
      obtain ⟨⟨m, vs⟩, hel, hlo⟩ := Option.bind_eq_some_iff.mp h
      obtain ⟨x, rfl, hx, hhe, rfl, hco⟩ := deserialize_eq_some hel
      obtain ⟨xs, rfl, hxs, hhei, rfl, hcou⟩ := visitSeq_eq_some hde hco hlo
      refine ⟨x :: xs, ?_, ⟨hx, hxs⟩, ?_, ?_, hcou⟩
      · rw [separator_eq_some hse, elementTokens]
        simp
      · rw [elementHeight]
        omega
      · rw [elementCount, Nat.add_assoc]

theorem visitMap_eq_some {R} : ∀ {fuel depth nodes n : ℕ} {keys : List String}
    {first : Bool} {ts rest : List Token}, depth ≤ maxMetadataDepth → nodes ≤ maxMetadataNodes →
    visitMap R fuel depth nodes keys first ts = some (n, rest) →
    ∃ ms, ts = memberTokens first ms ++ rest ∧ StrictMembers R keys ms ∧
      depth + memberHeight ms ≤ maxMetadataDepth ∧ n = nodes + memberCount ms ∧ n ≤ maxMetadataNodes
  | 0, _, _, _, _, _, _, _, _, _, h => by simp [visitMap] at h
  | fuel + 1, depth, nodes, n, keys, first, ts, rest, hde, hno, h => by
    by_cases hcl : ∃ us, ts = .closeObject :: us
    · obtain ⟨us, rfl⟩ := hcl
      obtain ⟨rfl, rfl⟩ : nodes = n ∧ us = rest := by simpa [visitMap] using h
      exact ⟨[], by simp [memberTokens, StrictMembers, memberHeight, memberCount, hde, hno]⟩
    · rw [visitMap_open (fun us hus => hcl ⟨us, hus⟩)] at h
      obtain ⟨us, hse, h⟩ := Option.bind_eq_some_iff.mp h
      match us, h with
      | .string k :: .colon :: us, h =>
        obtain ⟨key, hkey, h⟩ := Option.bind_eq_some_iff.mp h
        obtain ⟨hnew, h⟩ : key ∉ keys ∧ _ := by simpa using h
        obtain ⟨⟨m, vs⟩, hel, hlo⟩ := Option.bind_eq_some_iff.mp h
        obtain ⟨x, rfl, hx, hhe, rfl, hco⟩ := deserialize_eq_some hel
        obtain ⟨ms, rfl, hms, hhei, rfl, hcou⟩ := visitMap_eq_some hde hco hlo
        refine ⟨(k, x) :: ms, ?_, ⟨key, hkey, hnew, hx, hms⟩, ?_, ?_, hcou⟩
        · rw [separator_eq_some hse, memberTokens]
          simp
        · rw [memberHeight]
          omega
        · rw [memberCount, Nat.add_assoc]

end

/-- The tokens up to the end are one value exactly when they are those of a strict value. -/
theorem deserialize_all_iff :
    (∃ n, deserialize R ts.length 0 0 ts = some (n, [])) ↔
      ∃ v, ts = tokens v ∧ StrictTree R v := by
  constructor
  · rintro ⟨n, h⟩
    obtain ⟨v, hts, hstr, hde, rfl, hno⟩ := deserialize_eq_some h
    exact ⟨v, by simpa using hts, hstr, by simpa using hde, by simpa using hno⟩
  · rintro ⟨v, rfl, hv⟩
    have h : deserialize R (tokens v).length 0 0 (tokens v ++ []) = some (0 + nodeCount v, []) :=
      deserialize_tokens v [] hv.strict (by simpa using hv.depth) (by simpa using hv.nodes) le_rfl
    rw [List.append_nil] at h
    exact ⟨_, h⟩

end RedevPlugin.Wire

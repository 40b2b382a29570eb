import Mathlib.Data.List.Basic
import Mathlib.Data.Int.Notation

/-! JSON texts. A text is written from a tree whose strings are sequences of units
and whose numbers are literals: a unit is a plain character or one escape
sequence, and a literal has only characters of numbers. Writers differ in the unit
they use for a character and in the literal they use for a number, and in nothing
else. The text determines the tree, so two writers agree on a value exactly when
they use the same units and literals in it. -/

namespace RedevPlugin

open Function (Injective comp_def)
open List (cons_append cons append_assoc map_cons map_map map_congr_left)

/-- JSON values over strings `S` and numbers `N`. Members keep their order. -/
inductive Json (S N : Type*) where
  | null
  | bool (b : Bool)
  | number (n : N)
  | string (s : S)
  | array (elements : List (Json S N))
  | object (members : List (S × Json S N))

namespace Json

/-- Induction with the hypothesis for all elements and for the values of all members. -/
theorem induct {S N : Type*} {P : Json S N → Prop} (null : P .null) (bool : ∀ b, P (.bool b))
    (number : ∀ n, P (.number n)) (string : ∀ s, P (.string s))
    (array : ∀ xs, (∀ x ∈ xs, P x) → P (.array xs))
    (object : ∀ ms, (∀ m ∈ ms, P m.2) → P (.object ms)) (v : Json S N) : P v :=
  @Json.rec S N P (fun xs => ∀ x ∈ xs, P x) (fun ms => ∀ m ∈ ms, P m.2) (fun m => P m.2)
    null bool number string array object (by simp)
      (fun _ _ hx hxs => List.forall_mem_cons.mpr ⟨hx, hxs⟩)
    (by simp) (fun _ _ hm hms => List.forall_mem_cons.mpr ⟨hm, hms⟩) (fun _ _ hx => hx) v

/-! ### Units and literals -/

/-- One step of a reader inside a quoted string. -/
inductive IsUnit : List Char → Prop
  | plain (c : Char) (hquote : c ≠ '"') (hescape : c ≠ '\\') : IsUnit [c]
  | short (c : Char) (hcode : c ≠ 'u') : IsUnit ['\\', c]
  | code (a b c d : Char) : IsUnit ['\\', 'u', a, b, c, d]

abbrev Unit := { u : List Char // IsUnit u }

variable {u s t : List Char} {c : Char} {m : ℕ}

/-- A unit ends where it ends, whatever comes behind it. -/
theorem IsUnit.cancel {v} (hu : IsUnit u) (hv : IsUnit v) (h : u ++ s = v ++ t) :
    u = v ∧ s = t := by
  cases hu <;> cases hv <;> simp at h ⊢ <;> grind

theorem IsUnit.ne_quote (hu : IsUnit u) : u ++ s ≠ '"' :: t := by
  cases hu <;> simp_all

def isNumeral (c : Char) : Bool := c.isDigit || c ∈ ['-', '+', '.', 'e', 'E']

abbrev Literal := { l : List Char // l ≠ [] ∧ ∀ c ∈ l, isNumeral c = true }

/-- No number goes on in the text. -/
def Delimited : List Char → Prop
  | [] => True
  | c :: _ => isNumeral c = false

theorem Literal.cancel (l m : Literal) (hs : Delimited s) (ht : Delimited t)
    (h : l.1 ++ s = m.1 ++ t) : l = m ∧ s = t := by
  have hsp : ∀ (l : Literal) (s : List Char), Delimited s →
      (l.1 ++ s).takeWhile isNumeral = l.1 := by
    intro l s hs
    rw [List.takeWhile_append_of_pos l.2.2]
    cases s with
    | nil => simp
    | cons c s =>
      have hc : isNumeral c = false := hs
      simp [hc]
  have hl : l.1 = m.1 := by rw [← hsp l s hs, h, hsp m t ht]
  refine ⟨Subtype.ext hl, ?_⟩
  rw [hl] at h
  exact List.append_cancel_left h

/-! ### Texts -/

/-- The body of a quoted string with the quote that ends it. -/
def body (units : List Unit) : List Char := units.flatMap Subtype.val ++ ['"']

theorem body_cancel (us vs : List Unit) (h : body us ++ s = body vs ++ t) : us = vs ∧ s = t := by
  simp only [body, List.append_assoc, List.singleton_append] at h
  induction us generalizing vs with
  | nil =>
    cases vs with
    | nil => simpa using h
    | cons v vs =>
      simp only [List.flatMap_nil, List.nil_append, List.flatMap_cons, List.append_assoc] at h
      exact absurd h.symm v.2.ne_quote
  | cons u us ih =>
    cases vs with
    | nil =>
      simp only [List.flatMap_nil, List.nil_append, List.flatMap_cons, List.append_assoc] at h
      exact absurd h u.2.ne_quote
    | cons v =>
      simp only [List.flatMap_cons, List.append_assoc] at h
      obtain ⟨huv, hre⟩ := u.2.cancel v.2 h
      obtain ⟨rfl, rfl⟩ := ih _ hre
      exact ⟨by rw [Subtype.ext huv], rfl⟩

mutual

def text : Json (List Unit) Literal → List Char
  | .null => ['n', 'u', 'l', 'l']
  | .bool true => ['t', 'r', 'u', 'e']
  | .bool false => ['f', 'a', 'l', 's', 'e']
  | .number n => n.1
  | .string s => '"' :: body s
  | .array xs => '[' :: elements true xs
  | .object ms => '{' :: members true ms

/-- What follows `[`; all elements but the first have a comma in front. -/
def elements (first : Bool) : List (Json (List Unit) Literal) → List Char
  | [] => [']']
  | x :: xs => (if first then [] else [',']) ++ (text x ++ elements false xs)

def members (first : Bool) : List (List Unit × Json (List Unit) Literal) → List Char
  | [] => ['}']
  | (k, x) :: ms =>
    (if first then [] else [',']) ++ ('"' :: body k ++ ':' :: text x ++ members false ms)

end

/-! ### Reading -/

def kind {S N : Type*} : Json S N → ℕ
  | .null => 0
  | .bool _ => 1
  | .number _ => 2
  | .string _ => 3
  | .array _ => 4
  | .object _ => 5

/-- The kind of the value a text starts with; 6 closes an array or an object. -/
def leadKind (c : Char) : ℕ :=
  if isNumeral c then 2 else
    match c with
    | 'n' => 0
    | '"' => 3
    | '[' => 4
    | '{' => 5
    | ']' | '}' => 6
    | _ => 1

/-- The first character of a text tells the kind of its value. -/
theorem exists_lead (v : Json (List Unit) Literal) :
    ∃ c s, text v = c :: s ∧ leadKind c = kind v := by
  cases v with
  | null => exact ⟨_, _, rfl, by decide⟩
  | bool b => cases b <;> exact ⟨_, _, rfl, by decide⟩
  | number n =>
    obtain ⟨l, hne, hnum⟩ := n
    cases l with
    | nil => exact absurd rfl hne
    | cons c l => exact ⟨c, l, rfl, by simp [leadKind, kind, hnum c List.mem_cons_self]⟩
  | string | array | object => exact ⟨_, _, rfl, by simp [leadKind, kind, isNumeral]⟩

theorem kind_eq {v w} (h : text v ++ s = text w ++ t) : kind v = kind w := by
  obtain ⟨c, s', hv, hc⟩ := exists_lead v
  obtain ⟨d, t', hw, hd⟩ := exists_lead w
  rw [hv, hw, cons_append, cons_append, cons.injEq] at h
  rw [← hc, ← hd, h.1]

/-- No value starts where an array or an object ends. -/
theorem text_ne_close (v : Json (List Unit) Literal) (hc : leadKind c = 6) (s t : List Char) :
    text v ++ s ≠ c :: t := by
  obtain ⟨d, s', hv, hd⟩ := exists_lead v
  rw [hv, cons_append, ne_eq, cons.injEq]
  rintro ⟨rfl, -⟩
  have hlt : kind v < 6 := by cases v <;> simp [kind]
  omega

theorem delimited_elements (xs : List (Json (List Unit) Literal)) (s : List Char) :
    Delimited (elements false xs ++ s) := by
  cases xs <;> simp [elements, Delimited, isNumeral]

theorem delimited_members (ms : List (List Unit × Json (List Unit) Literal)) (s : List Char) :
    Delimited (members false ms ++ s) := by
  cases ms <;> simp [members, Delimited, isNumeral]

mutual

/-- A text determines its value and where it ends. -/
theorem text_cancel (v w : Json (List Unit) Literal) (s t : List Char) (hs : Delimited s)
    (ht : Delimited t) (h : text v ++ s = text w ++ t) : v = w ∧ s = t := by
  have hkind := kind_eq h
  cases v with (cases w <;> simp [kind] at hkind)
  | null => simpa [text] using h
  | bool a => next b => cases a <;> cases b <;> simp_all [text]
  | number m => next n => simpa using Literal.cancel m n hs ht h
  | string a => next b => simpa using body_cancel a b (by simpa [text] using h)
  | array => next ys => simpa using elements_cancel true _ ys s t (by simpa [text] using h)
  | object => next ys => simpa using members_cancel true _ ys s t (by simpa [text] using h)

theorem elements_cancel (first : Bool) (xs ys : List (Json (List Unit) Literal))
    (s t : List Char) (h : elements first xs ++ s = elements first ys ++ t) : xs = ys ∧ s = t := by
  cases xs with
  | nil =>
    cases ys with
    | nil => simpa [elements] using h
    | cons y ys =>
      cases first
      · simp [elements] at h
      · simp only [elements, if_true, List.nil_append, append_assoc, List.singleton_append] at h
        exact absurd h.symm (text_ne_close y (by decide) _ _)
  | cons x =>
    cases ys with
    | nil =>
      cases first
      · simp [elements] at h
      · simp only [elements, if_true, List.nil_append, append_assoc, List.singleton_append] at h
        exact absurd h (text_ne_close x (by decide) _ _)
    | cons y =>
      simp only [elements, append_assoc] at h
      have hre := List.append_cancel_left h
      obtain ⟨rfl, hmo⟩ := text_cancel x y _ _ (delimited_elements _ s)
        (delimited_elements _ t) hre
      obtain ⟨rfl, rfl⟩ := elements_cancel false _ _ s t hmo
      exact ⟨rfl, rfl⟩

theorem members_cancel (first : Bool) (xs ys : List (List Unit × Json (List Unit) Literal))
    (s t : List Char) (h : members first xs ++ s = members first ys ++ t) : xs = ys ∧ s = t := by
  cases xs with
  | nil =>
    cases ys with
    | nil => simpa [members] using h
    | cons y ys => cases first <;> simp [members] at h
  | cons x =>
    cases ys with
    | nil => cases first <;> simp [members] at h
    | cons y =>
      obtain ⟨k, x⟩ := x
      obtain ⟨l, y⟩ := y
      simp only [members, append_assoc, cons_append] at h
      have hre := List.append_cancel_left h
      simp only [cons.injEq, true_and] at hre
      obtain ⟨rfl, hva⟩ := body_cancel k l hre
      simp only [cons.injEq, true_and] at hva
      obtain ⟨rfl, hmo⟩ := text_cancel x y _ _ (delimited_members _ s) (delimited_members _ t) hva
      obtain ⟨rfl, rfl⟩ := members_cancel false _ _ s t hmo
      exact ⟨rfl, rfl⟩

end

theorem text_injective : Injective text := fun v w h =>
  (text_cancel v w [] [] trivial trivial (by simpa using h)).1

/-! ### Writers -/

section Map

variable {S S' N N' : Type*}

mutual

/-- Other strings and numbers in the same places. -/
def map (f : S → S') (g : N → N') : Json S N → Json S' N'
  | .null => .null
  | .bool b => .bool b
  | .number n => .number (g n)
  | .string s => .string (f s)
  | .array xs => .array (mapElements f g xs)
  | .object ms => .object (mapMembers f g ms)

def mapElements (f : S → S') (g : N → N') : List (Json S N) → List (Json S' N')
  | [] => []
  | x :: xs => map f g x :: mapElements f g xs

def mapMembers (f : S → S') (g : N → N') : List (S × Json S N) → List (S' × Json S' N')
  | [] => []
  | (k, x) :: ms => (f k, map f g x) :: mapMembers f g ms

end

variable {f : S → S'} {g : N → N'}

theorem mapElements_eq_map (f : S → S') (g : N → N') (xs : List (Json S N)) :
    mapElements f g xs = xs.map (map f g) := by
  induction xs with
  | nil => rfl
  | cons x xs ih => simp [mapElements, ih]

theorem mapMembers_eq_map (f : S → S') (g : N → N') (ms : List (S × Json S N)) :
    mapMembers f g ms = ms.map fun m => (f m.1, map f g m.2) := by
  induction ms with
  | nil => rfl
  | cons m ms ih => simp [mapMembers, ih]

theorem map_inj_of {α β : Type*} {f : α → β} {xs ys : List α}
    (hf : ∀ x ∈ xs, ∀ y, f x = f y → x = y) (h : xs.map f = ys.map f) : xs = ys := by
  induction xs generalizing ys with
  | nil => simpa using h
  | cons x xs ih =>
    cases ys with
    | nil => simp at h
    | cons y ys =>
      rw [map_cons, map_cons, cons.injEq] at h
      rw [hf x List.mem_cons_self y h.1, ih (fun x hx => hf x (List.mem_cons_of_mem _ hx)) h.2]

theorem map_injective (hf : Injective f) (hg : Injective g) (v w : Json S N)
    (h : map f g v = map f g w) : v = w := by
  induction v using induct generalizing w with
  | null | bool | number | string =>
    cases w <;> simp_all [map, hf.eq_iff, hg.eq_iff]
  | array _ ih =>
    cases w <;> simp only [map, reduceCtorEq, Json.array.injEq, mapElements_eq_map] at h
    rw [map_inj_of ih h]
  | object _ ih =>
    cases w <;> simp only [map, reduceCtorEq, Json.object.injEq, mapMembers_eq_map] at h
    rw [map_inj_of (fun m hm m' he => ?_) h]
    exact Prod.ext (hf (Prod.ext_iff.mp he).1) (ih m hm _ (Prod.ext_iff.mp he).2)

end Map

/-! ### Numbers -/

section Numbers

variable {S S' N N' : Type*}

mutual

def numbers : Json S N → List N
  | .null | .bool _ | .string _ => []
  | .number n => [n]
  | .array xs => elementNumbers xs
  | .object ms => memberNumbers ms

def elementNumbers : List (Json S N) → List N
  | [] => []
  | x :: xs => numbers x ++ elementNumbers xs

def memberNumbers : List (S × Json S N) → List N
  | [] => []
  | (_, x) :: ms => numbers x ++ memberNumbers ms

end

variable {n : N}

theorem mem_elementNumbers {xs : List (Json S N)} :
    n ∈ elementNumbers xs ↔ ∃ x ∈ xs, n ∈ numbers x := by
  induction xs with
  | nil => simp [elementNumbers]
  | cons x xs ih => simp [elementNumbers, ih]

theorem mem_memberNumbers {ms : List (S × Json S N)} :
    n ∈ memberNumbers ms ↔ ∃ m ∈ ms, n ∈ numbers m.2 := by
  induction ms with
  | nil => simp [memberNumbers]
  | cons m ms ih => simp [memberNumbers, ih]

theorem map_eq_map_iff (f : S → S') (g g' : N → N') (v : Json S N) :
    map f g v = map f g' v ↔ ∀ n ∈ numbers v, g n = g' n := by
  induction v using induct with
  | null | bool | number | string => simp [map, numbers]
  | array _ ih =>
    simp only [map, numbers, Json.array.injEq, mapElements_eq_map, List.map_inj_left,
      mem_elementNumbers]
    rw [forall₂_congr ih]
    exact ⟨fun h n ⟨x, hx, hn⟩ => h x hx n hn, fun h x hx n hn => h n ⟨x, hx, hn⟩⟩
  | object _ ih =>
    simp only [map, numbers, Json.object.injEq, mapMembers_eq_map, List.map_inj_left,
      Prod.mk.injEq, true_and, mem_memberNumbers]
    rw [forall₂_congr ih]
    exact ⟨fun h n ⟨x, hx, hn⟩ => h x hx n hn, fun h x hx n hn => h n ⟨x, hx, hn⟩⟩

theorem map_map_numbers {N'' : Type*} (f : S → S') (g : N' → N'') (h : N → N') (v : Json S N) :
    map f g (map id h v) = map f (g ∘ h) v := by
  induction v using induct with
  | null | bool | number | string => simp [map]
  | array _ ih =>
    simp only [map, mapElements_eq_map, map_map, Json.array.injEq]
    exact map_congr_left ih
  | object _ ih =>
    simp only [map, mapMembers_eq_map, map_map, Json.object.injEq]
    exact map_congr_left fun m hm => congrArg (Prod.mk _) (ih m hm)

end Numbers

/-! ### Objects with sorted members -/

section Sorted

variable {S N N' : Type*} (le : S → S → Bool)

mutual

/-- All objects with their members in the order of their keys. -/
def sortKeys : Json S N → Json S N
  | .null => .null
  | .bool b => .bool b
  | .number n => .number n
  | .string s => .string s
  | .array xs => .array (sortElements xs)
  | .object ms => .object ((sortMembers ms).mergeSort fun m m' => le m.1 m'.1)

def sortElements : List (Json S N) → List (Json S N)
  | [] => []
  | x :: xs => sortKeys x :: sortElements xs

def sortMembers : List (S × Json S N) → List (S × Json S N)
  | [] => []
  | (k, x) :: ms => (k, sortKeys x) :: sortMembers ms

end

theorem sortElements_eq_map (xs : List (Json S N)) : sortElements le xs = xs.map (sortKeys le) := by
  induction xs with
  | nil => rfl
  | cons x xs ih => simp [sortElements, ih]

theorem sortMembers_eq_map (ms : List (S × Json S N)) :
    sortMembers le ms = ms.map fun m => (m.1, sortKeys le m.2) := by
  induction ms with
  | nil => rfl
  | cons m ms ih => simp [sortMembers, ih]

theorem map_sortKeys (g : N → N') (v : Json S N) :
    map id g (sortKeys le v) = sortKeys le (map id g v) := by
  induction v using induct with
  | null | bool | number | string => rfl
  | array _ ih =>
    simp only [sortKeys, map, mapElements_eq_map, sortElements_eq_map, map_map, Json.array.injEq]
    exact map_congr_left ih
  | object ms ih =>
    have hso := List.map_mergeSort (r := fun m m' : S × Json S N => le m.1 m'.1)
      (s := fun m m' : S × Json S N' => le m.1 m'.1)
      (f := fun m : S × Json S N => (id m.1, map id g m.2)) (l := sortMembers le ms)
      (fun _ _ _ _ => rfl)
    simp only [sortKeys, map, mapMembers_eq_map, hso]
    simp only [sortMembers_eq_map, map_map]
    congr 2
    exact map_congr_left fun m hm => congrArg (Prod.mk _) (ih m hm)

theorem mem_numbers_sortKeys {n : N} (v : Json S N) :
    n ∈ numbers (sortKeys le v) ↔ n ∈ numbers v := by
  induction v using induct with
  | null | bool | number | string => rfl
  | array _ ih =>
    simp only [sortKeys, numbers, mem_elementNumbers, sortElements_eq_map, List.mem_map,
      exists_exists_and_eq_and]
    exact exists_congr fun x => and_congr_right (ih x)
  | object _ ih =>
    simp only [sortKeys, numbers, mem_memberNumbers, List.mem_mergeSort, sortMembers_eq_map,
      List.mem_map, exists_exists_and_eq_and]
    exact exists_congr fun m => and_congr_right (ih m)

end Sorted

/-! ### Objects with optional members -/

section Present

variable {K V W : Type*}

/-- The members that are there. -/
def present (fields : List (K × Option V)) : List (K × V) :=
  fields.filterMap fun field => field.2.map (field.1, ·)

theorem present_cons (k : K) (v : Option V) (fields : List (K × Option V)) :
    present ((k, v) :: fields) = (v.map (k, ·)).toList ++ present fields := by
  cases v <;> simp [present]

theorem key_of_mem_present {fields : List (K × Option V)} {m : K × V} (h : m ∈ present fields) :
    m.1 ∈ fields.map Prod.fst := by
  obtain ⟨field, hfi, hm⟩ := List.mem_filterMap.mp h
  obtain ⟨v, -, rfl⟩ := Option.map_eq_some_iff.mp hm
  exact List.mem_map_of_mem hfi

/-- Under distinct keys, the members that are there tell which are missing. -/
theorem present_inj {xs ys : List (K × Option V)} (hk : xs.map Prod.fst = ys.map Prod.fst)
    (hdi : (xs.map Prod.fst).Nodup) (h : present xs = present ys) : xs = ys := by
  induction xs generalizing ys with
  | nil => simpa using hk
  | cons x xs ih =>
    cases ys with
    | nil => simp at hk
    | cons y ys =>
      obtain ⟨k, v⟩ := x
      obtain ⟨l, w⟩ := y
      simp only [map_cons, cons.injEq] at hk
      obtain ⟨rfl, hk⟩ := hk
      simp only [map_cons, List.nodup_cons] at hdi
      obtain ⟨hnew, hdi⟩ := hdi
      simp only [present_cons] at h
      cases v with
      | none =>
        cases w with
        | none => rw [ih hk hdi (by simpa using h)]
        | some w =>
          have hmem : (k, w) ∈ present xs := by
            have hxs : present xs = (k, w) :: present ys := by simpa using h
            simp [hxs]
          exact absurd (key_of_mem_present hmem) hnew
      | some v =>
        cases w with
        | none =>
          have hmem : (k, v) ∈ present ys := by
            have hys : (k, v) :: present xs = present ys := by simpa using h
            simp [← hys]
          exact absurd (hk ▸ key_of_mem_present hmem) hnew
        | some w =>
          simp only [Option.map_some, Option.toList_some, List.singleton_append, cons.injEq,
            Prod.mk.injEq, true_and] at h
          rw [h.1, ih hk hdi h.2]

theorem mapMembers_present {S S' N N' : Type*} (f : S → S') (g : N → N')
    (fields : List (S × Option (Json S N))) : mapMembers f g (present fields) =
      present (fields.map fun field => (f field.1, field.2.map (map f g))) := by
  induction fields with
  | nil => rfl
  | cons field fields ih =>
    obtain ⟨k, v⟩ := field
    cases v with
    | none => simpa [present_cons] using ih
    | some v => simpa [present_cons, mapMembers] using ih

end Present

/-- The units and literals a writer uses. -/
structure Format (N : Type*) where
  escape : Char → Unit
  number : N → Literal

namespace Format

variable {N : Type*} (F G : Format N)

def units (s : String) : List Unit := s.toList.map F.escape

def write (v : Json String N) : List Char := text (v.map F.units F.number)

/-- Two writers write the same text exactly for the same units and literals. -/
theorem write_eq_iff (v w : Json String N) :
    F.write v = G.write w ↔ v.map F.units F.number = w.map G.units G.number :=
  ⟨fun h => text_injective h, fun h => congrArg text h⟩

theorem units_injective (h : Injective F.escape) : Injective F.units :=
  fun _ _ he => String.toList_injective (List.map_injective_iff.mpr h he)

theorem write_injective (he : Injective F.escape) (hn : Injective F.number) :
    Injective F.write := fun v w h =>
  map_injective (F.units_injective he) hn v w ((F.write_eq_iff F v w).mp h)

theorem units_eq_iff (s : String) :
    F.units s = G.units s ↔ ∀ c ∈ s.toList, F.escape c = G.escape c :=
  List.map_inj_left

/-- Two writers that use the same distinct keys write the same object exactly when they
write the same members, each for each. -/
theorem write_present_eq_iff {xs ys : List (String × Option (Json String N))}
    (hk : xs.map (F.units ·.1) = ys.map (G.units ·.1))
    (hdi : (xs.map (F.units ·.1)).Nodup) :
    F.write (.object (present xs)) = G.write (.object (present ys)) ↔
      xs.map (·.2.map (map F.units F.number)) = ys.map (·.2.map (map G.units G.number)) := by
  rw [write_eq_iff]
  simp only [map, Json.object.injEq, mapMembers_present]
  constructor
  · intro h
    have hfi := present_inj (by simpa [comp_def] using hk) (by simpa [comp_def] using hdi) h
    simpa [comp_def] using congrArg (List.map Prod.snd) hfi
  · intro h
    congr 1
    have hzip := congrArg₂ List.zip hk h
    simpa only [List.zip_map'] using hzip

/-- Two writers that escape alike write the same text exactly when they write the same literals. -/
theorem write_map_eq_iff {M : Type*} (G : Format M) (hescape : F.escape = G.escape) (h : N → M)
    (v : Json String N) :
    F.write v = G.write (v.map id h) ↔ ∀ n ∈ v.numbers, F.number n = G.number (h n) := by
  have hun : F.units = G.units := by
    funext s
    rw [units, units, hescape]
  rw [write, write, text_injective.eq_iff, map_map_numbers, hun, map_eq_map_iff]
  rfl

/-- The characters of a text outside of strings and numbers. -/
def structuralChars : List Char :=
  ['"', '[', ']', '{', '}', ',', ':', 'n', 'u', 'l', 't', 'r', 'e', 'f', 'a', 's']

/-- A character of a text is replaced by others after writing. -/
structure Rewrites (replace : Char → List Char) : Prop where
  structural : ∀ c ∈ structuralChars, replace c = [c]
  numeral : ∀ c, isNumeral c = true → replace c = [c]
  escape : ∀ c, (F.escape c).1.flatMap replace = (G.escape c).1
  number : F.number = G.number

section Rewrite

variable {F G} {replace : Char → List Char} (h : Rewrites F G replace)
include h

theorem Rewrites.body (s : String) : (body (F.units s)).flatMap replace = body (G.units s) := by
  have hquote := h.structural '"' (by decide)
  simp only [Json.body, units, List.flatMap_append, List.flatMap_cons, List.flatMap_nil, hquote,
    List.flatMap_map, List.flatMap_assoc, h.escape, List.append_nil]

theorem Rewrites.literal (l : Literal) : l.1.flatMap replace = l.1 := by
  have hsi : l.1.flatMap replace = l.1.flatMap ([·]) :=
    List.flatMap_congr fun c hc => h.numeral c (l.2.2 c hc)
  simpa using hsi

mutual

/-- Replacing in the text of one writer gives the text of the other. -/
theorem Rewrites.write (v : Json String N) : (F.write v).flatMap replace = G.write v := by
  have hk : ∀ cs : List Char, cs.all (structuralChars.contains ·) = true →
      cs.flatMap replace = cs := by
    intro cs hcs
    have hsi : cs.flatMap replace = cs.flatMap ([·]) :=
      List.flatMap_congr fun c hc => h.structural c (by simpa using List.all_eq_true.mp hcs c hc)
    simpa using hsi
  cases v with
  | null => exact hk ['n', 'u', 'l', 'l'] (by decide)
  | bool b =>
    cases b
    · exact hk ['f', 'a', 'l', 's', 'e'] (by decide)
    · exact hk ['t', 'r', 'u', 'e'] (by decide)
  | number => rw [Format.write, map, text, h.literal, Format.write, map, text, h.number]
  | string =>
    simp [Format.write, map, text, h.structural '"' (by decide), h.body]
  | array =>
    simp [Format.write, map, text, h.structural '[' (by decide), Rewrites.elements true _]
  | object =>
    simp only [Format.write, map, text, List.flatMap_cons, h.structural '{' (by decide),
      Rewrites.members true _, List.singleton_append]

theorem Rewrites.elements (first : Bool) (xs : List (Json String N)) :
    (Json.elements first (mapElements F.units F.number xs)).flatMap replace =
      Json.elements first (mapElements G.units G.number xs) := by
  cases xs with
  | nil => simp [mapElements, Json.elements, h.structural ']' (by decide)]
  | cons x =>
    have hx := Rewrites.write x
    rw [Format.write, Format.write] at hx
    cases first <;>
      simp [mapElements, Json.elements, hx, Rewrites.elements false _, h.structural ',' (by decide)]

theorem Rewrites.members (first : Bool) (ms : List (String × Json String N)) :
    (Json.members first (mapMembers F.units F.number ms)).flatMap replace =
      Json.members first (mapMembers G.units G.number ms) := by
  cases ms with
  | nil => simp [mapMembers, Json.members, h.structural '}' (by decide)]
  | cons m =>
    obtain ⟨k, x⟩ := m
    have hx := Rewrites.write x
    rw [Format.write, Format.write] at hx
    cases first <;>
      simp [mapMembers, Json.members, hx, h.body, Rewrites.members false _,
        h.structural ',' (by decide), h.structural ':' (by decide), h.structural '"' (by decide)]

end

end Rewrite

/-- A member of an object, behind the first one. -/
def member (m : String × Json String N) : List Char :=
  ',' :: '"' :: body (F.units m.1) ++ ':' :: F.write m.2

theorem write_object_cons (k : String) (v : Json String N) (ms : List (String × Json String N)) :
    F.write (.object ((k, v) :: ms)) =
      '{' :: '"' :: body (F.units k) ++ ':' :: F.write v ++ (ms.flatMap F.member ++ ['}']) := by
  have hre : ∀ ms : List (String × Json String N),
      members false (mapMembers F.units F.number ms) = ms.flatMap F.member ++ ['}'] := by
    intro ms
    induction ms with
    | nil => rfl
    | cons m ms ih => simp [mapMembers, members, member, write, ih]
  simp [write, map, mapMembers, text, members, hre]

end Format

/-! ### Integers -/

theorem isDigit_repr (hc : c ∈ m.repr.toList) : c.isDigit = true := by
  rw [Nat.repr_eq_ofList_toDigits, String.toList_ofList] at hc
  exact Nat.isDigit_of_mem_toDigits (by decide) (by decide) hc

theorem repr_toList_inj {n} (h : m.repr.toList = n.repr.toList) : m = n := by
  have hva := congrArg (fun cs => Nat.ofDigitChars 10 cs 0) h
  simpa [Nat.repr_eq_ofList_toDigits] using hva

/-- The decimal literal of an integer. -/
def decimal (n : ℤ) : Literal := ⟨n.repr.toList, by
  rw [Int.repr_eq_if]
  split_ifs
  · refine ⟨by simp [Nat.repr_eq_ofList_toDigits, Nat.toDigits_ne_nil], fun c hc => ?_⟩
    simp [isNumeral, isDigit_repr hc]
  · rw [String.toList_append]
    refine ⟨by simp, fun c hc => ?_⟩
    rcases List.mem_append.mp hc with hc | hc
    · obtain rfl : c = '-' := by simpa using hc
      decide
    · simp [isNumeral, isDigit_repr hc]⟩

theorem decimal_injective : Injective decimal := by
  intro m n h
  have hre : m.repr = n.repr := String.toList_injective (congrArg Subtype.val h)
  rw [Int.repr_eq_if, Int.repr_eq_if] at hre
  -- a sign is no digit
  have hsi : ∀ a b : ℕ, a.repr ≠ "-" ++ b.repr := by
    intro a b he
    have hmi : '-' ∈ a.repr.toList := by
      rw [he, String.toList_append]
      simp
    simpa using isDigit_repr hmi
  split_ifs at hre
  · have hnat := repr_toList_inj (congrArg String.toList hre)
    omega
  · exact absurd hre (hsi _ _)
  · exact absurd hre.symm (hsi _ _)
  have hli := congrArg String.toList hre
  simp only [String.toList_append, List.append_cancel_left_eq] at hli
  have hnat := repr_toList_inj hli
  omega

end Json

end RedevPlugin

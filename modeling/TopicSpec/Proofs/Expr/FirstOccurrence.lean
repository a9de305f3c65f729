import Mathlib.Data.List.Induction
import TopicSpec.Proofs.Expr.Occurrence

/-! # The order of references

Every occurrence of a name has a place, which tells the part to go into at each step on the way
down. Places are ordered as in the text. The references of an expression are its free names, each
once and in the order of their first places. -/

namespace TopicSpec.Expr
set_option autoImplicit false

/-- The name occurs free at the place. -/
inductive FreeAt : Expr → List Nat → String → Prop where
  | here (name : String) : FreeAt (.var name) [] name
  | inside {e part : Expr} {i : Nat} {name? : Option String} {place : List Nat} {name : String} :
    e.parts[i]? = some (name?, part) → FreeAt part place name → name? ≠ some name →
    FreeAt e (i :: place) name

/-- Some place of the first name is before every place of the second. -/
def FirstBefore (e : Expr) (name other : String) : Prop :=
  ∃ place, e.FreeAt place name ∧ ∀ place', e.FreeAt place' other → place < place'

variable {e : Expr} {name : String}

/-! ## Listings -/

/-- The names with their places, in the order of the places. -/
structure Lists (P : List Nat → String → Prop) (entries : List (List Nat × String)) : Prop where
  mem : ∀ place name, (place, name) ∈ entries ↔ P place name
  sorted : entries.Pairwise fun entry entry' => entry.1 < entry'.1

/-- The names that a part leaves free, which may have a bound variable. -/
def leftFree (bound? : Option String) (names : List String) : List String :=
  names.filter fun name => bound? ≠ some name

@[simp] theorem leftFree_none (names : List String) : leftFree none names = names := by
  simp [leftFree]

@[simp] theorem leftFree_some (bound : String) (names : List String) :
    leftFree (some bound) names = names.filter (· != bound) := by
  refine List.filter_congr fun name _ => ?_
  rw [Bool.eq_iff_iff, decide_eq_true_eq, bne_iff_ne]
  exact not_congr (by rw [Option.some.injEq, eq_comm])

theorem freeOccurrences_eq_flatMap_parts (h : ∀ name, e ≠ .var name) :
    e.freeOccurrences = e.parts.flatMap fun part => leftFree part.1 part.2.freeOccurrences := by
  cases e with
  | var name => exact absurd rfl (h name)
  | set members =>
    rw [freeOccurrences, freeOccurrencesAll_eq_flatMap]
    simp [parts, children, List.flatMap_map]
  | _ => simp [freeOccurrences, parts, children]

/-- The occurrences in the parts of an expression, the first of which has the given number. -/
def FreeIn (parts : List (Option String × Expr)) (first : Nat) (place : List Nat) (name : String) :
    Prop :=
  ∃ i part inner, place = (first + i) :: inner ∧ parts[i]? = some part ∧
    part.2.FreeAt inner name ∧ part.1 ≠ some name

theorem freeIn_cons_iff {part : Option String × Expr} {parts : List (Option String × Expr)}
    {first : Nat} {place : List Nat} :
    FreeIn (part :: parts) first place name ↔
      (∃ inner, place = first :: inner ∧ part.2.FreeAt inner name ∧ part.1 ≠ some name) ∨
        FreeIn parts (first + 1) place name := by
  constructor
  · rintro ⟨i, found, inner, rfl, hPart, hFree⟩
    cases i with
    | zero =>
      obtain rfl := Option.some.inj hPart
      exact .inl ⟨inner, rfl, hFree⟩
    | succ i =>
      exact .inr ⟨i, found, inner, by rw [Nat.add_right_comm, Nat.add_assoc], hPart, hFree⟩
  · rintro (⟨inner, rfl, hFree⟩ | ⟨i, found, inner, rfl, hPart, hFree⟩)
    · exact ⟨0, part, inner, rfl, rfl, hFree⟩
    · exact ⟨i + 1, found, inner, by rw [Nat.add_right_comm, Nat.add_assoc], hPart, hFree⟩

theorem freeAt_iff_freeIn (h : ∀ name, e ≠ .var name) {place : List Nat} :
    e.FreeAt place name ↔ FreeIn e.parts 0 place name := by
  constructor
  · intro hFree
    cases hFree with
    | here => exact absurd rfl (h name)
    | inside hPart hInner hName => exact ⟨_, _, _, by rw [Nat.zero_add], hPart, hInner, hName⟩
  · rintro ⟨i, part, inner, rfl, hPart, hInner, hName⟩
    rw [Nat.zero_add]
    exact .inside hPart hInner hName

theorem exists_listing_parts {parts : List (Option String × Expr)} (first : Nat)
    (h : ∀ part ∈ parts, ∃ entries, Lists part.2.FreeAt entries ∧
      entries.map Prod.snd = part.2.freeOccurrences) :
    ∃ entries, Lists (FreeIn parts first) entries ∧ entries.map Prod.snd =
      parts.flatMap fun part => leftFree part.1 part.2.freeOccurrences := by
  induction parts generalizing first with
  | nil => exact ⟨[], ⟨by simp [FreeIn], .nil⟩, rfl⟩
  | cons part parts ih =>
    obtain ⟨hHead, hTail⟩ := List.forall_mem_cons.mp h
    obtain ⟨entries, ⟨hMem, hSorted⟩, hNames⟩ := hHead
    obtain ⟨more, ⟨hMoreMem, hMoreSorted⟩, hMoreNames⟩ := ih (first + 1) hTail
    refine ⟨(entries.filter fun entry => part.1 ≠ some entry.2).map
      (fun entry => (first :: entry.1, entry.2)) ++ more, ⟨?_, ?_⟩, ?_⟩
    · intro place name
      rw [List.mem_append, hMoreMem, freeIn_cons_iff]
      refine or_congr_left ?_
      simp only [List.mem_map, List.mem_filter, Prod.exists, Prod.mk.injEq, hMem, decide_eq_true_eq]
      constructor
      · rintro ⟨inner, _, ⟨hFree, hName⟩, rfl, rfl⟩
        exact ⟨inner, rfl, hFree, hName⟩
      · rintro ⟨inner, rfl, hFree, hName⟩
        exact ⟨inner, name, ⟨hFree, hName⟩, rfl, rfl⟩
    · refine List.pairwise_append.mpr ⟨?_, hMoreSorted, ?_⟩
      · refine List.pairwise_map.mpr ((hSorted.filter _).imp fun hLess => ?_)
        exact List.cons_lt_cons_iff.mpr (.inr ⟨rfl, hLess⟩)
      · -- The numbers of the later parts are greater.
        rintro ⟨place, name⟩ hOwn ⟨place', name'⟩ hLater
        obtain ⟨i, _, inner, rfl, -⟩ := (hMoreMem place' name').mp hLater
        obtain ⟨entry, -, hEntry⟩ := List.mem_map.mp hOwn
        obtain ⟨rfl, rfl⟩ := Prod.mk.inj hEntry
        exact List.cons_lt_cons_iff.mpr (.inl (by omega))
    · rw [List.map_append, hMoreNames, List.flatMap_cons, ← hNames, List.map_map, leftFree,
        List.filter_map]
      rfl

theorem exists_listing (e : Expr) :
    ∃ entries, Lists e.FreeAt entries ∧ entries.map Prod.snd = e.freeOccurrences := by
  induction e using induct_parts with
  | step e ih =>
    by_cases hVar : ∃ name, e = .var name
    · obtain ⟨name, rfl⟩ := hVar
      refine ⟨[([], name)], ⟨fun place found => ?_, List.pairwise_singleton _ _⟩, rfl⟩
      constructor
      · intro hMember
        obtain ⟨rfl, rfl⟩ := Prod.mk.inj (List.mem_singleton.mp hMember)
        exact .here found
      · intro hFree
        cases hFree with
        | here => exact List.mem_singleton_self _
        | inside hPart => cases hPart
    · have hOther : ∀ name, e ≠ .var name := fun name h => hVar ⟨name, h⟩
      obtain ⟨entries, ⟨hMem, hSorted⟩, hNames⟩ := exists_listing_parts 0 ih
      refine ⟨entries, ⟨fun place name => ?_, hSorted⟩, ?_⟩
      · rw [hMem, freeAt_iff_freeIn hOther]
      · rw [hNames, freeOccurrences_eq_flatMap_parts hOther]

/-! ## Each name once -/

theorem distinct_concat (names : List String) (name : String) :
    distinct (names ++ [name]) =
      if name ∈ names then distinct names else distinct names ++ [name] := by
  have hSeen : (distinct names).contains name = true ↔ name ∈ names := by
    rw [List.contains_iff_mem, mem_distinct_iff]
  rw [distinct, List.foldl_append, List.foldl_cons, List.foldl_nil]
  show (if (distinct names).contains name then distinct names else distinct names ++ [name]) = _
  by_cases h : name ∈ names
  · rw [if_pos (hSeen.mpr h), if_pos h]
  · rw [if_neg (mt hSeen.mp h), if_neg h]

theorem nodup_distinct (names : List String) : (distinct names).Nodup := by
  induction names using List.reverseRecOn with
  | nil => exact List.nodup_nil
  | append_singleton names name ih =>
    rw [distinct_concat]
    split
    · exact ih
    · rename_i hNew
      refine List.nodup_append.mpr ⟨ih, List.pairwise_singleton _ _, fun a hA b hB => ?_⟩
      rintro rfl
      obtain rfl := List.mem_singleton.mp hB
      exact hNew (mem_distinct_iff.mp hA)

/-- The names of a listing, each once, are in the order of their first places. -/
theorem pairwise_distinct {entries : List (List Nat × String)}
    (h : entries.Pairwise fun entry entry' => entry.1 < entry'.1) :
    (distinct (entries.map Prod.snd)).Pairwise fun name other =>
      ∃ place, (place, name) ∈ entries ∧ ∀ place', (place', other) ∈ entries → place < place' := by
  induction entries using List.reverseRecOn with
  | nil => exact .nil
  | append_singleton entries entry ih =>
    obtain ⟨last, added⟩ := entry
    obtain ⟨hSorted, -, hLast⟩ := List.pairwise_append.mp h
    have hBefore : ∀ place name, (place, name) ∈ entries → place < last :=
      fun place name hMember => hLast _ hMember _ (List.mem_singleton_self _)
    have hOld : (distinct (entries.map Prod.snd)).Pairwise fun name other =>
        ∃ place, (place, name) ∈ entries ++ [(last, added)] ∧
          ∀ place', (place', other) ∈ entries ++ [(last, added)] → place < place' := by
      refine (ih hSorted).imp fun ⟨place, hPlace, hLess⟩ => ?_
      refine ⟨place, List.mem_append_left _ hPlace, fun place' hPlace' => ?_⟩
      rcases List.mem_append.mp hPlace' with hPlace' | hPlace'
      · exact hLess place' hPlace'
      · obtain ⟨rfl, -⟩ := Prod.mk.inj (List.mem_singleton.mp hPlace')
        exact hBefore place _ hPlace
    rw [List.map_append, List.map_singleton, distinct_concat]
    split
    · exact hOld
    · rename_i hNew
      refine List.pairwise_append.mpr ⟨hOld, List.pairwise_singleton _ _, ?_⟩
      intro name hName _ hAdded
      obtain rfl := List.mem_singleton.mp hAdded
      obtain ⟨⟨place, name⟩, hPlace, rfl⟩ := List.mem_map.mp (mem_distinct_iff.mp hName)
      refine ⟨place, List.mem_append_left _ hPlace, fun place' hPlace' => ?_⟩
      rcases List.mem_append.mp hPlace' with hPlace' | hPlace'
      · exact absurd (List.mem_map.mpr ⟨_, hPlace', rfl⟩) hNew
      · obtain ⟨rfl, -⟩ := Prod.mk.inj (List.mem_singleton.mp hPlace')
        exact hBefore place _ hPlace

/-- Of two references, some place of the earlier is before every place of the later. -/
theorem references_ordered (e : Expr) : e.references.Pairwise e.FirstBefore := by
  obtain ⟨entries, ⟨hMem, hSorted⟩, hNames⟩ := exists_listing e
  rw [references, ← hNames]
  refine (pairwise_distinct hSorted).imp fun ⟨place, hPlace, hLess⟩ => ?_
  exact ⟨place, (hMem _ _).mp hPlace, fun place' hPlace' => hLess place' ((hMem _ _).mpr hPlace')⟩

end TopicSpec.Expr

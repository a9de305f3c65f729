import Mathlib.Data.List.Nodup
import Mathlib.Data.List.Perm.Basic
import TopicSpec.SortedMap

/-! # What is found in a sorted map

A map is known by what is found in it. A map that has been filled entry by entry gives the last
value of each key, and its first key from some bound on is the least of those that are not below it.
-/

namespace TopicSpec.SortedMap
set_option autoImplicit false

variable {α : Type} {map map' : SortedMap α} {key bound : String} {value : α}
  {entry : String × α}

theorem nodup_keys (map : SortedMap α) : (map.entries.map (·.1)).Nodup := by
  rw [List.Nodup, List.pairwise_map]
  refine map.sorted.imp fun {a b} hBelow hSame => ?_
  rw [hSame] at hBelow
  exact String.lt_irrefl _ hBelow

theorem find?_eq_some_iff : map.find? key = some value ↔ (key, value) ∈ map.entries := by
  rw [find?, Option.map_eq_some_iff]
  constructor
  · rintro ⟨⟨k, v⟩, hFound, rfl⟩
    obtain rfl : k = key := by simpa using List.find?_some hFound
    exact List.mem_of_find?_eq_some hFound
  · intro hMem
    have hSome : (map.entries.find? fun entry => entry.1 == key).isSome = true :=
      List.find?_isSome.mpr ⟨(key, value), hMem, by simp⟩
    obtain ⟨found, hFound⟩ := Option.isSome_iff_exists.mp hSome
    have hKey : found.1 = key := by simpa using List.find?_some hFound
    have hSame : found = (key, value) :=
      List.inj_on_of_nodup_map map.nodup_keys (List.mem_of_find?_eq_some hFound) hMem hKey
    exact ⟨found, hFound, congrArg Prod.snd hSame⟩

/-- Maps in which the same is found are the same. -/
theorem ext_find? (h : ∀ key, map.find? key = map'.find? key) : map = map' := by
  have hMem : ∀ entry, entry ∈ map.entries ↔ entry ∈ map'.entries := by
    rintro ⟨key, value⟩
    rw [← find?_eq_some_iff, ← find?_eq_some_iff, h key]
  have hPerm : map.entries.Perm map'.entries :=
    (List.perm_ext_iff_of_nodup map.nodup_keys.of_map map'.nodup_keys.of_map).mpr hMem
  have hEntries : map.entries = map'.entries :=
    hPerm.eq_of_pairwise (fun a b _ _ hBelow hAbove => absurd hAbove (String.lt_asymm hBelow))
      map.sorted map'.sorted
  obtain ⟨entries, sorted⟩ := map
  obtain rfl : entries = map'.entries := hEntries
  rfl

/-! ## Filling a map -/

theorem find?_foldl_insert (entries : List (String × α)) (map : SortedMap α) (key : String) :
    (entries.foldl (fun map entry => map.insert entry.1 entry.2) map).find? key =
      ((entries.reverse.find? (·.1 == key)).map (·.2)).or (map.find? key) := by
  induction entries generalizing map with
  | nil => rfl
  | cons entry entries ih =>
    rw [List.foldl_cons, ih, find?_insert, List.reverse_cons, List.find?_append]
    cases entries.reverse.find? (·.1 == key) with
    | some found => rfl
    | none => by_cases hKey : entry.1 = key <;> simp [hKey]

/-- A key has the last of the values that it has been given. -/
theorem find?_ofList (entries : List (String × α)) (key : String) :
    (ofList entries).find? key = (entries.reverse.find? (·.1 == key)).map (·.2) := by
  rw [ofList, find?_foldl_insert, find?_empty, Option.or_none]

/-- Entries under different keys may change places. -/
theorem ofList_eq_of_filter {entries entries' : List (String × α)}
    (h : ∀ key, entries.filter (·.1 == key) = entries'.filter (·.1 == key)) :
    ofList entries = ofList entries' := by
  refine ext_find? fun key => ?_
  rw [find?_ofList, find?_ofList, ← List.getLast?_filter, ← List.getLast?_filter, h key]

theorem filter_eq_of_perm {entries entries' : List (String × α)} (h : entries'.Perm entries)
    (hNodup : (entries.map (·.1)).Nodup) (key : String) :
    entries'.filter (·.1 == key) = entries.filter (·.1 == key) := by
  have hPerm := h.filter (·.1 == key)
  have hKeys : ((entries.filter (·.1 == key)).map (·.1)).Nodup :=
    hNodup.sublist (List.filter_sublist.map _)
  have hKey : ∀ entry ∈ entries.filter (·.1 == key), entry.1 = key :=
    fun entry hEntry => by simpa using List.of_mem_filter hEntry
  generalize entries.filter (·.1 == key) = found at hPerm hKeys hKey
  match found with
  | [] => exact List.perm_nil.mp hPerm
  | [entry] => exact List.perm_singleton.mp hPerm
  | first :: second :: _ =>
    have hFirst := hKey first List.mem_cons_self
    have hSecond := hKey second (List.mem_cons_of_mem _ List.mem_cons_self)
    simp [hFirst, hSecond] at hKeys

theorem mem_of_mem_ofList {entries : List (String × α)} (h : entry ∈ (ofList entries).entries) :
    entry ∈ entries := by
  have hFound := find?_eq_some_iff.mpr h
  rw [find?_ofList, Option.map_eq_some_iff] at hFound
  obtain ⟨found, hFound, hValue⟩ := hFound
  have hKey : found.1 = entry.1 := by simpa using List.find?_some hFound
  obtain rfl : found = entry := Prod.ext hKey hValue
  exact List.mem_reverse.mp (List.mem_of_find?_eq_some hFound)

theorem exists_mem_ofList {entries : List (String × α)} (h : entry ∈ entries) :
    ∃ value, (entry.1, value) ∈ (ofList entries).entries := by
  have hSome : (entries.reverse.find? (·.1 == entry.1)).isSome = true :=
    List.find?_isSome.mpr ⟨entry, List.mem_reverse.mpr h, by simp⟩
  obtain ⟨found, hFound⟩ := Option.isSome_iff_exists.mp hSome
  exact ⟨found.2, find?_eq_some_iff.mp (by rw [find?_ofList, hFound]; rfl)⟩

/-! ## The first key from some bound on -/

/-- No key stands between the bound and the first key from there on. -/
theorem firstFrom?_le (h : map.firstFrom? bound = some entry) {other : String × α}
    (hOther : other ∈ map.entries) (hBound : ¬other.1 < bound) : ¬other.1 < entry.1 := by
  obtain ⟨-, before, after, hSplit, hBefore⟩ := List.find?_eq_some_iff_append.mp h
  have hSorted := map.sorted
  rw [hSplit, List.pairwise_append, List.pairwise_cons] at hSorted
  rw [hSplit, List.mem_append, List.mem_cons] at hOther
  rcases hOther with hEarlier | rfl | hLater
  · have hBelow := hBefore other hEarlier
    simp [hBound] at hBelow
  · exact String.lt_irrefl _
  · exact String.lt_asymm (hSorted.2.1.1 other hLater)

theorem exists_firstFrom? {other : String × α} (hOther : other ∈ map.entries)
    (hBound : ¬other.1 < bound) : ∃ entry, map.firstFrom? bound = some entry :=
  Option.isSome_iff_exists.mp (List.find?_isSome.mpr ⟨other, hOther, by simpa using hBound⟩)

theorem not_append_lt (p rest : List Char) : ¬p ++ rest < p := by
  induction p with
  | nil => exact List.not_lt_nil rest
  | cons c p ih =>
    rw [List.cons_append, List.cons_lt_cons_iff]
    rintro (hLess | ⟨-, hMore⟩)
    · exact Char.lt_irrefl c hLess
    · exact ih hMore

/-- What stands between a text and one of its continuations is a continuation of it, too. -/
theorem prefix_of_between {a b p : List Char} (hb : p <+: b) (hLow : ¬a < p) (hHigh : ¬b < a) :
    p <+: a := by
  induction p generalizing a b with
  | nil => exact List.nil_prefix
  | cons c p ih =>
    obtain ⟨rest, rfl⟩ := hb
    cases a with
    | nil => exact absurd (List.nil_lt_cons c p) hLow
    | cons d a =>
      rw [List.cons_append, List.cons_lt_cons_iff, not_or, not_and] at hHigh
      rw [List.cons_lt_cons_iff, not_or, not_and] at hLow
      obtain rfl : c = d := Char.le_antisymm (Char.not_lt.mp hLow.1) (Char.not_lt.mp hHigh.1)
      have hMore := ih (List.prefix_append p rest) (hLow.2 rfl) (hHigh.2 rfl)
      exact (List.prefix_cons_inj c).mpr hMore

/-- The first key from a text on continues the text exactly if some key does. -/
theorem firstFrom?_prefix_iff :
    (∃ entry, map.firstFrom? bound = some entry ∧ bound.toList <+: entry.1.toList) ↔
      ∃ entry ∈ map.entries, bound.toList <+: entry.1.toList := by
  constructor
  · rintro ⟨entry, hFirst, hPrefix⟩
    exact ⟨entry, List.mem_of_find?_eq_some hFirst, hPrefix⟩
  · rintro ⟨other, hOther, hPrefix⟩
    have hBound : ¬other.1 < bound := by
      obtain ⟨rest, hText⟩ := hPrefix
      rw [String.lt_iff, ← hText]
      exact not_append_lt bound.toList rest
    obtain ⟨entry, hFirst⟩ := exists_firstFrom? hOther hBound
    have hLow : ¬entry.1 < bound := by simpa using List.find?_some hFirst
    refine ⟨entry, hFirst, prefix_of_between hPrefix ?_ ?_⟩
    · rwa [String.lt_iff] at hLow
    · rw [← String.lt_iff]
      exact firstFrom?_le hFirst hOther hBound

end TopicSpec.SortedMap

/-! # Maps sorted by key

Finite maps from texts, as lists of entries with increasing keys. An insertion at a key that is
present replaces the entry. -/

namespace TopicSpec
set_option autoImplicit false

structure SortedMap (α : Type) where
  entries : List (String × α)
  sorted : entries.Pairwise fun a b => a.1 < b.1

namespace SortedMap

variable {α : Type}

def empty : SortedMap α := ⟨[], .nil⟩

def insertEntry (key : String) (value : α) : List (String × α) → List (String × α)
  | [] => [(key, value)]
  | (k, v) :: rest =>
    if key < k then (key, value) :: (k, v) :: rest
    else if key = k then (key, value) :: rest
    else (k, v) :: insertEntry key value rest

theorem mem_insertEntry {key : String} {value : α} {entry : String × α}
    {entries : List (String × α)} (h : entry ∈ insertEntry key value entries) :
    entry = (key, value) ∨ entry ∈ entries := by
  induction entries with
  | nil => simpa [insertEntry] using h
  | cons head rest ih =>
    obtain ⟨k, v⟩ := head
    unfold insertEntry at h
    split at h
    · simpa using h
    · split at h
      · rcases List.mem_cons.mp h with h | h
        · exact .inl h
        · exact .inr (List.mem_cons_of_mem _ h)
      · rcases List.mem_cons.mp h with rfl | h
        · exact .inr List.mem_cons_self
        · exact (ih h).imp_right (List.mem_cons_of_mem _)

theorem insertEntry_sorted {key : String} {value : α} {entries : List (String × α)}
    (h : entries.Pairwise fun a b => a.1 < b.1) :
    (insertEntry key value entries).Pairwise fun a b => a.1 < b.1 := by
  induction entries with
  | nil => simp [insertEntry]
  | cons head rest ih =>
    obtain ⟨k, v⟩ := head
    obtain ⟨first, others⟩ := List.pairwise_cons.mp h
    unfold insertEntry
    split
    case isTrue below =>
      refine List.pairwise_cons.mpr ⟨fun entry hmem => ?_, h⟩
      rcases List.mem_cons.mp hmem with rfl | hmem
      · exact below
      · exact String.lt_trans below (first entry hmem)
    case isFalse notBelow =>
      split
      case isTrue same =>
        subst same
        exact List.pairwise_cons.mpr ⟨first, others⟩
      case isFalse different =>
        refine List.pairwise_cons.mpr ⟨fun entry hmem => ?_, ih others⟩
        rcases mem_insertEntry hmem with rfl | hmem
        · show k < key
          grind
        · exact first entry hmem

def insert (map : SortedMap α) (key : String) (value : α) : SortedMap α :=
  ⟨insertEntry key value map.entries, insertEntry_sorted map.sorted⟩

def ofList (entries : List (String × α)) : SortedMap α :=
  entries.foldl (fun map entry => map.insert entry.1 entry.2) empty

def find? (map : SortedMap α) (key : String) : Option α :=
  (map.entries.find? fun entry => entry.1 == key).map (·.2)

def contains (map : SortedMap α) (key : String) : Bool := (map.find? key).isSome

/-- The first entry whose key is not below `key`. -/
def firstFrom? (map : SortedMap α) (key : String) : Option (String × α) :=
  map.entries.find? fun entry => !(entry.1 < key)

def size (map : SortedMap α) : Nat := map.entries.length

def isEmpty (map : SortedMap α) : Bool := map.entries.isEmpty

theorem find?_empty (key : String) : (empty : SortedMap α).find? key = none := rfl

theorem find?_insert (map : SortedMap α) (key other : String) (value : α) :
    (map.insert key value).find? other = if key = other then some value else map.find? other := by
  obtain ⟨entries, sorted⟩ := map
  simp only [find?, insert]
  clear sorted
  induction entries with
  | nil => by_cases h : key = other <;> simp [insertEntry, h]
  | cons head rest ih =>
    obtain ⟨k, v⟩ := head
    unfold insertEntry
    split
    · by_cases h : key = other <;> simp [h]
    · split
      case isTrue same =>
        subst same
        by_cases h : key = other <;> simp [h]
      case isFalse different =>
        by_cases h : k = other
        · subst h
          simp [different]
        · simpa [h] using ih

end SortedMap
end TopicSpec

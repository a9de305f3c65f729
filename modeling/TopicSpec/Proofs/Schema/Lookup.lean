import TopicSpec.Proofs.SortedMap
import TopicSpec.Schema

/-! # Paths that a schema answers

A schema is asked for a path and looks at one more declaration at most, the first one from the path
and a dot on. It answers as if it had gone through all declarations. -/

namespace TopicSpec
set_option autoImplicit false

namespace Schema

variable {schema : Schema} {path : String} {type : FieldType}

theorem field?_of_declared (h : schema.find? path = some type) :
    schema.field? path = some type := by
  rw [field?, h]

/-- Some path is declared that goes on behind the path and a dot. -/
def Continues (schema : Schema) (path : String) : Prop :=
  ∃ declared ∈ schema.entries, (path ++ ".").toList <+: declared.1.toList

theorem field?_of_continues (h : schema.find? path = none) (hMore : schema.Continues path) :
    schema.field? path = some (.base .message) := by
  obtain ⟨⟨key, declared⟩, hFirst, hPrefix⟩ := SortedMap.firstFrom?_prefix_iff.mpr hMore
  rw [field?, h]
  dsimp only
  rw [hFirst]
  exact if_pos (List.isPrefixOf_iff_prefix.mpr hPrefix)

theorem field?_of_not_continues (h : schema.find? path = none) (hMore : ¬schema.Continues path) :
    schema.field? path = none := by
  rw [field?, h]
  dsimp only
  cases hFirst : schema.firstFrom? (path ++ ".") with
  | none => rfl
  | some entry =>
    refine if_neg fun hPrefix => hMore ?_
    exact SortedMap.firstFrom?_prefix_iff.mp
      ⟨entry, hFirst, List.isPrefixOf_iff_prefix.mp hPrefix⟩

/-! ## Declarations one after the other -/

/-- What declarations say of a path, where all of them are looked at: the type that the path has
been given last, or a message if it has none and begins a longer path. -/
def scan? (declarations : List (String × FieldType)) (path : String) : Option FieldType :=
  match declarations.reverse.find? (·.1 == path) with
  | some (_, type) => some type
  | none =>
    if declarations.any fun (declared, _) => (path ++ ".").toList.isPrefixOf declared.toList then
      some (.base .message)
    else none

theorem continues_ofList_iff {declarations : List (String × FieldType)} :
    Continues (.ofList declarations) path ↔
      ∃ declared ∈ declarations, (path ++ ".").toList <+: declared.1.toList := by
  constructor
  · rintro ⟨declared, hMem, hPrefix⟩
    exact ⟨declared, SortedMap.mem_of_mem_ofList hMem, hPrefix⟩
  · rintro ⟨declared, hMem, hPrefix⟩
    obtain ⟨type, hKept⟩ := SortedMap.exists_mem_ofList hMem
    exact ⟨_, hKept, hPrefix⟩

theorem field?_ofList (declarations : List (String × FieldType)) (path : String) :
    field? (.ofList declarations) path = scan? declarations path := by
  have hFind := SortedMap.find?_ofList declarations path
  have hAny : (declarations.any fun (declared, _) =>
      (path ++ ".").toList.isPrefixOf declared.toList) = true ↔
        Continues (.ofList declarations) path := by
    simp only [List.any_eq_true, List.isPrefixOf_iff_prefix, continues_ofList_iff]
  rw [scan?]
  split
  next type hLast =>
    rw [hLast] at hFind
    exact field?_of_declared hFind
  next hNever =>
    rw [hNever] at hFind
    split_ifs with hMore
    · exact field?_of_continues hFind (hAny.mp hMore)
    · exact field?_of_not_continues hFind (mt hAny.mpr hMore)

/-- A schema answers for every path what going through its declarations would find, and in which
order different paths have been declared makes no difference: where each path is given the same
types one after the other, and so where distinct paths are declared in any order, all answers are
the same. -/
theorem answers_as_scan (declarations : List (String × FieldType)) :
    (∀ path, field? (.ofList declarations) path = scan? declarations path) ∧
    ∀ declarations' : List (String × FieldType),
      ((∀ path, declarations'.filter (·.1 == path) = declarations.filter (·.1 == path)) ∨
        declarations'.Perm declarations ∧ (declarations.map (·.1)).Nodup) →
      ∀ path, field? (.ofList declarations') path = field? (.ofList declarations) path := by
  refine ⟨field?_ofList declarations, ?_⟩
  rintro declarations' (hSame | ⟨hPerm, hNodup⟩) path
  · rw [SortedMap.ofList_eq_of_filter hSame]
  · rw [SortedMap.ofList_eq_of_filter (SortedMap.filter_eq_of_perm hPerm hNodup)]

/-- Paths on both sides of those that go on with a dot, in two orders. -/
theorem siblings_are_told_apart :
    let declarations : List (String × FieldType) :=
      [("linear-x", .base .bool), ("linear.x", .base .float), ("linearity", .base .string),
        ("linear/x", .base .bool), ("angular-x", .base .bool), ("angularity", .base .bool),
        ("größe.y", .array .message)]
    let declarations' := declarations.reverse
    declarations'.Perm declarations ∧ (declarations.map (·.1)).Nodup ∧
    scan? declarations "linear" = some (.base .message) ∧
    scan? declarations "linear.x" = some (.base .float) ∧
    scan? declarations "angular" = none ∧
    scan? declarations "größe" = some (.base .message) ∧
    (∀ path, field? (.ofList declarations) path = scan? declarations path) ∧
    ∀ path, field? (.ofList declarations') path = field? (.ofList declarations) path := by
  intro declarations declarations'
  have hPerm : declarations'.Perm declarations := List.reverse_perm declarations
  have hNodup : (declarations.map (·.1)).Nodup := by decide +kernel
  obtain ⟨hScan, hOrder⟩ := answers_as_scan declarations
  exact ⟨hPerm, hNodup, by decide +kernel, by decide +kernel, by decide +kernel,
    by decide +kernel, hScan, hOrder declarations' (.inr ⟨hPerm, hNodup⟩)⟩

end Schema
end TopicSpec

import TopicSpec.Proofs.Expr.Occurrence
import TopicSpec.Typing.Environment

/-! # Paths of fields

A reference starts at the message at hand, at an alias or at a variable, and goes through fields and
array elements. Its schema has the fields alone.
-/

namespace TopicSpec
set_option autoImplicit false

namespace Expr

/-- The root of a reference, which is none for the message at hand, and the fields behind it. -/
inductive Reaches : Expr → Option String → List String → Prop where
  | this : Reaches .this none []
  | var (name : String) : Reaches (.var name) (some name) []
  | field {base : Expr} {root : Option String} {fields : List String} (name : String) :
    Reaches base root fields → Reaches (.field base name) root (fields ++ [name])
  | element {base : Expr} {root : Option String} {fields : List String} (position : Expr) :
    Reaches base root fields → Reaches (.index base position) root fields

variable {e : Expr} {root : Option String} {name : String} {fields : List String}

theorem Within.of_part {part found : Expr} {vars : List String} (hPart : (none, part) ∈ e.parts)
    (h : part.Within vars found) : e.Within vars found := .inside hPart h

theorem Reaches.within (h : e.Reaches (some name) fields) : e.Within [] (.var name) := by
  generalize hRoot : some name = root at h
  induction h with
  | this => cases hRoot
  | var => exact Option.some.inj hRoot ▸ .self _
  | field _ _ ih => exact .of_part (by simp [parts, children]) (ih hRoot)
  | element _ _ ih => exact .of_part (by simp [parts, children]) (ih hRoot)

theorem Reaches.field_within (h : e.Reaches root fields) (hName : name ∈ fields) :
    ∃ base, e.Within [] (.field base name) := by
  induction h with
  | this | var => cases hName
  | @field base _ _ last _ ih =>
    rcases List.mem_append.mp hName with hName | hName
    · obtain ⟨found, hWithin⟩ := ih hName
      exact ⟨found, .of_part (by simp [parts, children]) hWithin⟩
    · obtain rfl := List.mem_singleton.mp hName
      exact ⟨base, .self _⟩
  | element _ _ ih =>
    obtain ⟨found, hWithin⟩ := ih hName
    exact ⟨found, .of_part (by simp [parts, children]) hWithin⟩

end Expr

namespace Typing.Environment

theorem intercalate_ne_empty {fields : List String} (hFields : fields ≠ []) (hNames : "" ∉ fields) :
    ".".intercalate fields ≠ "" := by
  cases fields with
  | nil => exact absurd rfl hFields
  | cons first more =>
    have hSplit := String.intercalate_cons_append (s := ".") (t := first) (u := "") (l := more)
    rw [String.append_empty] at hSplit
    rw [hSplit]
    intro hEmpty
    have hFirst : first = "" := (String.append_eq_empty_iff.mp hEmpty).1
    exact hNames (hFirst ▸ List.mem_cons_self)

theorem path?_of_reaches {e : Expr} {root : Option String} {fields : List String}
    (h : e.Reaches root fields) (hNames : "" ∉ fields) :
    path? e = some (root, ".".intercalate fields) := by
  induction h with
  | this => rfl
  | var => rfl
  | @field base root fields name _ ih =>
    have hBase := ih fun hName => hNames (List.mem_append_left _ hName)
    rw [path?, hBase, Option.map_some]
    dsimp only
    by_cases hFields : fields = []
    · subst hFields
      simp
    · have hPath := intercalate_ne_empty hFields fun hName => hNames (List.mem_append_left _ hName)
      rw [if_neg hPath, String.intercalate_append_of_ne_nil hFields (List.cons_ne_nil _ _),
        String.intercalate_singleton]
  | element _ _ ih => exact ih hNames

end Typing.Environment
end TopicSpec

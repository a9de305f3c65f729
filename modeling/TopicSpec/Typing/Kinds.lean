/-! # Kinds

Sets of the kinds of values that an expression may have, and the types built from them. -/

namespace TopicSpec
set_option autoImplicit false

inductive Kind where
  | bool
  | number
  | string
  | array
  | message
  deriving DecidableEq

namespace Kind

def all : List Kind := [bool, number, string, array, message]

def name : Kind → String
  | bool => "bool"
  | number => "number"
  | string => "string"
  | array => "array"
  | message => "message"

def ofName? (text : String) : Option Kind := all.find? (·.name == text)

end Kind

/-- A set of kinds. -/
structure Kinds where
  bool : Bool
  number : Bool
  string : Bool
  array : Bool
  message : Bool
  deriving DecidableEq

namespace Kinds

def has (kinds : Kinds) : Kind → Bool
  | .bool => kinds.bool
  | .number => kinds.number
  | .string => kinds.string
  | .array => kinds.array
  | .message => kinds.message

def none : Kinds := ⟨false, false, false, false, false⟩

def only (kind : Kind) : Kinds :=
  ⟨kind = .bool, kind = .number, kind = .string, kind = .array, kind = .message⟩

/-- The kinds of values that have no parts. -/
def scalar : Kinds := ⟨true, true, true, false, false⟩

def any : Kinds := ⟨true, true, true, true, true⟩

def union (a b : Kinds) : Kinds :=
  ⟨a.bool || b.bool, a.number || b.number, a.string || b.string, a.array || b.array,
    a.message || b.message⟩

def intersect (a b : Kinds) : Kinds :=
  ⟨a.bool && b.bool, a.number && b.number, a.string && b.string, a.array && b.array,
    a.message && b.message⟩

def isEmpty (kinds : Kinds) : Bool := kinds = none

/-- Tells whether some kind is in both sets. -/
def admits (a b : Kinds) : Bool := !(a.intersect b).isEmpty

def render (kinds : Kinds) : String :=
  match Kind.all.filter kinds.has with
  | [] => "nothing"
  | present => "|".intercalate (present.map Kind.name)

theorem ext_has {a b : Kinds} (h : ∀ kind, a.has kind = b.has kind) : a = b := by
  obtain ⟨_, _, _, _, _⟩ := a
  obtain ⟨_, _, _, _, _⟩ := b
  have := h .bool
  have := h .number
  have := h .string
  have := h .array
  have := h .message
  simp_all [has]

@[simp] theorem has_none (kind : Kind) : none.has kind = false := by cases kind <;> rfl

@[simp] theorem has_any (kind : Kind) : any.has kind = true := by cases kind <;> rfl

@[simp] theorem has_only (kind k : Kind) : (only kind).has k = decide (kind = k) := by
  cases k <;> rfl

@[simp] theorem has_union (a b : Kinds) (kind : Kind) :
    (a.union b).has kind = (a.has kind || b.has kind) := by cases kind <;> rfl

@[simp] theorem has_intersect (a b : Kinds) (kind : Kind) :
    (a.intersect b).has kind = (a.has kind && b.has kind) := by cases kind <;> rfl

theorem isEmpty_iff {a : Kinds} : a.isEmpty = true ↔ ∀ kind, a.has kind = false := by
  constructor
  · intro h kind
    rw [show a = none by simpa [isEmpty] using h]
    exact has_none kind
  · intro h
    simpa [isEmpty] using ext_has (b := none) (by simpa using h)

theorem admits_iff {a b : Kinds} :
    a.admits b = true ↔ ∃ kind, a.has kind = true ∧ b.has kind = true := by
  unfold admits
  rw [Bool.not_eq_true', ← Bool.not_eq_true, isEmpty_iff]
  simp

end Kinds

/-- The kinds a value may have, and those its elements may have if it is an array. -/
structure Ty where
  kinds : Kinds
  elements : Kinds
  deriving DecidableEq

namespace Ty

def any : Ty := ⟨.any, .any⟩

def of (kinds : Kinds) : Ty := ⟨kinds, .any⟩

def only (kind : Kind) : Ty := of (.only kind)

def array (elements : Kinds) : Ty := ⟨.only .array, elements⟩

end Ty
end TopicSpec

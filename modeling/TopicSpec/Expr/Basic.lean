import TopicSpec.Literal

/-! # Expressions

Conditions and values, with the names they refer to. -/

namespace TopicSpec
set_option autoImplicit false

inductive UnaryOp where
  | not
  | neg
  deriving DecidableEq

namespace UnaryOp

def symbol : UnaryOp → String
  | not => "not"
  | neg => "-"

end UnaryOp

inductive BinaryOp where
  | implies
  | iff
  | or
  | and
  | eq
  | ne
  | lt
  | le
  | gt
  | ge
  | mem
  | add
  | sub
  | mul
  | div
  | pow
  deriving DecidableEq

namespace BinaryOp

def all : List BinaryOp :=
  [implies, iff, or, and, eq, ne, lt, le, gt, ge, mem, add, sub, mul, div, pow]

def symbol : BinaryOp → String
  | implies => "implies"
  | iff => "iff"
  | or => "or"
  | and => "and"
  | eq => "="
  | ne => "!="
  | lt => "<"
  | le => "<="
  | gt => ">"
  | ge => ">="
  | mem => "in"
  | add => "+"
  | sub => "-"
  | mul => "*"
  | div => "/"
  | pow => "**"

def ofSymbol? (text : String) : Option BinaryOp := all.find? (·.symbol == text)

theorem ofSymbol?_symbol (op : BinaryOp) : ofSymbol? op.symbol = some op := by
  cases op <;> decide

end BinaryOp

inductive Quantifier where
  | universal
  | existential
  deriving DecidableEq

namespace Quantifier

def word : Quantifier → String
  | universal => "forall"
  | existential => "exists"

def ofWord? (text : String) : Option Quantifier := [universal, existential].find? (·.word == text)

end Quantifier

inductive Expr where
  /-- The guard of an event that states none. -/
  | vacuous
  | literal (literal : Literal)
  /-- A quantified variable, or the alias of an event. -/
  | var (name : String)
  /-- The message at hand, to which a field named alone belongs. -/
  | this
  | field (base : Expr) (name : String)
  | index (base position : Expr)
  | call (function : String) (argument : Expr)
  | set (members : List Expr)
  | range (lower upper : Expr) (excludeLower excludeUpper : Bool)
  | unary (op : UnaryOp) (operand : Expr)
  | binary (op : BinaryOp) (left right : Expr)
  | quantified (quantifier : Quantifier) (bound : String) (domain body : Expr)

namespace Expr

/-- The direct subexpressions, in the order of the text. -/
def children : Expr → List Expr
  | vacuous | literal _ | var _ | this => []
  | field base _ => [base]
  | index base position => [base, position]
  | call _ argument => [argument]
  | set members => members
  | range lower upper _ _ => [lower, upper]
  | unary _ operand => [operand]
  | binary _ left right => [left, right]
  | quantified _ _ domain body => [domain, body]

def isVacuous : Expr → Bool
  | vacuous => true
  | _ => false

mutual
/-- The occurrences of names that no quantifier around them binds, in the order of the text. A
quantifier binds its variable in its body and not in its domain. -/
def freeOccurrences : Expr → List String
  | vacuous | literal _ | this => []
  | var name => [name]
  | field base _ => base.freeOccurrences
  | index base position => base.freeOccurrences ++ position.freeOccurrences
  | call _ argument => argument.freeOccurrences
  | set members => freeOccurrencesAll members
  | range lower upper _ _ => lower.freeOccurrences ++ upper.freeOccurrences
  | unary _ operand => operand.freeOccurrences
  | binary _ left right => left.freeOccurrences ++ right.freeOccurrences
  | quantified _ bound domain body =>
    domain.freeOccurrences ++ body.freeOccurrences.filter (· != bound)

def freeOccurrencesAll : List Expr → List String
  | [] => []
  | e :: es => e.freeOccurrences ++ freeOccurrencesAll es
end

/-- Each entry at its first occurrence. -/
def distinct (names : List String) : List String :=
  names.foldl (fun seen name => if seen.contains name then seen else seen ++ [name]) []

/-- The free names of an expression, each once, in the order of their first occurrence. -/
def references (e : Expr) : List String := distinct e.freeOccurrences

theorem mem_distinct_iff {names : List String} {name : String} :
    name ∈ distinct names ↔ name ∈ names := by
  suffices general : ∀ seen : List String,
      name ∈ names.foldl (fun seen n => if seen.contains n then seen else seen ++ [n]) seen ↔
        name ∈ seen ∨ name ∈ names by
    simpa [distinct] using general []
  induction names with
  | nil => simp
  | cons n names ih =>
    intro seen
    rw [List.foldl_cons, ih]
    by_cases h : seen.contains n = true
    · have hmem : n ∈ seen := by simpa using h
      simp only [h, if_true, List.mem_cons]
      constructor
      · rintro (hs | hn)
        · exact .inl hs
        · exact .inr (.inr hn)
      · rintro (hs | rfl | hn)
        · exact .inl hs
        · exact .inl hmem
        · exact .inr hn
    · have hmem : n ∉ seen := by simpa using h
      simp [hmem, or_assoc]

/-- A name is referred to exactly if it occurs free. -/
theorem mem_references_iff {e : Expr} {name : String} :
    name ∈ e.references ↔ name ∈ e.freeOccurrences := mem_distinct_iff

end Expr
end TopicSpec

import TopicSpec.Schema
import TopicSpec.Typing.Rule

/-! # Typing in an environment

The type of a guard where the topic of its message, the aliases of events and the schemas of
topics are given. -/

namespace TopicSpec.Typing
set_option autoImplicit false

/-- What a guard may refer to. -/
structure Environment where
  /-- The topic of the message at hand. -/
  topic : Option String
  /-- The aliases of events with their topics, the first of one name counting. -/
  aliases : List (String × String)
  resolver : Option Resolver

namespace Environment

def withResolver (resolver : Option Resolver) : Environment := ⟨none, [], resolver⟩

def aliasTopic? (env : Environment) (name : String) : Option String :=
  (env.aliases.find? fun entry => entry.1 == name).map (·.2)

/-- The root of a reference and the path of its fields, without array steps; the root is an alias
or a variable, or none for the message at hand. -/
def path? : Expr → Option (Option String × String)
  | .this => some (none, "")
  | .var name => some (some name, "")
  | .index base _ => path? base
  | .field base name =>
    (path? base).map fun (root, path) =>
      (root, (if path = "" then path else path ++ ".") ++ name)
  | _ => none

/-- The topic at the root of a reference, if its schema is known. -/
def knownTopic? (env : Environment) (resolver : Resolver) (vars : List (String × Ty))
    (root : Option String) : Option String :=
  let topic :=
    match root with
    | none => env.topic
    | some name => if vars.any (·.1 == name) then none else env.aliasTopic? name
  topic.filter resolver.knows

/-- The declared type of a reference, if the topic at its root is known. -/
def declared? (env : Environment) (vars : List (String × Ty)) (e : Expr) :
    Except TypeError (Option Ty) :=
  match env.resolver, path? e with
  | some resolver, some (root, path) =>
    match env.knownTopic? resolver vars root with
    | none => .ok none
    | some topic =>
      match resolver.fieldType? topic path with
      | some type => .ok (some type.ty)
      | none => .error (.missingField topic path e)
  | _, _ => .ok none

def nameType (env : Environment) (vars : List (String × Ty)) (name : String) : Ty :=
  match vars.find? (·.1 == name) with
  | some (_, ty) => ty
  | none => if (env.aliasTopic? name).isSome then .only .message else .any

mutual
/-- The type of an expression under quantified variables, the innermost first. A variable has the
kinds of the elements of its domain. -/
def inferUnder (env : Environment) (vars : List (String × Ty)) : Expr → Except TypeError Ty
  | .vacuous => nodeType .vacuous []
  | .literal l => nodeType (.literal l) []
  | .this => nodeType .this []
  | .var name => .ok (env.nameType vars name)
  | .field base name => do
    let ty ← nodeType (.field base name) [← env.inferUnder vars base]
    return (← env.declared? vars (.field base name)).getD ty
  | .index base position => do
    nodeType (.index base position) [← env.inferUnder vars base, ← env.inferUnder vars position]
  | .call function argument => do
    nodeType (.call function argument) [← env.inferUnder vars argument]
  | .set members => do
    nodeType (.set members) (← env.inferAllUnder vars members)
  | .range lower upper excludeLower excludeUpper => do
    nodeType (.range lower upper excludeLower excludeUpper)
      [← env.inferUnder vars lower, ← env.inferUnder vars upper]
  | .unary op operand => do
    nodeType (.unary op operand) [← env.inferUnder vars operand]
  | .binary op left right => do
    nodeType (.binary op left right) [← env.inferUnder vars left, ← env.inferUnder vars right]
  | .quantified quantifier bound domain body => do
    let domainType ← env.inferUnder vars domain
    let bodyType ← env.inferUnder ((bound, .of domainType.elements) :: vars) body
    nodeType (.quantified quantifier bound domain body) [domainType, bodyType]

def inferAllUnder (env : Environment) (vars : List (String × Ty)) :
    List Expr → Except TypeError (List Ty)
  | [] => .ok []
  | e :: es => do
    return (← env.inferUnder vars e) :: (← env.inferAllUnder vars es)
end

def infer (env : Environment) (e : Expr) : Except TypeError Ty := env.inferUnder [] e

def checkCondition (env : Environment) (e : Expr) : Except TypeError Unit := do
  expect .condition (.only .bool) (← env.infer e) e

end Environment
end TopicSpec.Typing

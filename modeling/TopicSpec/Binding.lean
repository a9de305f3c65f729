import TopicSpec.Error
import TopicSpec.Specification

/-! # Binding

Which aliases a guard may refer to, and which variables it may bind.

The alias of the activator is visible to every other event, that of the trigger to the behaviour.
The trigger of a requirement may also refer to the behaviour that it precedes. The terminator sees
the activator alone.
-/

namespace TopicSpec
set_option autoImplicit false

namespace Expr

mutual
/-- Accepts an expression whose variables hide neither an alias nor a variable around them. -/
def checkShadowing (aliases bound : List String) : Expr → Except BindingError Unit
  | vacuous | literal _ | var _ | this => .ok ()
  | field base _ => base.checkShadowing aliases bound
  | index base position => do
    base.checkShadowing aliases bound
    position.checkShadowing aliases bound
  | call _ argument => argument.checkShadowing aliases bound
  | set members => checkShadowingAll aliases bound members
  | range lower upper _ _ => do
    lower.checkShadowing aliases bound
    upper.checkShadowing aliases bound
  | unary _ operand => operand.checkShadowing aliases bound
  | binary _ left right => do
    left.checkShadowing aliases bound
    right.checkShadowing aliases bound
  | quantified _ name domain body => do
    domain.checkShadowing aliases bound
    if aliases.contains name || bound.contains name then throw (.shadowedName name)
    body.checkShadowing aliases (name :: bound)

def checkShadowingAll (aliases bound : List String) : List Expr → Except BindingError Unit
  | [] => .ok ()
  | e :: es => do
    e.checkShadowing aliases bound
    checkShadowingAll aliases bound es
end

/-- Accepts a condition on its own: any name may stand for an event, but variables are not
hidden. -/
def checkBinding (condition : Expr) : Except BindingError Unit := condition.checkShadowing [] []

end Expr

namespace Event

/-- Accepts the given references if they are visible and not the event's own alias. -/
def checkReferences (event : Event) (visible : List String) :
    List String → Except BindingError Unit
  | [] => .ok ()
  | name :: names => do
    if event.alias? = some name then throw (.selfReference name event.topic)
    if !visible.contains name then throw (.undefinedEvent name)
    event.checkReferences visible names

/-- Accepts an event whose alias is none of the given. -/
def checkAlias (event : Event) (taken : List String) : Except BindingError Unit :=
  match event.alias? with
  | some name => if taken.contains name then .error (.duplicateAlias name) else .ok ()
  | none => .ok ()

/-- Accepts an event that refers to visible aliases alone, has an alias that is not taken, and
binds no variable of the name of a visible alias or of its own. -/
def checkBinding (event : Event) (visible taken : List String) : Except BindingError Unit := do
  event.checkReferences visible event.references
  event.checkAlias taken
  event.guard.checkShadowing (visible ++ event.alias?.toList) []

end Event

def Property.checkBinding (property : Property) : Except BindingError Unit := do
  let aliasOf (event : Option Event) : List String := (event.bind Event.alias?).toList
  let activator := aliasOf property.scope.activator?
  match property.scope.activator? with
  | some event => event.checkBinding [] []
  | none => pure ()
  match property.pattern with
  | .existence _ _ | .absence _ _ => pure ()
  | .response trigger _ _ | .prevention trigger _ _ => trigger.checkBinding activator activator
  | .requirement behaviour trigger _ =>
    trigger.checkBinding (activator ++ behaviour.alias?.toList) activator
  let available := activator ++ aliasOf property.pattern.trigger?
  property.pattern.behaviour.checkBinding available available
  match property.scope.terminator? with
  | some event => event.checkBinding activator activator
  | none => pure ()

/-- A guard on a single message sees no alias. -/
def Assumption.checkBinding (assumption : Assumption) : Except BindingError Unit :=
  match assumption.guard.references with
  | name :: _ => .error (.undefinedEvent name)
  | [] => assumption.guard.checkBinding

end TopicSpec

import TopicSpec.Double.Shortest
import TopicSpec.Expr.Render

/-! # Specifications

Events, scopes, patterns, properties and assumptions, and their texts. -/

namespace TopicSpec
set_option autoImplicit false

/-- The publication of a message on a topic, named by an alias, where the guard holds. -/
structure Event where
  topic : String
  alias? : Option String
  guard : Expr

namespace Event

def references (event : Event) : List String := event.guard.references

def render (event : Event) : String :=
  event.topic ++
    (match event.alias? with
    | some name => " as " ++ name
    | none => "") ++
    if event.guard.isVacuous then "" else " \x7b " ++ event.guard.render ++ " \x7d"

end Event

/-- The part of a trace over which a pattern has to hold. -/
inductive Scope where
  | global
  | after (activator : Event)
  | upTo (terminator : Event)
  | afterUntil (activator terminator : Event)

namespace Scope

def activator? : Scope → Option Event
  | after activator | afterUntil activator _ => some activator
  | _ => none

def terminator? : Scope → Option Event
  | upTo terminator | afterUntil _ terminator => some terminator
  | _ => none

def render : Scope → String
  | global => "globally"
  | after activator => "after " ++ activator.render
  | upTo terminator => "until " ++ terminator.render
  | afterUntil activator terminator =>
    "after " ++ activator.render ++ " until " ++ terminator.render

end Scope

/-- What has to happen, or must not, and within how many seconds; an infinite time is no bound. -/
inductive Pattern where
  | existence (behaviour : Event) (maxTime : Double)
  | absence (behaviour : Event) (maxTime : Double)
  | response (trigger behaviour : Event) (maxTime : Double)
  | prevention (trigger behaviour : Event) (maxTime : Double)
  | requirement (behaviour trigger : Event) (maxTime : Double)

namespace Pattern

def behaviour : Pattern → Event
  | existence behaviour _ | absence behaviour _ => behaviour
  | response _ behaviour _ | prevention _ behaviour _ => behaviour
  | requirement behaviour _ _ => behaviour

def trigger? : Pattern → Option Event
  | existence _ _ | absence _ _ => none
  | response trigger _ _ | prevention trigger _ _ | requirement _ trigger _ => some trigger

def maxTime : Pattern → Double
  | existence _ time | absence _ time => time
  | response _ _ time | prevention _ _ time | requirement _ _ time => time

def isBounded (pattern : Pattern) : Bool := pattern.maxTime.isFinite

/-- Safety patterns are violated by a finite trace. -/
def isSafety : Pattern → Bool
  | absence _ _ | prevention _ _ _ | requirement _ _ _ => true
  | _ => false

/-- Liveness patterns are violated by the end of a trace alone. -/
def isLiveness : Pattern → Bool
  | existence _ _ | response _ _ _ => true
  | _ => false

def renderEvents : Pattern → String
  | existence behaviour _ => "some " ++ behaviour.render
  | absence behaviour _ => "no " ++ behaviour.render
  | response trigger behaviour _ => trigger.render ++ " causes " ++ behaviour.render
  | prevention trigger behaviour _ => trigger.render ++ " forbids " ++ behaviour.render
  | requirement behaviour trigger _ => behaviour.render ++ " requires " ++ trigger.render

def renderBound (maxTime : Double) : String :=
  if maxTime.isFinite then " within " ++ String.ofList maxTime.render ++ "s" else ""

def render (pattern : Pattern) : String := pattern.renderEvents ++ renderBound pattern.maxTime

end Pattern

structure Property where
  scope : Scope
  pattern : Pattern

namespace Property

/-- The activator, the trigger, the behaviour and the terminator, those there are. -/
def events (property : Property) : List Event :=
  property.scope.activator?.toList ++ property.pattern.trigger?.toList ++
    [property.pattern.behaviour] ++ property.scope.terminator?.toList

def aliases (property : Property) : List (String × String) :=
  property.events.filterMap fun event => event.alias?.map (·, event.topic)

def render (property : Property) : String :=
  property.scope.render ++ ": " ++ property.pattern.render

end Property

/-- A restriction of the messages on a topic. -/
structure Assumption where
  topic : String
  guard : Expr

def Assumption.render (assumption : Assumption) : String :=
  assumption.topic ++ " \x7b " ++ assumption.guard.render ++ " \x7d"

end TopicSpec

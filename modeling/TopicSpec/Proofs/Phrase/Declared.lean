import TopicSpec.Proofs.Binding.Resolution
import TopicSpec.Proofs.Phrase.Stated
import TopicSpec.Proofs.Typing.FieldPath
import TopicSpec.Proofs.Typing.Visit

/-! # Fields of accepted guards

In a text that is accepted with a resolver, every field of a message on a known topic is declared
for this topic, and has been typed as it is declared.
-/

namespace TopicSpec
open Typing
set_option autoImplicit false

/-! ## Names of fields -/

namespace Expr

variable {e base found : Expr} {name : String} {outer inner scope : List String} {ty : Ty}

theorem Within.trans {middle : Expr} (hOuter : e.Within outer middle)
    (hInner : middle.Within inner found) : e.Within (outer ++ inner) found := by
  induction hOuter with
  | self => exact hInner
  | inside hPart _ ih =>
    rw [List.append_assoc]
    exact .inside hPart (ih hInner)

/-- No field has the empty name. -/
def FieldsNamed (e : Expr) : Prop :=
  ∀ scope base name, e.Within scope (.field base name) → name ≠ ""

theorem fieldsNamed_of_parts (hHere : ∀ base name, e = .field base name → name ≠ "")
    (hParts : ∀ part ∈ e.parts, part.2.FieldsNamed) : e.FieldsNamed := by
  intro scope base name hWithin
  rcases within_iff.mp hWithin with ⟨-, hSelf⟩ | ⟨part, hPart, inner, -, hInner⟩
  · exact hHere base name hSelf.symm
  · exact hParts part hPart inner base name hInner

theorem fieldsNamed_this : this.FieldsNamed :=
  fieldsNamed_of_parts (by simp) (by simp [parts, children])

theorem ne_empty_of_isName {word : String} (h : Scan.IsName word.toList) : word ≠ "" := by
  rintro rfl
  obtain ⟨⟨c, more, hWord, -, -⟩, -⟩ := h
  cases hWord

theorem Written.fieldsNamed (h : e.Written ty) : e.FieldsNamed := by
  induction h with
  | literal | var => exact fieldsNamed_of_parts (by simp) (by simp [parts, children])
  | ownField hName =>
    refine fieldsNamed_of_parts ?_ ?_
    · rintro _ _ ⟨⟩
      exact ne_empty_of_isName hName
    · simpa [parts, children] using fieldsNamed_this
  | field _ _ hName _ ih =>
    refine fieldsNamed_of_parts ?_ (by simpa [parts, children] using ih)
    rintro _ _ ⟨⟩
    exact ne_empty_of_isName hName
  | call _ _ _ ih | not _ _ ih | neg _ _ _ ih =>
    exact fieldsNamed_of_parts (by simp) (by simpa [parts, children] using ih)
  | index _ _ _ _ _ ihA ihB | range _ _ _ ihA ihB | binary _ _ _ ihA ihB
  | quantified _ _ _ _ ihA ihB =>
    exact fieldsNamed_of_parts (by simp) (by simpa [parts, children] using ⟨ihA, ihB⟩)
  | set _ _ _ ih =>
    refine fieldsNamed_of_parts (by simp) fun part hPart => ?_
    obtain ⟨m, hMember, rfl⟩ : ∃ m, m ∈ _ ∧ (none, Prod.fst m) = part := by
      simpa [parts, children] using hPart
    exact ih m hMember

end Expr

theorem Event.Written.fieldsNamed {event : Event} (h : event.Written) :
    event.guard.FieldsNamed := by
  rcases h with hVacuous | ⟨ty, hWritten⟩
  · rw [hVacuous]
    exact Expr.fieldsNamed_of_parts (by simp) (by simp [Expr.parts, Expr.children])
  · exact hWritten.fieldsNamed

/-! ## One guard -/

namespace Typing.Environment

variable {env : Environment} {resolver : Resolver} {vars : List (String × Ty)} {e base : Expr}
  {name topic : String} {root : Option String} {fields : List String} {ty : Ty}

/-- Inference comes to every subexpression that occurs in the expression. -/
def VisitsAll (env : Environment) (e : Expr) : Prop :=
  ∀ scope found, e.Within scope found →
    ∃ vars, env.Visits [] e vars found ∧ vars.map Prod.fst = scope.reverse

/-- The schema of the topic has the path of the fields, and inference gives the reference this
type. -/
def TypedAsDeclared (env : Environment) (resolver : Resolver) (topic : String)
    (fields : List String) (vars : List (String × Ty)) (e : Expr) : Prop :=
  ∃ type, resolver.fieldType? topic (".".intercalate fields) = some type ∧
    env.inferUnder vars e = .ok type.ty

theorem visitsAll_of_checkCondition (h : env.checkCondition e = .ok ()) : env.VisitsAll e := by
  intro scope found hWithin
  obtain ⟨ty, hInfer, -⟩ := ok_of_bind h
  obtain ⟨vars, hVisits, hNames⟩ := exists_visits hWithin hInfer
  exact ⟨vars, hVisits, by simpa using hNames⟩

theorem typedAsDeclared_of_visits (h : env.checkCondition e = .ok ()) (hNamed : e.FieldsNamed)
    (hResolver : env.resolver = some resolver) (hVisits : env.Visits [] e vars (.field base name))
    (hReaches : (Expr.field base name).Reaches root fields)
    (hTopic : env.knownTopic? resolver vars root = some topic) :
    env.TypedAsDeclared resolver topic fields vars (.field base name) := by
  -- An empty name at the front of a path would be lost when the names are joined.
  have hNames : "" ∉ fields := by
    intro hEmpty
    obtain ⟨scope, hWithin, -⟩ := hVisits.within
    obtain ⟨inner, hField⟩ := hReaches.field_within hEmpty
    exact hNamed _ inner "" (hWithin.trans hField) rfl
  obtain ⟨ty, hInfer, -⟩ := ok_of_bind h
  obtain ⟨found, hFound⟩ := hVisits.infer hInfer
  obtain ⟨baseType, hBase, hRest⟩ := ok_of_bind hFound
  obtain ⟨answer, hAnswer, hRest⟩ := ok_of_bind hRest
  obtain ⟨declared, hDeclared, hPure⟩ := ok_of_bind hRest
  obtain rfl := Except.ok.inj hPure
  simp only [declared?, hResolver, path?_of_reaches hReaches hNames, hTopic] at hDeclared
  split at hDeclared
  · rename_i type hType
    obtain rfl := Except.ok.inj hDeclared
    exact ⟨type, hType, hFound⟩
  · cases hDeclared

/-- A root that is not a variable where the reference stands is free in the whole. -/
theorem free_of_visits {env : Environment} (hVisits : env.Visits [] e vars base)
    (hReaches : base.Reaches (some name) fields) (hName : name ∉ vars.map Prod.fst) :
    e.Free name := by
  obtain ⟨scope, hWithin, hNames⟩ := hVisits.within
  refine ⟨scope ++ [], hWithin.trans hReaches.within, ?_⟩
  simpa [hNames] using hName

end Typing.Environment

/-! ## Whole texts -/

/-- In a text that is accepted with a resolver, inference comes to every occurrence of a field in a
guard. If the field is of the message at hand or of the event that an alias means, and the topic of
just this event is known, then its path is declared for the topic and has been given the declared
type. The fields in an assumption are those of its own message, or of variables. -/
theorem accepted_fields_are_declared (resolver : Resolver) (text : String) :
    (∀ property, Property.ofText (some resolver) text = .ok property →
      ∀ slot event, property.event? slot = some event →
        let env : Environment := ⟨some event.topic, property.aliases, some resolver⟩
        env.VisitsAll event.guard ∧
        ∀ vars base name root fields, env.Visits [] event.guard vars (.field base name) →
          (Expr.field base name).Reaches root fields →
          (root = none → resolver.knows event.topic = true →
            env.TypedAsDeclared resolver event.topic fields vars (.field base name)) ∧
          ∀ word, root = some word → word ∉ vars.map Prod.fst →
            ∃ other meant, property.Means slot word other meant ∧
              (resolver.knows meant.topic = true →
                env.TypedAsDeclared resolver meant.topic fields vars (.field base name))) ∧
    ∀ assumption, Assumption.ofText (some resolver) text = .ok assumption →
      let env : Environment := ⟨some assumption.topic, [], some resolver⟩
      env.VisitsAll assumption.guard ∧
      ∀ vars base name root fields, env.Visits [] assumption.guard vars (.field base name) →
        (Expr.field base name).Reaches root fields →
        (root = none → resolver.knows assumption.topic = true →
          env.TypedAsDeclared resolver assumption.topic fields vars (.field base name)) ∧
        ∀ word, root = some word → word ∈ vars.map Prod.fst := by
  constructor
  · intro property hText slot event hEvent env
    obtain ⟨hStated, hBinding, hConditions⟩ := Property.ofText_eq_ok_iff.mp hText
    have hNamed := (Property.written_of_stated hStated slot event hEvent).fieldsNamed
    have hCondition := hConditions event (Property.mem_events_of_event? hEvent)
    refine ⟨Environment.visitsAll_of_checkCondition hCondition, ?_⟩
    intro vars base name root fields hVisits hReaches
    constructor
    · rintro rfl hKnown
      apply Environment.typedAsDeclared_of_visits hCondition hNamed rfl hVisits hReaches
      simp [Environment.knownTopic?, hKnown]
    · rintro word rfl hWord
      have hFree := Environment.free_of_visits hVisits hReaches hWord
      obtain ⟨other, meant, hMeans⟩ := Property.means_of_free
        (Property.checkBinding_eq_ok_iff_disciplined.mp hBinding) hEvent hFree
      refine ⟨other, meant, hMeans, fun hKnown => ?_⟩
      apply Environment.typedAsDeclared_of_visits hCondition hNamed rfl hVisits hReaches
      rw [Environment.knownTopic?_eq, Environment.referent?_of_not_mem hWord, hMeans.aliasTopic?_eq]
      simp [hKnown]
  · intro assumption hText env
    obtain ⟨hStated, hBinding, hCondition⟩ := Assumption.ofText_eq_ok_iff.mp hText
    obtain ⟨ty, hWritten⟩ := Assumption.written_of_stated hStated
    refine ⟨Environment.visitsAll_of_checkCondition hCondition, ?_⟩
    intro vars base name root fields hVisits hReaches
    constructor
    · rintro rfl hKnown
      apply Environment.typedAsDeclared_of_visits hCondition hWritten.fieldsNamed rfl hVisits
        hReaches
      simp [Environment.knownTopic?, hKnown]
    · rintro word rfl
      by_contra hWord
      have hFree := Environment.free_of_visits hVisits hReaches hWord
      exact (Assumption.checkBinding_eq_ok_iff.mp hBinding).1 word hFree

/-- A resolver with two topics, of one declared field each. -/
def Resolver.lampAndDoor : Resolver where
  knows topic := topic == "lamp" || topic == "door"
  fieldType? topic path :=
    if topic == "lamp" && path == "on" || topic == "door" && path == "open" then some (.base .bool)
    else none

theorem lamp_field_is_declared : ∃ property other meant,
    Property.ofText (some Resolver.lampAndDoor) "after lamp as l: no door { @l.on }" =
      .ok property ∧
    property.Means .behaviour "l" other meant ∧
    ∃ type, Resolver.lampAndDoor.fieldType? meant.topic "on" = some type := by
  have hText : ((Property.ofText (some Resolver.lampAndDoor)
      "after lamp as l: no door \x7b @l.on \x7d").toOption.bind fun property =>
        match property.pattern.behaviour.guard with
        | .field (.var root) name => some (root, name, property.events.map Event.topic)
        | _ => none) = some ("l", "on", ["lamp", "door"]) := by decide +kernel
  cases hRead : Property.ofText (some Resolver.lampAndDoor)
      "after lamp as l: no door \x7b @l.on \x7d" with
  | error e =>
    rw [hRead] at hText
    cases hText
  | ok property =>
    rw [hRead] at hText
    simp only [Except.toOption, Option.bind_some] at hText
    split at hText
    · rename_i root name hGuard
      obtain ⟨rfl, rfl, hTopics⟩ : root = "l" ∧ name = "on" ∧
          property.events.map Event.topic = ["lamp", "door"] := by simpa using hText
      have hAccepted := (accepted_fields_are_declared _ _).1 property hRead .behaviour _ rfl
      rw [hGuard] at hAccepted
      obtain ⟨other, meant, hMeans, hDeclared⟩ :=
        (hAccepted.2 [] _ _ _ _ (.self [] _) (.field "on" (.var "l"))).2 "l" rfl (by simp)
      have hKnown : Resolver.lampAndDoor.knows meant.topic = true := by
        have hTopic : meant.topic ∈ ["lamp", "door"] :=
          hTopics ▸ List.mem_map_of_mem (Property.mem_events_of_event? hMeans.event)
        obtain hLamp | hDoor : meant.topic = "lamp" ∨ meant.topic = "door" := by simpa using hTopic
        · rw [hLamp]
          rfl
        · rw [hDoor]
          rfl
      obtain ⟨type, hType, -⟩ := hDeclared hKnown
      exact ⟨property, other, meant, rfl, hMeans, type, hType⟩
    · cases hText

end TopicSpec

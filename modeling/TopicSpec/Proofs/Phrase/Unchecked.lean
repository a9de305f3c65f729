import TopicSpec.Proofs.Phrase.Contract
import TopicSpec.Proofs.Phrase.Tree

/-! # What a text states

Schemas and the rules of binding come in at the root of a tree alone. What a text states, whether or
not it passes the check, can therefore be read without them; the text is read as this, or as the
error of the check.
-/

namespace TopicSpec
open Grammar
set_option autoImplicit false

/-! ## Below the root -/

/-- The productions of whole texts. -/
def Rule.isWhole : Rule → Bool
  | property | assumption | topLevelCondition => true
  | _ => false

def Grammar.Nonterminal.isWhole : Nonterminal → Bool
  | property | assumption | topLevelCondition => true
  | _ => false

theorem Grammar.Level.isWhole_operand (l : Level) : l.operand.isWhole = false := by
  cases l <;> rfl

theorem Grammar.Level.isWhole_rule (l : Level) : l.rule.isWhole = false := by
  cases l <;> rfl

namespace Phrase

variable {resolver : Option Resolver} {rule : Rule} {tree : SyntaxTree} {trees : List SyntaxTree}

theorem ofNode_eq (h : rule.isWhole = false) (phrases : List Phrase) :
    ofNode resolver rule phrases = ofNode none rule phrases := by
  cases rule with
  | property | assumption | topLevelCondition => cases h
  | _ => rfl

theorem ofTrees_congr (h : ∀ tree ∈ trees, ofTree resolver tree = ofTree none tree) :
    ofTrees resolver trees = ofTrees none trees := by
  induction trees with
  | nil => rfl
  | cons tree trees ih =>
    have hHead := h tree List.mem_cons_self
    have hTail := ih fun tree hTree => h tree (List.mem_cons_of_mem _ hTree)
    rw [ofTrees, ofTrees, hHead, hTail]

theorem ofTree_congr (hRule : rule.isWhole = false)
    (h : ∀ tree ∈ trees, ofTree resolver tree = ofTree none tree) :
    ofTree resolver (.node rule trees) = ofTree none (.node rule trees) := by
  rw [ofTree, ofTree, ofTrees_congr h]
  cases ofTrees none trees with
  | error e => rfl
  | ok phrases => exact ofNode_eq hRule phrases

theorem isWhole_of_mem {word : String} {table : List (Rule × String)}
    (h : (rule, word) ∈ table) (hTable : ∀ entry ∈ table, entry.1.isWhole = false) :
    rule.isWhole = false := hTable _ h

/-- The phrase of a part of a text does not depend on schemas. -/
theorem ofTree_eq_of_derives (resolver : Option Resolver) {n : Nonterminal} {s t : List Char}
    (h : Derives n tree s t) (hWhole : n.isWhole = false) :
    ofTree resolver tree = ofTree none tree := by
  induction h with
  | first _ ih => exact ih (Level.isWhole_operand _)
  | @link l _ _ _ _ _ _ _ _ _ _ _ _ _ _ _ _ ihLeft ihRight =>
    have hLeft := ihLeft rfl
    have hRight := ihRight l.isWhole_operand
    exact ofTree_congr l.isWhole_rule (by simp [hLeft, hRight, ofTree_leaf])
  | @lone l _ _ _ _ _ _ ih => exact ofTree_congr l.isWhole_rule (by simp [ih rfl])
  | chained _ _ ih | atom _ ih | parenthesized _ _ _ _ _ ih | referred _ ih => exact ih rfl
  | enumLiteral _ _ _ _ _ _ ih =>
    refine ofTree_congr rfl fun tree hTree => ?_
    obtain ⟨part, hPart, rfl⟩ := List.mem_map.mp hTree
    exact ih part hPart rfl
  | property | assumption | topLevelCondition => cases hWhole
  | numberConstant | boolean | string | number | variableReference | ownField | topic
  | globalScope => rfl
  | quantified _ ih | negation _ _ _ ih | value _ _ ih | negativeNumber _ _ _ ih
  | functionCall _ _ _ _ _ _ _ ih | fieldAccess _ _ _ ih | guard _ _ _ _ _ ih | message _ ih
  | messageAs _ _ _ _ _ ih | event _ ih | activator _ ih | terminator _ ih
  | afterScope _ _ _ _ ih | untilScope _ _ _ ih =>
    exact ofTree_congr rfl (by simp [ih rfl, SyntaxTree.token, ofTree_leaf])
  | quantification _ _ _ _ _ _ _ _ _ _ _ _ ihLeft ihRight
  | comparison _ _ _ _ _ _ ihLeft ihRight
  | rangeLiteral _ _ _ _ _ _ _ _ _ _ _ _ ihLeft ihRight
  | arrayAccess _ _ _ _ _ _ ihLeft ihRight | guardedEvent _ _ _ ihLeft ihRight
  | afterUntilScope _ _ _ _ _ _ _ ihLeft ihRight =>
    exact ofTree_congr rfl (by simp [ihLeft rfl, ihRight rfl, SyntaxTree.token, ofTree_leaf])
  | bound _ _ _ _ _ hUnit _ =>
    exact ofTree_congr (isWhole_of_mem hUnit (by decide)) (by simp [SyntaxTree.token, ofTree_leaf])
  | unaryPattern hRule _ _ _ ih =>
    exact ofTree_congr (isWhole_of_mem hRule (by decide)) (by simp [ih rfl])
  | boundedUnaryPattern hRule _ _ _ _ ihLeft ihRight
  | binaryPattern hRule _ _ _ _ _ ihLeft ihRight =>
    exact ofTree_congr (isWhole_of_mem hRule (by decide)) (by simp [ihLeft rfl, ihRight rfl])
  | boundedBinaryPattern hRule _ _ _ _ _ _ ihLeft ihRight ihLimit =>
    exact ofTree_congr (isWhole_of_mem hRule (by decide))
      (by simp [ihLeft rfl, ihRight rfl, ihLimit rfl])

theorem sense_of_derives {n : Nonterminal} {s t : List Char} {p : Phrase}
    (h : Derives n tree s t) (hPhrase : ofTree resolver tree = .ok p) : p.sense = n.sense :=
  (concludes_iff.mp (stands_of_derives h)).1 p hPhrase

end Phrase

/-! ## Whole texts -/

namespace SyntaxTree

def children : SyntaxTree → List SyntaxTree
  | leaf _ => []
  | node _ children => children

end SyntaxTree

/-- The property that a text states, before its bindings and the types of its guards are checked. -/
def Property.stated (text : String) : Except SpecError Property := do
  match ← Phrase.ofTrees none (← readTree .property text).children with
  | [.scope s, .pattern p] => return ⟨s, p⟩
  | _ => Phrase.refuse .property .scopeAndPattern

def Assumption.stated (text : String) : Except SpecError Assumption := do
  match ← Phrase.ofTrees none (← readTree .assumption text).children with
  | [.topic name, .guard condition] => return ⟨name, condition⟩
  | phrases => Phrase.refuse .assumption (.childCount [2] phrases.length)

def Expr.stated (text : String) : Except SpecError Expr := do
  match ← Phrase.ofTrees none (← readTree .predicate text).children with
  | [.expr condition _] => return condition
  | phrases => Phrase.refuse .topLevelCondition (.childCount [1] phrases.length)

/-- The same answer, or both texts are malformed. -/
def SameReading {α : Type} (r r' : Except SpecError α) : Prop :=
  r = r' ∨ (∃ e, r = .error (.malformed e)) ∧ ∃ e, r' = .error (.malformed e)

variable {resolver : Option Resolver} {text : String}

theorem derives_of_readTree {form : Form} {tree : SyntaxTree}
    (h : readTree form text = .ok tree) : Derives form.nonterminal tree text.toList [] :=
  SyntaxTree.derives_of_ofText (ok_of_mapError h)

theorem readTree_eq_ok_iff {form : Form} {tree : SyntaxTree} :
    readTree form text = .ok tree ↔ form.production text.toList = .accept tree [] := by
  rw [← Scan.whole_eq_ok_iff, readTree, SyntaxTree.ofText]
  constructor
  · exact ok_of_mapError
  · intro h
    rw [h, mapError_ok]

theorem readTree_cases (form : Form) (text : String) :
    (∃ tree, readTree form text = .ok tree) ∨ ∃ e, readTree form text = .error (.malformed e) := by
  unfold readTree
  cases SyntaxTree.ofText form text with
  | ok tree => exact .inl ⟨tree, rfl⟩
  | error e => exact .inr ⟨e, rfl⟩

theorem readTree_bind_congr {α : Type} {form : Form} {f g : SyntaxTree → Except SpecError α}
    (h : ∀ tree, Derives form.nonterminal tree text.toList [] → f tree = g tree) :
    (readTree form text >>= f) = (readTree form text >>= g) := by
  cases hRead : readTree form text with
  | error e => rfl
  | ok tree => exact h tree (derives_of_readTree hRead)

theorem Property.ofText_eq (resolver : Option Resolver) (text : String) :
    Property.ofText resolver text = do
      let property ← Property.stated text
      Phrase.checkProperty resolver property
      return property := by
  rw [Property.ofText, Property.stated, bind_assoc]
  apply readTree_bind_congr
  intro tree hTree
  cases hTree with
  | @property where_ what _ _ _ _ _ _ _ _ _ hScope _ _ _ hPattern _ =>
    have hScopeEq := Phrase.ofTree_eq_of_derives resolver hScope rfl
    have hPatternEq := Phrase.ofTree_eq_of_derives resolver hPattern rfl
    simp only [SyntaxTree.toProperty, SyntaxTree.children, Phrase.ofTree, Phrase.ofTrees,
      hScopeEq, hPatternEq]
    cases hP : Phrase.ofTree none where_ with
    | error e => rfl
    | ok p =>
      cases hQ : Phrase.ofTree none what with
      | error e => rfl
      | ok q =>
        obtain ⟨s, rfl⟩ := Phrase.eq_scope_of_sense (Phrase.sense_of_derives hScope hP)
        obtain ⟨pattern, rfl⟩ := Phrase.eq_pattern_of_sense (Phrase.sense_of_derives hPattern hQ)
        simp only [ok_bind, pure_bind, Phrase.ofNode, Phrase.ofProperty]
        cases Phrase.checkProperty resolver ⟨s, pattern⟩ <;> rfl

theorem Assumption.ofText_eq (resolver : Option Resolver) (text : String) :
    Assumption.ofText resolver text = do
      let assumption ← Assumption.stated text
      Phrase.checkAssumption resolver assumption
      return assumption := by
  rw [Assumption.ofText, Assumption.stated, bind_assoc]
  apply readTree_bind_congr
  intro tree hTree
  cases hTree with
  | @assumption name condition _ _ _ _ _ _ _ hName _ hGuard _ =>
    have hNameEq := Phrase.ofTree_eq_of_derives resolver hName rfl
    have hGuardEq := Phrase.ofTree_eq_of_derives resolver hGuard rfl
    simp only [SyntaxTree.toAssumption, SyntaxTree.children, Phrase.ofTree, Phrase.ofTrees,
      hNameEq, hGuardEq]
    cases hP : Phrase.ofTree none name with
    | error e => rfl
    | ok p =>
      cases hQ : Phrase.ofTree none condition with
      | error e => rfl
      | ok q =>
        obtain ⟨topic, rfl⟩ := Phrase.eq_topic_of_sense (Phrase.sense_of_derives hName hP)
        obtain ⟨guard, rfl⟩ := Phrase.eq_guard_of_sense (Phrase.sense_of_derives hGuard hQ)
        simp only [ok_bind, pure_bind, Phrase.ofNode, Phrase.ofAssumption, Phrase.toTopic,
          Phrase.toGuard]
        cases Phrase.checkAssumption resolver ⟨topic, guard⟩ <;> rfl

theorem Property.ofText_eq_ok_iff {property : Property} :
    Property.ofText resolver text = .ok property ↔
      Property.stated text = .ok property ∧ property.checkBinding = .ok () ∧
        ∀ event ∈ property.events,
          (Typing.Environment.mk (some event.topic) property.aliases resolver).checkCondition
            event.guard = .ok () := by
  rw [Property.ofText_eq]
  constructor
  · intro h
    obtain ⟨found, hStated, hRest⟩ := ok_of_bind h
    obtain ⟨hCheck, hPure⟩ := seq_eq_ok_iff.mp hRest
    obtain rfl := Except.ok.inj hPure
    obtain ⟨hBinding, hConditions⟩ := seq_eq_ok_iff.mp hCheck
    exact ⟨hStated, ok_of_mapError hBinding,
      fun event hEvent => ok_of_mapError (forM_eq_ok_iff.mp hConditions event hEvent)⟩
  · rintro ⟨hStated, hBinding, hConditions⟩
    rw [hStated, ok_bind, seq_eq_ok_iff]
    refine ⟨seq_eq_ok_iff.mpr ⟨congrArg (Except.mapError SpecError.binding) hBinding, ?_⟩, rfl⟩
    exact forM_eq_ok_iff.mpr fun event hEvent =>
      congrArg (Except.mapError SpecError.typing) (hConditions event hEvent)

theorem Assumption.ofText_eq_ok_iff {assumption : Assumption} :
    Assumption.ofText resolver text = .ok assumption ↔
      Assumption.stated text = .ok assumption ∧ assumption.checkBinding = .ok () ∧
        (Typing.Environment.mk (some assumption.topic) [] resolver).checkCondition
          assumption.guard = .ok () := by
  rw [Assumption.ofText_eq]
  constructor
  · intro h
    obtain ⟨found, hStated, hRest⟩ := ok_of_bind h
    obtain ⟨hCheck, hPure⟩ := seq_eq_ok_iff.mp hRest
    obtain rfl := Except.ok.inj hPure
    obtain ⟨hBinding, hCondition⟩ := seq_eq_ok_iff.mp hCheck
    exact ⟨hStated, ok_of_mapError hBinding, ok_of_mapError hCondition⟩
  · rintro ⟨hStated, hBinding, hCondition⟩
    rw [hStated, ok_bind, seq_eq_ok_iff]
    exact ⟨seq_eq_ok_iff.mpr ⟨congrArg (Except.mapError SpecError.binding) hBinding,
      congrArg (Except.mapError SpecError.typing) hCondition⟩, rfl⟩

theorem Expr.ofText_eq (resolver : Option Resolver) (text : String) :
    Expr.ofText resolver text = do
      let condition ← Expr.stated text
      condition.checkBinding
      (Typing.Environment.withResolver resolver).checkCondition condition
      return condition := by
  rw [Expr.ofText, Expr.stated, bind_assoc]
  apply readTree_bind_congr
  intro tree hTree
  cases hTree with
  | @topLevelCondition condition _ _ _ _ _ hCondition _ =>
    have hConditionEq := Phrase.ofTree_eq_of_derives resolver hCondition rfl
    simp only [SyntaxTree.toCondition, SyntaxTree.children, Phrase.ofTree, Phrase.ofTrees,
      hConditionEq]
    cases hP : Phrase.ofTree none condition with
    | error e => rfl
    | ok p =>
      obtain ⟨e, ty, rfl⟩ := Phrase.eq_expr_of_sense (Phrase.sense_of_derives hCondition hP)
      simp only [ok_bind, pure_bind, Phrase.ofNode, Phrase.ofTopLevelCondition, Phrase.toExpr]
      cases e.checkBinding with
      | error error => rfl
      | ok =>
        cases (Typing.Environment.withResolver resolver).checkCondition e <;> rfl

theorem Expr.ofText_eq_ok_iff {condition : Expr} :
    Expr.ofText resolver text = .ok condition ↔
      Expr.stated text = .ok condition ∧ condition.checkBinding = .ok () ∧
        (Typing.Environment.withResolver resolver).checkCondition condition = .ok () := by
  rw [Expr.ofText_eq]
  constructor
  · intro h
    obtain ⟨found, hStated, hRest⟩ := ok_of_bind h
    obtain ⟨hBinding, hRest⟩ := seq_eq_ok_iff.mp hRest
    obtain ⟨hCondition, hPure⟩ := seq_eq_ok_iff.mp hRest
    obtain rfl := Except.ok.inj hPure
    exact ⟨hStated, ok_of_mapError hBinding, ok_of_mapError hCondition⟩
  · rintro ⟨hStated, hBinding, hCondition⟩
    rw [hStated, ok_bind, seq_eq_ok_iff]
    refine ⟨congrArg (Except.mapError SpecError.binding) hBinding, ?_⟩
    exact seq_eq_ok_iff.mpr ⟨congrArg (Except.mapError SpecError.typing) hCondition, rfl⟩

end TopicSpec

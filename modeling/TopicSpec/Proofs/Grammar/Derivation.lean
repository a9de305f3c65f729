import TopicSpec.Grammar.Specification
import TopicSpec.Proofs.Scan.Lexeme

/-! # Derivations

The grammar as a relation between a tree and the two places of a text where it begins and where it
ends. A place is the text that follows it. Alternatives have no order here, and nothing is
committed or taken back. -/

namespace TopicSpec.Grammar
open Scan
set_option autoImplicit false

/-- A fixed word or mark between two places. A word is not the beginning of a longer one. -/
def Fixed (word : String) (s t : List Char) : Prop :=
  s = word.toList ++ t ∧ (word.toList.all isWordChar = true → StopsWord t)

/-- A word of a language between two places. -/
def Lexeme (language : List Char → Prop) (word s t : List Char) : Prop :=
  s = word ++ t ∧ language word

/-- The levels of precedence whose operators are chained. -/
inductive Level where
  | condition
  | disjunction
  | conjunction
  | expr
  | term
  | factor
  deriving DecidableEq

/-- What a part of a text may be derived from. -/
inductive Nonterminal where
  | property
  | assumption
  | topLevelCondition
  | scope
  | activator
  | terminator
  | pattern
  | bound
  | event
  | message
  | topic
  | guard
  | quantification
  | level (level : Level)
  /-- The front part of a chain, and whether an operator stands in it. -/
  | front (level : Level) (linked : Bool)
  | logicAtom
  | atomicCondition
  | operand
  /-- A reference, and whether it ends with an index. -/
  | reference (indexed : Bool)
  deriving DecidableEq

namespace Level

def rule : Level → Rule
  | condition => .condition
  | disjunction => .disjunction
  | conjunction => .conjunction
  | expr => .expr
  | term => .term
  | factor => .factor

def operand : Level → Nonterminal
  | condition => .level .disjunction
  | disjunction => .level .conjunction
  | conjunction => .logicAtom
  | expr => .level .term
  | term => .level .factor
  | factor => .operand

def operators : Level → List String
  | condition => ["implies", "iff"]
  | disjunction => ["or"]
  | conjunction => ["and"]
  | expr => ["+", "-"]
  | term => ["*", "/"]
  | factor => ["**"]

end Level

def comparisons : List String := ["!=", "<=", ">=", "=", "<", ">", "in"]

/-- A part of a text with its tree. -/
structure Part where
  tree : SyntaxTree
  start : List Char
  stop : List Char

/-- Each of the parts follows a comma, with gaps around it. -/
inductive Listed : List Char → List Part → List Char → Prop where
  | nil (s : List Char) : Listed s [] s
  | cons {s a b t : List Char} {part : Part} {parts : List Part} :
    Gap s a → Fixed "," a b → Gap b part.start → Listed part.stop parts t →
    Listed s (part :: parts) t

/-- A tree of a nonterminal between two places of a text. -/
inductive Derives : Nonterminal → SyntaxTree → List Char → List Char → Prop where
  -- Conditions
  | first {l : Level} {tree : SyntaxTree} {s t : List Char} :
    Derives l.operand tree s t → Derives (.front l false) tree s t
  | link {l : Level} {linked : Bool} {left right : SyntaxTree} {op : String}
      {s a b c d t : List Char} :
    Derives (.front l linked) left s a → Gap a b → op ∈ l.operators → Fixed op b c → Gap c d →
    Derives l.operand right d t →
    Derives (.front l true) (.node l.rule [left, .leaf ⟨.operator, op⟩, right]) s t
  | lone {l : Level} {tree : SyntaxTree} {s a t : List Char} :
    Derives (.front l false) tree s a → Gap a t → Derives (.level l) (.node l.rule [tree]) s t
  | chained {l : Level} {tree : SyntaxTree} {s a t : List Char} :
    Derives (.front l true) tree s a → Gap a t → Derives (.level l) tree s t
  | quantified {tree : SyntaxTree} {s t : List Char} :
    Derives .quantification tree s t → Derives (.level .condition) (.node .condition [tree]) s t
  | quantification {word : String} {name : List Char} {domain body : SyntaxTree}
      {s a b c d e f g h i j t : List Char} :
    word ∈ ["forall", "exists"] → Fixed word s a → Gap a b → Lexeme IsName name b c → Gap c d →
    Fixed "in" d e → Gap e f → Derives .operand domain f g → Gap g h → Fixed ":" h i → Gap i j →
    Derives (.level .condition) body j t →
    Derives .quantification
      (.node .quantification [.leaf ⟨.quantifier, word⟩, .token .name name, domain, body]) s t
  | negation {tree : SyntaxTree} {s a b t : List Char} :
    Fixed "not" s a → Gap a b → Derives .logicAtom tree b t →
    Derives .logicAtom (.node .negation [.leaf ⟨.operator, "not"⟩, tree]) s t
  | atom {tree : SyntaxTree} {s t : List Char} :
    Derives .atomicCondition tree s t → Derives .logicAtom tree s t
  | value {tree : SyntaxTree} {s a t : List Char} :
    Derives (.level .expr) tree s a → Gap a t →
    Derives .atomicCondition (.node .atomicCondition [tree]) s t
  | comparison {left right : SyntaxTree} {op : String} {s a b c d t : List Char} :
    Derives (.level .expr) left s a → Gap a b → op ∈ comparisons → Fixed op b c → Gap c d →
    Derives (.level .expr) right d t →
    Derives .atomicCondition (.node .atomicCondition [left, .leaf ⟨.operator, op⟩, right]) s t
  -- Operands
  | negativeNumber {tree : SyntaxTree} {s a b t : List Char} :
    Fixed "-" s a → Gap a b → Derives .operand tree b t →
    Derives .operand (.node .negativeNumber [.leaf ⟨.operator, "-"⟩, tree]) s t
  | parenthesized {tree : SyntaxTree} {s a b c d t : List Char} :
    Fixed "(" s a → Gap a b → Derives (.level .condition) tree b c → Gap c d → Fixed ")" d t →
    Derives .operand tree s t
  | numberConstant {word : String} {s t : List Char} :
    word ∈ ["PI", "INF", "NAN"] → Fixed word s t →
    Derives .operand (.node .numberConstant [.leaf ⟨.constant, word⟩]) s t
  | boolean {word : String} {s t : List Char} :
    word ∈ ["True", "False"] → Fixed word s t →
    Derives .operand (.node .boolean [.leaf ⟨.boolean, word⟩]) s t
  | string {word s t : List Char} :
    Lexeme IsQuoted word s t → Derives .operand (.node .string [.token .string word]) s t
  | number {word s t : List Char} :
    Lexeme IsNumber word s t → Derives .operand (.node .number [.token .number word]) s t
  | enumLiteral {member : Part} {more : List Part} {s a b c t : List Char} :
    Fixed "\x7b" s a → Gap a member.start →
    (∀ part ∈ member :: more, Derives (.level .expr) part.tree part.start part.stop) →
    Listed member.stop more b → Gap b c → Fixed "\x7d" c t →
    Derives .operand (.node .enumLiteral ((member :: more).map Part.tree)) s t
  | rangeLiteral {left separator right : String} {lower upper : SyntaxTree}
      {s a b c d e f g h t : List Char} :
    left ∈ ["![", "["] → Fixed left s a → Gap a b → Derives (.level .expr) lower b c → Gap c d →
    separator ∈ ["to", ","] → Fixed separator d e → Gap e f → Derives (.level .expr) upper f g →
    Gap g h → right ∈ ["]!", "]"] → Fixed right h t →
    Derives .operand (.node .rangeLiteral
      [.leaf ⟨.leftDelimiter, left⟩, lower, upper, .leaf ⟨.rightDelimiter, right⟩]) s t
  | functionCall {name : List Char} {argument : SyntaxTree} {s a b c d e f t : List Char} :
    Lexeme IsName name s a → Gap a b → Fixed "(" b c → Gap c d →
    Derives (.level .condition) argument d e → Gap e f → Fixed ")" f t →
    Derives .operand (.node .functionCall [.token .name name, argument]) s t
  | referred {indexed : Bool} {tree : SyntaxTree} {s t : List Char} :
    Derives (.reference indexed) tree s t → Derives .operand tree s t
  | variableReference {name s a t : List Char} :
    Fixed "@" s a → Lexeme IsIdentifier name a t →
    Derives (.reference false) (.node .variableReference [.token .name name]) s t
  | ownField {name s t : List Char} :
    Lexeme IsName name s t → Derives (.reference false) (.node .ownField [.token .name name]) s t
  | fieldAccess {indexed : Bool} {base : SyntaxTree} {name s a b t : List Char} :
    Derives (.reference indexed) base s a → Fixed "." a b → Lexeme IsName name b t →
    Derives (.reference false) (.node .fieldAccess [base, .token .name name]) s t
  | arrayAccess {base position : SyntaxTree} {s a b c d e t : List Char} :
    Derives (.reference false) base s a → Fixed "[" a b → Gap b c →
    Derives (.level .expr) position c d → Gap d e → Fixed "]" e t →
    Derives (.reference true) (.node .arrayAccess [base, position]) s t
  -- Events
  | topic {name s t : List Char} :
    Lexeme IsTopicName name s t → Derives .topic (.node .topicName [.token .topicName name]) s t
  | guard {condition : SyntaxTree} {s a b c d t : List Char} :
    Fixed "\x7b" s a → Gap a b → Derives (.level .condition) condition b c → Gap c d →
    Fixed "\x7d" d t → Derives .guard (.node .guard [condition]) s t
  | message {name : SyntaxTree} {s t : List Char} :
    Derives .topic name s t → Derives .message (.node .message [name]) s t
  | messageAs {name : SyntaxTree} {word s a b c d t : List Char} :
    Derives .topic name s a → Gap a b → Fixed "as" b c → Gap c d → Lexeme IsIdentifier word d t →
    Derives .message (.node .message [name, .token .name word]) s t
  | event {message : SyntaxTree} {s t : List Char} :
    Derives .message message s t → Derives .event (.node .event [message]) s t
  | guardedEvent {message condition : SyntaxTree} {s a b t : List Char} :
    Derives .message message s a → Gap a b → Derives .guard condition b t →
    Derives .event (.node .event [message, condition]) s t
  -- Scopes and patterns
  | activator {e : SyntaxTree} {s t : List Char} :
    Derives .event e s t → Derives .activator (.node .activator [e]) s t
  | terminator {e : SyntaxTree} {s t : List Char} :
    Derives .event e s t → Derives .terminator (.node .terminator [e]) s t
  | globalScope {s t : List Char} :
    Fixed "globally" s t → Derives .scope (.node .globalScope []) s t
  | afterScope {start : SyntaxTree} {s a b c t : List Char} :
    Fixed "after" s a → Gap a b → Derives .activator start b c → Gap c t →
    Derives .scope (.node .afterUntil [start]) s t
  | afterUntilScope {start stop : SyntaxTree} {s a b c d e f t : List Char} :
    Fixed "after" s a → Gap a b → Derives .activator start b c → Gap c d → Fixed "until" d e →
    Gap e f → Derives .terminator stop f t →
    Derives .scope (.node .afterUntil [start, stop]) s t
  | untilScope {stop : SyntaxTree} {s a b t : List Char} :
    Fixed "until" s a → Gap a b → Derives .terminator stop b t →
    Derives .scope (.node .untilScope [stop]) s t
  | bound {rule : Rule} {amount : List Char} {unit : String} {s a b c d e t : List Char} :
    Gap s a → Fixed "within" a b → Gap b c → Lexeme IsNumber amount c d → Gap d e →
    (rule, unit) ∈ [(.timeAmount, "ms"), (.timeAmount, "s"), (.frequency, "hz")] →
    Fixed unit e t →
    Derives .bound (.node rule [.token .number amount, .leaf ⟨.unit, unit⟩]) s t
  | unaryPattern {rule : Rule} {word : String} {behaviour : SyntaxTree} {s a b t : List Char} :
    (rule, word) ∈ [(.existence, "some"), (.absence, "no")] → Fixed word s a → Gap a b →
    Derives .event behaviour b t → Derives .pattern (.node rule [behaviour]) s t
  | boundedUnaryPattern {rule : Rule} {word : String} {behaviour limit : SyntaxTree}
      {s a b c t : List Char} :
    (rule, word) ∈ [(.existence, "some"), (.absence, "no")] → Fixed word s a → Gap a b →
    Derives .event behaviour b c → Derives .bound limit c t →
    Derives .pattern (.node rule [behaviour, limit]) s t
  | binaryPattern {rule : Rule} {word : String} {left right : SyntaxTree}
      {s a b c d t : List Char} :
    (rule, word) ∈ [(.response, "causes"), (.prevention, "forbids"), (.requirement, "requires")] →
    Derives .event left s a → Gap a b → Fixed word b c → Gap c d → Derives .event right d t →
    Derives .pattern (.node rule [left, right]) s t
  | boundedBinaryPattern {rule : Rule} {word : String} {left right limit : SyntaxTree}
      {s a b c d e t : List Char} :
    (rule, word) ∈ [(.response, "causes"), (.prevention, "forbids"), (.requirement, "requires")] →
    Derives .event left s a → Gap a b → Fixed word b c → Gap c d → Derives .event right d e →
    Derives .bound limit e t → Derives .pattern (.node rule [left, right, limit]) s t
  -- Whole texts
  | property {where_ what : SyntaxTree} {s a b c d e f t : List Char} :
    Gap s a → Derives .scope where_ a b → Gap b c → Fixed ":" c d → Gap d e →
    Derives .pattern what e f → Gap f t → Derives .property (.node .property [where_, what]) s t
  | assumption {name condition : SyntaxTree} {s a b c d t : List Char} :
    Gap s a → Derives .topic name a b → Gap b c → Derives .guard condition c d → Gap d t →
    Derives .assumption (.node .assumption [name, condition]) s t
  | topLevelCondition {tree : SyntaxTree} {s a b t : List Char} :
    Gap s a → Derives (.level .condition) tree a b → Gap b t →
    Derives .topLevelCondition (.node .topLevelCondition [tree]) s t

end TopicSpec.Grammar

import TopicSpec.Session
import TopicSpec.Main
import TopicSpec.Proofs.Batch.Rerun
import TopicSpec.Proofs.Binding.Resolution
import TopicSpec.Proofs.Grammar.Layout
import TopicSpec.Proofs.Grammar.Yield
import TopicSpec.Proofs.Phrase.Contract
import TopicSpec.Proofs.Phrase.Declared
import TopicSpec.Proofs.Phrase.Forms
import TopicSpec.Proofs.Phrase.Restriction
import TopicSpec.Proofs.Phrase.Skeleton
import TopicSpec.Proofs.Session.Check
import TopicSpec.Proofs.Grammar.Precedence
import TopicSpec.Proofs.Phrase.BoundText
import TopicSpec.Proofs.Phrase.TimeLimit
import TopicSpec.Proofs.Typing.Narrowing
import TopicSpec.Proofs.Phrase.TopicNames
import TopicSpec.Proofs.Typing.Hygiene
import TopicSpec.Proofs.Phrase.Soundness
import TopicSpec.Proofs.Schema.Lookup
import TopicSpec.Proofs.Schema.Reachable
import TopicSpec.Proofs.Phrase.Parentheses
import TopicSpec.Proofs.Config.FirstFault
import TopicSpec.Proofs.Config.Validation
import TopicSpec.Proofs.Binding.Order
import TopicSpec.Proofs.Phrase.Shape
import TopicSpec.Proofs.Config.Directives
import TopicSpec.Proofs.Phrase.SignedInteger
import TopicSpec.Proofs.Grammar.Termination
import TopicSpec.Proofs.Scan.LongestMatch

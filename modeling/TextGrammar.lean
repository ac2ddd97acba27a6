import TextGrammar.Encoding.Error
import TextGrammar.Encoding.Pattern
import TextGrammar.Main
import TextGrammar.Tree.Traversal
import TextGrammar.Walk.Dictionary
import TextGrammar.Proofs.Walk.Contract
import TextGrammar.Proofs.Checked
import TextGrammar.Proofs.Expression.Kinds
import TextGrammar.Proofs.Grammar.Compiled
import TextGrammar.Proofs.Tree.Layout
import TextGrammar.Proofs.Parse.Progress
import TextGrammar.Proofs.Parse.Resolution
import TextGrammar.Proofs.Pattern.Extent
import TextGrammar.Proofs.Grammar.Derivation
import TextGrammar.Proofs.Parse.Contract
import TextGrammar.Proofs.Parse.Verdict
import TextGrammar.Proofs.Parse.Soundness
import TextGrammar.Proofs.Parse.Nesting
import TextGrammar.Proofs.Walk.Likeness
import TextGrammar.Proofs.Parse.Growth
import TextGrammar.Proofs.Parse.Memory
import TextGrammar.Proofs.Parse.Memoization
import TextGrammar.Proofs.Grammar.Closed
import TextGrammar.Proofs.Parse.Names
import TextGrammar.Proofs.Walk.Rollback
import TextGrammar.Proofs.Parse.Transaction
import TextGrammar.Proofs.Expression.Derivation
import TextGrammar.Proofs.Expression.Unambiguity
import TextGrammar.Proofs.Outline.Marks
import TextGrammar.Proofs.Expression.Reading
import TextGrammar.Proofs.Expression.Acceptance
import TextGrammar.Proofs.Expression.Digits
import TextGrammar.Proofs.Expression.Compilation
import TextGrammar.Proofs.Pattern.Reading
import TextGrammar.Proofs.Pattern.WellFormed
import TextGrammar.Proofs.Pattern.Printing
import TextGrammar.Proofs.Pattern.RoundTrip
import TextGrammar.Proofs.Pattern.Denotation
import TextGrammar.Proofs.Walk.Ends
import TextGrammar.Proofs.Parse.Discipline
import TextGrammar.Proofs.Parse.Records
import TextGrammar.Lexer.Cursor
import TextGrammar.Proofs.Lexer.Partition
import TextGrammar.Proofs.Parse.Limit
import TextGrammar.Proofs.Parse.Reachable
import TextGrammar.Proofs.Parse.LeftRecursion
import TextGrammar.Proofs.Pattern.Suffix
import TextGrammar.Proofs.Parse.Leading
import TextGrammar.Proofs.Outline.Joining
import TextGrammar.Proofs.Parse.Recall
import TextGrammar.Proofs.Pattern.Blame
import TextGrammar.Proofs.Pattern.Composition
import TextGrammar.Proofs.Pattern.Unfolding
import TextGrammar.Proofs.Walk.Assertion
import TextGrammar.Proofs.Pattern.Captures
import TextGrammar.Proofs.Parse.Attempts
import TextGrammar.Proofs.Parse.Failures
import TextGrammar.Proofs.Parse.Furthest
import TextGrammar.Proofs.Pattern.Sets
import TextGrammar.Proofs.Expression.Scanner
import TextGrammar.Proofs.Expression.Blame
import TextGrammar.Proofs.Parse.Sugar
import TextGrammar.Proofs.Parse.Locality
import TextGrammar.Proofs.Encoding.RoundTrip
import TextGrammar.Proofs.Tree.Transforming

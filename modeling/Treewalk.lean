import Treewalk.Main
import Treewalk.Session.Override
import Treewalk.Session.Trace
import Treewalk.Proofs.Grammar.Phrase
import Treewalk.Proofs.Grammar.Reader
import Treewalk.Proofs.Tree.Relabel
import Treewalk.Proofs.Grammar.Soundness.Expression
import Treewalk.Proofs.Grammar.Soundness.Statement
import Treewalk.Proofs.Grammar.Completeness.Accepting
import Treewalk.Proofs.Grammar.Completeness.Noting
import Treewalk.Proofs.Grammar.Relaxed.Phrase
import Treewalk.Proofs.Grammar.Relaxed.Expression
import Treewalk.Proofs.Grammar.Relaxed.Statement
import Treewalk.Proofs.Grammar.Relaxed.Embedding
import Treewalk.Proofs.Grammar.Completeness.Statement
import Treewalk.Proofs.Grammar.NearestElse
import Treewalk.Proofs.Grammar.Acceptance
import Treewalk.Proofs.Grammar.Relaxed.Faults
import Treewalk.Proofs.Scope.Twin
import Treewalk.Proofs.Scope.Linked
import Treewalk.Proofs.Evaluation.Moment
import Treewalk.Proofs.Evaluation.Pair
import Treewalk.Proofs.Evaluation.Stores
import Treewalk.Proofs.Evaluation.Runs
import Treewalk.Proofs.Evaluation.Access
import Treewalk.Proofs.Evaluation.Steps
import Treewalk.Proofs.Evaluation.Declarations
import Treewalk.Proofs.Evaluation.Lockstep
import Treewalk.Proofs.Evaluation.Visits
import Treewalk.Proofs.Scope.Placed
import Treewalk.Proofs.Scope.Sites
import Treewalk.Proofs.Scope.Linking
import Treewalk.Proofs.Grammar.Numbering.Expression
import Treewalk.Proofs.Grammar.Numbering.Statement
import Treewalk.Proofs.Grammar.Named
import Treewalk.Proofs.Lexing.Names
import Treewalk.Proofs.Scope.Declared
import Treewalk.Proofs.Scope.Renaming
import Treewalk.Proofs.Scope.Renumbered
import Treewalk.Proofs.Lexing.Munch
import Treewalk.Proofs.Session.Depths
import Treewalk.Proofs.Session.Receivers
import Treewalk.Proofs.Session.Rejection
import Treewalk.Proofs.Session.Repetition
import Treewalk.Proofs.Session.Renaming
import Treewalk.Proofs.Session.Concatenation
import Treewalk.Proofs.Evaluation.Composed
import Treewalk.Proofs.Session.CurrentFrame
import Treewalk.Proofs.Evaluation.Truncated
import Treewalk.Proofs.Session.Truncated
import Treewalk.Proofs.Scope.Outline
import Treewalk.Proofs.Scope.Rules
import Treewalk.Proofs.Scope.Spots
import Treewalk.Proofs.Scope.Walk
import Treewalk.Proofs.Session.Violations
import Treewalk.Proofs.Session.NearestDeclaration
import Treewalk.Proofs.Grammar.Composition
import Treewalk.Proofs.Session.InternalFaults
import Treewalk.Proofs.Session.Returns
import Treewalk.Proofs.Session.Chains
import Treewalk.Proofs.Grammar.Numbering.Sequence
import Treewalk.Proofs.Grammar.Script
import Treewalk.Proofs.Grammar.Independence
import Treewalk.Proofs.Grammar.FaultCount
import Treewalk.Proofs.Grammar.Positions
import Treewalk.Proofs.Grammar.Resumption
import Treewalk.Proofs.Scope.Balance
import Treewalk.Proofs.Lexing.Lines
import Treewalk.Proofs.Lexing.Rescan
import Treewalk.Proofs.Lexing.Bounds
import Treewalk.Proofs.Store.Search
import Treewalk.Proofs.Evaluation.ClassDeclaration
import Treewalk.Proofs.Session.ClassDeclarations
import Treewalk.Proofs.Evaluation.Arguments
import Treewalk.Proofs.Session.Arguments
import Treewalk.Proofs.Evaluation.Discipline
import Treewalk.Proofs.Evaluation.Outcomes
import Treewalk.Proofs.Evaluation.Initializers
import Treewalk.Proofs.Session.Construction
import Treewalk.Proofs.Grammar.Lines
import Treewalk.Proofs.Grammar.Loops
import Treewalk.Proofs.CommandLine.Prompt
import Treewalk.Proofs.Evaluation.PrintedNumbers
import Treewalk.Proofs.Session.Assignments
import Treewalk.Proofs.Grammar.Rendering

import PhpCheck.Token.Lookahead
import PhpCheck.Token.Precedence
import PhpCheck.Tree.Node
import PhpCheck.Grammar.Literal
import PhpCheck.Grammar.Declaration
import PhpCheck.Grammar.File
import PhpCheck.Types.Equality
import PhpCheck.Types.Print
import PhpCheck.Types.Matches
import PhpCheck.Types.Join
import PhpCheck.Types.Union
import PhpCheck.Table
import PhpCheck.Registry.Class
import PhpCheck.Registry.Basic
import PhpCheck.Registry.Ancestry
import PhpCheck.Registry.Lookup
import PhpCheck.Registry.Traits
import PhpCheck.Scope.Env
import PhpCheck.Scope.Narrowing
import PhpCheck.Scope.Names
import PhpCheck.Scope.Basic
import PhpCheck.Text.Letter
import PhpCheck.Numeric.Read
import PhpCheck.Doc.TypeExpr
import PhpCheck.Doc.Resolve
import PhpCheck.Doc.Comment
import PhpCheck.Builtin.Functions
import PhpCheck.Builtin.Signature
import PhpCheck.Builtin.Classes
import PhpCheck.Builtin.Basic
import PhpCheck.Path
import PhpCheck.Report.Kind
import PhpCheck.Config.Basic
import PhpCheck.Report.Basic
import PhpCheck.Toml.Moment
import PhpCheck.Toml.Value
import PhpCheck.Toml.Scalar
import PhpCheck.Toml.Read
import PhpCheck.Config.Decode
import PhpCheck.Loader
import PhpCheck.Session.Basic
import PhpCheck.Check.Flow
import PhpCheck.Check.Monad
import PhpCheck.Check.Operator
import PhpCheck.Check.Element
import PhpCheck.Check.Literal
import PhpCheck.Check.Rules
import PhpCheck.Check.Condition
import PhpCheck.Check.Access
import PhpCheck.Check.Call
import PhpCheck.Check.Expression
import PhpCheck.Check.Loop
import PhpCheck.Check.Naming
import PhpCheck.Check.Statement
import PhpCheck.Check.Function
import PhpCheck.Check.Class
import PhpCheck.Check.Hoist
import PhpCheck.Check.Visit
import PhpCheck.Session.Run
import PhpCheck.Project.FileTree
import PhpCheck.Project.Basic
import PhpCheck.Proofs.Tables
import PhpCheck.Proofs.Types.Matching
import PhpCheck.Proofs.Types.Combining
import PhpCheck.Proofs.Types.WellFormed
import PhpCheck.Proofs.Types.Same
import PhpCheck.Proofs.Types.Reachable
import PhpCheck.Proofs.Types.Parts
import PhpCheck.Proofs.Types.Steady
import PhpCheck.Proofs.Types.Arrays
import PhpCheck.Proofs.Types.Preorder
import PhpCheck.Report.Render
import PhpCheck.CommandLine
import PhpCheck.Main
import PhpCheck.Proofs.Types.Coverage
import PhpCheck.Proofs.Types.Described
import PhpCheck.Proofs.Scope.Narrowing
import PhpCheck.Proofs.Registry.Reach
import PhpCheck.Proofs.Registry.Builtin
import PhpCheck.Proofs.Report.Order
import PhpCheck.Proofs.Scope.Frame
import PhpCheck.Proofs.Check.Composite
import PhpCheck.Proofs.Check.Visit
import PhpCheck.Proofs.Check.Effect
import PhpCheck.Proofs.Check.Frame
import PhpCheck.Proofs.Check.Findings
import PhpCheck.Proofs.Check.Lower
import PhpCheck.Proofs.Check.Hoisting
import PhpCheck.Proofs.Session.Sound
import PhpCheck.Proofs.Session.Discipline
import PhpCheck.Proofs.Session.Depth
import PhpCheck.Proofs.Session.Hoisting
import PhpCheck.Proofs.Check.Blind
import PhpCheck.Proofs.Check.Closed.Nodes
import PhpCheck.Proofs.Check.Coalescing
import PhpCheck.Proofs.Check.Functions
import PhpCheck.Proofs.Check.Isolation
import PhpCheck.Proofs.Check.Veil
import PhpCheck.Proofs.Session.Functions
import PhpCheck.Proofs.Session.Suppression
import PhpCheck.Proofs.Grammar.Climbing
import PhpCheck.Proofs.Grammar.Interpolation
import PhpCheck.Proofs.Grammar.Roundtrip
import PhpCheck.Proofs.Grammar.Quoting
import PhpCheck.Proofs.Grammar.Reading.File
import PhpCheck.Proofs.Check.Instances
import PhpCheck.Proofs.Check.Condition
import PhpCheck.Proofs.Check.Loops
import PhpCheck.Proofs.Types.Families
import PhpCheck.Proofs.Types.Spanned
import PhpCheck.Proofs.Scope.Outcomes
import PhpCheck.Proofs.Scope.Joining
import PhpCheck.Proofs.Check.Ledger
import PhpCheck.Proofs.Check.Sharing
import PhpCheck.Proofs.Check.Conditional
import PhpCheck.Proofs.Check.Arrivals
import PhpCheck.Proofs.Types.Transfer
import PhpCheck.Proofs.Registry.Lookup
import PhpCheck.Proofs.Registry.Traits
import PhpCheck.Proofs.Session.Failing
import PhpCheck.Proofs.Check.Handlers
import PhpCheck.Proofs.Check.Subscripts
import PhpCheck.Proofs.Types.Settled
import PhpCheck.Proofs.Scope.Updating
import PhpCheck.Proofs.Paths
import PhpCheck.Proofs.Doc.Splitting
import PhpCheck.Proofs.Types.Elements
import PhpCheck.Proofs.Token.Peeking
import PhpCheck.Proofs.Check.Folding
import PhpCheck.Proofs.Numeric.Rounding
import PhpCheck.Proofs.Check.Comparing
import PhpCheck.Proofs.Grammar.Heredocs
import PhpCheck.Proofs.Grammar.ColonForms

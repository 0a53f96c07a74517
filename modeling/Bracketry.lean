import Bracketry.Assembly.Basic
import Bracketry.Assembly.Scopes
import Bracketry.Bindings
import Bracketry.Compilation
import Bracketry.Declaration
import Bracketry.Error
import Bracketry.Grammar
import Bracketry.InPlace
import Bracketry.InPlace.Constraints
import Bracketry.InPlace.Ruleset
import Bracketry.InPlace.Token
import Bracketry.Limits
import Bracketry.Proofs.Admission
import Bracketry.Proofs.Agreement
import Bracketry.Proofs.Ancestry
import Bracketry.Proofs.Blame
import Bracketry.Proofs.Brackets
import Bracketry.Proofs.Branches
import Bracketry.Proofs.Budget
import Bracketry.Proofs.Cells
import Bracketry.Proofs.Concatenation
import Bracketry.Proofs.Declared
import Bracketry.Proofs.Delegating
import Bracketry.Proofs.Delegation
import Bracketry.Proofs.Descendants
import Bracketry.Proofs.Emission
import Bracketry.Proofs.Evaluation
import Bracketry.Proofs.Expense
import Bracketry.Proofs.Heights
import Bracketry.Proofs.Hierarchy
import Bracketry.Proofs.Independence
import Bracketry.Proofs.Inside
import Bracketry.Proofs.Justification
import Bracketry.Proofs.Kinship
import Bracketry.Proofs.LastCall
import Bracketry.Proofs.Laziness
import Bracketry.Proofs.Lexing
import Bracketry.Proofs.Lifecycle
import Bracketry.Proofs.Limited
import Bracketry.Proofs.Linear
import Bracketry.Proofs.Locality
import Bracketry.Proofs.Lookups
import Bracketry.Proofs.Machine
import Bracketry.Proofs.Mandatory
import Bracketry.Proofs.Missing
import Bracketry.Proofs.Nesting
import Bracketry.Proofs.OnePass
import Bracketry.Proofs.Parsing
import Bracketry.Proofs.Partition
import Bracketry.Proofs.Passes
import Bracketry.Proofs.Places
import Bracketry.Proofs.Preorder
import Bracketry.Proofs.Priority
import Bracketry.Proofs.Queries
import Bracketry.Proofs.Reading
import Bracketry.Proofs.Registry
import Bracketry.Proofs.Reordering
import Bracketry.Proofs.Rows
import Bracketry.Proofs.Runs
import Bracketry.Proofs.Sections
import Bracketry.Proofs.Sites
import Bracketry.Proofs.Slices
import Bracketry.Proofs.Slicing
import Bracketry.Proofs.Spans
import Bracketry.Proofs.Stepping
import Bracketry.Proofs.Strides
import Bracketry.Proofs.Subtree
import Bracketry.Proofs.Traversal
import Bracketry.Proofs.Unambiguous
import Bracketry.Proofs.Unclosed
import Bracketry.Proofs.Verdict
import Bracketry.Proofs.WaysUp
import Bracketry.Rule
import Bracketry.Ruleset
import Bracketry.Scan.Course
import Bracketry.Scan.Layout
import Bracketry.Scan.Positions
import Bracketry.Scan.Read
import Bracketry.Scan.Segment
import Bracketry.Scan.Stop
import Bracketry.Span
import Bracketry.Taxonomy
import Bracketry.Template.Delimiter
import Bracketry.Template.Grammar
import Bracketry.Template.Kind
import Bracketry.Template.Piece
import Bracketry.Template.Render
import Bracketry.Text.Blank
import Bracketry.Text.Bytes
import Bracketry.Text.Case
import Bracketry.Text.CaseTable
import Bracketry.Token
import Bracketry.TokenTree
import Bracketry.Tree.Cells
import Bracketry.Tree.Check
import Bracketry.Tree.Constraints
import Bracketry.Tree.Look
import Bracketry.Tree.Node
import Bracketry.Tree.Query
import Bracketry.Tree.Selector

import Scriptlet.Main
import Scriptlet.Token.Lead
import Scriptlet.Proofs.Programs
import Scriptlet.Proofs.Session.Lifetime
import Scriptlet.Proofs.Lexical.Refinement
import Scriptlet.Proofs.Token.Partition
import Scriptlet.Proofs.Grammar.Exact
import Scriptlet.Proofs.Grammar.Braces
import Scriptlet.Proofs.Grammar.Isolation
import Scriptlet.Proofs.Grammar.Room
import Scriptlet.Proofs.Grammar.Language
import Scriptlet.Proofs.Grammar.Grammatical
import Scriptlet.Proofs.Token.Words
import Scriptlet.Proofs.Tree.Printing
import Scriptlet.Proofs.Grammar.Printed
import Scriptlet.Proofs.Grammar.Correspondence
import Scriptlet.Proofs.Token.Placement
import Scriptlet.Proofs.Grammar.Blind
import Scriptlet.Proofs.Grammar.Lazy
import Scriptlet.Proofs.Grammar.Layout
import Scriptlet.Proofs.Session.Layout
import Scriptlet.Proofs.Value.Written
import Scriptlet.Proofs.Grammar.Nesting
import Scriptlet.Proofs.Session.Displayed
import Scriptlet.Proofs.Session.Placed
import Scriptlet.Proofs.Decimal.Finite
import Scriptlet.Proofs.Showing
import Scriptlet.Proofs.Tree.Errors
import Scriptlet.Proofs.Tree.Regular
import Scriptlet.Proofs.Value.Domain
import Scriptlet.Proofs.Grammar.Regular
import Scriptlet.Proofs.Grammar.Order
import Scriptlet.Proofs.Positions
import Scriptlet.Proofs.Token.Lines
import Scriptlet.Proofs.Token.Reported
import Scriptlet.Proofs.Grammar.Pieces
import Scriptlet.Proofs.Pieces
import Scriptlet.Proofs.Interactive.Entries
import Scriptlet.Proofs.Grammar.Matching
import Scriptlet.Proofs.Grammar.Extension
import Scriptlet.Proofs.Grammar.Ending
import Scriptlet.Proofs.Grammar.BlockLike
import Scriptlet.Proofs.Grammar.Postfix
import Scriptlet.Proofs.Grammar.Reports
import Scriptlet.Proofs.Token.Munch
import Scriptlet.Proofs.Token.Respelled
import Scriptlet.Proofs.Session.Variation
import Scriptlet.Proofs.Session.Block
import Scriptlet.Proofs.Session.Compound
import Scriptlet.Proofs.Value.Arithmetic
import Scriptlet.Proofs.Value.Agreement
import Scriptlet.Proofs.Decimal.Expansion
import Scriptlet.Proofs.Grammar.Unlimited
import Scriptlet.Proofs.Tree.Walk
import Scriptlet.Proofs.Grammar.Range
import Scriptlet.Proofs.Interactive.Blocks

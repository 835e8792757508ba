import DiceLang.Source
import DiceLang.Text.Decimal
import DiceLang.Text.Printable
import DiceLang.Text.Quoted
import DiceLang.Token
import DiceLang.Token.Scan
import DiceLang.Form
import DiceLang.Tree
import DiceLang.Tree.Outline
import DiceLang.Diagnostic
import DiceLang.Fault
import DiceLang.Reading
import DiceLang.Tree.Reading
import DiceLang.Program.Reading
import DiceLang.Parser
import DiceLang.Value
import DiceLang.Value.Labelled
import DiceLang.Rolling
import DiceLang.Dice.Script
import DiceLang.Dice.Twister
import DiceLang.Environment
import DiceLang.Builtin
import DiceLang.Evaluation
import DiceLang.Session
import DiceLang.Shell.Options
import DiceLang.Shell
import DiceLang.Main
import DiceLang.Proofs.Grammar
import DiceLang.Proofs.Reading
import DiceLang.Proofs.Rolling
import DiceLang.Proofs.Evaluation.Simulation
import DiceLang.Proofs.Evaluation.Relation
import DiceLang.Proofs.Tree.Calls
import DiceLang.Proofs.Evaluation.Reach
import DiceLang.Proofs.Evaluation.Widening
import DiceLang.Proofs.Evaluation.Scope
import DiceLang.Proofs.Token.Scan
import DiceLang.Proofs.Session.Log
import DiceLang.Proofs.Tree.Laid
import DiceLang.Proofs.Tree.Sound
import DiceLang.Proofs.Tree.Complete
import DiceLang.Proofs.Tree.Exact
import DiceLang.Proofs.Tree.Expression
import DiceLang.Proofs.Program.Sound
import DiceLang.Proofs.Line
import DiceLang.Proofs.Program.Laid
import DiceLang.Proofs.Evaluation.Outcome
import DiceLang.Proofs.Session.Escape
import DiceLang.Proofs.Environment
import DiceLang.Proofs.Token.Position
import DiceLang.Proofs.Token.Word
import DiceLang.Proofs.Tree.Node
import DiceLang.Proofs.Tree.WellFormed
import DiceLang.Proofs.Tree.Written
import DiceLang.Proofs.Evaluation.Node
import DiceLang.Proofs.Evaluation.Blame
import DiceLang.Proofs.Evaluation.Guard
import DiceLang.Proofs.Session.WellFormed
import DiceLang.Proofs.Session.Blame
import DiceLang.Proofs.Session.Sorts
import DiceLang.Proofs.Limits
import DiceLang.Proofs.Evaluation.Inline
import DiceLang.Proofs.Foresight
import DiceLang.Proofs.Session.Draws
import DiceLang.Proofs.Tree.Foresight
import DiceLang.Proofs.Alike
import DiceLang.Proofs.Program.Lines
import DiceLang.Proofs.Program.Complete
import DiceLang.Proofs.Program.Foresight
import DiceLang.Proofs.Offence
import DiceLang.Proofs.Program.Exact
import DiceLang.Proofs.Program.Joined
import DiceLang.Proofs.Session.Joined
import DiceLang.Proofs.Evaluation.Respelling
import DiceLang.Proofs.Evaluation.Typing
import DiceLang.Proofs.Token.Munch
import DiceLang.Proofs.Verbatim
import DiceLang.Proofs.Layout
import DiceLang.Proofs.Evaluation.Dice
import DiceLang.Proofs.Token.Piece
import DiceLang.Proofs.Tree.Extent
import DiceLang.Proofs.Excerpt
import DiceLang.Proofs.Report
import DiceLang.Proofs.Caret
import DiceLang.Proofs.Text.Quoted
import DiceLang.Proofs.Tree.Outline
import DiceLang.Proofs.Shell

import BoolExpr.NameSet
import BoolExpr.Text.Quoted
import BoolExpr.Text.Lowercase
import BoolExpr.Text.Integer
import BoolExpr.Text.Utf8
import BoolExpr.Text.DecimalDigit
import BoolExpr.Expr.Parser
import BoolExpr.Json.Printer
import BoolExpr.Json.Reader
import BoolExpr.TruthTable
import BoolExpr.NodeTable
import BoolExpr.Session
import BoolExpr.Document
import BoolExpr.TreeDrawing
import BoolExpr.Settings
import BoolExpr.Service
import BoolExpr.Main
import BoolExpr.Proofs.Outcome
import BoolExpr.Proofs.ReaderRuns
import BoolExpr.Proofs.Scan
import BoolExpr.Proofs.Grammar
import BoolExpr.Proofs.Lexing
import BoolExpr.Proofs.Lexeme
import BoolExpr.Proofs.Division
import BoolExpr.Proofs.Stop
import BoolExpr.Proofs.Matching
import BoolExpr.Proofs.Spelling
import BoolExpr.Proofs.TokenValue
import BoolExpr.Proofs.Rendering
import BoolExpr.Proofs.Pinpoint
import BoolExpr.Proofs.Splice
import BoolExpr.Proofs.TruthFunction
import BoolExpr.Proofs.SessionRefinement
import BoolExpr.Proofs.Limits
import BoolExpr.Proofs.Cursor
import BoolExpr.Proofs.Lookups
import BoolExpr.Proofs.RawBindings
import BoolExpr.Proofs.Commands
import BoolExpr.Proofs.Preorder
import BoolExpr.Proofs.StackWalks
import BoolExpr.Proofs.TableShape
import BoolExpr.Proofs.InOrder
import BoolExpr.Proofs.FoldStates
import BoolExpr.Proofs.Correspondence
import BoolExpr.Proofs.SameLexemes
import BoolExpr.Proofs.Concatenation
import BoolExpr.Proofs.LeftmostError
import BoolExpr.Proofs.Binding
import BoolExpr.Proofs.Joining
import BoolExpr.Proofs.FailureOrder
import BoolExpr.Proofs.RowValues
import BoolExpr.Proofs.Literals
import BoolExpr.Proofs.Raising
import BoolExpr.Proofs.RowNumbers
import BoolExpr.Proofs.Relabelling
import BoolExpr.Proofs.CallDepth
import BoolExpr.Proofs.WrittenJson
import BoolExpr.Proofs.JsonReading
import BoolExpr.Proofs.ParseDocument
import BoolExpr.Proofs.DrawnLines
import BoolExpr.Proofs.DrawnBranches
import BoolExpr.Proofs.DrawnTrees
import BoolExpr.Proofs.WrittenQuery
import BoolExpr.Proofs.ServiceAnswers

import MiniLisp.Text
import MiniLisp.Text.Blank
import MiniLisp.Text.Digit
import MiniLisp.Text.Printable
import MiniLisp.Text.Sequence
import MiniLisp.Text.Numeral
import MiniLisp.Text.Quoted
import MiniLisp.Text.Literal
import MiniLisp.Text.Utf8
import MiniLisp.Symbol
import MiniLisp.Datum
import MiniLisp.Primitive
import MiniLisp.Token
import MiniLisp.Token.Lexer
import MiniLisp.Fault
import MiniLisp.Token.Stream
import MiniLisp.Datum.Reader
import MiniLisp.Expr
import MiniLisp.Expr.Text
import MiniLisp.Expr.Parser
import MiniLisp.Value
import MiniLisp.Value.Text
import MiniLisp.Env
import MiniLisp.Machine
import MiniLisp.Run
import MiniLisp.Console
import MiniLisp.Primitive.Apply
import MiniLisp.Eval
import MiniLisp.Session
import MiniLisp.Settings
import MiniLisp.FileTree
import MiniLisp.CommandLine.Options
import MiniLisp.CommandLine
import MiniLisp.Main
import MiniLisp.Proofs.Outcome
import MiniLisp.Proofs.Text.Spelling
import MiniLisp.Proofs.Text.Unambiguous
import MiniLisp.Proofs.Text.Numeral
import MiniLisp.Proofs.Token.Layout
import MiniLisp.Proofs.Reader.Steps
import MiniLisp.Proofs.Reader.Grammar
import MiniLisp.Proofs.Reader.RoundTrip
import MiniLisp.Proofs.Reader.Balance
import MiniLisp.Proofs.Reader.SinglePass
import MiniLisp.Proofs.Parser.Grammar
import MiniLisp.Proofs.Parser.Unparse
import MiniLisp.Proofs.Expr.Scope
import MiniLisp.Proofs.Env.Names
import MiniLisp.Proofs.Primitive.Result
import MiniLisp.Proofs.Eval.Invariant
import MiniLisp.Proofs.Eval.Agreement
import MiniLisp.Proofs.Value.Sameness
import MiniLisp.Proofs.Session.TopLevel
import MiniLisp.Proofs.Session.Soundness
import MiniLisp.Proofs.Session.Scoping
import MiniLisp.Proofs.Eval.Depth
import MiniLisp.Proofs.Session.Capabilities
import MiniLisp.Proofs.Eval.Simulation
import MiniLisp.Proofs.Expr.Substitution
import MiniLisp.Proofs.Session.Beta
import MiniLisp.Proofs.CommandLine.Reports
import MiniLisp.Proofs.Machine.Morphism
import MiniLisp.Proofs.Machine.Console
import MiniLisp.Proofs.Reader.Joining
import MiniLisp.Proofs.Session.Depth
import MiniLisp.Proofs.Session.Isolation
import MiniLisp.Proofs.CommandLine.Driver
import MiniLisp.Proofs.Reader.Completion
import MiniLisp.Proofs.Text.Literal
import MiniLisp.Proofs.Reader.Strings
import MiniLisp.Proofs.Parser.Respelling
import MiniLisp.Proofs.Session.ReadBack
import MiniLisp.Proofs.Reader.Accounting
import MiniLisp.Proofs.Env.Layers
import MiniLisp.Proofs.Eval.Application
import MiniLisp.Proofs.Session.Creation
import MiniLisp.Proofs.Eval.Nesting
import MiniLisp.Proofs.Session.Factorial
import MiniLisp.Proofs.Primitive.Concat
import MiniLisp.Proofs.Primitive.Division
import MiniLisp.Proofs.Primitive.Dispatch
import MiniLisp.Proofs.Reader.Integers

import Wordstack.Binding
import Wordstack.Command
import Wordstack.Command.Run
import Wordstack.Error
import Wordstack.Folder
import Wordstack.Json
import Wordstack.Json.Literal
import Wordstack.Json.Reader
import Wordstack.Json.View
import Wordstack.Jump
import Wordstack.Lexeme
import Wordstack.Machine
import Wordstack.Machine.Run
import Wordstack.Machine.Step
import Wordstack.Main
import Wordstack.Number.Arithmetic
import Wordstack.Number.Decimal
import Wordstack.Number.Scaled
import Wordstack.Number.Shortest
import Wordstack.Number.Text
import Wordstack.Operation
import Wordstack.Program
import Wordstack.Program.Document
import Wordstack.Program.Source
import Wordstack.Settings
import Wordstack.Settings.Environment
import Wordstack.Settings.Environment.File
import Wordstack.Settings.Format
import Wordstack.Settings.Key
import Wordstack.Settings.Layers
import Wordstack.Settings.Value
import Wordstack.Sink
import Wordstack.Text.Blank
import Wordstack.Text.Letter
import Wordstack.Text.Lowercase
import Wordstack.Text.Quoted
import Wordstack.Token
import Wordstack.Toml.Dates
import Wordstack.Toml.Numbers
import Wordstack.Toml.Reader
import Wordstack.Toml.Strings
import Wordstack.Toml.Tables
import Wordstack.Toml.Writer
import Wordstack.Vocabulary
import Wordstack.Proofs.Except
import Wordstack.Proofs.Code
import Wordstack.Proofs.Code.Jumps
import Wordstack.Proofs.Code.Partners
import Wordstack.Proofs.Code.Place
import Wordstack.Proofs.Code.Unfinished
import Wordstack.Proofs.Evaluator
import Wordstack.Proofs.Evaluator.Agreement
import Wordstack.Proofs.Evaluator.Place
import Wordstack.Proofs.Evaluator.Simulation
import Wordstack.Proofs.Machine.Frames
import Wordstack.Proofs.Machine.Invariant
import Wordstack.Proofs.Machine.Move
import Wordstack.Proofs.Machine.Reach
import Wordstack.Proofs.Source
import Wordstack.Proofs.Source.Append
import Wordstack.Proofs.Source.Balance
import Wordstack.Proofs.Source.Names
import Wordstack.Proofs.Machine.Isolation
import Wordstack.Proofs.Machine.Limit
import Wordstack.Proofs.Machine.Termination
import Wordstack.Proofs.Lexeme
import Wordstack.Proofs.Lexeme.Classify
import Wordstack.Proofs.Number.Print
import Wordstack.Proofs.Machine.Errors
import Wordstack.Proofs.Machine.Life
import Wordstack.Proofs.Machine.Lockstep
import Wordstack.Proofs.Machine.Resolution
import Wordstack.Proofs.Machine.Extension
import Wordstack.Proofs.Operation
import Wordstack.Proofs.Machine.Deepen
import Wordstack.Proofs.Machine.Purity
import Wordstack.Proofs.Json
import Wordstack.Proofs.Number.Literal
import Wordstack.Proofs.Number.Rounding
import Wordstack.Proofs.Number.Shortest
import Wordstack.Proofs.Number.Text
import Wordstack.Proofs.Number.Operations
import Wordstack.Proofs.Json.Literal
import Wordstack.Proofs.Json.View
import Wordstack.Proofs.Document
import Wordstack.Proofs.Operation.Contract
import Wordstack.Proofs.Binding
import Wordstack.Proofs.Machine.Failure
import Wordstack.Proofs.Machine.Values
import Wordstack.Proofs.Settings
import Wordstack.Proofs.Settings.Environment
import Wordstack.Proofs.Settings.Precedence
import Wordstack.Proofs.Number.Plain
import Wordstack.Proofs.Settings.Texts
import Wordstack.Proofs.Settings.Frames
import Wordstack.Proofs.Machine.Synonym

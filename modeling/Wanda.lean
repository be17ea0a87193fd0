import Wanda.Main
import Wanda.Interpreter.Scopes
import Wanda.Value.Equality
import Wanda.Proofs.Runner.Pipeline
import Wanda.Proofs.Reduction.StackMachine
import Wanda.Proofs.Reduction.Termination
import Wanda.Proofs.Script.RoundTrip
import Wanda.Proofs.Program.Legal
import Wanda.Proofs.Program.Language
import Wanda.Proofs.Program.Refusal
import Wanda.Proofs.Program.Kinds
import Wanda.Proofs.Reduction.Trace
import Wanda.Proofs.Reduction.Provenance
import Wanda.Proofs.Runner.Answer
import Wanda.Proofs.Runner.Output
import Wanda.Proofs.Playground.Typing
import Wanda.Proofs.Interpreter.Requests
import Wanda.Proofs.Interpreter.Reads
import Wanda.Proofs.Runner.Independence
import Wanda.Proofs.Playground.Conversation
import Wanda.Proofs.Playground.Editing
import Wanda.Proofs.CommandLine.Flags
import Wanda.Proofs.Reduction.Definitions
import Wanda.Proofs.Reduction.Shadowing
import Wanda.Proofs.Reduction.Vocabulary
import Wanda.Proofs.Reduction.Descent
import Wanda.Proofs.Reduction.Positions
import Wanda.Proofs.Example
import Wanda.Proofs.Script.Cutting
import Wanda.Proofs.Script.Layout
import Wanda.Proofs.Interpreter.Actions
import Wanda.Proofs.Runner.Failures
import Wanda.Proofs.Interpreter.WellFormed
import Wanda.Proofs.Interpreter.Arguments
import Wanda.Proofs.Interpreter.ScopeChain
import Wanda.Proofs.Interpreter.Lexical
import Wanda.Proofs.Selection
import Wanda.Proofs.Value.Extensional

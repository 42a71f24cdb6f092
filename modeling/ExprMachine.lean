import ExprMachine.Main
import ExprMachine.Proofs.Bytecode.Checked
import ExprMachine.Proofs.Expr.Reprinting
import ExprMachine.Proofs.Machine.Compiled
import ExprMachine.Proofs.Machine.Verified
import ExprMachine.Proofs.Value.Equality
import ExprMachine.Proofs.Token.Placing
import ExprMachine.Proofs.Expr.Embedding
import ExprMachine.Proofs.Machine.Comparison
import ExprMachine.Proofs.Bytecode.Assembly
import ExprMachine.Proofs.Bytecode.Constants
import ExprMachine.Proofs.Bytecode.Decompile
import ExprMachine.Proofs.Token.Lossless
import ExprMachine.Proofs.Token.Widening
import ExprMachine.Proofs.Diagnostic.Pointing
import ExprMachine.Proofs.Expr.Limits
import ExprMachine.Proofs.Machine.Registration
import ExprMachine.Proofs.Machine.Environment
import ExprMachine.Proofs.Machine.Listed
import ExprMachine.Proofs.Expr.Receivers
import ExprMachine.Proofs.Bytecode.Coverage
import ExprMachine.Machine.Sharing
import ExprMachine.Proofs.Machine.Sharing
import ExprMachine.Proofs.CommandLine.Settings
import ExprMachine.Proofs.Executable.Packages
import ExprMachine.Proofs.CommandLine.Evaluation
import ExprMachine.Proofs.CommandLine.Targets
import ExprMachine.Proofs.Operators.Arithmetic
import ExprMachine.Proofs.Expr.DistinctKeys
import ExprMachine.Proofs.Machine.Membership
import ExprMachine.Proofs.Operators.Power
import ExprMachine.Proofs.Value.Interchange
import ExprMachine.Proofs.Expr.Spacing
import ExprMachine.Proofs.Json.Leaves
import ExprMachine.Proofs.Value.Documents
import ExprMachine.Proofs.Binary64.Finite
import ExprMachine.Proofs.Expr.Paths
import ExprMachine.Proofs.Source.Literals
import ExprMachine.Proofs.Source.Floats
import ExprMachine.Proofs.Token.LineEnds
import ExprMachine.Proofs.Decimal.Whole
import ExprMachine.Proofs.Value.Displayed
import ExprMachine.Proofs.Expr.Brackets
import ExprMachine.Proofs.Expr.Weight
import ExprMachine.Proofs.Expr.Beginnings
import ExprMachine.Proofs.Expr.Remaining
import ExprMachine.Proofs.Expr.Failures
import ExprMachine.Proofs.Source.Completion
import ExprMachine.Proofs.Binary64.Values
import ExprMachine.Proofs.Diagnostic.Colors
import ExprMachine.Proofs.Operators.Dispatch
import ExprMachine.Proofs.Source.Parentheses
import ExprMachine.Proofs.Expr.Logged

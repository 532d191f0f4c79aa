import HostScript.Bytecode.Basic
import HostScript.Bytecode.Listing
import HostScript.Compile
import HostScript.Compile.Binding
import HostScript.Compile.Bound
import HostScript.Compile.Emission
import HostScript.Compile.Error
import HostScript.Compile.Scope
import HostScript.Compile.Signature
import HostScript.Compile.StringPool
import HostScript.Fault
import HostScript.Host.Basic
import HostScript.Host.Callable
import HostScript.Host.Print
import HostScript.Machine.Action
import HostScript.Machine.Basic
import HostScript.Machine.Frame
import HostScript.Machine.Run
import HostScript.Number.Decimal
import HostScript.Number.Remainder
import HostScript.Operator
import HostScript.Program
import HostScript.Proofs.Binding.Bounded
import HostScript.Proofs.Binding.Effect
import HostScript.Proofs.Binding.Initialised
import HostScript.Proofs.Binding.Inversion
import HostScript.Proofs.Binding.Peaks
import HostScript.Proofs.Binding.ScopeHistories
import HostScript.Proofs.Binding.Scopes
import HostScript.Proofs.Binding.Signatures
import HostScript.Proofs.Binding.Valid
import HostScript.Proofs.Bytecode.Listing
import HostScript.Proofs.Compile.Agreement
import HostScript.Proofs.Compile.Assignments
import HostScript.Proofs.Compile.Confined
import HostScript.Proofs.Compile.Connections
import HostScript.Proofs.Compile.FrameSizes
import HostScript.Proofs.Compile.HostFree
import HostScript.Proofs.Compile.InUse
import HostScript.Proofs.Compile.Independence
import HostScript.Proofs.Compile.LineUp
import HostScript.Proofs.Compile.Loops
import HostScript.Proofs.Compile.Mentions
import HostScript.Proofs.Compile.Need
import HostScript.Proofs.Compile.Operands
import HostScript.Proofs.Compile.Parts
import HostScript.Proofs.Compile.Pool
import HostScript.Proofs.Compile.Renaming
import HostScript.Proofs.Compile.Resolution
import HostScript.Proofs.Compile.Structure
import HostScript.Proofs.Compile.Tables
import HostScript.Proofs.Emission.Append
import HostScript.Proofs.Emission.Boundaries
import HostScript.Proofs.Emission.Code
import HostScript.Proofs.Emission.Each
import HostScript.Proofs.Emission.Heights
import HostScript.Proofs.Emission.Places
import HostScript.Proofs.Emission.Regions
import HostScript.Proofs.Emission.Relocation
import HostScript.Proofs.Emission.Unit
import HostScript.Proofs.Execution.Assignment
import HostScript.Proofs.Execution.Expressions
import HostScript.Proofs.Execution.Instructions
import HostScript.Proofs.Execution.Performs
import HostScript.Proofs.Execution.Programs
import HostScript.Proofs.Execution.Statements
import HostScript.Proofs.Execution.Walks
import HostScript.Proofs.Host.Histories
import HostScript.Proofs.Host.Requests
import HostScript.Proofs.Machine.Actions
import HostScript.Proofs.Machine.Agree
import HostScript.Proofs.Machine.Benign
import HostScript.Proofs.Machine.Calls
import HostScript.Proofs.Machine.Connections
import HostScript.Proofs.Machine.Deliveries
import HostScript.Proofs.Machine.Dispatch
import HostScript.Proofs.Machine.ElementAssignment
import HostScript.Proofs.Machine.Ends
import HostScript.Proofs.Machine.Halting
import HostScript.Proofs.Machine.Heights
import HostScript.Proofs.Machine.Lifecycle
import HostScript.Proofs.Machine.Limits
import HostScript.Proofs.Machine.LockStep
import HostScript.Proofs.Machine.Loops
import HostScript.Proofs.Machine.Room
import HostScript.Proofs.Machine.Safety
import HostScript.Proofs.Machine.Stores
import HostScript.Proofs.Machine.Stretches
import HostScript.Proofs.Machine.Traces
import HostScript.Proofs.Machine.Transitions
import HostScript.Proofs.Machine.Turns
import HostScript.Proofs.Machine.Visibility
import HostScript.Proofs.Number.Counting
import HostScript.Proofs.Number.Order
import HostScript.Proofs.Number.Positions
import HostScript.Proofs.Semantics.Bound
import HostScript.Proofs.Semantics.Evaluation
import HostScript.Proofs.Semantics.Expressions
import HostScript.Proofs.Semantics.Paths
import HostScript.Proofs.Semantics.Programs
import HostScript.Proofs.Semantics.Quiet
import HostScript.Proofs.Semantics.Reference
import HostScript.Proofs.Semantics.Rounds
import HostScript.Proofs.Semantics.Simulation
import HostScript.Proofs.Semantics.Statements
import HostScript.Proofs.Semantics.Storage
import HostScript.Proofs.Text.Utf8
import HostScript.Proofs.Value.Comparison
import HostScript.Proofs.Value.Elements
import HostScript.Proofs.Value.Equality
import HostScript.Proofs.WellFormed.Compile
import HostScript.Proofs.WellFormed.NoProblems
import HostScript.Proofs.WellFormed.Occurrences
import HostScript.Proofs.WellFormed.Problems
import HostScript.Proofs.WellFormed.Reports
import HostScript.Proofs.WellFormed.Rules
import HostScript.Proofs.WellFormed.SlotProblems
import HostScript.Stub.Registration
import HostScript.Stub.State
import HostScript.Text.Quoted
import HostScript.Text.Unprintable
import HostScript.Value.Basic
import HostScript.Value.Operation

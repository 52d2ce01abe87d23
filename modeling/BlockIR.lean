import BlockIR.Main
import BlockIR.Source.Run
import BlockIR.Proofs.Function.Check
import BlockIR.Proofs.Function.Reached
import BlockIR.Proofs.Machine.Step
import BlockIR.Proofs.Builtin.Standard
import BlockIR.Proofs.Machine.Safety
import BlockIR.Proofs.Program.Reached
import BlockIR.Proofs.Function.Growth
import BlockIR.Proofs.Function.Cursor
import BlockIR.Proofs.Source.Scoping
import BlockIR.Proofs.Source.Yields
import BlockIR.Proofs.Source.Body
import BlockIR.Proofs.Source.Declared
import BlockIR.Proofs.Source.Lowering
import BlockIR.Proofs.Source.Safety
import BlockIR.Proofs.Source.Semantics
import BlockIR.Proofs.Machine.Run
import BlockIR.Proofs.Source.Follows
import BlockIR.Proofs.Source.Activation
import BlockIR.Proofs.Source.FollowsExpr
import BlockIR.Proofs.Source.FollowsStmt
import BlockIR.Proofs.Source.FollowsCall
import BlockIR.Proofs.Source.Evaluation
import BlockIR.Proofs.Source.InitOrder
import BlockIR.Proofs.Source.Meaning
import BlockIR.Proofs.Function.Ownership
import BlockIR.Proofs.Function.Edges
import BlockIR.Proofs.Machine.Frames
import BlockIR.Proofs.Function.Assigned
import BlockIR.Proofs.Machine.Calls
import BlockIR.Proofs.Source.Assigned
import BlockIR.Proofs.Machine.Assigned
import BlockIR.Proofs.Machine.Filled
import BlockIR.Proofs.Source.AssignedStmt
import BlockIR.Proofs.Machine.World
import BlockIR.Proofs.Machine.Depth
import BlockIR.Proofs.Machine.Simulation
import BlockIR.Proofs.Function.Insertion
import BlockIR.Proofs.Machine.DeadWrite
import BlockIR.Proofs.Source.Discovery
import BlockIR.Proofs.Source.Dependence
import BlockIR.Proofs.Source.Mentions
import BlockIR.Proofs.Source.Names
import BlockIR.Proofs.Builtin.Linking
import BlockIR.Proofs.Machine.Edges
import BlockIR.Proofs.Function.Blur
import BlockIR.Proofs.Program.Blur
import BlockIR.Proofs.Source.Blur
import BlockIR.Proofs.Machine.Operators
import BlockIR.Proofs.Source.Operators
import BlockIR.Proofs.Source.Locations
import BlockIR.Proofs.Source.Origins
import BlockIR.Proofs.Program.Atomic
import BlockIR.Proofs.Program.Consistent
import BlockIR.Proofs.Program.Handles
import BlockIR.Proofs.Console
import BlockIR.Proofs.Machine.Room
import BlockIR.Proofs.Heap
import BlockIR.Proofs.Machine.Arrays
import BlockIR.Proofs.Function.Verdict
import BlockIR.Proofs.Traversal
import BlockIR.Proofs.Source.Preorder
import BlockIR.Proofs.Machine.Initialization
import BlockIR.Proofs.Program.InitOrder
import BlockIR.Proofs.Source.Termination
import BlockIR.Proofs.Function.Discipline
import BlockIR.Proofs.Function.Beside
import BlockIR.Proofs.Builtin.Contract
import BlockIR.Proofs.Rendering
import BlockIR.Proofs.Text.Decimal
import BlockIR.Proofs.Builtin.Answers
import BlockIR.Proofs.Builtin.Conversion
import BlockIR.Proofs.Builtin.Arithmetic
import BlockIR.Proofs.CommandLine
import BlockIR.Proofs.Console.Lines
import BlockIR.Proofs.Source.Rules
import BlockIR.Proofs.Sample.Outcome
import BlockIR.Proofs.Sample.Recursion
import BlockIR.Proofs.Sample.Loops
import BlockIR.Proofs.Text.Quoted
import BlockIR.Proofs.Instruction.Lexeme
import BlockIR.Proofs.Instruction.Text

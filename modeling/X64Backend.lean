import X64Backend.Main
import X64Backend.Proofs.Code.Registers
import X64Backend.Proofs.Lower.Blocks
import X64Backend.Proofs.Lower.Calling
import X64Backend.Proofs.Lower.Calls
import X64Backend.Proofs.Lower.Clear
import X64Backend.Proofs.Lower.Expansions
import X64Backend.Proofs.Lower.Expressions
import X64Backend.Proofs.Lower.Fit
import X64Backend.Proofs.Lower.Frames
import X64Backend.Proofs.Lower.Operators
import X64Backend.Proofs.Lower.Quiet
import X64Backend.Proofs.Lower.Emission
import X64Backend.Proofs.Lower.Following
import X64Backend.Proofs.Lower.Regions
import X64Backend.Proofs.Lower.Replays
import X64Backend.Proofs.Lower.Statements
import X64Backend.Proofs.Lower.Steady
import X64Backend.Proofs.Lower.Visits
import X64Backend.Proofs.Lower.Widths
import X64Backend.Proofs.Lower.Receiving
import X64Backend.Proofs.Lower.Writes
import X64Backend.Proofs.Lower.Fusion
import X64Backend.Proofs.Machine.Spots
import X64Backend.Proofs.Machine.Coupling
import X64Backend.Proofs.Machine.Crash
import X64Backend.Proofs.Machine.Memory
import X64Backend.Proofs.Machine.Mirror
import X64Backend.Proofs.Machine.Private
import X64Backend.Proofs.Machine.Runs
import X64Backend.Proofs.Pool.Commands
import X64Backend.Proofs.Pool.Consistency
import X64Backend.Proofs.Pool.Guard
import X64Backend.Proofs.Pool.Guarding
import X64Backend.Proofs.Pool.Placement
import X64Backend.Proofs.Pool.Record
import X64Backend.Proofs.Pool.Refinement
import X64Backend.Proofs.Pool.Renaming
import X64Backend.Proofs.Pool.Session
import X64Backend.Proofs.Pool.Steps
import X64Backend.Proofs.Pool.Tables
import X64Backend.Proofs.Success
import X64Backend.Proofs.Tree.Names
import X64Backend.Proofs.Lower.Evaluation
import X64Backend.Proofs.Lower.Execution
import X64Backend.Proofs.Lower.Inlining
import X64Backend.Proofs.Lower.Procedures
import X64Backend.Proofs.Lower.Balance
import X64Backend.Proofs.Lower.Sites
import X64Backend.Proofs.Block.Dispatched
import X64Backend.Proofs.Lower.Labels
import X64Backend.Proofs.Lower.Symbols
import X64Backend.Proofs.Lower.Leaves
import X64Backend.Proofs.Lower.LocalWork
import X64Backend.Proofs.Lower.Nesting
import X64Backend.Proofs.Lower.Termination
import X64Backend.Proofs.Block.Reports
import X64Backend.Proofs.Block.Pairing
import X64Backend.Proofs.Block.Roundtrip
import X64Backend.Proofs.Block.Words
import X64Backend.Proofs.Block.Sound
import X64Backend.Proofs.Block.Reading
import X64Backend.Proofs.Block.Statements
import X64Backend.Proofs.Block.Total
import X64Backend.Proofs.Tree.Layout
import X64Backend.Proofs.Lower.Passing
import X64Backend.Proofs.Lower.Arguments
import X64Backend.Proofs.Lower.Handover
import X64Backend.Proofs.Lower.Order
import X64Backend.Proofs.Lower.Settled
import X64Backend.Proofs.Lower.LiteralStores
import X64Backend.Proofs.Machine.Extension
import X64Backend.Proofs.Machine.Arithmetic
import X64Backend.Proofs.Lower.Loads
import X64Backend.Proofs.Lower.Arithmetic
import X64Backend.Proofs.Lower.Comparisons
import X64Backend.Proofs.Lower.Clearing
import X64Backend.Proofs.Lower.Division
import X64Backend.Proofs.Lower.Room
import X64Backend.Proofs.Lower.Folding
import X64Backend.Proofs.Lower.Shifts
import X64Backend.Proofs.Lower.Variables
import X64Backend.Proofs.Lower.Widening
import X64Backend.Proofs.Block.Returned
import X64Backend.Proofs.Lower.Leftovers
import X64Backend.Proofs.Lower.Accounts
import X64Backend.Proofs.Lower.BlockValues
import X64Backend.Proofs.Lower.Records
import X64Backend.Proofs.Lower.LiteralChecks
import X64Backend.Proofs.Lower.OperatorChecks
import X64Backend.Proofs.Lower.ArgumentChecks
import X64Backend.Proofs.Lower.Analysis
import X64Backend.Proofs.Lower.ExpressionChecks
import X64Backend.Proofs.Lower.CallChecks
import X64Backend.Proofs.Lower.StatementChecks
import X64Backend.Proofs.Lower.ExpansionChecks
import X64Backend.Proofs.Lower.ProgramChecks
import X64Backend.Proofs.Machine.Levels
import X64Backend.Proofs.Lower.RedZone
import X64Backend.Proofs.Tree.Classes
import X64Backend.Proofs.Lower.Dispatch
import X64Backend.Proofs.Tree.Stretches
import X64Backend.Proofs.Lower.Extents
import X64Backend.Proofs.Lower.ShortCircuits
import X64Backend.Proofs.Lower.Conditions
import X64Backend.Proofs.Machine.Relations
import X64Backend.Proofs.Pool.Brackets
import X64Backend.Proofs.Block.Locality
import X64Backend.Proofs.Block.Segments
import X64Backend.Proofs.Lower.Coverage
import X64Backend.Proofs.Lower.Accesses
import X64Backend.Proofs.Suggest.Distance
import X64Backend.Proofs.Suggest.Ranking
import X64Backend.Proofs.Code.Magnitudes
import X64Backend.Proofs.Text.Quoted
import X64Backend.Proofs.Machine.Data
import X64Backend.Proofs.Lower.Parts
import X64Backend.Proofs.Lower.StaticData
import X64Backend.Proofs.Code.Stamps
import X64Backend.Proofs.Code.Charts
import X64Backend.Proofs.Block.Lexing

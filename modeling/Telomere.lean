import Telomere.Common.Types
import Telomere.Parser.TypeChecker
import Telomere.Parser.Instruction
import Telomere.Parser.BranchTyping
import Telomere.Optimizer.Encode
import Telomere.Optimizer.SkipLayout
import Telomere.Vm.Handlers
import Telomere.Vm.Machine
import Telomere.Optimizer.CrossBlock
import Telomere.Lib.Loop
import Telomere.Vm.Loops
import Telomere.Optimizer.SearchLoop
import Telomere.Optimizer.Canon
import Telomere.Optimizer.Select
import Telomere.Optimizer.PointerLoop
import Telomere.Optimizer.LoopSites
import Telomere.Parser.JumpResolver
import Telomere.Parser.Layout
import Telomere.Lib.Nesting
import Telomere.Parser.Positions
import Telomere.Parser.IfElse
import Telomere.Lib.Abort
import Telomere.Parser.Module
import Telomere.Runtime.Store
import Telomere.Runtime.Instantiate
import Telomere.Runtime.Runs
import Telomere.Runtime.Linking
import Telomere.Runtime.IndexSpaces
import Telomere.Runtime.ImportMatching
import Telomere.Runtime.Segments
import Telomere.Runtime.SegmentOrder
import Telomere.Runtime.SegmentLife
import Telomere.Component.Flatten
import Telomere.Component.FlatAgreement
import Telomere.Component.Subtyping
import Telomere.Component.Subtypes
import Telomere.Component.Variance
import Telomere.Component.Value
import Telomere.Component.Lower
import Telomere.Component.Shape
import Telomere.Component.LoweredShape
import Telomere.Component.Interner
import Telomere.Component.Resources
import Telomere.Component.HostBindings
import Telomere.Component.Sections
import Telomere.Component.Lift
import Telomere.Component.Options
import Telomere.Lib.Demand
import Telomere.Component.OptionDemands
import Telomere.Component.RequiredOptions
import Telomere.Component.Scopes
import Telomere.Component.ScopesInStep
import Telomere.Component.Env
import Telomere.Component.ImportScopes
import Telomere.Component.LexicalImports
import Telomere.Component.References
import Telomere.Component.DecodedSections
import Telomere.Component.CoreInstances
import Telomere.Runtime.FuelConservation
import Telomere.Runtime.Scheduler
import Telomere.Runtime.TaskAccounting
import Telomere.Common.SharedMemory
import Telomere.Common.WaitAccounting
import Telomere.Lib.Cells
import Telomere.Runtime.Stack
import Telomere.Runtime.CallFrames
import Telomere.Parser.TailCalls
import Telomere.Parser.DeadCode
import Telomere.Runtime.JitBridge
import Telomere.Runtime.BridgeFrames
import Telomere.Runtime.BridgeRuns
import Telomere.Lib.Dominance
import Telomere.Optimizer.Analysis
import Telomere.Optimizer.ImmediateDominators
import Telomere.Optimizer.LoopNests
import Telomere.Optimizer.BitStep
import Telomere.Optimizer.ConstBase
import Telomere.Component.TypeSummaries
import Telomere.Component.PlainSummaries
import Telomere.Component.SummaryQueries
import Telomere.Component.TypeGuards
import Telomere.Jit.Masm
import Telomere.Jit.X64
import Telomere.Jit.X64Frame
import Telomere.Jit.Riscv64
import Telomere.Jit.FrameDiscipline
import Telomere.Component.GuestPointers
import Telomere.Common.BulkMemory
import Telomere.Lib.Ring
import Telomere.Runtime.TrapContext
import Telomere.Runtime.RejectedTailCall
import Telomere.Parser.FunctionReferences
import Telomere.Jit.BranchEncoding
import Telomere.Jit.BranchPatch
import Telomere.Wasi.StreamRuns
import Telomere.Common.MemoryAccess
import Telomere.Vm.MemoryHandlers
import Telomere.Vm.Atomics
import Telomere.Lib.Lanes
import Telomere.Vm.SimdMemory
import Telomere.Component.Allocator
import Telomere.Component.TypeInfos
import Telomere.Component.StringCodec
import Telomere.Component.Layout
import Telomere.Component.TypedValues
import Telomere.Component.StoredValues
import Telomere.Component.FlatValues
import Telomere.Component.CallValues
import Telomere.Component.Names
import Telomere.Component.Dependencies
import Telomere.Component.ImportNames
import Telomere.Lib.Leb128
import Telomere.Parser.Leb128
import Telomere.Parser.BlockTypes
import Telomere.Jit.LoadImmediate
import Telomere.Parser.ElementSegments
import Telomere.Vm.Alignment
import Telomere.Lib.Regroup
import Telomere.Parser.LocalAddresses
import Telomere.Parser.JumpTargets
import Telomere.Parser.ResolvedJumps
import Telomere.Lib.Gate
import Telomere.Lib.Text
import Telomere.Runtime.BulkOps
import Telomere.Runtime.BulkMemories
import Telomere.Runtime.BulkRuns
import Telomere.Jit.CodeCache
import Telomere.Jit.CacheRuns

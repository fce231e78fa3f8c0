import ScriptMachine.Text.Fold
import ScriptMachine.Text.Blank
import ScriptMachine.Text.Digits
import ScriptMachine.Text.Hidden
import ScriptMachine.Text.Quoted
import ScriptMachine.Text.Xxh64
import ScriptMachine.Decimal.Basic
import ScriptMachine.Decimal.Reading
import ScriptMachine.StaticType
import ScriptMachine.Value.Basic
import ScriptMachine.Value.Heap
import ScriptMachine.Value.Contents
import ScriptMachine.Number
import ScriptMachine.Conversion
import ScriptMachine.Environment
import ScriptMachine.Property.Id
import ScriptMachine.Property.Native
import ScriptMachine.Property.Basic
import ScriptMachine.Property.Builtin
import ScriptMachine.Property.Registry
import ScriptMachine.Property.Lookup
import ScriptMachine.Span
import ScriptMachine.Code.Constant
import ScriptMachine.Code.Instruction
import ScriptMachine.Code.Listing
import ScriptMachine.Code.Coercion
import ScriptMachine.Code.Method
import ScriptMachine.Script
import ScriptMachine.Compile.Error
import ScriptMachine.Compile.Scope
import ScriptMachine.Compile.Draft
import ScriptMachine.Compile.Method
import ScriptMachine.Store
import ScriptMachine.Machine.Error
import ScriptMachine.Machine.Routine
import ScriptMachine.Machine.Step
import ScriptMachine.Machine.Run
import ScriptMachine.Session
import ScriptMachine.Proofs.HostContract
import ScriptMachine.Proofs.StepEffect
import ScriptMachine.Proofs.FailedRun
import ScriptMachine.Proofs.TypedMemory
import ScriptMachine.Proofs.Evaluation
import ScriptMachine.Proofs.ValueTyping
import ScriptMachine.Proofs.Lowering
import ScriptMachine.Proofs.Refinement
import ScriptMachine.Proofs.Matching
import ScriptMachine.Proofs.Simulation
import ScriptMachine.Proofs.CompilerCorrectness
import ScriptMachine.Proofs.TypeSoundness
import ScriptMachine.Proofs.Transition
import ScriptMachine.Proofs.CodeFlow
import ScriptMachine.Proofs.StoreKeys
import ScriptMachine.Proofs.Acceptance
import ScriptMachine.Proofs.StackHeight
import ScriptMachine.Proofs.StackNeed
import ScriptMachine.Proofs.ArrayGraph
import ScriptMachine.Proofs.ArrayContract
import ScriptMachine.Proofs.ArrayOwnership
import ScriptMachine.Proofs.FreshArrays
import ScriptMachine.Proofs.TextConversion
import ScriptMachine.Proofs.SideBySide
import ScriptMachine.Proofs.Respelling
import ScriptMachine.Proofs.LetterCase
import ScriptMachine.Proofs.Noninterference
import ScriptMachine.Proofs.ArrayLinks
import ScriptMachine.Proofs.UniformAccess
import ScriptMachine.Proofs.Renumbering
import ScriptMachine.Proofs.Framing
import ScriptMachine.Proofs.Splitting
import ScriptMachine.Proofs.CoercionRoute
import ScriptMachine.Proofs.WideningChain
import ScriptMachine.Proofs.AccessorTable
import ScriptMachine.Proofs.StackFrame
import ScriptMachine.Proofs.StoreRoundTrip
import ScriptMachine.Proofs.IntegerText
import ScriptMachine.Proofs.LongRange
import ScriptMachine.Proofs.LocalNames
import ScriptMachine.Proofs.LocalSlots
import ScriptMachine.Proofs.StackLimit
import ScriptMachine.Proofs.LineTable
import ScriptMachine.Proofs.Incremental
import ScriptMachine.Proofs.UnambiguousText
import ScriptMachine.Proofs.Disassembly
import ScriptMachine.Proofs.BuiltinWrites
import ScriptMachine.Proofs.OpcodeSearch
import ScriptMachine.Proofs.RegistryHistory

import Intel8080.Bus.Recorder
import Intel8080.Disassembly.Listing
import Intel8080.Instruction.Description
import Intel8080.Machine.Run
import Intel8080.Main
import Intel8080.Proofs.Cpu.Step
import Intel8080.Proofs.Reference.Basic
import Intel8080.Proofs.Reference.View
import Intel8080.Registers.Dump
import Intel8080.Proofs.Reference.Arithmetic
import Intel8080.Proofs.Reference.Refinement
import Intel8080.Proofs.Machine.Trace
import Intel8080.Proofs.Cpu.Stores
import Intel8080.Proofs.Machine.History
import Intel8080.Proofs.Memory.Protection
import Intel8080.Proofs.Stack.Basic
import Intel8080.Proofs.Stack.Action
import Intel8080.Proofs.Stack.Simulation
import Intel8080.Proofs.Program.Digits
import Intel8080.Proofs.Program.Execution
import Intel8080.Proofs.Program.Addition
import Intel8080.Proofs.Instruction.Undocumented
import Intel8080.Proofs.Instruction.Encoding
import Intel8080.Proofs.Cpu.Accesses
import Intel8080.Proofs.Machine.Report
import Intel8080.Proofs.Machine.Unnoticed
import Intel8080.Proofs.Machine.Policy
import Intel8080.Proofs.Machine.Refusal
import Intel8080.Proofs.Program.Documented
import Intel8080.Proofs.Bus.Dataflow
import Intel8080.Proofs.Machine.Footprint
import Intel8080.Proofs.Machine.Dependence
import Intel8080.Proofs.Memory.Widening
import Intel8080.Proofs.Disassembly.Coverage
import Intel8080.Proofs.Disassembly.Recovery
import Intel8080.Proofs.Disassembly.Prediction
import Intel8080.Proofs.Disassembly.Assembly
import Intel8080.Proofs.Disassembly.Window
import Intel8080.Proofs.Machine.FaultHistory
import Intel8080.Proofs.Machine.FlagConsistency
import Intel8080.Proofs.Machine.Concealment
import Intel8080.Proofs.Machine.Reset
import Intel8080.Proofs.Machine.Records
import Intel8080.Proofs.CommandLine.Parsing
import Intel8080.Proofs.CommandLine.Outcome
import Intel8080.Proofs.Memory.History
import Intel8080.Proofs.Cpu.AccessOrder
import Intel8080.Proofs.Registers.CarryChain
import Intel8080.Proofs.Memory.WordLayout
import Intel8080.Proofs.CommandLine.Address
import Intel8080.Proofs.Checked.Machine
import Intel8080.Proofs.Disassembly.Locality
import Intel8080.Proofs.Machine.Retention

import WordMachine.Main
import WordMachine.Proofs.Word
import WordMachine.Proofs.Store
import WordMachine.Proofs.Input
import WordMachine.Proofs.Core
import WordMachine.Proofs.Image
import WordMachine.Proofs.Instruction.Deed
import WordMachine.Proofs.Instruction.Answer
import WordMachine.Proofs.Instruction.Table
import WordMachine.Proofs.Instruction.Bounds
import WordMachine.Proofs.Machine.Step
import WordMachine.Proofs.Machine.Relabel
import WordMachine.Proofs.Machine.Limit
import WordMachine.Proofs.Machine.Run
import WordMachine.Proofs.Machine.Calls
import WordMachine.Proofs.Machine.Bounds
import WordMachine.Proofs.Machine.Lifecycle
import WordMachine.Proofs.Machine.Observation
import WordMachine.Proofs.Machine.Output
import WordMachine.Proofs.Instruction.Extent
import WordMachine.Proofs.Instruction.Decode
import WordMachine.Proofs.Machine.Commit
import WordMachine.Proofs.Machine.Nesting
import WordMachine.Proofs.Machine.Reading
import WordMachine.Proofs.Instruction.Redo
import WordMachine.Proofs.Machine.Moments
import WordMachine.Proofs.Machine.Redo
import WordMachine.Proofs.Machine.Errors
import WordMachine.Proofs.Instruction.Cause
import WordMachine.Proofs.Machine.Cause
import WordMachine.Proofs.Listing
import WordMachine.Proofs.Instruction.Checked
import WordMachine.Proofs.Machine.Checked
import WordMachine.Proofs.Instruction.Footprint
import WordMachine.Proofs.Machine.Footprint
import WordMachine.Proofs.Machine.Reachable
import WordMachine.Proofs.Machine.Listed
import WordMachine.Proofs.Machine.Monitor
import WordMachine.Proofs.Json.Document
import WordMachine.Proofs.Config
import WordMachine.Proofs.CommandLine.Arguments
import WordMachine.Proofs.CommandLine.Command
import WordMachine.Proofs.Snapshot
import WordMachine.Proofs.Text.Hex
import WordMachine.Proofs.Instruction.Text
import WordMachine.Proofs.Assembly
import WordMachine.Proofs.Listing.Text
import WordMachine.Proofs.Listing.Tiling
import WordMachine.Proofs.Machine.AddressSpace
import WordMachine.Proofs.Machine.Account
import WordMachine.Proofs.Machine.Emission
import WordMachine.Proofs.Fault

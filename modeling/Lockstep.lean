import Lockstep.Machine.Descent
import Lockstep.Machine.Path
import Lockstep.Machine.Relocation
import Lockstep.Machine.Saving
import Lockstep.Pattern.Backtracking
import Lockstep.Pattern.Grammar
import Lockstep.Pattern.Language
import Lockstep.Pattern.Spelling
import Lockstep.Pattern.Writable
import Lockstep.Program.Dump
import Lockstep.Program.Layout
import Lockstep.Program.SlotWord
import Lockstep.Program.Splicing
import Lockstep.Regex.Renewal
import Lockstep.Listing.Assembly
import Lockstep.Text.Conversion
import Lockstep.Text.Decoding
import Lockstep.Proofs.Failure
import Lockstep.Proofs.Program.Forwarding
import Lockstep.Proofs.Program.Placement
import Lockstep.Proofs.Program.Emission
import Lockstep.Proofs.Program.Linking
import Lockstep.Proofs.Program.Splicing
import Lockstep.Proofs.Program.Resolution
import Lockstep.Proofs.Program.Slots
import Lockstep.Proofs.Program.Implements
import Lockstep.Proofs.Program.LoopsConsume
import Lockstep.Proofs.Program.Traversal
import Lockstep.Proofs.Machine.Walk
import Lockstep.Proofs.Machine.Admission
import Lockstep.Proofs.Machine.DepthFirst
import Lockstep.Proofs.Machine.Priority
import Lockstep.Proofs.Machine.Acceptance
import Lockstep.Proofs.Machine.Grounded
import Lockstep.Proofs.Machine.Descent
import Lockstep.Proofs.Machine.Simulation
import Lockstep.Proofs.Machine.Append
import Lockstep.Proofs.Machine.Saving
import Lockstep.Proofs.Machine.Trace
import Lockstep.Proofs.Machine.Execution
import Lockstep.Proofs.Pattern.Lexing
import Lockstep.Proofs.Pattern.Completeness
import Lockstep.Proofs.Pattern.Soundness
import Lockstep.Proofs.Pattern.Spelling
import Lockstep.Proofs.Pattern.Backtracking
import Lockstep.Proofs.Pattern.Groups
import Lockstep.Proofs.Pattern.Widening
import Lockstep.Proofs.Pattern.Division
import Lockstep.Proofs.Pattern.Completion
import Lockstep.Proofs.Pattern.Fault
import Lockstep.Proofs.Text.Boundary
import Lockstep.Proofs.Text.Conversion
import Lockstep.Proofs.Text.Decoding
import Lockstep.Proofs.Regex.Build
import Lockstep.Proofs.Regex.Search
import Lockstep.Proofs.Regex.Widening
import Lockstep.Proofs.Regex.Session
import Lockstep.Proofs.Regex.Language
import Lockstep.Proofs.Regex.Backtracking
import Lockstep.Proofs.Regex.Captures
import Lockstep.Proofs.Regex.Leftmost
import Lockstep.Proofs.Regex.Groups
import Lockstep.Proofs.Regex.Remainder
import Lockstep.Proofs.Regex.Spelling
import Lockstep.Proofs.Regex.Limit
import Lockstep.Proofs.Listing.Operand
import Lockstep.Proofs.Listing.Statement
import Lockstep.Proofs.Listing.Label
import Lockstep.Proofs.Listing.RoundTrip
import Lockstep.Proofs.Listing.Events
import Lockstep.Proofs.Listing.Translation
import Lockstep.Proofs.Listing.Assembly

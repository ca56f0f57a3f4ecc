import SkipCode.Main
import SkipCode.Action.Json
import SkipCode.Image.Decoding
import SkipCode.Json.Writer
import SkipCode.Source.Build
import SkipCode.Value.Json
import SkipCode.Proofs.Outcomes
import SkipCode.Proofs.Stacks
import SkipCode.Proofs.Shipping
import SkipCode.Proofs.Guards
import SkipCode.Proofs.Isolation
import SkipCode.Proofs.Instances
import SkipCode.Proofs.Readers
import SkipCode.Proofs.RoundTrip
import SkipCode.Proofs.DeepWrites
import SkipCode.Proofs.Rejections
import SkipCode.Proofs.Operands
import SkipCode.Proofs.Activations
import SkipCode.Proofs.Negation
import SkipCode.Proofs.Receivers
import SkipCode.Proofs.Results
import SkipCode.Proofs.Allocation
import SkipCode.Proofs.SharedLayouts
import SkipCode.Proofs.StackCalls
import SkipCode.Proofs.Acquisition
import SkipCode.Proofs.Handles
import SkipCode.Proofs.Positions
import SkipCode.Proofs.Accounts
import SkipCode.Proofs.LoopExits
import SkipCode.Proofs.Exhaustion
import SkipCode.Proofs.CleanPasses
import SkipCode.Proofs.Warnings
import SkipCode.Proofs.ArrayLimits
import SkipCode.Proofs.ReportedLengths
import SkipCode.Proofs.StepLimits
import SkipCode.Proofs.LoopOwners
import SkipCode.Proofs.Hygiene
import SkipCode.Proofs.Callees
import SkipCode.Proofs.Edits
import SkipCode.Proofs.Holdings
import SkipCode.Proofs.Places
import SkipCode.Proofs.Termination
import SkipCode.Proofs.Compilation

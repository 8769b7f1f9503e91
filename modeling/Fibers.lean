import Fibers.Interchange
import Fibers.Scenario
import Fibers.Text.Masked
import Fibers.Proofs.Act
import Fibers.Proofs.Phases
import Fibers.Proofs.Census
import Fibers.Proofs.Sound
import Fibers.Proofs.Change
import Fibers.Proofs.Switch
import Fibers.Proofs.Move
import Fibers.Proofs.Operations
import Fibers.Proofs.Transfer
import Fibers.Proofs.Cycle
import Fibers.Proofs.Turn
import Fibers.Proofs.Names
import Fibers.Proofs.Step
import Fibers.Proofs.Reach
import Fibers.Proofs.Abort
import Fibers.Proofs.Dead
import Fibers.Proofs.Return
import Fibers.Proofs.Home
import Fibers.Proofs.Ending
import Fibers.Proofs.Lifecycle
import Fibers.Proofs.Root
import Fibers.Proofs.Edit
import Fibers.Proofs.Report
import Fibers.Proofs.Create
import Fibers.Proofs.Roster
import Fibers.Proofs.Ledger
import Fibers.Proofs.Slots
import Fibers.Proofs.Books
import Fibers.Proofs.Trade
import Fibers.Proofs.Stay
import Fibers.Proofs.Conserve
import Fibers.Proofs.Hub
import Fibers.Proofs.Likeness
import Fibers.Proofs.Start
import Fibers.Proofs.Underway
import Fibers.Proofs.Release
import Fibers.Proofs.Coroutine
import Fibers.Proofs.Visit
import Fibers.Proofs.Interleave
import Fibers.Proofs.Linear
import Fibers.Proofs.Mirror
import Fibers.Proofs.Parallel
import Fibers.Proofs.Tandem
import Fibers.Proofs.Anchor
import Fibers.Proofs.Itself
import Fibers.Proofs.Flags
import Fibers.Proofs.Label
import Fibers.Proofs.Unwind
import Fibers.Proofs.Keep
import Fibers.Proofs.Outcome
import Fibers.Proofs.Panic
import Fibers.Proofs.Tuning
import Fibers.Proofs.Isolation
import Fibers.Proofs.Shift
import Fibers.Proofs.Pool
import Fibers.Proofs.Detail
import Fibers.Proofs.Numeral
import Fibers.Proofs.Lengths
import Fibers.Proofs.Registration
import Fibers.Proofs.Quotation
import Fibers.Proofs.Rejection

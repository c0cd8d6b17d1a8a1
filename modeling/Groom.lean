import Groom.Main
import Groom.Runner.Playbook
import Groom.Runner.Stub
import Groom.Proofs.Candour
import Groom.Proofs.Interrupt
import Groom.Proofs.Formatting
import Groom.Proofs.Phases
import Groom.Proofs.FormatChain
import Groom.Proofs.Composition
import Groom.Proofs.Database
import Groom.Proofs.Edits
import Groom.Proofs.Convergence
import Groom.Proofs.Invariant
import Groom.Proofs.Schedule
import Groom.Proofs.Policies
import Groom.Proofs.Aliases
import Groom.Proofs.Replay
import Groom.Proofs.Revision
import Groom.Proofs.Refusals
import Groom.Proofs.Independence
import Groom.Proofs.Renaming
import Groom.Proofs.Overrides
import Groom.Proofs.Checks
import Groom.Proofs.Passes
import Groom.Proofs.Reporting
import Groom.Proofs.Termination
import Groom.Proofs.Fusion
import Groom.Proofs.Naming
import Groom.Proofs.Scripted
import Groom.Proofs.Settings
import Groom.Proofs.Template
import Groom.Proofs.Merging
import Groom.Proofs.Absolute
import Groom.Proofs.Reported
import Groom.Proofs.Verdict

import FlatScript.Main
import FlatScript.Program.Size
import FlatScript.Proofs.Concatenation
import FlatScript.Proofs.Reservation
import FlatScript.Proofs.Typing
import FlatScript.Proofs.Spacing
import FlatScript.Proofs.Stopping
import FlatScript.Proofs.Feeding
import FlatScript.Proofs.Replies
import FlatScript.Proofs.Location
import FlatScript.Proofs.Carets
import FlatScript.Proofs.Names
import FlatScript.Proofs.Shapes
import FlatScript.Proofs.Regrouping
import FlatScript.Proofs.Faults
import FlatScript.Proofs.Hints
import FlatScript.Proofs.Assignment
import FlatScript.Proofs.Simulation
import FlatScript.Proofs.Framing
import FlatScript.Proofs.Commuting
import FlatScript.Proofs.Absence
import FlatScript.Proofs.Renaming
import FlatScript.Proofs.Missing
import FlatScript.Proofs.Offsets
import FlatScript.Proofs.Partition
import FlatScript.Proofs.Alignment
import FlatScript.Proofs.Nesting
import FlatScript.Proofs.Colours
import FlatScript.Proofs.Walk
import FlatScript.Proofs.Progress
import FlatScript.Proofs.Literals
import FlatScript.Proofs.Delivery
import FlatScript.Proofs.History
import FlatScript.Proofs.Peeking

import DeskScript.Main
import DeskScript.Proofs.Attempts
import DeskScript.Proofs.Bounds
import DeskScript.Proofs.Census
import DeskScript.Proofs.Confinement
import DeskScript.Proofs.Delivery
import DeskScript.Proofs.Foretelling
import DeskScript.Proofs.Isolation
import DeskScript.Proofs.Journaling
import DeskScript.Proofs.Naming
import DeskScript.Proofs.Omissions
import DeskScript.Proofs.Patterns
import DeskScript.Proofs.Pausing
import DeskScript.Proofs.Ranking
import DeskScript.Proofs.Recording
import DeskScript.Proofs.Reloading
import DeskScript.Proofs.Reordering
import DeskScript.Proofs.Rewriting
import DeskScript.Proofs.Telling
import DeskScript.Proofs.Tending
import DeskScript.Proofs.Traversal
import DeskScript.Proofs.Undisturbed
import DeskScript.Proofs.Vetting
import DeskScript.Proofs.Windows

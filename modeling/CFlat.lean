import CFlat.SecureWorld.Report
import CFlat.SecureWorld.LoopDepth
import CFlat.SecureWorld.Handles
import CFlat.SecureWorld.Evidence
import CFlat.SecureWorld.Bracketing
import CFlat.SecureWorld.Gate
import CFlat.SecureWorld.Atomicity
import CFlat.SecureWorld.Exits
import CFlat.SecureWorld.Conservation
import CFlat.SecureWorld.Frames
import CFlat.SecureWorld.Iterations
import CFlat.SecureWorld.Lanes
import CFlat.SecureWorld.Instance
import CFlat.Runtime.Delivery
import CFlat.Runtime.Untrusted
import CFlat.Runtime.Symbolic
import CFlat.Runtime.Returns
import CFlat.Runtime.Switches
import CFlat.Runtime.Processes
import CFlat.Runtime.OneSession
import CFlat.Host.Ledger
import CFlat.Pass.Pairing
import CFlat.Pass.Insertion
import CFlat.Pass.WellFormed
import CFlat.Syringe.Inputs
import CFlat.Syringe.Lines
import CFlat.System.Overhead

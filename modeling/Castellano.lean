import Castellano.Main
import Castellano.Node.Surface
import Castellano.Proofs.Decimal
import Castellano.Proofs.Depth
import Castellano.Proofs.ReadBack
import Castellano.Proofs.Readings
import Castellano.Proofs.Relabel
import Castellano.Proofs.RoundTrip
import Castellano.Proofs.Scan
import Castellano.Proofs.Sequel
import Castellano.Proofs.Shape
import Castellano.Proofs.SourceOrder
import Castellano.Proofs.SurfaceTokens
import Castellano.Proofs.Terminator
import Castellano.Proofs.Places
import Castellano.Proofs.Invariant
import Castellano.Proofs.Values
import Castellano.Proofs.Tasks
import Castellano.Proofs.Sessions
import Castellano.Proofs.FreeNames
import Castellano.Proofs.Frame
import Castellano.Proofs.Layout
import Castellano.Proofs.RelabelRun
import Castellano.Proofs.Respelling
import Castellano.Proofs.Lookahead
import Castellano.Proofs.Buffer
import Castellano.Proofs.RunLimits
import Castellano.Proofs.Recursion
import Castellano.Proofs.Windows
import Castellano.Proofs.Decomposition
import Castellano.Proofs.Movements
import Castellano.Proofs.OperatorChains
import Castellano.Proofs.Otherwise
import Castellano.Proofs.Diagnosis
import Castellano.Proofs.Arithmetic
import Castellano.Proofs.Loops
import Castellano.Proofs.Chronicle
import Castellano.Proofs.SilentFaults
import Castellano.Proofs.AssignedValue
import Castellano.Proofs.Drawing
import Castellano.Proofs.Printing
import Castellano.Proofs.Outlines
import Castellano.Proofs.JsonReading
import Castellano.Proofs.Numerals
import Castellano.Proofs.PlaceValue
import Castellano.Proofs.Stream
import Castellano.Proofs.Congruence
import Castellano.Proofs.OnDemand
import Castellano.Proofs.Positions

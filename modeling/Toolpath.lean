import Toolpath.FrontEnd.Highlight
import Toolpath.Main
import Toolpath.Tick.Callbacks
import Toolpath.Numeric.Fingerprint
import Toolpath.Playback.Archive
import Toolpath.Proofs.Drawing.Lowering
import Toolpath.Proofs.Drawing.Sections
import Toolpath.Proofs.Drawing.Readable
import Toolpath.Proofs.Drawing.Writer
import Toolpath.Proofs.Gcode.Concatenation
import Toolpath.Proofs.Playback.Sharing
import Toolpath.Proofs.Session.Fitting
import Toolpath.Proofs.Tick.Conservation
import Toolpath.Proofs.Tick.Reentrance
import Toolpath.Proofs.Drawing.PenLift
import Toolpath.Proofs.Numeric.Exact
import Toolpath.Proofs.Playback.RunLength
import Toolpath.Proofs.Session.Coherence
import Toolpath.Proofs.Gcode.Acceptance
import Toolpath.Proofs.Tick.Drivers
import Toolpath.Proofs.Tick.Pausing
import Toolpath.Proofs.FrontEnd.Colouring
import Toolpath.Proofs.Session.Reopening
import Toolpath.Proofs.FrontEnd.Freshness
import Toolpath.Proofs.Tick.Budget
import Toolpath.Proofs.Playback.Listening
import Toolpath.Proofs.Gcode.Coverage
import Toolpath.Proofs.Gcode.Bare
import Toolpath.Proofs.Gcode.Course
import Toolpath.Proofs.View
import Toolpath.Proofs.Geometry.Arcs
import Toolpath.Proofs.FrontEnd.Selection
import Toolpath.Proofs.Geometry.Grid
import Toolpath.Proofs.Gcode.Coordinates
import Toolpath.Proofs.Session.Settling
import Toolpath.Proofs.Playback.Progress
import Toolpath.Proofs.Gcode.Constants
import Toolpath.Proofs.Drawing.Vertices
import Toolpath.Proofs.Drawing.Closing
import Toolpath.Proofs.Config.Persistence

import AgvPro.Base.CrcBurst
import AgvPro.Base.DeadReckoning
import AgvPro.Base.Decoding
import AgvPro.Base.Hunting
import AgvPro.Base.Link
import AgvPro.Base.Odometry
import AgvPro.Base.Timeout
import AgvPro.Dock.Admission
import AgvPro.Dock.Framing
import AgvPro.Dock.Goal
import AgvPro.Dock.Guided
import AgvPro.Dock.Recharger
import AgvPro.Dock.Velocity
import AgvPro.Drive.Commands
import AgvPro.Drive.Feedback
import AgvPro.Drive.Teleop
import AgvPro.Lidar.Scan
import AgvPro.Map.Grid

import Reclaim.Background.Session
import Reclaim.Background.Target
import Reclaim.Describe
import Reclaim.Settings.Load
import Reclaim.Volume.Backend
import Reclaim.Proofs.Area.Counts
import Reclaim.Proofs.Area.Filling
import Reclaim.Proofs.Area.PayOff
import Reclaim.Proofs.Area.Pruning
import Reclaim.Proofs.Area.Reclassify
import Reclaim.Proofs.Area.Release
import Reclaim.Proofs.Area.Sections
import Reclaim.Proofs.Background.Pacing
import Reclaim.Proofs.Background.Reporting
import Reclaim.Proofs.Bitmap.Edits
import Reclaim.Proofs.Geometry.Words
import Reclaim.Proofs.Migration.Background
import Reclaim.Proofs.Migration.Bound
import Reclaim.Proofs.Migration.Discipline
import Reclaim.Proofs.Migration.Handover
import Reclaim.Proofs.Migration.Ownership
import Reclaim.Proofs.Migration.Statistics
import Reclaim.Proofs.Settings.Environment
import Reclaim.Proofs.Victim.Benefit
import Reclaim.Proofs.Victim.Claims
import Reclaim.Proofs.Victim.Coverage
import Reclaim.Proofs.Victim.Cursor
import Reclaim.Proofs.Victim.Optimal
import Reclaim.Proofs.Victim.Ranking
import Reclaim.Proofs.Victim.Safety

import MotionScript.Bus
import MotionScript.CancelToken
import MotionScript.Controller.Format
import MotionScript.Main
import MotionScript.Proofs.EventProtocol
import MotionScript.Proofs.PlanLoading
import MotionScript.Proofs.ProgramExecution
import MotionScript.Proofs.CancelledRuns
import MotionScript.Proofs.RestsBetweenVisits
import MotionScript.Proofs.EndingLoops
import MotionScript.Proofs.SavedPlans
import MotionScript.Proofs.DepthFirstPreorder
import MotionScript.Proofs.PlanRoundTrip
import MotionScript.Proofs.RenamedExecution
import MotionScript.Proofs.LoadedExecution
import MotionScript.Proofs.BusDelivery
import MotionScript.Proofs.StepLimit
import MotionScript.Proofs.ThumbSticks
import MotionScript.Proofs.SeenPresses
import MotionScript.Proofs.GraphGrowth
import MotionScript.Proofs.PlanFormat
import MotionScript.Proofs.StoreAgreement
import MotionScript.Proofs.CancelWaiters
import MotionScript.Proofs.PlanAcceptance
import MotionScript.Proofs.ValidSnapshots
import MotionScript.Proofs.BlockNesting
import MotionScript.Proofs.GraphRendering
import MotionScript.Proofs.LiteralSearch
import MotionScript.Proofs.LineArguments
import MotionScript.Proofs.VirtualTime
import MotionScript.Proofs.TailSearch
import MotionScript.Proofs.BranchSlots
import MotionScript.Proofs.RecordedLoops

import ModeSchedule.Main
import ModeSchedule.Proofs.Steps
import ModeSchedule.Proofs.Sorting
import ModeSchedule.Proofs.Pruning
import ModeSchedule.Proofs.Numbers
import ModeSchedule.Proofs.Dominance
import ModeSchedule.Proofs.Requests
import ModeSchedule.Proofs.Timekeeping
import ModeSchedule.Proofs.Simulation.Walk
import ModeSchedule.Proofs.Simulation.Locality
import ModeSchedule.Proofs.Simulation.Blocks
import ModeSchedule.Proofs.Simulation.Spending
import ModeSchedule.Proofs.Search.Rounds
import ModeSchedule.Proofs.Search.Sweeps
import ModeSchedule.Proofs.Search.Replay
import ModeSchedule.Proofs.Search.Fronts
import ModeSchedule.Proofs.Search.Branching
import ModeSchedule.Proofs.Search.Coverage
import ModeSchedule.Proofs.Search.Exhaustive
import ModeSchedule.Proofs.Search.Refinement
import ModeSchedule.Proofs.Search.Progress
import ModeSchedule.Proofs.Search.Limits
import ModeSchedule.Proofs.Search.Truncation
import ModeSchedule.Proofs.Search.Dialogue
import ModeSchedule.Proofs.Search.Pauses
import ModeSchedule.Proofs.Canonical
import ModeSchedule.Proofs.Search.Horizon
import ModeSchedule.Proofs.Search.SingleMachine
import ModeSchedule.Proofs.Swarm.Tracking
import ModeSchedule.Proofs.Likeness
import ModeSchedule.Proofs.Simulation.Renaming
import ModeSchedule.Proofs.Search.Reordering
import ModeSchedule.Proofs.Swarm.Improvement
import ModeSchedule.Proofs.Counting
import ModeSchedule.Proofs.Swarm.Box
import ModeSchedule.Proofs.Simulation.Measuring
import ModeSchedule.Proofs.Archive.RoundTrip
import ModeSchedule.Proofs.Archive.Malformed
import ModeSchedule.Proofs.Archive.Timespec
import ModeSchedule.Proofs.Archive.Limits
import ModeSchedule.Proofs.Tolerance
import ModeSchedule.Proofs.Search.Undominated
import ModeSchedule.Proofs.Search.Survival
import ModeSchedule.Proofs.Stability
import ModeSchedule.Proofs.Deduplication
import ModeSchedule.Proofs.Search.Drift
import ModeSchedule.Proofs.Simulation.Pieces
import ModeSchedule.Proofs.Simulation.Scan
import ModeSchedule.Proofs.Simulation.Undershoot
import ModeSchedule.Proofs.Search.Lineage
import ModeSchedule.Proofs.Search.Atomicity
import ModeSchedule.Proofs.Simulation.Normalization
import ModeSchedule.Proofs.Simulation.Recording
import ModeSchedule.Proofs.Swarm.Population
import ModeSchedule.Proofs.RunningTime
import ModeSchedule.Proofs.Encoding
import ModeSchedule.Proofs.Disorder
import ModeSchedule.Proofs.ReportOrder

import EdgePlacement.Text.Digits
import EdgePlacement.Text.Printable
import EdgePlacement.Text.Quoted
import EdgePlacement.Failure
import EdgePlacement.File
import EdgePlacement.Json.Token
import EdgePlacement.Json.Value
import EdgePlacement.Json.Shape
import EdgePlacement.Json.Quoted
import EdgePlacement.Toml.Value
import EdgePlacement.Toml.Scalar
import EdgePlacement.Toml.Document
import EdgePlacement.Size.Search
import EdgePlacement.Size.Table
import EdgePlacement.FairQueue
import EdgePlacement.Coordinator
import EdgePlacement.Placement.Greedy
import EdgePlacement.Placement.Solution
import EdgePlacement.Placement.Snapshot
import EdgePlacement.Placement.Prepared
import EdgePlacement.Placement.Allocator
import EdgePlacement.Network.Registry
import EdgePlacement.Network.State
import EdgePlacement.Network.Replay
import EdgePlacement.Settings
import EdgePlacement.CommandLine.Arguments
import EdgePlacement.CommandLine.Run
import EdgePlacement.Main
import EdgePlacement.Proofs.Text.Bytes
import EdgePlacement.Proofs.Text.Digits
import EdgePlacement.Proofs.Json.Spelling
import EdgePlacement.Proofs.FairQueue.Order
import EdgePlacement.Proofs.FairQueue.Index
import EdgePlacement.Proofs.FairQueue.Operations
import EdgePlacement.Proofs.FairQueue.Refinement
import EdgePlacement.Proofs.Size.Search
import EdgePlacement.Proofs.Size.Table
import EdgePlacement.Proofs.Size.Division
import EdgePlacement.Proofs.Size.LinearScan
import EdgePlacement.Proofs.Placement.Requests
import EdgePlacement.Proofs.Placement.Haul
import EdgePlacement.Proofs.Placement.Walk
import EdgePlacement.Proofs.Placement.Consistency
import EdgePlacement.Proofs.Placement.Choice
import EdgePlacement.Proofs.Placement.Fairness
import EdgePlacement.Proofs.Placement.Packing
import EdgePlacement.Proofs.Placement.Snapshot
import EdgePlacement.Proofs.Placement.Prepared
import EdgePlacement.Proofs.FairQueue.Representation
import EdgePlacement.Proofs.FairQueue.Removal
import EdgePlacement.Proofs.FairQueue.Repair
import EdgePlacement.Proofs.Placement.Agreement
import EdgePlacement.Proofs.Placement.Tracking
import EdgePlacement.Proofs.Placement.Selections
import EdgePlacement.Proofs.Placement.Fronts
import EdgePlacement.Proofs.Placement.Staleness
import EdgePlacement.Proofs.Placement.WellFormed
import EdgePlacement.Proofs.Network.Site
import EdgePlacement.Proofs.Network.Service
import EdgePlacement.Proofs.Network.Occupancy
import EdgePlacement.Proofs.Network.Population
import EdgePlacement.Proofs.Network.Isolation
import EdgePlacement.Proofs.Network.Content
import EdgePlacement.Proofs.Network.Calls
import EdgePlacement.Proofs.Network.Slots
import EdgePlacement.Proofs.Network.Usage
import EdgePlacement.Proofs.Network.Lifetime
import EdgePlacement.Proofs.Network.InTurn
import EdgePlacement.Proofs.Network.Loading
import EdgePlacement.Proofs.Network.Reach
import EdgePlacement.Proofs.Network.Scan
import EdgePlacement.Proofs.Network.Refusal
import EdgePlacement.Proofs.Network.Again
import EdgePlacement.Proofs.Network.Strategies
import EdgePlacement.Proofs.Network.Rounds
import EdgePlacement.Proofs.Placement.Ready
import EdgePlacement.Proofs.Network.Single
import EdgePlacement.Proofs.CommandLine.Line
import EdgePlacement.Proofs.CommandLine.Output
import EdgePlacement.Proofs.Placement.FirstFit
import EdgePlacement.Proofs.Placement.Unranked
import EdgePlacement.Proofs.Placement.Remainder
import EdgePlacement.Proofs.Placement.FullScan
import EdgePlacement.Proofs.Placement.Descent
import EdgePlacement.Proofs.Placement.Ample
import EdgePlacement.Proofs.Network.Dangling
import EdgePlacement.Proofs.Network.Afresh
import EdgePlacement.Proofs.Network.Inquiry

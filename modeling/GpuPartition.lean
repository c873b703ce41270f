import GpuPartition.Enumeration
import GpuPartition.Enumeration.Walk
import GpuPartition.Arrangement.Row
import GpuPartition.Arrangement.Tally
import GpuPartition.Model.Words
import GpuPartition.Placement
import GpuPartition.Search.Script
import GpuPartition.Simulator.Rules
import GpuPartition.Simulator.Inspect
import GpuPartition.Device.Rig
import GpuPartition.Manager
import GpuPartition.Json.Reader
import GpuPartition.Json.Printer
import GpuPartition.Tree.Records
import GpuPartition.Config.File
import GpuPartition.Config.Folder
import GpuPartition.Main
import GpuPartition.Proofs.Arrangement.Count
import GpuPartition.Proofs.Arrangement.Successor
import GpuPartition.Proofs.Arrangement.Walk
import GpuPartition.Proofs.Tree
import GpuPartition.Proofs.Layout
import GpuPartition.Proofs.Calls
import GpuPartition.Proofs.Device.Lawful
import GpuPartition.Proofs.Search
import GpuPartition.Proofs.Manager.Attempt
import GpuPartition.Proofs.Manager.Keeps
import GpuPartition.Proofs.Model
import GpuPartition.Proofs.Simulator.Lawful
import GpuPartition.Proofs.Manager.FailureModel
import GpuPartition.Proofs.Packing
import GpuPartition.Proofs.Enumeration
import GpuPartition.Proofs.Placement
import GpuPartition.Proofs.Simulator.Placing
import GpuPartition.Proofs.Simulator.RoundTrip
import GpuPartition.Proofs.Simulator.Safety
import GpuPartition.Proofs.Simulator.Alike
import GpuPartition.Proofs.Simulator.History
import GpuPartition.Proofs.Exchange
import GpuPartition.Proofs.Simulator.Reordering
import GpuPartition.Proofs.Manager.Targets
import GpuPartition.Proofs.Config
import GpuPartition.Proofs.Simulator.Targets
import GpuPartition.Proofs.Manager.Tracking
import GpuPartition.Proofs.Device.Watched
import GpuPartition.Proofs.Simulator.Faultless
import GpuPartition.Proofs.Rollout
import GpuPartition.Proofs.Numeral
import GpuPartition.Proofs.Profile
import GpuPartition.Proofs.Simulator.Capacity
import GpuPartition.Proofs.Layout.Building
import GpuPartition.Proofs.Json
import GpuPartition.Proofs.Json.Lawful
import GpuPartition.Proofs.Layout.Json
import GpuPartition.Proofs.Toml.Keys
import GpuPartition.Proofs.Toml.Values
import GpuPartition.Proofs.Toml.Lines
import GpuPartition.Proofs.Toml.Sections
import GpuPartition.Proofs.Toml.Placing
import GpuPartition.Proofs.Toml.Document
import GpuPartition.Proofs.Toml.Lawful
import GpuPartition.Proofs.Config.File
import GpuPartition.Proofs.Arrangement.Tally
import GpuPartition.Proofs.Enumeration.Walk
import GpuPartition.Proofs.Config.Resolve
import GpuPartition.Proofs.Config.Validate
import GpuPartition.Proofs.Config.Overflow
import GpuPartition.Proofs.Model.Check
import GpuPartition.Proofs.Simulator.Granting
import GpuPartition.Proofs.Simulator.Numbers
import GpuPartition.Proofs.Simulator.Destroying
import GpuPartition.Proofs.Simulator.Clearing
import GpuPartition.Proofs.Simulator.Attempt
import GpuPartition.Proofs.Simulator.Switching
import GpuPartition.Proofs.Text
import GpuPartition.Proofs.Profile.Spelling
import GpuPartition.Proofs.Layout.Flattening
import GpuPartition.Proofs.Arrangement.Row

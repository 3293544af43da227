import FlexBSO.Raid5f.Layout
import FlexBSO.Lib.Machine
import FlexBSO.Raid5f.State
import FlexBSO.Raid5f.Step
import FlexBSO.Raid5f.Invariant
import FlexBSO.Raid5f.Frame
import FlexBSO.Raid5f.Lifecycle
import FlexBSO.Raid5f.Effects
import FlexBSO.Raid5f.Setup
import FlexBSO.Raid5f.Control
import FlexBSO.Raid5f.Steps
import FlexBSO.Raid5f.Runs
import FlexBSO.Raid.Bdev
import FlexBSO.Raid.Levels
import FlexBSO.Raid.Submit
import FlexBSO.Raid.Region
import FlexBSO.Raid.Module
import FlexBSO.Raid.Machine
import FlexBSO.Raid.Effects
import FlexBSO.Raid.Accounting
import FlexBSO.Raid.Moves
import FlexBSO.Raid.Create
import FlexBSO.Compress.Core
import FlexBSO.Compress.Interop
import FlexBSO.Passthru.Io
import FlexBSO.Passthru.Trim
import FlexBSO.Passthru.Copies
import FlexBSO.Passthru.Writes
import FlexBSO.Passthru.Reads
import FlexBSO.Passthru.Requests
import FlexBSO.Passthru.Blocks
import FlexBSO.Raid.Geometry
import FlexBSO.Raid5f.Mapping
import FlexBSO.Raid.Placement
import FlexBSO.Raid5f.Refused
import FlexBSO.Raid.Parents
import FlexBSO.Compress.Files
import FlexBSO.Compress.Sizes
import FlexBSO.Passthru.Register
import FlexBSO.Raid.Ranges
import FlexBSO.Raid.Concat
import FlexBSO.Raid.Legs
import FlexBSO.Raid.Counters
import FlexBSO.Raid5f.Segments
import FlexBSO.Raid5f.Quiet
import FlexBSO.Raid5f.Content
import FlexBSO.Raid5f.Data
import FlexBSO.Raid5f.Stores
import FlexBSO.Raid5f.Calm
import FlexBSO.Raid5f.Device
import FlexBSO.Raid.Steady
import FlexBSO.Raid.Answers
import FlexBSO.Raid.Lifetime
import FlexBSO.Raid.Teardown
import FlexBSO.Raid.Channels
import FlexBSO.Raid.Whole
import FlexBSO.Lib.Store
import FlexBSO.Raid.Mirror
import FlexBSO.Raid.StripeSet

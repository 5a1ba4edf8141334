import BenchBox.Support.Ragged
import BenchBox.Support.RoundRobin
import BenchBox.Support.StablePartition
import BenchBox.Support.NestedMap
import BenchBox.Support.Rank
import BenchBox.Support.PartialLoop
import BenchBox.Support.Ledger
import BenchBox.Support.Custody
import BenchBox.Support.Calls
import BenchBox.Support.Regions
import BenchBox.Support.FixedWidth
import BenchBox.Support.Bytes
import BenchBox.Support.Framed
import BenchBox.Support.RoundUp
import BenchBox.Support.Intervals
import BenchBox.Support.Words
import BenchBox.Support.Padding
import BenchBox.Support.Outline
import BenchBox.Support.Decimal
import BenchBox.Support.Significand
import BenchBox.Support.Extremes
import BenchBox.Math
import BenchBox.Parse
import BenchBox.ParseList
import BenchBox.Format
import BenchBox.Console
import BenchBox.Harness.Range
import BenchBox.Harness.Sweep
import BenchBox.Harness.Defaults
import BenchBox.Harness.Expansion
import BenchBox.Harness.Grammar
import BenchBox.Harness.Lists
import BenchBox.Harness.Names
import BenchBox.Harness.Run
import BenchBox.Harness.Language
import BenchBox.Harness.Benchmarks
import BenchBox.Harness.Filtered
import BenchBox.Harness.Estimate
import BenchBox.Harness.Summary
import BenchBox.Harness.Table
import BenchBox.Threading.Topology
import BenchBox.Threading.Mapping
import BenchBox.Threading.Placement
import BenchBox.Threading.PlacementOrder
import BenchBox.Threading.Balance
import BenchBox.Threading.Flatten
import BenchBox.Threading.Linux.Builder
import BenchBox.Threading.Linux.Files
import BenchBox.Threading.Linux.Tree
import BenchBox.Threading.Linux.Tiers
import BenchBox.Threading.Linux.Order
import BenchBox.Threading.Linux.Groups
import BenchBox.Threading.MacOS
import BenchBox.Threading.Windows.Builder
import BenchBox.Threading.Windows.Buffer
import BenchBox.Threading.Windows.Tree
import BenchBox.Threading.Windows.Tiers
import BenchBox.Threading.Windows.Groups
import BenchBox.Threading.Groups
import BenchBox.Threading.Affinity
import BenchBox.Threading.Debug
import BenchBox.Memory.Buffer
import BenchBox.Memory.Ownership
import BenchBox.Memory.Leaks
import BenchBox.Memory.Allocator
import BenchBox.Memory.Bump
import BenchBox.Memory.Heaps
import BenchBox.Memory.LargePages
import BenchBox.Memory.Meminfo
import BenchBox.Memory.SystemCalls
import BenchBox.Isa.Cpuid
import BenchBox.Isa.Brand
import BenchBox.Isa.IsaString
import BenchBox.Isa.IsaReading
import BenchBox.Isa.TscClock
import BenchBox.Timer
import BenchBox.TimerDetection
import BenchBox.TimerClocks

import JellyBench.Batching
import JellyBench.SameStore
import JellyBench.LastWriter
import JellyBench.StoreFaults
import JellyBench.CommandLine
import JellyBench.RandomBlobCache
import JellyBench.Lib.Rounding
import JellyBench.WriteBenchmark
import JellyBench.Pacing
import JellyBench.Sequence
import JellyBench.Arguments
import JellyBench.JellyWrite
import JellyBench.Requests
import JellyBench.Sweep
import JellyBench.Grammar
import JellyBench.Elapsed
import JellyBench.ProcessMonitor
import JellyBench.Report
import JellyBench.Deltas
import JellyBench.Peaks
import JellyBench.Benchmark
import JellyBench.Workload
import JellyBench.Drain
import JellyBench.SteadyRate
import JellyBench.Stores
import JellyBench.Durability
import JellyBench.SQLiteFaults
import JellyBench.Lifetime
import JellyBench.ProcFiles
import JellyBench.Configurations
import JellyBench.Figures
import JellyBench.DiskUsage
import JellyBench.Output

import Tailslayer.Pool.Lanes
import Tailslayer.Storage
import Tailslayer.LayoutLanes
import Tailslayer.Spec.BoundedList
import Tailslayer.StorageRefine
import Tailslayer.Pool.LaneWrap
import Tailslayer.StorageBounds
import Tailslayer.Pool.AddressBits
import Tailslayer.StorageChannels
import Tailslayer.StorageValidation
import Tailslayer.Pool.StepRun
import Tailslayer.Runtime
import Tailslayer.RuntimeWorker
import Tailslayer.RuntimeInv
import Tailslayer.RuntimeSteps
import Tailslayer.RuntimeRead
import Tailslayer.RuntimeProgress
import Tailslayer.RuntimeDrop
import Tailslayer.RuntimeSpawn
import Tailslayer.LowLevel
import Tailslayer.LowLevelCycle
import Tailslayer.Pool.Lists
import Tailslayer.LowLevelSteps
import Tailslayer.LowLevelLife
import Tailslayer.Pinning
import Tailslayer.StorageFaults
import Tailslayer.Pool.Loop
import Tailslayer.Pool.Pairing
import Tailslayer.PairSamples
import Tailslayer.PairSamplesStep
import Tailslayer.PairSamplesRun
import Tailslayer.Pool.Fair
import Tailslayer.RuntimeStaff
import Tailslayer.RuntimeStages
import Tailslayer.RuntimeLive
import Tailslayer.RuntimeClose
import Tailslayer.RuntimeCallers
import Tailslayer.RuntimeCallersRun
import Tailslayer.RuntimeCallersLive
import Tailslayer.LowLevelLive
import Tailslayer.BenchmarkCrash
import Tailslayer.BenchmarkLive
import Tailslayer.CheckedBuild
import Tailslayer.LinuxHardware
import Tailslayer.BenchmarkMemory
import Tailslayer.TrefiHistogram

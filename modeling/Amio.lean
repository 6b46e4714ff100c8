import Amio.Lib.System
import Amio.Lib.Tally
import Amio.Lib.Traces
import Amio.Lib.Labelled
import Amio.Lib.RowMajor
import Amio.Lib.Outcome
import Amio.Lib.BlockYaml
import Amio.Lib.Binary64
import Amio.Lib.Strtod
import Amio.Basic
import Amio.Staging.Pool
import Amio.Staging.PoolInvariant
import Amio.Staging.BestFit
import Amio.Staging.Ownership
import Amio.Staging.Addresses
import Amio.Workers.Pool
import Amio.Workers.Run
import Amio.Workers.Order
import Amio.Workers.Serial
import Amio.Workers.Cordon
import Amio.Workers.Pinning
import Amio.Workers.Shutdown
import Amio.Workers.Backpressure
import Amio.Workers.Progress
import Amio.Workers.CommSplit
import Amio.Boundary.HandleTable
import Amio.Boundary.HandleRefinement
import Amio.Boundary.HandleSlots
import Amio.Boundary.WritePath
import Amio.Boundary.Bounds
import Amio.Boundary.WriteSteps
import Amio.Boundary.WriteInvariant
import Amio.Boundary.WriteEffects
import Amio.Boundary.Admission
import Amio.Boundary.FlushBarrier
import Amio.Boundary.Completion
import Amio.Boundary.DriverAccess
import Amio.Boundary.DriverExclusion
import Amio.Prefetch.Queue
import Amio.Prefetch.Stage
import Amio.Prefetch.Synchronous
import Amio.Prefetch.Run
import Amio.Prefetch.Sections
import Amio.Prefetch.Selection
import Amio.Prefetch.Books
import Amio.Prefetch.Waiting
import Amio.Prefetch.Custody
import Amio.Prefetch.States
import Amio.Prefetch.Cancellation
import Amio.Prefetch.Resolution
import Amio.Prefetch.LookAhead
import Amio.Prefetch.SlidingWindow
import Amio.Prefetch.Nearest
import Amio.Boundary.SharedPool
import Amio.Boundary.Isolation
import Amio.Boundary.Delivery
import Amio.Boundary.Startup
import Amio.Api.Process
import Amio.Api.Turns
import Amio.Api.Moves
import Amio.Api.Registry
import Amio.Api.Finalize
import Amio.Api.Views
import Amio.Api.ReleaseView
import Amio.Api.Quiescence
import Amio.Api.Queues
import Amio.Api.DriverCalls
import Amio.Api.Orderly
import Amio.Api.Lifecycle
import Amio.Drivers.Packing
import Amio.Api.ViewShape
import Amio.Drivers.Grib2
import Amio.Drivers.Grib2Identity
import Amio.Drivers.Grib2Scan
import Amio.Drivers.Grib2Read
import Amio.Drivers.Grib2Write
import Amio.Drivers.StridedWrites
import Amio.Drivers.ZarrTime
import Amio.Drivers.NetCdf
import Amio.Drivers.NetCdfRoundTrip
import Amio.Drivers.NetCdfDelivery
import Amio.Drivers.NetCdfDims
import Amio.Drivers.NetCdfRewrites
import Amio.Drivers.NetCdfTime
import Amio.Drivers.NetCdfSlices
import Amio.Drivers.NetCdfPrefetch
import Amio.Drivers.NetCdfEndToEnd
import Amio.Drivers.ReadBuffers
import Amio.Config.Loader
import Amio.Config.Validation
import Amio.Config.Manifest
import Amio.Config.Codecs
import Amio.Config.RoundTrip
import Amio.Drivers.Attributes
import Amio.Drivers.AttributeReads
import Amio.Drivers.OpenState
import Amio.Drivers.NcZarr
import Amio.Drivers.Grib2Session
import Amio.Drivers.Grib2RoundTrip

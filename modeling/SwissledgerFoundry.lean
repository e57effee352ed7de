import SwissledgerFoundry.Api.FeeHistory
import SwissledgerFoundry.Api.GasEstimation
import SwissledgerFoundry.Cast.FindBlock
import SwissledgerFoundry.Cast.RlpItem
import SwissledgerFoundry.Chain.Runs
import SwissledgerFoundry.Chain.TimeManager
import SwissledgerFoundry.Cheatcodes.CallCounts
import SwissledgerFoundry.Cheatcodes.EmitOrder
import SwissledgerFoundry.Cheatcodes.MemorySafety
import SwissledgerFoundry.Cheatcodes.PrankRuns
import SwissledgerFoundry.Cheatcodes.RecordedRuns
import SwissledgerFoundry.Config.Remappings
import SwissledgerFoundry.Dump.RoundTrip
import SwissledgerFoundry.Evm.InstructionCounter
import SwissledgerFoundry.Fmt.Replacing
import SwissledgerFoundry.Fmt.Streaming
import SwissledgerFoundry.Forking.Registry
import SwissledgerFoundry.Forking.Rolling
import SwissledgerFoundry.Fuzz.Calibrate
import SwissledgerFoundry.Fuzz.Mutators
import SwissledgerFoundry.Fuzz.Override
import SwissledgerFoundry.Fuzz.Revert
import SwissledgerFoundry.History.Limits
import SwissledgerFoundry.History.Recent
import SwissledgerFoundry.History.Rollback
import SwissledgerFoundry.Linking.Create2
import SwissledgerFoundry.Mining.Batches
import SwissledgerFoundry.Mining.Quiescence
import SwissledgerFoundry.Pool.Conservation
import SwissledgerFoundry.Pool.NonceOrder
import SwissledgerFoundry.Pool.Waiting
import SwissledgerFoundry.Provider.ErrorText
import SwissledgerFoundry.Provider.Params
import SwissledgerFoundry.Shrink.Minimality
import SwissledgerFoundry.Slots.Mapping
import SwissledgerFoundry.Traces.Backtrace
import SwissledgerFoundry.Traces.SourceMap
import SwissledgerFoundry.Transaction.Conversion
import SwissledgerFoundry.Transaction.Receipt

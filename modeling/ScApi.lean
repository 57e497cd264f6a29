import ScApi.BsonReader
import ScApi.BsonNext
import ScApi.BsonBounds
import ScApi.BsonReads
import ScApi.BsonValues
import ScApi.BsonElements
import ScApi.SimData
import ScApi.Lib.Framing
import ScApi.Receive
import ScApi.RegisterReply
import ScApi.Lib.Runs
import ScApi.Session
import ScApi.Register
import ScApi.SessionRuns
import ScApi.ApiWorker
import ScApi.EventQueue
import ScApi.ActionBuilder
import ScApi.Lib.Sorting
import ScApi.Telemetry
import ScApi.TelemetryDecode
import ScApi.Variables
import ScApi.VariableBounds
import ScApi.BsonBuilder
import ScApi.BsonWriting
import ScApi.BsonCalls
import ScApi.BsonBuilding
import ScApi.BsonBalance
import ScApi.BsonReading
import ScApi.BsonArrays
import ScApi.Lib.SharedBlock
import ScApi.Sha512
import ScApi.Sha512Standard
import ScApi.ShmAccess
import ScApi.ArrayCopy
import ScApi.QueuePop
import ScApi.CommandChannel
import ScApi.CommandLink
import ScApi.Lib.BinaryPolynomial
import ScApi.ShmBsonData
import ScApi.Lib.ReadSpec
import ScApi.SessionHeader
import ScApi.Lib.Locks
import ScApi.Lib.LongerMemory
import ScApi.RegisterGrant
import ScApi.LockOrder
import ScApi.Listeners
import ScApi.SessionKey
import ScApi.SessionReports
import ScApi.PeriodicTimers
import ScApi.PendingCommands
import ScApi.CommandResults
import ScApi.ResponseBytes
import ScApi.CommandCallbacks
import ScApi.ApiCore
import ScApi.BsonWalk
import ScApi.Lib.Related
import ScApi.BuilderRelations
import ScApi.BuilderReuse
import ScApi.CommandRequest
import ScApi.SimDataBuilder
import ScApi.VariableSnapshots
import ScApi.VariableReads
import ScApi.VariableStorage
import ScApi.TelemetrySystem
import ScApi.TelemetryUpdates
import ScApi.RejectedBlocks
import ScApi.Gcm
import ScApi.Ghash
import ScApi.GcmStandard
import ScApi.Aes
import ScApi.AesStandard
import ScApi.AesKeys
import ScApi.SecureSession
import ScApi.SessionStream
import ScApi.EffectData
import ScApi.BsonPositions
import ScApi.BsonSeeking
import ScApi.BsonVisits
import ScApi.SimDataSections
import ScApi.SimDataRoundTrip
import ScApi.SubDocuments
import ScApi.PassedFields
import ScApi.Lib.BitSet
import ScApi.BuilderNesting
import ScApi.DeviceDefinitions
import ScApi.DeviceInfo
import ScApi.ElementLoops
import ScApi.Lib.BsonFields
import ScApi.DeviceSections
import ScApi.DeviceDescriptions
import ScApi.BsonOffsets
import ScApi.BsonRejection
import ScApi.TelemetryRegistration
import ScApi.TelemetrySizes
import ScApi.KeepAlive
import ScApi.ParsedData
import ScApi.Lib.BsonCode
import ScApi.Lib.FloatFormat
import ScApi.PipelineConfig
import ScApi.FfbPipeline
import ScApi.BuilderMove
import ScApi.Lib.CheckedArith
import ScApi.Clock
import ScApi.ArrayKeys
import ScApi.InputVariables
import ScApi.Lib.FuelLoop
import ScApi.ValidateEnds
import ScApi.Lib.Tiling
import ScApi.RawElements

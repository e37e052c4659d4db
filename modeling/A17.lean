import A17.Dispatch.Observers
import A17.Dispatch.Search
import A17.Dispatch.QueryTimer
import A17.Dispatch.Agreement
import A17.Dispatch.CrossLanguage
import A17.Dispatch.SearchAnswers
import A17.Dispatch.RequestOutcome
import A17.Dispatch.ReplyServer
import A17.Dispatch.Filters
import A17.Dispatch.Capnp
import A17.Dispatch.SmartReader
import A17.Dispatch.SegmentOwnership
import A17.Dispatch.Listener
import A17.Dispatch.Correlation
import A17.Dispatch.SocketRuns
import A17.Dispatch.NewestProvider
import A17.Dispatch.Client
import A17.Dispatch.Py.RpcRequestClient
import A17.Dispatch.Unobserve
import A17.Dispatch.ReferenceParser
import A17.Dispatch.SendBuffers
import A17.Dispatch.Hosting
import A17.Utils.Repeater
import A17.Utils.Watchdog
import A17.Utils.PoolRuns
import A17.Utils.CharacterDevice
import A17.Utils.RateWindow
import A17.Dispatch.Missing
import A17.Dispatch.Py.Missing
import A17.Dispatch.Py.SearchTimer
import A17.Utils.PoolCounters
import A17.Utils.DeviceQueue
import A17.Utils.GenericUdp
import A17.Utils.RateReset
import A17.Utils.RateTarget
import A17.Utils.DecimalDigits
import A17.Utils.NearestOverall
import A17.Utils.AngleReductions
import A17.Maths.AngleUnroller
import A17.Maths.Polynomial
import A17.Maths.MatrixUtils
import A17.Maths.QuaternionUtils
import A17.Maths.Rotations
import A17.Ewok.DistanceQuery
import A17.Occmapping.InsertPointCloud

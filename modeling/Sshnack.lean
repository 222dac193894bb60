import Sshnack.Machine
import Sshnack.Fairness
import Sshnack.TxnProgram
import Sshnack.TxnDiscipline
import Sshnack.TxnInterleaving
import Sshnack.TxnIsolation
import Sshnack.TxnTurns
import Sshnack.TxnSerial
import Sshnack.TxnReads
import Sshnack.CStrings
import Sshnack.KeyedRows
import Sshnack.Database
import Sshnack.Seed
import Sshnack.Statements
import Sshnack.SchemaChecks
import Sshnack.Services
import Sshnack.ServiceDiscipline
import Sshnack.ServiceCalls
import Sshnack.ServiceIsolation
import Sshnack.ServiceSerial
import Sshnack.ServiceReads
import Sshnack.PriceKeepers
import Sshnack.PriceReplay
import Sshnack.PriceUpdates
import Sshnack.ServiceEffects
import Sshnack.ServiceRuns
import Sshnack.ServiceChecks
import Sshnack.ServicePlans
import Sshnack.Commutation
import Sshnack.AdminResults
import Sshnack.EffectFrames
import Sshnack.Catalogue
import Sshnack.Purchases
import Sshnack.StrandedFunds
import Sshnack.SelectedSums
import Sshnack.CashLedger
import Sshnack.StockLedger
import Sshnack.UserRows
import Sshnack.Identity
import Sshnack.LinkedHeap
import Sshnack.ThreadPool
import Sshnack.PoolOwnership
import Sshnack.PoolMoves
import Sshnack.JobConservation
import Sshnack.PoolLaunch
import Sshnack.PoolCounters
import Sshnack.PoolWakeups
import Sshnack.ServerMain
import Sshnack.Shutdown
import Sshnack.PoolClient
import Sshnack.ConnectionLedger
import Sshnack.ConnectionOwnership
import Sshnack.PoolProgress
import Sshnack.ServerStages
import Sshnack.ServerProgress
import Sshnack.ServerEnd
import Sshnack.TxnFaults
import Sshnack.TxnStrays
import Sshnack.TxnOrder
import Sshnack.SharedHandle
import Sshnack.RouteLists
import Sshnack.RadixTree
import Sshnack.RouteTree
import Sshnack.RouteMatching
import Sshnack.ConcurrentRouting
import Sshnack.CScan
import Sshnack.HttpRequest
import Sshnack.RequestText
import Sshnack.RequestHeads
import Sshnack.RequestLimits
import Sshnack.StockBuffers
import Sshnack.HttpMessages
import Sshnack.CJson
import Sshnack.StockNames
import Sshnack.Shelf
import Sshnack.JsonStrings
import Sshnack.BufferScans
import Sshnack.Decimal
import Sshnack.RequestBuffer
import Sshnack.Credentials
import Sshnack.Handlers
import Sshnack.Router
import Sshnack.Endpoints
import Sshnack.ResponseMessages
import Sshnack.JsonNumbers
import Sshnack.HandlerNumbers
import Sshnack.AccessPolicy
import Sshnack.AuthorizationFrame
import Sshnack.Accounts
import Sshnack.Segmentation
import Sshnack.CArrays
import Sshnack.TuiApp
import Sshnack.TuiAmounts
import Sshnack.TuiLongs
import Sshnack.CyclicOrder
import Sshnack.TuiGrid
import Sshnack.TuiNavigation
import Sshnack.TuiSelection
import Sshnack.TuiInvariant
import Sshnack.TuiEdits
import Sshnack.TuiAdmin
import Sshnack.SlidingWindow
import Sshnack.TuiKonami
import Sshnack.TuiRuns
import Sshnack.TuiWellFormed
import Sshnack.ApiClient
import Sshnack.StockAnswer
import Sshnack.JsonTexts
import Sshnack.Wire
import Sshnack.WireMessages
import Sshnack.WireAgreement
import Sshnack.ApiAnswers
import Sshnack.RemoteCalls
import Sshnack.TuiCalls
import Sshnack.ClosedLoop
import Sshnack.TuiPurchases
import Sshnack.SshGate
import Sshnack.SshIdentity

import EpicPoold.Foundations.Buffer
import EpicPoold.Foundations.Bytes
import EpicPoold.Foundations.Fallible
import EpicPoold.Foundations.SharedMutex
import EpicPoold.Foundations.Slots
import EpicPoold.Foundations.Transition
import EpicPoold.Vector32
import EpicPoold.Encdec
import EpicPoold.Json
import EpicPoold.Workstruct
import EpicPoold.Hashpool
import EpicPoold.HashpoolSafety
import EpicPoold.RxHashpool
import EpicPoold.PpHashpool
import EpicPoold.Node
import EpicPoold.NodeJobs
import EpicPoold.Client
import EpicPoold.ClientSteps
import EpicPoold.ClientRuns
import EpicPoold.Submission
import EpicPoold.JobBounds
import EpicPoold.ClientPool
import EpicPoold.PoolSteps
import EpicPoold.Server
import EpicPoold.ServerSteps
import EpicPoold.PoolClient
import EpicPoold.SlotAccounting
import EpicPoold.PoolExit
import EpicPoold.EpollBatch
import EpicPoold.NodeMessages
import EpicPoold.NodeRuns
import EpicPoold.DatasetRotation
import EpicPoold.HashpoolSettle
import EpicPoold.Daemon
import EpicPoold.DaemonSteps
import EpicPoold.JobDelivery
import EpicPoold.SearchSpaces
import EpicPoold.Descriptors
import EpicPoold.NodeConnection
import EpicPoold.ShareDifficulty
import EpicPoold.JsonAccess
import EpicPoold.EpochSelection
import EpicPoold.MessageTypes
import EpicPoold.JobDifficulty
import EpicPoold.Foundations.Census
import EpicPoold.Thdq
import EpicPoold.Foundations.LineBuffer
import EpicPoold.ClientReads
import EpicPoold.NodeReceive
import EpicPoold.NodeTimeout
import EpicPoold.DeadSession
import EpicPoold.Segmentation
import EpicPoold.DeadClient
import EpicPoold.Answers
import EpicPoold.RateLimit
import EpicPoold.HexCodec
import EpicPoold.Jconf
import EpicPoold.NumberStrings
import EpicPoold.JconfSafety
import EpicPoold.JconfAccepts
import EpicPoold.Foundations.JsonText
import EpicPoold.JsonParse
import EpicPoold.MinerRequests
import EpicPoold.NodeLogin
import EpicPoold.Foundations.Traversal
import EpicPoold.PoolTraversal
import EpicPoold.Decimal
import EpicPoold.Replies
import EpicPoold.BlockResults
import EpicPoold.JobIds
import EpicPoold.Foundations.Progress
import EpicPoold.Itoa
import EpicPoold.ShareChecks
import EpicPoold.ShareProgress
import EpicPoold.MinerSessions
import EpicPoold.Log
import EpicPoold.LogRecords
import EpicPoold.ListProgress
import EpicPoold.Wakeups
import EpicPoold.MinerProtocol
import EpicPoold.Relay
import EpicPoold.ShareServed
import EpicPoold.ChainServed
import EpicPoold.Poold
import EpicPoold.NodeDatasets
import EpicPoold.NodePools
import EpicPoold.JobServed

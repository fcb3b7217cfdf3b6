import MessageBus.ByteRing
import MessageBus.ShmQueueModel
import MessageBus.ShmQueueRefinement
import MessageBus.Transition
import MessageBus.Handout
import MessageBus.ShmQueueConcurrent
import MessageBus.ShmQueueProgress
import MessageBus.BoundedMap
import MessageBus.HashListModel
import MessageBus.HashListInvariant
import MessageBus.HashListRefinement
import MessageBus.HashListRuns
import MessageBus.HashListCrash
import MessageBus.ConnModel
import MessageBus.ConnEffects
import MessageBus.ConnCluster
import MessageBus.ConnSessions
import MessageBus.ConnDisconnect
import MessageBus.ConnConsistency
import MessageBus.SharedChannels
import MessageBus.ConnObserver
import MessageBus.ConnAgreement
import MessageBus.ConnAgreementRuns
import MessageBus.LoginModel
import MessageBus.LoginBinding
import MessageBus.StreamFraming
import MessageBus.ReceivePath
import MessageBus.BusHeader
import MessageBus.SendPath
import MessageBus.BusModel
import MessageBus.BusTables
import MessageBus.BusBroadcast
import MessageBus.BusReceive
import MessageBus.BusLinks
import MessageBus.BusRouting
import MessageBus.ClientPackets
import MessageBus.AtomicCalls
import MessageBus.UserModel
import MessageBus.UserDealing
import MessageBus.UserRequests
import MessageBus.UserLoading
import MessageBus.SharedCells
import MessageBus.LockedSections
import MessageBus.LockDiscipline
import MessageBus.HashListAccesses
import MessageBus.HashListOwnership
import MessageBus.UserSections
import MessageBus.UserSectionRuns
import MessageBus.UserAtomicity
import MessageBus.LoginIdentity
import MessageBus.UserRegistration
import MessageBus.UserPersistence
import MessageBus.UserStorage
import MessageBus.ShmUniqQueue
import MessageBus.MmapQueueModel
import MessageBus.MmapQueueRefinement
import MessageBus.ByteFlags
import MessageBus.MemPoolModel
import MessageBus.MemPoolNodes
import MessageBus.MemPoolMapModel
import MessageBus.MemPoolMaps
import MessageBus.ReplyOrigins
import MessageBus.UserShmInitModel
import MessageBus.UserShmInit
import MessageBus.ByteCodec
import MessageBus.ShmQueueReaders
import MessageBus.WireHeaders
import MessageBus.ProbeLoop
import MessageBus.ConnPositions
import MessageBus.HashListWalk
import MessageBus.ConnCleanup
import MessageBus.SweepCursor
import MessageBus.ConnSweep
import MessageBus.ConnBuffers
import MessageBus.ProtoWire
import MessageBus.ConnReplies
import MessageBus.ConnAnnouncements
import MessageBus.FileCache
import MessageBus.LogServer
import MessageBus.LogFiling
import MessageBus.LogDestinations
import MessageBus.LinkWalk
import MessageBus.HashListVerify
import MessageBus.HashListSoundness
import MessageBus.ShmSizes
import MessageBus.FriendRequests
import MessageBus.RegistrationReply
import MessageBus.SqlText
import MessageBus.Passwords
import MessageBus.MemPoolPointers
import MessageBus.MmapQueueRelease
import MessageBus.TextSearch
import MessageBus.IniFileModel
import MessageBus.IniFileSearch
import MessageBus.IniFileGrammar
import MessageBus.ConnStatusTable
import MessageBus.GapFilling
import MessageBus.SimpleUuid
import MessageBus.NameFilter
import MessageBus.JsonFilter
import MessageBus.TextSplitting
import MessageBus.TextReplacement
import MessageBus.ConnChoice
import MessageBus.LogRotation
import MessageBus.DoubleLinks
import MessageBus.TimerPoolModel
import MessageBus.TimerPoolLists
import MessageBus.TimerPoolCalls
import MessageBus.TimerPoolRuns
import MessageBus.TimerPoolStale
import MessageBus.DigitCounter
import MessageBus.TimerPoolWheels
import MessageBus.TimerPoolTiming
import MessageBus.Numerals
import MessageBus.SimpleItoa
import MessageBus.ModuleNames
import MessageBus.LogClients
import MessageBus.Accounts
import MessageBus.Merging
import MessageBus.BusServing
import MessageBus.BusNetwork
import MessageBus.BusDelivery

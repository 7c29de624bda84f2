import TradingEngine.MachineInt
import TradingEngine.SortedMap
import TradingEngine.FallibleRun
import TradingEngine.BoundedQueue
import TradingEngine.SlotRing
import TradingEngine.CustomSpscQueue
import TradingEngine.SlotIndex
import TradingEngine.RestingOrders
import TradingEngine.Order
import TradingEngine.MarketBook
import TradingEngine.TopOfBook
import TradingEngine.ItchMessages
import TradingEngine.OuchMessages
import TradingEngine.OrderManager
import TradingEngine.ItchFillers
import TradingEngine.ItchUpdate
import TradingEngine.OwnOrders
import TradingEngine.StorePipeline
import TradingEngine.StoreDisposition
import TradingEngine.StoreFront
import TradingEngine.StoreSystem
import TradingEngine.DeferredOrder
import TradingEngine.OwnFrame
import TradingEngine.OwnSlots
import TradingEngine.FlatMap
import TradingEngine.AwaitingAck
import TradingEngine.MarketStore
import TradingEngine.ItchDepth
import TradingEngine.DepthRuns
import TradingEngine.MarketFrame
import TradingEngine.MixedStore
import TradingEngine.Recycling
import TradingEngine.ExecutionPrice
import TradingEngine.RiskState
import TradingEngine.RiskUpdate
import TradingEngine.PnlTotals
import TradingEngine.Census
import TradingEngine.OpenOrders
import TradingEngine.RiskCheck
import TradingEngine.SlotLease
import TradingEngine.OrderRiskIndex
import TradingEngine.SelfTrade
import TradingEngine.CheckDisposition
import TradingEngine.FixSession
import TradingEngine.FixDelivery
import TradingEngine.FixReset
import TradingEngine.StreamFraming
import TradingEngine.NetworkPackets
import TradingEngine.FixFraming
import TradingEngine.FixReassembly
import TradingEngine.RingBuffer
import TradingEngine.CustomQueue
import TradingEngine.NetworkReceive
import TradingEngine.ReceiveOrder
import TradingEngine.SoupScan
import TradingEngine.SoupReassembly
import TradingEngine.NetworkSend
import TradingEngine.SendStream
import TradingEngine.TxPool
import TradingEngine.TxReuse
import TradingEngine.DecimalText
import TradingEngine.FixBuilder
import TradingEngine.FixFields
import TradingEngine.FixFramed
import TradingEngine.FixParse
import TradingEngine.FixOrderText
import TradingEngine.LossyPipeline
import TradingEngine.SessionPool
import TradingEngine.SessionOwnership
import TradingEngine.PacketSlots
import TradingEngine.PacketConservation
import TradingEngine.RiskRuns
import TradingEngine.NetPosition
import TradingEngine.PositionPnl
import TradingEngine.ShortClose
import TradingEngine.PendingNotional
import TradingEngine.AccountFigures
import TradingEngine.MarginLife
import TradingEngine.MarginIdentity
import TradingEngine.FixResend
import TradingEngine.ResendRange
import TradingEngine.BookFlush
import TradingEngine.OrderFrame
import TradingEngine.NeutralReports
import TradingEngine.ReplaceReports
import TradingEngine.EarlyReports
import TradingEngine.LimitExact
import TradingEngine.CheckTotal
import TradingEngine.TickTable
import TradingEngine.PointedPool
import TradingEngine.SymbolLookup
import TradingEngine.SymbolBounds
import TradingEngine.RateWindow
import TradingEngine.RateLimit
import TradingEngine.VenueHalt
import TradingEngine.OuchFills
import TradingEngine.OuchQuantities
import TradingEngine.ReplaceAddress
import TradingEngine.OuchRequests
import TradingEngine.RejectOnce
import TradingEngine.MaskFrame
import TradingEngine.LockedOrders
import TradingEngine.CarriedOver
import TradingEngine.IdleBook
import TradingEngine.UnknownAdds
import TradingEngine.UnknownReferences
import TradingEngine.PriceText
import TradingEngine.FixSplit
import TradingEngine.CellWrites
import TradingEngine.FixRecords
import TradingEngine.SymbolKey
import TradingEngine.PooledTable
import TradingEngine.TickPool
import TradingEngine.FixAnnounced
import TradingEngine.FixProgress
import TradingEngine.FixBounds
import TradingEngine.PacketReuse
import TradingEngine.RingLog
import TradingEngine.SuppressedAdds
import TradingEngine.Refinement
import TradingEngine.QueueRuns
import TradingEngine.ConcurrentFixedFlatMap
import TradingEngine.ItchSplit
import TradingEngine.BytePatches
import TradingEngine.OuchBytes
import TradingEngine.OuchHistories
import TradingEngine.SbtLogin
import TradingEngine.OutboundFraming
import TradingEngine.SbtCount
import TradingEngine.SequenceCounting
import TradingEngine.BitMasks
import TradingEngine.FindValue
import TradingEngine.QuotedOrderId
import TradingEngine.FoundValues
import TradingEngine.ResentMessage
import TradingEngine.ResendLayout
import TradingEngine.ByteMemory
import TradingEngine.PrintedInteger
import TradingEngine.WindowRing
import TradingEngine.RecentOrders
import TradingEngine.RecordLayout
import TradingEngine.BigEndian
import TradingEngine.MessageParser
import TradingEngine.ItchParser
import TradingEngine.OuchParser
import TradingEngine.ParserDispatch
import TradingEngine.InboundFix
import TradingEngine.InboundOuch
import TradingEngine.MessageStore
import TradingEngine.MarketHandler
import TradingEngine.MarketFeed
import TradingEngine.NetworkThread
import TradingEngine.SocketLife
import TradingEngine.NetworkStall
import TradingEngine.PooledStream

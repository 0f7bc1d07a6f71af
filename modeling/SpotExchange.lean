import SpotExchange.Lib.While
import SpotExchange.Lib.CArray
import SpotExchange.Lib.Chain
import SpotExchange.Lib.Mirror
import SpotExchange.Lib.RowStore
import SpotExchange.Engine.Types
import SpotExchange.Engine.Levels
import SpotExchange.Engine.Matching
import SpotExchange.Engine.Calls
import SpotExchange.Engine.Rep
import SpotExchange.Engine.LevelSpec
import SpotExchange.Engine.LevelOrder
import SpotExchange.Engine.PriceTime
import SpotExchange.Engine.Overflow
import SpotExchange.Engine.Volume
import SpotExchange.Engine.Unlinking
import SpotExchange.Engine.FillLog
import SpotExchange.Engine.FillOrKill
import SpotExchange.Engine.LifeCycle
import SpotExchange.Engine.Reuse
import SpotExchange.Ledger.Row
import SpotExchange.Ledger.Safety
import SpotExchange.Lib.Prog
import SpotExchange.Lib.SortedSet
import SpotExchange.Exchange.Models
import SpotExchange.Exchange.Store
import SpotExchange.Exchange.RedisClient
import SpotExchange.Exchange.Balances
import SpotExchange.Exchange.Trades
import SpotExchange.Exchange.Worker
import SpotExchange.Exchange.Orders
import SpotExchange.Engine.Amounts
import SpotExchange.Exchange.Shifts
import SpotExchange.Exchange.Conservation
import SpotExchange.Exchange.Priority
import SpotExchange.Exchange.Stops
import SpotExchange.Exchange.Triggering
import SpotExchange.Exchange.Finality
import SpotExchange.Exchange.Queued
import SpotExchange.Exchange.RowLocks
import SpotExchange.Exchange.Commits
import SpotExchange.Exchange.Serializing
import SpotExchange.Exchange.Rollback
import SpotExchange.Exchange.Securing
import SpotExchange.Exchange.Depth
import SpotExchange.Exchange.Reconciling
import SpotExchange.Exchange.Spawning
import SpotExchange.Exchange.Ratcheting
import SpotExchange.Exchange.PairRules
import SpotExchange.Exchange.Chains
import SpotExchange.Exchange.Snapshot
import SpotExchange.Exchange.Bulk
import SpotExchange.Exchange.Wire
import SpotExchange.Exchange.Doubles
import SpotExchange.Exchange.Columns
import SpotExchange.Exchange.Children
import SpotExchange.Exchange.MarketBuys
import SpotExchange.Exchange.Discharging
import SpotExchange.Exchange.LockWalk
import SpotExchange.Exchange.Filling
import SpotExchange.Exchange.Icebergs
import SpotExchange.Exchange.OpenOrders
import SpotExchange.Exchange.Consuming
import SpotExchange.Exchange.Deltas
import SpotExchange.Exchange.TopLevels
import SpotExchange.Exchange.Arrivals
import SpotExchange.Exchange.Headroom
import SpotExchange.Exchange.Accounts
import SpotExchange.Exchange.Auditing
import SpotExchange.Exchange.Buyers
import SpotExchange.Exchange.LimitBuys
import SpotExchange.Exchange.PaidUp
import SpotExchange.Exchange.Spending
import SpotExchange.Exchange.Releasing
import SpotExchange.Exchange.Statuses
import SpotExchange.Exchange.Bookkeeping
import SpotExchange.Exchange.Rounds
import SpotExchange.Exchange.Causing
import SpotExchange.Exchange.Owning
import SpotExchange.Exchange.BulkCanceling
import SpotExchange.Exchange.Adjusting
import SpotExchange.Exchange.Supplying
import SpotExchange.Exchange.Banking
import SpotExchange.Ws.Delivery
import SpotExchange.Api.RateLimit
import SpotExchange.Api.Signing
import SpotExchange.Api.Candles
import SpotExchange.Api.CandleWindow
import SpotExchange.Api.Sessions
import SpotExchange.Api.Clients
import SpotExchange.Api.Logins
import SpotExchange.Api.Admins
import SpotExchange.Api.Halts
import SpotExchange.Web.ChartStore
import SpotExchange.Web.OrderbookStore

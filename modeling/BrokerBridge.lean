import BrokerBridge.Orders.Cancel
import BrokerBridge.Orders.Placing
import BrokerBridge.Orders.Reported
import BrokerBridge.Subscriptions.Expiry
import BrokerBridge.Subscriptions.Completion
import BrokerBridge.Ips.Lease
import BrokerBridge.Admin.Activation
import BrokerBridge.Admin.Serial
import BrokerBridge.Admin.Drains
import BrokerBridge.Admin.Delivered
import BrokerBridge.Admin.Manager
import BrokerBridge.Ips.Paired
import BrokerBridge.Orders.Routed
import BrokerBridge.Orders.Failover
import BrokerBridge.RateLimit.Replicas
import BrokerBridge.Fleet.Destroyed
import BrokerBridge.Subscriptions.Boundary
import BrokerBridge.Orders.Outweighed
import BrokerBridge.RateLimit.Sliding
import BrokerBridge.Orders.Inflight
import BrokerBridge.Ips.GivenBack
import BrokerBridge.Ips.Cooldown
import BrokerBridge.Ips.Live
import BrokerBridge.Ips.Offered
import BrokerBridge.Ips.Announced
import BrokerBridge.Ips.Matched
import BrokerBridge.Subscriptions.Confluence
import BrokerBridge.Conc.Batches
import BrokerBridge.Admin.Backlog
import BrokerBridge.Orders.Scan
import BrokerBridge.Orders.Offers
import BrokerBridge.Orders.Starvation
import BrokerBridge.Orders.Sound
import BrokerBridge.Orders.Adoption
import BrokerBridge.Orders.Recovery
import BrokerBridge.Sessions.Refresh
import BrokerBridge.Sessions.OneRefresh
import BrokerBridge.Health.Score
import BrokerBridge.Admin.Topics
import BrokerBridge.Admin.Secrets
import BrokerBridge.Whitelist.Normalize
import BrokerBridge.Ips.DocNet
import BrokerBridge.Store.Listing
import BrokerBridge.Events.Counted
import BrokerBridge.Events.Subscribe
import BrokerBridge.Fleet.Created
import BrokerBridge.Infra.Refines
import BrokerBridge.Orders.Quantity
import BrokerBridge.Sim.Routed
import BrokerBridge.Workers.HotSwap
import BrokerBridge.Orders.Gated
import BrokerBridge.World.LockAdapters
import BrokerBridge.Orders.Told

import LibRouting.Bgp.AsPathHop
import LibRouting.Router.LastMention
import LibRouting.Bgp.Rtr.Sync
import LibRouting.Babel.ChallengeRate
import LibRouting.Ldp.Packing
import LibRouting.Babel.Sources
import LibRouting.Babel.UpdateTlv
import LibRouting.Babel.Retraction
import LibRouting.Babel.Rtt
import LibRouting.Ospf.SpfV3
import LibRouting.Ospf.Nssa
import LibRouting.Ospf.Checksum
import LibRouting.Ospf.ExchangeTurns
import LibRouting.Router.MaxPrefix
import LibRouting.Router.SoftReconfig
import LibRouting.Router.AsLoop
import LibRouting.Bgp.AsPathHops
import LibRouting.Bgp.Codec.Canonicity
import LibRouting.Router.Reflection
import LibRouting.Router.ExportWire
import LibRouting.Bgp.Multipath
import LibRouting.Rib.ChangeFeed
import LibRouting.Policy.PrefixSetTrie
import LibRouting.Policy.AsPathFilter
import LibRouting.Router.Collision
import LibRouting.Router.LongLivedStale
import LibRouting.Ospf.Recency
import LibRouting.Bgp.RoaStore
import LibRouting.Config.Glob
import LibRouting.Ldp.Transit
import LibRouting.Srv6.Srh

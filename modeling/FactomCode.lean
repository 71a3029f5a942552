import FactomCode.Common.Binary
import FactomCode.Common.CChain
import FactomCode.Common.RoundTrip
import FactomCode.Common.Build
import FactomCode.Common.Malformed
import FactomCode.Common.Canonical
import FactomCode.Common.BuildChain
import FactomCode.Server.Peer
import FactomCode.Server.Roster
import FactomCode.Server.Leader
import FactomCode.Server.Election
import FactomCode.Server.PeerHandler
import FactomCode.Server.PeerRun
import FactomCode.Server.PeerCounts
import FactomCode.Server.PeerFiling
import FactomCode.Server.LeaderRun
import FactomCode.Server.PeerPersistent
import FactomCode.Server.PeerBurst
import FactomCode.Server.LeaderSteps
import FactomCode.Server.ClientPeers
import FactomCode.Server.RandomDelay
import FactomCode.Server.Rebroadcast
import FactomCode.Server.Listen
import FactomCode.Server.Shutdown
import FactomCode.Server.Lifecycle
import FactomCode.Server.Upnp
import FactomCode.Rest.Serve

import Madcap.Foundation.Fallible
import Madcap.Foundation.Runs
import Madcap.Foundation.Heap
import Madcap.Foundation.Trie
import Madcap.Foundation.LongestPrefix
import Madcap.Foundation.Bytes
import Madcap.Foundation.Cursor
import Madcap.Foundation.Buckets
import Madcap.Foundation.Slots
import Madcap.Patricia.Prefixes
import Madcap.Patricia.Tree
import Madcap.Patricia.Invariant
import Madcap.Patricia.Search
import Madcap.Patricia.Effects
import Madcap.Patricia.Lookup
import Madcap.Patricia.Remove
import Madcap.Patricia.Labels
import Madcap.Patricia.Ownership
import Madcap.Kernel
import Madcap.Sfmc.State
import Madcap.Sfmc.Fib
import Madcap.Sfmc.LongestMatch
import Madcap.Sfmc.Encap
import Madcap.Sfmc.Checksum
import Madcap.Sfmc.Device
import Madcap.Sfmc.Outcome
import Madcap.Sfmc.Invariant
import Madcap.Sfmc.Emission
import Madcap.Sfmc.RouteCache
import Madcap.Sfmc.Reinstall
import Madcap.Sfmc.NextHop
import Madcap.Sfmc.Locator
import Madcap.Raven.Device
import Madcap.Raven.Table
import Madcap.Raven.Link
import Madcap.Config
import Madcap.Core.Registry
import Madcap.Core.RegistryMap
import Madcap.Core.Netlink
import Madcap.Core.EntryDump
import Madcap.Core.ConfigDump
import Madcap.Sfmc.Notifier
import Madcap.Sfmc.Bringup
import Madcap.Protocol.Vxlan
import Madcap.Protocol.Nsh
import Madcap.Protocol.NshRoundTrip
import Madcap.Protocol.Tunnels
import Madcap.Protocol.NshPaths
import Madcap.Protocol.NshTargets
import Madcap.Protocol.Acquisition
import Madcap.Protocol.Offload
import Madcap.Protocol.NshOffload
import Madcap.Drivers.Transmit
import Madcap.Drivers.Retry
import Madcap.Drivers.NeverBare
import Madcap.Drivers.ServicePath
import Madcap.Drivers.Descriptors
import Madcap.Foundation.Inet
import Madcap.Sfmc.Frame
import Madcap.Sfmc.Table
import Madcap.Sfmc.Teardown
import Madcap.Buffers
import Madcap.Protocol.NshReceive
import Madcap.Raven.Transmit
import Madcap.Raven.DefaultEntry
import Madcap.Protocol.NshTransmit
import Madcap.Netdevgen.Generator
import Madcap.Protocol.Headroom
import Madcap.Foundation.Drain
import Madcap.Protocol.NshDump
import Madcap.Sfmc.Gate
import Madcap.Protocol.NshSafety
import Madcap.Protocol.NshStale
import Madcap.Protocol.NshRecord
import Madcap.Protocol.NshDevices
import Madcap.Protocol.NshMtu
import Madcap.Core.EntryRequest
import Madcap.Core.Requests
import Madcap.Sfmc.Conservation
import Madcap.Foundation.Supply
import Madcap.Patricia.Requests
import Madcap.Sfmc.OutOfMemory
import Madcap.Sfmc.Router
import Madcap.Sfmc.Refinement
import Madcap.Sfmc.Overlay
import Madcap.Iproute.Netlink
import Madcap.Iproute.Text
import Madcap.Iproute.Command
import Madcap.Iproute.Madcap
import Madcap.Iproute.Session
import Madcap.Iproute.Show
import Madcap.Iproute.Restore
import Madcap.Iproute.Nsh
import Madcap.Iproute.NshSession
import Madcap.Iproute.NshShow
import Madcap.Iproute.NshSaid
import Madcap.Iproute.NshRestore
import Madcap.Iproute.NshDevRestore

import Lsocket.Buffer.Framing
import Lsocket.Buffer.Memory
import Lsocket.Buffer.Number
import Lsocket.Net.FreeList
import Lsocket.Net.Stream
import Lsocket.Net.Interest
import Lsocket.Net.HalfClose
import Lsocket.Net.Registry
import Lsocket.Net.Psocket
import Lsocket.Net.Entries
import Lsocket.Net.Limit
import Lsocket.Net.Releases
import Lsocket.Net.Atomic
import Lsocket.Net.Reuse
import Lsocket.Net.ReadLimit
import Lsocket.Net.Descriptors
import Lsocket.Net.SelectTable
import Lsocket.Net.Peer
import Lsocket.Net.Protocol
import Lsocket.Net.Draining
import Lsocket.Net.Ledger
import Lsocket.Lua.Delivery
import Lsocket.Lua.Errors
import Lsocket.Lua.Status
import Lsocket.Lua.Waiting
import Lsocket.Lua.Messages
import Lsocket.Lua.Connecting

import EddyServer.Library.Transition
import EddyServer.Library.Channel
import EddyServer.IDGenerator.Range
import EddyServer.NetMessage.Store
import EddyServer.NetMessage.Typed
import EddyServer.NetMessage.Growth
import EddyServer.NetMessage.Room
import EddyServer.NetMessage.PlainStrings
import EddyServer.MessageFilter.Oversize
import EddyServer.MessageFilter.Stream
import EddyServer.MessageFilter.Announced
import EddyServer.Link.Direct
import EddyServer.Link.Inbound
import EddyServer.Link.Closing
import EddyServer.Link.Served
import EddyServer.System.Outbound
import EddyServer.System.Accounting
import EddyServer.System.Inbound
import EddyServer.System.Closing
import EddyServer.System.Loops
import EddyServer.System.Balance
import EddyServer.System.Registration
import EddyServer.System.Accepting
import EddyServer.System.KeepAlive
import EddyServer.ThreadPool.Thread
import EddyServer.ThreadPool.Pool
import EddyServer.ThreadPool.Order
import EddyServer.ThreadPool.Idle
import EddyServer.ThreadPool.Wakeup
import EddyServer.ThreadPool.Drain
import EddyServer.ThreadPool.Join
import EddyServer.Solo.Writing
import EddyServer.Solo.Filtering
import EddyServer.Solo.Teardown
import EddyServer.Solo.Decoding
import EddyServer.Link.Alone
import EddyServer.Link.Leaving
import EddyServer.Link.Ends
import EddyServer.System.Sessions
import EddyServer.System.Transport
import EddyServer.System.Echo
import EddyServer.System.Ledger
import EddyServer.System.Asserts
import EddyServer.System.Causes
import EddyServer.System.Connecting

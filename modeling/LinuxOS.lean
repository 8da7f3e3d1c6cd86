import LinuxOS.Arrays
import LinuxOS.Blocks.Bounds
import LinuxOS.Blocks.Carving
import LinuxOS.Blocks.Clients
import LinuxOS.Blocks.Footprint
import LinuxOS.Blocks.Frame
import LinuxOS.Blocks.Handover
import LinuxOS.Blocks.Hoarding
import LinuxOS.Blocks.Invariant
import LinuxOS.Blocks.Machine
import LinuxOS.Blocks.Ownership
import LinuxOS.Blocks.Progress
import LinuxOS.Blocks.Residents
import LinuxOS.Blocks.Returns
import LinuxOS.Blocks.Runs
import LinuxOS.Blocks.Sections
import LinuxOS.Blocks.Spans
import LinuxOS.Blocks.Steps
import LinuxOS.Blocks.ThreadCache
import LinuxOS.Blocks.Tiling
import LinuxOS.Bytes
import LinuxOS.CStrings
import LinuxOS.Cells
import LinuxOS.ClientMemory
import LinuxOS.Concurrent.Allocator
import LinuxOS.Concurrent.FixedMemoryPool
import LinuxOS.Concurrent.LargeRequests
import LinuxOS.Concurrent.OutOfMemory
import LinuxOS.Concurrent.PageCache
import LinuxOS.Concurrent.PageHistory
import LinuxOS.Concurrent.PageMap
import LinuxOS.Concurrent.Release
import LinuxOS.Concurrent.SizeClass
import LinuxOS.Condition
import LinuxOS.Exceptions
import LinuxOS.Files.MyFile
import LinuxOS.FixedSizePool
import LinuxOS.Http.Backlog
import LinuxOS.Http.Closing
import LinuxOS.Http.Context
import LinuxOS.Http.Dialog
import LinuxOS.Http.Encoding
import LinuxOS.Http.Faults
import LinuxOS.Http.FilePath
import LinuxOS.Http.Framing
import LinuxOS.Http.HeaderCase
import LinuxOS.Http.Message
import LinuxOS.Http.Pipeline
import LinuxOS.Http.QueryString
import LinuxOS.Http.RouteDispatch
import LinuxOS.Http.RouteMatching
import LinuxOS.Http.Segmentation
import LinuxOS.Http.Server
import LinuxOS.Http.Session
import LinuxOS.Http.Splitting
import LinuxOS.Http.StaticSite
import LinuxOS.Http.Stream
import LinuxOS.Http.UrlDecoding
import LinuxOS.Http.UrlEncoding
import LinuxOS.Http.Util
import LinuxOS.Links
import LinuxOS.Machine
import LinuxOS.Muduo.Any
import LinuxOS.Muduo.Buffer
import LinuxOS.Muduo.BufferQueue
import LinuxOS.Muduo.CloseHistory
import LinuxOS.Muduo.CloseReport
import LinuxOS.Muduo.Connection
import LinuxOS.Muduo.ConnectionFacts
import LinuxOS.Muduo.Dispatch
import LinuxOS.Muduo.EchoServer
import LinuxOS.Muduo.HalfClose
import LinuxOS.Muduo.InactiveRelease
import LinuxOS.Muduo.LoopEvents
import LinuxOS.Muduo.LoopThreads
import LinuxOS.Muduo.OutputHistory
import LinuxOS.Muduo.Receive
import LinuxOS.Muduo.ReleaseHistory
import LinuxOS.Muduo.SendHistory
import LinuxOS.Muduo.TaskQueue
import LinuxOS.Muduo.TcpServer
import LinuxOS.Muduo.TimerClock
import LinuxOS.Muduo.TimerDeadline
import LinuxOS.Muduo.TimerRegistry
import LinuxOS.Muduo.TimerWheel
import LinuxOS.Muduo.WriteInterest
import LinuxOS.Pages.Cache
import LinuxOS.Pages.Calls
import LinuxOS.Pages.Layout
import LinuxOS.Pages.Mapping
import LinuxOS.Pages.Moves
import LinuxOS.Paths
import LinuxOS.Places
import LinuxOS.Pool.Allocator
import LinuxOS.Pool.Assertions
import LinuxOS.Pool.Coalescing
import LinuxOS.Pool.ObjectPool
import LinuxOS.Pool.OutOfMemory
import LinuxOS.Pool.PageCache
import LinuxOS.Pool.PageHistory
import LinuxOS.Pool.Progress
import LinuxOS.Pool.RadixTree
import LinuxOS.Pool.SizeClass
import LinuxOS.Pool.SpanList
import LinuxOS.Processes.MyShell
import LinuxOS.Processes.ProcessPool
import LinuxOS.Processes.StandardShell
import LinuxOS.Radix
import LinuxOS.Ring
import LinuxOS.Rings
import LinuxOS.Separators
import LinuxOS.SystemMemory
import LinuxOS.ThreadCaches
import LinuxOS.Threads.BlockQueue
import LinuxOS.Threads.CircularQueue
import LinuxOS.Threads.RingQueue
import LinuxOS.Threads.SharedPtr
import LinuxOS.Threads.Singleton
import LinuxOS.Threads.ThreadPool
import LinuxOS.Tiles
import LinuxOS.Watchdog
import LinuxOS.Words

import UsacSyscalls.Cipher.Program
import UsacSyscalls.Lib.Ledger
import UsacSyscalls.Lib.ParallelMap
import UsacSyscalls.Lib.Run
import UsacSyscalls.Lib.Tiling
import UsacSyscalls.Cipher.Invariant
import UsacSyscalls.Cipher.Runs
import UsacSyscalls.Cipher.RoundTrip
import UsacSyscalls.Cipher.Balance
import UsacSyscalls.Cipher.FailedCalls
import UsacSyscalls.Cipher.Release
import UsacSyscalls.Cipher.Leak
import UsacSyscalls.Cipher.Parallel
import UsacSyscalls.Cipher.ThreadCount
import UsacSyscalls.Cipher.UserPrograms
import UsacSyscalls.Lib.SharedFile
import UsacSyscalls.Cipher.Joint
import UsacSyscalls.Cipher.Overlap
import UsacSyscalls.Lib.KeyStream
import UsacSyscalls.Cipher.Keys
import UsacSyscalls.Lib.CString
import UsacSyscalls.Lib.Decimal
import UsacSyscalls.Lib.Format
import UsacSyscalls.Stats.Calls
import UsacSyscalls.Stats.Backend
import UsacSyscalls.Stats.Decoders
import UsacSyscalls.Stats.Accounting
import UsacSyscalls.Stats.PageFaults
import UsacSyscalls.Stats.RamModule
import UsacSyscalls.Procs.Call
import UsacSyscalls.Procs.Document
import UsacSyscalls.Procs.TopFive
import UsacSyscalls.Procs.Checked
import UsacSyscalls.Procs.Sizes
import UsacSyscalls.Procs.Percentages
import UsacSyscalls.Lib.Json
import UsacSyscalls.Lib.JsonStack
import UsacSyscalls.Procs.Entry
import UsacSyscalls.Procs.Decoding
import UsacSyscalls.Backend.SystemInfo
import UsacSyscalls.Procs.Backend
import UsacSyscalls.Procs.InName
import UsacSyscalls.Procs.Survival
import UsacSyscalls.Lib.RingBuffer
import UsacSyscalls.Log.Call
import UsacSyscalls.Log.Quiet
import UsacSyscalls.Log.Bounds
import UsacSyscalls.Log.Writers
import UsacSyscalls.Backend.Server
import UsacSyscalls.Lib.Exchange
import UsacSyscalls.Frontend.Page
import UsacSyscalls.Frontend.Runs
import UsacSyscalls.Cipher.Sequential
import UsacSyscalls.Cipher.Layers
import UsacSyscalls.Sys.Credentials
import UsacSyscalls.Sys.Sessions
import UsacSyscalls.Sys.Limits
import UsacSyscalls.Sys.Priority
import UsacSyscalls.Sys.Tasks
import UsacSyscalls.Sys.Sysinfo
import UsacSyscalls.Sys.Uts
import UsacSyscalls.Log.Client
import UsacSyscalls.Lib.Footprint
import UsacSyscalls.Cipher.Together
import UsacSyscalls.Cipher.Users
import UsacSyscalls.Sys.MemoryMap
import UsacSyscalls.Sys.MemoryMoves

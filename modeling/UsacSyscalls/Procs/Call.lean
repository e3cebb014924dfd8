import UsacSyscalls.Kernel
import UsacSyscalls.Lib.CString
import UsacSyscalls.Lib.Format

/-!
# The process list system call

Reference model of `obtener_info_procesos` and `procesos_info` of `kernel/my_sys.c`: the first
collects the processes with an address space, in the order the kernel visits them and at most
1024 of them; the second prints the first five of those into a heap buffer, one `snprintf` after
the other at the current end of the text, and copies the text to user space.
-/

set_option autoImplicit false

namespace UsacSyscalls.Procs

open Lib.CString Lib.Format

/-! ## The process table -/

def TASK_COMM_LEN : Nat := 16

/-- `task->comm`: a NUL-terminated name in 16 bytes. -/
structure Comm where
  bytes : Bytes
  length_lt : bytes.length < TASK_COMM_LEN
  noNul : (0 : UInt8) ∉ bytes
  deriving DecidableEq, Repr

/-- A process as `for_each_process` visits it; `mm` is the resident set in pages, and `none` for
    a process without an address space. -/
structure Task where
  pid : Int32
  mm : Option UInt64
  utime : UInt64
  stime : UInt64
  comm : Comm
  deriving DecidableEq, Repr

/-- `struct proc_mem_info`. -/
structure ProcMemInfo where
  pid : Int32
  rss : UInt64
  cpuTime : UInt64
  comm : Comm
  cpuPercentage : UInt64
  deriving DecidableEq, Repr

/-- What the rest of the kernel contributes to one call. -/
structure Machine where
  /-- `ktime_get_ns()`. -/
  totalTimeNs : UInt64
  /-- Whether `kmalloc_array` serves the request for the array of processes. -/
  kmallocArray : Bool
  /-- Whether `kmalloc` serves a request of this size. -/
  kmalloc : Nat → Bool
  /-- What the output buffer contains before it is written to. -/
  heap : Nat → UInt8
  /-- How many bytes the user buffer accepts. -/
  accepts : Nat
  kmalloc_zero : kmalloc 0 = true
  kmalloc_max : ∀ n, KMALLOC_MAX_SIZE < n → kmalloc n = false

def PAGE_SHIFT : UInt64 := 12

/-- The entry of one process with `pages` resident pages. -/
def procInfo (m : Machine) (task : Task) (pages : UInt64) : ProcMemInfo :=
  let taskTotalTime := task.utime + task.stime
  { pid := task.pid
    rss := pages <<< PAGE_SHIFT
    cpuTime := taskTotalTime
    comm := task.comm
    cpuPercentage := (taskTotalTime * 100) / (m.totalTimeNs / 1000000000) }

def MAX_PROCS : Nat := 1024

/-- One iteration of `for_each_process`; `none` is a division by zero. -/
def collect (m : Machine) (procs : List ProcMemInfo) (task : Task) : Option (List ProcMemInfo) :=
  match task.mm with
  | none => some procs
  | some pages =>
    if procs.length < MAX_PROCS then
      if m.totalTimeNs / 1000000000 = 0 then none
      else some (procs ++ [procInfo m task pages])
    else some procs

/-- `obtener_info_procesos`; `none` is a division by zero. -/
def obtenerInfoProcesos (m : Machine) (table : List Task) :
    Option (Except Errno (List ProcMemInfo)) :=
  if m.kmallocArray then (table.foldlM (collect m) []).map .ok else some (.error ENOMEM)

/-! ## The text -/

def HEADER_FORMAT : String := "\x7b\n  \"Procesos_que_mas_memoria_usan\": [\n"

def PROCESS_FORMAT : String :=
  "    \x7b \"pid\": %d, \"name\": \"%s\", \"rss\": %lu, \"cpu_time\": %lu, " ++
  "\"cpu_percentage\": %lu \x7d%s\n"

def FOOTER_FORMAT : String := "  ]\n\x7d\n"

def headerText : Bytes := printf (format HEADER_FORMAT) []

def footerText : Bytes := printf (format FOOTER_FORMAT) []

def processText (p : ProcMemInfo) (separator : Bytes) : Bytes :=
  printf (format PROCESS_FORMAT)
    [.d p.pid, .s p.comm.bytes, .lu p.rss, .lu p.cpuTime, .lu p.cpuPercentage, .s separator]

/-- `(i == 4 || i == proc_count - 1) ? "" : ","`. -/
def separator (i procCount : Nat) : Bytes :=
  if i = 4 ∨ i + 1 = procCount then bytes "" else bytes ","

/-- The output buffer, and the positions of the processes printed so far. -/
structure Output where
  buffer : Bytes
  listed : List Nat

/-- `snprintf(output + strlen(output), output_size - strlen(output), ...)`; `none` when `strlen`
    leaves the buffer. -/
def appendText (buffer text : Bytes) : Option Bytes :=
  (strlen buffer).map fun off => snprintf buffer off text

/-- The loop over the processes, for the values of `i` that are left. -/
def printProcs (procs : List ProcMemInfo) : List Nat → Output → Option Output
  | [], out => some out
  | i :: is, out =>
    match procs[i]? with
    | none => some out
    | some p =>
      match appendText out.buffer (processText p (separator i procs.length)) with
      | none => none
      | some buffer => printProcs procs is { buffer := buffer, listed := out.listed ++ [i] }

/-- What `procesos_info` returns and delivers, and which of the collected processes it listed. -/
structure ProcReply extends Reply where
  listed : List Nat
  deriving DecidableEq, Repr

/-- `procesos_info`; `none` when the calling thread dies in the kernel. -/
def procesosInfo (m : Machine) (table : List Task) (size : UInt64) : Option ProcReply :=
  let outputSize := toInt size.toNat
  match obtenerInfoProcesos m table with
  | none => none
  | some (.error e) => some { ret := e.ret, delivered := [], listed := [] }
  | some (.ok procs) =>
    let n := toSizeT outputSize
    if m.kmalloc n then
      let output := snprintf ((List.range n).map m.heap) 0 headerText
      match printProcs procs [0, 1, 2, 3, 4] { buffer := output, listed := [] } with
      | none => none
      | some out =>
        match appendText out.buffer footerText with
        | none => none
        | some buffer =>
          match strlen buffer with
          | none => none
          | some len => some { copyToUser m.accepts (buffer.take len) with listed := out.listed }
    else some { ret := ENOMEM.ret, delivered := [], listed := [] }

end UsacSyscalls.Procs

import UsacSyscalls.Lib.Run
import UsacSyscalls.Lib.Ledger
import UsacSyscalls.Cipher.Services

/-!
# The cipher system calls as a step relation

Reference model of `kernel/my_encrypt.c` and `kernel/my_decrypt.c`.  A call is a main thread,
which runs the system call and `handle_file_encryption` (`decrypt_file_process`) statement by
statement, and the workers it has started, which run `perform_xor_operation`
(`xor_decrypt_worker`) one byte at a time.  The program counter `Pc` has one constructor for each
statement that can fail or be observed and one for each cleanup label, so that every `goto` of the
source is an assignment to it.

The two source files are copies of one another up to names and the texts of their messages; the
copies share one definition with the texts as a parameter, and each function of the source is
that definition at its own texts.

The state also keeps what the program does to its surroundings: the files, the trail of resources
taken and given back, the bytes handed to `kernel_write` and the `KERN_ERR` messages.
-/

set_option autoImplicit false

namespace UsacSyscalls.Cipher

open Lib.Run Lib.Ledger

/-- The two system calls. -/
inductive Mode where
  | encrypt
  | decrypt
  deriving DecidableEq, Repr

/-- The `KERN_ERR` messages of one source file. -/
structure Texts where
  paths : String
  openInput : String
  openOutput : String
  openKey : String
  keySize : String
  keyMemory : String
  readKey : String
  inputSize : String
  dataMemory : String
  readInput : String
  listMemory : String
  thread : String
  write : String

def encryptTexts : Texts where
  paths := "Error al copiar rutas desde el espacio de usuario\n"
  openInput := "Error al abrir el archivo de entrada: %d\n"
  openOutput := "Error al abrir el archivo de salida: %d\n"
  openKey := "Error al abrir el archivo de clave: %d\n"
  keySize := "Error: tamaño de la clave inválido (%zu)\n"
  keyMemory := "Error al asignar memoria para la clave\n"
  readKey := "Error al leer el archivo de clave: %d\n"
  inputSize := "Error: tamaño del archivo de entrada no válido (%zu)\n"
  dataMemory := "Error al asignar memoria para los datos del archivo\n"
  readInput := "Error al leer el archivo de entrada: %d\n"
  listMemory := "Error al asignar memoria para hilos, tareas o fragmentos\n"
  thread := "Error al crear el thread %d: %d\n"
  write := "Error al escribir en el archivo de salida: %d\n"

def decryptTexts : Texts where
  paths := "Error al copiar rutas desde el espacio de usuario\n"
  openInput := "Error al abrir archivo de entrada: %d\n"
  openOutput := "Error al abrir archivo de salida: %d\n"
  openKey := "Error al abrir archivo de clave: %d\n"
  keySize := "Tamaño de clave inválido: %zu\n"
  keyMemory := "Error al asignar memoria para clave\n"
  readKey := "Error al leer clave: %d\n"
  inputSize := "Tamaño de archivo de entrada no válido: %zu\n"
  dataMemory := "Error al asignar memoria para datos\n"
  readInput := "Error al leer archivo de entrada: %d\n"
  listMemory := "Error al asignar memoria para hilos, argumentos o fragmentos\n"
  thread := "Error al crear hilo de desencriptado %d: %d\n"
  write := "Error al escribir archivo de salida: %d\n"

def Mode.texts : Mode → Texts
  | .encrypt => encryptTexts
  | .decrypt => decryptTexts

/-- The arguments of a system call. -/
structure Call (Path : Type) where
  input : Path
  output : Path
  key : Path
  threadCount : Int32

/-- What a call takes and must give back. -/
inductive Resource where
  | path (f : Operand)
  | file (f : Operand)
  | block (b : Block)
  deriving DecidableEq, Repr

/-- The next statement or label of the main thread. -/
inductive Pc where
  | copyPaths
  | openInput
  | openOutput
  | openKey
  | checkFiles
  | sizeKey
  | allocKey
  | readKey
  | sizeInput
  | allocData
  | readInput
  | allocLists
  | split
  | spawn (i : Nat)
  | await (i : Nat)
  | write
  | freeThreadList
  | freeTaskList
  | freeFragmentList
  | freeFileBuffer
  | freeEncryptionKey
  | closeKeyFile
  | closeOutputFile
  | closeInputFile
  | exit
  | freeMemory
  | done
  /-- A division by zero: the thread dies here. -/
  | fault
  deriving DecidableEq, Repr

/-- `DataFragment` without the two buffer pointers, which are the call's own buffers. -/
structure DataFragment where
  dataSize : Nat
  keyLength : Nat
  startIdx : Nat
  endIdx : Nat
  deriving DecidableEq, Repr

/-- A started thread: its `task_params` and its loop variable. -/
structure Worker where
  fragment : DataFragment
  completed : Bool
  i : Nat
  deriving DecidableEq, Repr

structure State (Path : Type) where
  pc : Pc
  fs : FS Path
  /-- `none` is a valid file pointer, `some e` an error pointer. -/
  inputFile : Option Errno
  outputFile : Option Errno
  keyFile : Option Errno
  keyLength : Nat
  encryptionKey : Bytes
  fileSize : Nat
  fileBuffer : Bytes
  fragmentSize : Nat
  extraBytes : Nat
  /-- `task_list`, as far as it is in use: one entry for each thread started. -/
  workers : List Worker
  retVal : Int
  trail : List (Op Resource)
  handed : Option Bytes
  log : List (String × List Int)

/-- The state in which a call enters the kernel. -/
def State.init {Path : Type} (fs : FS Path) : State Path where
  pc := .copyPaths
  fs := fs
  inputFile := none
  outputFile := none
  keyFile := none
  keyLength := 0
  encryptionKey := []
  fileSize := 0
  fileBuffer := []
  fragmentSize := 0
  extraBytes := 0
  workers := []
  retVal := 0
  trail := []
  handed := none
  log := []

/-! ## The workers -/

/-- One iteration of the XOR loop, or `complete()` once the loop has ended; `none` after that. -/
def xorLoopStep (w : Worker) (buffer key : Bytes) : Option (Worker × Bytes) :=
  if w.completed then none
  else if w.i < w.fragment.endIdx then
    some ({ w with i := w.i + 1 },
      buffer.modify w.i (fun b => b ^^^ key.getD (w.i % w.fragment.keyLength) 0))
  else some ({ w with completed := true }, buffer)

/-- `perform_xor_operation`. -/
def performXorOperation : Worker → Bytes → Bytes → Option (Worker × Bytes) := xorLoopStep

/-- `xor_decrypt_worker`. -/
def xorDecryptWorker : Worker → Bytes → Bytes → Option (Worker × Bytes) := xorLoopStep

def Mode.worker : Mode → Worker → Bytes → Bytes → Option (Worker × Bytes)
  | .encrypt => performXorOperation
  | .decrypt => xorDecryptWorker

/-- The blocks a worker's next step reads or writes: its task parameters, and in the loop also
    both buffers. -/
def Worker.touches (w : Worker) : List Block :=
  if w.completed then []
  else if w.i < w.fragment.endIdx then [.taskList, .encryptionKey, .fileBuffer]
  else [.taskList]

def workerStep {Path : Type} (op : Mode) (k : Nat) (s : State Path) : Option (State Path) :=
  match s.workers[k]? with
  | none => none
  | some w =>
    match op.worker w s.fileBuffer s.encryptionKey with
    | none => none
    | some (w', buffer) => some { s with workers := s.workers.set k w', fileBuffer := buffer }

/-! ## The main thread -/

section Main

variable {Path : Type} [DecidableEq Path] (t : Texts) (env : Env) (c : Call Path)

/-- Set `ret_val`, print a message and jump to a label. -/
def fail (s : State Path) (label : Pc) (ret : Int) (text : String) (args : List Int) : State Path :=
  { s with pc := label, retVal := ret, log := s.log ++ [(text, args)] }

/-- The three `strndup_user` calls and their check. -/
def copyPaths (s : State Path) : State Path :=
  let ok (f : Operand) := (env.strndupUser f).isNone
  let s := { s with
    trail := s.trail ++ (attempt (ok .input) (.path .input) ++ attempt (ok .output) (.path .output) ++
      attempt (ok .key) (.path .key)) }
  if ok .input && ok .output && ok .key then { s with pc := .openInput }
  else fail s .freeMemory EFAULT.ret t.paths []

def openInput (s : State Path) : State Path :=
  let r := env.openRead s.fs .input c.input
  { s with pc := .openOutput, inputFile := r, trail := s.trail ++ attempt r.isNone (.file .input) }

def openOutput (s : State Path) : State Path :=
  let r := env.filpOpen .output
  { s with
    pc := .openKey
    outputFile := r
    fs := env.openWrite s.fs c.output
    trail := s.trail ++ attempt r.isNone (.file .output) }

def openKey (s : State Path) : State Path :=
  let r := env.openRead s.fs .key c.key
  { s with pc := .checkFiles, keyFile := r, trail := s.trail ++ attempt r.isNone (.file .key) }

/-- The three `IS_ERR` tests. -/
def checkFiles (s : State Path) : State Path :=
  match s.inputFile, s.outputFile, s.keyFile with
  | some e, _, _ => fail s .exit e.ret t.openInput [e.ret]
  | none, some e, _ => fail s .closeInputFile e.ret t.openOutput [e.ret]
  | none, none, some e => fail s .closeOutputFile e.ret t.openKey [e.ret]
  | none, none, none => { s with pc := .sizeKey }

def sizeKey (s : State Path) : State Path :=
  let n := env.iSizeRead .key (contents s.fs c.key)
  let s := { s with keyLength := n }
  if n = 0 then fail s .closeKeyFile EINVAL.ret t.keySize [n] else { s with pc := .allocKey }

def allocKey (s : State Path) : State Path :=
  if env.kmalloc .encryptionKey s.keyLength then
    { s with
      pc := .readKey
      encryptionKey := env.fresh .encryptionKey s.keyLength
      trail := s.trail ++ [.acquire (.block .encryptionKey)] }
  else fail s .closeKeyFile ENOMEM.ret t.keyMemory []

def readKey (s : State Path) : State Path :=
  let r := env.kernelRead .key (contents s.fs c.key) s.keyLength
  let ret := toInt (readCount r)
  let s := { s with encryptionKey := overwrite s.encryptionKey (readBytes r), retVal := ret }
  if ret < 0 then fail s .freeEncryptionKey ret t.readKey [ret] else { s with pc := .sizeInput }

def sizeInput (s : State Path) : State Path :=
  let n := env.iSizeRead .input (contents s.fs c.input)
  let s := { s with fileSize := n }
  if n = 0 then fail s .freeEncryptionKey EINVAL.ret t.inputSize [n] else { s with pc := .allocData }

def allocData (s : State Path) : State Path :=
  if env.kmalloc .fileBuffer s.fileSize then
    { s with
      pc := .readInput
      fileBuffer := env.fresh .fileBuffer s.fileSize
      trail := s.trail ++ [.acquire (.block .fileBuffer)] }
  else fail s .freeEncryptionKey ENOMEM.ret t.dataMemory []

def readInput (s : State Path) : State Path :=
  let r := env.kernelRead .input (contents s.fs c.input) s.fileSize
  let ret := toInt (readCount r)
  let s := { s with fileBuffer := overwrite s.fileBuffer (readBytes r), retVal := ret }
  if ret < 0 then fail s .freeFileBuffer ret t.readInput [ret] else { s with pc := .allocLists }

/-- `sizeof(type) * thread_count` in `size_t` arithmetic. -/
def listSize (sizeof : Nat) (threadCount : Int32) : Nat :=
  sizeof * toSizeT threadCount.toInt % 2 ^ 64

/-- `sizeof(struct task_struct *)`, `sizeof(struct task_params)` and `sizeof(DataFragment)`. -/
def SIZEOF_POINTER : Nat := 8
def SIZEOF_TASK_PARAMS : Nat := 80
def SIZEOF_DATA_FRAGMENT : Nat := 48

/-- Whether `kmalloc` serves the request for one of the three lists. -/
def Env.listOk (env : Env) (threadCount : Int32) : Block → Bool
  | .threadList => env.kmalloc .threadList (listSize SIZEOF_POINTER threadCount)
  | .taskList => env.kmalloc .taskList (listSize SIZEOF_TASK_PARAMS threadCount)
  | .fragmentList => env.kmalloc .fragmentList (listSize SIZEOF_DATA_FRAGMENT threadCount)
  | .encryptionKey => true
  | .fileBuffer => true

/-- The three list allocations and their common check. -/
def allocLists (s : State Path) : State Path :=
  let ok := env.listOk c.threadCount
  let s := { s with
    trail := s.trail ++ (attempt (ok .threadList) (.block .threadList) ++
      attempt (ok .taskList) (.block .taskList) ++ attempt (ok .fragmentList) (.block .fragmentList)) }
  if ok .threadList && ok .taskList && ok .fragmentList then { s with pc := .split }
  else fail s .freeFileBuffer ENOMEM.ret t.listMemory []

/-- `fragment_size` and `extra_bytes`; `thread_count` is converted to `size_t`. -/
def split (s : State Path) : State Path :=
  let n := toSizeT c.threadCount.toInt
  if n = 0 then { s with pc := .fault }
  else { s with pc := .spawn 0, fragmentSize := s.fileSize / n, extraBytes := s.fileSize % n }

/-- `fragment_list[i]`, in `size_t` arithmetic. -/
def fragmentOf (s : State Path) (i : Nat) : DataFragment where
  dataSize := s.fileSize
  keyLength := s.keyLength
  startIdx := i * s.fragmentSize % 2 ^ 64
  endIdx :=
    if (i : Int) = c.threadCount.toInt - 1 then ((i + 1) * s.fragmentSize + s.extraBytes) % 2 ^ 64
    else (i + 1) * s.fragmentSize % 2 ^ 64

/-- One iteration of the loop that starts the threads. -/
def spawn (i : Nat) (s : State Path) : State Path :=
  if (i : Int) < c.threadCount.toInt then
    match env.kthreadRun i with
    | some e => fail s .freeThreadList e.ret t.thread [i, e.ret]
    | none =>
      let f := fragmentOf c s i
      { s with pc := .spawn (i + 1), workers := s.workers ++ [⟨f, false, f.startIdx⟩] }
  else { s with pc := .await 0 }

/-- One iteration of the loop of `wait_for_completion` calls; `none` while the thread waits. -/
def await (i : Nat) (s : State Path) : Option (State Path) :=
  if (i : Int) < c.threadCount.toInt then
    match s.workers[i]? with
    | some w => if w.completed then some { s with pc := .await (i + 1) } else none
    | none => none
  else some { s with pc := .write }

def write (s : State Path) : State Path :=
  let ret := toInt (count (env.kernelWrite s.fileBuffer))
  let s := { s with
    fs := env.written s.fs c.output s.fileBuffer
    handed := some s.fileBuffer
    retVal := ret }
  if ret < 0 then fail s .freeThreadList ret t.write [ret] else { s with pc := .freeThreadList }

/-- Give something back and go on to the next label. -/
def giveBack (rs : List Resource) (next : Pc) (s : State Path) : State Path :=
  { s with pc := next, trail := s.trail ++ rs.map .release }

/-- One step of the main thread; `none` when it waits or has ended. -/
def mainStep (s : State Path) : Option (State Path) :=
  match s.pc with
  | .copyPaths => some (copyPaths t env s)
  | .openInput => some (openInput env c s)
  | .openOutput => some (openOutput env c s)
  | .openKey => some (openKey env c s)
  | .checkFiles => some (checkFiles t s)
  | .sizeKey => some (sizeKey t env c s)
  | .allocKey => some (allocKey t env s)
  | .readKey => some (readKey t env c s)
  | .sizeInput => some (sizeInput t env c s)
  | .allocData => some (allocData t env s)
  | .readInput => some (readInput t env c s)
  | .allocLists => some (allocLists t env c s)
  | .split => some (split c s)
  | .spawn i => some (spawn t env c i s)
  | .await i => await c i s
  | .write => some (write t env c s)
  | .freeThreadList => some (giveBack [.block .threadList] .freeTaskList s)
  | .freeTaskList => some (giveBack [.block .taskList] .freeFragmentList s)
  | .freeFragmentList => some (giveBack [.block .fragmentList] .freeFileBuffer s)
  | .freeFileBuffer => some (giveBack [.block .fileBuffer] .freeEncryptionKey s)
  | .freeEncryptionKey => some (giveBack [.block .encryptionKey] .closeKeyFile s)
  | .closeKeyFile => some (giveBack [.file .key] .closeOutputFile s)
  | .closeOutputFile => some (giveBack [.file .output] .closeInputFile s)
  | .closeInputFile => some (giveBack [.file .input] .exit s)
  | .exit => some (giveBack [] .freeMemory s)
  | .freeMemory => some (giveBack [.path .input, .path .output, .path .key] .done s)
  | .done => none
  | .fault => none

end Main

/-! ## The whole call -/

inductive Actor where
  | main
  | worker (k : Nat)
  deriving DecidableEq, Repr

section Call

variable {Path : Type} [DecidableEq Path]

/-- One step of a call: any thread may take it. -/
def step (op : Mode) (env : Env) (c : Call Path) : Actor → State Path → Option (State Path)
  | .main, s => mainStep op.texts env c s
  | .worker k, s => workerStep op k s

/-- `handle_file_encryption`, one main-thread step at a time, inside the system call. -/
def handleFileEncryption (env : Env) (c : Call Path) : State Path → Option (State Path) :=
  mainStep encryptTexts env c

/-- `decrypt_file_process`. -/
def decryptFileProcess (env : Env) (c : Call Path) : State Path → Option (State Path) :=
  mainStep decryptTexts env c

/-- `my_encrypt` as a system of threads. -/
def myEncrypt (env : Env) (c : Call Path) : Actor → State Path → Option (State Path) :=
  step .encrypt env c

/-- `my_decrypt` as a system of threads. -/
def myDecrypt (env : Env) (c : Call Path) : Actor → State Path → Option (State Path) :=
  step .decrypt env c

/-- Every run of the call ends, and returns to user space with `Q` of the return value and the
    files. -/
def Returns (op : Mode) (env : Env) (c : Call Path) (fs : FS Path) (Q : Int → FS Path → Prop) :
    Prop :=
  Ensures (step op env c) (fun s => s.pc = .done ∧ Q s.retVal s.fs) (State.init fs)

end Call

end UsacSyscalls.Cipher

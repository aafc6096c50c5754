import DistributedPlatform.Server.Syscall

/-!
# `Stdlib.Sys` — library calls and their messages

The program's side of a system call: `stdlib/syscall.c` packs the arguments into a variadic message, and
`stdlib/sys.c` and `stdlib/stdlib.c` are the library functions over it, with the conversions their
parameter and result types make.
-/

namespace DistributedPlatform

/-- A variadic message to the server. -/
structure Message where
  id : SysCommonSysCall
  args : VaList
  deriving DecidableEq, Repr

/-! ## `syscall.c` -/

def sysExit (status : Nat) : Message := ⟨.exit, [.u32 status]⟩

def sysFork : Message := ⟨.fork, [.ptr .ret]⟩

def sysGetpid : Message := ⟨.getPid, [.ptr .ret]⟩

def sysAlloc (ptr : Ptr) (size : Nat) : Message := ⟨.alloc, [.ptr .ret, .ptr ptr, .size size]⟩

def sysExec (path : CStr) (argc : Nat) (argv : List CStr) : Message :=
  ⟨.exec, [.ptr (.str path), .u32 argc, .ptr (.argv argv)]⟩

def sysChdir (path : CStr) : Message := ⟨.chDir, [.ptr .ret, .ptr (.str path)]⟩

def sysGetcwd (buf : Ptr) (size : Nat) : Message := ⟨.getCwd, [.ptr .ret, .ptr buf, .u32 size]⟩

def sysRead (fd : Int) (buf : Ptr) (count : Nat) : Message :=
  ⟨.read, [.ptr .ret, .i32 fd, .ptr buf, .u32 count]⟩

def sysWrite (fd : Int) (buf : Ptr) (count : Nat) : Message :=
  ⟨.write, [.ptr .ret, .i32 fd, .ptr buf, .u32 count]⟩

def sysOpen (pathname : CStr) (flags mode : Nat) : Message :=
  ⟨.open, [.ptr .ret, .ptr (.str pathname), .u32 flags, .u32 mode]⟩

def sysClose (fd : Int) : Message := ⟨.close, [.ptr .ret, .i32 fd]⟩

/-! ## The library functions -/

/-- A call of a library function, with its arguments at the types of its parameters (`size_t` and `mode_t`
    as `Nat`, `int` as `Int`). `copied` is whether the copies `execv` makes of its arguments succeed. -/
inductive LibCall
  | exit (status : Int)
  | fork
  | getpid
  | malloc (size : Nat)
  | realloc (ptr : Ptr) (size : Nat)
  | execv (path : CStr) (argv : List CStr) (copied : Bool)
  | chdir (path : CStr)
  | getcwd (buf : Ptr) (size : Nat)
  | read (fd : Int) (buf : Ptr) (count : Nat)
  | write (fd : Int) (buf : Ptr) (count : Nat)
  | open (pathname : CStr) (flags : Int) (mode : Nat)
  | close (fd : Int)
  deriving DecidableEq, Repr

namespace LibCall

/-- The message the call sends, if it gets to that. -/
def message : LibCall → Option Message
  | exit status => some (sysExit (toU32 status))
  | fork => some sysFork
  | getpid => some sysGetpid
  | malloc size => some (sysAlloc .null size)
  | realloc ptr size => some (sysAlloc ptr size)
  | execv path argv copied => if copied then some (sysExec path (toU32 argv.length) argv) else none
  | chdir path => some (sysChdir path)
  | getcwd buf size => if buf = .null ∨ size = 0 then none else some (sysGetcwd buf (toU32 size))
  | read fd buf count => some (sysRead fd buf (toU32 count))
  | write fd buf count => some (sysWrite fd buf (toU32 count))
  | .open pathname flags mode => some (sysOpen pathname (toU32 flags) mode)
  | close fd => some (sysClose fd)

/-- The wrapper's conversion of what the server stored: `sys_fork` and `sys_getpid` return it as a
    `uint32_t`, which becomes a `pid_t` again. -/
def received : LibCall → RetVal → RetVal
  | fork, .int x => .int (toI32 (toU32 x))
  | getpid, .int x => .int (toI32 (toU32 x))
  | _, x => x

end LibCall

/-! ## `getcwd` and its buffer -/

/-- `getcwd` into a buffer: whether the buffer is returned (else `NULL`), and the buffer. -/
def getcwd (s : Server) (pid : Nat) (buf : Block) (size : Nat) : Eff (Bool × Block) :=
  if size = 0 then .ok (false, buf)
  else do
    let (trueSize, buf) ← s.getCwdInto pid (toU32 size) buf
    -- range check, on the size as the caller gave it
    .ok (!decide (trueSize > size), buf)

end DistributedPlatform

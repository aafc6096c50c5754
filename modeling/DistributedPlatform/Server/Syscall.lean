import DistributedPlatform.Memory
import DistributedPlatform.Server.Processes

/-!
# `Server.Syscall` — system calls

`Server::syscall`. A call arrives as an id and a list of variadic arguments; `parse` is the reading of the
arguments in each case of the `switch`, giving the arguments as they are handed to the operation, and
`perform` is the operation. The cases that work on descriptors and on the working directory are functions of
their own (`syscallOpen`, …); exec and exit stand in `Server.Processes`.
-/

namespace DistributedPlatform

/-! ## Variadic arguments -/

/-- What a pointer argument points to: the caller's variable for the result, nothing, a string, a vector of
    strings, or memory at some address. -/
inductive Ptr
  | ret
  | null
  | str (s : CStr)
  | argv (args : List CStr)
  | mem (addr : Nat)
  deriving DecidableEq, Repr

/-- A variadic argument with the type it was passed at. -/
inductive VArg
  | ptr (p : Ptr)
  | u32 (n : Nat)
  | i32 (x : Int)
  | size (n : Nat)
  deriving DecidableEq, Repr

/-- `va_list`: the arguments not read yet. -/
abbrev VaList := List VArg

/-- `va_arg` for a pointer, … -/
def vaPtr : VaList → Eff (Ptr × VaList)
  | .ptr p :: ap => .ok (p, ap)
  | _ => .error .badVaArg

/-- … for `uint32_t`, … -/
def vaU32 : VaList → Eff (Nat × VaList)
  | .u32 n :: ap => .ok (n, ap)
  | _ => .error .badVaArg

/-- … for `int32_t` … -/
def vaI32 : VaList → Eff (Int × VaList)
  | .i32 x :: ap => .ok (x, ap)
  | _ => .error .badVaArg

/-- … and for `size_t`. -/
def vaSize : VaList → Eff (Nat × VaList)
  | .size n :: ap => .ok (n, ap)
  | _ => .error .badVaArg

/-- A pointer used as a string. -/
def Ptr.toStr : Ptr → Eff CStr
  | .str s => .ok s
  | .null => .error .nullDeref
  | _ => .error .badVaArg

/-- A pointer used as a vector of strings. -/
def Ptr.toArgv : Ptr → Eff (List CStr)
  | .argv args => .ok args
  | .null => .error .nullDeref
  | _ => .error .badVaArg

/-- `SysCommonSysCall`. -/
inductive SysCommonSysCall
  | exit | fork | read | write | open | close | exec | chDir | getPid | getCwd | alloc
  deriving DecidableEq, Repr

namespace SysCommonSysCall

def id : SysCommonSysCall → Nat
  | exit => 1
  | fork => 2
  | read => 3
  | write => 4
  | .open => 5
  | close => 6
  | exec => 11
  | chDir => 12
  | getPid => 20
  | getCwd => 183
  | alloc => 184

/-- The `switch` on the id. -/
def ofId (n : Nat) : Option SysCommonSysCall :=
  [exit, fork, read, write, .open, close, exec, chDir, getPid, getCwd, alloc].find? fun c => c.id == n

end SysCommonSysCall

/-- The operation a message asks for, with the arguments it is called with. -/
inductive ServerOp
  | syscallExit (status : Nat)
  | processFork
  | getPid
  | realloc (ptr : Ptr) (size : Nat)
  | exec (path : CStr) (argc : Nat) (argv : List CStr)
  | getCwd (buf : Ptr) (size : Nat)
  | setCwd (path : CStr)
  | fdRead (procFd : Int) (buf : Ptr) (count : Nat)
  | fdWrite (procFd : Int) (buf : Ptr) (count : Nat)
  | fdOpenFdFromPath (path : CStr) (flags : Int) (mode : Nat)
  | fdClose (procFd : Int)
  deriving DecidableEq, Repr

/-- Reading the arguments in the cases of `Server::syscall`. -/
def SysCommonSysCall.parse (id : SysCommonSysCall) (ap : VaList) : Eff ServerOp :=
  match id with
  | exit => do
      let (status, _) ← vaU32 ap
      .ok (.syscallExit status)
  | fork => do
      let _ ← vaPtr ap
      .ok .processFork
  | getPid => do
      let _ ← vaPtr ap
      .ok .getPid
  | alloc => do
      let (_, ap) ← vaPtr ap
      let (ptr, ap) ← vaPtr ap
      let (size, _) ← vaSize ap
      .ok (.realloc ptr size)
  | exec => do
      let (path, ap) ← vaPtr ap
      let (argc, ap) ← vaU32 ap
      let (argv, _) ← vaPtr ap
      .ok (.exec (← path.toStr) argc (← argv.toArgv))
  | getCwd => do
      let (_, ap) ← vaPtr ap
      let (buf, ap) ← vaPtr ap
      let (size, _) ← vaU32 ap
      .ok (.getCwd buf size)
  | chDir => do
      let (_, ap) ← vaPtr ap
      let (path, _) ← vaPtr ap
      .ok (.setCwd (← path.toStr))
  | read => do
      let (_, ap) ← vaPtr ap
      let (procFd, ap) ← vaI32 ap
      let (buf, ap) ← vaPtr ap
      let (count, _) ← vaU32 ap
      .ok (.fdRead procFd buf count)
  | write => do
      let (_, ap) ← vaPtr ap
      let (procFd, ap) ← vaI32 ap
      let (buf, ap) ← vaPtr ap
      let (count, _) ← vaU32 ap
      .ok (.fdWrite procFd buf count)
  | .open => do
      let (_, ap) ← vaPtr ap
      let (pathname, ap) ← vaPtr ap
      let (flags, ap) ← vaU32 ap
      let (mode, _) ← vaU32 ap
      -- the call in the source reads `fdOpenFdFromPath(curr, pathname, mode, flags)`
      .ok (.fdOpenFdFromPath (← pathname.toStr) (toI32 mode) flags)
  | close => do
      let (_, ap) ← vaPtr ap
      let (procFd, _) ← vaI32 ap
      .ok (.fdClose procFd)

/-! ## The operations -/

/-- Answers to the calls of one system call; each case reads its own. -/
structure SysHost where
  fork : ForkHost
  exec : ExecHost
  self : Int
  exitClose : Nat → Int
  realloc : Ptr
  setCwd : Bool
  read : ReadAns
  write : Int
  open_ : OpenHost
  close : Int

/-- What is stored in the caller's variable. -/
inductive RetVal
  | int (x : Int)
  | ptr (p : Ptr)
  deriving DecidableEq, Repr

/-- Result of a system call: what was stored through the result pointer (`none`: nothing), and the rest of
    what the operation did. `op` is the value the operation itself returned. -/
structure SysResult where
  stored : Option RetVal
  op : Option RetVal
  srv : Server
  child : Option Server := none
  on : Option FdType := none
  calls : List HostCall := []

namespace Server

/-- `curr->fds[procFd]`: the index is not checked. -/
def serverFd (curr : Process) (procFd : Int) : Eff Int :=
  if procFd < 0 then .error .outOfBounds
  else match curr.fds[procFd.toNat]? with
    | none => .error .outOfBounds
    | some v => .ok v

def syscallRead (s : Server) (pid : Nat) (procFd : Int) (count : Nat) (ans : ReadAns) :
    Eff (IoResult ReadAns) :=
  match s.proc pid with
  | none => .error .dangling
  | some curr => do
      let serverFd ← serverFd curr procFd
      s.fdRead serverFd count ans

def syscallWrite (s : Server) (pid : Nat) (procFd : Int) (count : Nat) (ans : Int) :
    Eff (IoResult Int) :=
  match s.proc pid with
  | none => .error .dangling
  | some curr => do
      let serverFd ← serverFd curr procFd
      s.fdWrite serverFd count ans

/-- The call of `fdOpenFdFromPath`, with the arguments it gets there. -/
def syscallOpen (s : Server) (pid : Nat) (path : CStr) (flags : Int) (mode : Nat) (h : OpenHost) :
    Eff FdResult :=
  match s.proc pid with
  | none => .error .dangling
  | some curr => s.fdOpenFdFromPath curr path flags mode h

def syscallClose (s : Server) (pid : Nat) (procFd : Int) (closeRet : Int) : Eff FdResult :=
  match s.proc pid with
  | none => .error .dangling
  | some curr => do
      let serverFd ← serverFd curr procFd
      s.fdClose curr serverFd closeRet

/-- The getcwd case: the value is the length of the whole string with its NUL, as a `uint32_t`, whatever was
    copied; it is left alone when there is no buffer. -/
def syscallGetCwd (s : Server) (pid : Nat) (buf : Ptr) : Eff (Option Int) :=
  match s.proc pid with
  | none => .error .dangling
  | some curr =>
      match curr.cwd with
      | none => .ok (some 0)
      | some cwd => if buf = .null then .ok none else .ok (some (toU32 (cwd.length + 1)))

/-- The same with the buffer: the value, and the buffer as the copy and the NUL at its end leave it. The index
    of that NUL is a `uint32_t`. -/
def getCwdInto (s : Server) (pid : Nat) (size : Nat) (buf : Block) : Eff (Nat × Block) :=
  match s.proc pid with
  | none => .error .dangling
  | some curr =>
      match curr.cwd with
      | none => .ok (0, buf)
      | some cwd => do
          let buf ← strncpy buf cwd size
          let buf ← store buf (toU32 (size - 1)) 0
          .ok (toU32 (cwd.length + 1), buf)

def syscallChDir (s : Server) (pid : Nat) (path : CStr) (alloc : Bool) : Eff (Int × Server) :=
  match s.proc pid with
  | none => .error .dangling
  | some curr =>
      let (done, curr) := curr.setCwd path alloc
      .ok (if done then 0 else -1, s.setProc pid (some curr))

/-- The operation of each case, and what it stores. -/
def perform (s : Server) (pid : Nat) (op : ServerOp) (h : SysHost) : Eff SysResult :=
  match op with
  | .syscallExit _ => do
      let r ← s.syscallExit pid h.exitClose
      .ok { stored := none, op := none, srv := r.srv, calls := r.calls }
  | .processFork => do
      let r ← s.processFork pid h.fork
      -- a `ProcessPID` is an `int32_t`
      let ret := RetVal.int (toI32 r.ret)
      .ok { stored := some ret, op := some ret, srv := r.srv, child := r.child }
  | .getPid => .ok { stored := some (.int (toI32 pid)), op := some (.int (toI32 pid)), srv := s }
  | .realloc _ _ => .ok { stored := some (.ptr h.realloc), op := some (.ptr h.realloc), srv := s }
  | .exec path _ argv => do
      let r ← s.syscallExec pid path argv h.exec h.self
      .ok { stored := none, op := none, srv := r.srv, calls := r.calls }
  | .getCwd buf _ => do
      let r ← s.syscallGetCwd pid buf
      .ok { stored := r.map .int, op := r.map .int, srv := s }
  | .setCwd path => do
      let (ret, s) ← s.syscallChDir pid path h.setCwd
      .ok { stored := some (.int ret), op := some (.int ret), srv := s }
  | .fdRead procFd _ count => do
      let r ← s.syscallRead pid procFd count h.read
      .ok { stored := some (.int (toI32 r.ret.nbytes)), op := some (.int r.ret.nbytes), srv := s
            on := r.on, calls := r.calls }
  | .fdWrite procFd _ count => do
      let r ← s.syscallWrite pid procFd count h.write
      .ok { stored := some (.int (toI32 r.ret)), op := some (.int r.ret), srv := s
            on := r.on, calls := r.calls }
  | .fdOpenFdFromPath path flags mode => do
      let r ← s.syscallOpen pid path flags mode h.open_
      -- the index of the slot is returned as an `int`
      let ret := RetVal.int (toI32 r.ret)
      .ok { stored := some ret, op := some ret, srv := r.commit pid, calls := r.calls }
  | .fdClose procFd => do
      let r ← s.syscallClose pid procFd h.close
      let ret := if r.ret = 1 then 0 else -1
      .ok { stored := some (.int ret), op := some (.int ret), srv := r.commit pid
            calls := r.calls }

/-- `syscall`: an unknown id is only logged. -/
def syscall (s : Server) (pid : Nat) (id : Nat) (ap : VaList) (h : SysHost) : Eff SysResult :=
  match SysCommonSysCall.ofId id with
  | none => .ok { stored := none, op := none, srv := s }
  | some call => do
      let op ← call.parse ap
      s.perform pid op h

/-! ## What the cases can do to the caller -/

theorem syscallOpen_only {s : Server} {pid : Nat} {path : CStr} {flags : Int} {mode : Nat} {h : OpenHost}
    {r : FdResult} (hr : s.syscallOpen pid path flags mode h = .ok r) :
    ∃ curr, s.proc pid = some curr ∧ FdOnly s curr r := by
  unfold syscallOpen at hr
  cases hp : s.proc pid with
  | none => rw [hp] at hr; cases hr
  | some curr =>
      rw [hp] at hr
      exact ⟨curr, rfl, fdOpen_only hr⟩

theorem syscallClose_only {s : Server} {pid : Nat} {procFd closeRet : Int} {r : FdResult}
    (hr : s.syscallClose pid procFd closeRet = .ok r) :
    ∃ curr, s.proc pid = some curr ∧ FdOnly s curr r := by
  unfold syscallClose at hr
  cases hp : s.proc pid with
  | none => rw [hp] at hr; cases hr
  | some curr =>
      rw [hp] at hr
      obtain ⟨v, -, hr⟩ := Eff.bind_eq_ok.mp hr
      exact ⟨curr, rfl, fdClose_only hr⟩

theorem syscallChDir_only {s t : Server} {pid : Nat} {path : CStr} {alloc : Bool} {ret : Int}
    (hr : s.syscallChDir pid path alloc = .ok (ret, t)) :
    ∃ curr, s.proc pid = some curr ∧ t = s.setProc pid (some (curr.setCwd path alloc).2) := by
  unfold syscallChDir at hr
  cases hp : s.proc pid with
  | none => rw [hp] at hr; cases hr
  | some curr =>
      rw [hp] at hr
      exact ⟨curr, rfl, (Prod.ext_iff.mp (Except.ok.inj hr)).2.symm⟩

end Server

end DistributedPlatform

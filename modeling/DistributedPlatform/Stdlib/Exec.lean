import DistributedPlatform.Ledger
import DistributedPlatform.Stdlib.Sys

/-!
# `Stdlib.Exec` — replacing the program of a process

`__wrap_execv` and `__wrap_execl` (`stdlib/sys.c`) with the exec case of the server under them. Library and
server share one heap, so what is tracked beside the server image is the arena of its live blocks, process
objects among them: the copies the wrappers make of the arguments, the new object, and what loading it
allocates. Once the new program runs the heap is not followed further.
-/

namespace DistributedPlatform

/-- How a call of exec ends: it returns, the new program is entered with these arguments to `main`, `new`
    throws and nothing catches it, or it goes on for ever. -/
inductive ExecEnd
  | returned (ret : Int) (srv : Server) (heap : Arena)
  | runs (srv : Server) (argc : Int) (argv : List CStr)
  | terminated
  | hangs

/-- Answers to the allocations of a copy of an argument vector: the vector and its strings. -/
structure CopyHost where
  argv : Bool
  arg : Nat → Bool

/-- Answers to the calls made in `execv`: its copy, `new Process`, and those of the system call. -/
structure ExecvHost where
  copy : CopyHost
  newProc : Bool
  exec : ExecHost

/-- Answers to the calls made in `execl`: its own copy, and those of `execv`. -/
structure ExeclHost where
  copy : CopyHost
  execv : ExecvHost

/-! ## The exec case of the server -/

/-- `loadFileLocal` on a new object, as far as blocks go. -/
def loadFileLocalBlocks (m : Arena) (h : LoadHost) : Eff (Bool × Arena) :=
  if ¬ h.dlopen then .ok (false, m)
  else if ¬ h.dlsym then .ok (false, m)
  else
    match m.alloc h.name with
    | (none, m) => .ok (false, m)
    | (some name, m) =>
        match m.alloc h.path with
        | (none, m) => do
            let m ← freeBlock m name
            .ok (false, m)
        | (some _, m) => .ok (true, m)

/-- `loadFileFS` on a new object, as far as blocks go. -/
def loadFileFSBlocks (m : Arena) (path : CStr) (h : LoadHost) : Eff (Bool × Arena) :=
  if path.head? ≠ some 47 then .ok (false, m)
  else
    match m.alloc h.localPath with
    | (none, m) => .ok (false, m)
    | (some localPath, m) =>
        match m.alloc h.cwd with
        | (none, m) => do
            let m ← freeBlock m localPath
            .ok (false, m)
        | (some cwd, m) => do
            let (loaded, m) ← loadFileLocalBlocks m h
            let m ← freeBlock m localPath
            if loaded then .ok (true, m)
            else do
              let m ← freeBlock m cwd
              .ok (false, m)

/-- The exec case of `syscall`; the object of a program that does not load stays behind. -/
def execCase (s : Server) (m : Arena) (pid : Nat) (path : CStr) (argc : Nat) (argv : List CStr)
    (h : ExecvHost) (self : Int) : Eff ExecEnd :=
  if ¬ h.newProc then .ok .terminated
  else do
    let (loaded, m) ← loadFileFSBlocks m.push path h.exec.load
    let r ← s.syscallExec pid path argv h.exec self
    -- `info.argc` is an `int32_t`
    if loaded then .ok (.runs r.srv (toI32 argc) argv)
    else .ok (.returned (-1) r.srv m)

/-! ## The wrappers -/

/-- The strings copied, each with its block, and whether that was all of them. -/
structure Copies where
  made : List (Nat × CStr)
  done : Bool
  heap : Arena

def Copies.blocks (c : Copies) : List Nat := c.made.map (·.1)

def Copies.strings (c : Copies) : List CStr := c.made.map (·.2)

/-- Copying the arguments from the `i`-th on into a vector of `cells` pointers, up to the first failure. -/
def copyArgs (cells : Nat) (ok : Nat → Bool) : (i : Nat) → (args : List CStr) → Arena → Eff Copies
  | _, [], m => .ok ⟨[], true, m⟩
  | i, arg :: args, m =>
      let (copy, m) := m.alloc (ok i)
      if cells ≤ i then .error .outOfBounds  -- `argv[i]=malloc(argSize)`
      else
        match copy with
        | none => .ok ⟨[], false, m⟩
        | some b => do
            let c ← copyArgs cells ok (i + 1) args m
            .ok { c with made := (b, arg) :: c.made }

/-- `execv`: the copies are freed when one of them cannot be made, and not when the system call returns. -/
def execv (s : Server) (m : Arena) (pid : Nat) (path : CStr) (gargv : List CStr) (h : ExecvHost)
    (self : Int) : Eff ExecEnd :=
  let argc := gargv.length
  if 2 ^ 32 ≤ argc then .ok .hangs  -- the `uint32_t` that counts wraps before it gets to the `NULL`
  else
    match m.alloc h.copy.argv with
    | (none, m) => .ok (.returned (-1) s m)
    | (some argv, m) => do
        let c ← copyArgs argc h.copy.arg 0 gargv m
        if ¬ c.done then
          let m ← freeBlocks c.heap (c.blocks ++ [argv])
          .ok (.returned (-1) s m)
        else execCase s c.heap pid path argc c.strings h self

/-- The pointers in the vector of `execl` for `n` arguments: one more than its `unsigned int` counts. -/
def execlCells (n : Nat) : Nat := (n % 2 ^ 32 + 1) % 2 ^ 32

/-- `execl`: a copy that cannot be made leaves a `NULL` where the clean-up stops. -/
def execl (s : Server) (m : Arena) (pid : Nat) (path arg : CStr) (args : List CStr) (h : ExeclHost)
    (self : Int) : Eff ExecEnd :=
  let argc := (args.length + 1) % 2 ^ 32
  let cells := execlCells (args.length + 1)
  match m.alloc h.copy.argv with
  | (none, m) => .ok (.returned (-1) s m)
  | (some argv, m) => do
      let c ← copyArgs cells h.copy.arg 0 (arg :: args) m
      if ¬ c.done then
        let m ← freeBlocks c.heap (c.blocks ++ [argv])
        .ok (.returned (-1) s m)
      else if cells ≤ argc then .error .outOfBounds  -- `argv[argc]=NULL`
      else
        match ← execv s c.heap pid path c.strings h.execv self with
        | .returned ret s m => do
            let m ← freeBlocks m (c.blocks ++ [argv])
            .ok (.returned ret s m)
        | e => .ok e

/-- A call of exec with its arguments. -/
inductive ExecCall
  | execv (argv : List CStr)
  | execl (arg : CStr) (args : List CStr)
  deriving DecidableEq, Repr

namespace ExecCall

def args : ExecCall → List CStr
  | execv argv => argv
  | execl arg args => arg :: args

def run (s : Server) (m : Arena) (pid : Nat) (path : CStr) (h : ExeclHost) (self : Int) :
    ExecCall → Eff ExecEnd
  | execv argv => DistributedPlatform.execv s m pid path argv h.execv self
  | execl arg args => DistributedPlatform.execl s m pid path arg args h self

end ExecCall

end DistributedPlatform

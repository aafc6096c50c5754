import DistributedPlatform.ProcessHeap
import DistributedPlatform.Stdlib.Exec

/-!
# `ProcessTable` — the process table and its memory

`server.cpp` once more, as far as the objects in `procs` go and the blocks they hold: starting a program,
`processFork`, and the exec, exit and chdir system calls, the exec with the copies `execv` makes of its arguments.
`Server` has the same on the contents; the descriptors of a process are left to it. An object is deleted when
`processFree` is done with them.
-/

namespace DistributedPlatform

/-- `procs`, each pointer with the object it points to, unless that is deleted, and the memory of the host process. -/
structure ProcTable where
  procs : List (Option (Nat × ProcessObj))
  ledger : Ledger

/-- How an operation ends: it returns, in a forked child too if there is one, or `new` throws and nothing catches it. -/
inductive TableEnd
  | returned (t : ProcTable) (child : Option ProcTable)
  | terminated

/-- The table in the image of the caller, or in that of the forked child. -/
def TableEnd.image : TableEnd → (child : Bool) → Option ProcTable
  | .returned t _, false => some t
  | .returned _ c, true => c
  | .terminated, _ => none

namespace ProcTable

/-- The object of process `pid`. -/
def proc (t : ProcTable) (pid : Nat) : Eff (Nat × ProcessObj) :=
  match t.procs[pid]? with
  | some (some p) => .ok p
  | _ => .error .dangling

def setProc (t : ProcTable) (pid : Nat) (p : Option (Nat × ProcessObj)) : ProcTable :=
  { t with procs := t.procs.set pid p }

/-- `delete`. -/
def delete (l : Ledger) (p : Nat × ProcessObj) : Eff Ledger := do
  let l ← p.2.destroy l
  l.free (some p.1)

/-- What `run` does for the init program and `tcpRead` for a shell. The object of a program that is not loaded is
    not deleted. -/
def startProcess (t : ProcTable) (fs : FSDirect) (dir : Dirname) (path : CStr) (args : List Cell) (newProc : Bool)
    (h : StartHost) (fill : ProcessObj.LoadFill) : Eff TableEnd :=
  match t.ledger.malloc newProc with
  | (none, _) => .ok .terminated
  | (some b, l) => do
      let (loaded, o, l) ← ({} : ProcessObj).loadFileFS l fs dir (some path) h.load fill
      if ¬ loaded ∨ o.state ≠ .loaded then .ok (.returned { t with ledger := l } none)
      else
        let pid := t.procs.length
        if ¬ 1 ≤ pid then .error .assertFailed
        else do
          let t := { t with procs := t.procs ++ [some (b, o)] }
          let r ← o.vrun l true args h.run (-1)
          .ok (.returned { t.setProc pid (some (b, r.obj)) with ledger := r.ledger }
            (r.child.map fun c => { t.setProc pid (some (b, c.1)) with ledger := c.2 }))

def processFork (t : ProcTable) (pid : Nat) (newProc : Bool) (h : ForkHost) : Eff TableEnd := do
  let (_, parent) ← t.proc pid
  match ← parent.forkCopy t.ledger newProc h.copy with
  | .terminated => .ok .terminated
  | .returned none l => .ok (.returned { t with ledger := l } none)
  | .returned (some (b, child)) l =>
      let childPID := t.procs.length
      let t : ProcTable := ⟨t.procs ++ [some (b, child)], l⟩
      -- the object that is taken off the table is not deleted
      if h.fork < 0 then .ok (.returned { t with procs := t.procs.dropLast } none)
      else .ok (.returned t (some (t.setProc childPID (some (b, { child with posixPID := h.fork })))))

/-- The exec case of `syscall`. -/
def syscallExec (t : ProcTable) (pid : Nat) (fs : FSDirect) (dir : Dirname) (path : CStr) (argc : Nat)
    (argv : PtrArray) (h : ExecvHost) (self : Int) (fill : ProcessObj.LoadFill) : Eff TableEnd := do
  let curr ← t.proc pid
  match t.ledger.malloc h.newProc with
  | (none, _) => .ok .terminated
  | (some b, l) => do
      let (loaded, newProc, l) ← ({} : ProcessObj).loadFileFS l fs dir (some path) h.exec.load fill
      if ¬ loaded then .ok (.returned { t with ledger := l } none)
      else do
        let (_, newProc, l) ← newProc.setEnviron l curr.2.environ h.exec.environ h.exec.environEntry
        let (_, newProc, l) ← newProc.setCwd l curr.2.cwd h.exec.cwd
        let l ← delete l curr
        let r := newProc.arun l false argc argv 0 self
        .ok (.returned { t.setProc pid (some (b, r.obj)) with ledger := r.ledger } none)

/-- `execv`, of fewer than `2^32` arguments; the vector is only released when it could not be made. -/
def execv (t : ProcTable) (pid : Nat) (fs : FSDirect) (dir : Dirname) (path : CStr) (args : List Cell) (h : ExecvHost)
    (self : Int) (fill : ProcessObj.LoadFill) : Eff TableEnd :=
  match t.ledger.malloc h.copy.argv with
  | (none, l) => .ok (.returned { t with ledger := l } none)
  | (some b, l) => do
      let (done, i, argv, l) ← l.copyArgv h.copy.arg args 0 ⟨b, List.replicate args.length .indeterminate⟩
      if done then syscallExec { t with ledger := l } pid fs dir path args.length argv h self fill
      else do
        let l ← l.freeArgv argv i
        .ok (.returned { t with ledger := l } none)

/-- The exit case of `syscall`, up to the exit of the host process. -/
def syscallExit (t : ProcTable) (pid : Nat) : Eff TableEnd := do
  let curr ← t.proc pid
  let l ← delete t.ledger curr
  .ok (.returned { t.setProc pid none with ledger := l } none)

def syscallChDir (t : ProcTable) (pid : Nat) (path : Cell) (ok : Bool) : Eff TableEnd := do
  let (b, curr) ← t.proc pid
  let (_, curr, l) ← curr.setCwd t.ledger (some path) ok
  .ok (.returned { t.setProc pid (some (b, curr)) with ledger := l } none)

end ProcTable

/-- An operation on the table, with the answers of the host and what new memory has in it. -/
inductive TableOp
  | start (path : CStr) (args : List Cell) (newProc : Bool) (h : StartHost) (fill : ProcessObj.LoadFill)
  | fork (pid : Nat) (newProc : Bool) (h : ForkHost)
  | execv (pid : Nat) (path : CStr) (args : List Cell) (h : ExecvHost) (self : Int) (fill : ProcessObj.LoadFill)
  | exit (pid : Nat)
  | chdir (pid : Nat) (path : Cell) (ok : Bool)

def TableOp.run (fs : FSDirect) (dir : Dirname) (t : ProcTable) : TableOp → Eff TableEnd
  | .start path args newProc h fill => t.startProcess fs dir path args newProc h fill
  | .fork pid newProc h => t.processFork pid newProc h
  | .execv pid path args h self fill => t.execv pid fs dir path args h self fill
  | .exit pid => t.syscallExit pid
  | .chdir pid path ok => t.syscallChDir pid path ok

end DistributedPlatform

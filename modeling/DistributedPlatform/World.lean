import Mathlib.Logic.Function.Basic
import DistributedPlatform.Lib.Run
import DistributedPlatform.Server.Syscall

/-!
# `World` — the server and the processes forked from it

`fork(2)` gives each program a copy of the whole server image, and the copies live on side by side: the
state of the system is the image of the server itself and, for each live host process that runs a program,
the image it works on. `serverSysCall` runs in the image of the caller and finds the caller's entry by its
host process id.

A step is one thing one of the host processes does. The host's part in it is the id a `fork` returns, which
is not that of a live process, and the answers the operation reads.
-/

namespace DistributedPlatform

/-- A live host process: its image, and the index of the entry made for it. The code does not keep the
    index; it is here to be compared with what the search finds. -/
structure Member where
  own : Nat
  image : Server

/-- The server's image, and the live processes by their host process id. -/
structure World where
  server : Server
  live : Int → Option Member

/-- What happens: the server starts a program, a process makes a system call, a process ends without one
    (its program returned, or it was killed). -/
inductive Event
  | start (path : CStr) (args : List CStr) (h : StartHost)
  | call (self : Int) (op : ServerOp) (h : SysHost)
  | ends (self : Int)

/-- The call does not return to the program: `exit` ends the host process. -/
def ServerOp.isExit : ServerOp → Bool
  | .syscallExit _ => true
  | _ => false

namespace World

/-- An id the host may give to a new process. -/
def Free (w : World) (pid : Int) : Prop := 0 < pid ∧ w.live pid = none

/-- The process `pid` as given. -/
def put (w : World) (pid : Int) (m : Option Member) : World :=
  { w with live := Function.update w.live pid m }

/-- The child of a fork, if there is one, joins the live processes. -/
def spawn (w : World) (pid : Int) (own : Nat) : Option Server → World
  | none => w
  | some image => w.put pid (some ⟨own, image⟩)

/-- The caller after its call: gone, or with the image the operation left. -/
def returned (w : World) (self : Int) (m : Member) (op : ServerOp) (image : Server) : World :=
  w.put self (if op.isExit then none else some { m with image := image })

/-- One step. A call whose operation faults has no step: nothing is said about what follows. -/
inductive Step : World → Event → World → Prop
  | start {w : World} {path : CStr} {args : List CStr} {h : StartHost} {r : Spawned} :
      w.server.startProcess path args h = .ok r → (r.child ≠ none → w.Free h.run.fork) →
      Step w (.start path args h)
        ({ w with server := r.srv }.spawn h.run.fork w.server.procs.length r.child)
  | call {w : World} {self : Int} {op : ServerOp} {h : SysHost} {m : Member} {pid : Nat}
      {r : SysResult} :
      w.live self = some m → m.image.findCaller self = some pid → h.self = self →
      m.image.perform pid op h = .ok r → (r.child ≠ none → w.Free h.fork.fork) →
      Step w (.call self op h)
        ((w.returned self m op r.srv).spawn h.fork.fork m.image.procs.length r.child)
  | unknown {w : World} {self : Int} {op : ServerOp} {h : SysHost} {m : Member} :
      -- `serverSysCall` logs a call from a process it cannot find, and returns
      w.live self = some m → m.image.findCaller self = none → Step w (.call self op h) w
  | ends {w : World} {self : Int} {m : Member} :
      w.live self = some m → Step w (.ends self) (w.put self none)

/-- The server before its first program: no process is live, and no entry records a host process id. -/
structure Booted (w : World) : Prop where
  live : ∀ self, w.live self = none
  dummy : w.server.procs ≠ []
  pids : ∀ x ∈ w.server.procs, ∀ p ∈ x, p.posixPID = -1

/-- What `getpid()` returns in the process `self`: the index the search finds, as an `int32_t`. -/
def getpid (w : World) (self : Int) : Option Int :=
  (w.live self).bind fun m => (m.image.findCaller self).map fun pid => toI32 pid

@[simp] theorem put_live_self (w : World) (pid : Int) (m : Option Member) :
    (w.put pid m).live pid = m := by
  simp [put]

theorem put_live_ne {w : World} {pid q : Int} (h : q ≠ pid) (m : Option Member) :
    (w.put pid m).live q = w.live q := by
  simp [put, h]

/-- The definition agrees with the system call: it stores what `getpid` says. -/
theorem getpid_stored {w : World} {self : Int} {m : Member} {pid : Nat} (hm : w.live self = some m)
    (hpid : m.image.findCaller self = some pid) (h : SysHost) :
    ∃ v, w.getpid self = some v ∧
      m.image.perform pid .getPid h = .ok { stored := some (.int v), op := some (.int v), srv := m.image } := by
  refine ⟨toI32 pid, ?_, rfl⟩
  simp [getpid, hm, hpid]

end World

end DistributedPlatform

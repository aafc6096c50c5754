import DistributedPlatform.Correctness.Rounds
import DistributedPlatform.Server.Run
import DistributedPlatform.World

/-!
# `Platform` — the platform as it runs

The server goes through its main loop while the programs it started make system calls, each in an image of its own:
`LoopStep` and `World.Step` side by side. A shell that a round of the loop starts joins the live processes. The system
starts where `boot` leaves it, with the init program live.
-/

namespace DistributedPlatform

open Machine PollLoop

/-- The main loop of the server, and the live processes by their host process id. -/
structure Platform where
  poll : Poll
  live : Int → Option Member

/-- The server starts a program. -/
def Event.isStart : Event → Bool
  | .start _ _ _ => true
  | _ => false

namespace Platform

/-- What happens: `select` and `accept` at the start of a poll, a round of the poll loop, or something a program
    does. -/
inductive Event
  | begin (ready : Finset Int) (accept : Int)
  | round (h : ReadHost)
  | program (e : DistributedPlatform.Event)

/-- The images of the server and of the processes. -/
def world (t : Platform) : World := { server := t.poll.srv, live := t.live }

inductive Step : Platform → Event → Platform → Prop
  | begin {t : Platform} {ready : Finset Int} {accept : Int} {q : Poll} :
      -- the main loop goes on while `stopFlag` is not set
      t.poll.srv.stopFlag = false → LoopStep t.poll (.begin ready accept) q →
      Step t (.begin ready accept) { t with poll := q }
  | round {t : Platform} {h : ReadHost} {q : Poll} {shell : Option Server} :
      LoopStep t.poll (.round h) q → q.shells = t.poll.shells ++ shell.toList →
      (shell ≠ none → t.world.Free h.tty.start.run.fork) →
      Step t (.round h)
        { poll := q, live := (t.world.spawn h.tty.start.run.fork t.poll.srv.procs.length shell).live }
  | program {t : Platform} {e : DistributedPlatform.Event} {w : World} :
      e.isStart = false → World.Step t.world e w → Step t (.program e) { t with live := w.live }

/-- The system at the start of the main loop; `pid` is the host process id of the init program. -/
def ofBoot (b : Boot) (pid : Int) : Platform where
  poll := { srv := b.srv }
  live := (World.spawn { server := b.srv, live := fun _ => none } pid 1 b.init).live

/-- A server came to its main loop on the answers `h`, with some container, init program and port. -/
def BootedWith (h : BootHost) (t : Platform) : Prop :=
  ∃ (fs initPath : CStr) (port : Int) (b : Boot),
    ({} : Server).boot fs initPath port h = .ok b ∧ b.ret = true ∧ 0 < h.init.run.fork ∧
      t = ofBoot b h.init.run.fork

/-- A server came to its main loop. -/
def Booted (t : Platform) : Prop := ∃ h, BootedWith h t

end Platform

end DistributedPlatform

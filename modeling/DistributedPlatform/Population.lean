import DistributedPlatform.Platform

/-!
# `Population` — clients and processes as they are meant to be

What the platform is for, without its tables: clients, each with a terminal once it has asked for one, and a population
of processes, each with a state of its own. A process opens, reads and closes by numbers that mean something to itself
alone, moves about in directories, forks a copy of itself and puts another program in its place; nothing it does is seen
by the others. The host's answers decide what fails, and they and the messages of the clients decide all that happens
(`Step.det`).

`Correctness.Population` shows that the platform is one.
-/

namespace DistributedPlatform

/-- What can be open: a file, by the descriptor the host has it under; the devices that are no terminals; the terminal
    of the client on a host descriptor. -/
inductive Obj
  | file (fd : Int)
  | full
  | null
  | zero
  | tty (fd : Int)
  deriving DecidableEq, Repr

namespace Obj

/-- What is read; `ans` is the host's answer for a file or a client. -/
def read (count : Nat) (ans : ReadAns) : Obj → ReadAns
  | .file _ | .tty _ => ans
  | .null => some []
  | .full | .zero => some (List.replicate count 0)

/-- What a write returns. -/
def write (count : Nat) (ans : Int) : Obj → Int
  | .file _ | .tty _ => ans
  | .null | .zero => count
  | .full => -1

end Obj

/-- What a process has of its own: its process id, and the one its next child gets; the program it runs, its arguments,
    directory and environment; what it has open under which number, and what it can open by the name of a device. -/
structure View where
  pid : Nat
  next : Nat
  path : CStr
  argv : List CStr
  cwd : CStr
  environ : Option (List CStr)
  opened : Nat → Option Obj
  devices : CStr → Option Obj

namespace View

/-- A copy of an environment, if it can be made. -/
def copied (env : Option (List CStr)) (array : Bool) (entry : Nat → Bool) : Option (List CStr) :=
  env.bind fun es => if array ∧ allocsOk es.length entry then some es else none

/-- A program the server starts. -/
def start (fs path : CStr) (args : List CStr) (pid : Nat) (devices : CStr → Option Obj) : View where
  pid := pid
  next := pid + 1
  path := fs ++ path
  argv := lastPart path :: args
  cwd := dirname path
  environ := none
  opened := fun _ => none
  devices := devices

/-- The child of a fork has nothing open. -/
def forked (v : View) (h : ForkCopyHost) : View :=
  { v with
    pid := v.next, next := v.next + 1
    environ := copied v.environ h.environ h.environEntry, opened := fun _ => none }

/-- Another program in the same surroundings. -/
def execed (v : View) (fs path : CStr) (argv : List CStr) (h : ExecHost) : View :=
  { v with
    path := fs ++ path, argv := argv
    cwd := if h.cwd then v.cwd else dirname path
    environ := copied v.environ h.environ h.environEntry
    opened := fun _ => none }

/-- What an open of a path gets. -/
def opens (v : View) (path : CStr) (h : OpenHost) : Option Obj :=
  if (bytes "/dev/").isPrefixOf path then if h.entry then v.devices (path.drop 5) else none
  else if h.localPath ∧ h.open_ ≠ -1 ∧ h.entry then some (.file h.open_) else none

/-- The host refuses to close a file. -/
def Refuses (h : SysHost) (obj : Obj) : Prop := h.close = -1 ∧ ∃ fd, obj = .file fd

/-- **A call**, with what is stored for the program and the state it leaves. -/
inductive Call (fs : CStr) (h : SysHost) (v : View) : ServerOp → Option RetVal → View → Prop
  | getPid : Call fs h v .getPid (some (.int (toI32 v.pid))) v
  | realloc {ptr : Ptr} {size : Nat} : Call fs h v (.realloc ptr size) (some (.ptr h.realloc)) v
  | getCwd {buf : Ptr} {size : Nat} :
      Call fs h v (.getCwd buf size) (if buf = .null then none else some (.int (toU32 (v.cwd.length + 1)))) v
  | chdir {path : CStr} : h.setCwd = true → Call fs h v (.setCwd path) (some (.int 0)) { v with cwd := path }
  | notChdir {path : CStr} : h.setCwd = false → Call fs h v (.setCwd path) (some (.int (-1))) v
  | read {n : Nat} {buf : Ptr} {count : Nat} :
      Call fs h v (.fdRead n buf count)
        (some (.int (toI32 (ReadAns.nbytes ((v.opened n).bind (·.read count h.read)))))) v
  | write {n : Nat} {buf : Ptr} {count : Nat} :
      Call fs h v (.fdWrite n buf count) (some (.int (toI32 ((v.opened n).elim (-1) (·.write count h.write))))) v
  | open {path : CStr} {flags : Int} {mode n : Nat} {obj : Obj} :
      v.opens path h.open_ = some obj → v.opened n = none → (∀ k < n, v.opened k ≠ none) →
      Call fs h v (.fdOpenFdFromPath path flags mode) (some (.int (toI32 n)))
        { v with opened := Function.update v.opened n (some obj) }
  | notOpen {path : CStr} {flags : Int} {mode : Nat} : v.opens path h.open_ = none →
      Call fs h v (.fdOpenFdFromPath path flags mode) (some (.int (-1))) v
  | close {n : Nat} {obj : Obj} : v.opened n = some obj → ¬ Refuses h obj →
      Call fs h v (.fdClose n) (some (.int 0)) { v with opened := Function.update v.opened n none }
  | notClose {n : Nat} : (∀ obj, v.opened n = some obj → Refuses h obj) →
      Call fs h v (.fdClose n) (some (.int (-1))) v
  | exec {path : CStr} {argc : Nat} {argv : List CStr} : path.head? = some 47 → h.exec.load.succeeds = true →
      Call fs h v (.exec path argc argv) none (v.execed fs path argv h.exec)
  | notExec {path : CStr} {argc : Nat} {argv : List CStr} : ¬ (path.head? = some 47 ∧ h.exec.load.succeeds = true) →
      Call fs h v (.exec path argc argv) none v

/-- What a call does is determined. -/
theorem Call.det {fs : CStr} {h : SysHost} {v v₁ v₂ : View} {op : ServerOp} {st₁ st₂ : Option RetVal}
    (h₁ : v.Call fs h op st₁ v₁) (h₂ : v.Call fs h op st₂ v₂) : st₁ = st₂ ∧ v₁ = v₂ := by
  cases h₁ with
  | getPid => cases h₂; exact ⟨rfl, rfl⟩
  | realloc => cases h₂; exact ⟨rfl, rfl⟩
  | getCwd => cases h₂; exact ⟨rfl, rfl⟩
  | chdir hyes =>
      cases h₂ with
      | chdir _ => exact ⟨rfl, rfl⟩
      | notChdir hno => rw [hyes] at hno; cases hno
  | notChdir hno =>
      cases h₂ with
      | chdir hyes => rw [hyes] at hno; cases hno
      | notChdir _ => exact ⟨rfl, rfl⟩
  | read => cases h₂; exact ⟨rfl, rfl⟩
  | write => cases h₂; exact ⟨rfl, rfl⟩
  | @«open» path flags mode n obj hobj hfree hfirst =>
      cases h₂ with
      | @«open» _ _ _ n' obj' hobj' hfree' hfirst' =>
          rw [hobj] at hobj'
          cases hobj'
          -- both numbers are the first that is free
          have hn : n = n' := by
            rcases Nat.lt_trichotomy n n' with hlt | heq | hgt
            · exact absurd hfree (hfirst' n hlt)
            · exact heq
            · exact absurd hfree' (hfirst n' hgt)
          rw [hn]
          exact ⟨rfl, rfl⟩
      | notOpen hnone => rw [hobj] at hnone; cases hnone
  | notOpen hnone =>
      cases h₂ with
      | «open» hobj _ _ => rw [hobj] at hnone; cases hnone
      | notOpen _ => exact ⟨rfl, rfl⟩
  | close hobj hclosed =>
      cases h₂ with
      | close _ _ => exact ⟨rfl, rfl⟩
      | notClose hrefused => exact absurd (hrefused _ hobj) hclosed
  | notClose hrefused =>
      cases h₂ with
      | close hobj hclosed => exact absurd (hrefused _ hobj) hclosed
      | notClose _ => exact ⟨rfl, rfl⟩
  | exec habs hload =>
      cases h₂ with
      | exec _ _ => exact ⟨rfl, rfl⟩
      | notExec hno => exact absurd ⟨habs, hload⟩ hno
  | notExec hno =>
      cases h₂ with
      | exec habs hload => exact absurd ⟨habs, hload⟩ hno
      | notExec _ => exact ⟨rfl, rfl⟩

end View

/-- The descriptor clients connect to, the clients by the host descriptors they are on and whether each has its
    terminal, and whether one has asked to stop; the devices; the process id of the next program that is started; and
    the live processes by their host process ids. -/
@[ext] structure Population where
  listener : Int
  clients : Int → Option Bool
  stopped : Bool
  devices : CStr → Option Obj
  next : Nat
  live : Int → Option View

namespace Population

/-- What happens, with what is stored for the process that makes a call, and the client a round attends to. -/
structure Label where
  event : Platform.Event
  stored : Option RetVal := none
  client : Option Int := none

/-- What a device may be before the first client. -/
inductive Standard : CStr → Obj → Prop
  | full : Standard (bytes "full") .full
  | null : Standard (bytes "null") .null
  | zero : Standard (bytes "zero") .zero

/-- At the start there is one process, which has just been started, and no client. -/
structure Init (fs : CStr) (m : Population) : Prop where
  clients : m.clients = fun _ => none
  stopped : m.stopped = false
  devices : ∀ name obj, m.devices name = some obj → Standard name obj
  next : m.next = 2
  live : ∃ pid path, 0 < pid ∧ m.live = Function.update (fun _ => none) pid (some (.start fs path [] 1 m.devices))

/-- The first terminal that is not there yet. -/
def Next (m : Population) (i : Nat) : Prop :=
  i < 1024 ∧ m.devices (ttyName i) = none ∧ ∀ k < i, m.devices (ttyName k) ≠ none

/-- A client without a terminal asks for one, and gets it. -/
def Gets (m : Population) (fd : Int) (h : ReadHost) (i : Nat) : Prop :=
  commandOf h.message = .typeTty ∧ m.clients fd = some false ∧ m.Next i ∧ h.tty.add = true

/-- The terminal is a device. -/
def withTty (m : Population) (fd : Int) (i : Nat) : Population :=
  { m with devices := Function.update m.devices (ttyName i) (some (.tty fd)) }

/-- The shell on a new terminal. -/
def shell (fs : CStr) (m : Population) (fd : Int) (i : Nat) : View :=
  .start fs (bytes "/bin/shell") [bytes "/dev/" ++ ttyName i] m.next (m.withTty fd i).devices

inductive Step (fs : CStr) (m : Population) : Label → Population → Prop
  | waits {ready : Finset Int} {accept : Int} : m.stopped = false → ¬ (m.listener ∈ ready ∧ 0 ≤ accept) →
      Step fs m { event := .begin ready accept } m
  | connects {ready : Finset Int} {accept : Int} : m.stopped = false → m.listener ∈ ready ∧ 0 ≤ accept →
      m.clients accept = none →
      Step fs m { event := .begin ready accept }
        { m with clients := Function.update m.clients accept (some false) }
  | passes {h : ReadHost} : Step fs m { event := .round h } m
  | leaves {h : ReadHost} {fd : Int} : m.clients fd ≠ none → h.fails = true →
      Step fs m { event := .round h, client := some fd } { m with clients := Function.update m.clients fd none }
  | stops {h : ReadHost} {fd : Int} : m.clients fd ≠ none → h.fails = false → commandOf h.message = .stop →
      Step fs m { event := .round h, client := some fd } { m with stopped := true }
  | ignored {h : ReadHost} {fd : Int} : m.clients fd ≠ none → h.fails = false → commandOf h.message ≠ .stop →
      (∀ i, ¬ m.Gets fd h i) → Step fs m { event := .round h, client := some fd } m
  | registers {h : ReadHost} {fd : Int} {i : Nat} : h.fails = false → m.Gets fd h i →
      h.tty.start.succeeds 1 = false →
      Step fs m { event := .round h, client := some fd }
        -- a shell that was loaded and cannot run keeps its process id
        { m.withTty fd i with next := if h.tty.start.load.succeeds then m.next + 1 else m.next }
  | starts {h : ReadHost} {fd : Int} {i : Nat} : h.fails = false → m.Gets fd h i → h.tty.start.succeeds 1 = true →
      0 < h.tty.start.run.fork → m.live h.tty.start.run.fork = none →
      Step fs m { event := .round h, client := some fd }
        { m.withTty fd i with
          clients := Function.update m.clients fd (some true)
          next := m.next + 1
          live := Function.update m.live h.tty.start.run.fork (some (m.shell fs fd i)) }
  | call {self : Int} {op : ServerOp} {h : SysHost} {v v' : View} {stored : Option RetVal} :
      m.live self = some v → v.Call fs h op stored v' →
      Step fs m { event := .program (.call self op h), stored } { m with live := Function.update m.live self (some v') }
  | fork {self : Int} {h : SysHost} {v : View} : m.live self = some v →
      h.fork.copy.succeeds v.argv.length = true → 0 < h.fork.fork → m.live h.fork.fork = none →
      Step fs m { event := .program (.call self .processFork h), stored := some (.int (toI32 v.next)) }
        { m with
          live := Function.update (Function.update m.live self (some { v with next := v.next + 1 })) h.fork.fork
            (some (v.forked h.fork.copy)) }
  | notFork {self : Int} {h : SysHost} {v : View} : m.live self = some v →
      h.fork.copy.succeeds v.argv.length = true → h.fork.fork < 0 →
      Step fs m { event := .program (.call self .processFork h), stored := some (.int (-1)) } m
  | exit {self : Int} {status : Nat} {h : SysHost} {v : View} : m.live self = some v →
      Step fs m { event := .program (.call self (.syscallExit status) h) }
        { m with live := Function.update m.live self none }
  | ends {self : Int} {v : View} : m.live self = some v →
      Step fs m { event := .program (.ends self) } { m with live := Function.update m.live self none }

/-! ## Nothing is left open -/

variable {fs : CStr} {m m₁ m₂ : Population} {fd : Int} {h : ReadHost} {i k : Nat}

theorem Gets.unique (h₁ : m.Gets fd h i) (h₂ : m.Gets fd h k) : i = k := by
  obtain ⟨-, -, ⟨-, hfree, hfirst⟩, -⟩ := h₁
  obtain ⟨-, -, ⟨-, hfree', hfirst'⟩, -⟩ := h₂
  rcases Nat.lt_trichotomy i k with hlt | heq | hgt
  · exact absurd hfree (hfirst' i hlt)
  · exact heq
  · exact absurd hfree' (hfirst k hgt)

theorem Gets.not_stop (hgets : m.Gets fd h i) : commandOf h.message ≠ .stop := by
  rw [hgets.1]
  nofun

/-- **What happens is determined**: in a state, what happens and the client attended to decide what is stored and the
    state after. -/
theorem Step.det {e : Platform.Event} {st₁ st₂ : Option RetVal} {c : Option Int}
    (h₁ : Step fs m ⟨e, st₁, c⟩ m₁) (h₂ : Step fs m ⟨e, st₂, c⟩ m₂) : st₁ = st₂ ∧ m₁ = m₂ := by
  cases h₁ with
  | waits _ hno =>
      cases h₂ with
      | waits _ _ => exact ⟨rfl, rfl⟩
      | connects _ hyes _ => exact absurd hyes hno
  | connects _ hyes _ =>
      cases h₂ with
      | waits _ hno => exact absurd hyes hno
      | connects _ _ _ => exact ⟨rfl, rfl⟩
  | passes => cases h₂; exact ⟨rfl, rfl⟩
  | leaves _ hf =>
      cases h₂ with
      | leaves _ _ => exact ⟨rfl, rfl⟩
      | stops _ hf' _ | ignored _ hf' _ _ | registers hf' _ _ | starts hf' _ _ _ _ => rw [hf] at hf'; cases hf'
  | stops _ hf hstop =>
      cases h₂ with
      | leaves _ hf' => rw [hf] at hf'; cases hf'
      | stops _ _ _ => exact ⟨rfl, rfl⟩
      | ignored _ _ hno _ => exact absurd hstop hno
      | registers _ hgets _ | starts _ hgets _ _ _ => exact absurd hstop hgets.not_stop
  | ignored _ hf hno hnot =>
      cases h₂ with
      | leaves _ hf' => rw [hf] at hf'; cases hf'
      | stops _ _ hstop => exact absurd hstop hno
      | ignored _ _ _ _ => exact ⟨rfl, rfl⟩
      | registers _ hgets _ | starts _ hgets _ _ _ => exact absurd hgets (hnot _)
  | registers hf hgets hfails =>
      cases h₂ with
      | leaves _ hf' => rw [hf] at hf'; cases hf'
      | stops _ _ hstop => exact absurd hstop hgets.not_stop
      | ignored _ _ _ hnot => exact absurd hgets (hnot _)
      | registers _ hgets' _ => rw [hgets.unique hgets']; exact ⟨rfl, rfl⟩
      | starts _ _ hok _ _ => rw [hfails] at hok; cases hok
  | starts hf hgets hok _ _ =>
      cases h₂ with
      | leaves _ hf' => rw [hf] at hf'; cases hf'
      | stops _ _ hstop => exact absurd hstop hgets.not_stop
      | ignored _ _ _ hnot => exact absurd hgets (hnot _)
      | registers _ _ hfails => rw [hfails] at hok; cases hok
      | starts _ hgets' _ _ _ => rw [hgets.unique hgets']; exact ⟨rfl, rfl⟩
  | call hv hcall =>
      cases h₂ with
      | call hv' hcall' =>
          rw [hv] at hv'
          cases hv'
          obtain ⟨rfl, rfl⟩ := View.Call.det hcall hcall'
          exact ⟨rfl, rfl⟩
      | fork _ _ _ _ | notFork _ _ _ | exit _ => cases hcall
  | fork hv _ hpos _ =>
      cases h₂ with
      | call _ hcall => cases hcall
      | fork hv' _ _ _ =>
          rw [hv] at hv'
          cases hv'
          exact ⟨rfl, rfl⟩
      | notFork _ _ hneg => omega
  | notFork _ _ hneg =>
      cases h₂ with
      | call _ hcall => cases hcall
      | fork _ _ hpos _ => omega
      | notFork _ _ _ => exact ⟨rfl, rfl⟩
  | exit _ =>
      cases h₂ with
      | call _ hcall => cases hcall
      | exit _ => exact ⟨rfl, rfl⟩
  | ends _ => cases h₂; exact ⟨rfl, rfl⟩

end Population

end DistributedPlatform

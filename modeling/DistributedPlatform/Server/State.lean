import Mathlib.Data.Finset.Erase
import Mathlib.Data.Finset.Insert
import DistributedPlatform.Devices
import DistributedPlatform.Process

/-!
# `Server.State` — the server image

`class Server` and `class Connection`: the two descriptor levels (`fdEntries` and each process's `fds`),
the process table, the TCP connections with the set handed to `select`, and the device registry. Sockets
and devices are objects behind pointers, shared by several holders: the image carries those it has created
(`socks`, `devs`), and a pointer is an index into these lists.

The path of the database and the port are used only while the server starts and are left out.
-/

namespace DistributedPlatform

/-! ## Descriptor sets -/

/-- `FD_SETSIZE`. -/
def FD_SETSIZE : Int := 1024

/-- An `fd_set` has a bit for the descriptor. -/
def HasBit (fd : Int) : Prop := 0 ≤ fd ∧ fd < FD_SETSIZE

instance (fd : Int) : Decidable (HasBit fd) := inferInstanceAs (Decidable (_ ∧ _))

/-- `fd_set`: the descriptors whose bit is set. -/
structure FdSet where
  fds : Finset Int
  hasBit : ∀ fd ∈ fds, HasBit fd
  deriving DecidableEq

namespace FdSet

instance : Membership Int FdSet := ⟨fun s fd => fd ∈ s.fds⟩

instance (fd : Int) (s : FdSet) : Decidable (fd ∈ s) := inferInstanceAs (Decidable (fd ∈ s.fds))

/-- `FD_ZERO`. -/
def zero : FdSet := ⟨∅, fun _ h => absurd h (Finset.notMem_empty _)⟩

def insert (s : FdSet) (fd : Int) (h : HasBit fd) : FdSet where
  fds := Insert.insert fd s.fds
  hasBit x hx := by
    rcases Finset.mem_insert.mp hx with rfl | hx
    · exact h
    · exact s.hasBit x hx

def erase (s : FdSet) (fd : Int) : FdSet where
  fds := s.fds.erase fd
  hasBit x hx := s.hasBit x (Finset.mem_of_mem_erase hx)

/-- `FD_SET`. -/
def set (s : FdSet) (fd : Int) : Eff FdSet := if h : HasBit fd then .ok (s.insert fd h) else .error .outOfBounds

/-- `FD_CLR`. -/
def clr (s : FdSet) (fd : Int) : Eff FdSet := if HasBit fd then .ok (s.erase fd) else .error .outOfBounds

@[simp] theorem mem_mk {fds : Finset Int} {h : ∀ fd ∈ fds, HasBit fd} {fd : Int} : fd ∈ FdSet.mk fds h ↔ fd ∈ fds :=
  Iff.rfl

theorem mem_insert {s : FdSet} {fd : Int} (h : HasBit fd) {x : Int} : x ∈ s.insert fd h ↔ x = fd ∨ x ∈ s :=
  Finset.mem_insert

theorem mem_erase {s : FdSet} {fd x : Int} : x ∈ s.erase fd ↔ x ≠ fd ∧ x ∈ s := Finset.mem_erase

theorem set_of_hasBit (s : FdSet) {fd : Int} (h : HasBit fd) : s.set fd = .ok (s.insert fd h) := dif_pos h

theorem set_error (s : FdSet) {fd : Int} (h : ¬ HasBit fd) : s.set fd = .error .outOfBounds := dif_neg h

theorem clr_of_hasBit (s : FdSet) {fd : Int} (h : HasBit fd) : s.clr fd = .ok (s.erase fd) := if_pos h

end FdSet

/-- `FD_ISSET`, on the set `select` leaves. -/
def fdIsSet (ready : Finset Int) (fd : Int) : Eff Bool :=
  if HasBit fd then .ok (decide (fd ∈ ready)) else .error .outOfBounds

theorem fdIsSet_of_hasBit (ready : Finset Int) {fd : Int} (h : HasBit fd) :
    fdIsSet ready fd = .ok (decide (fd ∈ ready)) := if_pos h

/-! ## The image -/

/-- `FdType` with the member of the union it selects. -/
inductive FdType
  | fdTypeNone
  | fdTypeFd (fd : Int)
  | fdTypeSocket (socket : Nat)
  | fdTypeDevice (device : Nat)
  deriving DecidableEq, Repr

structure FdEntry where
  fd : Int
  type : FdType
  refCount : Nat
  deriving DecidableEq, Repr

inductive ConnectionType
  | typeNone
  | typeTTY
  deriving DecidableEq, Repr

structure Connection where
  sock : Nat
  type : ConnectionType := .typeNone
  deriving DecidableEq, Repr

/-- `class Server`. A `NULL` entry of `fdEntries` is `none`; so is the object of a process that was
    deleted. The process table starts with the dummy that makes 1 the first PID. -/
structure Server where
  fdEntries : List (Option FdEntry) := []
  procs : List (Option Process) := [some {}]
  filesystem : CStr := []
  connections : List Connection := []
  tcpSockFd : Int := -1
  fdSetActive : FdSet := .zero
  stopFlag : Bool := false
  devices : Devices Nat := {}
  socks : List SocketTcp := []
  devs : List Device := []
  deriving DecidableEq

/-- The live process object of that index. -/
def Server.proc (s : Server) (pid : Nat) : Option Process := (s.procs[pid]?).join

/-- The image with the object of process `pid` replaced. -/
def Server.setProc (s : Server) (pid : Nat) (p : Option Process) : Server :=
  { s with procs := s.procs.set pid p }

namespace Server

@[simp] theorem setProc_fdEntries (s : Server) (pid : Nat) (p : Option Process) :
    (s.setProc pid p).fdEntries = s.fdEntries := rfl

@[simp] theorem setProc_length (s : Server) (pid : Nat) (p : Option Process) :
    (s.setProc pid p).procs.length = s.procs.length := by simp [setProc]

theorem lt_of_proc {s : Server} {pid : Nat} {p : Process} (h : s.proc pid = some p) :
    pid < s.procs.length := by
  exact (List.getElem?_eq_some_iff.mp (Option.join_eq_some_iff.mp h)).1

theorem setProc_self {s : Server} {pid : Nat} {p : Process} (h : s.proc pid = some p) :
    s.setProc pid (some p) = s := by
  have hp : s.procs[pid]? = some (some p) := Option.join_eq_some_iff.mp h
  have hset : s.procs.set pid (some p) = s.procs := by
    obtain ⟨hlt, hget⟩ := List.getElem?_eq_some_iff.mp hp
    rw [← hget, List.set_getElem_self]
  simp [setProc, hset]

@[simp] theorem setProc_setProc (s : Server) (pid : Nat) (p q : Option Process) :
    (s.setProc pid p).setProc pid q = s.setProc pid q := by
  simp [setProc]

theorem proc_setProc_self {s : Server} {pid : Nat} (h : pid < s.procs.length) (p : Option Process) :
    (s.setProc pid p).proc pid = p := by
  simp [setProc, proc, h]

theorem proc_setProc_ne {s : Server} {pid q : Nat} (h : q ≠ pid) (p : Option Process) :
    (s.setProc pid p).proc q = s.proc q := by
  simp [setProc, proc, List.getElem?_set_ne (Ne.symm h)]

end Server

end DistributedPlatform

import DistributedPlatform.Correctness.FdMaps
import DistributedPlatform.Correctness.Images
import DistributedPlatform.Correctness.Messages

/-!
# `Correctness.FdBounds` — descriptor numbers outside the table

Read, write and close use the number a program passes as an index into `Process::fds`, whose length depends
on the history of the process: it is empty at the start and after a fork or an exec, and only an open
lengthens it. `fdGet` checks its index; these three calls do not.

* `guarded_iff` — such a call on a number is safe, and refused when the number is not open, if and only if
  the number lies within the table of the caller;
* `guarded_iff_inTable` — the same in every image that can be reached.
-/

namespace DistributedPlatform
namespace FdBounds

open Server Indirect Machine FdTable FdMaps

/-- The system calls that take a descriptor number, with their other arguments. -/
inductive NumberCall
  | read (buf : Ptr) (count : Nat)
  | write (buf : Ptr) (count : Nat)
  | close
  deriving DecidableEq, Repr

namespace NumberCall

/-- The message the library sends for the number `procFd`. -/
def message (c : NumberCall) (procFd : Int) : Message :=
  match c with
  | read buf count => sysRead procFd buf count
  | write buf count => sysWrite procFd buf count
  | close => sysClose procFd

/-- What the message asks for. -/
def op (c : NumberCall) (procFd : Int) : ServerOp :=
  match c with
  | read buf count => .fdRead procFd buf count
  | write buf count => .fdWrite procFd buf count
  | close => .fdClose procFd

/-- The system call for process `pid`. -/
def run (c : NumberCall) (s : Server) (pid : Nat) (procFd : Int) (h : SysHost) : Eff SysResult :=
  s.syscall pid (c.message procFd).id.id (c.message procFd).args h

theorem run_eq (c : NumberCall) (s : Server) (pid : Nat) (procFd : Int) (h : SysHost) :
    c.run s pid procFd h = s.perform pid (c.op procFd) h := by
  unfold run
  rw [Messages.syscall_id]
  cases c <;> rfl

/-- The call from where it has the server descriptor `v` that stands in the slot. -/
def withFd (c : NumberCall) (s : Server) (pid : Nat) (p : Process) (v : Int) (h : SysHost) : Eff SysResult :=
  match c with
  | read _ count => s.fdRead v count h.read >>= fun r =>
      .ok { stored := some (.int (toI32 r.ret.nbytes)), op := some (.int r.ret.nbytes), srv := s
            on := r.on, calls := r.calls }
  | write _ count => s.fdWrite v count h.write >>= fun r =>
      .ok { stored := some (.int (toI32 r.ret)), op := some (.int r.ret), srv := s
            on := r.on, calls := r.calls }
  | close => s.fdClose p v h.close >>= fun r =>
      .ok { stored := some (.int (if r.ret = 1 then 0 else -1))
            op := some (.int (if r.ret = 1 then 0 else -1)), srv := r.commit pid, calls := r.calls }

theorem run_eq_withFd {s : Server} {pid : Nat} {p : Process} (hp : s.proc pid = some p) (c : NumberCall)
    (procFd : Int) (h : SysHost) :
    c.run s pid procFd h = serverFd p procFd >>= fun v => c.withFd s pid p v h := by
  rw [run_eq]
  cases c with
  | read buf count =>
      show s.syscallRead pid procFd count h.read >>= _ = _
      unfold syscallRead
      rw [hp]
      exact bind_assoc _ _ _
  | write buf count =>
      show s.syscallWrite pid procFd count h.write >>= _ = _
      unfold syscallWrite
      rw [hp]
      exact bind_assoc _ _ _
  | close =>
      show s.syscallClose pid procFd h.close >>= _ = _
      unfold syscallClose
      rw [hp]
      exact bind_assoc _ _ _

end NumberCall

/-- The number is open in the process: it has a slot, and the slot is in use. -/
def IsOpen (p : Process) (procFd : Int) : Prop :=
  0 ≤ procFd ∧ ∃ v, p.fds[procFd.toNat]? = some v ∧ v ≠ -1

/-- The call returns whatever the host answers, and on a number that is not open it returns `-1` and changes
    nothing, neither in the image nor at the host. -/
structure Guarded (s : Server) (pid : Nat) (p : Process) (procFd : Int) (c : NumberCall) : Prop where
  returns : ∀ h, ∃ r, c.run s pid procFd h = .ok r
  refused : ¬ IsOpen p procFd → ∀ h r, c.run s pid procFd h = .ok r →
    r.stored = some (.int (-1)) ∧ r.srv = s ∧ r.child = none ∧ r.calls = []

/-- The number has a slot in the table of the process. -/
def InTable (p : Process) (procFd : Int) : Prop := 0 ≤ procFd ∧ procFd < p.fds.length

instance (p : Process) (procFd : Int) : Decidable (InTable p procFd) :=
  inferInstanceAs (Decidable (_ ∧ _))

variable {s : Server} {pid : Nat} {p : Process} {procFd : Int}

/-! ## Outside the table -/

/-- A number outside the table is used as an index all the same. -/
theorem serverFd_outOfBounds (h : ¬ InTable p procFd) : serverFd p procFd = .error .outOfBounds := by
  unfold serverFd
  by_cases hneg : procFd < 0
  · rw [if_pos hneg]
  · rw [if_neg hneg]
    have hlen : p.fds.length ≤ procFd.toNat := by
      by_contra hlt
      exact h ⟨by omega, by omega⟩
    rw [List.getElem?_eq_none hlen]

theorem run_outOfBounds (hp : s.proc pid = some p) (h : ¬ InTable p procFd) (c : NumberCall)
    (host : SysHost) : c.run s pid procFd host = .error .outOfBounds := by
  rw [NumberCall.run_eq_withFd hp, serverFd_outOfBounds h]
  rfl

/-! ## Within the table -/

/-- A slot not in use holds `-1`, which is the number of no entry. -/
theorem fdGet_of_closed (hin : InTable p procFd) (hclosed : ¬ IsOpen p procFd) {v : Int}
    (hv : serverFd p procFd = .ok v) : s.fdGet v = none := by
  unfold serverFd at hv
  rw [if_neg (by have := hin.1; omega)] at hv
  split at hv
  · cases hv
  · next w hw =>
      cases hv
      have hempty : v = -1 := by
        by_contra hne
        exact hclosed ⟨hin.1, v, hw, hne⟩
      rw [hempty]
      exact fdGet_of_neg s (by omega)

theorem serverFd_inTable (hin : InTable p procFd) :
    ∃ v, serverFd p procFd = .ok v ∧ p.fds[procFd.toNat]? = some v := by
  have hlt : procFd.toNat < p.fds.length := by
    have h0 := hin.1
    have h1 := hin.2
    omega
  refine ⟨p.fds[procFd.toNat], ?_, List.getElem?_eq_getElem hlt⟩
  unfold serverFd
  rw [if_neg (by have := hin.1; omega), List.getElem?_eq_getElem hlt]

/-- With a server descriptor from a slot the call returns. -/
theorem withFd_returns (h : FdInv s) (hp : s.proc pid = some p) {n : Nat} {v : Int}
    (hget : p.fds[n]? = some v) (c : NumberCall) (host : SysHost) :
    ∃ r, c.withFd s pid p v host = .ok r := by
  cases c with
  | read buf count =>
      obtain ⟨r, hr, -⟩ := fdRead_cases h v count host.read
      exact ⟨_, Eff.bind_eq_ok.mpr ⟨r, hr, rfl⟩⟩
  | write buf count =>
      obtain ⟨r, hr, -⟩ := fdWrite_cases h v count host.write
      exact ⟨_, Eff.bind_eq_ok.mpr ⟨r, hr, rfl⟩⟩
  | close =>
      by_cases hempty : v = -1
      · have hnone : s.fdGet v = none := by
          rw [hempty]
          exact fdGet_of_neg s (by omega)
        exact ⟨_, Eff.bind_eq_ok.mpr ⟨_, fdClose_of_none hnone p host.close, rfl⟩⟩
      · have hinv : FdInv (s.setProc pid (some p)) := (setProc_self hp).symm ▸ h
        obtain ⟨r, hr, -⟩ := hinv.close (lt_of_proc hp) hget hempty host.close
        exact ⟨_, Eff.bind_eq_ok.mpr ⟨r, hr, rfl⟩⟩

/-- With one that has no entry it returns `-1`, and nothing else happens. -/
theorem withFd_refused (h : FdInv s) (hp : s.proc pid = some p) {v : Int} (hnone : s.fdGet v = none)
    {c : NumberCall} {host : SysHost} {r : SysResult} (hr : c.withFd s pid p v host = .ok r) :
    r.stored = some (.int (-1)) ∧ r.srv = s ∧ r.child = none ∧ r.calls = [] := by
  cases c with
  | read buf count =>
      obtain ⟨r', hr', ⟨-, rfl⟩ | ⟨e, he, -⟩⟩ := fdRead_cases h v count host.read
      · obtain ⟨r₁, hr₁, hr⟩ := Eff.bind_eq_ok.mp hr
        rw [hr'] at hr₁
        cases hr₁
        cases hr
        exact ⟨rfl, rfl, rfl, rfl⟩
      · rw [hnone] at he
        cases he
  | write buf count =>
      obtain ⟨r', hr', ⟨-, rfl⟩ | ⟨e, he, -⟩⟩ := fdWrite_cases h v count host.write
      · obtain ⟨r₁, hr₁, hr⟩ := Eff.bind_eq_ok.mp hr
        rw [hr'] at hr₁
        cases hr₁
        cases hr
        exact ⟨rfl, rfl, rfl, rfl⟩
      · rw [hnone] at he
        cases he
  | close =>
      obtain ⟨r₁, hr₁, hr⟩ := Eff.bind_eq_ok.mp hr
      rw [fdClose_of_none hnone] at hr₁
      cases hr₁
      cases hr
      exact ⟨rfl, setProc_self hp, rfl, rfl⟩

/-- A number within the table is looked up, and what is found there decides. -/
theorem guarded_inTable (h : FdInv s) (hp : s.proc pid = some p) (hin : InTable p procFd) (c : NumberCall) :
    Guarded s pid p procFd c := by
  obtain ⟨v, hv, hget⟩ := serverFd_inTable hin
  have hrun : ∀ host, c.run s pid procFd host = c.withFd s pid p v host := by
    intro host
    rw [NumberCall.run_eq_withFd hp, hv]
    rfl
  constructor
  · intro host
    rw [hrun]
    exact withFd_returns h hp hget c host
  · intro hclosed host r hr
    rw [hrun] at hr
    exact withFd_refused h hp (fdGet_of_closed hin hclosed hv) hr

/-- **When a call that takes a number is guarded**, in an image that keeps the invariant of its tables. -/
theorem guarded_iff (h : FdInv s) (hp : s.proc pid = some p) (procFd : Int) (c : NumberCall) :
    Guarded s pid p procFd c ↔ InTable p procFd := by
  constructor
  · -- `operator[]` outside the table: the call does not return
    intro hguard
    by_contra hout
    obtain ⟨r, hr⟩ := hguard.returns Messages.quietHost
    rw [run_outOfBounds hp hout] at hr
    cases hr
  · intro hin
    exact guarded_inTable h hp hin c

/-! ## Reachable images -/

/-- What changes an image: an operation on processes and descriptors, or a change of directory. -/
inductive Call
  | op (op : ImageOp) (calls : List HostCall)
  | chdir (pid : Nat) (path : CStr) (alloc : Bool)

inductive CallStep : Server → Call → Server → Prop
  | op {s t : Server} {o : ImageOp} {calls : List HostCall} (h : ImageStep s (o, calls) t) :
      CallStep s (.op o calls) t
  | chdir {s t : Server} {pid : Nat} {path : CStr} {alloc : Bool} {ret : Int}
      (h : s.syscallChDir pid path alloc = .ok (ret, t)) : CallStep s (.chdir pid path alloc) t

/-- Every system call is such a step, or leaves the image as it is. -/
theorem callStep_of_perform {op : ServerOp} {h : SysHost} {r : SysResult} (hr : s.perform pid op h = .ok r)
    {t : Server} (ht : r.srv = t ∨ r.child = some t) : t = s ∨ ∃ c, CallStep s c t := by
  rcases perform_cases hr with ⟨hsrv, hchild⟩ | ⟨path, ret, hr', hchild⟩ | ⟨iop, r', hr', hsrv, hchild⟩
  · rw [hsrv, hchild] at ht
    exact Or.inl (ht.resolve_right nofun).symm
  · rw [hchild] at ht
    cases ht.resolve_right nofun
    exact Or.inr ⟨.chdir pid path h.setCwd, .chdir hr'⟩
  · rw [hsrv, hchild] at ht
    exact Or.inr ⟨.op iop r'.calls, .op ⟨r', hr', rfl, ht⟩⟩

theorem callStep_inv {t : Server} {c : Call} (h : FdInv s) (hst : CallStep s c t) : FdInv t := by
  cases hst with
  | op hst => exact (kept_step h hst).inv
  | chdir hr => exact syscallChDir_inv h hr

/-- **Numbers passed by programs.** In every image reached from one with nothing open, by any opens, closes,
    execs, exits, forks, starts and changes of directory with any answers, for every live process and every
    number: read, write and close stay within the table of the process and refuse a number that is not open,
    if and only if the number lies within the table. -/
theorem guarded_iff_inTable {s₀ : Server} {tr : List (Server × Call × Server)} (h₀ : Unopened s₀)
    (h : Run CallStep s₀ tr s) (hp : s.proc pid = some p) (procFd : Int) :
    (∀ c, Guarded s pid p procFd c) ↔ InTable p procFd := by
  have hinv := h.invariant (fun _ _ _ hI hst => callStep_inv hI hst) h₀.fdInv
  constructor
  · intro hall
    exact (guarded_iff hinv hp procFd .close).mp (hall .close)
  · intro hin c
    exact (guarded_iff hinv hp procFd c).mpr hin

/-- The program opens a device and closes it: its table has one slot, which is not in use. -/
theorem guarded_closed_number :
    ∃ tr s p, Run CallStep booted tr s ∧ s.proc 1 = some p ∧ ¬ IsOpen p 0 ∧
      ((∀ c, Guarded s 1 p 0 c) ↔ InTable p 0) := by
  have h1 : Run CallStep booted _ _ := Run.single
    (.op (o := .open 1 (bytes "/dev/null") 2 0 ⟨true, -1, true, 0⟩) ⟨_, rfl, rfl, Or.inl rfl⟩)
  have h2 := Run.tail h1 (.op (o := .close 1 0 0) ⟨_, rfl, rfl, Or.inl rfl⟩)
  refine ⟨_, _, _, h2, rfl, ?_, guarded_iff_inTable booted_unopened h2 rfl 0⟩
  rintro ⟨-, v, hv, hne⟩
  cases hv
  exact hne rfl

/-- A program that has opened nothing reads its standard input, descriptor 0. -/
theorem number_not_guarded :
    ¬ ∀ tr s, Run CallStep booted tr s → ∀ pid p, s.proc pid = some p →
      ∀ procFd, FitsI32 procFd → ∀ c, Guarded s pid p procFd c := by
  intro hall
  have hguard := hall [] booted .refl 1 _ rfl 0 (by decide) (.read (.mem 0) 1)
  exact absurd ((guarded_iff booted_unopened.fdInv rfl 0 _).mp hguard) (by decide)

end FdBounds
end DistributedPlatform

import DistributedPlatform.Correctness.FdTable

/-!
# `Correctness.ForkCopy` — what a child has of its parent

The host's fork duplicates the image, and `forkCopy` makes the child's process entry field by field. The
strings are carried over; the descriptors are not, and whether the environment could be copied is not looked
at.

* `child_of_fork` — the entry of the child;
* `inherits_iff` — the child sees all that its parent sees if and only if the parent has no descriptor open
  and its environment could be copied.
-/

namespace DistributedPlatform
namespace ForkCopy

open Server

/-- A descriptor number is open. -/
def IsOpen (p : Process) (n : Nat) : Prop := ∃ v, p.fds[n]? = some v ∧ v ≠ -1

/-- The process `cpid` of the image `cs`, with object `child`, sees what process `pid` of the image `s` sees:
    the same strings, and on each number open there the same object, so that reading and writing it is the
    same. -/
structure Inherits (s : Server) (pid : Nat) (parent : Process) (cs : Server) (cpid : Nat)
    (child : Process) : Prop where
  args : child.argv.getD [] = parent.argv.getD []
  name : child.name = parent.name
  path : child.path = parent.path
  environ : child.environ = parent.environ
  cwd : child.cwd = parent.cwd
  object : ∀ (n : Nat) (v : Int), parent.fds[n]? = some v → v ≠ -1 →
    ∃ w, child.fds[n]? = some w ∧ w ≠ -1 ∧ (cs.fdGet w).map (·.type) = (s.fdGet v).map (·.type)
  read : ∀ n : Nat, IsOpen parent n → ∀ count ans,
    cs.syscallRead cpid n count ans = s.syscallRead pid n count ans
  write : ∀ n : Nat, IsOpen parent n → ∀ count ans,
    cs.syscallWrite cpid n count ans = s.syscallWrite pid n count ans

variable {s cs : Server} {pid : Nat} {parent : Process} {h : ForkHost} {r : Spawned}

/-- **The entry of a child**: it stands at the end of the table of its image and is the copy of the parent,
    with the host process id of the child. -/
theorem child_of_fork (hp : s.proc pid = some parent) (hr : s.processFork pid h = .ok r)
    (hc : r.child = some cs) :
    ∃ c, parent.forkCopy h.copy = .ok (some c) ∧
      cs.proc s.procs.length = some { c with posixPID := h.fork } := by
  unfold processFork at hr
  rw [hp] at hr
  obtain ⟨copy, hcopy, hr⟩ := Eff.bind_eq_ok.mp hr
  cases copy with
  | none =>
      cases hr
      cases hc
  | some c =>
      refine ⟨c, hcopy, ?_⟩
      dsimp only at hr
      split at hr
      · cases hr
        cases hc
      · cases hr
        cases hc
        exact proc_setProc_self (by simp) _

/-- A child has no descriptor, so one that inherits has a parent without any. -/
theorem not_inherits_open {c : Process} (hfds : c.fds = []) {cpid : Nat}
    (hin : Inherits s pid parent cs cpid c) (n : Nat) : ¬ IsOpen parent n := by
  rintro ⟨v, hv, hne⟩
  obtain ⟨w, hw, -⟩ := hin.object n v hv hne
  rw [hfds] at hw
  cases hw

/-- **When a child inherits.** After a successful fork of any process with any answers, the child has the
    arguments, name, path, environment and working directory of the parent and its open descriptors, if and
    only if the parent has no descriptor open and its environment, where it has one, could be copied. -/
theorem inherits_iff (hp : s.proc pid = some parent) (hr : s.processFork pid h = .ok r)
    (hc : r.child = some cs) :
    ∃ child, cs.proc s.procs.length = some child ∧
      (Inherits s pid parent cs s.procs.length child ↔
        (∀ n, ¬ IsOpen parent n) ∧
          Process.EnvironCopied parent.environ h.copy.environ h.copy.environEntry) := by
  obtain ⟨c, hcopy, hchild⟩ := child_of_fork hp hr hc
  refine ⟨_, hchild, ?_⟩
  have hfds := (Process.forkCopy_some hcopy).1
  obtain ⟨name, path, cwd, hname, hpath, hcwd, hexact⟩ := Process.forkCopy_exact hcopy
  have henv : c.environ = parent.environ ↔
      Process.EnvironCopied parent.environ h.copy.environ h.copy.environEntry := by
    rw [hexact]
    exact Process.setEnviron_environ_iff _ _ _ _
  obtain ⟨e, he⟩ := Process.setEnviron_eq
    ({ argv := some (parent.argv.getD []), name := some name, path := some path, cwd := some cwd,
       dlHandle := some path, state := parent.state } : Process) parent.environ h.copy.environ
    h.copy.environEntry
  rw [he] at hexact
  constructor
  · intro hin
    exact ⟨not_inherits_open (c := { c with posixPID := h.fork }) hfds hin, henv.mp hin.environ⟩
  · rintro ⟨hnone, hcopied⟩
    refine ⟨?_, ?_, ?_, henv.mpr hcopied, ?_, ?_, ?_, ?_⟩
    · show c.argv.getD [] = parent.argv.getD []
      rw [hexact]
      rfl
    · show c.name = parent.name
      rw [hexact, hname]
    · show c.path = parent.path
      rw [hexact, hpath]
    · show c.cwd = parent.cwd
      rw [hexact, hcwd]
    -- with no descriptor open, nothing is asked of the numbers
    · intro n v hv hne
      exact absurd ⟨v, hv, hne⟩ (hnone n)
    · intro n hopen
      exact absurd hopen (hnone n)
    · intro n hopen
      exact absurd hopen (hnone n)

/-- A shell, running, with these descriptors. -/
def shell (fds : List Int) : Process :=
  { (Process.ofFile (bytes "/srv/bin/shell") (bytes "/bin") (bytes "shell")).started [bytes "shell"] 100 with
    fds := fds }

/-- A host on which nothing fails. -/
def forkHost : ForkHost := ⟨⟨true, fun _ => true, true, true, true, true, true, true, fun _ => true⟩, 101⟩

/-- A shell without descriptors forks. -/
theorem inherits_iff_shell :
    ∃ r cs, ({ procs := [some {}, some (shell [])] } : Server).processFork 1 forkHost = .ok r ∧
      r.child = some cs ∧ ∃ child, cs.proc 2 = some child ∧
        (Inherits { procs := [some {}, some (shell [])] } 1 (shell []) cs 2 child ↔
          (∀ n, ¬ IsOpen (shell []) n) ∧
            Process.EnvironCopied (shell []).environ forkHost.copy.environ forkHost.copy.environEntry) :=
  ⟨_, _, rfl, rfl, inherits_iff (s := { procs := [some {}, some (shell [])] }) rfl rfl rfl⟩

/-- A shell with a file open on descriptor 0. -/
def shellWithFile : Server where
  procs := [some {}, some (shell [0])]
  fdEntries := [some { fd := 0, type := .fdTypeFd 7, refCount := 1 }]

/-- It forks, and descriptor 0 is not open in the child. -/
theorem descriptor_not_inherited :
    ¬ ∀ (s : Server) (pid : Nat) (parent : Process) (h : ForkHost) (r : Spawned) (cs : Server),
      s.proc pid = some parent → parent.state = .running → s.processFork pid h = .ok r →
      r.child = some cs → ∃ child, cs.proc s.procs.length = some child ∧
        Inherits s pid parent cs s.procs.length child := by
  intro hall
  obtain ⟨child, hchild, hin⟩ := hall shellWithFile 1 (shell [0]) forkHost _ _ rfl rfl rfl rfl
  cases hchild
  exact not_inherits_open rfl hin 0 ⟨0, rfl, by decide⟩

end ForkCopy
end DistributedPlatform

import DistributedPlatform.Server.Fd

/-!
# `Server.Processes` — the process table

`Server::processAdd`, `processFree`, `processRun`, `processFork`, the exec and exit system calls, and the
search of `serverSysCall` for the calling process. `fork(2)` duplicates the image: an operation that forks
returns the image of the child beside its own.
-/

namespace DistributedPlatform

/-- Result of an operation on processes; `child` is the image of the host process it started, if any. -/
structure Spawned where
  ret : Int
  srv : Server
  child : Option Server := none
  calls : List HostCall := []

/-- Answers to the calls of `processFork`. -/
structure ForkHost where
  copy : ForkCopyHost
  fork : Int

/-- Answers to the calls made to start a program: loading it and running it. -/
structure StartHost where
  load : LoadHost
  run : RunHost

/-- No call made to start a program with `n` arguments fails. -/
def StartHost.succeeds (h : StartHost) (n : Nat) : Bool := h.load.succeeds && h.run.succeeds (n + 1)

/-- Answers to the calls of the exec system call; `close` answers for the descriptor in each slot. -/
structure ExecHost where
  load : LoadHost
  environ : Bool
  environEntry : Nat → Bool
  cwd : Bool
  close : Nat → Int

namespace Server

/-- `processAdd`: only a loaded process that is not running is added. -/
def processAdd (s : Server) (proc : Process) : Int × Server :=
  if proc.state ≠ .loaded then (-1, s)
  else (s.procs.length, { s with procs := s.procs ++ [some proc] })

/-- The loop of `processFree` from slot `procFd` on, with `left` slots to go. -/
def freeFds (close : Nat → Int) : (left procFd : Nat) → Server → Process → Eff FdResult
  | 0, _, s, proc => .ok { ret := 0, srv := s, proc := proc }
  | left + 1, procFd, s, proc =>
      match proc.fds[procFd]? with
      | none => .error .outOfBounds
      | some serverFd =>
          -- `-1` stands in a slot that is not in use
          if serverFd = -1 then freeFds close left (procFd + 1) s proc
          else
            match s.fdClose proc serverFd (close procFd) with
            | .error e => .error e
            | .ok r =>
                match freeFds close left (procFd + 1) r.srv r.proc with
                | .error e => .error e
                | .ok r' => .ok { r' with calls := r.calls ++ r'.calls }

/-- `processFree`: a refused close is only logged; then the object is deleted. What is returned is the
    server; the caller's table still holds the pointer. -/
def processFree (s : Server) (proc : Process) (close : Nat → Int) : Eff FdResult :=
  freeFds close proc.fds.length 0 s proc

/-- `processRun`: in the child image the process object is the running one. -/
def processRun (s : Server) (pid : Int) (doFork : Bool) (args : List CStr) (h : RunHost)
    (self : Int) : Eff Spawned :=
  if ¬ (1 ≤ pid ∧ pid < s.procs.length) then .error .assertFailed
  else
    match s.proc pid.toNat with
    | none => .error .dangling
    | some proc => do
        let r ← proc.vrun doFork args h self
        .ok { ret := if r.ret then 1 else 0, srv := s,
              child := r.image.map fun p => s.setProc pid.toNat (some p) }

/-- What `run` does for the init program and `tcpRead` for a shell: load a new process, add it, run it in
    a new host process. `ret` is 1 when all of it succeeded. -/
def startProcess (s : Server) (path : CStr) (args : List CStr) (h : StartHost) : Eff Spawned := do
  let (loaded, proc) ← ({} : Process).loadFileFS s.filesystem path h.load
  if ¬ loaded then .ok { ret := 0, srv := s }
  else
    let (pid, s) := s.processAdd proc
    if pid = -1 then .ok { ret := 0, srv := s }
    -- with `doFork` the new process enters the id that fork gives it, and `self` is not read
    else s.processRun pid true args h.run (-1)

/-- `processFork`: the value returned is the one the parent sees; the child, where `fork(2)` returned 0,
    enters its own host process id in its copy of the new object and returns 0. -/
def processFork (s : Server) (parentPID : Nat) (h : ForkHost) : Eff Spawned :=
  match s.proc parentPID with
  | none => .error .dangling
  | some parent => do
      match ← parent.forkCopy h.copy with
      | none => .ok { ret := -1, srv := s }
      | some child =>
          let childPID := s.procs.length
          let s' := { s with procs := s.procs ++ [some child] }
          -- a failed `fork` takes the new object off the table again
          if h.fork < 0 then .ok { ret := -1, srv := { s' with procs := s'.procs.dropLast } }
          else .ok { ret := childPID, srv := s'
                     child := some (s'.setProc childPID (some { child with posixPID := h.fork })) }

/-- The exec case of `syscall`: a program that does not load changes nothing; otherwise the old process is
    freed and the new object, running in the calling host process `self`, takes its place. -/
def syscallExec (s : Server) (pid : Nat) (path : CStr) (argv : List CStr) (h : ExecHost)
    (self : Int) : Eff Spawned :=
  match s.proc pid with
  | none => .error .dangling
  | some curr => do
      let (loaded, newProc) ← ({} : Process).loadFileFS s.filesystem path h.load
      if ¬ loaded then .ok { ret := -1, srv := s }
      else
        -- whether the environment and the directory could be copied is not looked at
        let (_, newProc) := newProc.setEnviron curr.environ h.environ h.environEntry
        match curr.cwd with
        | none => .error .nullDeref
        | some cwd => do
            let (_, newProc) := newProc.setCwd cwd h.cwd
            let r ← s.processFree curr h.close
            let s := r.srv.setProc pid (some newProc)
            match (newProc.arun false argv 0 self).image with
            | none => .ok { ret := 0, srv := s, calls := r.calls }
            | some running => .ok { ret := 0, srv := s.setProc pid (some running), calls := r.calls }

/-- `syscallExit`: the process is freed; its object is gone although the table keeps the pointer. -/
def syscallExit (s : Server) (pid : Nat) (close : Nat → Int) : Eff Spawned :=
  match s.proc pid with
  | none => .error .dangling
  | some curr => do
      let r ← s.processFree curr close
      .ok { ret := 0, srv := r.srv.setProc pid none, calls := r.calls }

/-- The search of `serverSysCall`: the first process whose host process id is the caller's. -/
def findCaller (s : Server) (posixPID : Int) : Option Nat :=
  s.procs.findIdx? fun p => p.any fun p => p.posixPID == posixPID

/-! ## What the operations can do -/

theorem processAdd_of_loaded (s : Server) (proc : Process) (h : proc.state = .loaded) :
    s.processAdd proc = ((s.procs.length : Int), { s with procs := s.procs ++ [some proc] }) := by
  simp [processAdd, h]

/-- `vrun` on a loaded object with a name: an allocation or `fork()` fails, or the program runs. -/
theorem vrun_ofFile (localPath cwd name : CStr) (args : List CStr) (h : RunHost) (self : Int) :
    (Process.ofFile localPath cwd name).vrun true args h self =
      .ok (if h.succeeds (args.length + 1) then
        ⟨true, some ((Process.ofFile localPath cwd name).started (name :: args) h.fork)⟩
      else ⟨false, none⟩) := by
  unfold Process.vrun RunHost.succeeds
  by_cases ha : h.argv = true
  · by_cases hs : allocsOk (args.length + 1) h.arg = true
    · by_cases hf : h.fork < 0
      · have hf' : ¬ 0 ≤ h.fork := by omega
        simp [ha, hs, hf, hf', Process.ofFile, Process.arun]
      · have hf' : 0 ≤ h.fork := by omega
        simp [ha, hs, hf, hf', Process.ofFile, Process.arun]
    · simp [ha, hs, Process.ofFile]
  · simp [ha]

/-- The exits of `startProcess`: not loaded, loaded and added but not run, running. In the image of the
    new host process the object added is the running one. -/
theorem startProcess_cases {s : Server} (hs : s.procs ≠ []) (path : CStr) (args : List CStr)
    (h : StartHost) :
    (¬ (path.head? = some 47 ∧ h.load.succeeds = true) ∧
      s.startProcess path args h = .ok { ret := 0, srv := s }) ∨
    ((path.head? = some 47 ∧ h.load.succeeds = true) ∧
      let p := Process.ofFile (s.filesystem ++ path) (dirname path) (lastPart path)
        let s' := { s with procs := s.procs ++ [some p] }
        s.startProcess path args h =
          .ok (if h.run.succeeds (args.length + 1) then
            { ret := 1, srv := s'
              child := some (s'.setProc s.procs.length
                (some (p.started (lastPart path :: args) h.run.fork))) }
          else { ret := 0, srv := s' })) := by
  rcases Process.loadFileFS_new s.filesystem path h.load with ⟨hno, hl⟩ | ⟨hyes, hl⟩
  · exact Or.inl ⟨hno, by simp [startProcess, hl, bind, Except.bind]⟩
  · refine Or.inr ⟨hyes, ?_⟩
    have hpos : 0 < s.procs.length := List.length_pos_iff.mpr hs
    have hadd := s.processAdd_of_loaded (Process.ofFile (s.filesystem ++ path) (dirname path) (lastPart path)) rfl
    have hne : ((s.procs.length : Int) = -1) = False := by simp
    have hpid : (1 : Int) ≤ s.procs.length ∧ (s.procs.length : Int) < s.procs.length + 1 := by omega
    have hv := vrun_ofFile (s.filesystem ++ path) (dirname path) (lastPart path) args h.run (-1)
    by_cases hrun : h.run.succeeds (args.length + 1) = true
    · simp only [hrun, if_true] at hv ⊢
      simp [startProcess, hl, hadd, hne, processRun, hpid, Server.proc, hv, bind, Except.bind]
    · simp only [hrun, Bool.false_eq_true, if_false] at hv ⊢
      simp [startProcess, hl, hadd, hne, processRun, hpid, Server.proc, hv, bind, Except.bind]

/-- Without the dummy a new process would get PID 0, which `processRun` refuses. -/
theorem startProcess_nil {s : Server} (hs : s.procs = []) {path : CStr} {args : List CStr} {h : StartHost}
    {r : Spawned} (hr : s.startProcess path args h = .ok r) : r = { ret := 0, srv := s } := by
  rcases Process.loadFileFS_new s.filesystem path h.load with ⟨-, hl⟩ | ⟨-, hl⟩
  · simp only [startProcess, hl, bind, Except.bind] at hr
    cases hr
    rfl
  · have hadd := s.processAdd_of_loaded (Process.ofFile (s.filesystem ++ path) (dirname path) (lastPart path)) rfl
    simp [startProcess, hl, hadd, hs, processRun, bind, Except.bind] at hr

/-- All that starting a program does to the server is to lengthen the process table, in its own image and in
    that of the program; it succeeds exactly when the path is absolute and no call fails. -/
theorem startProcess_grows {s : Server} (hs : s.procs ≠ []) (path : CStr) (args : List CStr)
    (h : StartHost) :
    ∃ procs, let s' := { s with procs := s.procs ++ procs }
      (¬ (path.head? = some 47 ∧ h.succeeds args.length = true) ∧
        s.startProcess path args h = .ok { ret := 0, srv := s' }) ∨
      ((path.head? = some 47 ∧ h.succeeds args.length = true) ∧
        ∃ procs', s.startProcess path args h =
          .ok { ret := 1, srv := s', child := some { s with procs := procs' } }) := by
  rcases startProcess_cases hs path args h with ⟨hno, hr⟩ | ⟨⟨habs, hload⟩, hr⟩
  · refine ⟨[], Or.inl ⟨?_, by simpa using hr⟩⟩
    rintro ⟨habs, hok⟩
    simp only [StartHost.succeeds, Bool.and_eq_true] at hok
    exact hno ⟨habs, hok.1⟩
  · by_cases hrun : h.run.succeeds (args.length + 1) = true
    · simp only [hrun, if_true] at hr
      exact ⟨_, Or.inr ⟨⟨habs, by simp [StartHost.succeeds, hload, hrun]⟩, _, hr⟩⟩
    · simp only [hrun, Bool.false_eq_true, if_false] at hr
      exact ⟨_, Or.inl ⟨fun hok => hrun (by simpa [StartHost.succeeds, hload] using hok.2), hr⟩⟩

/-- A fork of process `pid` makes a child: its object can be copied and the host forks. -/
def Forks (s : Server) (pid : Nat) (h : ForkHost) : Prop :=
  0 ≤ h.fork ∧ ∃ parent child, s.proc pid = some parent ∧ parent.forkCopy h.copy = .ok (some child)

/-- The exits of `processFork`: no child, and the table as before; or the copy stands at the end of the
    table of both images, with its host process id in that of the child only. -/
theorem processFork_cases {s : Server} {pid : Nat} {h : ForkHost} {r : Spawned}
    (hr : s.processFork pid h = .ok r) :
    (¬ s.Forks pid h ∧ r = { ret := -1, srv := s }) ∨
    ∃ c : Process, s.Forks pid h ∧ c.fds = [] ∧ c.posixPID = -1 ∧
      let s' := { s with procs := s.procs ++ [some c] }
      r = { ret := s.procs.length, srv := s'
            child := some (s'.setProc s.procs.length (some { c with posixPID := h.fork })) } := by
  unfold processFork at hr
  unfold Forks
  cases hp : s.proc pid with
  | none => rw [hp] at hr; cases hr
  | some parent =>
      rw [hp] at hr
      obtain ⟨copy, hcopy, hr⟩ := Eff.bind_eq_ok.mp hr
      cases copy with
      | none =>
          cases hr
          refine Or.inl ⟨?_, rfl⟩
          rintro ⟨-, parent', child, hp', hc⟩
          cases hp'
          rw [hcopy] at hc
          cases hc
      | some c =>
          obtain ⟨hfds, hpid, -⟩ := Process.forkCopy_some hcopy
          by_cases hf : h.fork < 0
          · simp only [if_pos hf] at hr
            cases hr
            exact Or.inl ⟨fun hforks => by have := hforks.1; omega, by simp⟩
          · simp only [if_neg hf] at hr
            cases hr
            exact Or.inr ⟨c, ⟨by omega, parent, c, rfl, hcopy⟩, hfds, hpid, rfl⟩

/-- Freeing a process: no close touches the process table, so the loop does not. -/
theorem freeFds_procs {close : Nat → Int} {left procFd : Nat} {s : Server} {proc : Process}
    {r : FdResult} (hr : freeFds close left procFd s proc = .ok r) : r.srv.procs = s.procs := by
  induction left generalizing procFd s proc r with
  | zero => unfold freeFds at hr; cases hr; rfl
  | succ left ih =>
      unfold freeFds at hr
      split at hr
      · cases hr
      · next serverFd _ =>
          split at hr
          · exact ih hr
          · cases hclose : s.fdClose proc serverFd (close procFd) with
            | error e => rw [hclose] at hr; cases hr
            | ok c =>
                rw [hclose] at hr
                dsimp only at hr
                cases hrest : freeFds close left (procFd + 1) c.srv c.proc with
                | error e => rw [hrest] at hr; cases hr
                | ok r' =>
                    rw [hrest] at hr
                    cases hr
                    exact (ih hrest).trans (fdClose_only hclose).1

theorem processFree_procs {s : Server} {proc : Process} {close : Nat → Int} {r : FdResult}
    (hr : s.processFree proc close = .ok r) : r.srv.procs = s.procs :=
  freeFds_procs hr

/-- The object a successful exec puts in the place of the old one: loaded, with a copy of the environment and
    of the working directory where these could be made, and running in the calling host process. -/
def execed (p : Process) (env : Option (List CStr)) (cwd : CStr) (h : ExecHost) (argv : List CStr)
    (self : Int) : Process :=
  ((p.setEnviron env h.environ h.environEntry).2.setCwd cwd h.cwd).2.started argv self

theorem execed_eq (p : Process) (env : Option (List CStr)) (cwd : CStr) (h : ExecHost) (argv : List CStr)
    (self : Int) :
    execed p env cwd h argv self =
      { p with
        environ := (p.setEnviron env h.environ h.environEntry).2.environ
        cwd := if h.cwd then some cwd else p.cwd
        state := .running, posixPID := self, argv := some argv } := by
  obtain ⟨e, he⟩ := p.setEnviron_eq env h.environ h.environEntry
  unfold execed
  rw [he]
  cases hcwd : h.cwd <;> simp [Process.setCwd, Process.started]

/-- **What exec does**: nothing when the program does not load; otherwise the old process is freed and the
    new object stands in its place. -/
theorem syscallExec_exact {s : Server} {pid : Nat} {path : CStr} {argv : List CStr} {h : ExecHost}
    {self : Int} {r : Spawned} (hr : s.syscallExec pid path argv h self = .ok r) :
    (¬ (path.head? = some 47 ∧ h.load.succeeds = true) ∧ r = { ret := -1, srv := s }) ∨
    ∃ (curr : Process) (cwd : CStr) (r' : FdResult), s.proc pid = some curr ∧
      (path.head? = some 47 ∧ h.load.succeeds = true) ∧ curr.cwd = some cwd ∧
      s.processFree curr h.close = .ok r' ∧
      r = { ret := 0
            srv := r'.srv.setProc pid (some (execed
              (Process.ofFile (s.filesystem ++ path) (dirname path) (lastPart path)) curr.environ cwd h argv self))
            calls := r'.calls } := by
  unfold syscallExec at hr
  cases hp : s.proc pid with
  | none => rw [hp] at hr; cases hr
  | some curr =>
      rw [hp] at hr
      rcases Process.loadFileFS_new s.filesystem path h.load with ⟨hno, hl⟩ | ⟨hyes, hl⟩
      · simp only [hl, bind, Except.bind] at hr
        cases hr; exact Or.inl ⟨hno, rfl⟩
      · simp only [hl, bind, Except.bind] at hr
        cases hcwd : curr.cwd with
        | none => rw [hcwd] at hr; cases hr
        | some cwd =>
            rw [hcwd] at hr
            cases hfree : s.processFree curr h.close with
            | error e => simp [hfree] at hr
            | ok r' =>
                have hrun := Process.arun_ofFile (s.filesystem ++ path) (dirname path) (lastPart path)
                  curr.environ h.environ h.environEntry cwd h.cwd argv self
                simp only [hfree, hrun, setProc_setProc] at hr
                cases hr
                exact Or.inr ⟨curr, cwd, r', rfl, hyes, hcwd, hfree, rfl⟩

/-- The exits of exec, as far as descriptors and host process ids go. -/
theorem syscallExec_cases {s : Server} {pid : Nat} {path : CStr} {argv : List CStr} {h : ExecHost}
    {self : Int} {r : Spawned} (hr : s.syscallExec pid path argv h self = .ok r) :
    r = { ret := -1, srv := s } ∨
    ∃ (curr x : Process) (r' : FdResult), s.proc pid = some curr ∧ s.processFree curr h.close = .ok r' ∧
      x.fds = [] ∧ x.posixPID = self ∧
      r = { ret := 0, srv := r'.srv.setProc pid (some x), calls := r'.calls } := by
  rcases syscallExec_exact hr with ⟨-, rfl⟩ | ⟨curr, cwd, r', hp, -, -, hfree, rfl⟩
  · exact Or.inl rfl
  · refine Or.inr ⟨curr, _, r', hp, hfree, ?_, ?_, rfl⟩
    · rw [execed_eq]; rfl
    · rw [execed_eq]

/-- The exits of exit: the process was freed and its object is gone. -/
theorem syscallExit_cases {s : Server} {pid : Nat} {closeRets : Nat → Int} {r : Spawned}
    (hr : s.syscallExit pid closeRets = .ok r) :
    ∃ (curr : Process) (r' : FdResult), s.proc pid = some curr ∧
      s.processFree curr closeRets = .ok r' ∧
      r = { ret := 0, srv := r'.srv.setProc pid none, calls := r'.calls } := by
  unfold syscallExit at hr
  cases hp : s.proc pid with
  | none => rw [hp] at hr; cases hr
  | some curr =>
      rw [hp] at hr
      obtain ⟨r', hfree, hr⟩ := Eff.bind_eq_ok.mp hr
      cases hr
      exact ⟨curr, r', rfl, hfree, rfl⟩

end Server

end DistributedPlatform

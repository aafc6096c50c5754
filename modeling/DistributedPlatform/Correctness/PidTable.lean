import DistributedPlatform.World

/-!
# `Correctness.PidTable` — the host process ids recorded in the process table

What the search of `serverSysCall` finds depends on the list `pids` of the host process ids in the table and
on nothing else. The descriptor operations leave it alone (`Aside`); a system call either adds one entry at
the end (fork), or enters the caller's id in one entry (exec), or leaves it as it is (`perform_fork`,
`perform_other`).
-/

namespace DistributedPlatform
namespace Pids

open Server

/-! ## The recorded ids -/

/-- The host process ids in the process table. -/
def pids (s : Server) : List (Option Int) := s.procs.map (Option.map Process.posixPID)

theorem findCaller_eq (s : Server) (self : Int) :
    s.findCaller self = (pids s).findIdx? (· == some self) := by
  unfold findCaller pids
  rw [List.findIdx?_map]
  congr 1
  funext p
  cases p with
  | none => rfl
  | some p => simp

theorem findCaller_congr {s t : Server} (h : pids t = pids s) (self : Int) :
    t.findCaller self = s.findCaller self := by
  rw [findCaller_eq, findCaller_eq, h]

/-- A caller is unknown exactly when its id is not recorded. -/
theorem findCaller_eq_none {s : Server} {self : Int} :
    s.findCaller self = none ↔ some self ∉ pids s := by
  rw [findCaller_eq, List.findIdx?_eq_none_iff]
  constructor
  · intro h hmem
    simpa using h _ hmem
  · intro h x hx
    have hne : x ≠ some self := fun he => h (he ▸ hx)
    simpa using hne

theorem findCaller_lt {s : Server} {self : Int} {i : Nat} (h : s.findCaller self = some i) :
    i < s.procs.length := by
  rw [findCaller_eq] at h
  obtain ⟨hlt, -, -⟩ := List.findIdx?_eq_some_iff_getElem.mp h
  simpa [pids] using hlt

/-- A new entry at the end does not hide an entry found before. -/
theorem findCaller_append {s t : Server} {x : Option Int} {self : Int} {i : Nat}
    (ht : pids t = pids s ++ [x]) (h : s.findCaller self = some i) : t.findCaller self = some i := by
  rw [findCaller_eq] at h ⊢
  rw [ht, List.findIdx?_append, h]
  rfl

/-- The process of a new entry is found there, unless its id is recorded before. -/
theorem findCaller_new {s t : Server} {self : Int} (ht : pids t = pids s ++ [some self])
    (h : s.findCaller self = none) : t.findCaller self = some s.procs.length := by
  rw [findCaller_eq] at h ⊢
  rw [ht, List.findIdx?_append, h]
  simp [pids]

/-- Entering the caller's id anew in the entry that was found changes nothing for the search. -/
theorem findCaller_set {s t : Server} {self : Int} {i : Nat} (h : s.findCaller self = some i)
    (ht : pids t = (pids s).set i (some self)) : t.findCaller self = some i := by
  rw [findCaller_eq] at h ⊢
  obtain ⟨hlt, -, hmin⟩ := List.findIdx?_eq_some_iff_getElem.mp h
  rw [ht, List.findIdx?_eq_some_iff_getElem]
  refine ⟨by simpa using hlt, by simp, ?_⟩
  intro j hj
  have hne : i ≠ j := by omega
  have hget := hmin j hj
  simpa [List.getElem_set_ne hne] using hget

theorem pids_append (s : Server) (p : Process) :
    pids { s with procs := s.procs ++ [some p] } = pids s ++ [some p.posixPID] := by
  simp [pids]

/-- The image of a new process: the entry made at the end, as the child leaves it. -/
theorem pids_append_setProc (s : Server) (p q : Process) :
    pids ({ s with procs := s.procs ++ [some p] }.setProc s.procs.length (some q)) =
      pids s ++ [some q.posixPID] := by
  simp [pids, setProc]

theorem pids_setProc (s : Server) (i : Nat) (p : Process) :
    pids (s.setProc i (some p)) = (pids s).set i (some p.posixPID) := by
  simp [pids, setProc, List.map_set]

/-- Replacing an object by one with the same id leaves the ids as they are. -/
theorem pids_setProc_same {s : Server} {i : Nat} {p q : Process} (hp : s.proc i = some p)
    (hq : q.posixPID = p.posixPID) : pids (s.setProc i (some q)) = pids s := by
  have hself := congrArg pids (setProc_self hp)
  rw [pids_setProc] at hself ⊢
  rw [hq, hself]

/-! ## What the descriptor operations leave alone -/

/-- A descriptor operation touches neither the process table nor the id of the process it works for. -/
def Aside (s : Server) (proc : Process) (r : FdResult) : Prop :=
  r.srv.procs = s.procs ∧ r.proc.posixPID = proc.posixPID

theorem aside_of_fdOnly {s : Server} {proc : Process} {r : FdResult} (h : FdOnly s proc r) :
    Aside s proc r :=
  ⟨h.1, h.field Process.posixPID fun _ _ => rfl⟩

theorem Aside.commit_pids {s : Server} {i : Nat} {proc : Process} {r : FdResult}
    (h : Aside s proc r) (hp : s.proc i = some proc) : pids (r.commit i) = pids s := by
  have hsrv : pids r.srv = pids s := congrArg (List.map (Option.map Process.posixPID)) h.1
  have hproc : r.srv.proc i = some proc := by
    unfold Server.proc at hp ⊢
    rw [h.1]; exact hp
  rw [FdResult.commit, pids_setProc_same hproc h.2, hsrv]

/-! ## What a system call does to the recorded ids -/

/-- A fork: without a child nothing changes; with one, both images get the new entry at the end, and the
    caller gets its index. -/
theorem perform_fork {s : Server} {pid : Nat} {h : SysHost} {r : SysResult}
    (hr : s.perform pid .processFork h = .ok r) :
    (¬ s.Forks pid h.fork ∧ r.child = none ∧ r.srv = s) ∨
    (s.Forks pid h.fork ∧ r.stored = some (.int (toI32 s.procs.length)) ∧
      pids r.srv = pids s ++ [some (-1)] ∧
      ∃ child, r.child = some child ∧ pids child = pids s ++ [some h.fork.fork]) := by
  obtain ⟨r', hr', hr⟩ := Eff.bind_eq_ok.mp hr
  rcases processFork_cases hr' with ⟨hno, rfl⟩ | ⟨c, hforks, -, hpid, rfl⟩
  · cases hr
    exact Or.inl ⟨hno, rfl, rfl⟩
  · cases hr
    refine Or.inr ⟨hforks, rfl, ?_, _, rfl, ?_⟩
    · rw [pids_append, hpid]
    · exact pids_append_setProc s c _

/-- Ending the process makes no child. -/
theorem perform_exit {s : Server} {pid : Nat} {op : ServerOp} {h : SysHost} {r : SysResult}
    (hexit : op.isExit = true) (hr : s.perform pid op h = .ok r) : r.child = none := by
  cases op with
  | syscallExit status =>
      obtain ⟨r', -, hr⟩ := Eff.bind_eq_ok.mp hr
      cases hr
      rfl
  | _ => cases hexit

/-- Exec either leaves the ids alone or enters the caller's in the caller's entry. -/
theorem syscallExec_pids {s : Server} {pid : Nat} {path : CStr} {argv : List CStr} {h : ExecHost} {self : Int}
    {r : Spawned} (hr : s.syscallExec pid path argv h self = .ok r) :
    pids r.srv = pids s ∨ pids r.srv = (pids s).set pid (some self) := by
  rcases syscallExec_cases hr with rfl | ⟨curr, x, f, -, hfree, -, hself, rfl⟩
  · exact Or.inl rfl
  · have hsrv : pids f.srv = pids s :=
      congrArg (List.map (Option.map Process.posixPID)) (processFree_procs hfree)
    right
    dsimp only
    rw [pids_setProc, hsrv, hself]

theorem syscallChDir_pids {s : Server} {pid : Nat} {path : CStr} {alloc : Bool} {r : Int × Server}
    (hr : s.syscallChDir pid path alloc = .ok r) : pids r.2 = pids s := by
  obtain ⟨curr, hp, ht⟩ := syscallChDir_only hr
  obtain ⟨d, hd⟩ := curr.setCwd_eq path alloc
  rw [ht]
  exact pids_setProc_same hp (by rw [hd])

theorem syscallOpen_pids {s : Server} {pid : Nat} {path : CStr} {flags : Int} {mode : Nat} {h : OpenHost}
    {r : FdResult} (hr : s.syscallOpen pid path flags mode h = .ok r) : pids (r.commit pid) = pids s := by
  obtain ⟨curr, hp, honly⟩ := syscallOpen_only hr
  exact (aside_of_fdOnly honly).commit_pids hp

theorem syscallClose_pids {s : Server} {pid : Nat} {procFd closeRet : Int} {r : FdResult}
    (hr : s.syscallClose pid procFd closeRet = .ok r) : pids (r.commit pid) = pids s := by
  obtain ⟨curr, hp, honly⟩ := syscallClose_only hr
  exact (aside_of_fdOnly honly).commit_pids hp

/-- **Every other call** makes no child and leaves the ids as they are, or enters the caller's id in the
    caller's entry (exec). -/
theorem perform_other {s : Server} {pid : Nat} {op : ServerOp} {h : SysHost} {r : SysResult}
    (hfork : op ≠ .processFork) (hexit : op.isExit = false) (hr : s.perform pid op h = .ok r) :
    r.child = none ∧ (pids r.srv = pids s ∨ pids r.srv = (pids s).set pid (some h.self)) := by
  cases op with
  | processFork => exact absurd rfl hfork
  | syscallExit status => cases hexit
  | getPid => cases hr; exact ⟨rfl, Or.inl rfl⟩
  | realloc ptr size => cases hr; exact ⟨rfl, Or.inl rfl⟩
  | getCwd buf size =>
      obtain ⟨v, -, hr⟩ := Eff.bind_eq_ok.mp hr
      cases hr
      exact ⟨rfl, Or.inl rfl⟩
  | fdRead procFd buf count =>
      obtain ⟨v, -, hr⟩ := Eff.bind_eq_ok.mp hr
      cases hr
      exact ⟨rfl, Or.inl rfl⟩
  | fdWrite procFd buf count =>
      obtain ⟨v, -, hr⟩ := Eff.bind_eq_ok.mp hr
      cases hr
      exact ⟨rfl, Or.inl rfl⟩
  | exec path argc argv =>
      obtain ⟨r', hr', hr⟩ := Eff.bind_eq_ok.mp hr
      cases hr
      exact ⟨rfl, syscallExec_pids hr'⟩
  | setCwd path =>
      obtain ⟨r', hr', hr⟩ := Eff.bind_eq_ok.mp hr
      cases hr
      exact ⟨rfl, Or.inl (syscallChDir_pids hr')⟩
  | fdOpenFdFromPath path flags mode =>
      obtain ⟨r', hr', hr⟩ := Eff.bind_eq_ok.mp hr
      cases hr
      exact ⟨rfl, Or.inl (syscallOpen_pids hr')⟩
  | fdClose procFd =>
      obtain ⟨r', hr', hr⟩ := Eff.bind_eq_ok.mp hr
      cases hr
      exact ⟨rfl, Or.inl (syscallClose_pids hr')⟩

/-- Starting a program: without a child no id is recorded in either image; with one, its id stands at the
    end of the table of the child. -/
theorem startProcess_pids {s : Server} (hs : s.procs ≠ []) (path : CStr) (args : List CStr)
    (h : StartHost) :
    ∃ r, s.startProcess path args h = .ok r ∧ r.srv.procs ≠ [] ∧
      (pids r.srv = pids s ∨ pids r.srv = pids s ++ [some (-1)]) ∧
      (¬ (path.head? = some 47 ∧ h.succeeds args.length = true) ∧ r.child = none ∨
        (path.head? = some 47 ∧ h.succeeds args.length = true) ∧
          ∃ child, r.child = some child ∧ pids child = pids s ++ [some h.run.fork]) := by
  rcases startProcess_cases hs path args h with ⟨hno, hr⟩ | ⟨⟨habs, hload⟩, hr⟩
  · refine ⟨_, hr, hs, Or.inl rfl, Or.inl ⟨?_, rfl⟩⟩
    rintro ⟨habs, hok⟩
    simp only [StartHost.succeeds, Bool.and_eq_true] at hok
    exact hno ⟨habs, hok.1⟩
  · dsimp only at hr
    by_cases hrun : h.run.succeeds (args.length + 1) = true
    · rw [if_pos hrun] at hr
      refine ⟨_, hr, by simp, Or.inr (pids_append s _), Or.inr ⟨⟨habs, ?_⟩, _, rfl, ?_⟩⟩
      · simp [StartHost.succeeds, hload, hrun]
      · exact pids_append_setProc s _ _
    · rw [if_neg hrun] at hr
      refine ⟨_, hr, by simp, Or.inr (pids_append s _), Or.inl ⟨?_, rfl⟩⟩
      rintro ⟨-, hok⟩
      simp only [StartHost.succeeds, Bool.and_eq_true] at hok
      exact hrun hok.2

end Pids
end DistributedPlatform

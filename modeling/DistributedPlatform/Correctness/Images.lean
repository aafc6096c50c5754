import DistributedPlatform.Correctness.FdTable
import DistributedPlatform.World

/-!
# `Correctness.Images` — what holds in every image

Each live process works on an image of its own, made by a fork and changed by its calls only. A property of
images that starting a program and every system call keep is one of all of them, the server's included
(`World.EveryImage`). Two such properties:

* `AllProcs P` — every process object meets `P`, for a `P` kept by what is done to process objects
  (`Handled`);
* `FdInv` — the descriptor tables are linked.
-/

namespace DistributedPlatform
namespace Server

open FdTable

/-! ## The process objects of an image -/

/-- Every process object of the image meets `P`. -/
def AllProcs (P : Process → Prop) (s : Server) : Prop := ∀ p, some p ∈ s.procs → P p

/-- What the operations do to process objects keeps `P`: opening and closing descriptors, changing directory,
    copying the object for a child, loading and running a program, putting a new program in the place of the
    old one. -/
structure Handled (P : Process → Prop) : Prop where
  fds : ∀ {p : Process} (fds : List Int), P p → P { p with fds := fds }
  chdir : ∀ {p : Process} (path : CStr), P p → P { p with cwd := some path }
  copied : ∀ {p c : Process} {h : ForkCopyHost}, P p → p.forkCopy h = .ok (some c) →
    P c ∧ ∀ posixPID, P { c with posixPID := posixPID }
  loaded : ∀ localPath cwd name, P (Process.ofFile localPath cwd name)
  started : ∀ localPath cwd name argv self, P ((Process.ofFile localPath cwd name).started argv self)
  execed : ∀ {p : Process} (localPath dir name cwd : CStr) (h : ExecHost) (argv : List CStr) (self : Int),
    P p → P (execed (Process.ofFile localPath dir name) p.environ cwd h argv self)

variable {P : Process → Prop} {s : Server} {pid : Nat} {p : Process}

theorem AllProcs.proc (h : AllProcs P s) (hp : s.proc pid = some p) : P p :=
  h p (List.mem_of_getElem? (Option.join_eq_some_iff.mp hp))

theorem AllProcs.congr (h : AllProcs P s) {t : Server} (ht : t.procs = s.procs) : AllProcs P t := by
  unfold AllProcs
  rw [ht]
  exact h

theorem AllProcs.setProc (h : AllProcs P s) (pid : Nat) {x : Option Process} (hx : ∀ p, x = some p → P p) :
    AllProcs P (s.setProc pid x) := by
  intro p hp
  rcases List.mem_or_eq_of_mem_set hp with hp | hp
  · exact h p hp
  · exact hx p hp.symm

theorem AllProcs.append (h : AllProcs P s) {q : Process} (hq : P q) :
    AllProcs P { s with procs := s.procs ++ [some q] } := by
  intro p hp
  rcases List.mem_append.mp hp with hp | hp
  · exact h p hp
  · rw [List.mem_singleton] at hp
    cases hp
    exact hq

/-- The object a descriptor operation hands back. -/
theorem AllProcs.commit (hP : Handled P) (h : AllProcs P s) (hp : s.proc pid = some p) {r : FdResult}
    (hr : FdOnly s p r) : AllProcs P (r.commit pid) := by
  refine (h.congr hr.1).setProc pid ?_
  rintro q ⟨⟩
  have hq := hP.fds r.proc.fds (h.proc hp)
  rw [← hr.2] at hq
  exact hq

/-! ## What each operation keeps -/

/-- A property holds of the image an operation leaves, and of that of the host process it started. -/
def Leaves (I : Server → Prop) (srv : Server) (child : Option Server) : Prop :=
  I srv ∧ ∀ c, child = some c → I c

theorem Leaves.alone {I : Server → Prop} {srv : Server} (h : I srv) : Leaves I srv none :=
  ⟨h, fun _ hc => nomatch hc⟩

theorem startProcess_allProcs (hP : Handled P) (h : AllProcs P s) {path : CStr} {args : List CStr}
    {host : StartHost} {r : Spawned} (hr : s.startProcess path args host = .ok r) :
    Leaves (AllProcs P) r.srv r.child := by
  by_cases hs : s.procs = []
  · rw [startProcess_nil hs hr]
    exact .alone h
  · rcases startProcess_cases hs path args host with ⟨-, hr'⟩ | ⟨-, hr'⟩
    · rw [hr'] at hr
      cases hr
      exact .alone h
    · -- the loaded object stands at the end of both tables, the running one in that of the child
      rw [hr'] at hr
      have happ := h.append (hP.loaded (s.filesystem ++ path) (dirname path) (lastPart path))
      split at hr
      · cases hr
        refine ⟨happ, ?_⟩
        rintro c ⟨⟩
        refine happ.setProc _ ?_
        rintro q ⟨⟩
        exact hP.started _ _ _ _ _
      · cases hr
        exact .alone happ

theorem processFork_allProcs (hP : Handled P) (h : AllProcs P s) {host : ForkHost} {r : Spawned}
    (hr : s.processFork pid host = .ok r) : Leaves (AllProcs P) r.srv r.child := by
  unfold processFork at hr
  cases hp : s.proc pid with
  | none => rw [hp] at hr; cases hr
  | some parent =>
      rw [hp] at hr
      obtain ⟨copy, hcopy, hr⟩ := Eff.bind_eq_ok.mp hr
      cases copy with
      | none => cases hr; exact .alone h
      | some c =>
          obtain ⟨hc, hrunning⟩ := hP.copied (h.proc hp) hcopy
          dsimp only at hr
          split at hr
          · -- the fork failed: the copy was added and is taken off again
            cases hr
            exact .alone (h.congr (by simp))
          · cases hr
            refine ⟨h.append hc, ?_⟩
            rintro c' ⟨⟩
            refine (h.append hc).setProc _ ?_
            rintro q ⟨⟩
            exact hrunning _

/-- An operation on processes or descriptors keeps what holds of the process objects. -/
theorem imageOp_allProcs (hP : Handled P) (h : AllProcs P s) {op : ImageOp} {r : Spawned}
    (hr : op.run s = .ok r) : Leaves (AllProcs P) r.srv r.child := by
  cases op with
  | «open» pid path flags mode host =>
      obtain ⟨r', hr', hr⟩ := Eff.bind_eq_ok.mp hr
      cases hr
      obtain ⟨curr, hp, honly⟩ := syscallOpen_only hr'
      exact .alone (h.commit hP hp honly)
  | close pid procFd closeRet =>
      obtain ⟨r', hr', hr⟩ := Eff.bind_eq_ok.mp hr
      cases hr
      obtain ⟨curr, hp, honly⟩ := syscallClose_only hr'
      exact .alone (h.commit hP hp honly)
  | exec pid path argv host self =>
      rcases syscallExec_exact hr with ⟨-, rfl⟩ | ⟨curr, cwd, r', hp, -, -, hfree, rfl⟩
      · exact .alone h
      · refine .alone ((h.congr (processFree_procs hfree)).setProc pid ?_)
        rintro q ⟨⟩
        exact hP.execed _ _ _ _ _ _ _ (h.proc hp)
  | exit pid closeRets =>
      obtain ⟨curr, r', hp, hfree, rfl⟩ := syscallExit_cases hr
      exact .alone ((h.congr (processFree_procs hfree)).setProc pid (by rintro p ⟨⟩))
  | fork pid host => exact processFork_allProcs hP h hr
  | start path args host => exact startProcess_allProcs hP h hr

theorem syscallChDir_allProcs (hP : Handled P) (h : AllProcs P s) {path : CStr} {alloc : Bool} {ret : Int}
    {t : Server} (hr : s.syscallChDir pid path alloc = .ok (ret, t)) : AllProcs P t := by
  obtain ⟨curr, hp, rfl⟩ := syscallChDir_only hr
  refine h.setProc pid ?_
  rintro p ⟨⟩
  unfold Process.setCwd
  split
  · exact hP.chdir path (h.proc hp)
  · exact h.proc hp

/-- A system call leaves the image alone, changes the caller's directory, or is one of the operations on
    processes and descriptors. -/
theorem perform_cases {op : ServerOp} {h : SysHost} {r : SysResult} (hr : s.perform pid op h = .ok r) :
    (r.srv = s ∧ r.child = none) ∨
    (∃ path ret, s.syscallChDir pid path h.setCwd = .ok (ret, r.srv) ∧ r.child = none) ∨
    ∃ (iop : ImageOp) (r' : Spawned), iop.run s = .ok r' ∧ r.srv = r'.srv ∧ r.child = r'.child := by
  cases op with
  | getPid => cases hr; exact Or.inl ⟨rfl, rfl⟩
  | realloc ptr size => cases hr; exact Or.inl ⟨rfl, rfl⟩
  | getCwd buf size =>
      obtain ⟨v, -, hr⟩ := Eff.bind_eq_ok.mp hr
      cases hr
      exact Or.inl ⟨rfl, rfl⟩
  | fdRead procFd buf count =>
      obtain ⟨v, -, hr⟩ := Eff.bind_eq_ok.mp hr
      cases hr
      exact Or.inl ⟨rfl, rfl⟩
  | fdWrite procFd buf count =>
      obtain ⟨v, -, hr⟩ := Eff.bind_eq_ok.mp hr
      cases hr
      exact Or.inl ⟨rfl, rfl⟩
  -- the calls that write to the image
  | setCwd path =>
      obtain ⟨⟨ret, t⟩, hr', hr⟩ := Eff.bind_eq_ok.mp hr
      cases hr
      exact Or.inr (Or.inl ⟨path, ret, hr', rfl⟩)
  | syscallExit status =>
      obtain ⟨r', hr', hr⟩ := Eff.bind_eq_ok.mp hr
      cases hr
      obtain ⟨curr, f, -, -, rfl⟩ := syscallExit_cases hr'
      exact Or.inr (Or.inr ⟨.exit pid h.exitClose, _, hr', rfl, rfl⟩)
  | processFork =>
      obtain ⟨r', hr', hr⟩ := Eff.bind_eq_ok.mp hr
      cases hr
      exact Or.inr (Or.inr ⟨.fork pid h.fork, r', hr', rfl, rfl⟩)
  | exec path argc argv =>
      obtain ⟨r', hr', hr⟩ := Eff.bind_eq_ok.mp hr
      cases hr
      have hnone : r'.child = none := by
        rcases syscallExec_cases hr' with rfl | ⟨curr, x, f, -, -, -, -, rfl⟩ <;> rfl
      exact Or.inr (Or.inr ⟨.exec pid path argv h.exec h.self, r', hr', rfl, hnone.symm⟩)
  | fdOpenFdFromPath path flags mode =>
      obtain ⟨r', hr', hr⟩ := Eff.bind_eq_ok.mp hr
      cases hr
      exact Or.inr (Or.inr ⟨.open pid path flags mode h.open_, _, Eff.bind_eq_ok.mpr ⟨r', hr', rfl⟩, rfl, rfl⟩)
  | fdClose procFd =>
      obtain ⟨r', hr', hr⟩ := Eff.bind_eq_ok.mp hr
      cases hr
      exact Or.inr (Or.inr ⟨.close pid procFd h.close, _, Eff.bind_eq_ok.mpr ⟨r', hr', rfl⟩, rfl, rfl⟩)

/-- **A system call keeps what holds of the process objects.** -/
theorem perform_allProcs (hP : Handled P) (h : AllProcs P s) {op : ServerOp} {host : SysHost}
    {r : SysResult} (hr : s.perform pid op host = .ok r) : Leaves (AllProcs P) r.srv r.child := by
  rcases perform_cases hr with ⟨hsrv, hchild⟩ | ⟨path, ret, hr', hchild⟩ | ⟨iop, r', hr', hsrv, hchild⟩
  · rw [hsrv, hchild]
    exact .alone h
  · rw [hchild]
    exact .alone (syscallChDir_allProcs hP h hr')
  · rw [hsrv, hchild]
    exact imageOp_allProcs hP h hr'

/-! ## The tables -/

theorem startProcess_inv (h : FdInv s) {path : CStr} {args : List CStr} {host : StartHost} {r : Spawned}
    (hr : s.startProcess path args host = .ok r) : Leaves FdInv r.srv r.child :=
  ⟨((start_same hr (Or.inl rfl)).kept h []).inv, fun _ hc => ((start_same hr (Or.inr hc)).kept h []).inv⟩

/-- Changing directory touches no table. -/
theorem syscallChDir_inv (h : FdInv s) {path : CStr} {alloc : Bool} {ret : Int} {t : Server}
    (hr : s.syscallChDir pid path alloc = .ok (ret, t)) : FdInv t := by
  obtain ⟨curr, hp, rfl⟩ := syscallChDir_only hr
  refine h.congr rfl ?_ rfl rfl rfl
  funext q
  rw [fdsOf_setProc hp]
  by_cases hq : q = pid
  · rw [if_pos hq, hq, fdsOf_eq hp]
    obtain ⟨d, hd⟩ := curr.setCwd_eq path alloc
    rw [hd]
    rfl
  · rw [if_neg hq]

/-- **A system call keeps the descriptor tables linked.** -/
theorem perform_inv (h : FdInv s) {op : ServerOp} {host : SysHost} {r : SysResult}
    (hr : s.perform pid op host = .ok r) : Leaves FdInv r.srv r.child := by
  rcases perform_cases hr with ⟨hsrv, hchild⟩ | ⟨path, ret, hr', hchild⟩ | ⟨iop, r', hr', hsrv, hchild⟩
  · rw [hsrv, hchild]
    exact .alone h
  · rw [hchild]
    exact .alone (syscallChDir_inv h hr')
  · rw [hsrv, hchild]
    exact ⟨(kept_step (l := (iop, r'.calls)) h ⟨r', hr', rfl, Or.inl rfl⟩).inv,
      fun _ hc => (kept_step (l := (iop, r'.calls)) h ⟨r', hr', rfl, Or.inr hc⟩).inv⟩

end Server

namespace World

open Server

/-! ## The images of the world -/

/-- The live processes after a child, if there is one, has joined. -/
theorem spawn_live {w : World} {F : Int} {own : Nat} {child : Option Server} {q : Int} {m : Member}
    (h : (w.spawn F own child).live q = some m) :
    (∃ c, child = some c ∧ q = F ∧ m = ⟨own, c⟩) ∨ w.live q = some m := by
  cases child with
  | none => exact Or.inr h
  | some c =>
      by_cases hq : q = F
      · subst hq
        have hm : some (⟨own, c⟩ : Member) = some m := (World.put_live_self _ _ _).symm.trans h
        exact Or.inl ⟨c, rfl, rfl, (Option.some.inj hm).symm⟩
      · exact Or.inr ((World.put_live_ne hq _).symm.trans h)

theorem spawn_server (w : World) (F : Int) (own : Nat) (child : Option Server) :
    (w.spawn F own child).server = w.server := by
  cases child <;> rfl

/-- The live processes after a call of `self`, but for its child: the image of `self` is the one the call
    left. -/
theorem returned_live {w : World} {self q : Int} {m m' : Member} {op : ServerOp} {image : Server}
    (h : (w.returned self m op image).live q = some m') :
    (q = self ∧ m' = { m with image := image }) ∨ (q ≠ self ∧ w.live q = some m') := by
  unfold World.returned at h
  by_cases hq : q = self
  · subst hq
    rw [World.put_live_self] at h
    split at h
    · cases h
    · exact Or.inl ⟨rfl, (Option.some.inj h).symm⟩
  · rw [World.put_live_ne hq] at h
    exact Or.inr ⟨hq, h⟩

/-- The live processes after one is gone. -/
theorem gone_live {w : World} {self q : Int} {m : Member} (h : (w.put self none).live q = some m) :
    w.live q = some m := by
  by_cases hq : q = self
  · subst hq
    rw [World.put_live_self] at h
    cases h
  · rwa [World.put_live_ne hq] at h

/-- The image of the server and those of the live processes meet `I`. -/
structure EveryImage (I : Server → Prop) (w : World) : Prop where
  server : I w.server
  image : ∀ self m, w.live self = some m → I m.image

/-- What starting a program and a system call keep of an image is kept of all images. -/
structure Invariant (I : Server → Prop) : Prop where
  start : ∀ {s : Server} {path : CStr} {args : List CStr} {h : StartHost} {r : Spawned},
    I s → s.startProcess path args h = .ok r → Leaves I r.srv r.child
  call : ∀ {s : Server} {pid : Nat} {op : ServerOp} {h : SysHost} {r : SysResult},
    I s → s.perform pid op h = .ok r → Leaves I r.srv r.child

theorem EveryImage.step {I : Server → Prop} (hI : Invariant I) {w u : World} {e : Event}
    (h : EveryImage I w) (hst : Step w e u) : EveryImage I u := by
  cases hst with
  | start hr _ =>
      obtain ⟨hsrv, hchild⟩ := hI.start h.server hr
      refine ⟨by rw [spawn_server]; exact hsrv, fun q m hm => ?_⟩
      rcases spawn_live hm with ⟨c, hc, -, rfl⟩ | hold
      · exact hchild c hc
      · exact h.image q m hold
  | call hm _ _ hr _ =>
      obtain ⟨hsrv, hchild⟩ := hI.call (h.image _ _ hm) hr
      refine ⟨by rw [spawn_server]; exact h.server, fun q m' hm' => ?_⟩
      rcases spawn_live hm' with ⟨c, hc, -, rfl⟩ | hold
      · exact hchild c hc
      · rcases returned_live hold with ⟨-, rfl⟩ | ⟨-, hold⟩
        · exact hsrv
        · exact h.image q m' hold
  | unknown _ _ => exact h
  | ends _ => exact ⟨h.server, fun q m hm => h.image q m (gone_live hm)⟩

/-- The host process ids of the live processes are positive. -/
def Positive (w : World) : Prop := ∀ self m, w.live self = some m → 0 < self

theorem Positive.step {w u : World} {e : Event} (h : Positive w) (hst : Step w e u) : Positive u := by
  cases hst with
  | start _ hfree =>
      intro q m hm
      rcases spawn_live hm with ⟨c, hc, rfl, -⟩ | hold
      · exact (hfree (by rw [hc]; exact Option.some_ne_none c)).1
      · exact h q m hold
  | call hm _ _ _ hfree =>
      intro q m' hm'
      rcases spawn_live hm' with ⟨c, hc, rfl, -⟩ | hold
      · exact (hfree (by rw [hc]; exact Option.some_ne_none c)).1
      · rcases returned_live hold with ⟨rfl, -⟩ | ⟨-, hold⟩
        · exact h _ _ hm
        · exact h q m' hold
  | unknown _ _ => exact h
  | ends _ => exact fun q m hm => h q m (gone_live hm)

end World

end DistributedPlatform

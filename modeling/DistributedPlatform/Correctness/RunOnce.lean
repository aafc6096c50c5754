import DistributedPlatform.Lib.Run
import DistributedPlatform.Server.Processes

/-!
# `Correctness.RunOnce` — starting a program more than once

A process object is `Loaded` until `arun` makes it `Running`, and the guards of `processAdd` and `arun` go by
that state. With `doFork` the assignment is made in the new host process only: the object of the image that
forked stays `Loaded`.

* `exec_cases` — what a run call does;
* `startedOnce_iff` — the program is started at most once in the images a sequence of calls goes through, if
  and only if none of its calls forks the program off and goes on in the image it forked from.
-/

namespace DistributedPlatform
namespace RunOnce

open Server Machine

/-! ## An object and its image -/

/-- A process object in an image: the server holds it under the PIDs `pids`, by pointers to this one object.
    (It may be under several, or under none.) -/
structure Held where
  srv : Server
  obj : Process
  pids : List Nat
  held : ∀ pid ∈ pids, srv.proc pid = some obj

namespace Held

/-- The object, changed: every pointer to it sees that. -/
def put (t : Held) (obj : Process) : Held where
  srv := { t.srv with procs := t.srv.procs.mapIdx fun i p => if i ∈ t.pids then some obj else p }
  obj := obj
  pids := t.pids
  held pid hpid := by
    have hlt := lt_of_proc (t.held pid hpid)
    simp [Server.proc, hlt, hpid]

/-- The object, added to the process table once more. -/
def added (t : Held) : Held where
  srv := { t.srv with procs := t.srv.procs ++ [some t.obj] }
  obj := t.obj
  pids := t.srv.procs.length :: t.pids
  held pid hpid := by
    rcases List.mem_cons.mp hpid with rfl | hold
    · simp [Server.proc]
    · have hp := t.held pid hold
      have hlt := lt_of_proc hp
      unfold Server.proc at hp ⊢
      rw [List.getElem?_append_left hlt]
      exact hp

end Held

/-! ## The calls -/

/-- A call that runs the object, in the host process `self`. -/
inductive RunCall
  | processRun (pid : Nat) (doFork : Bool) (args : List CStr) (h : RunHost) (self : Int)
  | run (doFork : Bool) (args : List CStr) (h : RunHost) (self : Int)
  | vrun (doFork : Bool) (args : List CStr) (h : RunHost) (self : Int)
  | arun (doFork : Bool) (argv : List CStr) (fork self : Int)

namespace RunCall

/-- The call is on this object: `processRun` takes a PID. -/
def On (t : Held) : RunCall → Prop
  | processRun pid _ _ _ _ => pid ∈ t.pids
  | _ => True

def exec (t : Held) : RunCall → Eff Process.Ran
  | processRun pid doFork args h self => do
      let r ← t.srv.processRun pid doFork args h self
      .ok ⟨r.ret == 1, r.child.bind fun s => s.proc pid⟩
  | run doFork args h self => t.obj.run doFork args h self
  | vrun doFork args h self => t.obj.vrun doFork args h self
  | arun doFork argv fork self => .ok (t.obj.arun doFork argv fork self)

def doFork : RunCall → Bool
  | processRun _ doFork _ _ _ => doFork
  | run doFork _ _ _ => doFork
  | vrun doFork _ _ _ => doFork
  | arun doFork _ _ _ => doFork

/-- The allocations of the call, and its fork if it makes one, succeed. -/
def Answered : RunCall → Prop
  | processRun _ doFork args h _ => h.argv = true ∧ allocsOk (args.length + 1) h.arg = true ∧
      (doFork = true → 0 ≤ h.fork)
  | run doFork args h _ => h.argv = true ∧ allocsOk (args.length + 1) h.arg = true ∧
      (doFork = true → 0 ≤ h.fork)
  | vrun doFork args h _ => h.argv = true ∧ allocsOk (args.length + 1) h.arg = true ∧
      (doFork = true → 0 ≤ h.fork)
  | arun doFork _ fork _ => doFork = true → 0 ≤ fork

end RunCall

/-- The image a sequence goes on in after a run call: that of the caller, or that of the program. -/
inductive Image
  | caller
  | program
  deriving DecidableEq, Repr

inductive Act
  | processAdd
  | run (c : RunCall) (image : Image)

/-- One call of a sequence. A run call without `doFork` that succeeds goes on as the program. -/
inductive Step : Held → Act → Held → Prop
  | added {t : Held} : (t.srv.processAdd t.obj).1 ≠ -1 → Step t .processAdd t.added
  | notAdded {t : Held} : (t.srv.processAdd t.obj).1 = -1 → Step t .processAdd t
  | caller {t : Held} {c : RunCall} {r : Process.Ran} :
      c.On t → c.exec t = .ok r → r.image = none ∨ c.doFork = true → Step t (.run c .caller) t
  | program {t : Held} {c : RunCall} {r : Process.Ran} {p : Process} :
      c.On t → c.exec t = .ok r → r.image = some p → Step t (.run c .program) (t.put p)

/-- The call is a run call that succeeds. -/
def Started (t : Held) (a : Act) : Prop :=
  ∃ c image r, a = .run c image ∧ c.exec t = .ok r ∧ r.ret = true

/-- Every further call on the object is refused: it is not added, and its program is not started. -/
structure Refuses (t : Held) : Prop where
  add : t.srv.processAdd t.obj = (-1, t.srv)
  run : ∀ c : RunCall, c.On t → ∀ r, c.exec t = .ok r → r = ⟨false, none⟩

/-- After a run call that succeeds, every later call of the sequence is refused. -/
def StartedOnce (tr : List (Held × Act × Held)) : Prop :=
  ∀ pre x post, tr = pre ++ x :: post → Started x.1 x.2.1 → Refuses x.2.2 ∧ ∀ y ∈ post, Refuses y.2.2

/-- The call forks the program off and the sequence goes on where it was. -/
def ForksOff (t : Held) : Act → Prop
  | .run c .caller => c.doFork = true ∧ t.obj.state = .loaded ∧ c.Answered
  | _ => False

/-! ## What the calls do -/

theorem arun_cases (p : Process) (doFork : Bool) (argv : List CStr) (fork self : Int) :
    (¬ (p.state = .loaded ∧ (doFork = true → 0 ≤ fork)) ∧
      p.arun doFork argv fork self = ⟨false, none⟩) ∨
    ((p.state = .loaded ∧ (doFork = true → 0 ≤ fork)) ∧
      ∃ pid, p.arun doFork argv fork self = ⟨true, some (p.started argv pid)⟩) := by
  unfold Process.arun
  by_cases hs : p.state = .loaded
  · rw [if_neg (by simpa using hs)]
    cases doFork with
    | false => exact Or.inr ⟨⟨hs, fun h => by cases h⟩, self, rfl⟩
    | true =>
        rw [if_pos rfl]
        by_cases hf : fork < 0
        · rw [if_pos hf]
          refine Or.inl ⟨?_, rfl⟩
          rintro ⟨-, hnn⟩
          have := hnn rfl
          omega
        · rw [if_neg hf]
          exact Or.inr ⟨⟨hs, fun _ => by omega⟩, fork, rfl⟩
  · rw [if_pos hs]
    exact Or.inl ⟨fun h => hs h.1, rfl⟩

theorem vrun_cases {p : Process} {doFork : Bool} {args : List CStr} {h : RunHost} {self : Int}
    {r : Process.Ran} (hr : p.vrun doFork args h self = .ok r) :
    let answered := h.argv = true ∧ allocsOk (args.length + 1) h.arg = true ∧ (doFork = true → 0 ≤ h.fork)
    (¬ (p.state = .loaded ∧ answered) ∧ r = ⟨false, none⟩) ∨
    ((p.state = .loaded ∧ answered) ∧ ∃ argv pid, r = ⟨true, some (p.started argv pid)⟩) := by
  unfold Process.vrun at hr
  by_cases ha : h.argv = true
  · rw [if_neg (by simpa using ha)] at hr
    cases hn : p.name with
    | none => rw [hn] at hr; cases hr
    | some name =>
        rw [hn] at hr
        dsimp only at hr
        by_cases hs : allocsOk (args.length + 1) h.arg = true
        · rw [if_neg (by simpa using hs)] at hr
          cases hr
          rcases arun_cases p doFork (name :: args) h.fork self with ⟨hno, hrun⟩ | ⟨⟨hl, hf⟩, pid, hrun⟩
          · exact Or.inl ⟨fun hall => hno ⟨hall.1, hall.2.2.2⟩, hrun⟩
          · exact Or.inr ⟨⟨hl, ha, hs, hf⟩, _, pid, hrun⟩
        · rw [if_pos (by simpa using hs)] at hr
          cases hr
          exact Or.inl ⟨fun hall => hs hall.2.2.1, rfl⟩
  · rw [if_pos (by simpa using ha)] at hr
    cases hr
    exact Or.inl ⟨fun hall => ha hall.2.1, rfl⟩

/-- The server runs the object it holds under that PID. -/
theorem processRun_held {t : Held} {pid : Nat} (hpid : pid ∈ t.pids) {doFork : Bool} {args : List CStr}
    {h : RunHost} {self : Int} {r : Process.Ran}
    (hr : (RunCall.processRun pid doFork args h self).exec t = .ok r) :
    t.obj.vrun doFork args h self = .ok r := by
  have hp := t.held pid hpid
  have hlt := lt_of_proc hp
  obtain ⟨r', hr', hr⟩ := Eff.bind_eq_ok.mp hr
  unfold processRun at hr'
  split at hr'
  · cases hr'
  · rw [Int.toNat_natCast, hp] at hr'
    obtain ⟨ran, hran, hr'⟩ := Eff.bind_eq_ok.mp hr'
    rw [hran]
    cases hr'
    cases hr
    -- what `exec` reads back from the image under the PID is the object put there
    rcases ran with ⟨ret, image⟩
    cases image with
    | none => cases ret <;> rfl
    | some q =>
        have hq : (t.srv.setProc pid (some q)).proc pid = some q := proc_setProc_self hlt _
        have hq' : (Option.map (fun p => t.srv.setProc pid (some p)) (some q)).bind
            (fun s => s.proc pid) = some q := hq
        cases ret <;> exact congrArg Except.ok (congrArg (Process.Ran.mk _) hq'.symm)

/-- **What a run call does**: nothing, or the program runs, in an image where the object is `Running`; the
    latter exactly when the object is `Loaded` and no call of the host fails. -/
theorem exec_cases {t : Held} {c : RunCall} (hon : c.On t) {r : Process.Ran} (hr : c.exec t = .ok r) :
    (¬ (t.obj.state = .loaded ∧ c.Answered) ∧ r = ⟨false, none⟩) ∨
    ((t.obj.state = .loaded ∧ c.Answered) ∧ ∃ argv pid, r = ⟨true, some (t.obj.started argv pid)⟩) := by
  cases c with
  | processRun pid doFork args h self => exact vrun_cases (processRun_held hon hr)
  | run doFork args h self => exact vrun_cases hr
  | vrun doFork args h self => exact vrun_cases hr
  | arun doFork argv fork self =>
      cases hr
      exact (arun_cases t.obj doFork argv fork self).imp id fun ⟨hyes, pid, hrun⟩ =>
        ⟨hyes, argv, pid, hrun⟩

/-- An object that is not `Loaded` refuses every call, … -/
theorem refuses_of_state {t : Held} (h : t.obj.state ≠ .loaded) : Refuses t where
  add := by unfold processAdd; rw [if_pos h]
  run c hon r hr := by
    rcases exec_cases hon hr with ⟨-, hnone⟩ | ⟨hyes, -⟩
    · exact hnone
    · exact absurd hyes.1 h

/-- … and only such an object does. -/
theorem Refuses.state {t : Held} (h : Refuses t) : t.obj.state ≠ .loaded := by
  intro hl
  have hadd := h.add
  rw [processAdd_of_loaded _ _ hl] at hadd
  have hret : ((t.srv.procs.length : Int)) = -1 := congrArg Prod.fst hadd
  omega

/-- A call on an object that is not `Loaded` leaves it so. -/
theorem step_state {t u : Held} {a : Act} (h : t.obj.state ≠ .loaded) (hstep : Step t a u) :
    u.obj.state ≠ .loaded := by
  cases hstep with
  | added _ => exact h
  | notAdded _ => exact h
  | caller _ _ _ => exact h
  | program hon hr himage =>
      rw [(refuses_of_state h).run _ hon _ hr] at himage
      cases himage

/-- A run call that succeeds and does not leave the sequence where it was makes the object `Running`. -/
theorem started_state {t u : Held} {a : Act} (hstep : Step t a u) (hs : Started t a)
    (hoff : ¬ ForksOff t a) : u.obj.state ≠ .loaded := by
  obtain ⟨c, image, r, rfl, hr, hret⟩ := hs
  cases hstep with
  | caller hon hr' hcase =>
      rw [hr] at hr'
      cases hr'
      rcases exec_cases hon hr with ⟨-, rfl⟩ | ⟨⟨hl, hans⟩, argv, pid, rfl⟩
      · cases hret
      · -- the program runs somewhere else, so it was forked off
        rcases hcase with himage | hfork
        · cases himage
        · exact absurd ⟨hfork, hl, hans⟩ hoff
  | program hon hr' himage =>
      rw [hr] at hr'
      cases hr'
      rcases exec_cases hon hr with ⟨-, rfl⟩ | ⟨-, argv, pid, rfl⟩
      · cases himage
      · cases himage
        exact nofun

/-- A program forked off was started, and the object of the caller is what it was. -/
theorem started_of_forksOff {t u : Held} {a : Act} (hstep : Step t a u) (hoff : ForksOff t a) :
    Started t a ∧ u.obj.state = .loaded := by
  cases hstep with
  | added _ => exact absurd hoff id
  | notAdded _ => exact absurd hoff id
  | program _ _ _ => exact absurd hoff id
  | @caller c r hon hr _ =>
      obtain ⟨-, hl, hans⟩ := hoff
      refine ⟨⟨c, .caller, r, rfl, hr, ?_⟩, hl⟩
      rcases exec_cases hon hr with ⟨hno, -⟩ | ⟨-, argv, pid, rfl⟩
      · exact absurd ⟨hl, hans⟩ hno
      · rfl

/-! ## Sequences of calls -/

variable {t u : Held} {tr : List (Held × Act × Held)}

/-- An object that is not `Loaded` refuses the calls of a whole sequence. -/
theorem refuses_of_run (h : Run Step t tr u) (ht : t.obj.state ≠ .loaded) :
    ∀ y ∈ tr, Refuses y.2.2 := by
  intro y hy
  obtain ⟨pre, post, rfl⟩ := List.append_of_mem hy
  obtain ⟨hpre, hlast, -⟩ := h.split
  have hbefore := hpre.invariant (I := fun t => t.obj.state ≠ .loaded)
    (fun _ _ _ hI hst => step_state hI hst) ht
  exact refuses_of_state (step_state hbefore hlast)

/-- **When a program is started at most once.** In a sequence of `processAdd` and run calls on an object,
    through the images it goes on in and with any answers, every call after a run call that succeeded is
    refused, if and only if no call forks the program off and goes on in the image it forked from. -/
theorem startedOnce_iff (h : Run Step t tr u) :
    StartedOnce tr ↔ ∀ x ∈ tr, ¬ ForksOff x.1 x.2.1 := by
  constructor
  · -- a program forked off leaves the object as it was, and that one can be added and run
    intro honce x hx hoff
    obtain ⟨pre, post, rfl⟩ := List.append_of_mem hx
    obtain ⟨-, hstep, -⟩ := h.split
    obtain ⟨hs, hl⟩ := started_of_forksOff hstep hoff
    exact (honce pre x post rfl hs).1.state hl
  · -- otherwise the object is `Running` from the call on
    intro hnone pre x post htr hs
    subst htr
    obtain ⟨-, hstep, hpost⟩ := h.split
    have hstate := started_state hstep hs (hnone x (by simp))
    exact ⟨refuses_of_state hstate, refuses_of_run hpost hstate⟩

/-- A server with a loaded shell, not added to it. -/
def loaded : Held where
  srv := {}
  obj := Process.ofFile (bytes "/srv/bin/shell") (bytes "/bin") (bytes "shell")
  pids := []
  held pid hpid := by cases hpid

/-- The shell is added and run as PID 1 without forking; then it is run again. -/
theorem startedOnce_run :
    ∃ tr u, Run Step loaded tr u ∧ tr.length = 3 ∧
      (StartedOnce tr ↔ ∀ x ∈ tr, ¬ ForksOff x.1 x.2.1) := by
  have h1 : Run Step loaded _ _ := Run.single (i := .processAdd) (.added (by decide))
  have h2 := Run.tail h1 (i := .run (.processRun 1 false [] ⟨true, fun _ => true, 0⟩ 100) .program)
    (.program (List.mem_singleton_self 1) rfl rfl)
  have h3 := Run.tail h2 (i := .run (.vrun true [] ⟨true, fun _ => true, 101⟩ 100) .caller)
    (Step.caller (c := .vrun true [] ⟨true, fun _ => true, 101⟩ 100) trivial rfl (Or.inl rfl))
  exact ⟨_, _, h3, rfl, startedOnce_iff h3⟩

/-- The server adds the shell and runs it twice with `doFork`: two shells. -/
theorem started_twice : ¬ ∀ tr u, Run Step loaded tr u → StartedOnce tr := by
  intro hall
  have h1 : Run Step loaded _ _ := Run.single (i := .processAdd) (.added (by decide))
  have h2 := Run.tail h1 (i := .run (.processRun 1 true [] ⟨true, fun _ => true, 100⟩ 99) .caller)
    (.caller (List.mem_singleton_self 1) rfl (Or.inr rfl))
  have h3 := Run.tail h2 (i := .run (.processRun 1 true [] ⟨true, fun _ => true, 101⟩ 99) .caller)
    (.caller (List.mem_singleton_self 1) rfl (Or.inr rfl))
  have honce := hall _ _ h3 [_] _ [_] rfl ⟨_, _, _, rfl, rfl, rfl⟩
  exact honce.1.state rfl

end RunOnce
end DistributedPlatform

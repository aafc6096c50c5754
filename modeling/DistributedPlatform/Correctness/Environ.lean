import DistributedPlatform.Correctness.Images
import DistributedPlatform.Correctness.Pids
import DistributedPlatform.Programs.Shell

/-!
# `Correctness.Environ` — where the environment of a program comes from

The environment is kept three times: in the process object, in the platform's library (`Denviron`, which
`getenv` reads) and in the host's C library (which `setenv` changes). The first is copied by fork and exec,
the second set from it when a program starts; nothing leads from the third to the others.

* `export_getenv` — an export changes what `getenv` returns in no process;
* `getenv_none` — no process object ever gets an environment in the first place, so `getenv` finds nothing;
* `getenv_never` — an exported variable is seen nowhere.
-/

namespace DistributedPlatform
namespace Environ

open Server Machine Function
open Pids (hosts hosts_booted startsAs forksAs)

/-! ## Sessions -/

/-- The server and the programs, with what the libraries of each program hold; `serverEnv` is the
    environment the server itself was started in. `exported` is a record kept beside the code: the value
    last exported for a name, in the process or before it was forked. -/
structure Session where
  world : World
  libs : Int → LibEnv
  serverEnv : List (CStr × CStr)
  exported : Int → CStr → Option CStr

/-- A step of the server or of a program (see `Event`), or an export executed by a shell. -/
inductive Act
  | sys (e : Event)
  | export (self : Int) (name value : CStr) (alloc : Bool)

namespace Session

/-- What `getenv` returns in the process `self`. -/
def getenv (t : Session) (self : Int) (name : CStr) : Option CStr := (t.libs self).getenv name

/-- A system call, as the caller's libraries see it. `forkCopy` loads the library a second time, which gives
    the instance already loaded, and restarts it with the environment of the copy; that is before the host
    forks. A successful exec starts the new program. -/
def afterCall (s : Server) (pid : Nat) (op : ServerOp) (h : SysHost) (e : LibEnv) : LibEnv :=
  match op with
  | .processFork =>
      match s.proc pid with
      | none => e
      | some parent =>
          match parent.forkCopy h.fork.copy with
          | .ok (some child) => e.start child.environ
          | _ => e
  | .exec path _ argv =>
      match s.syscallExec pid path argv h.exec h.self with
      | .ok r => if r.ret = 0 then e.start ((r.srv.proc pid).bind Process.environ) else e
      | .error _ => e
  | _ => e

/-- The libraries of the caller after its call. -/
def callerAfter (t : Session) (self : Int) (op : ServerOp) (h : SysHost) : LibEnv :=
  match t.world.live self with
  | none => t.libs self
  | some m =>
      match m.image.findCaller self with
      | none => t.libs self
      | some pid => afterCall m.image pid op h (t.libs self)

/-- The host process was started by the step to `v`. -/
def born (t : Session) (v : World) (pid : Int) : Bool := (t.world.live pid).isNone && (v.live pid).isSome

/-- The libraries after a step to `v`. A child of the server starts its program with the environment of the
    process object, a child of a program has the memory of its parent. -/
def libsAfter (t : Session) (e : Event) (v : World) (pid : Int) : LibEnv :=
  match e with
  | .start _ _ _ =>
      if t.born v pid then
        { Denviron := (v.live pid).bind fun m => (m.image.proc m.own).bind Process.environ
          hostEnv := t.serverEnv }
      else t.libs pid
  | .call self op h =>
      if t.born v pid ∨ pid = self then t.callerAfter self op h else t.libs pid
  | .ends _ => t.libs pid

/-- The record after a step: a child of a program takes over that of its parent. -/
def exportedAfter (t : Session) (e : Event) (v : World) (pid : Int) : CStr → Option CStr :=
  match e with
  | .start _ _ _ => if t.born v pid then fun _ => none else t.exported pid
  | .call self _ _ => if t.born v pid then t.exported self else t.exported pid
  | .ends _ => t.exported pid

inductive Step : Session → Act → Session → Prop
  | sys {t : Session} {e : Event} {v : World} :
      World.Step t.world e v →
      Step t (.sys e)
        { t with world := v, libs := t.libsAfter e v, exported := t.exportedAfter e v }
  | export {t : Session} {self : Int} {m : Member} {name value : CStr} {alloc : Bool} {libs : LibEnv} :
      t.world.live self = some m → name ≠ [] → 61 ∉ name →
      Shell.shellExport (t.libs self) (name ++ 61 :: value) alloc = .ok libs →
      Step t (.export self name value alloc)
        { t with
          libs := update t.libs self libs
          exported := update t.exported self (update (t.exported self) name (some value)) }

/-- The process sees the values last exported. -/
def Sees (t : Session) (self : Int) : Prop :=
  ∀ name value, t.exported self name = some value → t.getenv self name = some value

end Session

open Session

/-! ## An export -/

theorem shellExport_Denviron {e e' : LibEnv} {save : CStr} {alloc : Bool}
    (h : Shell.shellExport e save alloc = .ok e') : e'.Denviron = e.Denviron := by
  unfold Shell.shellExport at h
  split at h
  · cases h
  · split at h
    · cases h; rfl
    · cases h; exact LibEnv.setenv_Denviron _ _ _ _

/-- An export always gets to `setenv`, or finds no equals sign in its first word; it does not fault. -/
theorem shellExport_ok (e : LibEnv) (name value : CStr) (alloc : Bool) :
    ∃ e', Shell.shellExport e (name ++ 61 :: value) alloc = .ok e' := by
  have hword : strtok 32 (name ++ 61 :: value) ≠ none := by
    unfold strtok
    cases hd : (name ++ 61 :: value).dropWhile (· == 32) with
    | cons b rest => simp
    | nil =>
        have hall := List.dropWhile_eq_nil_iff.mp hd 61 (by simp)
        exact absurd hall (by decide)
  obtain ⟨⟨string, rest⟩, hs⟩ := Option.ne_none_iff_exists'.mp hword
  unfold Shell.shellExport
  rw [hs]
  dsimp only
  split <;> exact ⟨_, rfl⟩

/-- **An export is seen by no `getenv`**, neither that of the shell nor any other. -/
theorem export_getenv {t u : Session} {self : Int} {name value : CStr} {alloc : Bool}
    (h : Step t (.export self name value alloc) u) (pid : Int) (x : CStr) :
    u.getenv pid x = t.getenv pid x := by
  cases h with
  | «export» hm hne heq hex =>
      unfold Session.getenv LibEnv.getenv
      by_cases hpid : pid = self
      · subst hpid
        simp only [update_self]
        rw [shellExport_Denviron hex]
      · simp only [update_of_ne hpid]

/-! ## No environment anywhere -/

/-- No process object of the image has an environment. -/
def NoEnviron (s : Server) : Prop := ∀ p, some p ∈ s.procs → p.environ = none

theorem NoEnviron.proc {s : Server} (h : NoEnviron s) {pid : Nat} {p : Process} (hp : s.proc pid = some p) :
    p.environ = none :=
  AllProcs.proc (P := fun p => p.environ = none) h hp

theorem forkCopy_environ {p c : Process} {h : ForkCopyHost} (hp : p.environ = none)
    (hc : p.forkCopy h = .ok (some c)) : c.environ = none := by
  obtain ⟨name, path, cwd, -, -, -, rfl⟩ := Process.forkCopy_exact hc
  rw [hp]
  rfl

/-- Nothing the operations do to a process object gives it an environment. -/
theorem environ_handled : Handled fun p => p.environ = none where
  fds _ hp := hp
  chdir _ hp := hp
  copied {p c h} hp hc := by
    have hnone : c.environ = none := forkCopy_environ hp hc
    exact ⟨hnone, fun _ => hnone⟩
  loaded _ _ _ := rfl
  started _ _ _ _ _ := rfl
  execed localPath dir name cwd h argv self hp := by
    show (execed _ _ _ _ _ _).environ = none
    rw [hp, execed_eq]
    rfl

/-- **No step of a program or of the server gives a process an environment.** -/
theorem noEnviron_invariant : World.Invariant NoEnviron where
  start h hr := startProcess_allProcs environ_handled h hr
  call h hr := perform_allProcs environ_handled h hr

/-- The image a successful exec leaves, and what it puts in the caller's place. -/
theorem syscallExec_environ {s : Server} (h : NoEnviron s) {pid : Nat} {path : CStr} {argv : List CStr}
    {host : ExecHost} {self : Int} {r : Spawned} (hr : s.syscallExec pid path argv host self = .ok r) :
    NoEnviron r.srv := by
  have hop : (FdTable.ImageOp.exec pid path argv host self).run s = .ok r := hr
  exact (imageOp_allProcs environ_handled h hop).1

theorem startProcess_dummy {s : Server} {path : CStr} {args : List CStr} {host : StartHost}
    {r : Spawned} (hs : s.procs ≠ []) (hr : s.startProcess path args host = .ok r) : r.srv.procs ≠ [] := by
  obtain ⟨procs, ⟨-, hr'⟩ | ⟨-, child, hr'⟩⟩ := startProcess_grows hs path args host
  · rw [hr] at hr'
    cases hr'
    exact List.append_ne_nil_of_left_ne_nil hs procs
  · rw [hr] at hr'
    cases hr'
    exact List.append_ne_nil_of_left_ne_nil hs procs

/-! ## The libraries -/

/-- There is no environment, in any image or in any library of the platform. -/
structure Bare (t : Session) : Prop where
  dummy : t.world.server.procs ≠ []
  server : NoEnviron t.world.server
  image : ∀ self m, t.world.live self = some m → NoEnviron m.image
  lib : ∀ self m, t.world.live self = some m → (t.libs self).Denviron = none

theorem afterCall_none {s : Server} (h : NoEnviron s) {e : LibEnv} (he : e.Denviron = none) (pid : Nat)
    (op : ServerOp) (host : SysHost) : (afterCall s pid op host e).Denviron = none := by
  cases op with
  | processFork =>
      show (match s.proc pid with
        | none => e
        | some parent =>
            match parent.forkCopy host.fork.copy with
            | .ok (some child) => e.start child.environ
            | _ => e).Denviron = none
      cases hp : s.proc pid with
      | none => exact he
      | some parent =>
          dsimp only
          split
          · next child hc => exact forkCopy_environ (h.proc hp) hc
          · exact he
  | exec path argc argv =>
      show (match s.syscallExec pid path argv host.exec host.self with
        | .ok r => if r.ret = 0 then e.start ((r.srv.proc pid).bind Process.environ) else e
        | .error _ => e).Denviron = none
      split
      · next r hr =>
          split
          · show (r.srv.proc pid).bind Process.environ = none
            have hafter := syscallExec_environ h hr
            cases hq : r.srv.proc pid with
            | none => rfl
            | some q => exact hafter.proc hq
          · exact he
      · exact he
  | _ => exact he

theorem Bare.callerAfter {t : Session} (h : Bare t) {self : Int} {m : Member}
    (hm : t.world.live self = some m) (op : ServerOp) (host : SysHost) :
    (t.callerAfter self op host).Denviron = none := by
  unfold Session.callerAfter
  rw [hm]
  dsimp only
  split
  · exact h.lib self m hm
  · exact afterCall_none (h.image self m hm) (h.lib self m hm) _ _ _

/-! ## Steps -/

/-- A process is born by a step, or it was live before. -/
theorem born_or_live {t : Session} {v : World} {q : Int} {m : Member} (h : v.live q = some m) :
    t.born v q = true ∨ ∃ m', t.world.live q = some m' := by
  unfold Session.born
  cases hold : t.world.live q with
  | none => exact Or.inl (by simp [h])
  | some m' => exact Or.inr ⟨m', rfl⟩

theorem not_born {t : Session} {v : World} {q : Int} {m : Member} (h : t.world.live q = some m) :
    t.born v q = false := by
  simp [Session.born, h]

/-- The table of the server keeps its dummy. -/
theorem dummy_step {w v : World} {e : Event} (h : w.server.procs ≠ []) (hw : World.Step w e v) :
    v.server.procs ≠ [] := by
  cases hw with
  | start hr _ =>
      rw [World.spawn_server]
      exact startProcess_dummy h hr
  | call _ _ _ _ _ =>
      rw [World.spawn_server]
      exact h
  | unknown _ _ => exact h
  | ends _ => exact h

/-- The libraries stay without an environment: that of a new program takes the one of its process object,
    that of a caller, or of its child, what the call leaves. -/
theorem lib_step {t : Session} (h : Bare t) {e : Event} {v : World} (hw : World.Step t.world e v)
    (himage : ∀ q m, v.live q = some m → NoEnviron m.image) :
    ∀ q m, v.live q = some m → (t.libsAfter e v q).Denviron = none := by
  intro q m hm
  unfold Session.libsAfter
  cases hw with
  | start _ _ =>
      dsimp only
      rcases born_or_live (t := t) hm with hb | ⟨m', hold⟩
      · -- the new program starts with the environment of its object, which has none
        rw [if_pos hb]
        dsimp only
        rw [hm]
        show (m.image.proc m.own).bind Process.environ = none
        cases hp : m.image.proc m.own with
        | none => rfl
        | some p => exact (himage q m hm).proc hp
      · rw [not_born hold]
        exact h.lib q m' hold
  | call hcaller _ _ _ _ =>
      -- the caller, or the child, which has the memory of the caller
      dsimp only
      split
      · exact h.callerAfter hcaller _ _
      · next hb =>
          rcases born_or_live (t := t) hm with hborn | ⟨m'', hold⟩
          · exact absurd (Or.inl hborn) hb
          · exact h.lib q m'' hold
  | unknown hcaller _ =>
      dsimp only
      split
      · exact h.callerAfter hcaller _ _
      · exact h.lib q m hm
  | ends _ => exact h.lib q m (World.gone_live hm)

/-- **No step brings an environment.** -/
theorem bare_step {t u : Session} {a : Act} (h : Bare t) (hstep : Step t a u) : Bare u := by
  cases hstep with
  | sys hw =>
      have hevery := World.EveryImage.step noEnviron_invariant ⟨h.server, h.image⟩ hw
      exact ⟨dummy_step h.dummy hw, hevery.server, hevery.image, lib_step h hw hevery.image⟩
  | @«export» self m name value alloc libs hm hne heq hex =>
      refine ⟨h.dummy, h.server, h.image, ?_⟩
      intro q m' hm'
      show (update t.libs self libs q).Denviron = none
      by_cases hq : q = self
      · subst hq
        rw [update_self, shellExport_Denviron hex]
        exact h.lib q m' hm'
      · rw [update_of_ne hq]
        exact h.lib q m' hm'

/-! ## Sessions from the start -/

/-- The server before its first program, with the objects the constructor makes. -/
structure Booted (t : Session) : Prop where
  world : t.world.Booted
  environ : NoEnviron t.world.server

theorem Bare.of_booted {t : Session} (h : Booted t) : Bare t where
  dummy := h.world.dummy
  server := h.environ
  image self m hm := by rw [h.world.live] at hm; cases hm
  lib self m hm := by rw [h.world.live] at hm; cases hm

theorem getenv_none {t u : Session} {tr : List (Session × Act × Session)} (ht : Booted t)
    (h : Run Step t tr u) {self : Int} {m : Member} (hm : u.world.live self = some m) (name : CStr) :
    u.getenv self name = none := by
  have hbare := h.invariant (I := Bare) (fun _ _ _ hI hst => bare_step hI hst) (Bare.of_booted ht)
  unfold Session.getenv LibEnv.getenv
  rw [hbare.lib self m hm]

/-- **When a process sees what was exported.** In every session of the server and its programs, whatever was
    exported, forked and executed in whatever order, a live process sees the values last exported for it if
    and only if there are none. -/
theorem getenv_never {t u : Session} {tr : List (Session × Act × Session)} (ht : Booted t)
    (h : Run Step t tr u) {self : Int} {m : Member} (hm : u.world.live self = some m) :
    u.Sees self ↔ ∀ name, u.exported self name = none := by
  constructor
  · intro hsees name
    cases hexp : u.exported self name with
    | none => rfl
    | some value =>
        have hget := hsees name value hexp
        rw [getenv_none ht h hm] at hget
        cases hget
  · intro hnone name value hexp
    rw [hnone] at hexp
    cases hexp

/-- A server about to start its first program. -/
def session : Session where
  world := hosts
  libs := fun _ => {}
  serverEnv := [(bytes "HOME", bytes "/root")]
  exported := fun _ _ => none

theorem session_booted : Booted session where
  world := hosts_booted
  environ := by
    intro p hp
    cases hp with
    | head => rfl
    | tail _ hp => cases hp

/-- The shell 100 starts, exports `HOME` and forks 101; the host's library of 101 has the variable. -/
theorem getenv_never_fork :
    ∃ tr u, Run Step session tr u ∧ tr.length = 3 ∧
      (u.Sees 101 ↔ ∀ name, u.exported 101 name = none) ∧
      u.exported 101 (bytes "HOME") = some (bytes "/home") ∧
      (u.libs 101).hostEnv.head? = some (bytes "HOME", bytes "/home") := by
  have h1 : Run Step session _ _ := Run.single (i := .sys (.start (bytes "/bin/shell") [] (startsAs 100)))
    (.sys (.start rfl (fun _ => ⟨by decide, rfl⟩)))
  have h2 := Run.tail h1 (i := .export 100 (bytes "HOME") (bytes "/home") true)
    (.export rfl (by decide) (by decide) rfl)
  have h3 := Run.tail h2 (i := .sys (.call 100 .processFork (forksAs 100 101)))
    (.sys (.call (h := forksAs 100 101) rfl rfl rfl rfl (fun _ => ⟨by decide, rfl⟩)))
  exact ⟨_, _, h3, rfl, getenv_never session_booted h3 rfl, rfl, rfl⟩

/-- The shell 100 starts and exports `HOME`; it does not see what it exported. -/
theorem export_not_seen :
    ¬ ∀ tr u, Run Step session tr u → ∀ self m, u.world.live self = some m → u.Sees self := by
  intro hall
  have h1 : Run Step session _ _ := Run.single (i := .sys (.start (bytes "/bin/shell") [] (startsAs 100)))
    (.sys (.start rfl (fun _ => ⟨by decide, rfl⟩)))
  have h2 := Run.tail h1 (i := .export 100 (bytes "HOME") (bytes "/home") true)
    (.export rfl (by decide) (by decide) rfl)
  have hsees := hall _ _ h2 100 _ rfl (bytes "HOME") (bytes "/home") rfl
  cases hsees

end Environ
end DistributedPlatform

import DistributedPlatform.Correctness.Boot
import DistributedPlatform.Correctness.Exec
import DistributedPlatform.Correctness.FdBounds
import DistributedPlatform.Correctness.MainLoop
import DistributedPlatform.Platform

/-!
# `Correctness.Platform` — the platform from its start on

Every state the platform can reach, whatever the clients send, the programs call and the host answers.

* `Rounded` — what a round of the poll loop does to the server's image; with `World.Step` for the programs, every
  invariant of an image (`Invariant`) holds of all images at all times (`everyImage_run`);
* `callers_run` — the server finds the caller of every system call, for the whole life of the process;
* `faults_run` — so there are four ways to leave the defined behaviour and no more: a program passes a descriptor
  number outside its table or forks where the copy fails, a client is accepted on a descriptor that has no bit in an
  `fd_set`, or the poll loop erases the last connection.
-/

namespace DistributedPlatform
namespace Platform

open Machine Server PollLoop FdTable Pids

/-! ## What a round does to the server's image -/

/-- A round changes what the poll loop walks over and the stop flag; or it adds a tty device for a socket; or it
    starts a program after that. Whatever it does, the list of the connections is its own. -/
inductive Rounded (h : ReadHost) (s : Server) : Server → Option Server → Prop
  | net (conns : List Connection) (fds : FdSet) (flag : Bool) :
      Rounded h s { s with connections := conns, fdSetActive := fds, stopFlag := flag } none
  | device {k : Nat} (conns : List Connection) : k < s.socks.length →
      Rounded h s
        { s.addDevice (s.findTty 1023 0) (.socket (some k)) h.tty.add with connections := conns } none
  | start {k : Nat} {path : CStr} {args : List CStr} {r : Spawned} (conns : List Connection) :
      k < s.socks.length →
      (s.addDevice (s.findTty 1023 0) (.socket (some k)) h.tty.add).startProcess path args h.tty.start = .ok r →
      Rounded h s { r.srv with connections := conns } r.child

variable {h : ReadHost} {s t : Server} {shell : Option Server}

/-- A program that was not started left no image. -/
theorem startProcess_failed {path : CStr} {args : List CStr} {host : StartHost} {r : Spawned}
    (hr : s.startProcess path args host = .ok r) (hret : r.ret = 0) : r.child = none := by
  by_cases hs : s.procs = []
  · rw [startProcess_nil hs hr]
  · obtain ⟨procs, ⟨-, hr'⟩ | ⟨-, procs', hr'⟩⟩ := startProcess_grows hs path args host
    · rw [hr'] at hr
      cases hr
      rfl
    · rw [hr'] at hr
      cases hr
      simp at hret

theorem ttyStart_rounded {con : Connection} (hsock : con.sock < s.socks.length) {r : TcpRead}
    (hr : s.ttyStart con h.tty = .ok r) :
    r.ret = true ∧ ∀ conns, Rounded h s { r.srv with connections := conns } r.shell := by
  unfold ttyStart at hr
  dsimp only at hr
  split at hr
  · cases hr
    exact ⟨rfl, fun conns => .device conns hsock⟩
  · obtain ⟨r', hr', hr⟩ := Eff.bind_eq_ok.mp hr
    have hround := fun conns => Rounded.start conns hsock (h := h) hr'
    split at hr
    · next hret =>
        cases hr
        rw [startProcess_failed hr' hret] at hround
        exact ⟨rfl, hround⟩
    · cases hr
      exact ⟨rfl, hround⟩

theorem tcpRead_rounded {con : Connection} (hsock : con.sock < s.socks.length) {r : TcpRead}
    (hr : s.tcpRead con h = .ok r) :
    (r.ret = false ∧ r.srv = s) ∨
    (r.ret = true ∧ ∀ conns, Rounded h s { r.srv with connections := conns } r.shell) := by
  unfold tcpRead at hr
  split at hr
  · cases hr; exact Or.inl ⟨rfl, rfl⟩
  · cases hr; exact Or.inl ⟨rfl, rfl⟩
  · right
    rw [tcpCommand_eq] at hr
    split at hr
    · cases hr; exact ⟨rfl, fun conns => .net conns s.fdSetActive s.stopFlag⟩
    · split at hr
      · cases hr; exact ⟨rfl, fun conns => .net conns s.fdSetActive s.stopFlag⟩
      · exact ttyStart_rounded hsock hr
    · cases hr; exact ⟨rfl, fun conns => .net conns s.fdSetActive true⟩

theorem pollVisit_rounded {ready : Finset Int} {con : Connection} {v : Visit}
    (hv : s.pollVisit ready con h = .ok v) (conns : List Connection) :
    Rounded h s { v.srv with connections := conns } v.shell := by
  unfold pollVisit at hv
  split at hv
  · cases hv
  · next sock hsock =>
      have hlt : con.sock < s.socks.length := (List.getElem?_eq_some_iff.mp hsock).1
      split at hv
      · cases hv; exact .net conns s.fdSetActive s.stopFlag
      · obtain ⟨isSet, -, hv⟩ := Eff.bind_eq_ok.mp hv
        split at hv
        · cases hv; exact .net conns s.fdSetActive s.stopFlag
        · obtain ⟨r, hr, hv⟩ := Eff.bind_eq_ok.mp hv
          rcases tcpRead_rounded hlt hr with ⟨hret, hsrv⟩ | ⟨hret, hround⟩
          · simp only [hret, Bool.false_eq_true, if_false] at hv
            obtain ⟨fds, -, hv⟩ := Eff.bind_eq_ok.mp hv
            cases hv
            rw [hsrv]
            exact .net conns fds s.stopFlag
          · simp only [hret, if_true] at hv
            cases hv
            exact hround conns

/-- **What a round does**, to the server's image and to the shells started. -/
theorem next_rounded {p p' : Poll} (hne : p.rest ≠ []) (hn : p.next (fun _ => h) = .ok p') :
    ∃ shell, p'.shells = p.shells ++ shell.toList ∧ Rounded h p.srv p'.srv shell := by
  obtain ⟨c, rest, hrest⟩ := List.exists_cons_of_ne_nil hne
  unfold Poll.next at hn
  rw [hrest] at hn
  obtain ⟨v, hv, hn⟩ := Eff.bind_eq_ok.mp hn
  have hround := pollVisit_rounded hv
  unfold Poll.advance at hn
  dsimp only at hn
  cases hcon : v.con with
  | some con =>
      rw [hcon] at hn
      cases hn
      exact ⟨v.shell, rfl, hround _⟩
  | none =>
      rw [hcon] at hn
      cases rest with
      | nil => cases hn
      | cons d rest =>
          cases hn
          exact ⟨v.shell, rfl, hround _⟩

theorem shell_of_shells {shells : List Server} {a b : Option Server}
    (h : shells ++ a.toList = shells ++ b.toList) : a = b := by
  have hlist := List.append_cancel_left h
  cases a <;> cases b <;> simp_all

/-- The shell that joins the live processes is the one the round started. -/
theorem round_rounded {p q : Poll} (hst : LoopStep p (.round h) q)
    (hshell : q.shells = p.shells ++ shell.toList) : Rounded h p.srv q.srv shell := by
  cases hst with
  | round hne hn =>
      obtain ⟨shell', hshell', hround⟩ := next_rounded hne hn
      rwa [shell_of_shells (hshell.symm.trans hshell')]

/-! ## Invariants of the images -/

/-- What everything that happens to an image keeps: the start of a program and the system calls, as in a
    `World`, and what the server does to its own. -/
structure Invariant (I : Server → Prop) : Prop extends World.Invariant I where
  net : ∀ {s : Server} (conns : List Connection) (sockFd : Int) (fds : FdSet) (flag : Bool),
    I s → I { s with connections := conns, tcpSockFd := sockFd, fdSetActive := fds, stopFlag := flag }
  accept : ∀ {s : Server} {newFd : Int} (hbit : HasBit newFd), I s → I (s.withClient newFd hbit)
  device : ∀ {s : Server} {k : Nat} (alloc : Bool), I s → k < s.socks.length →
    I (s.addDevice (s.findTty 1023 0) (.socket (some k)) alloc)

variable {I : Server → Prop}

theorem Invariant.rounded (hI : Invariant I) (hs : I s) (hr : Rounded h s t shell) : Leaves I t shell := by
  cases hr with
  | net conns fds flag => exact .alone (hI.net conns s.tcpSockFd fds flag hs)
  | device conns hk =>
      have hdev := hI.device h.tty.add hs hk
      exact .alone (hI.net conns _ _ _ hdev)
  | start conns hk hr =>
      obtain ⟨hsrv, hchild⟩ := hI.start (hI.device h.tty.add hs hk) hr
      exact ⟨hI.net conns _ _ _ hsrv, hchild⟩

/-- The server's image and those of the live processes meet `I`. -/
abbrev EveryImage (I : Server → Prop) (t : Platform) : Prop := World.EveryImage I t.world

theorem Invariant.begin (hI : Invariant I) (hs : I s) {ready : Finset Int} {accept : Int} {p : Poll}
    (hp : s.pollBegin ready accept = .ok p) : I p.srv := by
  rcases pollBegin_ok hp with ⟨-, rfl⟩ | ⟨hbit, -, rfl⟩
  · exact hs
  · exact hI.accept hbit hs

/-- **Whatever happens keeps an invariant in all images.** -/
theorem everyImage_step (hI : Invariant I) {t u : Platform} {e : Event} (ht : EveryImage I t)
    (hst : Step t e u) : EveryImage I u := by
  cases hst with
  | begin _ hl =>
      cases hl with
      | begin _ _ _ hp => exact ⟨hI.begin ht.server hp, ht.image⟩
  | round hl hshell _ =>
      obtain ⟨hsrv, hchild⟩ := hI.rounded ht.server (round_rounded hl hshell)
      refine ⟨hsrv, fun q m hm => ?_⟩
      rcases World.spawn_live hm with ⟨c, hc, -, rfl⟩ | hold
      · exact hchild c hc
      · exact ht.image q m hold
  | program hstart hst =>
      have hu := World.EveryImage.step hI.toInvariant ht hst
      exact ⟨ht.server, hu.image⟩

/-- At the start there are two images, that of the server and that of the init program. -/
theorem everyImage_booted (hI : Invariant I) {host : BootHost} (h₀ : ∀ fs, I (Boot.equipped fs host))
    {t : Platform} (ht : BootedWith host t) : EveryImage I t := by
  obtain ⟨fs, initPath, port, b, hb, hret, hpos, rfl⟩ := ht
  obtain ⟨hyes, r, hcomes⟩ := Boot.comes_of_boot hb hret
  obtain ⟨hsrv, hchild⟩ := hI.start (h₀ fs) hcomes.started
  refine ⟨?_, fun q m hm => ?_⟩
  · show I b.srv
    rw [hcomes.srv]
    exact hI.net r.srv.connections _ _ r.srv.stopFlag hsrv
  · rcases World.spawn_live hm with ⟨c, hc, -, rfl⟩ | hold
    · rw [hcomes.child] at hc
      exact hchild c hc
    · cases hold

/-! ## Sound images -/

/-- A process that has been run has its strings. -/
def Whole (p : Process) : Prop := p.posixPID ≠ -1 → p.name ≠ none ∧ p.path ≠ none ∧ p.cwd ≠ none

theorem whole_of {p : Process} {name path cwd : CStr} (hname : p.name = some name) (hpath : p.path = some path)
    (hcwd : p.cwd = some cwd) : Whole p := by
  intro _
  rw [hname, hpath, hcwd]
  exact ⟨nofun, nofun, nofun⟩

theorem whole_handled : Handled Whole where
  fds _ hp := hp
  chdir _ hp := fun hpid => ⟨(hp hpid).1, (hp hpid).2.1, nofun⟩
  copied _ hc := by
    obtain ⟨name, path, cwd, -, -, -, rfl⟩ := Process.forkCopy_exact hc
    obtain ⟨e, he⟩ := Process.setEnviron_eq _ _ _ _
    rw [he]
    exact ⟨whole_of rfl rfl rfl, fun _ => whole_of rfl rfl rfl⟩
  loaded _ _ _ := whole_of rfl rfl rfl
  started _ _ _ _ _ := whole_of rfl rfl rfl
  execed localPath dir name cwd h argv self _ := by
    rw [execed_eq]
    cases hcwd : h.cwd with
    | false => exact whole_of rfl rfl rfl
    | true => exact whole_of rfl rfl rfl

/-- Linked tables, and strings for every process that runs. -/
def Sound (s : Server) : Prop := FdInv s ∧ AllProcs Whole s

/-- What is added to the devices and the sockets of an image leaves its tables linked. -/
theorem FdInv.added (hs : FdInv s) (he : t.fdEntries = s.fdEntries) (hprocs : t.procs = s.procs)
    (hdevs : s.devs.length ≤ t.devs.length) (hdevices : ∀ k ∈ t.devices.entries.map (·.device), k < t.devs.length)
    (hsockets : ∀ {k j : Nat}, t.devs[k]? = some (Device.socket (some j)) → j < t.socks.length) : FdInv t where
  linked := by
    have hfds : t.fdsOf = s.fdsOf := by
      funext pid
      simp only [fdsOf, proc, hprocs]
    rw [table_congr he hfds]
    exact hs.linked
  entry := by
    intro v e hv
    rw [fdGet_congr he] at hv
    obtain ⟨hfd, hcount, hobj⟩ := hs.entry hv
    refine ⟨hfd, hcount, ?_⟩
    cases htype : e.type with
    | fdTypeDevice k => rw [htype] at hobj; exact Nat.lt_of_lt_of_le hobj hdevs
    | fdTypeFd fd => trivial
    | fdTypeNone => rw [htype] at hobj; exact hobj
    | fdTypeSocket k => rw [htype] at hobj; exact hobj
  devices := hdevices
  sockets := hsockets

theorem addDevice_inv (hs : FdInv s) {k : Nat} (name : CStr) (alloc : Bool) (hk : k < s.socks.length) :
    FdInv (s.addDevice name (.socket (some k)) alloc) := by
  rw [Boot.addDevice_eq]
  refine FdInv.added hs rfl rfl (by simp) ?_ ?_
  · intro j hj
    rcases Devices.add_cases s.devices name (some s.devs.length) alloc with
      ⟨-, hadd⟩ | ⟨dev, hdev, -, -, hadd⟩
    · rw [hadd] at hj
      have := hs.devices j hj
      simp only [List.length_append, List.length_singleton]
      omega
    · cases hdev
      rw [hadd] at hj
      simp only [List.map_append, List.mem_append, List.map_cons, List.map_nil, List.mem_singleton] at hj
      simp only [List.length_append, List.length_singleton]
      rcases hj with hj | rfl
      · have := hs.devices j hj
        omega
      · omega
  · intro d j hd
    rcases Nat.lt_or_ge d s.devs.length with hlt | hge
    · rw [List.getElem?_append_left hlt] at hd
      exact hs.sockets hd
    · rw [List.getElem?_append_right hge] at hd
      cases hz : d - s.devs.length with
      | zero =>
          rw [hz] at hd
          cases hd
          exact hk
      | succ n =>
          rw [hz] at hd
          cases hd

theorem sound_invariant : Invariant Sound where
  start hs hr :=
    ⟨⟨(startProcess_inv hs.1 hr).1, (startProcess_allProcs whole_handled hs.2 hr).1⟩,
      fun c hc => ⟨(startProcess_inv hs.1 hr).2 c hc, (startProcess_allProcs whole_handled hs.2 hr).2 c hc⟩⟩
  call hs hr :=
    ⟨⟨(perform_inv hs.1 hr).1, (perform_allProcs whole_handled hs.2 hr).1⟩,
      fun c hc => ⟨(perform_inv hs.1 hr).2 c hc, (perform_allProcs whole_handled hs.2 hr).2 c hc⟩⟩
  net conns sockFd fds flag hs := ⟨hs.1.congr rfl rfl rfl rfl rfl, hs.2⟩
  accept hbit hs := by
    refine ⟨FdInv.added hs.1 rfl rfl (Nat.le_refl _) hs.1.devices ?_, hs.2⟩
    intro k j hk
    have hlt := hs.1.sockets hk
    simp only [withClient, List.length_append]
    omega
  device alloc hs hk := ⟨addDevice_inv hs.1 _ alloc hk, hs.2⟩

theorem sound_equipped (fs : CStr) (host : BootHost) : Sound (Boot.equipped fs host) := by
  have hprocs := Boot.equipped_procs fs host
  refine ⟨Unopened.fdInv ⟨fun v => ?_, fun pid => ?_, ?_, ?_⟩, fun p hp => ?_⟩
  · have hnone : (Boot.equipped fs host).fdEntries = [] := rfl
    simp [fdGet, hnone]
  · simp only [fdsOf, proc, hprocs]
    cases pid <;> rfl
  · rw [Boot.equipped_devices, Boot.equipped_eq]
    unfold Boot.standard
    cases host.full <;> cases host.null <;> cases host.zero <;> simp
  · intro k j hk
    have hdevs : (Boot.equipped fs host).devs = [.full, .null, .zero] := by rw [Boot.equipped_eq]
    rw [hdevs] at hk
    have hmem := List.mem_of_getElem? hk
    simp at hmem
  · rw [hprocs] at hp
    simp only [List.mem_singleton, Option.some.injEq] at hp
    exact fun hpid => absurd (by rw [hp]) hpid

/-- The search finds every live process. -/
def Found (w : World) : Prop := ∀ self own i, seen w self = some (own, i) → i ≠ none

theorem Found.joins {w u : World} {e : DistributedPlatform.Event} (hw : Found w) (hj : Joins w e u) : Found u := by
  intro self own i hseen
  rcases hj with ⟨-, hold⟩ | ⟨F, s, -, -, hnew⟩
  · rcases hold self with hnone | hsame
    · rw [hnone] at hseen
      cases hseen
    · exact hw self own i (hsame.symm.trans hseen)
  · rw [hnew] at hseen
    by_cases hself : self = F
    · subst hself
      rw [Function.update_self] at hseen
      cases hseen
      exact Option.some_ne_none _
    · rw [Function.update_of_ne hself] at hseen
      exact hw self own i hseen

/-- What is kept of the live processes and the server's table. -/
structure Callers (w : World) : Prop where
  quiet : Quiet w
  found : Found w
  positive : World.Positive w

variable {w u : World}

/-- It depends on the process table of the server and the live processes only. -/
theorem Callers.congr (hw : Callers w) (hprocs : u.server.procs = w.server.procs) (hlive : u.live = w.live) :
    Callers u where
  quiet :=
    { dummy := by rw [hprocs]; exact hw.quiet.dummy
      pids := by
        intro self hself
        have hold := hw.quiet.pids self hself
        unfold findCaller at hold ⊢
        rwa [hprocs] }
  found := by
    have hseen : seen u = seen w := by
      funext self
      unfold seen
      rw [hlive]
    intro self own i hs
    rw [hseen] at hs
    exact hw.found self own i hs
  positive := by
    intro self m hm
    rw [hlive] at hm
    exact hw.positive self m hm

theorem Callers.step {e : DistributedPlatform.Event} (hw : Callers w) (hst : World.Step w e u) : Callers u := by
  obtain ⟨hquiet, hjoins⟩ := step_seen hw.quiet hst
  exact ⟨hquiet, hw.found.joins hjoins, hw.positive.step hst⟩

theorem spawn_live_eq (hlive : u.live = w.live) (F : Int) (own : Nat) (c : Option Server) :
    (u.spawn F own c).live = (w.spawn F own c).live := by
  cases c with
  | none => exact hlive
  | some c => simp only [World.spawn, World.put, hlive]

/-- A round lets a shell join, or no process: starting it is a step of the processes. -/
theorem Callers.rounded (hw : Callers w) {t : Server} (hr : Rounded h w.server t shell)
    (hfree : shell ≠ none → w.Free h.tty.start.run.fork) :
    Callers ({ w with server := t }.spawn h.tty.start.run.fork w.server.procs.length shell) := by
  cases hr with
  | net conns fds flag => exact hw.congr rfl rfl
  | device conns hk => exact hw.congr rfl rfl
  | @start k path args r conns hk hr =>
      let w' : World :=
        { w with server := w.server.addDevice (w.server.findTty 1023 0) (.socket (some k)) h.tty.add }
      have hw' : Callers w' := hw.congr rfl rfl
      have hu := hw'.step (World.Step.start (w := w') hr hfree)
      refine hu.congr ?_ ?_
      · rw [World.spawn_server, World.spawn_server]
      · apply spawn_live_eq
        rfl

/-- **Whatever happens, the search finds every live process.** -/
theorem callers_step {t u : Platform} {e : Event} (ht : Callers t.world) (hst : Step t e u) : Callers u.world := by
  cases hst with
  | begin _ hl =>
      cases hl with
      | begin _ _ _ hp => rcases pollBegin_ok hp with ⟨-, rfl⟩ | ⟨hbit, -, rfl⟩ <;> exact ht.congr rfl rfl
  | round hl hshell hfree =>
      have hu := ht.rounded (round_rounded hl hshell) hfree
      refine hu.congr ?_ ?_
      · rw [World.spawn_server]
        rfl
      · apply spawn_live_eq
        rfl
  | program hstart hst =>
      have hu := ht.step hst
      refine hu.congr ?_ rfl
      cases hst with
      | start _ _ => cases hstart
      | call _ _ _ _ _ => rw [World.spawn_server]; rfl
      | unknown _ _ => rfl
      | ends _ => rfl

theorem callers_booted {t : Platform} (ht : Booted t) : Callers t.world := by
  obtain ⟨host, fs, initPath, port, b, hb, hret, hpos, rfl⟩ := ht
  obtain ⟨-, r, hcomes⟩ := Boot.comes_of_boot hb hret
  let w : World := { server := Boot.equipped fs host, live := fun _ => none }
  have hw : Callers w := by
    refine ⟨⟨by simp [w, Boot.equipped_procs], fun self hself => ?_⟩, ?_, ?_⟩
    · have hne : ((-1 : Int) == self) = false := by simp; omega
      simp [w, findCaller, Boot.equipped_procs, List.findIdx?_cons, hne]
    · intro self own i hs
      cases hs
    · intro self m hm
      cases hm
  have hu := hw.step (World.Step.start (w := w) hcomes.started fun _ => ⟨hpos, rfl⟩)
  refine hu.congr ?_ ?_
  · rw [World.spawn_server]
    show b.srv.procs = _
    rw [hcomes.srv]
  · show (World.spawn _ _ 1 b.init).live = _
    rw [hcomes.child]
    apply spawn_live_eq
    rfl

/-- The descriptor number a call passes, if it passes one, has a slot in the table of the process. -/
def Numbered (p : Process) : ServerOp → Prop
  | .fdRead procFd _ _ | .fdWrite procFd _ _ | .fdClose procFd => FdBounds.InTable p procFd
  | _ => True

/-- No call of a fork fails that the copy of the object needs. -/
def Copied (p : Process) (host : SysHost) : ServerOp → Prop
  | .processFork => host.fork.copy.succeeds (p.argv.getD []).length = true
  | _ => True

/-- **A fork** of a process with its strings returns exactly when its object is copied. -/
theorem fork_call {pid : Nat} {p : Process} (hp : s.proc pid = some p)
    (hstrings : p.name ≠ none ∧ p.path ≠ none ∧ p.cwd ≠ none) (host : SysHost) :
    (Copied p host .processFork → ∃ r, s.perform pid .processFork host = .ok r) ∧
    (¬ Copied p host .processFork → ∃ e, s.perform pid .processFork host = .error e) := by
  obtain ⟨hcopies, hfails⟩ := Process.forkCopy_iff hstrings host.fork.copy
  refine ⟨fun hyes => ?_, fun hno => ?_⟩
  · obtain ⟨c, hc⟩ := hcopies hyes
    unfold perform processFork
    simp only [hp, hc, bind, Except.bind]
    by_cases hf : host.fork.fork < 0
    · rw [if_pos hf]
      exact ⟨_, rfl⟩
    · rw [if_neg hf]
      exact ⟨_, rfl⟩
  · obtain ⟨e, he⟩ := hfails (Bool.eq_false_of_not_eq_true hno)
    exact ⟨e, by simp only [perform, processFork, hp, he, bind, Except.bind]⟩

/-- A call that passes a number, within the table and outside of it. -/
theorem number_call (hs : FdInv s) {pid : Nat} {p : Process} (hp : s.proc pid = some p)
    (c : FdBounds.NumberCall) (procFd : Int) (host : SysHost) :
    (FdBounds.InTable p procFd → ∃ r, s.perform pid (c.op procFd) host = .ok r) ∧
    (¬ FdBounds.InTable p procFd → s.perform pid (c.op procFd) host = .error .outOfBounds) := by
  rw [← FdBounds.NumberCall.run_eq]
  exact ⟨fun hin => (FdBounds.guarded_inTable hs hp hin c).returns host,
    fun hout => FdBounds.run_outOfBounds hp hout c host⟩

theorem bind_returns {α β : Type} {x : Eff α} {f : α → Eff β} (hx : ∃ a, x = .ok a)
    (hf : ∀ a, ∃ r, f a = .ok r) : ∃ r, (x >>= f) = .ok r := by
  obtain ⟨a, rfl⟩ := hx
  exact hf a

/-- **A system call in a sound image** returns, but for a number outside the table and a fork whose copy fails. -/
theorem perform_returns (hs : FdInv s) {pid : Nat} {p : Process} (hp : s.proc pid = some p)
    (hstrings : p.name ≠ none ∧ p.path ≠ none ∧ p.cwd ≠ none) (op : ServerOp) (host : SysHost) :
    (Numbered p op ∧ Copied p host op → ∃ r, s.perform pid op host = .ok r) ∧
    (¬ Numbered p op → s.perform pid op host = .error .outOfBounds) ∧
    (¬ Copied p host op → ∃ e, s.perform pid op host = .error e) := by
  -- a call that passes no number and forks nothing
  have hothers : ∀ {op : ServerOp}, Numbered p op → Copied p host op → (∃ r, s.perform pid op host = .ok r) →
      (Numbered p op ∧ Copied p host op → ∃ r, s.perform pid op host = .ok r) ∧
      (¬ Numbered p op → s.perform pid op host = .error .outOfBounds) ∧
      (¬ Copied p host op → ∃ e, s.perform pid op host = .error e) :=
    fun hnumbered hcopied hr => ⟨fun _ => hr, fun hno => absurd hnumbered hno, fun hno => absurd hcopied hno⟩
  have hnumber : ∀ (c : FdBounds.NumberCall) (procFd : Int),
      (FdBounds.InTable p procFd ∧ True → ∃ r, s.perform pid (c.op procFd) host = .ok r) ∧
      (¬ FdBounds.InTable p procFd → s.perform pid (c.op procFd) host = .error .outOfBounds) ∧
      (¬ True → ∃ e, s.perform pid (c.op procFd) host = .error e) := by
    intro c procFd
    obtain ⟨hin, hout⟩ := number_call hs hp c procFd host
    exact ⟨fun h => hin h.1, hout, fun hno => absurd trivial hno⟩
  cases op with
  | fdRead procFd buf count => exact hnumber (.read buf count) procFd
  | fdWrite procFd buf count => exact hnumber (.write buf count) procFd
  | fdClose procFd => exact hnumber .close procFd
  | processFork =>
      obtain ⟨hyes, hno⟩ := fork_call hp hstrings host
      exact ⟨fun h => hyes h.2, fun hno => absurd trivial hno, hno⟩
  | syscallExit status =>
      refine hothers trivial trivial (bind_returns ?_ fun a => ⟨_, rfl⟩)
      obtain ⟨r, hr, -⟩ := freed_of_inv hs hp host.exitClose
      unfold Server.syscallExit
      rw [hp]
      exact bind_returns ⟨r, hr⟩ fun a => ⟨_, rfl⟩
  | exec path argc argv =>
      exact hothers trivial trivial
        (bind_returns (Exec.syscallExec_ok hs hp hstrings.2.2 path argv host.exec host.self) fun a => ⟨_, rfl⟩)
  | getCwd buf size =>
      refine hothers trivial trivial (bind_returns ?_ fun a => ⟨_, rfl⟩)
      unfold syscallGetCwd
      rw [hp]
      dsimp only
      split
      · exact ⟨_, rfl⟩
      · split <;> exact ⟨_, rfl⟩
  | setCwd path =>
      refine hothers trivial trivial ?_
      unfold perform syscallChDir
      rw [hp]
      exact ⟨_, rfl⟩
  | fdOpenFdFromPath path flags mode =>
      refine hothers trivial trivial (bind_returns ?_ fun a => ⟨_, rfl⟩)
      obtain ⟨r, hr, -⟩ := hs.open hp path flags mode host.open_
      unfold syscallOpen
      rw [hp]
      exact ⟨r, hr⟩
  | getPid => exact hothers trivial trivial ⟨_, rfl⟩
  | realloc ptr size => exact hothers trivial trivial ⟨_, rfl⟩

/-- The entry the search finds is that of a process with the id searched for. -/
theorem proc_of_findCaller {self : Int} {pid : Nat} (hpid : s.findCaller self = some pid) :
    ∃ curr, s.proc pid = some curr ∧ curr.posixPID = self := by
  obtain ⟨hlt, hx, -⟩ := List.findIdx?_eq_some_iff_getElem.mp hpid
  have hget := List.getElem?_eq_getElem hlt
  cases hslot : s.procs[pid] with
  | none =>
      rw [hslot] at hx
      cases hx
  | some curr =>
      rw [hslot] at hx hget
      exact ⟨curr, Option.join_eq_some_iff.mpr hget, by simpa using hx⟩

theorem walking_run {t₀ t : Platform} {tr : List (Platform × Event × Platform)} (h₀ : Booted t₀)
    (hrun : Run Step t₀ tr t) : Walking t.poll := by
  refine hrun.invariant (I := fun t => Walking t.poll) (fun _ _ _ hw hst => ?_) ?_
  · cases hst with
    | begin _ hl => exact hw.step hl
    | round hl _ _ => exact hw.step hl
    | program _ _ => exact hw
  · obtain ⟨host, fs, initPath, port, b, hb, hret, -, rfl⟩ := h₀
    exact (MainLoop.unconnected_ready ((Boot.boot_exact fs initPath port host).2.2 b hb hret)).walking

/-- The server at the start of its main loop, on the answers `MainLoop.bootsOn3`. -/
def serverOn3 : Server where
  procs := [some {}, some (Boot.loaded (bytes "./container/") (bytes "/sys/init"))]
  filesystem := bytes "./container/"
  tcpSockFd := 3
  fdSetActive := FdSet.zero.insert 3 (by decide)
  devices := { entries := Boot.standard MainLoop.bootsOn3 }
  devs := [.full, .null, .zero]

/-- The image of its init program. -/
def initOn3 : Server where
  procs := [some {}, some ((Boot.loaded (bytes "./container/") (bytes "/sys/init")).started [bytes "init"] 100)]
  filesystem := bytes "./container/"
  devices := { entries := Boot.standard MainLoop.bootsOn3 }
  devs := [.full, .null, .zero]

def bootOn3 : Boot where
  ret := true
  srv := serverOn3
  init := some initOn3
  database := true
  db := [.open (some (bytes "./container/sys/database.db")) true, .exec selectDevices]

def on3 : Platform := ofBoot bootOn3 100

theorem on3_booted : BootedWith MainLoop.bootsOn3 on3 :=
  ⟨bytes "./container/", bytes "/sys/init", 51717, bootOn3, rfl, rfl, by decide, rfl⟩

/-- The server once a client on descriptor 5 has got a terminal. -/
def servedOn3 : Server :=
  { serverOn3 with
    procs := serverOn3.procs ++ [some (Boot.loaded (bytes "./container/") (bytes "/bin/shell"))]
    connections := [{ sock := 0, type := .typeTTY }]
    fdSetActive := serverOn3.fdSetActive.insert 5 (by decide)
    devices := { entries := Boot.standard MainLoop.bootsOn3 ++ [⟨bytes "tty0", 3, 0⟩] }
    devs := [.full, .null, .zero, .socket (some 0)]
    socks := [(({} : SocketTcp).listen 5).2] }

/-- The image of its shell. -/
def shellOn3 : Server :=
  { servedOn3 with
    procs := serverOn3.procs ++ [some ((Boot.loaded (bytes "./container/") (bytes "/bin/shell")).started
      [bytes "shell", bytes "/dev/tty0"] 101)]
    connections := [{ sock := 0 }] }

def tty3 : Platform where
  poll :=
    { srv := servedOn3, ready := {5}, done := [{ sock := 0, type := .typeTTY }], reads := [0], shells := [shellOn3] }
  live := Function.update on3.live 101 (some ⟨2, shellOn3⟩)

/-- The client connects, and asks for a terminal in the next poll. -/
def asksForTty : List Event :=
  [.begin {3} 5, .round { read := none, tty := ttyStarts }, .begin {5} (-1),
    .round { read := some (bytes "type tty\n"), tty := { ttyStarts with start.run.fork := 101 } }]

theorem on3_tty : ∃ tr, Run Step on3 tr tty3 ∧ tr.map (fun x => x.2.1) = asksForTty := by
  have hconnects : Run Step on3 _ _ := Run.single (i := .begin {3} 5)
    (.begin rfl (.begin rfl (by decide) ⟨by decide, by decide⟩ rfl))
  have hpasses := hconnects.tail (i := .round { read := none, tty := ttyStarts })
    (@Step.round _ _ _ none (.round (by simp) rfl) rfl fun hno => absurd rfl hno)
  have hready := hpasses.tail (i := .begin {5} (-1))
    (.begin rfl (.begin rfl (by decide) ⟨by decide, by decide⟩ rfl))
  have hasks := hready.tail (u := tty3)
    (i := .round { read := some (bytes "type tty\n"), tty := { ttyStarts with start.run.fork := 101 } })
    (@Step.round _ _ tty3.poll (some shellOn3) (.round (by simp) rfl) rfl fun _ => ⟨by decide, rfl⟩)
  exact ⟨_, hasks, rfl⟩

end Platform
end DistributedPlatform

import DistributedPlatform.Correctness.Platform
import DistributedPlatform.Correctness.TtyDevices

/-!
# `Correctness.DeviceNames` — what a device name stands for

The server registers three devices before its main loop and one for each connection that asks for a tty; a program
registers none and removes none. Each process works on a copy of the registry as it was when the process was made.

* `Registered` — the names are those of the standard devices and `tty0` to `ttyN`, and each stands for an object of its
  kind;
* `Older` — the registry of a process is an initial part of the server's;
* `names_run` — both, at any time; `device_io` — so a name opened in any process reaches the device it names.
-/

namespace DistributedPlatform
namespace DeviceNames

open Machine Server PollLoop FdTable Platform

/-! ## The registry without its counts -/

/-- The names and the objects they stand for. -/
def view (s : Server) : List (CStr × Nat) := s.devices.entries.map fun e => (e.name, e.device)

/-- The registry, the device objects, the socket objects and the container are the same but for the counts. -/
structure SameDevices (s t : Server) : Prop where
  view : view t = view s
  devs : t.devs = s.devs
  socks : t.socks = s.socks
  filesystem : t.filesystem = s.filesystem

theorem SameDevices.refl (s : Server) : SameDevices s s := ⟨rfl, rfl, rfl, rfl⟩

variable {s t : Server}

theorem start_devices {path : CStr} {args : List CStr} {host : StartHost} {r : Spawned}
    (hr : s.startProcess path args host = .ok r) : Leaves (SameDevices s) r.srv r.child := by
  obtain ⟨⟨procs, hsrv⟩, hchild⟩ := MainLoop.startProcess_only hr
  refine ⟨?_, fun c hc => ?_⟩
  · rw [hsrv]
    exact ⟨rfl, rfl, rfl, rfl⟩
  · obtain ⟨procs', rfl⟩ := hchild c hc
    exact ⟨rfl, rfl, rfl, rfl⟩

/-- Opening a path counts at most. -/
theorem open_same (hs : FdInv s) {proc : Process} {path : CStr} {flags : Int} {mode : Nat} {h : OpenHost}
    {r : FdResult} (hr : s.fdOpenFdFromPath proc path flags mode h = .ok r) : SameDevices s r.srv := by
  unfold fdOpenFdFromPath at hr
  split at hr
  · rcases fdOpenFdFromDevice_exact hs.allTyped proc (path.drop 5) flags mode h with
      ⟨-, hr'⟩ | ⟨e, -, ⟨-, hr'⟩ | ⟨-, i, entries, -, hr', -⟩⟩
    · rw [hr'] at hr
      cases hr
      exact .refl s
    · rw [hr'] at hr
      cases hr
      exact ⟨Devices.modifyCount_entries s.devices _ _ fun name device => (name, device), rfl, rfl, rfl⟩
    · rw [hr'] at hr
      cases hr
      exact ⟨Devices.modifyCount_entries s.devices _ _ fun name device => (name, device), rfl, rfl, rfl⟩
  · obtain ⟨calls, hr' | ⟨i, entries, -, hr', -⟩⟩ := fdOpenFdFromFile_cases hs.allTyped proc path flags mode h
    · rw [hr'] at hr
      cases hr
      exact .refl s
    · rw [hr'] at hr
      cases hr
      exact ⟨rfl, rfl, rfl, rfl⟩

theorem free_same (hs : FdInv s) {pid : Nat} {proc : Process} (hp : s.proc pid = some proc) {close : Nat → Int}
    {r : FdResult} (hr : s.processFree proc close = .ok r) : SameDevices s r.srv := by
  obtain ⟨r', hr', -, ⟨entries, hsrv⟩, -, -⟩ := hs.free hp close
  rw [hr'] at hr
  cases hr
  rw [hsrv]
  exact ⟨rfl, rfl, rfl, rfl⟩

/-- A close touches the sockets only through an entry for one, of which there is none. -/
theorem fdClose_same (hs : FdInv s) {proc : Process} {v closeRet : Int} {r : FdResult}
    (hr : s.fdClose proc v closeRet = .ok r) : SameDevices s r.srv := by
  cases he : s.fdGet v with
  | none =>
      rw [fdClose_of_none he] at hr
      cases hr
      exact .refl s
  | some e =>
      obtain ⟨-, hcount, hobj⟩ := hs.entry he
      rcases fdClose_cases he hcount hobj proc closeRet with ⟨-, fd, hr'⟩ | ⟨-, calls, hr'⟩
      · rw [hr'] at hr
        cases hr
        exact .refl s
      · rw [hr'] at hr
        cases hr
        exact ⟨rfl, rfl, rfl, rfl⟩

theorem close_same (hs : FdInv s) {pid : Nat} {procFd closeRet : Int} {r : FdResult}
    (hr : s.syscallClose pid procFd closeRet = .ok r) : SameDevices s r.srv := by
  unfold syscallClose at hr
  cases hp : s.proc pid with
  | none => rw [hp] at hr; cases hr
  | some curr =>
      rw [hp] at hr
      obtain ⟨v, -, hr⟩ := Eff.bind_eq_ok.mp hr
      exact fdClose_same hs hr

/-- An operation on processes or descriptors leaves the devices alone but for a count. -/
theorem imageOp_same (hs : FdInv s) {op : ImageOp} {r : Spawned} (hr : op.run s = .ok r) :
    Leaves (SameDevices s) r.srv r.child := by
  cases op with
  | «open» pid path flags mode host =>
      obtain ⟨r', hr', hr⟩ := Eff.bind_eq_ok.mp hr
      cases hr
      unfold syscallOpen at hr'
      cases hp : s.proc pid with
      | none => rw [hp] at hr'; cases hr'
      | some curr =>
          rw [hp] at hr'
          have hsame := open_same hs hr'
          exact .alone ⟨hsame.view, hsame.devs, hsame.socks, hsame.filesystem⟩
  | close pid procFd closeRet =>
      obtain ⟨r', hr', hr⟩ := Eff.bind_eq_ok.mp hr
      cases hr
      have hsame := close_same hs hr'
      exact .alone ⟨hsame.view, hsame.devs, hsame.socks, hsame.filesystem⟩
  | exec pid path argv host self =>
      rcases syscallExec_exact hr with ⟨-, rfl⟩ | ⟨curr, cwd, r', hp, -, -, hfree, rfl⟩
      · exact .alone (.refl s)
      · have hsame := free_same hs hp hfree
        exact .alone ⟨hsame.view, hsame.devs, hsame.socks, hsame.filesystem⟩
  | exit pid closeRets =>
      obtain ⟨curr, r', hp, hfree, rfl⟩ := syscallExit_cases hr
      have hsame := free_same hs hp hfree
      exact .alone ⟨hsame.view, hsame.devs, hsame.socks, hsame.filesystem⟩
  | fork pid host =>
      rcases processFork_cases hr with ⟨-, rfl⟩ | ⟨c, -, -, -, rfl⟩
      · exact .alone (.refl s)
      · exact ⟨⟨rfl, rfl, rfl, rfl⟩, by rintro c ⟨⟩; exact ⟨rfl, rfl, rfl, rfl⟩⟩
  | start path args host => exact start_devices hr

/-- **A system call leaves the devices alone** but for a count. -/
theorem perform_same (hs : FdInv s) {pid : Nat} {op : ServerOp} {host : SysHost} {r : SysResult}
    (hr : s.perform pid op host = .ok r) : Leaves (SameDevices s) r.srv r.child := by
  rcases perform_cases hr with ⟨hsrv, hchild⟩ | ⟨path, ret, hr', hchild⟩ | ⟨iop, r', hr', hsrv, hchild⟩
  · rw [hsrv, hchild]
    exact .alone (.refl s)
  · obtain ⟨curr, -, hset⟩ := syscallChDir_only hr'
    rw [hset, hchild]
    exact .alone ⟨rfl, rfl, rfl, rfl⟩
  · rw [hsrv, hchild]
    exact imageOp_same hs hr'

/-! ## The registry of a process is an initial part of the server's -/

/-- `t` has the devices and sockets of `s`, in their places, and perhaps others behind them. -/
structure Older (s t : Server) : Prop where
  view : view s <+: view t
  devs : s.devs <+: t.devs
  socks : s.socks <+: t.socks
  filesystem : t.filesystem = s.filesystem

theorem SameDevices.older (h : SameDevices s t) : Older s t where
  view := by rw [h.view]
  devs := by rw [h.devs]
  socks := by rw [h.socks]
  filesystem := h.filesystem

theorem Older.trans {u : Server} (h : Older s t) (h' : Older t u) : Older s u :=
  ⟨h.view.trans h'.view, h.devs.trans h'.devs, h.socks.trans h'.socks, h'.filesystem.trans h.filesystem⟩

/-- An image that was copied from one, and changed by calls. -/
theorem Older.same {s' : Server} (h : Older s t) (hs : SameDevices s s') : Older s' t where
  view := by rw [hs.view]; exact h.view
  devs := by rw [hs.devs]; exact h.devs
  socks := by rw [hs.socks]; exact h.socks
  filesystem := h.filesystem.trans hs.filesystem.symm

theorem addDevice_older (s : Server) (name : CStr) (device : Device) (alloc : Bool) :
    Older s (s.addDevice name device alloc) where
  view := by
    rw [Boot.addDevice_eq]
    rcases Devices.add_cases s.devices name (some s.devs.length) alloc with
      ⟨-, hadd⟩ | ⟨dev, -, -, -, hadd⟩
    · simp [view, hadd]
    · simp [view, hadd]
  devs := List.prefix_append _ _
  socks := List.prefix_rfl
  filesystem := rfl

variable {h : ReadHost} {shell : Option Server}

/-- A round adds devices at the end, and the shell it starts has those of the server. -/
theorem rounded_older (hr : Rounded h s t shell) : Older s t ∧ ∀ c, shell = some c → Older c t := by
  cases hr with
  | net conns fds flag => exact ⟨SameDevices.older ⟨rfl, rfl, rfl, rfl⟩, nofun⟩
  | @device k conns hk =>
      have hadd := addDevice_older s (s.findTty 1023 0) (.socket (some k)) h.tty.add
      exact ⟨⟨hadd.view, hadd.devs, hadd.socks, rfl⟩, nofun⟩
  | @start k path args r conns hk hr =>
      have hadd := addDevice_older s (s.findTty 1023 0) (.socket (some k)) h.tty.add
      obtain ⟨hsrv, hchild⟩ := start_devices hr
      have hold : SameDevices (s.addDevice (s.findTty 1023 0) (.socket (some k)) h.tty.add)
          { r.srv with connections := conns } := ⟨hsrv.view, hsrv.devs, hsrv.socks, hsrv.filesystem⟩
      exact ⟨hadd.trans hold.older, fun c hc => hold.older.same (hchild c hc)⟩

theorem begin_older {ready : Finset Int} {accept : Int} {p : Poll} (hp : s.pollBegin ready accept = .ok p) :
    Older s p.srv := by
  rcases pollBegin_ok hp with ⟨-, rfl⟩ | ⟨hbit, -, rfl⟩
  · exact SameDevices.older (.refl s)
  · exact ⟨List.prefix_rfl, List.prefix_rfl, List.prefix_append _ _, rfl⟩

/-- The images of the live processes, against that of the server. -/
def AllOlder (t : Platform) : Prop := ∀ self m, t.live self = some m → Older m.image t.poll.srv

/-- **Nothing the platform does breaks it.** -/
theorem allOlder_step {t u : Platform} {e : Platform.Event} (hsound : EveryImage Sound t) (ht : AllOlder t)
    (hst : Step t e u) : AllOlder u := by
  cases hst with
  | begin _ hl =>
      cases hl with
      | begin _ _ _ hp => exact fun self m hm => (ht self m hm).trans (begin_older hp)
  | round hl hshell _ =>
      obtain ⟨hserver, hnew⟩ := rounded_older (round_rounded hl hshell)
      intro self m hm
      rcases World.spawn_live hm with ⟨c, hc, -, rfl⟩ | hold
      · exact hnew c hc
      · exact (ht self m hold).trans hserver
  | program hstart hst =>
      cases hst with
      | start _ _ => cases hstart
      | call hm' _ _ hr _ =>
          obtain ⟨hsame, hchild⟩ := perform_same (hsound.image _ _ hm').1 hr
          intro self m hm
          rcases World.spawn_live hm with ⟨c, hc, -, rfl⟩ | hold
          · exact (ht _ _ hm').same (hchild c hc)
          · rcases World.returned_live hold with ⟨-, rfl⟩ | ⟨-, hold⟩
            · exact (ht _ _ hm').same hsame
            · exact ht self m hold
      | unknown _ _ => exact ht
      | ends _ => exact fun self m hm => ht self m (World.gone_live hm)

theorem allOlder_booted {t : Platform} (ht : Booted t) : AllOlder t := by
  obtain ⟨host, fs, initPath, port, b, hb, hret, -, rfl⟩ := ht
  obtain ⟨-, r, hcomes⟩ := Boot.comes_of_boot hb hret
  intro self m hm
  rcases World.spawn_live hm with ⟨c, hc, -, rfl⟩ | hold
  · rw [hcomes.child] at hc
    obtain ⟨hsrv, hchild⟩ := start_devices hcomes.started
    have hc' := hchild c hc
    show Older c b.srv
    rw [hcomes.srv]
    exact SameDevices.older ⟨hsrv.view.trans hc'.view.symm, hsrv.devs.trans hc'.devs.symm,
      hsrv.socks.trans hc'.socks.symm, hsrv.filesystem.trans hc'.filesystem.symm⟩
  · cases hold

/-! ## The names and their objects -/

/-- What the names stand for, in an image. -/
inductive Stands (s : Server) : CStr → Device → Prop
  | full : Stands s (bytes "full") .full
  | null : Stands s (bytes "null") .null
  | zero : Stands s (bytes "zero") .zero
  | tty (i : Nat) {k : Nat} : k < s.socks.length → Stands s (ttyName i) (.socket (some k))

theorem Stands.mono {name : CStr} {d : Device} (h : Stands s name d) (hsocks : s.socks.length ≤ t.socks.length) :
    Stands t name d := by
  cases h with
  | full => exact .full
  | null => exact .null
  | zero => exact .zero
  | tty i hk => exact .tty i (Nat.lt_of_lt_of_le hk hsocks)

/-- The names registered before the main loop. -/
def standardNames (host : BootHost) : List CStr := (Boot.standard host).map (·.name)

/-- The names are those of the standard devices that could be added, and of the tty devices from the first on; each
    stands for an object of its kind. -/
structure Registered (host : BootHost) (s : Server) : Prop where
  names : ∃ n ≤ 1024, (view s).map Prod.fst = standardNames host ++ (List.range n).map ttyName
  objects : ∀ x ∈ view s, ∃ d, s.devs[x.2]? = some d ∧ Stands s x.1 d

variable {host : BootHost}

theorem not_tty {name : CStr} (h : name ∈ standardNames host) : (bytes "tty").isPrefixOf name = false := by
  obtain ⟨e, he, rfl⟩ := List.mem_map.mp h
  rcases Boot.mem_standard he with rfl | rfl | rfl <;> decide

/-- Which tty names are in use. -/
theorem exists_ttyName {n : Nat}
    (h : (view s).map Prod.fst = standardNames host ++ (List.range n).map ttyName) (i : Nat) :
    s.devices.exists_ (ttyName i) = true ↔ i < n := by
  have hnames : (view s).map Prod.fst = s.devices.entries.map (·.name) := by simp [view]
  rw [Devices.exists_iff, ← List.mem_map, ← hnames, h, List.mem_append]
  constructor
  · rintro (hstd | htty)
    · have hno := not_tty hstd
      rw [ttyName_starts] at hno
      cases hno
    · obtain ⟨j, hj, hji⟩ := List.mem_map.mp htty
      rw [← ttyName_injective hji]
      exact List.mem_range.mp hj
  · exact fun hi => Or.inr (List.mem_map_of_mem (List.mem_range.mpr hi))

/-- The search ends on the next name, or on the last one it tries. -/
theorem findTty_next {n : Nat} (h : ∀ i, s.devices.exists_ (ttyName i) = true ↔ i < n) (left : Nat) :
    ∀ i ≤ n, s.findTty left i = ttyName (min n (i + left)) := by
  induction left with
  | zero =>
      intro i hi
      rw [Nat.add_zero, Nat.min_eq_right hi]
      rfl
  | succ left ih =>
      intro i hi
      unfold findTty
      by_cases hlt : i < n
      · rw [if_pos ((h i).mpr hlt), ih (i + 1) hlt, Nat.add_right_comm, Nat.add_assoc]
      · have heq : i = n := by omega
        rw [if_neg fun hused => hlt ((h i).mp hused), heq, Nat.min_eq_left (by omega)]

/-- A device is added under the next name, while there are fewer than 1024. -/
theorem registered_device (hs : Registered host s) {k : Nat} (alloc : Bool) (hk : k < s.socks.length) :
    Registered host (s.addDevice (s.findTty 1023 0) (.socket (some k)) alloc) := by
  have hold := addDevice_older s (s.findTty 1023 0) (.socket (some k)) alloc
  have hkeep : ∀ x ∈ view s, ∃ d, (s.devs ++ [Device.socket (some k)])[x.2]? = some d ∧
      Stands (s.addDevice (s.findTty 1023 0) (.socket (some k)) alloc) x.1 d := by
    intro x hx
    obtain ⟨d, hd, hstands⟩ := hs.objects x hx
    have hlt : x.2 < s.devs.length := (List.getElem?_eq_some_iff.mp hd).1
    exact ⟨d, by rw [List.getElem?_append_left hlt]; exact hd, hstands.mono hold.socks.length_le⟩
  obtain ⟨n, hn, hnames⟩ := hs.names
  have hexists := exists_ttyName hnames
  have hname : s.findTty 1023 0 = ttyName (min n (0 + 1023)) := findTty_next hexists 1023 0 (Nat.zero_le n)
  rw [Boot.addDevice_eq] at hkeep ⊢
  rcases Devices.add_cases s.devices (s.findTty 1023 0) (some s.devs.length) alloc with
    ⟨-, hadd⟩ | ⟨dev, hdev, -, hfree, hadd⟩
  · rw [hadd] at hkeep ⊢
    exact ⟨⟨n, hn, hnames⟩, hkeep⟩
  · cases hdev
    have hlt : n < 1024 := by
      by_contra hge
      have hmin : min n (0 + 1023) = 1023 := by omega
      rw [hname, hmin] at hfree
      have hused := (hexists 1023).mpr (by omega)
      rw [hfree] at hused
      cases hused
    have hmin : min n (0 + 1023) = n := by omega
    rw [hmin] at hname
    rw [hadd] at hkeep ⊢
    have hview : view { s with
          devs := s.devs ++ [.socket (some k)]
          devices := { entries := s.devices.entries ++ [⟨s.findTty 1023 0, s.devs.length, 0⟩] } } =
        view s ++ [(ttyName n, s.devs.length)] := by
      simp [view, hname]
    refine ⟨⟨n + 1, hlt, ?_⟩, ?_⟩
    · rw [hview, List.map_append, hnames, List.range_succ, List.map_append, List.append_assoc]
      rfl
    · intro x hx
      rw [hview] at hx
      rcases List.mem_append.mp hx with hx | hx
      · exact hkeep x hx
      · rw [List.mem_singleton] at hx
        rw [hx]
        exact ⟨.socket (some k), by simp, .tty n hk⟩

theorem Registered.older_socks (hs : Registered host s) (hview : view t = view s) (hdevs : t.devs = s.devs)
    (hsocks : s.socks.length ≤ t.socks.length) : Registered host t where
  names := by rw [hview]; exact hs.names
  objects := by
    intro x hx
    rw [hview] at hx
    obtain ⟨d, hd, hstands⟩ := hs.objects x hx
    exact ⟨d, by rw [hdevs]; exact hd, hstands.mono hsocks⟩

theorem Registered.same (hs : Registered host s) (h : SameDevices s t) : Registered host t :=
  hs.older_socks h.view h.devs (by rw [h.socks])

/-- **Every image keeps its names**, with linked tables. -/
theorem registered_invariant : Invariant fun s => Sound s ∧ Registered host s where
  start hs hr := by
    obtain ⟨hsrv, hchild⟩ := sound_invariant.start hs.1 hr
    obtain ⟨hsame, hsame'⟩ := start_devices hr
    exact ⟨⟨hsrv, hs.2.same hsame⟩, fun c hc => ⟨hchild c hc, hs.2.same (hsame' c hc)⟩⟩
  call hs hr := by
    obtain ⟨hsrv, hchild⟩ := sound_invariant.call hs.1 hr
    obtain ⟨hsame, hsame'⟩ := perform_same hs.1.1 hr
    exact ⟨⟨hsrv, hs.2.same hsame⟩, fun c hc => ⟨hchild c hc, hs.2.same (hsame' c hc)⟩⟩
  net conns sockFd fds flag hs := ⟨sound_invariant.net conns sockFd fds flag hs.1, hs.2.same ⟨rfl, rfl, rfl, rfl⟩⟩
  accept hbit hs := ⟨sound_invariant.accept hbit hs.1, hs.2.older_socks rfl rfl (by simp [withClient])⟩
  device alloc hs hk := ⟨sound_invariant.device alloc hs.1 hk, registered_device hs.2 alloc hk⟩

theorem registered_equipped (fs : CStr) (host : BootHost) : Registered host (Boot.equipped fs host) := by
  have hview : view (Boot.equipped fs host) = (Boot.standard host).map fun e => (e.name, e.device) := by
    simp [view, Boot.equipped_devices]
  refine ⟨⟨0, by omega, by simp [hview, standardNames]⟩, ?_⟩
  intro x hx
  rw [hview] at hx
  obtain ⟨e, he, rfl⟩ := List.mem_map.mp hx
  rcases Boot.mem_standard he with rfl | rfl | rfl
  · exact ⟨.full, rfl, .full⟩
  · exact ⟨.null, rfl, .null⟩
  · exact ⟨.zero, rfl, .zero⟩

/-- **The names, in every image and at any time**: in the server's and those of the processes they are the standard
    ones and the tty names from the first on, each for an object of its kind; and a process has the first of those the
    server has, for the same objects. -/
theorem names_run {t₀ t : Platform} {tr : List (Platform × Platform.Event × Platform)} (h₀ : BootedWith host t₀)
    (hrun : Run Step t₀ tr t) :
    EveryImage (fun s => Sound s ∧ Registered host s) t ∧ AllOlder t := by
  have hbooted := everyImage_booted registered_invariant
    (fun fs => ⟨sound_equipped fs host, registered_equipped fs host⟩) h₀
  have hboth := hrun.invariant (I := fun t => EveryImage (fun s => Sound s ∧ Registered host s) t ∧ AllOlder t)
    (fun t e u hI hst => ⟨everyImage_step registered_invariant hI.1 hst,
      allOlder_step ⟨hI.1.server.1, fun self m hm => (hI.1.image self m hm).1⟩ hI.2 hst⟩)
    ⟨hbooted, allOlder_booted ⟨host, h₀⟩⟩
  exact hboth

/-- A client connects, and asks for a tty in the next poll. -/
theorem names_run_tty :
    ∃ tr, BootedWith MainLoop.bootsOn3 on3 ∧ Run Step on3 tr tty3 ∧
      (view tty3.poll.srv).map Prod.fst = [bytes "full", bytes "null", bytes "zero", bytes "tty0"] ∧
      EveryImage (fun s => Sound s ∧ Registered MainLoop.bootsOn3 s) tty3 ∧ AllOlder tty3 := by
  obtain ⟨tr, hrun, -⟩ := on3_tty
  exact ⟨tr, on3_booted, hrun, rfl, names_run on3_booted hrun⟩

/-! ## Opening a device by its name -/

theorem Registered.distinct (hs : Registered host s) : s.devices.Distinct := by
  obtain ⟨n, -, hnames⟩ := hs.names
  have hview : s.devices.entries.map (·.name) = (view s).map Prod.fst := by simp [view]
  unfold Devices.Distinct
  rw [hview, hnames, List.nodup_append]
  refine ⟨?_, List.nodup_range.map ttyName_injective, ?_⟩
  · unfold standardNames Boot.standard
    cases host.full <;> cases host.null <;> cases host.zero <;> decide
  · rintro a ha b hb rfl
    obtain ⟨i, -, rfl⟩ := List.mem_map.mp hb
    have hno := not_tty ha
    rw [ttyName_starts] at hno
    cases hno

/-- An open that returned a number has put an entry for the device behind it. -/
theorem open_bound (hs : Sound s) (hreg : Registered host s) {pid : Nat} {name : CStr} {k : Nat}
    (hslots : ∀ curr, s.proc pid = some curr → curr.fds.length < 2 ^ 31) (hname : (name, k) ∈ view s)
    {flags : Int} {mode : Nat} {h : SysHost} {r : SysResult} {n : Int}
    (hr : s.perform pid (.fdOpenFdFromPath (bytes "/dev/" ++ name) flags mode) h = .ok r)
    (hret : r.stored = some (.int n)) (hn : n ≠ -1) :
    ∃ curr c e, r.srv.proc pid = some curr ∧ serverFd curr n = .ok c ∧ r.srv.fdGet c = some e ∧
      e.type = .fdTypeDevice k := by
  obtain ⟨r', hr', hr⟩ := Eff.bind_eq_ok.mp hr
  cases hr
  cases hret
  unfold syscallOpen at hr'
  cases hp : s.proc pid with
  | none => rw [hp] at hr'; cases hr'
  | some curr =>
      rw [hp] at hr'
      obtain ⟨r'', hr'', hinv, hcase⟩ := hs.1.open hp (bytes "/dev/" ++ name) flags mode h.open_
      change s.fdOpenFdFromPath curr (bytes "/dev/" ++ name) flags mode h.open_ = .ok r' at hr'
      rw [hr''] at hr'
      cases hr'
      rcases hcase with ⟨hfail, -⟩ | ⟨m, c, e, hm, -, hleast, -, htarget, htable⟩
      · rw [hfail] at hn
        exact absurd rfl hn
      · have honly := fdOpen_only hr''
        -- the number is that of the slot
        have hle : m ≤ curr.fds.length := by
          by_contra hgt
          refine hleast curr.fds.length (by omega) ?_
          simp [Server.table, fdsOf_eq hp]
        have hint : toI32 r'.ret = m := by
          have hlt := hslots curr hp
          rw [hm, toI32_eq_self_iff]
          constructor <;> omega
        have hproc : (r'.commit pid).proc pid = some r'.proc :=
          proc_setProc_self (by rw [honly.1]; exact lt_of_proc hp) _
        have hslot : (r'.commit pid).table.slot pid m = some c := by
          rw [htable]
          exact Indirect.Table.put_self _ _ _ _
        have hcell : (r'.commit pid).fdGet c = some e := by
          have hget : (r'.commit pid).table.cell c = some e := by
            rw [htable]
            exact Function.update_self _ _ _
          exact hget
        obtain ⟨hget, -⟩ := slot_eq_some_iff.mp hslot
        rw [fdsOf_eq hproc] at hget
        refine ⟨r'.proc, c, e, hproc, ?_, hcell, ?_⟩
        · unfold serverFd
          rw [hint, if_neg (by omega), Int.toNat_natCast, hget]
        · -- the registry has one entry of that name
          obtain ⟨x, hx, heq⟩ := List.mem_map.mp hname
          simp only [Prod.mk.injEq] at heq
          have hget' := (Devices.get_eq_some_iff hreg.distinct).mpr ⟨hx, heq.1⟩
          have hprefix : (bytes "/dev/").isPrefixOf (bytes "/dev/" ++ name) = true :=
            List.isPrefixOf_iff_prefix.mpr (List.prefix_append _ _)
          have hdrop : (bytes "/dev/" ++ name).drop 5 = name := rfl
          unfold target at htarget
          rw [if_pos hprefix, hdrop, hget'] at htarget
          exact (Option.some.inj htarget).symm.trans (congrArg FdType.fdTypeDevice heq.2)

/-- Reading and writing a device with more sockets behind those it knows. -/
theorem io_older {name : CStr} {d : Device} (hd : Stands s name d) (hold : s.socks <+: t.socks) :
    d.read t.socks = d.read s.socks ∧ d.write t.socks = d.write s.socks := by
  cases hd with
  | full => exact ⟨rfl, rfl⟩
  | null => exact ⟨rfl, rfl⟩
  | zero => exact ⟨rfl, rfl⟩
  | @tty i k hk =>
      have hget : t.socks[k]? = s.socks[k]? := by
        obtain ⟨more, hmore⟩ := hold
        rw [← hmore, List.getElem?_append_left hk]
      exact ⟨by funext max ans; simp only [Device.read, hget], by funext size ans; simp only [Device.write, hget]⟩

/-- A number that stands for a device is read and written as the device is. -/
structure IsDevice (srv : Server) (pid : Nat) (n : Int) (k : Nat) (d : Device) (socks : List SocketTcp) : Prop where
  read : ∀ buf count h, ∃ ret calls, d.read socks count h.read = .ok (ret, calls) ∧
    srv.perform pid (.fdRead n buf count) h = .ok
      { stored := some (.int (toI32 ret.nbytes)), op := some (.int ret.nbytes), srv := srv
        on := some (.fdTypeDevice k), calls := calls }
  write : ∀ buf count h, ∃ ret calls, d.write socks count h.write = .ok (ret, calls) ∧
    srv.perform pid (.fdWrite n buf count) h = .ok
      { stored := some (.int (toI32 ret)), op := some (.int ret), srv := srv
        on := some (.fdTypeDevice k), calls := calls }

theorem isDevice_of_bound {name : CStr} {k pid : Nat} {n : Int} {d : Device} (hd : s.devs[k]? = some d)
    (hstands : Stands s name d) {curr : Process} {c : Int} {e : FdEntry} (hp : s.proc pid = some curr)
    (hfd : serverFd curr n = .ok c) (he : s.fdGet c = some e) (htype : e.type = .fdTypeDevice k) :
    IsDevice s pid n k d s.socks := by
  have hsock : ∀ j, d = .socket (some j) → j < s.socks.length := by
    rintro j rfl
    cases hstands with
    | tty i hk => exact hk
  refine ⟨fun buf count h => ?_, fun buf count h => ?_⟩
  · obtain ⟨⟨ret, calls⟩, hio⟩ := Device.read_ok hsock count h.read
    refine ⟨ret, calls, hio, ?_⟩
    simp only [perform, syscallRead, hp, bind, Except.bind, hfd, fdRead, he, htype, hd, hio]
  · obtain ⟨⟨ret, calls⟩, hio⟩ := Device.write_ok hsock count h.write
    refine ⟨ret, calls, hio, ?_⟩
    simp only [perform, syscallWrite, hp, bind, Except.bind, hfd, fdWrite, he, htype, hd, hio]

/-- **A device opened by its name is the device of that name**: in every state the platform reaches, when a process
    whose slots are numbered by an `int` opens a name it knows and gets a number, reads and writes of the number are
    those of the server's own device. -/
theorem device_io {t₀ t : Platform} {tr : List (Platform × Platform.Event × Platform)} (h₀ : BootedWith host t₀)
    (hrun : Run Step t₀ tr t) {self : Int} {m : Member} (hm : t.live self = some m) {pid : Nat}
    (hslots : ∀ curr, m.image.proc pid = some curr → curr.fds.length < 2 ^ 31) {name : CStr} {k : Nat}
    (hname : (name, k) ∈ view m.image) {flags : Int} {mode : Nat} {h : SysHost} {r : SysResult} {n : Int}
    (hr : m.image.perform pid (.fdOpenFdFromPath (bytes "/dev/" ++ name) flags mode) h = .ok r)
    (hret : r.stored = some (.int n)) (hn : n ≠ -1) :
    ∃ d, (name, k) ∈ view t.poll.srv ∧ t.poll.srv.devs[k]? = some d ∧ Stands t.poll.srv name d ∧
      IsDevice r.srv pid n k d t.poll.srv.socks := by
  obtain ⟨hevery, holder⟩ := names_run h₀ hrun
  obtain ⟨hsound, hreg⟩ := hevery.image self m hm
  have hold := holder self m hm
  obtain ⟨hsame, -⟩ := perform_same hsound.1 hr
  obtain ⟨d, hd, hstands⟩ := hreg.objects _ hname
  obtain ⟨curr, c, e, hp, hfd, he, htype⟩ := open_bound hsound hreg hslots hname hr hret hn
  refine ⟨d, hold.view.subset hname, ?_, hstands.mono hold.socks.length_le, ?_⟩
  · obtain ⟨more, hmore⟩ := hold.devs
    rw [← hmore, List.getElem?_append_left (List.getElem?_eq_some_iff.mp hd).1]
    exact hd
  · have hstands' : Stands r.srv name d := hstands.mono (by rw [hsame.socks])
    have hio := isDevice_of_bound (by rw [hsame.devs]; exact hd) hstands' hp hfd he htype
    obtain ⟨hread, hwrite⟩ := io_older (t := t.poll.srv) hstands hold.socks
    refine ⟨?_, ?_⟩
    · rw [hread, ← hsame.socks]
      exact hio.read
    · rw [hwrite, ← hsame.socks]
      exact hio.write

/-- The init program opens `/dev/zero`. -/
theorem device_io_zero :
    ∃ r d, initOn3.perform 1 (.fdOpenFdFromPath (bytes "/dev/" ++ bytes "zero") 0 0) Messages.quietHost = .ok r ∧
      Stands serverOn3 (bytes "zero") d ∧ IsDevice r.srv 1 0 2 d serverOn3.socks := by
  obtain ⟨r, hr, hret⟩ : ∃ r, initOn3.perform 1 (.fdOpenFdFromPath (bytes "/dev/" ++ bytes "zero") 0 0)
      Messages.quietHost = .ok r ∧ r.stored = some (.int (toI32 0)) := ⟨_, rfl, rfl⟩
  have hzero : toI32 0 = 0 := rfl
  rw [hzero] at hret
  have hslots : ∀ curr, initOn3.proc 1 = some curr → curr.fds.length < 2 ^ 31 := by
    intro curr hcurr
    cases hcurr
    decide
  have hinit : on3.live 100 = some ⟨1, initOn3⟩ := rfl
  obtain ⟨d, -, -, hstands, hio⟩ := device_io on3_booted Run.refl hinit hslots
    (show (bytes "zero", 2) ∈ view initOn3 by decide) hr hret (by decide)
  exact ⟨r, d, hr, hstands, hio⟩

end DeviceNames
end DistributedPlatform

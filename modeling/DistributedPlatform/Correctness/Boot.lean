import DistributedPlatform.Correctness.Rounds
import DistributedPlatform.Server.Run

/-!
# `Correctness.Boot` — how a server starts

* `boot_cases` — the ways `run` can end before its main loop, and how it comes there;
* `boot_exact` — what it needs to come there, how it leaves the defined behaviour, and what the main loop starts with.
-/

namespace DistributedPlatform
namespace Boot

open Server

/-! ## The devices a server starts with -/

/-- The server once it has its file system and its devices. -/
def equipped (fs : CStr) (h : BootHost) : Server := ({ filesystem := fs } : Server).addStandardDevices h

theorem addDevice_eq (s : Server) (name : CStr) (device : Device) (alloc : Bool) :
    s.addDevice name device alloc =
      { s with devs := s.devs ++ [device], devices := (s.devices.add name (some s.devs.length) alloc).2 } := rfl

/-- Only the devices differ from those of a new server. -/
theorem equipped_eq (fs : CStr) (h : BootHost) :
    equipped fs h =
      { filesystem := fs, devs := [.full, .null, .zero], devices := (equipped fs h).devices } := rfl

theorem equipped_procs (fs : CStr) (h : BootHost) : (equipped fs h).procs = [some {}] := rfl

/-! ## Up to the main loop -/

/-- The listening socket can be had, and its bit can be set. -/
def Listens (port : Int) (h : ListenHost) : Prop :=
  0 ≤ port ∧ 0 ≤ h.socket ∧ h.socket < FD_SETSIZE ∧ 0 ≤ h.bind ∧ h.listen = 0

instance (port : Int) (h : ListenHost) : Decidable (Listens port h) :=
  inferInstanceAs (Decidable (_ ∧ _))

/-- The listening socket cannot be had. -/
def Refused (port : Int) (h : ListenHost) : Prop :=
  0 ≤ port ∧ (h.socket < 0 ∨ h.bind < 0 ∨ h.listen ≠ 0)

/-- There is no listening socket to set the bit of, or its descriptor has none. -/
def NoBit (port : Int) (h : ListenHost) : Prop :=
  port < 0 ∨ FD_SETSIZE ≤ h.socket ∧ 0 ≤ h.bind ∧ h.listen = 0

/-- The exits of `databaseLoad`, each with the calls made up to it and whether there is a database then. -/
inductive Loads (path : Option CStr) (h : DatabaseHost) : Bool → List DbCall → Prop
  | notOpened : h.open_ = false → Loads path h false [.open path false]
  | found : h.open_ = true → h.tables ≠ 0 → Loads path h true [.open path true, .exec selectDevices]
  | created : h.open_ = true → h.tables = 0 → h.create = true →
      Loads path h true [.open path true, .exec selectDevices, .exec createDevices]
  | notCreated : h.open_ = true → h.tables = 0 → h.create = false →
      Loads path h false [.open path true, .exec selectDevices, .exec createDevices, .close]

/-- The file of the database; without memory for the path the library gets `NULL`. -/
def databasePath (fs : CStr) (h : DatabaseHost) : Option CStr :=
  if h.localPath then some (fs ++ bytes "sys/database.db") else none

theorem databaseLoad_loads (s : Server) (h : DatabaseHost) :
    Loads (databasePath s.filesystem h) h (s.databaseLoad h).2.1 (s.databaseLoad h).2.2 := by
  have hpath : fileLocalPath s.filesystem (bytes "sys/database.db") h.localPath = databasePath s.filesystem h := rfl
  unfold databaseLoad
  rw [hpath]
  cases hopen : h.open_ with
  | false => exact .notOpened hopen
  | true =>
      by_cases htables : h.tables = 0
      · cases hcreate : h.create with
        | false => simpa [htables] using Loads.notCreated hopen htables hcreate
        | true => simpa [htables] using Loads.created hopen htables hcreate
      · simpa [htables] using Loads.found hopen htables

/-- `run` comes to its main loop; `r` is what starting the init program left. -/
structure Comes (fs initPath : CStr) (h : BootHost) (r : Spawned) (b : DistributedPlatform.Boot) : Prop where
  ret : b.ret = true
  started : (equipped fs h).startProcess initPath [] h.init = .ok r
  srv : b.srv = { r.srv with tcpSockFd := h.listen.socket, fdSetActive := b.srv.fdSetActive }
  active : b.srv.fdSetActive.fds = {h.listen.socket}
  child : b.init = r.child
  database : Loads (databasePath fs h.database) h.database b.database b.db

theorem tcpListen_eq (s : Server) (h : ListenHost) :
    s.tcpListen h = (decide (0 ≤ h.socket ∧ 0 ≤ h.bind ∧ h.listen = 0), { s with tcpSockFd := h.socket }) := by
  unfold tcpListen
  by_cases hsock : h.socket < 0
  · simp [hsock]
  · by_cases hbind : h.bind < 0
    · simp [hsock, hbind]
    · have h0 : 0 ≤ h.socket := by omega
      have h1 : 0 ≤ h.bind := by omega
      simp [hsock, hbind, h0, h1]

/-- `run` once the init program was started: what it makes of the listening socket. -/
def listening (port : Int) (h : ListenHost) (b : DistributedPlatform.Boot) : Eff DistributedPlatform.Boot :=
  let (listening, s) := if 0 ≤ port then b.srv.tcpListen h else (true, b.srv)
  if ¬ listening then .ok { b with srv := s }
  else do
    let fdSetActive ← FdSet.zero.set s.tcpSockFd
    .ok { b with ret := true, srv := { s with fdSetActive } }

theorem boot_eq (fs initPath : CStr) (port : Int) (h : BootHost) :
    ∃ database db, Loads (databasePath fs h.database) h.database database db ∧
      ({} : Server).boot fs initPath port h =
        ((equipped fs h).startProcess initPath [] h.init >>= fun r =>
          let b : DistributedPlatform.Boot := { ret := false, srv := r.srv, init := r.child, database, db }
          if r.ret = 0 then .ok b else listening port h.listen b) :=
  ⟨_, _, databaseLoad_loads { filesystem := fs } h.database, rfl⟩

/-- With a port the socket is made, bound and listened on; without, the descriptor stays `-1`. -/
theorem listening_cases (port : Int) (h : ListenHost) {b : DistributedPlatform.Boot}
    (hsock : b.srv.tcpSockFd = -1) (hret : b.ret = false) :
    (Refused port h ∧ ∃ b', listening port h b = .ok b' ∧ b'.ret = false) ∨
    (NoBit port h ∧ listening port h b = .error .outOfBounds) ∨
    (Listens port h ∧ ∃ active : FdSet, active.fds = {h.socket} ∧ listening port h b =
      .ok { b with ret := true, srv := { b.srv with tcpSockFd := h.socket, fdSetActive := active } }) := by
  unfold listening Refused NoBit Listens
  by_cases hport : 0 ≤ port
  · rw [if_pos hport, tcpListen_eq]
    by_cases hok : 0 ≤ h.socket ∧ 0 ≤ h.bind ∧ h.listen = 0
    · by_cases hlt : h.socket < FD_SETSIZE
      · refine Or.inr (Or.inr ⟨⟨hport, hok.1, hlt, hok.2⟩, FdSet.zero.insert h.socket ⟨hok.1, hlt⟩, rfl, ?_⟩)
        simp [hok, FdSet.set_of_hasBit .zero ⟨hok.1, hlt⟩, bind, Except.bind]
      · refine Or.inr (Or.inl ⟨Or.inr ⟨by omega, hok.2⟩, ?_⟩)
        have hbit : ¬ HasBit h.socket := fun hbit => hlt hbit.2
        simp [hok, FdSet.set_error .zero hbit, bind, Except.bind]
    · exact Or.inl ⟨⟨hport, by omega⟩, { b with srv := { b.srv with tcpSockFd := h.socket } }, by simp [hok], hret⟩
  · refine Or.inr (Or.inl ⟨Or.inl (by omega), ?_⟩)
    have hbit : ¬ HasBit b.srv.tcpSockFd := by rw [hsock]; decide
    simp [hport, FdSet.set_error .zero hbit, bind, Except.bind]

/-- The init program starts. -/
def Starts (initPath : CStr) (h : BootHost) : Prop := initPath.head? = some 47 ∧ h.init.succeeds 0 = true

/-- **The ways `run` can go** before its main loop: the init program does not start, or the listening socket cannot be
    had, and it returns false; it sets a bit that is not there; or it comes to its main loop. -/
theorem boot_cases (fs initPath : CStr) (port : Int) (h : BootHost) :
    (¬ (Starts initPath h ∧ ¬ Refused port h.listen) ∧
      ∃ b, ({} : Server).boot fs initPath port h = .ok b ∧ b.ret = false) ∨
    ((Starts initPath h ∧ NoBit port h.listen) ∧
      ({} : Server).boot fs initPath port h = .error .outOfBounds) ∨
    ((Starts initPath h ∧ Listens port h.listen) ∧
      ∃ r b, ({} : Server).boot fs initPath port h = .ok b ∧ Comes fs initPath h r b) := by
  obtain ⟨database, db, hloads, hboot⟩ := boot_eq fs initPath port h
  rw [hboot]
  obtain ⟨procs, ⟨hno, hr⟩ | ⟨hyes, procs', hr⟩⟩ :=
    startProcess_grows (s := equipped fs h) (by simp [equipped_procs]) initPath [] h.init
  · rw [hr]
    exact Or.inl ⟨fun hs => hno hs.1, _, rfl, rfl⟩
  · have hone : ((1 : Int) = 0) = False := by simp
    rw [hr]
    simp only [bind, Except.bind, hone, if_false]
    rcases listening_cases port h.listen (b := ⟨false, { equipped fs h with procs := (equipped fs h).procs ++ procs },
      some { equipped fs h with procs := procs' }, database, db⟩) rfl rfl with
      ⟨href, hb⟩ | ⟨hbit, hb⟩ | ⟨hlisten, active, hactive, hb⟩
    · exact Or.inl ⟨fun hs => hs.2 href, hb⟩
    · exact Or.inr (Or.inl ⟨⟨hyes, hbit⟩, hb⟩)
    · exact Or.inr (Or.inr ⟨⟨hyes, hlisten⟩, _, _, hb, rfl, hr, rfl, hactive, rfl, hloads⟩)

theorem comes_of_boot {fs initPath : CStr} {port : Int} {h : BootHost} {b : DistributedPlatform.Boot}
    (hb : ({} : Server).boot fs initPath port h = .ok b) (hret : b.ret = true) :
    (Starts initPath h ∧ Listens port h.listen) ∧ ∃ r, Comes fs initPath h r b := by
  rcases boot_cases fs initPath port h with ⟨-, b', hb', hret'⟩ | ⟨-, hb'⟩ | ⟨hyes, r, b', hb', hcomes⟩
  · rw [hb] at hb'
    cases hb'
    rw [hret] at hret'
    cases hret'
  · rw [hb] at hb'
    cases hb'
  · rw [hb] at hb'
    cases hb'
    exact ⟨hyes, r, hcomes⟩

/-! ## Where the main loop starts -/

/-- The devices whose name could be copied, each with the index of its object. -/
def standard (h : BootHost) : List (DeviceEntry Nat) :=
  (if h.full then [⟨bytes "full", 0, 0⟩] else []) ++ (if h.null then [⟨bytes "null", 1, 0⟩] else []) ++
    (if h.zero then [⟨bytes "zero", 2, 0⟩] else [])

theorem mem_standard {h : BootHost} {e : DeviceEntry Nat} (he : e ∈ standard h) :
    e = ⟨bytes "full", 0, 0⟩ ∨ e = ⟨bytes "null", 1, 0⟩ ∨ e = ⟨bytes "zero", 2, 0⟩ := by
  have hsingle : ∀ {b : Bool} {x : DeviceEntry Nat}, (e ∈ if b then [x] else []) → e = x := by
    intro b x hx
    split at hx
    · exact List.mem_singleton.mp hx
    · cases hx
  unfold standard at he
  rw [List.mem_append, List.mem_append] at he
  rcases he with (he | he) | he
  · exact Or.inl (hsingle he)
  · exact Or.inr (Or.inl (hsingle he))
  · exact Or.inr (Or.inr (hsingle he))

theorem equipped_devices (fs : CStr) (h : BootHost) : (equipped fs h).devices = { entries := standard h } := by
  unfold equipped addStandardDevices standard
  cases h.full <;> cases h.null <;> cases h.zero <;> rfl

/-- An image at the start: the standard devices, nothing open, and the process table. -/
structure Fresh (fs : CStr) (h : BootHost) (s : Server) (procs : List (Option Process)) : Prop where
  filesystem : s.filesystem = fs
  devs : s.devs = [.full, .null, .zero]
  devices : s.devices.entries = standard h
  entries : s.fdEntries = []
  socks : s.socks = []
  connections : s.connections = []
  stopFlag : s.stopFlag = false
  procs : s.procs = procs

/-- The init program as it was loaded. -/
def loaded (fs initPath : CStr) : Process := .ofFile (fs ++ initPath) (dirname initPath) (lastPart initPath)

/-- What starting the init program leaves. -/
theorem start_fresh {fs initPath : CStr} {h : BootHost} {r : Spawned} (hyes : Starts initPath h)
    (hr : (equipped fs h).startProcess initPath [] h.init = .ok r) :
    ∃ image, r.child = some image ∧ Fresh fs h r.srv [some {}, some (loaded fs initPath)] ∧
      Fresh fs h image [some {}, some ((loaded fs initPath).started [lastPart initPath] h.init.run.fork)] ∧
      image.tcpSockFd = -1 ∧ image.fdSetActive = .zero := by
  obtain ⟨hhead, hok⟩ := hyes
  simp only [StartHost.succeeds, Bool.and_eq_true] at hok
  have hdevices : (equipped fs h).devices.entries = standard h := by rw [equipped_devices]
  rcases startProcess_cases (s := equipped fs h) (by simp [equipped_procs]) initPath [] h.init with
    ⟨hno, -⟩ | ⟨-, hr'⟩
  · exact absurd ⟨hhead, hok.1⟩ hno
  · have hrun : h.init.run.succeeds 1 = true := hok.2
    simp only [List.length_nil, Nat.zero_add, hrun, if_true] at hr'
    rw [hr'] at hr
    cases hr
    exact ⟨_, rfl, ⟨rfl, rfl, hdevices, rfl, rfl, rfl, rfl, rfl⟩,
      ⟨rfl, rfl, hdevices, rfl, rfl, rfl, rfl, rfl⟩, rfl, rfl⟩

/-- How the main loop starts: the server has the listening socket and nothing else, the init program runs as the
    first process, and the library of the database was called up to where `databaseLoad` returned. -/
structure Ready (fs initPath : CStr) (h : BootHost) (b : DistributedPlatform.Boot) : Prop where
  socket : b.srv.tcpSockFd = h.listen.socket ∧ b.srv.fdSetActive.fds = {h.listen.socket}
  srv : Fresh fs h b.srv [some {}, some (loaded fs initPath)]
  init : ∃ image, b.init = some image ∧
    Fresh fs h image [some {}, some ((loaded fs initPath).started [lastPart initPath] h.init.run.fork)] ∧
    image.tcpSockFd = -1 ∧ image.fdSetActive = .zero ∧ image.findCaller h.init.run.fork = some 1
  database : Loads (databasePath fs h.database) h.database b.database b.db

theorem Comes.ready {fs initPath : CStr} {h : BootHost} {r : Spawned} {b : DistributedPlatform.Boot}
    (hc : Comes fs initPath h r b) (hyes : Starts initPath h) : Ready fs initPath h b := by
  obtain ⟨image, hchild, hsrv, himage, hnosock, hnobit⟩ := start_fresh hyes hc.started
  have hfork : 0 ≤ h.init.run.fork := by
    have hok := hyes.2
    simp only [StartHost.succeeds, RunHost.succeeds, Bool.and_eq_true, decide_eq_true_eq] at hok
    exact hok.2.2
  refine ⟨⟨by rw [hc.srv], hc.active⟩, ?_, ⟨image, by rw [hc.child, hchild], himage, hnosock, hnobit, ?_⟩,
    hc.database⟩
  · rw [hc.srv]
    exact ⟨hsrv.filesystem, hsrv.devs, hsrv.devices, hsrv.entries, hsrv.socks, hsrv.connections, hsrv.stopFlag,
      hsrv.procs⟩
  · have hne : ((-1 : Int) == h.init.run.fork) = false := by simp; omega
    unfold findCaller
    rw [himage.procs]
    simp [List.findIdx?_cons, Process.started, hne]

/-- **Starting a server.** `run` comes to its main loop exactly when the init program starts and the listening socket
    can be had with a descriptor below `FD_SETSIZE`, whatever becomes of the database and the devices; it leaves the
    defined behaviour exactly when the program starts and there is no bit for the descriptor, of which it makes none
    without a port; and the main loop starts with nothing but what `Ready` lists. -/
theorem boot_exact (fs initPath : CStr) (port : Int) (h : BootHost) :
    ((∃ b, ({} : Server).boot fs initPath port h = .ok b ∧ b.ret = true) ↔
      Starts initPath h ∧ Listens port h.listen) ∧
    (∀ e, ({} : Server).boot fs initPath port h = .error e ↔
      e = .outOfBounds ∧ Starts initPath h ∧ NoBit port h.listen) ∧
    ∀ b, ({} : Server).boot fs initPath port h = .ok b → b.ret = true → Ready fs initPath h b := by
  have hapart : ¬ (Listens port h.listen ∧ NoBit port h.listen) := by
    unfold Listens NoBit
    omega
  have hrefused : ¬ (Refused port h.listen ∧ (Listens port h.listen ∨ NoBit port h.listen)) := by
    unfold Refused Listens NoBit FD_SETSIZE
    omega
  refine ⟨?_, ?_, fun b hb hret => ?_⟩
  · refine ⟨fun ⟨b, hb, hret⟩ => (comes_of_boot hb hret).1, fun hyes => ?_⟩
    rcases boot_cases fs initPath port h with ⟨hno, -⟩ | ⟨hbit, -⟩ | ⟨-, r, b, hb, hcomes⟩
    · exact absurd ⟨hyes.1, fun href => hrefused ⟨href, Or.inl hyes.2⟩⟩ hno
    · exact absurd ⟨hyes.2, hbit.2⟩ hapart
    · exact ⟨b, hb, hcomes.ret⟩
  · intro e
    rcases boot_cases fs initPath port h with ⟨hno, b, hb, -⟩ | ⟨hbit, hb⟩ | ⟨hyes, r, b, hb, -⟩
    · rw [hb]
      exact iff_of_false nofun fun hyes => hno ⟨hyes.2.1, fun href => hrefused ⟨href, Or.inr hyes.2.2⟩⟩
    · rw [hb]
      exact ⟨fun he => ⟨by cases he; rfl, hbit⟩, fun he => by rw [he.1]⟩
    · rw [hb]
      exact iff_of_false nofun fun he => hapart ⟨hyes.2, he.2.2⟩
  · obtain ⟨hyes, r, hcomes⟩ := comes_of_boot hb hret
    exact hcomes.ready hyes.1

end Boot
end DistributedPlatform

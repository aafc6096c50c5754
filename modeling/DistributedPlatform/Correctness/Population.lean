import DistributedPlatform.Correctness.Views

/-!
# `Correctness.Population` — the platform is a population of clients and processes

`abs` forgets the images, the tables in them, the order of the connections and the search for the caller. It keeps of
each connection its descriptor and whether it has its terminal, and of each live process what it has of its own.

* `begin_refines`, `round_refines` — what the poll loop does, as steps of the clients;
* `program_refines` — a system call is one of the process that makes it;
* `platform_refines` — so the runs of the platform from its start on are those of a population, as long as the host
  gives a new process an id that the forking image does not record.
-/

namespace DistributedPlatform
namespace Population

open Machine Server PollLoop FdTable DeviceNames Platform Views

/-! ## The abstraction -/

/-- The clients by their descriptors, each with whether it has its terminal. -/
def clientsOf (s : Server) (fd : Int) : Option Bool :=
  (s.connections.find? fun c => s.hostFd c.sock == some fd).map fun c => decide (c.type = .typeTTY)

/-- A server among processes. -/
def ofServer (s : Server) (live : Int → Option View) : Population where
  listener := s.tcpSockFd
  clients := clientsOf s
  stopped := s.stopFlag
  devices := deviceObjs s
  next := s.procs.length
  live := live

/-- The processes by their ids, each with what it has of its own. -/
def views (live : Int → Option Member) : Int → Option View :=
  fun self => (live self).map fun m => viewOf m.image m.own

def abs (t : Platform) : Population := ofServer t.poll.srv (views t.live)

/-- What is stored for the program that makes a call. -/
def answer (t : Platform) : Platform.Event → Option RetVal
  | .program (.call self op h) =>
      (t.live self).bind fun m => (m.image.findCaller self).bind fun pid =>
        (m.image.perform pid op h).toOption.bind fun r => r.stored
  | _ => none

/-- The client that a round reads from. -/
def attended (t : Platform) : Platform.Event → Option Int
  | .round _ =>
      t.poll.rest.head?.bind fun c =>
        if t.poll.srv.isReady t.poll.ready c.sock then t.poll.srv.hostFd c.sock else none
  | _ => none

/-- A step, as it is seen in the population. -/
def label (t : Platform) (e : Platform.Event) : Label := ⟨e, answer t e, attended t e⟩

/-- The host gives a process that a program forks an id which the image of the parent does not record. -/
def NewId (t : Platform) : Platform.Event → Prop
  | .program e => Pids.NewPid t.world e
  | _ => True

/-! ## Clients -/

variable {s u : Server} {c c' : Connection} {fd : Int}

theorem clientsOf_eq_some_iff (hs : NetOk s) {b : Bool} :
    clientsOf s fd = some b ↔
      ∃ c, (c ∈ s.connections ∧ s.hostFd c.sock = some fd) ∧ decide (c.type = .typeTTY) = b := by
  unfold clientsOf
  rw [Option.map_eq_some_iff]
  constructor
  · rintro ⟨c, hc, hb⟩
    exact ⟨c, ⟨List.mem_of_find?_eq_some hc, by simpa using List.find?_some hc⟩, hb⟩
  · rintro ⟨c, ⟨hc, hfd⟩, hb⟩
    cases hfind : s.connections.find? fun c => s.hostFd c.sock == some fd with
    | none => exact absurd (beq_iff_eq.mpr hfd) (List.find?_eq_none.mp hfind c hc)
    | some c' =>
        have hfd' : s.hostFd c'.sock = some fd := by simpa using List.find?_some hfind
        have heq := hs.eq_of_hostFd hc (List.mem_of_find?_eq_some hfind) (hfd'.trans hfd.symm)
        exact ⟨c', rfl, by rw [heq]; exact hb⟩

/-- A connection is a client. -/
theorem clientsOf_mem (hs : NetOk s) (hc : c ∈ s.connections) (hfd : s.hostFd c.sock = some fd) :
    clientsOf s fd = some (decide (c.type = .typeTTY)) :=
  (clientsOf_eq_some_iff hs).mpr ⟨c, ⟨hc, hfd⟩, rfl⟩

theorem clientsOf_eq_none (h : ∀ c ∈ s.connections, s.hostFd c.sock ≠ some fd) : clientsOf s fd = none := by
  unfold clientsOf
  rw [Option.map_eq_none_iff, List.find?_eq_none]
  exact fun c hc => by simpa using h c hc

theorem clientsOf_congr (hconns : u.connections = s.connections) (hsocks : u.socks = s.socks) :
    clientsOf u = clientsOf s := by
  funext fd
  unfold clientsOf
  rw [hconns, hostFd_congr hsocks]

/-- Only the client on one descriptor changes. -/
theorem clientsOf_update (hs : NetOk s) (hu : NetOk u) {b : Option Bool} (hat : clientsOf u fd = b)
    (hothers : ∀ x fd', fd' ≠ fd →
      (x ∈ u.connections ∧ u.hostFd x.sock = some fd' ↔ x ∈ s.connections ∧ s.hostFd x.sock = some fd')) :
    clientsOf u = Function.update (clientsOf s) fd b := by
  funext fd'
  by_cases h : fd' = fd
  · rw [h, Function.update_self, hat]
  · rw [Function.update_of_ne h]
    ext b'
    simp only [clientsOf_eq_some_iff hu, clientsOf_eq_some_iff hs, hothers _ fd' h]

variable {before after : List Connection}

/-- The connections beside one, by their descriptors. -/
theorem mem_beside (hsock : c'.sock = c.sock) (hfd : s.hostFd c.sock = some fd) {x : Connection} {fd' : Int}
    (hne : fd' ≠ fd) (between : List Connection) (hbetween : ∀ y ∈ between, y = c') :
    (x ∈ before ++ (between ++ after) ∧ s.hostFd x.sock = some fd') ↔
      (x ∈ before ++ c :: after ∧ s.hostFd x.sock = some fd') := by
  refine and_congr_left fun hx => ?_
  have hother : ∀ y : Connection, y.sock = c.sock → x ≠ y := by
    rintro y hy rfl
    rw [hy, hfd] at hx
    exact hne (Option.some.inj hx).symm
  simp only [List.mem_append, List.mem_cons]
  constructor
  · rintro (h | h | h)
    · exact Or.inl h
    · exact absurd (hbetween x h) (hother c' hsock)
    · exact Or.inr (Or.inr h)
  · rintro (h | h | h)
    · exact Or.inl h
    · exact absurd h (hother c rfl)
    · exact Or.inr (Or.inr h)

/-- A connection of another type. -/
theorem clientsOf_typed (hs : NetOk s) (hu : NetOk u) (hconns : s.connections = before ++ c :: after)
    (hconns' : u.connections = before ++ c' :: after) (hsock : c'.sock = c.sock) (hsocks : u.socks = s.socks)
    (hfd : s.hostFd c.sock = some fd) :
    clientsOf u = Function.update (clientsOf s) fd (some (decide (c'.type = .typeTTY))) := by
  have hhost := hostFd_congr hsocks
  refine clientsOf_update hs hu ?_ fun x fd' hne => ?_
  · exact clientsOf_mem hu (c := c') (by rw [hconns']; simp) (by rw [hhost, hsock, hfd])
  · rw [hconns, hconns', hhost]
    exact mem_beside hsock hfd hne [c'] fun y hy => List.mem_singleton.mp hy

/-- A connection that goes. -/
theorem clientsOf_erased (hs : NetOk s) (hu : NetOk u) (hconns : s.connections = before ++ c :: after)
    (hconns' : u.connections = before ++ after) (hsocks : u.socks = s.socks) (hfd : s.hostFd c.sock = some fd) :
    clientsOf u = Function.update (clientsOf s) fd none := by
  have hhost := hostFd_congr hsocks
  have hmem : c ∈ s.connections := by rw [hconns]; simp
  have hdist : (s.connections.map fun c => s.hostFd c.sock).Nodup := by
    have hd := hs.distinct
    rwa [Server.clients, List.map_map] at hd
  refine clientsOf_update hs hu (clientsOf_eq_none fun x hx hxfd => ?_) fun x fd' hne => ?_
  · rw [hhost] at hxfd
    rw [hconns, List.map_append, List.map_cons] at hdist
    have hnodup := (List.nodup_cons.mp (List.perm_middle.nodup_iff.mp hdist)).1
    rw [← List.map_append, ← hconns', hfd, ← hxfd] at hnodup
    exact hnodup (List.mem_map_of_mem hx)
  · rw [hconns, hconns', hhost]
    exact mem_beside (rfl : c.sock = c.sock) hfd hne [] fun y hy => absurd hy List.not_mem_nil

/-- A client that connects. -/
theorem clientsOf_withClient (hs : NetOk s) {newFd : Int} (hbit : HasBit newFd) (hnew : newFd ∉ s.fdSetActive) :
    clientsOf s newFd = none ∧
      clientsOf (s.withClient newFd hbit) = Function.update (clientsOf s) newFd (some false) := by
  have hnone : ∀ c ∈ s.connections, s.hostFd c.sock ≠ some newFd := fun c hc hfd =>
    hnew ((hs.active newFd).mpr (Or.inr ⟨c.sock, List.mem_map_of_mem hc, hfd⟩))
  have hnewFd : (s.withClient newFd hbit).hostFd s.socks.length = some newFd := by
    simp [hostFd, withClient]
  have hold : ∀ c ∈ s.connections, (s.withClient newFd hbit).hostFd c.sock = s.hostFd c.sock := by
    intro c hc
    obtain ⟨sock, hsock, -⟩ := hs.tcp c.sock (List.mem_map_of_mem hc)
    have hlt := (List.getElem?_eq_some_iff.mp hsock).1
    simp only [hostFd, withClient, List.getElem?_append_left hlt]
  refine ⟨clientsOf_eq_none hnone, clientsOf_update hs (hs.withClient hbit hnew) ?_ fun x fd' hne => ?_⟩
  · exact clientsOf_mem (hs.withClient hbit hnew) (c := { sock := s.socks.length }) (by simp [withClient]) hnewFd
  · constructor
    · rintro ⟨hx, hfd⟩
      rcases List.mem_append.mp hx with hx | hx
      · exact ⟨hx, by rw [← hold x hx]; exact hfd⟩
      · rw [List.mem_singleton] at hx
        rw [hx, hnewFd] at hfd
        exact absurd (Option.some.inj hfd).symm hne
    · rintro ⟨hx, hfd⟩
      exact ⟨List.mem_append_left _ hx, by rw [hold x hx]; exact hfd⟩

/-! ## Terminals -/

/-- The search for a name ends on the first that is free, or on the last one it tries. -/
theorem findTty_first (s : Server) (left : Nat) :
    ∀ i, ∃ k, i ≤ k ∧ k ≤ i + left ∧ s.findTty left i = ttyName k ∧
      (∀ j, i ≤ j → j < k → s.devices.exists_ (ttyName j) = true) ∧
      (s.devices.exists_ (ttyName k) = true → k = i + left) := by
  induction left with
  | zero => exact fun i => ⟨i, Nat.le_refl i, Nat.le_refl i, rfl, fun j hj hlt => by omega, fun _ => rfl⟩
  | succ left ih =>
      intro i
      unfold findTty
      by_cases hused : s.devices.exists_ (ttyName i) = true
      · obtain ⟨k, hik, hk, hname, hbefore, hlast⟩ := ih (i + 1)
        refine ⟨k, by omega, by omega, by rw [if_pos hused, hname], fun j hij hjk => ?_, fun h => ?_⟩
        · rcases Nat.eq_or_lt_of_le hij with rfl | hlt
          · exact hused
          · exact hbefore j hlt hjk
        · have := hlast h
          omega
      · exact ⟨i, Nat.le_refl i, by omega, if_neg hused, fun j hj hlt => by omega, fun h => absurd h hused⟩

theorem exists_eq_false_iff (s : Server) (name : CStr) :
    s.devices.exists_ name = false ↔ s.devices.get name = none := by
  unfold Devices.exists_
  cases s.devices.get name <;> simp

variable {live : Int → Option View}

/-- The server registers a terminal under the name that is next. -/
theorem next_iff (hs : FdInv s) (hw : Wired s) {i : Nat} :
    (ofServer s live).Next i ↔ s.findTty 1023 0 = ttyName i ∧ i < 1024 ∧
      s.devices.exists_ (s.findTty 1023 0) = false ∧ ∀ k < i, s.devices.exists_ (ttyName k) = true := by
  have hnone : ∀ k, (ofServer s live).devices (ttyName k) = none ↔ s.devices.exists_ (ttyName k) = false := fun k =>
    (deviceObjs_eq_none_iff hs hw).trans (exists_eq_false_iff s _).symm
  unfold Next
  simp only [hnone, Ne, Bool.not_eq_false]
  constructor
  · rintro ⟨hi, hfree, hused⟩
    obtain ⟨k, -, hk, hname, hbefore, hlast⟩ := findTty_first s 1023 0
    have hki : k = i := by
      rcases Nat.lt_trichotomy k i with hlt | heq | hgt
      · have := hlast (hused k hlt)
        omega
      · exact heq
      · have hthere := hbefore i (Nat.zero_le i) hgt
        rw [hfree] at hthere
        cases hthere
    rw [hki] at hname
    exact ⟨hname, hi, by rw [hname]; exact hfree, hused⟩
  · rintro ⟨hname, hi, hfree, hused⟩
    rw [hname] at hfree
    exact ⟨hi, hfree, hused⟩

/-- A free name at the end of the search is the next. -/
theorem next_of_free (hs : FdInv s) (hw : Wired s) (hfree : s.devices.exists_ (s.findTty 1023 0) = false) :
    ∃ i, s.findTty 1023 0 = ttyName i ∧ (ofServer s live).Next i := by
  obtain ⟨k, -, hk, hname, hbefore, -⟩ := findTty_first s 1023 0
  exact ⟨k, hname, (next_iff hs hw).mpr
    ⟨hname, by omega, hfree, fun j hj => hbefore j (Nat.zero_le j) hj⟩⟩

/-- The devices with the new terminal. -/
theorem deviceObjs_withTty (hs : FdInv s) (hfree : s.devices.exists_ (s.findTty 1023 0) = false)
    (hfd : s.hostFd c.sock = some fd) :
    deviceObjs (s.withTty c) = Function.update (deviceObjs s) (s.findTty 1023 0) (some (.tty fd)) := by
  have hnew : deviceObj (s.withTty c) s.devs.length = some (.tty fd) := by
    have hdev : (s.withTty c).devs[s.devs.length]? = some (.socket (some c.sock)) := by simp [Server.withTty]
    have hfd' : (s.withTty c).hostFd c.sock = some fd := hfd
    unfold deviceObj
    rw [hdev, Option.bind_some]
    simp only [hfd', Option.map_some]
  have hold : ∀ e ∈ s.devices.entries, deviceObj (s.withTty c) e.device = deviceObj s e.device := fun e he =>
    deviceObj_older (t := s.withTty c) hs (List.prefix_append _ _) List.prefix_rfl
      (hs.devices _ (List.mem_map_of_mem he))
  funext name
  unfold deviceObjs
  have hget : (s.withTty c).devices.get name = (s.devices.get name).or
      (if s.findTty 1023 0 == name then some ⟨s.findTty 1023 0, s.devs.length, 0⟩ else none) := by
    rw [Devices.get_eq_find, Devices.get_eq_find]
    show (s.devices.entries ++ [_]).find? _ = _
    rw [List.find?_append, List.find?_singleton]
  rw [hget]
  by_cases hname : name = s.findTty 1023 0
  · rw [hname, (exists_eq_false_iff s _).mp hfree, Function.update_self]
    simpa using hnew
  · rw [Function.update_of_ne hname, if_neg (by simpa using Ne.symm hname), Option.or_none]
    cases he : s.devices.get name with
    | none => rfl
    | some e => exact hold e (Devices.mem_of_get he).1

/-! ## The poll loop -/

/-- What is kept of the platform from its start on. -/
structure Kept (fs : CStr) (t : Platform) : Prop where
  images : EveryImage (fun s => Sound s ∧ Wired s) t
  older : AllOlder t
  callers : Callers t.world
  attributed : Pids.Attributed t.world
  walking : Walking t.poll
  filesystem : t.poll.srv.filesystem = fs

variable {fs : CStr} {t : Platform}

theorem begin_refines (ht : Kept fs t) {ready : Finset Int} {accept : Int} {q : Poll}
    (hstop : t.poll.srv.stopFlag = false) (hl : LoopStep t.poll (.begin ready accept) q) :
    Step fs (abs t) (label t (.begin ready accept)) (abs { t with poll := q }) := by
  cases hl with
  | begin _ _ hh hp =>
      rcases pollBegin_ok hp with ⟨hno, rfl⟩ | ⟨hbit, hyes, rfl⟩
      · exact .waits hstop hno
      · obtain ⟨hnone, hclients⟩ :=
          clientsOf_withClient ht.walking.net hbit (hh.accept hyes.1 hyes.2)
        have hdevices : deviceObjs (t.poll.srv.withClient accept hbit) = deviceObjs t.poll.srv :=
          deviceObjs_older ht.images.server.1.1 rfl List.prefix_rfl (List.prefix_append _ _)
        have habs : ofServer (t.poll.srv.withClient accept hbit) (views t.live) =
            { abs t with clients := Function.update (abs t).clients accept (some false) } :=
          Population.ext rfl hclients rfl hdevices rfl rfl
        show Step fs (abs t) _ (ofServer (t.poll.srv.withClient accept hbit) (views t.live))
        rw [habs]
        exact .connects hstop hyes hnone

theorem views_put (live : Int → Option Member) (self : Int) (m : Option Member) :
    views (Function.update live self m) =
      Function.update (views live) self (m.map fun m => viewOf m.image m.own) := by
  funext q
  by_cases hq : q = self
  · simp [views, hq]
  · simp [views, hq]

theorem attended_of_ready {h : ReadHost} {rest : List Connection} (hrest : t.poll.rest = c :: rest)
    (hready : t.poll.srv.isReady t.poll.ready c.sock = true) (hfd : t.poll.srv.hostFd c.sock = some fd) :
    label t (.round h) = ⟨.round h, none, some fd⟩ := by
  simp [label, answer, attended, hrest, hready, hfd]

section Served

variable {h : ReadHost} {rest : List Connection}

theorem client_of_rest (ht : Kept fs t) (hrest : t.poll.rest = c :: rest)
    (hfd : t.poll.srv.hostFd c.sock = some fd) : (abs t).clients fd = some (decide (c.type = .typeTTY)) := by
  refine clientsOf_mem ht.walking.net ?_ hfd
  rw [ht.walking.conns, hrest]
  simp

/-- A message that asks for nothing the server does leaves the picture as it is. -/
theorem ignored_refines (ht : Kept fs t) (hrest : t.poll.rest = c :: rest)
    (hfd : t.poll.srv.hostFd c.sock = some fd) (hf : h.fails = false)
    (hwhy : commandOf h.message = .none ∨ commandOf h.message = .typeTty ∧ c.type ≠ .typeNone) :
    Step fs (abs t) ⟨.round h, none, some fd⟩ (abs t) := by
  have hclient := client_of_rest ht hrest hfd
  have hthere : (abs t).clients fd ≠ none := by rw [hclient]; nofun
  refine .ignored hthere hf ?_ fun i hgets => ?_
  · rcases hwhy with hnone | ⟨htty, -⟩
    · rw [hnone]; nofun
    · rw [htty]; nofun
  · obtain ⟨hcmd, hno, -⟩ := hgets
    rcases hwhy with hnone | ⟨-, htype⟩
    · rw [hnone] at hcmd
      cases hcmd
    · rw [hclient] at hno
      cases hct : c.type with
      | typeNone => exact htype hct
      | typeTTY => rw [hct] at hno; cases hno

/-- A name that is free is the one the client gets. -/
theorem gets_of_free (ht : Kept fs t) (hrest : t.poll.rest = c :: rest)
    (hfd : t.poll.srv.hostFd c.sock = some fd) (hcmd : commandOf h.message = .typeTty)
    (htype : c.type = .typeNone)
    (hname : t.poll.srv.devices.exists_ (t.poll.srv.findTty 1023 0) = false) (hadd : h.tty.add = true) :
    ∃ i, t.poll.srv.findTty 1023 0 = ttyName i ∧ (abs t).Gets fd h i := by
  obtain ⟨⟨hinv, -⟩, hwired⟩ : Sound t.poll.srv ∧ Wired t.poll.srv := ht.images.server
  obtain ⟨i, hi, hnext⟩ : ∃ i, t.poll.srv.findTty 1023 0 = ttyName i ∧ (abs t).Next i :=
    next_of_free hinv hwired hname
  refine ⟨i, hi, hcmd, ?_, hnext, hadd⟩
  rw [client_of_rest ht hrest hfd, htype]
  rfl

theorem not_gets_of_refused (ht : Kept fs t)
    (hwhy : t.poll.srv.devices.exists_ (t.poll.srv.findTty 1023 0) = true ∨ h.tty.add = false) {i : Nat} :
    ¬ (abs t).Gets fd h i := by
  rintro ⟨-, -, hnext, hadd⟩
  obtain ⟨⟨hinv, -⟩, hwired⟩ : Sound t.poll.srv ∧ Wired t.poll.srv := ht.images.server
  obtain ⟨-, -, hfree, -⟩ := (next_iff hinv hwired).mp hnext
  rcases hwhy with hused | hno
  · rw [hfree] at hused
    cases hused
  · rw [hadd] at hno
    cases hno

theorem deviceObjs_registered (ht : Kept fs t) (hfd : t.poll.srv.hostFd c.sock = some fd) {i : Nat}
    (hname : t.poll.srv.devices.exists_ (t.poll.srv.findTty 1023 0) = false)
    (hi : t.poll.srv.findTty 1023 0 = ttyName i) {u : Server} (hu : SameDevices (t.poll.srv.withTty c) u) :
    deviceObjs u = ((abs t).withTty fd i).devices := by
  have hinv : FdInv t.poll.srv := ht.images.server.1.1
  rw [deviceObjs_same hu, deviceObjs_withTty hinv hname hfd, hi]
  rfl

/-- The shell of a new terminal, as it is started, is the abstract one. -/
theorem shell_view (ht : Kept fs t) (hfd : t.poll.srv.hostFd c.sock = some fd) {i : Nat}
    (hname : t.poll.srv.devices.exists_ (t.poll.srv.findTty 1023 0) = false)
    (hi : t.poll.srv.findTty 1023 0 = ttyName i) {r : Spawned} {child : Server}
    (hstart : t.poll.srv.startShell c h.tty.start = .ok r) (hchild : r.child = some child) :
    viewOf child t.poll.srv.procs.length = (abs t).shell fs fd i := by
  have hdummy : (t.poll.srv.withTty c).procs ≠ [] := ht.callers.quiet.dummy
  obtain ⟨-, hshell⟩ := start_refines hdummy (by decide) hstart
  have hstarted := hshell child hchild
  rw [hi, deviceObjs_registered ht hfd hname hi (.refl _)] at hstarted
  rw [← ht.filesystem]
  exact hstarted

/-- **A message that is served** stops the server, gets the client a terminal, or does nothing. -/
theorem served_refines (ht : Kept fs t) (hrest : t.poll.rest = c :: rest)
    (hfd : t.poll.srv.hostFd c.sock = some fd) (hf : h.fails = false) {r : TcpRead}
    (hr : Served t.poll.srv c h.message h.tty r)
    (hu : NetOk { r.srv with connections := t.poll.done ++ r.con :: rest })
    (hfree : r.shell ≠ none → t.world.Free h.tty.start.run.fork) :
    Step fs (abs t) ⟨.round h, none, some fd⟩
      (ofServer { r.srv with connections := t.poll.done ++ r.con :: rest }
        (views (t.world.spawn h.tty.start.run.fork t.poll.srv.procs.length r.shell).live)) := by
  have hconns : t.poll.srv.connections = t.poll.done ++ c :: rest := by rw [ht.walking.conns, hrest]
  have hthere : (abs t).clients fd ≠ none := by rw [client_of_rest ht hrest hfd]; nofun
  cases hr with
  | ignored hwhy =>
      have hsame : ofServer { t.poll.srv with connections := t.poll.done ++ c :: rest } (views t.live) = abs t :=
        Population.ext rfl (clientsOf_congr hconns.symm rfl) rfl rfl rfl rfl
      show Step fs (abs t) _ (ofServer { t.poll.srv with connections := t.poll.done ++ c :: rest } (views t.live))
      rw [hsame]
      exact ignored_refines ht hrest hfd hf hwhy
  | stopped hcmd =>
      have hstop : ofServer { t.poll.srv with stopFlag := true, connections := t.poll.done ++ c :: rest }
          (views t.live) = { abs t with stopped := true } :=
        Population.ext rfl (clientsOf_congr hconns.symm rfl) rfl rfl rfl rfl
      show Step fs (abs t) _ (ofServer _ (views t.live))
      rw [hstop]
      exact .stops hthere hf hcmd
  | noDevice hcmd htype hwhy =>
      have hsame : ofServer { t.poll.srv with
          devs := t.poll.srv.devs ++ [.socket (some c.sock)], connections := t.poll.done ++ c :: rest }
          (views t.live) = abs t :=
        Population.ext rfl (clientsOf_congr hconns.symm rfl) rfl
          (deviceObjs_older ht.images.server.1.1 rfl (List.prefix_append _ _) List.prefix_rfl) rfl rfl
      show Step fs (abs t) _ (ofServer _ (views t.live))
      rw [hsame]
      exact .ignored hthere hf (by rw [hcmd]; nofun) fun i => not_gets_of_refused ht hwhy
  | noShell procs hcmd htype hname hadd hfails hstart =>
      obtain ⟨i, hi, hgets⟩ := gets_of_free ht hrest hfd hcmd htype hname hadd
      obtain ⟨hlen, -⟩ := start_refines (s := t.poll.srv.withTty c) ht.callers.quiet.dummy (by decide) hstart
      have hregistered : ofServer { t.poll.srv.withTty c with
          procs := t.poll.srv.procs ++ procs, connections := t.poll.done ++ c :: rest } (views t.live) =
          { (abs t).withTty fd i with
            next := if h.tty.start.load.succeeds then (abs t).next + 1 else (abs t).next } :=
        Population.ext rfl (clientsOf_congr hconns.symm rfl) rfl
          (deviceObjs_registered ht hfd hname hi ⟨rfl, rfl, rfl, rfl⟩) hlen rfl
      show Step fs (abs t) _ (ofServer _ (views t.live))
      rw [hregistered]
      exact .registers hf hgets hfails
  | tty procs procs' hcmd htype hname hadd hok hstart =>
      obtain ⟨i, hi, hgets⟩ := gets_of_free ht hrest hfd hcmd htype hname hadd
      obtain ⟨hpos, hnone⟩ := hfree (Option.some_ne_none _)
      have hload : h.tty.start.load.succeeds = true := by
        simp only [StartHost.succeeds, Bool.and_eq_true] at hok
        exact hok.1
      obtain ⟨hlen, -⟩ := start_refines (s := t.poll.srv.withTty c) ht.callers.quiet.dummy (by decide) hstart
      rw [if_pos hload] at hlen
      have hclients : clientsOf { t.poll.srv.withTty c with
          procs := t.poll.srv.procs ++ procs
          connections := t.poll.done ++ { c with type := ConnectionType.typeTTY } :: rest } =
          Function.update (abs t).clients fd (some true) :=
        clientsOf_typed ht.walking.net hu hconns rfl rfl rfl hfd
      have hlive : views (t.world.spawn h.tty.start.run.fork t.poll.srv.procs.length
          (some { t.poll.srv.withTty c with procs := procs' })).live =
          Function.update (abs t).live h.tty.start.run.fork (some ((abs t).shell fs fd i)) := by
        rw [← shell_view ht hfd hname hi hstart rfl]
        exact views_put _ _ _
      have hnone' : (abs t).live h.tty.start.run.fork = none := by
        have hnone' : t.live h.tty.start.run.fork = none := hnone
        simp [abs, ofServer, views, hnone']
      have hstarts : ofServer { t.poll.srv.withTty c with
          procs := t.poll.srv.procs ++ procs
          connections := t.poll.done ++ { c with type := ConnectionType.typeTTY } :: rest }
          (views (t.world.spawn h.tty.start.run.fork t.poll.srv.procs.length
            (some { t.poll.srv.withTty c with procs := procs' })).live) =
          { (abs t).withTty fd i with
            clients := Function.update (abs t).clients fd (some true)
            next := (abs t).next + 1
            live := Function.update (abs t).live h.tty.start.run.fork (some ((abs t).shell fs fd i)) } :=
        Population.ext rfl hclients rfl (deviceObjs_registered ht hfd hname hi ⟨rfl, rfl, rfl, rfl⟩) hlen hlive
      show Step fs (abs t) _ (ofServer _ _)
      rw [hstarts]
      exact .starts hf hgets hok hpos hnone'

end Served

theorem round_refines (ht : Kept fs t) {h : ReadHost} {q : Poll} {shell : Option Server}
    (hl : LoopStep t.poll (.round h) q) (hshell : q.shells = t.poll.shells ++ shell.toList)
    (hfree : shell ≠ none → t.world.Free h.tty.start.run.fork) :
    Step fs (abs t) (label t (.round h))
      (abs { poll := q, live := (t.world.spawn h.tty.start.run.fork t.poll.srv.procs.length shell).live }) := by
  cases hl with
  | round hne hn =>
      obtain ⟨c, rest, hrest⟩ := List.exists_cons_of_ne_nil hne
      have hconns : t.poll.srv.connections = t.poll.done ++ c :: rest := by rw [ht.walking.conns, hrest]
      have hmem : c ∈ t.poll.srv.connections := by rw [hconns]; simp
      have hnext := ht.walking.next hrest hn
      obtain ⟨sock, hsock, -⟩ := ht.walking.sock_tcp hrest
      have hfd : t.poll.srv.hostFd c.sock = some sock.sockFd := by simp [hostFd, hsock]
      rcases next_cases ht.walking hrest hn with
        ⟨hready, rfl⟩ | ⟨hready, hf, d, rest', fd, rfl, hfd', rfl⟩ | ⟨hready, hf, r, hserved, rfl⟩
      · have hnone : shell = none := Option.toList_eq_nil_iff.mp (List.self_eq_append_right.mp hshell)
        have hlabel : label t (.round h) = { event := .round h } := by
          simp [label, answer, attended, hrest, hready]
        rw [hnone, hlabel]
        exact .passes
      · have hnone : shell = none := Option.toList_eq_nil_iff.mp (List.self_eq_append_right.mp hshell)
        have hthere : (abs t).clients fd ≠ none := by
          rw [show (abs t).clients fd = _ from clientsOf_mem ht.walking.net hmem hfd']
          exact Option.some_ne_none _
        have hleft : ofServer { t.poll.srv with
            connections := t.poll.done ++ d :: rest', fdSetActive := t.poll.srv.fdSetActive.erase fd }
            (views t.live) = { abs t with clients := Function.update (abs t).clients fd none } :=
          Population.ext rfl (clientsOf_erased ht.walking.net hnext.net hconns rfl rfl hfd') rfl rfl rfl rfl
        rw [hnone, attended_of_ready hrest hready hfd']
        show Step fs (abs t) _ (ofServer _ (views t.live))
        rw [hleft]
        exact .leaves hthere hf
      · rw [shell_of_shells hshell.symm] at hfree ⊢
        rw [attended_of_ready hrest hready hfd]
        exact served_refines ht hrest hfd hf hserved hnext.net hfree

/-! ## The programs -/

/-- What is seen of the caller: the process of its own entry. -/
theorem Kept.caller (h : Kept fs t) {self : Int} {m : Member} (hm : t.live self = some m) :
    m.image.findCaller self = some m.own ∧ ∃ p, Caller m.image m.own p := by
  have hfound : m.image.findCaller self = some m.own := h.attributed self m hm
  have hself : 0 < self := h.callers.positive self m hm
  obtain ⟨⟨hinv, hprocs⟩, hwired⟩ := h.images.image self m hm
  obtain ⟨p, hp, hposix⟩ := proc_of_findCaller hfound
  exact ⟨hfound, p, hinv, hwired, hp, hprocs.proc hp (by omega)⟩

theorem Kept.filesystem_image (h : Kept fs t) {self : Int} {m : Member} (hm : t.live self = some m) :
    m.image.filesystem = fs :=
  (h.older self m hm).filesystem.symm.trans h.filesystem

theorem views_live {self : Int} {m : Member} (hm : t.live self = some m) :
    (abs t).live self = some (viewOf m.image m.own) := by
  simp [abs, ofServer, views, hm]

/-- A call that returns, but for what it forks. -/
theorem views_returned (w : World) {self : Int} {m : Member} {op : ServerOp} {image : Server}
    (hexit : op.isExit = false) :
    views (w.returned self m op image).live = Function.update (views w.live) self (some (viewOf image m.own)) := by
  unfold World.returned
  rw [hexit]
  exact views_put _ _ _

/-- **A system call** is one of the process that makes it. -/
theorem program_refines (ht : Kept fs t) {self : Int} {op : ServerOp} {h : SysHost} {m : Member} {r : SysResult}
    (hm : t.live self = some m) (hr : m.image.perform m.own op h = .ok r)
    (hfree : r.child ≠ none → t.world.Free h.fork.fork) :
    Step fs (abs t) ⟨.program (.call self op h), r.stored, none⟩
      { abs t with
        live := views ((t.world.returned self m op r.srv).spawn h.fork.fork m.image.procs.length r.child).live } := by
  obtain ⟨-, p, hcaller⟩ := ht.caller hm
  have hlive := views_live hm
  by_cases hexit : op.isExit = true
  · cases op with
    | syscallExit status =>
        obtain ⟨r', -, hr⟩ := Eff.bind_eq_ok.mp hr
        cases hr
        have hgone : views (t.world.returned self m (.syscallExit status) r'.srv).live =
            Function.update (abs t).live self none := views_put _ _ _
        show Step _ _ _ { abs t with live := views (World.returned _ _ _ _ _).live }
        rw [hgone]
        exact .exit hlive
    | _ => cases hexit
  · have hexit' : op.isExit = false := by simpa using hexit
    by_cases hfork : op = .processFork
    · subst hfork
      obtain ⟨r', hr', hr⟩ := Eff.bind_eq_ok.mp hr
      cases hr
      obtain ⟨hcopied, ⟨hneg, hret, hchild, hsrv⟩ | ⟨hnonneg, hret, hparent, c, hchild, hc⟩⟩ :=
        fork_refines hcaller hr'
      · have hback : views (t.world.returned self m .processFork r'.srv).live = (abs t).live := by
          rw [views_returned _ hexit', hsrv]
          exact (congrArg _ hlive.symm).trans (Function.update_eq_self _ _)
        have hminus : toI32 (-1) = -1 := rfl
        dsimp only
        rw [hchild, hret, hminus]
        show Step _ _ _ { abs t with live := views (World.returned _ _ _ _ _).live }
        rw [hback]
        exact .notFork hlive hcopied hneg
      · dsimp only at hfree ⊢
        rw [hchild] at hfree ⊢
        obtain ⟨hpos, hnone⟩ := hfree (Option.some_ne_none c)
        have hnone' : (abs t).live h.fork.fork = none := by
          have hnone' : t.live h.fork.fork = none := hnone
          simp [abs, ofServer, views, hnone']
        have hboth : views ((t.world.returned self m .processFork r'.srv).spawn h.fork.fork m.image.procs.length
            (some c)).live =
            Function.update (Function.update (abs t).live self
              (some { viewOf m.image m.own with next := (viewOf m.image m.own).next + 1 })) h.fork.fork
              (some ((viewOf m.image m.own).forked h.fork.copy)) := by
          rw [show views (World.spawn _ _ _ (some c)).live = _ from views_put _ _ _, views_returned _ hexit', hparent,
            ← hc]
          rfl
        have hnext : (viewOf m.image m.own).next = m.image.procs.length := rfl
        rw [hboth, hret, ← hnext]
        exact .fork hlive hcopied hpos hnone'
    · obtain ⟨hchild, hcall⟩ := call_refines hcaller hr hfork hexit'
      rw [ht.filesystem_image hm] at hcall
      rw [hchild]
      show Step _ _ _ { abs t with live := views (World.returned _ _ _ _ _).live }
      rw [views_returned _ hexit']
      exact .call hlive hcall

/-- **Each step of the platform is one of the population.** -/
theorem step_refines {u : Platform} {e : Platform.Event} (ht : Kept fs t) (hst : Platform.Step t e u) :
    Step fs (abs t) (label t e) (abs u) := by
  cases hst with
  | begin hstop hl => exact begin_refines ht hstop hl
  | round hl hshell hfree => exact round_refines ht hl hshell hfree
  | program hstart hst =>
      cases hst with
      | start _ _ => cases hstart
      | unknown hm hnone =>
          obtain ⟨hfound, -⟩ := ht.caller hm
          rw [hnone] at hfound
          cases hfound
      | @ends self m hm =>
          have hgone : abs { t with live := (t.world.put self none).live } =
              { abs t with live := Function.update (abs t).live self none } :=
            Population.ext rfl rfl rfl rfl rfl (views_put _ _ _)
          rw [hgone]
          exact .ends (views_live hm)
      | @call self op host m pid r hm hpid hself hr hfree =>
          obtain ⟨hfound, -⟩ := ht.caller hm
          have hown : pid = m.own := Option.some.inj (hpid.symm.trans hfound)
          have hlabel : label t (.program (.call self op host)) = ⟨.program (.call self op host), r.stored, none⟩ := by
            have hm' : t.live self = some m := hm
            simp [label, answer, attended, hm', hpid, hr, Except.toOption]
          rw [hlabel]
          rw [hown] at hr
          exact program_refines ht hm hr hfree

/-! ## The runs -/

/-- A shell is found at its own entry: the server records no id. -/
theorem attributed_rounded {w : World} {h : ReadHost} {shell : Option Server} (hw : Callers w)
    (ha : Pids.Attributed w) (hr : Rounded h w.server s shell) (hfree : shell ≠ none → w.Free h.tty.start.run.fork) :
    Pids.Attributed ({ w with server := s }.spawn h.tty.start.run.fork w.server.procs.length shell) := by
  cases hr with
  | net conns fds flag => exact ha
  | device conns hk => exact ha
  | @start k path args r conns hk hr =>
      let w' : World :=
        { w with server := w.server.addDevice (w.server.findTty 1023 0) (.socket (some k)) h.tty.add }
      have hw' : Callers w' := hw.congr rfl rfl
      cases hchild : r.child with
      | none => exact ha
      | some c =>
          have hpos : 0 < h.tty.start.run.fork := (hfree (by rw [hchild]; exact Option.some_ne_none c)).1
          have hnew : Pids.NewPid w' (.start path args h.tty.start) := by
            intro F s hb
            cases hb with
            | start _ _ => exact Pids.findCaller_eq_none.mp (hw'.quiet.pids _ hpos)
          have hu := Pids.attributed_step (w := w') hw'.quiet ha hnew (World.Step.start (w := w') hr hfree)
          rw [hchild] at hu
          intro self m hm
          refine hu self m ?_
          rw [← hm]
          exact congrFun (spawn_live_eq rfl _ _ _) self

/-- **Every step keeps it** when the host gives new processes ids of their own. -/
theorem kept_step {u : Platform} {e : Platform.Event} (ht : Kept fs t) (hnew : NewId t e)
    (hst : Platform.Step t e u) : Kept fs u where
  images := everyImage_step wired_invariant ht.images hst
  older := by
    refine allOlder_step ?_ ht.older hst
    exact ⟨ht.images.server.1, fun self m hm => (ht.images.image self m hm).1⟩
  callers := callers_step ht.callers hst
  attributed := by
    cases hst with
    | begin _ hl => exact ht.attributed
    | round hl hshell hfree =>
        have hu := attributed_rounded ht.callers ht.attributed (round_rounded hl hshell) hfree
        intro self m hm
        refine hu self m ?_
        rw [← hm]
        refine congrFun ?_ self
        apply spawn_live_eq
        rfl
    | program hstart hst =>
        have hu := Pids.attributed_step ht.callers.quiet ht.attributed hnew hst
        exact fun self m hm => hu self m hm
  walking := by
    cases hst with
    | begin _ hl | round hl _ _ => exact ht.walking.step hl
    | program _ _ => exact ht.walking
  filesystem := by
    cases hst with
    | begin _ hl =>
        cases hl with
        | begin _ _ _ hp => exact (begin_older hp).filesystem.trans ht.filesystem
    | round hl hshell hfree =>
        obtain ⟨hold, -⟩ := rounded_older (round_rounded hl hshell)
        exact hold.filesystem.trans ht.filesystem
    | program hstart hst => exact ht.filesystem

/-- The init program is found at its own entry: the server it was forked from records no id. -/
theorem attributed_booted (ht : Booted t) : Pids.Attributed t.world := by
  have hfound := (callers_booted ht).found
  obtain ⟨host, fs, initPath, port, b, hb, hret, hpos, rfl⟩ := ht
  obtain ⟨-, r, hcomes⟩ := Boot.comes_of_boot hb hret
  let w : World := { server := Boot.equipped fs host, live := fun _ => none }
  have hquiet : Pids.Quiet w := by
    refine ⟨by simp [w, Boot.equipped_procs], fun self hself => ?_⟩
    have hne : ((-1 : Int) == self) = false := by simp; omega
    simp [w, findCaller, Boot.equipped_procs, List.findIdx?_cons, hne]
  have hnew : Pids.NewPid w (.start initPath [] host.init) := by
    intro F s hb
    cases hb with
    | start _ _ => exact Pids.findCaller_eq_none.mp (hquiet.pids _ hpos)
  have hnone : ∀ self m, w.live self = some m → False := by
    intro self m hm
    cases hm
  have hu := Pids.attributed_step hquiet (fun self m hm => (hnone self m hm).elim) hnew
    (World.Step.start (w := w) hcomes.started fun _ => ⟨hpos, rfl⟩)
  intro self m hm
  refine hu self m ?_
  rw [← hm]
  refine congrFun ?_ self
  show _ = (World.spawn _ _ 1 b.init).live
  rw [hcomes.child]
  apply spawn_live_eq
  rfl

/-- The devices a server starts with. -/
theorem standard_devices {host : BootHost} {procs : List (Option Process)} (hs : Boot.Fresh fs host s procs)
    {name : CStr} {obj : Obj} (hobj : deviceObjs s name = some obj) : Standard name obj := by
  obtain ⟨e, he, hdevice⟩ := Option.bind_eq_some_iff.mp hobj
  obtain ⟨hmem, hname⟩ := Devices.mem_of_get he
  unfold deviceObj at hdevice
  rw [hs.devs] at hdevice
  rw [hs.devices] at hmem
  rw [← hname]
  rcases Boot.mem_standard hmem with rfl | rfl | rfl
  · cases hdevice
    exact .full
  · cases hdevice
    exact .null
  · cases hdevice
    exact .zero

/-- The platform at its start. -/
theorem booted_refines (ht : Booted t) : Kept t.poll.srv.filesystem t ∧ Init t.poll.srv.filesystem (abs t) := by
  have hcallers := callers_booted ht
  have hattributed := attributed_booted ht
  have holder := allOlder_booted ht
  have hwalking := walking_run ht Run.refl
  have himages : EveryImage (fun s => Sound s ∧ Wired s) t := by
    obtain ⟨host, ht⟩ := ht
    exact everyImage_booted wired_invariant (fun fs => ⟨sound_equipped fs host, wired_equipped fs host⟩) ht
  refine ⟨⟨himages, holder, hcallers, hattributed, hwalking, rfl⟩, ?_⟩
  obtain ⟨host, fs, initPath, port, b, hb, hret, hpos, rfl⟩ := ht
  obtain ⟨⟨hstarts, -⟩, r, hcomes⟩ := Boot.comes_of_boot hb hret
  obtain ⟨-, hsrv, -, -⟩ := hcomes.ready hstarts
  obtain ⟨c, hc, -⟩ := Boot.start_fresh hstarts hcomes.started
  obtain ⟨-, hchild⟩ := start_refines (by simp [Boot.equipped_procs]) hstarts.1 hcomes.started
  have hnames : deviceObjs b.srv = deviceObjs (Boot.equipped fs host) := by
    rw [hcomes.srv]
    have hsame := (start_devices hcomes.started).1
    exact deviceObjs_same ⟨hsame.view, hsame.devs, hsame.socks, hsame.filesystem⟩
  show Init b.srv.filesystem _
  rw [hsrv.filesystem]
  refine ⟨?_, hsrv.stopFlag, fun name obj hobj => standard_devices hsrv hobj, ?_, host.init.run.fork, initPath, hpos,
    ?_⟩
  · funext fd
    show clientsOf b.srv fd = none
    exact clientsOf_eq_none (by simp [hsrv.connections])
  · show b.srv.procs.length = 2
    rw [hsrv.procs]
    rfl
  · show views (World.spawn _ _ 1 b.init).live = _
    rw [hcomes.child, hc]
    have hinit : viewOf c 1 = .start fs initPath [] 1 (deviceObjs b.srv) := by
      rw [hnames]
      exact hchild c hc
    rw [show (abs (ofBoot b host.init.run.fork)).devices = deviceObjs b.srv from rfl, ← hinit]
    exact views_put _ _ _

/-- **The platform is a population of clients and processes.** However the clients, the programs and the host behave, as
    long as the host gives a new process an id that the image of its parent does not record: a run of the platform from
    its start is, seen through `abs`, a run of the population that begins with the init program and no client. -/
theorem platform_refines {t₀ : Platform} {tr : List (Platform × Platform.Event × Platform)} (h₀ : Booted t₀)
    (hrun : Run Platform.Step t₀ tr t) (hids : ∀ x ∈ tr, NewId x.1 x.2.1) :
    Init t₀.poll.srv.filesystem (abs t₀) ∧
      Run (Step t₀.poll.srv.filesystem) (abs t₀) (tr.map fun x => (abs x.1, label x.1 x.2.1, abs x.2.2)) (abs t) := by
  obtain ⟨hkept, hinit⟩ := booted_refines h₀
  refine ⟨hinit, (hrun.restrict hids).simulates (fun t e _ => label t e) ?_ hkept⟩
  exact fun t e u ht hst => ⟨kept_step ht hst.1 hst.2, step_refines ht hst.2⟩

theorem newId_call {self : Int} {op : ServerOp} {h : SysHost} (hop : op ≠ .processFork) :
    NewId t (.program (.call self op h)) := by
  intro F s hb
  cases hb with
  | fork _ _ _ => exact absurd rfl hop

/-- What the host answers to a shell with id 101: it writes three bytes, and forks a process with id 102. -/
def shellHost : SysHost := { Messages.quietHost with self := 101, write := 3, fork.fork := 102 }

/-- … and to its child. -/
def childHost : SysHost := { shellHost with self := 102 }

/-- A shell opens its terminal, writes to it and forks a child, which puts another program in its place. -/
theorem platform_refines_shell :
    ∃ tr tr' t, Booted on3 ∧ Run Platform.Step on3 tr tty3 ∧ Run Platform.Step tty3 tr' t ∧
      (tr'.map fun x => answer x.1 x.2.1) =
        [some (.int (toI32 0)), some (.int (toI32 3)), some (.int (toI32 3)), none, some (.int (toI32 3))] ∧
      Run (Step (bytes "./container/")) (abs on3) ((tr ++ tr').map fun x => (abs x.1, label x.1 x.2.1, abs x.2.2))
        (abs t) := by
  obtain ⟨tr, hrun, hevents⟩ := on3_tty
  have hopens : Run Platform.Step tty3 _ _ :=
    Run.single (i := .program (.call 101 (.fdOpenFdFromPath (bytes "/dev/tty0") 0 0) shellHost))
      (.program rfl (@World.Step.call _ 101 _ _ ⟨2, shellOn3⟩ 2 _ rfl rfl rfl rfl fun hno => absurd rfl hno))
  have hwrites := hopens.tail (i := .program (.call 101 (.fdWrite 0 .null 3) shellHost))
    (.program rfl (@World.Step.call _ 101 _ _ _ 2 _ rfl rfl rfl rfl fun hno => absurd rfl hno))
  have hforks := hwrites.tail (i := .program (.call 101 .processFork shellHost))
    (.program rfl (@World.Step.call _ 101 _ _ _ 2 _ rfl rfl rfl rfl fun _ => ⟨by decide, rfl⟩))
  have hexecs := hforks.tail (i := .program (.call 102 (.exec (bytes "/bin/cat") 0 []) childHost))
    (.program rfl (@World.Step.call _ 102 _ _ _ 3 _ rfl rfl rfl rfl fun hno => absurd rfl hno))
  have hasks := hexecs.tail (i := .program (.call 102 .getPid childHost))
    (.program rfl (@World.Step.call _ 102 _ _ _ 3 _ rfl rfl rfl rfl fun hno => absurd rfl hno))
  refine ⟨tr, _, _, ⟨_, on3_booted⟩, hrun, hasks, rfl, (platform_refines ⟨_, on3_booted⟩ (hrun.append hasks) ?_).2⟩
  rw [List.forall_mem_append]
  constructor
  · -- up to here nothing is forked by a program
    have hserver : ∀ e ∈ asksForTty, ∀ t, NewId t e := by
      intro e he t
      simp only [asksForTty, List.mem_cons, List.not_mem_nil, or_false] at he
      rcases he with rfl | rfl | rfl | rfl <;> trivial
    intro x hx
    exact hserver _ (hevents ▸ List.mem_map_of_mem hx) x.1
  · simp only [List.cons_append, List.nil_append, List.forall_mem_cons]
    refine ⟨newId_call nofun, newId_call nofun, ?_, newId_call nofun, newId_call nofun, List.forall_mem_nil _⟩
    intro F s hb
    cases hb with
    | fork hm _ _ =>
        cases hm
        decide

end Population
end DistributedPlatform

import DistributedPlatform.Memory
import DistributedPlatform.Server.Processes

/-!
# `Server.Tcp` — the poll loop and the command reader

`Server::tcpPoll` and `Server::tcpRead`. The loop over the connections is a state machine here: `pollBegin`
does what stands before the loop (`select`, `accept`), `pollNext` is one round of it, and `tcpPoll` runs it
to the end. A round is split at the call of `tcpRead` (`pollVisit`, then `Poll.advance` moves the
iterator), so that other parties can be let in between two rounds.

The read buffer of 1024 bytes is the list of bytes delivered: `read(2)` delivers no more than it was asked
for. The set `select` is given is an `FdSet`, and what it leaves of it the host's answer.
-/

namespace DistributedPlatform

/-- Answers to the calls of the `type tty` branch: the `malloc` of `Devices::add`, and what starting the
    shell needs. -/
structure TtyHost where
  add : Bool
  start : StartHost

/-- Answers to the calls of one `tcpRead`. -/
structure ReadHost where
  read : ReadAns
  tty : TtyHost

/-- The read delivers nothing: end of file or an error. -/
def ReadHost.fails (h : ReadHost) : Bool := decide (h.read = none ∨ h.read = some [])

/-- Answers to the calls of one `tcpPoll`; `read` answers for the connection with that socket object. -/
structure PollHost where
  select : Option (Finset Int)
  accept : Int
  read : Nat → ReadHost

/-- Result of `tcpRead`: the value returned, the server, the connection it was given, and the image of the
    shell when one was started. -/
structure TcpRead where
  ret : Bool
  srv : Server
  con : Connection
  shell : Option Server := none

/-- What a round of the loop did: the connection afterwards (`none` when it was erased), whether `tcpRead`
    was called, and the image of the shell when one was started. -/
structure Visit where
  con : Option Connection
  srv : Server
  read : Bool := false
  shell : Option Server := none

/-- The loop of `tcpPoll` between two rounds: the descriptors found ready, the connections before the
    iterator and from it on; with the sockets `tcpRead` was called on and the shells started so far. -/
structure Poll where
  srv : Server
  ready : Finset Int := ∅
  done : List Connection := []
  rest : List Connection := []
  reads : List Nat := []
  shells : List Server := []

/-! ## The command reader -/

/-- The bytes `tcpRead` removes at the end of a message. -/
def isLineEnd (b : Byte) : Bool := b == 0 || b == 10 || b == 13

/-- The `do … while` loop of `tcpRead` with `nbytes` bytes in the buffer: the last of them goes whatever it
    is, then more of them while they are line ends. -/
def trimLineEnd : (nbytes : Nat) → List Byte → List Byte
  | 0, buffer => buffer
  | n + 1, buffer =>
      let buffer := buffer.set n 0
      if 0 < n ∧ (buffer[n - 1]?).any isLineEnd then trimLineEnd n buffer else buffer

/-- The same loop on `buffer[1024]`, with its accesses checked. -/
def trimBuffer : (nbytes : Nat) → Block → Eff Block
  | 0, _ => .error .outOfBounds  -- `buffer[--nbytes]`
  | n + 1, buffer => do
      let buffer ← store buffer n 0
      if n = 0 then .ok buffer
      else do
        let b ← load buffer (n - 1)
        if isLineEnd b then trimBuffer n buffer else .ok buffer

/-- The name of a tty device. -/
def ttyName (i : Nat) : CStr := bytes "tty" ++ decimal i

namespace Server

/-- The search for a device name, at attempt `i` with `left` more to go: the first name not in use, else
    the last one tried. -/
def findTty (s : Server) : (left i : Nat) → CStr
  | 0, i => ttyName i
  -- with every name in use the loop leaves the last one in `name`, for `add` to refuse
  | left + 1, i => if s.devices.exists_ (ttyName i) then findTty s left (i + 1) else ttyName i

/-- The `tty` branch of `tcpRead`. A device that was registered stays so when a later step fails. -/
def ttyStart (s : Server) (con : Connection) (h : TtyHost) : Eff TcpRead :=
  let name := s.findTty 1023 0
  let device := s.devs.length
  let (added, devices) := s.devices.add name (some device) h.add
  let s := { s with devs := s.devs ++ [.socket (some con.sock)], devices := devices }
  if ¬ added then .ok { ret := true, srv := s, con := con }
  else do
    let r ← s.startProcess (bytes "/bin/shell") [bytes "/dev/" ++ name] h.start
    -- the type of the connection is set last, after the shell runs
    if r.ret = 0 then .ok { ret := true, srv := r.srv, con := con }
    else .ok { ret := true, srv := r.srv, con := { con with type := .typeTTY }, shell := r.child }

/-- The part of `tcpRead` under "Parse message". -/
def tcpCommand (s : Server) (con : Connection) (message : CStr) (h : TtyHost) : Eff TcpRead :=
  let ignored : TcpRead := { ret := true, srv := s, con := con }
  match strtok 32 message with
  | none => .ok ignored
  | some (part, save) =>
      if part = bytes "type" then
        -- a connection gets its type once
        if con.type ≠ .typeNone then .ok ignored
        else
          match strtok 32 save with
          | none => .ok ignored
          | some (part, _) => if part = bytes "tty" then s.ttyStart con h else .ok ignored
      else if part = bytes "stop" then .ok { ignored with srv := { s with stopFlag := true } }
      else .ok ignored

/-- `tcpRead`: end of file and errors are reported, anything else is taken as one command. -/
def tcpRead (s : Server) (con : Connection) (h : ReadHost) : Eff TcpRead :=
  match h.read with
  | none => .ok { ret := false, srv := s, con := con }
  | some [] => .ok { ret := false, srv := s, con := con }
  | some buffer => s.tcpCommand con (cstr (trimLineEnd buffer.length buffer)) h.tty

/-! ## The poll loop -/

/-- The host descriptor behind a socket object. -/
def hostFd (s : Server) (k : Nat) : Option Int := (s.socks[k]?).map (·.sockFd)

/-- The socket objects of the connections, in order. -/
def clients (s : Server) : List Nat := s.connections.map (·.sock)

/-- The descriptor of a socket object is one of those `select` found ready. -/
def isReady (s : Server) (ready : Finset Int) (k : Nat) : Bool :=
  (s.hostFd k).any fun fd => decide (fd ∈ ready)

/-- A round up to where the iterator moves: other sockets and sockets that are not ready are passed over,
    and when `tcpRead` reports an error the connection goes. -/
def pollVisit (s : Server) (ready : Finset Int) (con : Connection) (h : ReadHost) : Eff Visit :=
  match s.socks[con.sock]? with
  | none => .error .dangling
  | some sock =>
      if sock.type ≠ .typeTcp then .ok { con := some con, srv := s }
      else do
        let isSet ← fdIsSet ready sock.sockFd
        if ¬ isSet then .ok { con := some con, srv := s }
        else do
          let r ← s.tcpRead con h
          if r.ret then .ok { con := some r.con, srv := r.srv, read := true, shell := r.shell }
          else do
            -- end of file or an error: the descriptor is closed and leaves the set
            let fdSetActive ← r.srv.fdSetActive.clr sock.sockFd
            .ok { con := none, srv := { r.srv with fdSetActive }, read := true }

end Server

/-- The iterator moves on. After `erase` it already stands on the next connection, and moves on from there
    once more: that connection is passed over, and at the end of the list the step leaves the list. -/
def Poll.advance (p : Poll) (con : Connection) (rest : List Connection) (v : Visit) : Eff Poll :=
  let reads := p.reads ++ if v.read then [con.sock] else []
  let shells := p.shells ++ v.shell.toList
  match v.con, rest with
  | some con, rest =>
      .ok { p with srv := { v.srv with connections := p.done ++ con :: rest }
                   done := p.done ++ [con], rest := rest, reads := reads, shells := shells }
  | none, next :: rest =>
      .ok { p with srv := { v.srv with connections := p.done ++ next :: rest }
                   done := p.done ++ [next], rest := rest, reads := reads, shells := shells }
  | none, [] => .error .pastEnd

/-- One round of the loop. -/
def Poll.next (p : Poll) (h : Nat → ReadHost) : Eff Poll :=
  match p.rest with
  | [] => .ok p
  | con :: rest => do
      let v ← p.srv.pollVisit p.ready con (h con.sock)
      p.advance con rest v

/-- The loop. Each round shortens `rest`, so its length bounds the rounds (`Poll.run_rest`). -/
def Poll.run (h : Nat → ReadHost) : (fuel : Nat) → Poll → Eff Poll
  | 0, p => .ok p
  | fuel + 1, p =>
      match p.rest with
      | [] => .ok p
      | _ :: _ => do
          let p ← p.next h
          p.run h fuel

namespace Server

/-- A new connection on the accepted descriptor `newFd`, at the end of the list. -/
def acceptClient (s : Server) (newFd : Int) : Eff Server := do
  let fdSetActive ← s.fdSetActive.set newFd
  .ok { s with
    socks := s.socks ++ [(({} : SocketTcp).listen newFd).2]
    connections := s.connections ++ [{ sock := s.socks.length }]
    fdSetActive }

/-- `tcpPoll` before the loop. The set `fdSetRead` was filled in before `accept`, so a new socket is not
    found ready in this call. -/
def pollBegin (s : Server) (ready : Finset Int) (accept : Int) : Eff Poll := do
  let isNew ← fdIsSet ready s.tcpSockFd
  let s ← if isNew ∧ 0 ≤ accept then s.acceptClient accept else .ok s
  .ok { srv := s, ready := ready, rest := s.connections }

def tcpPoll (s : Server) (h : PollHost) : Eff Poll :=
  if s.tcpSockFd < 0 then .ok { srv := s }
  else
    match h.select with
    | none => .ok { srv := s }
    | some ready => do
        let p ← s.pollBegin ready h.accept
        p.run h.read p.rest.length

end Server

/-! ## What the operations can do -/

/-- The message in what a read delivered. -/
def ReadHost.message (h : ReadHost) : CStr :=
  match h.read with
  | none => []
  | some buffer => cstr (trimLineEnd buffer.length buffer)

/-- The command a message asks for. -/
inductive Command
  | none
  | typeTty
  | stop
  deriving DecidableEq, Repr

/-- How `tcpRead` reads a message: everything after the words it looks at is ignored, and so is any other
    message. -/
def commandOf (message : CStr) : Command :=
  match strtok 32 message with
  | .none => .none
  | some (part, save) =>
      if part = bytes "type" then
        if (strtok 32 save).any (·.1 == bytes "tty") then .typeTty else .none
      else if part = bytes "stop" then .stop
      else .none

namespace Server

/-- The server once the `tty` branch has registered a device for `con`. -/
def withTty (s : Server) (con : Connection) : Server :=
  { s with
    devs := s.devs ++ [.socket (some con.sock)]
    devices := { entries := s.devices.entries ++
      [{ name := s.findTty 1023 0, device := s.devs.length, refCount := 0 }] } }

/-- Starting the shell on the terminal registered for `con`. -/
def startShell (s : Server) (con : Connection) (h : StartHost) : Eff Spawned :=
  (s.withTty con).startProcess (bytes "/bin/shell") [bytes "/dev/" ++ s.findTty 1023 0] h

/-- How serving a message may leave the server and the connection: nothing changed; only the stop flag; only
    the devices allocated; a device registered and the shell not started; a device registered and the shell
    running. -/
inductive Served (s : Server) (con : Connection) (message : CStr) (h : TtyHost) : TcpRead → Prop
  | ignored : commandOf message = .none ∨ commandOf message = .typeTty ∧ con.type ≠ .typeNone →
      Served s con message h { ret := true, srv := s, con := con }
  | stopped : commandOf message = .stop →
      Served s con message h { ret := true, srv := { s with stopFlag := true }, con := con }
  | noDevice : commandOf message = .typeTty → con.type = .typeNone →
      s.devices.exists_ (s.findTty 1023 0) = true ∨ h.add = false →
      Served s con message h
        { ret := true, srv := { s with devs := s.devs ++ [.socket (some con.sock)] }, con := con }
  | noShell (procs : List (Option Process)) : commandOf message = .typeTty → con.type = .typeNone →
      s.devices.exists_ (s.findTty 1023 0) = false → h.add = true → h.start.succeeds 1 = false →
      s.startShell con h.start = .ok { ret := 0, srv := { s.withTty con with procs := s.procs ++ procs } } →
      Served s con message h
        { ret := true, srv := { s.withTty con with procs := s.procs ++ procs }, con := con }
  | tty (procs procs' : List (Option Process)) : commandOf message = .typeTty → con.type = .typeNone →
      s.devices.exists_ (s.findTty 1023 0) = false → h.add = true → h.start.succeeds 1 = true →
      s.startShell con h.start = .ok { ret := 1, srv := { s.withTty con with procs := s.procs ++ procs }
                                       child := some { s.withTty con with procs := procs' } } →
      Served s con message h
        { ret := true, srv := { s.withTty con with procs := s.procs ++ procs }
          con := { con with type := .typeTTY }, shell := some { s.withTty con with procs := procs' } }

theorem ttyStart_served {s : Server} (hs : s.procs ≠ []) {con : Connection} {message : CStr}
    (hmsg : commandOf message = .typeTty) (hcon : con.type = .typeNone) (h : TtyHost) :
    ∃ r, s.ttyStart con h = .ok r ∧ Served s con message h r := by
  rcases Devices.add_cases s.devices (s.findTty 1023 0) (some s.devs.length) h.add with
    ⟨hwhy, hadd⟩ | ⟨dev, hdev, halloc, hfree, hadd⟩
  · exact ⟨_, by simp [ttyStart, hadd], .noDevice hmsg hcon (by simpa using hwhy)⟩
  · cases hdev
    obtain ⟨procs, ⟨hno, hr⟩ | ⟨hyes, procs', hr⟩⟩ := startProcess_grows (s := s.withTty con) hs
      (bytes "/bin/shell") [bytes "/dev/" ++ s.findTty 1023 0] h.start
    · refine ⟨_, ?_, .noShell procs hmsg hcon hfree halloc
        (by simpa using fun hok => hno ⟨by decide, hok⟩) hr⟩
      simp only [withTty] at hr
      simp [ttyStart, hadd, hr, withTty, bind, Except.bind]
    · refine ⟨_, ?_, .tty procs procs' hmsg hcon hfree halloc (by simpa using hyes.2) hr⟩
      simp only [withTty] at hr
      simp [ttyStart, hadd, hr, withTty, bind, Except.bind]

/-- `tcpCommand` by the command in the message. -/
theorem tcpCommand_eq (s : Server) (con : Connection) (message : CStr) (h : TtyHost) :
    s.tcpCommand con message h =
      match commandOf message with
      | .none => .ok { ret := true, srv := s, con := con }
      | .typeTty =>
          if con.type ≠ .typeNone then .ok { ret := true, srv := s, con := con } else s.ttyStart con h
      | .stop => .ok { ret := true, srv := { s with stopFlag := true }, con := con } := by
  unfold tcpCommand commandOf
  cases htok : strtok 32 message with
  | none => rfl
  | some p =>
      obtain ⟨part, save⟩ := p
      dsimp only
      by_cases htype : part = bytes "type"
      · rw [if_pos htype, if_pos htype]
        cases harg : strtok 32 save with
        | none => simp
        | some q =>
            by_cases htty : q.1 = bytes "tty"
            · simp [htty]
            · simp [htty]
      · rw [if_neg htype, if_neg htype]
        by_cases hstop : part = bytes "stop"
        · rw [if_pos hstop, if_pos hstop]
        · rw [if_neg hstop, if_neg hstop]

theorem tcpCommand_served {s : Server} (hs : s.procs ≠ []) (con : Connection) (message : CStr)
    (h : TtyHost) : ∃ r, s.tcpCommand con message h = .ok r ∧ Served s con message h r := by
  rw [tcpCommand_eq]
  cases hc : commandOf message with
  | none => exact ⟨_, rfl, .ignored (Or.inl hc)⟩
  | stop => exact ⟨_, rfl, .stopped hc⟩
  | typeTty =>
      by_cases hcon : con.type = .typeNone
      · obtain ⟨r, hr, hserved⟩ := ttyStart_served hs hc hcon h
        exact ⟨r, by simpa [hcon] using hr, hserved⟩
      · exact ⟨_, by simp [hcon], .ignored (Or.inr ⟨hc, hcon⟩)⟩

/-- `tcpRead` returns false, and does nothing, exactly at end of file or on a failed read. -/
theorem tcpRead_cases {s : Server} (hs : s.procs ≠ []) (con : Connection) (h : ReadHost) :
    (h.fails = true ∧ s.tcpRead con h = .ok { ret := false, srv := s, con := con }) ∨
    (h.fails = false ∧ ∃ r, s.tcpRead con h = .ok r ∧ Served s con h.message h.tty r) := by
  unfold tcpRead ReadHost.fails ReadHost.message
  split
  · exact Or.inl ⟨by simp [*], rfl⟩
  · exact Or.inl ⟨by simp [*], rfl⟩
  · next buffer hne hread =>
      rw [hread]
      refine Or.inr ⟨?_, tcpCommand_served hs con _ h.tty⟩
      cases buffer with
      | nil => exact absurd rfl hne
      | cons b bs => simp

/-! ### What serving a message leaves alone -/

/-- The tables the poll loop walks over. -/
structure SameNet (s t : Server) : Prop where
  connections : t.connections = s.connections
  socks : t.socks = s.socks
  tcpSockFd : t.tcpSockFd = s.tcpSockFd
  fdSetActive : t.fdSetActive = s.fdSetActive
  procs : s.procs ≠ [] → t.procs ≠ []

variable {s : Server} {con : Connection} {message : CStr} {h : TtyHost} {r : TcpRead}

theorem Served.ret_eq (hr : Served s con message h r) : r.ret = true := by
  cases hr <;> rfl

theorem Served.sock_eq (hr : Served s con message h r) : r.con.sock = con.sock := by
  cases hr <;> rfl

theorem Served.sameNet (hr : Served s con message h r) : SameNet s r.srv := by
  cases hr <;> exact ⟨rfl, rfl, rfl, rfl, fun hp => by simp [hp]⟩

/-- **What a round can do**: pass over a socket that is not ready, erase the connection when nothing can be
    read from it, or serve one message. -/
theorem pollVisit_cases {s : Server} (hs : s.procs ≠ []) {con : Connection} {sock : SocketTcp}
    (hsock : s.socks[con.sock]? = some sock) (htcp : sock.type = .typeTcp) (hbit : HasBit sock.sockFd)
    (ready : Finset Int) (h : ReadHost) :
    (s.isReady ready con.sock = false ∧
      s.pollVisit ready con h = .ok { con := some con, srv := s }) ∨
    (s.isReady ready con.sock = true ∧ h.fails = true ∧ s.pollVisit ready con h =
      .ok { con := none, read := true
            srv := { s with fdSetActive := s.fdSetActive.erase sock.sockFd } }) ∨
    (s.isReady ready con.sock = true ∧ h.fails = false ∧ ∃ r, Served s con h.message h.tty r ∧
      s.pollVisit ready con h =
        .ok { con := some r.con, srv := r.srv, read := true, shell := r.shell }) := by
  have hready : s.isReady ready con.sock = decide (sock.sockFd ∈ ready) := by
    simp [isReady, hostFd, hsock]
  have hset := fdIsSet_of_hasBit ready hbit
  simp only [pollVisit, hsock, hready, htcp, hset]
  by_cases hin : sock.sockFd ∈ ready
  · rcases tcpRead_cases hs con h with ⟨hf, hr⟩ | ⟨hf, r, hr, hserved⟩
    · have hclr := FdSet.clr_of_hasBit s.fdSetActive hbit
      exact Or.inr (Or.inl ⟨by simp [hin], hf, by simp [hin, hr, hclr, bind, Except.bind]⟩)
    · exact Or.inr (Or.inr ⟨by simp [hin], hf, r, hserved,
        by simp [hin, hr, hserved.ret_eq, bind, Except.bind]⟩)
  · exact Or.inl ⟨by simp [hin], by simp [hin, bind, Except.bind]⟩

/-! ### The part before the loop -/

/-- The server once the client accepted on `newFd` is in its tables. -/
def withClient (s : Server) (newFd : Int) (hbit : HasBit newFd) : Server :=
  { s with
    socks := s.socks ++ [(({} : SocketTcp).listen newFd).2]
    connections := s.connections ++ [{ sock := s.socks.length }]
    fdSetActive := s.fdSetActive.insert newFd hbit }

theorem acceptClient_of_hasBit (s : Server) {newFd : Int} (hbit : HasBit newFd) :
    s.acceptClient newFd = .ok (s.withClient newFd hbit) := by
  unfold acceptClient
  rw [FdSet.set_of_hasBit s.fdSetActive hbit]
  rfl

theorem acceptClient_error (s : Server) {newFd : Int} (hbit : ¬ HasBit newFd) :
    s.acceptClient newFd = .error .outOfBounds := by
  unfold acceptClient
  rw [FdSet.set_error s.fdSetActive hbit]
  rfl

variable {ready : Finset Int} {accept : Int}

/-- The listening socket is ready and `accept` gives a descriptor. -/
def Accepts (s : Server) (ready : Finset Int) (accept : Int) : Prop := s.tcpSockFd ∈ ready ∧ 0 ≤ accept

instance (s : Server) (ready : Finset Int) (accept : Int) : Decidable (s.Accepts ready accept) :=
  inferInstanceAs (Decidable (_ ∧ _))

theorem pollBegin_eq (hlisten : HasBit s.tcpSockFd) :
    s.pollBegin ready accept =
      if s.Accepts ready accept then
        s.acceptClient accept >>= fun t => .ok { srv := t, ready, rest := t.connections }
      else .ok { srv := s, ready, rest := s.connections } := by
  unfold pollBegin Accepts
  rw [fdIsSet_of_hasBit ready hlisten]
  by_cases h : s.tcpSockFd ∈ ready ∧ 0 ≤ accept
  · simp [h, bind, Except.bind]
  · simp [h, bind, Except.bind]

/-- **What stands before the loop** accepts a client, if there is one, and writes outside of the set when its
    descriptor has no bit. -/
theorem pollBegin_cases (hlisten : HasBit s.tcpSockFd) (ready : Finset Int) (accept : Int) :
    (¬ s.Accepts ready accept ∧ s.pollBegin ready accept = .ok { srv := s, ready, rest := s.connections }) ∨
    (∃ hbit : HasBit accept, s.Accepts ready accept ∧ s.pollBegin ready accept =
      .ok { srv := s.withClient accept hbit, ready, rest := (s.withClient accept hbit).connections }) ∨
    (s.Accepts ready accept ∧ FD_SETSIZE ≤ accept ∧ s.pollBegin ready accept = .error .outOfBounds) := by
  rw [pollBegin_eq hlisten]
  by_cases hnew : s.Accepts ready accept
  · rw [if_pos hnew]
    by_cases hbit : HasBit accept
    · refine Or.inr (Or.inl ⟨hbit, hnew, ?_⟩)
      rw [acceptClient_of_hasBit s hbit]
      rfl
    · have hbig : FD_SETSIZE ≤ accept := by
        by_contra hlt
        exact hbit ⟨hnew.2, by omega⟩
      refine Or.inr (Or.inr ⟨hnew, hbig, ?_⟩)
      rw [acceptClient_error s hbit]
      rfl
  · exact Or.inl ⟨hnew, if_neg hnew⟩

theorem pollBegin_ok {p : Poll} (hp : s.pollBegin ready accept = .ok p) :
    (¬ s.Accepts ready accept ∧ p = { srv := s, ready, rest := s.connections }) ∨
    (∃ hbit : HasBit accept, s.Accepts ready accept ∧
      p = { srv := s.withClient accept hbit, ready, rest := (s.withClient accept hbit).connections }) := by
  have hlisten : HasBit s.tcpSockFd := by
    by_contra hno
    unfold pollBegin fdIsSet at hp
    rw [if_neg hno] at hp
    cases hp
  rcases pollBegin_cases hlisten ready accept with ⟨hno, h⟩ | ⟨hbit, hyes, h⟩ | ⟨-, -, h⟩
  · rw [hp] at h
    exact Or.inl ⟨hno, Except.ok.inj h⟩
  · rw [hp] at h
    exact Or.inr ⟨hbit, hyes, Except.ok.inj h⟩
  · rw [hp] at h
    cases h

end Server

end DistributedPlatform

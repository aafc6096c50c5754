import DistributedPlatform.Server.Tcp

/-!
# `Server.Run` — a server from its start to its end

`Server::run`: what it does before the main loop (`boot`), the main loop as calls of `tcpPoll` (`mainLoop`), and what it
does behind it (`finish`); `run` is the three together. What it logs is left out. The database is opened and closed and
never read; its library is the host's, and of its handle only whether there is one is kept.
-/

namespace DistributedPlatform

/-- Calls of the database library. -/
inductive DbCall
  | open (path : Option CStr) (ok : Bool)
  | exec (sql : CStr)
  | close
  deriving DecidableEq, Repr

/-- Answers to the calls of `databaseLoad`: the `malloc` of the path, the opening, how many tables of the name are
    found, and the creation of one. -/
structure DatabaseHost where
  localPath : Bool
  open_ : Bool
  tables : Nat
  create : Bool
  deriving DecidableEq, Repr

/-- Answers to the calls of `tcpListen`. -/
structure ListenHost where
  socket : Int
  bind : Int
  listen : Int
  deriving DecidableEq, Repr

/-- Answers to the calls made before the main loop: the database, the `malloc` for the name of each standard device,
    the start of the init program, and the listening socket. -/
structure BootHost where
  database : DatabaseHost
  full : Bool
  null : Bool
  zero : Bool
  init : StartHost
  listen : ListenHost

/-- How `run` stands when it comes to its main loop, or returns before it: the server, the image of the init program,
    and the database, with the calls made of its library. -/
structure Boot where
  ret : Bool
  srv : Server
  init : Option Server := none
  database : Bool := false
  db : List DbCall := []

/-- The listing of the tables, and the creation of the one looked for. -/
def selectDevices : CStr := bytes "SELECT name FROM sqlite_master WHERE type='table' AND name='DEVICES';"

def createDevices : CStr := bytes "CREATE TABLE DEVICES(ID INT PRIMARY KEY NOT NULL, NAME TEXT NOT NULL);"

namespace Server

/-! ## Before the main loop -/

/-- `databaseLoad`: what it returns, whether `database` is set, and the calls. -/
def databaseLoad (s : Server) (h : DatabaseHost) : Bool × Bool × List DbCall :=
  let localPath := fileLocalPath s.filesystem (bytes "sys/database.db") h.localPath
  if ¬ h.open_ then (false, false, [.open localPath false])
  else
    let calls := [.open localPath true, .exec selectDevices]
    if h.tables = 0 then
      -- a database in which the table cannot be made is closed again
      if ¬ h.create then (false, false, calls ++ [.exec createDevices, .close])
      else (true, true, calls ++ [.exec createDevices])
    else (true, true, calls)

/-- `devices.add(name, new Device…())`; that the device was not added is only logged. -/
def addDevice (s : Server) (name : CStr) (device : Device) (alloc : Bool) : Server :=
  { s with
    devs := s.devs ++ [device]
    devices := (s.devices.add name (some s.devs.length) alloc).2 }

/-- "Add standard devices." -/
def addStandardDevices (s : Server) (h : BootHost) : Server :=
  let s := s.addDevice (bytes "full") .full h.full
  let s := s.addDevice (bytes "null") .null h.null
  s.addDevice (bytes "zero") .zero h.zero

/-- `tcpListen`: a socket that cannot be bound or listened on is kept in `tcpSockFd`. -/
def tcpListen (s : Server) (h : ListenHost) : Bool × Server :=
  let s := { s with tcpSockFd := h.socket }
  if h.socket < 0 then (false, s)
  else if h.bind < 0 then (false, s)
  else (decide (h.listen = 0), s)

/-- `run` up to its main loop. -/
def boot (s : Server) (fs initPath : CStr) (port : Int) (h : BootHost) : Eff Boot := do
  let s := { s with filesystem := fs }
  let (_, database, db) := s.databaseLoad h.database
  let s := s.addStandardDevices h
  let r ← s.startProcess initPath [] h.init
  let boot : Boot := { ret := false, srv := r.srv, init := r.child, database, db }
  if r.ret = 0 then .ok boot
  else
    let (listening, s) := if 0 ≤ port then r.srv.tcpListen h.listen else (true, r.srv)
    if ¬ listening then .ok { boot with srv := s }
    else do
      -- without a port this sets the bit of descriptor -1
      let fdSetActive ← FdSet.zero.set s.tcpSockFd
      .ok { boot with ret := true, srv := { s with fdSetActive } }

/-! ## The main loop, and behind it -/

/-- The main loop on the host's answers to its calls of `tcpPoll`: `none` when these are at an end before the loop is.
    With the server it leaves come the images of the shells it started. -/
def mainLoop : List PollHost → Server → List Server → Eff (Option (Server × List Server))
  | polls, s, shells =>
      if s.stopFlag then .ok (some (s, shells))
      else
        match polls with
        | [] => .ok none
        | h :: polls => do
            let p ← s.tcpPoll h
            mainLoop polls p.srv (shells ++ p.shells)

/-- `tcpClose`, with the descriptor closed. -/
def tcpClose (s : Server) : Server × List Int :=
  if s.tcpSockFd ≠ -1 then ({ s with tcpSockFd := -1 }, [s.tcpSockFd]) else (s, [])

/-- "Tidy up." -/
def finish (s : Server) (db : List DbCall) : Server × List Int × List DbCall :=
  let (s, closed) := s.tcpClose
  (s, closed, db ++ [.close])

/-- `run`, to its end: what it returned, the server, the images of the programs it started, the descriptors `tcpClose`
    closed, and the calls of the database library. -/
structure RunEnd where
  ret : Bool
  srv : Server
  programs : List Server
  closed : List Int := []
  db : List DbCall

/-- `run`: `none` when the answers are at an end before the main loop is. -/
def run (s : Server) (fs initPath : CStr) (port : Int) (h : BootHost) (polls : List PollHost) :
    Eff (Option RunEnd) := do
  let b ← s.boot fs initPath port h
  let programs := b.init.toList
  if ¬ b.ret then .ok (some { ret := false, srv := b.srv, programs, db := b.db })
  else
    match ← mainLoop polls b.srv programs with
    | none => .ok none
    | some (s, programs) =>
        let (srv, closed, db) := s.finish b.db
        .ok (some { ret := true, srv, programs, closed, db })

end Server

end DistributedPlatform

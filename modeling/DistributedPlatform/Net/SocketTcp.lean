import DistributedPlatform.Host

/-!
# `Net.SocketTcp` — the TCP socket object

`net/sockettcp.cpp`, with the host's answers as arguments and the host calls made as a list. The address
fields are stored by the source but read by no modelled function and are left out.
-/

namespace DistributedPlatform

inductive SocketState
  | stateNone
  | stateClient
  | stateServer
  deriving DecidableEq, Repr

inductive Direction
  | directionNone
  | directionInOut
  deriving DecidableEq, Repr

inductive SocketType
  | typeNone
  | typeTcp
  deriving DecidableEq, Repr

/-- `SocketTcp::SocketTcp`: the constructor leaves `sockFd` uninitialised; `-1` stands for that, and every
    method reads it only after a write to it. -/
structure SocketTcp where
  state : SocketState := .stateNone
  sockFd : Int := -1
  dir : Direction := .directionNone
  type : SocketType := .typeTcp
  deriving DecidableEq, Repr

/-- What the host answers to the calls of `SocketTcp::connect`. -/
structure ConnectHost where
  socket : Int
  resolves : Bool
  connect : Int
  deriving DecidableEq, Repr

namespace SocketTcp

def write (s : SocketTcp) (size : Nat) (ans : Int) : Int × List HostCall :=
  if s.state ≠ .stateNone then (ans, [.write s.sockFd size]) else (-1, [])

def read (s : SocketTcp) (max : Nat) (ans : ReadAns) : ReadAns × List HostCall :=
  if s.state ≠ .stateNone then (ans, [.read s.sockFd max]) else (none, [])

/-- `connect`: `gethostbyname` may return `NULL`, which is dereferenced unchecked; a refused
    `connect(2)` returns without closing the descriptor. -/
def connect (s : SocketTcp) (h : ConnectHost) : Eff (Bool × SocketTcp × List HostCall) :=
  if s.state ≠ .stateNone then .ok (false, s, [])
  else
    let s := { s with sockFd := h.socket }
    if s.sockFd < 0 then .ok (false, s, [.socket h.socket])
    else if ¬ h.resolves then .error .nullDeref
    else
      let calls := [.socket h.socket, .connect s.sockFd h.connect]
      if h.connect < 0 then .ok (false, s, calls)  -- `sockFd` stays open
      else .ok (true, { s with state := .stateClient, dir := .directionInOut }, calls)

/-- `listen` adopts an already accepted descriptor. -/
def listen (s : SocketTcp) (asockFd : Int) : Bool × SocketTcp :=
  if s.state ≠ .stateNone then (false, s)
  else (true, { s with sockFd := asockFd, state := .stateServer, dir := .directionInOut })

/-- `close`: after a successful `close(2)` the state becomes `StateServer`. -/
def close (s : SocketTcp) (ret : Int) : Bool × SocketTcp × List HostCall :=
  if s.state = .stateNone then (false, s, [])
  else if ret = -1 then (false, s, [.close s.sockFd ret])
  else (true, { s with state := .stateServer, dir := .directionNone }, [.close s.sockFd ret])

/-- The destructor closes; the base class destructor that follows calls `Socket::close`, which does
    nothing. -/
def destruct (s : SocketTcp) (ret : Int) : List HostCall := (s.close ret).2.2

/-! ## What the methods can do -/

@[simp] theorem listen_new (fd : Int) :
    ({} : SocketTcp).listen fd =
      (true, { sockFd := fd, state := .stateServer, dir := .directionInOut }) := rfl

theorem write_of_none {s : SocketTcp} (h : s.state = .stateNone) (size : Nat) (ans : Int) :
    s.write size ans = (-1, []) := by simp [write, h]

theorem write_of_open {s : SocketTcp} (h : s.state ≠ .stateNone) (size : Nat) (ans : Int) :
    s.write size ans = (ans, [.write s.sockFd size]) := by simp [write, h]

theorem read_of_none {s : SocketTcp} (h : s.state = .stateNone) (max : Nat) (ans : ReadAns) :
    s.read max ans = (none, []) := by simp [read, h]

theorem read_of_open {s : SocketTcp} (h : s.state ≠ .stateNone) (max : Nat) (ans : ReadAns) :
    s.read max ans = (ans, [.read s.sockFd max]) := by simp [read, h]

theorem listen_of_none {s : SocketTcp} (h : s.state = .stateNone) (fd : Int) :
    s.listen fd =
      (true, { s with sockFd := fd, state := .stateServer, dir := .directionInOut }) := by
  simp [listen, h]

theorem listen_of_open {s : SocketTcp} (h : s.state ≠ .stateNone) (fd : Int) :
    s.listen fd = (false, s) := by simp [listen, h]

/-- The exits of `connect`: already open, no descriptor, name not found, refused, connected. -/
theorem connect_cases (s : SocketTcp) (h : ConnectHost) :
    (s.state ≠ .stateNone ∧ s.connect h = .ok (false, s, [])) ∨
    (s.state = .stateNone ∧ h.socket < 0 ∧
      s.connect h = .ok (false, { s with sockFd := h.socket }, [.socket h.socket])) ∨
    (s.state = .stateNone ∧ 0 ≤ h.socket ∧ h.resolves = false ∧
      s.connect h = .error .nullDeref) ∨
    (s.state = .stateNone ∧ 0 ≤ h.socket ∧ h.resolves = true ∧ h.connect < 0 ∧
      s.connect h = .ok (false, { s with sockFd := h.socket },
        [.socket h.socket, .connect h.socket h.connect])) ∨
    (s.state = .stateNone ∧ 0 ≤ h.socket ∧ h.resolves = true ∧ 0 ≤ h.connect ∧
      s.connect h = .ok (true,
        { s with sockFd := h.socket, state := .stateClient, dir := .directionInOut },
        [.socket h.socket, .connect h.socket h.connect])) := by
  by_cases hn : s.state = .stateNone
  · right
    by_cases hs : h.socket < 0
    · exact Or.inl ⟨hn, hs, by simp [connect, hn, hs]⟩
    · right
      have hs' : 0 ≤ h.socket := by omega
      cases hr : h.resolves with
      | false => exact Or.inl ⟨hn, hs', rfl, by simp [connect, hn, hs, hr]⟩
      | true =>
          right
          by_cases hc : h.connect < 0
          · exact Or.inl ⟨hn, hs', rfl, hc, by simp [connect, hn, hs, hr, hc]⟩
          · exact Or.inr ⟨hn, hs', rfl, by omega, by simp [connect, hn, hs, hr, hc]⟩
  · exact Or.inl ⟨hn, by simp [connect, hn]⟩

/-- The exits of `close`: not open, refused by the host, closed. -/
theorem close_cases (s : SocketTcp) (ret : Int) :
    (s.state = .stateNone ∧ s.close ret = (false, s, [])) ∨
    (s.state ≠ .stateNone ∧ ret = -1 ∧ s.close ret = (false, s, [.close s.sockFd ret])) ∨
    (s.state ≠ .stateNone ∧ ret ≠ -1 ∧
      s.close ret = (true, { s with state := .stateServer, dir := .directionNone },
        [.close s.sockFd ret])) := by
  by_cases hn : s.state = .stateNone
  · exact Or.inl ⟨hn, by simp [close, hn]⟩
  · by_cases hr : ret = -1
    · exact Or.inr (Or.inl ⟨hn, hr, by simp [close, hn, hr]⟩)
    · exact Or.inr (Or.inr ⟨hn, hr, by simp [close, hn, hr]⟩)

end SocketTcp

end DistributedPlatform

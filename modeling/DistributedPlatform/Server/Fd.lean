import DistributedPlatform.Server.State

/-!
# `Server.Fd` — the descriptor operations

`Server::fdWrite` … `Server::fdCreate`. A `Process *` argument is passed and returned by value: these
functions touch the descriptors of the process they are given and the tables of the server, nothing else.

The three functions that open a descriptor end in the same block (create an entry, fill it in, give it to
the process); it is `fdBind` here. Its last check, `fdAdd` returning `-1`, never fires: `fdAdd` always finds
or makes a slot.
-/

namespace DistributedPlatform

/-- Result of an operation that changes descriptors. -/
structure FdResult where
  ret : Int
  srv : Server
  proc : Process
  calls : List HostCall := []

/-- The server afterwards, with the object of process `pid` as the operation left it. -/
def FdResult.commit (r : FdResult) (pid : Nat) : Server := r.srv.setProc pid (some r.proc)

/-- Result of a read or a write: the value returned, the object the call was dispatched to, and the host
    calls made. -/
structure IoResult (α : Type) where
  ret : α
  on : Option FdType := none
  calls : List HostCall := []
  deriving DecidableEq, Repr

/-- Answers to the calls of an open: the `malloc` of `fileLocalPath`, `open(2)`, the `malloc` of the entry,
    and the `close(2)` of the error exit. -/
structure OpenHost where
  localPath : Bool
  open_ : Int
  entry : Bool
  close : Int
  deriving DecidableEq, Repr

namespace Server

def fdGet (s : Server) (fd : Int) : Option FdEntry :=
  if 0 ≤ fd ∧ fd < s.fdEntries.length then (s.fdEntries[fd.toNat]?).join else none

/-! ## Creating and binding entries -/

/-- What the search of `fdCreate` stops at: a `NULL` entry, or one of type `FdTypeNone`. -/
def fdUnused : Option FdEntry → Bool
  | none => true
  | some e => e.type == .fdTypeNone

/-- `fdCreate`: the `refCount` of a new entry is uninitialised; `0` stands for that. -/
def fdCreate (s : Server) (malloc : Bool) : Int × Server :=
  match s.fdEntries.findIdx? fdUnused with
  | some i =>
      match (s.fdEntries[i]?).join with
      | some _ => (i, s)  -- an untyped entry is handed out as it is
      | none =>
          if malloc then
            (i, { s with fdEntries :=
              s.fdEntries.set i (some { fd := i, type := .fdTypeNone, refCount := 0 }) })
          else (-1, s)
  | none =>
      let i := s.fdEntries.length
      if malloc then
        (i, { s with fdEntries :=
          s.fdEntries ++ [some { fd := i, type := .fdTypeNone, refCount := 0 }] })
      else (-1, s)

/-- The end of every open: an entry of that type with one reference, in a slot of the process. -/
def fdBind (s : Server) (proc : Process) (type : FdType) (malloc : Bool) : Eff FdResult :=
  let (fd, s) := s.fdCreate malloc
  if fd = -1 then .ok { ret := -1, srv := s, proc := proc }
  else
    match s.fdGet fd with
    | none => .error .nullDeref
    | some entry =>
        let s := { s with
          fdEntries := s.fdEntries.set fd.toNat (some { entry with type := type, refCount := 1 }) }
        let (procFd, proc) := proc.fdAdd entry.fd
        .ok { ret := procFd, srv := s, proc := proc }

def fdOpenSocket (s : Server) (proc : Process) (socket : Nat) (malloc : Bool) : Eff FdResult :=
  s.fdBind proc (.fdTypeSocket socket) malloc

def fdOpenFdFromFile (s : Server) (proc : Process) (path : CStr) (flags : Int) (mode : Nat)
    (h : OpenHost) : Eff FdResult :=
  match fileLocalPath s.filesystem path h.localPath with
  | none => .ok { ret := -1, srv := s, proc := proc }
  | some localPath =>
      let opened := .open localPath flags mode h.open_
      if h.open_ = -1 then .ok { ret := -1, srv := s, proc := proc, calls := [opened] }
      else
        match s.fdBind proc (.fdTypeFd h.open_) h.entry with
        | .error e => .error e
        | .ok r =>
            -- the `error` exit closes the file opened a moment ago
            if r.ret = -1 then
              .ok { r with calls := opened :: if h.open_ ≥ 0 then [.close h.open_ h.close] else [] }
            else .ok { r with calls := [opened] }

/-- The flags and the mode of a device are not looked at. -/
def fdOpenFdFromDevice (s : Server) (proc : Process) (name : CStr) (_flags : Int) (_mode : Nat)
    (h : OpenHost) : Eff FdResult :=
  match s.devices.open_ name with
  | (none, _) => .ok { ret := -1, srv := s, proc := proc }
  | (some device, devices) =>
      { s with devices := devices }.fdBind proc (.fdTypeDevice device) h.entry

def fdOpenFdFromPath (s : Server) (proc : Process) (path : CStr) (flags : Int) (mode : Nat)
    (h : OpenHost) : Eff FdResult :=
  if (bytes "/dev/").isPrefixOf path then s.fdOpenFdFromDevice proc (path.drop 5) flags mode h
  else s.fdOpenFdFromFile proc path flags mode h

/-! ## Closing -/

/-- `fdClose` once the object behind the entry is closed: the entry and the slot of the process go. -/
def fdDrop (s : Server) (proc : Process) (fd : Int) (calls : List HostCall) : FdResult where
  ret := 1
  srv := { s with fdEntries := s.fdEntries.set fd.toNat none }
  proc := proc.fdRemove fd
  calls := calls

/-- `fdClose`: `ret` is 1 for `true`; `closeRet` is the host's answer to `close(2)`. -/
def fdClose (s : Server) (proc : Process) (fd : Int) (closeRet : Int) : Eff FdResult :=
  match s.fdGet fd with
  | none => .ok { ret := 0, srv := s, proc := proc }
  | some entry =>
      if entry.refCount = 0 then .error .assertFailed
      else if entry.refCount ≤ 1 then
        -- the last reference: the object itself is closed first, and a refusal leaves everything
        match entry.type with
        | .fdTypeFd hostFd =>
            if closeRet = -1 then
              .ok { ret := 0, srv := s, proc := proc, calls := [.close hostFd closeRet] }
            else .ok (s.fdDrop proc fd [.close hostFd closeRet])
        | .fdTypeSocket k =>
            match s.socks[k]? with
            | none => .error .dangling
            | some sock =>
                let (closed, sock, calls) := sock.close closeRet
                let s := { s with socks := s.socks.set k sock }
                if closed then .ok (s.fdDrop proc fd calls)
                else .ok { ret := 0, srv := s, proc := proc, calls := calls }
        -- the registry is not told: the entry does not know the name of its device
        | .fdTypeDevice _ => .ok (s.fdDrop proc fd [])
        | .fdTypeNone => .ok { ret := 0, srv := s, proc := proc }
      else
        .ok { ret := 1
              srv := { s with fdEntries :=
                s.fdEntries.set fd.toNat (some { entry with refCount := entry.refCount - 1 }) }
              proc := proc.fdRemove fd }

/-! ## Reading and writing -/

/-- `fdRead` on a server descriptor; `ans` is the host's answer should the call reach the host. -/
def fdRead (s : Server) (fd : Int) (count : Nat) (ans : ReadAns) : Eff (IoResult ReadAns) :=
  match s.fdGet fd with
  | none => .ok { ret := none }
  | some entry =>
      match entry.type with
      | .fdTypeNone => .ok { ret := none }
      | .fdTypeFd hostFd => .ok { ret := ans, on := entry.type, calls := [.read hostFd count] }
      | .fdTypeSocket k =>
          match s.socks[k]? with
          | none => .error .dangling
          | some sock =>
              .ok { ret := (sock.read count ans).1, on := entry.type,
                    calls := (sock.read count ans).2 }
      | .fdTypeDevice k =>
          match s.devs[k]? with
          | none => .error .dangling
          | some dev => do
              let (ret, calls) ← dev.read s.socks count ans
              .ok { ret := ret, on := entry.type, calls := calls }

def fdWrite (s : Server) (fd : Int) (count : Nat) (ans : Int) : Eff (IoResult Int) :=
  match s.fdGet fd with
  | none => .ok { ret := -1 }
  | some entry =>
      match entry.type with
      | .fdTypeNone => .ok { ret := -1 }
      | .fdTypeFd hostFd => .ok { ret := ans, on := entry.type, calls := [.write hostFd count] }
      | .fdTypeSocket k =>
          match s.socks[k]? with
          | none => .error .dangling
          | some sock =>
              .ok { ret := (sock.write count ans).1, on := entry.type,
                    calls := (sock.write count ans).2 }
      | .fdTypeDevice k =>
          match s.devs[k]? with
          | none => .error .dangling
          | some dev => do
              let (ret, calls) ← dev.write s.socks count ans
              .ok { ret := ret, on := entry.type, calls := calls }

/-! ## The host calls of an open -/

/-- Binding an entry makes no host call. -/
theorem fdBind_calls {s : Server} {proc : Process} {type : FdType} {malloc : Bool} {r : FdResult}
    (hr : s.fdBind proc type malloc = .ok r) : r.calls = [] := by
  unfold fdBind at hr
  simp only at hr
  split at hr
  · cases hr; rfl
  · split at hr
    · cases hr
    · cases hr; rfl

/-- The host's `open(2)` gets the local path of the file, and the flags and the mode as they are. -/
theorem fdOpenFdFromFile_calls {s : Server} {proc : Process} {path : CStr} {flags : Int} {mode : Nat}
    {h : OpenHost} {r : FdResult} (hr : s.fdOpenFdFromFile proc path flags mode h = .ok r)
    {hostPath : CStr} {flags' : Int} {mode' : Nat} {ret : Int}
    (hmem : HostCall.open hostPath flags' mode' ret ∈ r.calls) :
    hostPath = s.filesystem ++ path ∧ flags' = flags ∧ mode' = mode := by
  unfold fdOpenFdFromFile at hr
  cases hlp : fileLocalPath s.filesystem path h.localPath with
  | none => rw [hlp] at hr; cases hr; cases hmem
  | some localPath =>
      have hlocal : localPath = s.filesystem ++ path := by
        unfold fileLocalPath at hlp
        split at hlp
        · exact (Option.some.inj hlp).symm
        · cases hlp
      have hopened : ∀ {calls : List HostCall}, (∀ c ∈ calls, ∃ fd ans, c = .close fd ans) →
          HostCall.open hostPath flags' mode' ret ∈ .open localPath flags mode h.open_ :: calls →
          hostPath = s.filesystem ++ path ∧ flags' = flags ∧ mode' = mode := by
        intro calls hclose hin
        rcases List.mem_cons.mp hin with heq | hin
        · cases heq; exact ⟨hlocal, rfl, rfl⟩
        · obtain ⟨fd, ans, hc⟩ := hclose _ hin
          cases hc
      rw [hlp] at hr
      simp only at hr
      split at hr
      · cases hr
        exact hopened (by simp) hmem
      · split at hr
        · cases hr
        · split at hr
          · cases hr
            refine hopened ?_ hmem
            split <;> simp
          · cases hr
            exact hopened (by simp) hmem

theorem open_calls {s : Server} {proc : Process} {path : CStr} {flags : Int} {mode : Nat} {h : OpenHost}
    {r : FdResult} (hr : s.fdOpenFdFromPath proc path flags mode h = .ok r) {hostPath : CStr} {flags' : Int}
    {mode' : Nat} {ret : Int} (hmem : HostCall.open hostPath flags' mode' ret ∈ r.calls) :
    hostPath = s.filesystem ++ path ∧ flags' = flags ∧ mode' = mode := by
  unfold fdOpenFdFromPath at hr
  split at hr
  · -- a device: no host call at all
    unfold fdOpenFdFromDevice at hr
    split at hr
    · cases hr; cases hmem
    · rw [fdBind_calls hr] at hmem; cases hmem
  · exact fdOpenFdFromFile_calls hr hmem

/-! ## What a descriptor operation leaves alone -/

/-- A descriptor operation does not touch the process table, and nothing but the descriptors of the process
    it works for. -/
def FdOnly (s : Server) (proc : Process) (r : FdResult) : Prop :=
  r.srv.procs = s.procs ∧ { r.proc with fds := proc.fds } = proc

theorem FdOnly.refl (s : Server) (proc : Process) (ret : Int) (calls : List HostCall) :
    FdOnly s proc { ret := ret, srv := s, proc := proc, calls := calls } := ⟨rfl, rfl⟩

/-- A field of the process other than the descriptors. -/
theorem FdOnly.field {s : Server} {proc : Process} {r : FdResult} (h : FdOnly s proc r) {β : Type}
    (f : Process → β) (hf : ∀ p fds, f { p with fds := fds } = f p) : f r.proc = f proc := by
  rw [← hf r.proc proc.fds, h.2]

theorem fdAdd_only (p : Process) (v : Int) : { (p.fdAdd v).2 with fds := p.fds } = p := by
  unfold Process.fdAdd
  split <;> rfl

theorem fdRemove_only (p : Process) (v : Int) : { p.fdRemove v with fds := p.fds } = p := by
  unfold Process.fdRemove
  split <;> rfl

theorem fdCreate_procs (s : Server) (malloc : Bool) : (s.fdCreate malloc).2.procs = s.procs := by
  unfold fdCreate
  split
  · split
    · rfl
    · split <;> rfl
  · dsimp only
    split <;> rfl

theorem fdBind_only {s : Server} {proc : Process} {type : FdType} {malloc : Bool} {r : FdResult}
    (hr : s.fdBind proc type malloc = .ok r) : FdOnly s proc r := by
  have hprocs := fdCreate_procs s malloc
  unfold fdBind at hr
  dsimp only at hr
  split at hr
  · cases hr; exact ⟨hprocs, rfl⟩
  · split at hr
    · cases hr
    · cases hr; exact ⟨hprocs, fdAdd_only _ _⟩

theorem fdOpen_only {s : Server} {proc : Process} {path : CStr} {flags : Int} {mode : Nat}
    {h : OpenHost} {r : FdResult} (hr : s.fdOpenFdFromPath proc path flags mode h = .ok r) :
    FdOnly s proc r := by
  unfold fdOpenFdFromPath at hr
  split at hr
  · unfold fdOpenFdFromDevice at hr
    split at hr
    · cases hr; exact .refl ..
    · have hside := fdBind_only hr
      exact ⟨hside.1, hside.2⟩
  · unfold fdOpenFdFromFile at hr
    split at hr
    · cases hr; exact .refl ..
    · dsimp only at hr
      split at hr
      · cases hr; exact .refl ..
      · cases hb : s.fdBind proc (.fdTypeFd h.open_) h.entry with
        | error e => rw [hb] at hr; cases hr
        | ok b =>
            have hside := fdBind_only hb
            rw [hb] at hr
            dsimp only at hr
            split at hr <;> cases hr <;> exact hside

/-- What a close can do: it is refused, with at most a `close(2)` that failed, or a reference goes. -/
theorem fdClose_inv {s : Server} {proc : Process} {fd closeRet : Int} {r : FdResult}
    (hr : s.fdClose proc fd closeRet = .ok r) :
    (r.ret = 0 ∧ r.proc = proc ∧ (∃ socks, r.srv = { s with socks := socks }) ∧
      (r.calls = [] ∨ closeRet = -1 ∧ ∃ hostFd, r.calls = [.close hostFd closeRet])) ∨
    (r.ret = 1 ∧ r.proc = proc.fdRemove fd ∧
      ∃ entries socks, r.srv = { s with fdEntries := entries, socks := socks }) := by
  unfold fdClose at hr
  cases he : s.fdGet fd with
  | none =>
      rw [he] at hr
      cases hr
      exact Or.inl ⟨rfl, rfl, ⟨s.socks, rfl⟩, Or.inl rfl⟩
  | some entry =>
      rw [he] at hr
      dsimp only at hr
      by_cases hzero : entry.refCount = 0
      · rw [if_pos hzero] at hr
        cases hr
      · rw [if_neg hzero] at hr
        by_cases hlast : entry.refCount ≤ 1
        · rw [if_pos hlast] at hr
          cases htype : entry.type with
          | fdTypeNone =>
              rw [htype] at hr
              cases hr
              exact Or.inl ⟨rfl, rfl, ⟨s.socks, rfl⟩, Or.inl rfl⟩
          | fdTypeDevice k =>
              rw [htype] at hr
              cases hr
              exact Or.inr ⟨rfl, rfl, _, s.socks, rfl⟩
          | fdTypeFd hostFd =>
              simp only [htype] at hr
              by_cases hc : closeRet = -1
              · rw [if_pos hc] at hr
                cases hr
                exact Or.inl ⟨rfl, rfl, ⟨s.socks, rfl⟩, Or.inr ⟨hc, hostFd, rfl⟩⟩
              · rw [if_neg hc] at hr
                cases hr
                exact Or.inr ⟨rfl, rfl, _, s.socks, rfl⟩
          | fdTypeSocket k =>
              simp only [htype] at hr
              cases hk : s.socks[k]? with
              | none =>
                  rw [hk] at hr
                  cases hr
              | some sock =>
                  rw [hk] at hr
                  dsimp only at hr
                  rcases sock.close_cases closeRet with ⟨-, hc⟩ | ⟨-, hrefused, hc⟩ | ⟨-, -, hc⟩
                  · rw [hc] at hr
                    cases hr
                    exact Or.inl ⟨rfl, rfl, ⟨_, rfl⟩, Or.inl rfl⟩
                  · rw [hc] at hr
                    cases hr
                    exact Or.inl ⟨rfl, rfl, ⟨_, rfl⟩, Or.inr ⟨hrefused, _, rfl⟩⟩
                  · rw [hc] at hr
                    cases hr
                    exact Or.inr ⟨rfl, rfl, _, _, rfl⟩
        · rw [if_neg hlast] at hr
          cases hr
          exact Or.inr ⟨rfl, rfl, _, s.socks, rfl⟩

theorem fdClose_only {s : Server} {proc : Process} {fd closeRet : Int} {r : FdResult}
    (hr : s.fdClose proc fd closeRet = .ok r) : FdOnly s proc r := by
  rcases fdClose_inv hr with ⟨-, hproc, ⟨socks, hsrv⟩, -⟩ | ⟨-, hproc, entries, socks, hsrv⟩
  · rw [FdOnly, hproc, hsrv]
    exact ⟨rfl, rfl⟩
  · rw [FdOnly, hproc, hsrv]
    exact ⟨rfl, fdRemove_only proc fd⟩

end Server

end DistributedPlatform

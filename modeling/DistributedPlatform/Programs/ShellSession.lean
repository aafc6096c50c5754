import DistributedPlatform.Programs.ShellLine

/-!
# `Programs.ShellSession` — the shell at its terminal

`shell.c`: `shellRun` with its prompts, and `shellParseLine` with the two writes for a word that is no command. A write
is the string that is handed to it; what it returns is not looked at. The buffer `line` is the one `getcwd` and `read`
fill and the parser cuts up, round after round.

`main` opens each of its arguments through the server and runs the loop on it, with the one descriptor to read from and
to write to: a device (`shellRun`), or a file of the host, which answers the reads and the writes itself (`fileLoop`).
-/

namespace DistributedPlatform
namespace Shell

/-- What answers one round of the input loop: the allocations of the prompt, what the read delivers (no bytes: it
    returned 0 or failed), and what executing the line asks for. -/
structure Round where
  path : PathHost
  data : List Byte
  size : data.length < LINESIZE
  line : LineHost

/-- A shell in its input loop, with what it has written and its buffer. -/
structure Shown where
  session : Session
  out : List CStr
  line : Block

namespace Session

/-- The `write`s to `fdOut`; there are none when it is -1. -/
def writes (fdOut : Int) (strs : List CStr) : List CStr := if fdOut = -1 then [] else strs

/-- "Find command." -/
def sayCommand (s : Session) (fdOut : Int) (line : Block) (h : LineHost) : Eff (Handled × List CStr × Block) := do
  let t ← strtokR line 0 32
  match t.token with
  | none => .ok ({ session := s }, [], t.block)
  | some part => do
      let part ← strAt t.block part
      if part = bytes "cd" then do
        let (r, line) ← s.shellCd t.block t.save h
        .ok (r, [], line)
      else if part = bytes "export" then do
        let (r, line) ← s.shellExport t.block t.save h
        .ok (r, [], line)
      else do
        -- `line`, not `part`: from the start of the buffer to the end of the first word
        let str ← strAt t.block 0
        .ok ({ session := s }, writes fdOut [str, bytes ": Command not found.\n"], t.block)

/-- `shellParseLine`, with its writes. -/
def sayLine (s : Session) (fdOut : Int) (line : Block) (h : LineHost) : Eff (Handled × List CStr × Block) := do
  let line ← stripComment line
  let line ← trimNewline line
  let len ← strlen line
  if len = 0 then .ok ({ session := s }, [], line) else s.sayCommand fdOut line h

/-- "Send prompt." -/
def prompt (s : Session) (fdOut : Int) (line : Block) (h : PathHost) : Eff (List CStr × Block) := do
  if fdOut = -1 then .ok ([], line)
  else do
    let (got, line) ← getcwd s.srv s.pid line LINESIZE
    let path ← if got then (strAt line 0).map some else .ok none
    let d ← shellPathDisplay s.home path h
    match d.ret with
    | none => .ok (writes fdOut [bytes " $ "], line)
    | some str => do
        let str ← strAt str 0
        .ok (writes fdOut [str, bytes " $ "], line)

/-- "Input loop.", as far as the rounds go: it is left by a read that delivers nothing. -/
def inputLoop (fdOut : Int) : List Round → Session → Block → Eff Shown
  | [], s, line => .ok ⟨s, [], line⟩
  | round :: rounds, s, line => do
      let (shown, line) ← s.prompt fdOut line round.path
      if round.data = [] then .ok ⟨s, shown, line⟩
      else do
        let line ← memcpy line 0 round.data
        let line ← store line round.data.length 0
        let (r, said, line) ← s.sayLine fdOut line round.line
        let rest ← inputLoop fdOut rounds r.session line
        .ok { rest with out := shown ++ said ++ rest.out }

/-- `shellRun`: "Set current working directory environment variable.", then the loop; `alloc` answers for `setenv`, and
    `line` is what the local buffer holds. -/
def shellRun (s : Session) (fdOut : Int) (alloc : Bool) (rounds : List Round) (line : Block) : Eff Shown := do
  let (got, line) ← getcwd s.srv s.pid line LINESIZE
  if got then do
    let cwd ← strAt line 0
    inputLoop fdOut rounds { s with env := s.env.setenv (bytes "PWD") cwd alloc } line
  else inputLoop fdOut rounds s line

end Session

/-! ## The files it is given -/

def O_RDWR : Int := 2

/-- A file the host has opened: the flags of its `open(2)` say whether it can be read and written, and both move one
    offset. -/
structure OpenFile where
  hostFd : Int
  flags : Int
  bytes : List Byte
  offset : Nat
  deriving DecidableEq

namespace OpenFile

/-- The file behind the host call of a system call that opened one. -/
def ofCalls (bytes : List Byte) : List HostCall → Option OpenFile
  | .open _ flags _ hostFd :: _ => some ⟨hostFd, flags, bytes, 0⟩
  | _ => none

/-- `read(2)`; -1 with `O_WRONLY`. -/
def read (f : OpenFile) (count : Nat) : ReadAns × OpenFile :=
  if f.flags % 4 = 1 then (none, f)
  else
    let data := (f.bytes.drop f.offset).take count
    (some data, { f with offset := f.offset + data.length })

/-- `write(2)`; -1 with `O_RDONLY`. -/
def write (f : OpenFile) (data : List Byte) : Int × OpenFile :=
  if f.flags % 4 = 0 then (-1, f)
  else
    (data.length,
      { f with
        bytes := f.bytes.take f.offset ++ data ++ f.bytes.drop (f.offset + data.length)
        offset := f.offset + data.length })

end OpenFile

/-- What answers for one argument of `main`: the system calls, `setenv`, what is in the file when it is one, with the
    allocations of each round (there are rounds to its end), or the rounds on a device, and what the local buffer holds
    and where it is. -/
structure ArgHost where
  sys : SysHost
  setenv : Bool
  script : List Byte
  hosts : List (PathHost × LineHost)
  enough : script.length < hosts.length
  terminal : List Round
  line : Block
  size : line.length = LINESIZE
  addr : Nat

/-- What came of an argument that was opened: each write to the file with the value it returned, and the file, or the
    writes to the device. -/
inductive Ran
  | file (sent : List (CStr × Option RetVal)) (file : OpenFile)
  | device (out : List CStr)

namespace Session

/-- A system call. -/
def send (s : Session) (m : Message) (h : SysHost) : Eff SysResult := s.srv.syscall s.pid m.id.id m.args h

/-- `write(fd, str, strlen(str))`, where the file answers. -/
def writeFile (s : Session) (fd : Int) (h : ArgHost) (file : OpenFile) (str : CStr) :
    Eff (Option RetVal × OpenFile) := do
  let count := toU32 str.length
  let (ans, written) := file.write (str.take count)
  let r ← s.send (sysWrite fd (.str str) count) { h.sys with write := ans }
  .ok (r.stored, if .write file.hostFd count ∈ r.calls then written else file)

/-- Some writes, one after another. -/
def writeFiles (s : Session) (fd : Int) (h : ArgHost) :
    List CStr → OpenFile → Eff (List (CStr × Option RetVal) × OpenFile)
  | [], file => .ok ([], file)
  | str :: strs, file => do
      let (ret, file) ← s.writeFile fd h file str
      let (sent, file) ← writeFiles s fd h strs file
      .ok ((str, ret) :: sent, file)

/-- `read(fd, line, LINESIZE-1)`, where the file answers: the value returned, and the bytes. -/
def readFile (s : Session) (fd : Int) (h : ArgHost) (file : OpenFile) :
    Eff (Option RetVal × List Byte × OpenFile) := do
  let count := toU32 (LINESIZE - 1 : Nat)
  let (ans, rest) := file.read count
  let r ← s.send (sysRead fd (.mem h.addr) count) { h.sys with read := ans }
  .ok (r.stored, if .read file.hostFd count ∈ r.calls then (ans.getD [], rest) else ([], file))

/-- "Input loop." where `fdIn` and `fdOut` are the file. -/
def fileLoop (fd : Int) (h : ArgHost) :
    List (PathHost × LineHost) → Session → Block → OpenFile →
      Eff (Session × List (CStr × Option RetVal) × OpenFile)
  | [], s, _, file => .ok (s, [], file)
  | (path, host) :: hosts, s, line, file => do
      let (shown, line) ← s.prompt fd line path
      let (sent, file) ← s.writeFiles fd h shown file
      let (count, data, file) ← s.readFile fd h file
      match count with
      | some (.int count) =>
          if count ≤ 0 then .ok (s, sent, file)
          else do
            let line ← memcpy line 0 data
            let line ← store line count.toNat 0
            let (r, said, line) ← s.sayLine fd line host
            let (sent', file) ← r.session.writeFiles fd h said file
            let (s, rest, file) ← fileLoop fd h hosts r.session line file
            .ok (s, sent ++ sent' ++ rest, file)
      | _ => .error .badVaArg  -- the read stores a number

/-- `shellRun(fd, fd, -1)` on a file. -/
def shellRunFile (s : Session) (fd : Int) (h : ArgHost) (file : OpenFile) :
    Eff (Session × List (CStr × Option RetVal) × OpenFile) := do
  let (got, line) ← getcwd s.srv s.pid h.line LINESIZE
  if got then do
    let cwd ← strAt line 0
    fileLoop fd h h.hosts { s with env := s.env.setenv (bytes "PWD") cwd h.setenv } line file
  else fileLoop fd h h.hosts s line file

/-- `shellRun` on what was opened. -/
def runOpened (s : Session) (fd : Int) (h : ArgHost) : Option OpenFile → Eff (Session × Ran)
  | some file => do
      let (s, sent, file) ← s.shellRunFile fd h file
      .ok (s, .file sent file)
  | none => do
      let shown ← s.shellRun fd h.setenv h.terminal h.line
      .ok (shown.session, .device shown.out)

/-- `main` on one argument. -/
def runArg (s : Session) (path : CStr) (h : ArgHost) : Eff (Session × Option Ran) := do
  let r ← s.send (sysOpen path (toU32 O_RDWR) 0) h.sys
  let s := { s with srv := r.srv }
  match r.stored with
  | some (.int fd) =>
      if fd = -1 then .ok (s, none)
      else do
        let (s, ran) ← s.runOpened fd h (OpenFile.ofCalls h.script r.calls)
        let r ← s.send (sysClose fd) h.sys
        .ok ({ s with srv := r.srv }, some ran)
  | _ => .error .badVaArg  -- the open stores a number

/-- `main`: "Parse any files passed as arguments." -/
def main : List (CStr × ArgHost) → Session → Eff (Session × List (Option Ran))
  | [], s => .ok (s, [])
  | (path, h) :: args, s => do
      let (s, ran) ← s.runArg path h
      let (s, rest) ← main args s
      .ok (s, ran :: rest)

end Session

end Shell
end DistributedPlatform

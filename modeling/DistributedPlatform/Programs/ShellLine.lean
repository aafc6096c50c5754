import DistributedPlatform.Programs.Shell
import DistributedPlatform.Programs.ShellPath

/-!
# `Programs.ShellLine` — the shell on its line buffer

`shell.c`: `shellParseLine`, `shellCd` and `shellExport` as they work on the bytes of `line`, cutting it up
with NULs and handing offsets into it to each other. `Programs.Shell` has the same on strings. The prompt and the
messages are left out.
-/

namespace DistributedPlatform
namespace Shell

def LINESIZE : Nat := 64 * 1024

/-- A running shell: the server, the shell's process there, and the environment. -/
structure Session where
  srv : Server
  pid : Nat
  env : LibEnv

/-- What `shellRun` hands on: the bytes of one read, a NUL, and what was in the buffer behind. -/
structure LineBuffer where
  data : List Byte
  rest : Block
  nonempty : data ≠ []
  size : data.length + 1 + rest.length = LINESIZE

def LineBuffer.block (line : LineBuffer) : Block := line.data ++ 0 :: line.rest

/-- Answers to the allocations a line makes (the path, the server's copy of it, `setenv`), and what is in the
    local buffer of `shellCd`. -/
structure LineHost where
  malloc : Option (Nat → Byte)
  setCwd : Bool
  setenv : Bool
  buf : Block
  size : buf.length = LINESIZE

theorem length_blank : (List.replicate LINESIZE (0 : Byte)).length = LINESIZE := List.length_replicate

/-- What executing a line leaves, whether `chdir` was called and returned 0, and whether a null pointer went to
    `memcpy` on the way. -/
structure Handled where
  session : Session
  moved : Bool := false
  nullCopy : Bool := false

/-- "Strip comment." -/
def stripComment (line : Block) : Eff Block := do
  match ← strchr line 0 35 with
  | none => .ok line
  | some hash => store line hash 0

/-- "Trim newline."; the length of an empty line, less one, is no index into it. -/
def trimNewline (line : Block) : Eff Block := do
  let lineLen ← strlen line
  if lineLen = 0 then .error .outOfBounds  -- `line[lineLen-1]`
  else do
    let x ← load line (lineLen - 1)
    if x = 10 then store line (lineLen - 1) 0 else .ok line

namespace Session

def home (s : Session) : Option CStr := s.env.getenv (bytes "HOME")

/-- `shellCd`, from the call of `shellPathAbsolute` on. There `memcpy(str, home, homeLen)` has a null `home`,
    and 0 bytes to copy, unless the path begins with a `~`. -/
def cd (s : Session) (gpath : Option CStr) (h : LineHost) : Eff Handled := do
  match ← shellPathAbsolute s.home gpath h.malloc with
  | none => .ok { session := s }
  | some path => do
      let nullCopy := decide (gpath.bind List.head? ≠ some 126)
      let path ← strAt path 0
      let (ret, srv) ← s.srv.syscallChDir s.pid path h.setCwd
      if ret ≠ 0 then .ok { session := { s with srv }, nullCopy }
      else do
        let (got, line) ← getcwd srv s.pid h.buf LINESIZE
        if got then do
          let line ← strAt line 0
          .ok { session := { s with srv, env := s.env.setenv (bytes "PWD") line h.setenv }, moved := true, nullCopy }
        else .ok { session := { s with srv }, moved := true, nullCopy }

/-- `shellCd`: the path is the next token, if there is one. -/
def shellCd (s : Session) (line : Block) (save : Nat) (h : LineHost) : Eff (Handled × Block) := do
  let t ← strtokR line save 32
  match t.token with
  | none => do
      let r ← s.cd none h
      .ok (r, t.block)
  | some gpath => do
      let gpath ← strAt t.block gpath
      let r ← s.cd (some gpath) h
      .ok (r, t.block)

def shellExport (s : Session) (line : Block) (save : Nat) (h : LineHost) : Eff (Handled × Block) := do
  let t ← strtokR line save 32
  match t.token with
  | none => .error .nullDeref  -- `strchr(string, '=')`
  | some string => do
      match ← strchr t.block string 61 with
      | none => .ok ({ session := s }, t.block)
      | some equals => do
          let line ← store t.block equals 0
          let name ← strAt line string
          let value ← strAt line (equals + 1)
          .ok ({ session := { s with env := s.env.setenv name value h.setenv } }, line)

/-- `shellParseLine` behind the test for an empty line. -/
def runCommand (s : Session) (line : Block) (h : LineHost) : Eff (Handled × Block) := do
  let t ← strtokR line 0 32
  match t.token with
  | none => .ok ({ session := s }, t.block)
  | some part => do
      let part ← strAt t.block part
      if part = bytes "cd" then s.shellCd t.block t.save h
      else if part = bytes "export" then s.shellExport t.block t.save h
      else do
        let _ ← strlen t.block  -- `write(fdOut, line, strlen(line))`
        .ok ({ session := s }, t.block)

/-- `shellParseLine`: a comment is stripped, a newline trimmed, and what is left executed. -/
def shellParseLine (s : Session) (line : Block) (h : LineHost) : Eff (Handled × Block) := do
  let line ← stripComment line
  let line ← trimNewline line
  let len ← strlen line
  if len = 0 then .ok ({ session := s }, line) else s.runCommand line h

/-- What a command does, its words already taken off the line. -/
def perform (s : Session) (cmd : Option ShellCmd) (h : LineHost) : Eff Handled :=
  match cmd with
  | some (.cd gpath) => s.cd gpath h
  | some (.export string) =>
      match exportArgs string with
      | none => .ok { session := s }
      | some (name, value) => .ok { session := { s with env := s.env.setenv name value h.setenv } }
  | some (.notFound _) => .ok { session := s }
  | none => .ok { session := s }

/-! ### A running session -/

theorem home_of_Denviron {s s' : Session} (h : s'.env.Denviron = s.env.Denviron) : s'.home = s.home := by
  unfold home LibEnv.getenv
  rw [h]

/-- The process of the shell is there, and the strings of its environment are strings. -/
structure Runs (s : Session) : Prop where
  live : s.srv.proc s.pid ≠ none
  strings : ∀ env, s.env.Denviron = some env → ∀ e ∈ env, 0 ∉ e

/-- The directory the server holds for the shell. -/
def dir (s : Session) : Option CStr := (s.srv.proc s.pid).bind (·.cwd)

/-- The server with another directory for the shell. -/
def movedTo (s : Session) (d : CStr) : Server :=
  s.srv.setProc s.pid ((s.srv.proc s.pid).map fun curr => { curr with cwd := some d })

theorem Runs.notMem_home {s : Session} (hs : s.Runs) : 0 ∉ s.home.getD [] := by
  unfold home LibEnv.getenv
  cases henv : s.env.Denviron with
  | none => exact List.not_mem_nil
  | some env =>
      cases hfind : env.find? fun e => (bytes "HOME" ++ bytes "=").isPrefixOf e with
      | none =>
          simp only [hfind]
          exact List.not_mem_nil
      | some e =>
          simp only [hfind]
          exact fun h0 => hs.strings env henv e (List.mem_of_find?_eq_some hfind) (List.mem_of_mem_drop h0)

theorem dir_movedTo {s : Session} {e : LibEnv} (hs : s.Runs) (d : CStr) :
    ({ s with srv := s.movedTo d, env := e } : Session).dir = some d := by
  obtain ⟨curr, hcurr⟩ := Option.ne_none_iff_exists'.mp hs.live
  unfold dir movedTo
  rw [Server.proc_setProc_self (Server.lt_of_proc hcurr), hcurr]
  rfl

/-- A command leaves the shell running. -/
theorem Runs.moved {s : Session} {e : LibEnv} (hs : s.Runs) (he : e.Denviron = s.env.Denviron) (d : CStr) :
    ({ s with srv := s.movedTo d, env := e } : Session).Runs := by
  obtain ⟨curr, hcurr⟩ := Option.ne_none_iff_exists'.mp hs.live
  refine ⟨?_, fun env henv => hs.strings env (he ▸ henv)⟩
  show (s.movedTo d).proc s.pid ≠ none
  unfold movedTo
  rw [Server.proc_setProc_self (Server.lt_of_proc hcurr), hcurr]
  exact Option.some_ne_none _

end Session

end Shell
end DistributedPlatform

import DistributedPlatform.Stdlib.Stdlib

/-!
# `Programs.Shell` — the shell

`shell.c`: `shellRun` takes each read as one line, `shellParseLine` cuts it at the first `#` and a newline
at its end and looks at its first words. The prompt and the messages written to `fdOut` change nothing in
the shell and are left out.
-/

namespace DistributedPlatform

/-- What a line has the shell do: change directory (without an argument: nothing), export, or report a word
    that is no command. -/
inductive ShellCmd
  | cd (gpath : Option CStr)
  | export (string : CStr)
  | notFound (part : CStr)
  deriving DecidableEq, Repr

namespace Shell

/-- `shellExport`, up to the call of `setenv`: the text before the first `=` and the text after it. -/
def exportArgs (string : CStr) : Option (CStr × CStr) :=
  if 61 ∈ string then
    some (string.takeWhile (· != 61), (string.dropWhile (· != 61)).drop 1)
  else none

/-- `shellExport`; the token is used unchecked. -/
def shellExport (e : LibEnv) (save : CStr) (alloc : Bool) : Eff LibEnv :=
  match strtok 32 save with
  | none => .error .nullDeref
  | some (string, _) =>
      match exportArgs string with
      | none => .ok e
      | some (name, value) => .ok (e.setenv name value alloc)

/-- `shellParseLine`, up to the call of the command's function: the command with the argument it looks at. -/
def shellParseLine (line : CStr) : Eff (Option ShellCmd) :=
  let line := line.takeWhile (· != 35)
  match line.getLast? with
  | none => .error .outOfBounds  -- `line[lineLen-1]`
  | some b =>
      let line := if b = 10 then line.dropLast else line
      if line = [] then .ok none
      else
        match strtok 32 line with
        | none => .ok none
        | some (part, save) =>
            if part = bytes "cd" then .ok (some (.cd ((strtok 32 save).map (·.1))))
            else if part = bytes "export" then
              match strtok 32 save with
              | none => .error .nullDeref  -- `strchr` on the missing token
              | some (string, _) => .ok (some (.export string))
            else .ok (some (.notFound part))

/-- `shellRun` on what its reads deliver, up to the read that delivers nothing: the commands executed. -/
def shellRun : (reads : List (List Byte)) → Eff (List ShellCmd)
  | [] => .ok []
  | [] :: _ => .ok []
  | chunk :: reads => do
      let cmd ← shellParseLine (cstr chunk)
      let cmds ← shellRun reads
      .ok (cmd.toList ++ cmds)

end Shell

end DistributedPlatform

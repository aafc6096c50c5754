import DistributedPlatform.Memory

/-!
# `Programs.ShellPath` — the paths of the shell

`shell.c`: `shellPathReduce` works in place on the string it is given, `shellPathAbsolute` and
`shellPathDisplay` on a block they allocate. Every access is one to a block. The number of bytes from a cursor
to the end of its block bounds what a loop can do before it reads past the end.
-/

namespace DistributedPlatform
namespace Shell

/-! ## `shellPathReduce` -/

/-- `for(t=s;*t=='/';++t) ;`: where the slashes from `t` on end. -/
def slashRun (b : Block) : (left t : Nat) → Eff Nat
  | 0, _ => .error .outOfBounds
  | left + 1, t => do
      let x ← load b t
      if x = 47 then slashRun b left (t + 1) else .ok t

/-- `while(*t!='\0') *u++=*t++; *u='\0';`: the string at `t` is moved down to `u`. -/
def shiftDown : (left : Nat) → Block → (u t : Nat) → Eff Block
  | 0, _, _, _ => .error .outOfBounds
  | left + 1, b, u, t => do
      let x ← load b t
      if x = 0 then store b u 0
      else do
        let b ← store b u x
        shiftDown left b (u + 1) (t + 1)

/-- The scan that replaces multiple slashes by single ones, from `s` on. -/
def squeezeSlashes : (left : Nat) → Block → (s : Nat) → Eff Block
  | 0, _, _ => .error .outOfBounds
  | left + 1, b, s => do
      let x ← load b s
      if x = 0 then .ok b
      else do
        let t ← slashRun b (b.length - s) s
        -- `--t; if (t<s) continue;`
        if t < s + 1 then squeezeSlashes left b (s + 1)
        else do
          let b ← shiftDown (b.length - (t - 1)) b s (t - 1)
          squeezeSlashes left b (s + 1)

/-- One round of the outer loop. -/
def reducePass (path : Block) : Eff Block := do
  let path ← squeezeSlashes path.length path 0
  let pathLen ← strlen path
  if cstr path = bytes "/" then .ok path
  else if pathLen = 0 then .error .outOfBounds  -- `path[pathLen-1]`
  else do
    let x ← load path (pathLen - 1)
    if x = 47 then store path (pathLen - 1) 0 else .ok path

/-- The outer loop: rounds until one leaves the length as it was. `none` when `fuel` rounds were not enough. -/
def reduceLoop : (fuel : Nat) → Block → (oldLen : Nat) → Eff (Option Block)
  | 0, _, _ => .ok none
  | fuel + 1, path, oldLen => do
      let path ← reducePass path
      let len ← strlen path
      if len ≠ oldLen then reduceLoop fuel path len else .ok (some path)

/-- `shellPathReduce`. A round that is not the last changes the length, and two rounds are enough
    (`reduceLoop_eq`). -/
def shellPathReduce (path : Block) : Eff Block := do
  let len ← strlen path
  let r ← reduceLoop (path.length + 1) path len
  .ok (r.getD path)

/-! ## `shellPathAbsolute` -/

/-- The part of `shellPathAbsolute` behind the test for `~`, with the home directory to put in front. -/
def joinPath (home : Option CStr) (path : CStr) (malloc : Option (Nat → Byte)) : Eff (Option Block) :=
  let homeLen := match home with
    | some home => home.length + 1
    | none => 0
  match malloc with
  | none => .ok none
  | some fill => do
      let str := fresh fill (homeLen + path.length + 1)
      let str ← match home with
        | none => .ok str
        | some home => do
            let str ← memcpy str 0 (home ++ [0])
            store str (homeLen - 1) 47
      let str ← memcpy str homeLen (path ++ [0])
      let str ← shellPathReduce str
      .ok (some str)

/-- `shellPathAbsolute`: `HOME` as `getenv` finds it, and the answer of `malloc`. -/
def shellPathAbsolute (HOME path : Option CStr) (malloc : Option (Nat → Byte)) : Eff (Option Block) :=
  match path with
  | none => .ok none
  | some path =>
      if path.head? = some 126 then
        match HOME with
        | none => .ok none
        | some home => joinPath (some home) (path.drop 1) malloc
      else joinPath none path malloc

/-! ## `shellPathDisplay` -/

/-- The answer of `realloc`: nothing, the block where it was, or another block. -/
inductive ReallocAns
  | failed
  | inPlace (fill : Nat → Byte)
  | moved

/-- A block that is made larger or smaller where it is. -/
def resize (b : Block) (n : Nat) (fill : Nat → Byte) : Block := b.take n ++ fresh fill (n - b.length)

/-- Answers to the allocations of `shellPathDisplay`. -/
structure PathHost where
  malloc : Option (Nat → Byte)
  realloc : ReallocAns

/-- What `shellPathDisplay` returns, and the operands of `strLen-homeLen` if it gets there. -/
structure Displayed where
  ret : Option Block := none
  sub : Option (Nat × Nat) := none

/-- The block with the first `homeLen` bytes of its string replaced by `~/`. The length is one of `size_t`: below
    zero it is larger than any block. -/
def putTilde (str : Block) (strLen homeLen : Nat) : Eff Block := do
  let str ← if strLen + 1 < homeLen then .error .outOfBounds else memmove str 2 homeLen (strLen + 1 - homeLen)
  let str ← store str 0 126
  store str 1 47

/-- `shellPathDisplay`. What `realloc` returned is only compared with `NULL`; the bytes are put into the old
    block. -/
def shellPathDisplay (HOME path : Option CStr) (h : PathHost) : Eff Displayed := do
  match path, ← shellPathAbsolute HOME path h.malloc with
  | some path, some str =>
      match HOME with
      | none => .ok { ret := some str }
      | some home =>
          if home.isPrefixOf path then do
            let strLen ← strlen str
            match h.realloc with
            | .failed => .ok {}
            | .moved => .error .dangling
            | .inPlace fill => do
                let str ← putTilde (resize str (strLen + 2) fill) strLen home.length
                let str ← shellPathReduce str
                .ok { ret := some str, sub := some (strLen, home.length) }
          else do
            let str ← shellPathReduce str
            .ok { ret := some str }
  | _, _ => .ok {}

end Shell
end DistributedPlatform

import DistributedPlatform.Memory

/-!
# `Programs.Cat` — the cat program

`cat.c`: each file is read into a buffer of 128 bytes, and what is read is written with `printf("%s", buf)`. The calls
`open` and `read` are handed on to the server (`__wrap_open`, `__wrap_read`), and its answers are arguments.
-/

namespace DistributedPlatform
namespace Cat

def bufSize : Nat := 128

/-- The loop over one file; behind the last answer the file is at its end. -/
def readFile (buf : Block) : List ReadAns → Eff (List Byte)
  | [] => .ok []
  | ans :: reads =>
      let count := ans.nbytes
      if count > 0 then do
        let buf ← memcpy buf 0 (ans.getD [])
        let buf ← store buf count.toNat 0
        let s ← strAt buf 0
        let out ← readFile buf reads
        .ok (s ++ out)
      else .ok []

/-- `main`, from the `i`-th path on: what is written. A file is `none` where `open` answers -1, and `fill i` is what
    the buffer for it has in it. -/
def cat (fill : Nat → Nat → Byte) : (i : Nat) → List (Option (List ReadAns)) → Eff (List Byte)
  | _, [] => .ok []
  | i, none :: files => cat fill (i + 1) files
  | i, some reads :: files => do
      let out ← readFile (fresh (fill i) bufSize) reads
      let rest ← cat fill (i + 1) files
      .ok (out ++ rest)

end Cat
end DistributedPlatform

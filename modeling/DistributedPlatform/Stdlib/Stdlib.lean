import DistributedPlatform.Stdlib.Sys

/-!
# `Stdlib.Stdlib` — heap and environment of a program

`stdlib/stdlib.c`: the four allocation functions, which are one system call with different arguments, and
the environment, which the library takes over from the process object when the program starts.
-/

namespace DistributedPlatform

/-! ## Allocation -/

/-- A call of an allocation function; `none` is the null pointer. -/
inductive AllocCall
  | malloc (size : Nat)
  | free (ptr : Option Nat)
  | calloc (nmemb size : Nat)
  | realloc (ptr : Option Nat) (size : Nat)
  deriving DecidableEq, Repr

/-- A heap pointer as an argument. -/
def Ptr.ofBlock : Option Nat → Ptr
  | none => .null
  | some a => .mem a

namespace AllocCall

/-- The message the call sends. The product of `calloc` is one of `size_t`. -/
def message : AllocCall → Message
  | malloc size => sysAlloc .null size
  | free ptr => sysAlloc (.ofBlock ptr) 0
  | calloc nmemb size => sysAlloc .null (nmemb * size % 2 ^ 64)
  | realloc ptr size => sysAlloc (.ofBlock ptr) size

end AllocCall

/-- `calloc` and the bytes of its block; `realloc k` is what `realloc(NULL, k)` returns. -/
def calloc (nmemb size : Nat) (realloc : Nat → Option Block) : Eff (Option Block) :=
  match realloc (nmemb * size % 2 ^ 64) with
  | none => .ok none
  | some ptr => do
      let ptr ← memset ptr 0 0 (nmemb * size % 2 ^ 64)
      .ok (some ptr)

/-! ## The environment -/

/-- What the libraries linked into a running program hold of the environment: `Denviron` of the platform's
    library, and the variables of the host's C library, which `setenv` changes. -/
structure LibEnv where
  Denviron : Option (List CStr) := none
  hostEnv : List (CStr × CStr) := []
  deriving DecidableEq, Repr

namespace LibEnv

/-- `_start` and `_restart`: the library takes the environment of the process object. -/
def start (e : LibEnv) (environ : Option (List CStr)) : LibEnv := { e with Denviron := environ }

/-- `getenv`: the first entry that consists of the name, an equals sign and the value. -/
def getenv (e : LibEnv) (name : CStr) : Option CStr :=
  match e.Denviron with
  | none => none
  | some env => (env.find? fun s => (name ++ bytes "=").isPrefixOf s).map (·.drop (name.length + 1))

/-- `setenv(name, value, 1)` of the host's library; `alloc` is whether it finds the memory. -/
def setenv (e : LibEnv) (name value : CStr) (alloc : Bool) : LibEnv :=
  if name = [] ∨ 61 ∈ name ∨ ¬ alloc then e
  else { e with hostEnv := (name, value) :: e.hostEnv.filter (·.1 ≠ name) }

/-- The host's variables are not those `getenv` looks at. -/
@[simp] theorem setenv_Denviron (e : LibEnv) (name value : CStr) (alloc : Bool) :
    (e.setenv name value alloc).Denviron = e.Denviron := by
  unfold setenv
  split <;> rfl

end LibEnv

end DistributedPlatform

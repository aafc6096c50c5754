import DistributedPlatform.Fs
import DistributedPlatform.Ledger
import DistributedPlatform.Memory
import DistributedPlatform.Process

/-!
# `ProcessHeap` — the process object and what it holds

`process.cpp` again, as far as blocks and library handles go: which ones the fields of an object hold, and what each
function takes, gives back and leaves. `Process` has the same functions on the contents of the fields.
-/

namespace DistributedPlatform

/-- `class Process`; `infoEnviron` is `info.environ`, and `symbols` the library in which `info.main`, `start` and
    `restart` were looked up last. The defaults are those of the constructor. -/
structure ProcessObj where
  fds : List Int := []
  argc : Nat := 0
  argv : Option PtrArray := none
  infoEnviron : Option Nat := none
  dlHandle : Option CStr := none
  symbols : Option CStr := none
  name : Option Cell := none
  path : Option Cell := none
  state : ProcessState := .none
  posixPID : Int := -1
  environ : Option PtrArray := none
  cwd : Option Cell := none
  deriving DecidableEq, Repr

/-- The pointer, where an element is one. -/
def Slot.cell? : Slot → Option Cell
  | .ptr c => some c
  | _ => none

/-- The pointers in front of the first null of an array. -/
def PtrArray.cells (a : PtrArray) : List Cell := (a.slots.takeWhile (· ≠ .null)).filterMap Slot.cell?

/-- The first pointers of an array. -/
theorem cells_of_take (cs : List Cell) (rest : List Slot) :
    ((cs.map Slot.ptr ++ rest).take cs.length).filterMap Slot.cell? = cs := by
  have htake : (cs.map Slot.ptr ++ rest).take cs.length = cs.map .ptr := List.take_left' (List.length_map _)
  rw [htake, List.filterMap_map]
  simp [Function.comp_def, Slot.cell?]

/-- The array and the strings it points to. -/
def PtrArray.held (a : PtrArray) : List Nat := Ledger.blocks a.cells ++ [a.block]

/-- The loop of `getenv`. -/
def Ledger.findEntry (l : Ledger) (name : CStr) : List Slot → Eff (Option CStr)
  | [] => .error .outOfBounds
  | .indeterminate :: _ => .error .dangling
  | .null :: _ => .ok none
  | .ptr c :: slots => do
      let s ← l.text c
      if (name ++ bytes "=").isPrefixOf s then .ok (some (s.drop (name.length + 1))) else findEntry l name slots

/-- `getenv` of the platform's library, with `Denviron` where it is in memory. -/
def Ledger.getenv (l : Ledger) (Denviron : Option PtrArray) (name : CStr) : Eff (Option CStr) :=
  match Denviron with
  | none => .ok none
  | some env => do
      let slots ← l.slots env
      l.findEntry name slots

/-- Where `dirname` puts its result: in the string it was given, or in memory of its own. -/
inductive DirPtr
  | inside (i : Nat)
  | outside (s : CStr)
  deriving DecidableEq, Repr

/-- `dirname`, which may change the string it is given. -/
abbrev Dirname := Block → Eff (Block × DirPtr)

/-- The copy `mountFile` makes of its path. -/
def FSDirect.copyPath (path : CStr) (fill : Nat → Byte) : Eff CStr := do
  let pathLen := path.length
  let last ← load path (pathLen - 1)
  let pathSize := if last ≠ 47 then pathLen + 2 else pathLen + 1
  let containerPath := fresh fill pathSize
  let containerPath ← memcpy containerPath 0 path
  let containerPath ← store containerPath (pathSize - 2) 47
  let containerPath ← store containerPath (pathSize - 1) 0
  strAt containerPath 0

/-- `fileLocalPath`; `fill` is what the memory from the allocator has in it. -/
def FSDirect.fileLocalPath (fs : FSDirect) (l : Ledger) (path : CStr) (ok : Bool) (fill : Nat → Byte) :
    Eff (Option Cell × Ledger) :=
  match fs.containerPath with
  | none => .error .nullDeref
  | some containerPath =>
      let containerLen := containerPath.length
      let pathLen := path.length
      let localLen := containerLen + pathLen
      match l.malloc ok with
      | (none, l) => .ok (none, l)
      | (some b, l) => do
          let localPath := fresh fill (localLen + 1)
          let localPath ← memcpy localPath 0 containerPath
          let localPath ← memcpy localPath containerLen path
          let localPath ← store localPath localLen 0
          let s ← strAt localPath 0
          .ok (some ⟨b, s⟩, l)

/-- `strcpy(cwd, path); trueCwd=dirname(cwd); memmove(cwd, trueCwd, strlen(trueCwd)+1);` in a new block of
    `strlen(path)+1` bytes. -/
def dirnameInPlace (dir : Dirname) (path : CStr) (fill : Nat → Byte) : Eff CStr := do
  let cwd := fresh fill (path.length + 1)
  let cwd ← memcpy cwd 0 (path ++ [0])
  let (cwd, trueCwd) ← dir cwd
  let cwd ← match trueCwd with
    | .inside i => do
        let s ← strAt cwd i
        memmove cwd 0 i (s.length + 1)
    | .outside s => memcpy cwd 0 (s ++ [0])
  strAt cwd 0

namespace ProcessObj

/-- The object without its blocks. -/
def contents (o : ProcessObj) : Process where
  fds := o.fds
  argv := o.argv.map fun a => ((a.slots.take o.argc).filterMap Slot.cell?).map (·.text)
  dlHandle := o.dlHandle
  name := o.name.map (·.text)
  path := o.path.map (·.text)
  state := o.state
  posixPID := o.posixPID
  environ := o.environ.map fun a => a.cells.map (·.text)
  cwd := o.cwd.map (·.text)

/-- `~Process`. -/
def destroy (o : ProcessObj) (l : Ledger) : Eff Ledger := do
  let l ← match o.argv with
    | none => .ok l
    | some argv => l.freeArgv argv o.argc
  let l ← match o.dlHandle with
    | none => .ok l
    | some file => l.dlclose (some file)
  let l ← l.free (o.name.map (·.block))
  let l ← l.free (o.path.map (·.block))
  let l ← match o.environ with
    | none => .ok l
    | some environ => l.freeEntries environ
  l.free (o.cwd.map (·.block))

/-! ## Loading -/

/-- The `error` exit of `loadFileLocal`. -/
def unload (o : ProcessObj) (l : Ledger) : Eff (Bool × ProcessObj × Ledger) := do
  let l ← match o.dlHandle with
    | none => .ok l
    | some file => l.dlclose (some file)
  let l ← l.free (o.name.map (·.block))
  let l ← l.free (o.path.map (·.block))
  .ok (false, { o with dlHandle := none, name := none, path := none }, l)

/-- `loadFileLocal`. -/
def loadFileLocal (o : ProcessObj) (l : Ledger) (gpath : Cell) (h : LoadHost) : Eff (Bool × ProcessObj × Ledger) :=
  if o.state ≠ .none then .ok (false, o, l)
  else do
    let file ← l.text gpath
    let (dlHandle, l) := l.dlopen file h.dlopen
    let o := { o with dlHandle }
    if dlHandle = none then o.unload l
    else
      let o := { o with symbols := some file }
      if ¬ h.dlsym then o.unload l
      else
        match strstrrev file (bytes "/") with
        | none => .error .nullDeref  -- the result is used unchecked
        | some i => do
            let pathLast := file.drop (i + 1)
            let (name, l) ← l.dup h.name (pathLast.length + 1) pathLast
            let o := { o with name }
            if name = none then o.unload l
            else do
              let (path, l) ← l.dup h.path (file.length + 1) file
              let o := { o with path }
              if path = none then o.unload l else .ok (true, { o with state := .loaded }, l)

/-- The `error` exit of `loadFileFS`. -/
def dropCwd (o : ProcessObj) (l : Ledger) (localPath : Option Cell) : Eff (Bool × ProcessObj × Ledger) := do
  let l ← l.free (localPath.map (·.block))
  let l ← l.free (o.cwd.map (·.block))
  .ok (false, { o with cwd := none }, l)

/-- What the memory from the allocator has in it. -/
structure LoadFill where
  localPath : Nat → Byte
  cwd : Nat → Byte

/-- `loadFileFS`. -/
def loadFileFS (o : ProcessObj) (l : Ledger) (fs : FSDirect) (dir : Dirname) (path : Option CStr) (h : LoadHost)
    (fill : LoadFill) : Eff (Bool × ProcessObj × Ledger) :=
  if o.state ≠ .none then .ok (false, o, l)
  else
    match path with
    | none => .ok (false, o, l)
    | some path =>
        if path.head? ≠ some 47 then .ok (false, o, l)
        else do
          let (localPath, l) ← fs.fileLocalPath l path h.localPath fill.localPath
          match localPath with
          | none => o.dropCwd l none
          | some localPath =>
              if o.cwd ≠ none then .error .assertFailed
              else
                match l.malloc h.cwd with
                | (none, l) => o.dropCwd l (some localPath)
                | (some b, l) => do
                    let cwd ← dirnameInPlace dir path fill.cwd
                    let o := { o with cwd := some ⟨b, cwd⟩ }
                    let (loaded, o, l) ← o.loadFileLocal l localPath h
                    if loaded then do
                      let l ← l.free (some localPath.block)
                      .ok (true, o, l)
                    else o.dropCwd l (some localPath)

/-! ## The environment -/

/-- The clean-up of `setEnviron`, done when it starts and at its `error` exit. -/
def clearEnviron (o : ProcessObj) (l : Ledger) : Eff (ProcessObj × Ledger) := do
  let l ← match o.environ with
    | none => .ok l
    | some environ => l.freeEntries environ
  .ok ({ o with environ := none, infoEnviron := none }, l)

/-- `setEnviron`. -/
def setEnviron (o : ProcessObj) (l : Ledger) (env : Option PtrArray) (array : Bool) (entry : Nat → Bool) :
    Eff (Bool × ProcessObj × Ledger) := do
  let (o, l) ← o.clearEnviron l
  match env with
  | none => .ok (true, o, l)
  | some env => do
      let es ← l.entries env
      match l.malloc array with
      | (none, l) => .ok (false, o, l)
      | (some b, l) => do
          let (done, n, a, l) ← l.copyArgv entry es 0 ⟨b, List.replicate (es.length + 1) .indeterminate⟩
          if done then do
            let a ← l.setSlot a n .null
            .ok (true, { o with environ := some a, infoEnviron := some a.block }, l)
          else do
            let (o, l) ← { o with environ := some a }.clearEnviron l
            .ok (false, o, l)

/-! ## The directory -/

/-- `setCwd`; the path is looked at again when the old directory is gone. -/
def setCwd (o : ProcessObj) (l : Ledger) (gcwd : Option Cell) (ok : Bool) : Eff (Bool × ProcessObj × Ledger) :=
  match gcwd with
  | none => .error .nullDeref
  | some gcwd => do
      let _ ← l.text gcwd
      match l.malloc ok with
      | (none, l) => .ok (false, o, l)
      | (some ptr, l) => do
          let l ← l.free (o.cwd.map (·.block))
          let s ← l.text gcwd
          .ok (true, { o with cwd := some ⟨ptr, s⟩ }, l)

/-! ## Running -/

/-- The object as `arun` leaves it in the image that runs the program. -/
def started (o : ProcessObj) (argc : Nat) (argv : PtrArray) (posixPID : Int) : ProcessObj :=
  { o with state := .running, posixPID := posixPID, argc := argc, argv := some argv }

/-- How a run call ends in the image that made it, and the image of a forked child, which enters the program and
    exits when that is done. -/
structure RanHeap where
  ret : Bool
  obj : ProcessObj
  ledger : Ledger
  child : Option (ProcessObj × Ledger) := none

/-- `arun`, up to the entry of the program. -/
def arun (o : ProcessObj) (l : Ledger) (doFork : Bool) (argc : Nat) (argv : PtrArray) (fork self : Int) : RanHeap :=
  if o.state ≠ .loaded then { ret := false, obj := o, ledger := l }
  else if doFork then
    if fork < 0 then { ret := false, obj := o, ledger := l }
    else { ret := true, obj := o, ledger := l, child := some (o.started argc argv fork, l) }
  else { ret := true, obj := o.started argc argv self, ledger := l }

/-- `vrun`; the name goes in front of the arguments, and `argc` is an `unsigned int`. -/
def vrun (o : ProcessObj) (l : Ledger) (doFork : Bool) (args : List Cell) (h : RunHost) (self : Int) : Eff RanHeap :=
  let argc := (args.length + 1) % 2 ^ 32
  match l.malloc h.argv with
  | (none, l) => .ok { ret := false, obj := o, ledger := l }
  | (some b, l) =>
      match o.name with
      | none => .error .nullDeref  -- `strlen(name)`
      | some name => do
          let (done, i, argv, l) ← l.copyArgv h.arg (name :: args) 0 ⟨b, List.replicate argc .indeterminate⟩
          if done then do
            let r := o.arun l doFork argc argv h.fork self
            if r.ret then .ok r
            else do
              let ledger ← r.ledger.freeArgv argv argc
              .ok { r with ledger }
          else do
            let l ← l.freeArgv argv i
            .ok { ret := false, obj := o, ledger := l }

/-! ## Forking -/

/-- `size=strlen(s)+1; copy=malloc(size); memcpy(copy, s, size);` -/
def dupField (l : Ledger) (ok : Bool) (s : Option Cell) : Eff (Option Cell × Ledger) :=
  match s with
  | none => .error .nullDeref
  | some c => do
      let s ← l.text c
      l.dup ok (s.length + 1) s

/-- The strings of `info.argv`. -/
def args (o : ProcessObj) (l : Ledger) : Eff (List Cell) :=
  match o.argv with
  | none => if o.argc = 0 then .ok [] else .error .nullDeref
  | some argv => do
      let ps ← l.argPtrs argv o.argc
      if none ∈ ps then .error .nullDeref else .ok (ps.filterMap id)

/-- `forkCopy` from the name on: each step fills a field of the child, and one that fails leaves it empty. -/
def copyFields (child p : ProcessObj) (l : Ledger) (h : ForkCopyHost) : Eff (Bool × ProcessObj × Ledger) := do
  let (name, l) ← dupField l h.name p.name
  let child := { child with name }
  if name = none then .ok (false, child, l)
  else do
    let (path, l) ← dupField l h.path p.path
    let child := { child with path }
    if path = none then .ok (false, child, l)
    else do
      let (cwd, l) ← dupField l h.cwd p.cwd
      let child := { child with cwd }
      if cwd = none then .ok (false, child, l)
      else
        match p.path with
        | none => .error .nullDeref
        | some file => do
            let file ← l.text file
            let (dlHandle, l) := l.dlopen file h.dlopen
            let child := { child with dlHandle, symbols := dlHandle }
            if dlHandle = none ∨ ¬ h.dlsym then .ok (false, child, l)
            else do
              let child := { child with state := p.state }
              -- what `setEnviron` returns is not looked at
              let (_, child, l) ← child.setEnviron l p.environ h.environ h.environEntry
              .ok (true, child, l)

/-- `forkCopy` up to its `error` label, on a new object: whether it got to the end. -/
def copyInto (child p : ProcessObj) (l : Ledger) (h : ForkCopyHost) : Eff (Bool × ProcessObj × Ledger) :=
  match l.malloc h.argv with
  | (none, l) => .ok (false, child, l)
  | (some b, l) => do
      let args ← p.args l
      let (done, argc, argv, l) ← l.copyArgv h.arg args 0 ⟨b, List.replicate p.argc .indeterminate⟩
      let child := { child with argc, argv := some argv }
      if done then copyFields child p l h else .ok (false, child, l)

/-- The `error` label: the fields are released and, with the fields as they are, the object is deleted. -/
def abandon (child : ProcessObj) (l : Ledger) : Eff Ledger := do
  let l ← match child.argv with
    | none => .ok l
    | some argv => l.freeArgv argv child.argc
  let l ← l.dlclose child.dlHandle
  let l ← l.free (child.name.map (·.block))
  let l ← l.free (child.path.map (·.block))
  let l ← l.free (child.cwd.map (·.block))
  child.destroy l

/-- How `forkCopy` ends: it returns, or `new` throws and nothing catches it. -/
inductive ForkCopied
  | returned (child : Option (Nat × ProcessObj)) (ledger : Ledger)
  | terminated

/-- `forkCopy`; `newProc` is whether there is memory for the object. -/
def forkCopy (p : ProcessObj) (l : Ledger) (newProc : Bool) (h : ForkCopyHost) : Eff ForkCopied :=
  match l.malloc newProc with
  | (none, _) => .ok .terminated
  | (some obj, l) => do
      let (done, child, l) ← copyInto {} p l h
      if done then .ok (.returned (some (obj, child)) l)
      else do
        let l ← child.abandon l
        let l ← l.free (some obj)
        .ok (.returned none l)

end ProcessObj

end DistributedPlatform

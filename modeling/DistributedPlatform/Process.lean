import DistributedPlatform.Lib.Slots
import DistributedPlatform.Util

/-!
# `Process` — the process object

`process.cpp`. A pointer field is an `Option` of what it points to, a `char *` its bytes; the answers of
the allocator, the dynamic loader and `fork` are arguments. What is tracked is the contents of the fields;
which heap block holds them is not.
-/

namespace DistributedPlatform

inductive ProcessState
  | none
  | loaded
  | running
  deriving DecidableEq, Repr

/-- `class Process`. `argv` is `info.argv` with its `info.argc` strings, `dlHandle` the library file that
    is open; `info.environ` always equals `environ` and is not kept twice. The defaults are those of the
    constructor. -/
structure Process where
  fds : List Int := []
  argv : Option (List CStr) := none
  dlHandle : Option CStr := none
  name : Option CStr := none
  path : Option CStr := none
  state : ProcessState := .none
  posixPID : Int := -1
  environ : Option (List CStr) := none
  cwd : Option CStr := none
  deriving DecidableEq, Repr

/-- Answers to the calls of `loadFileFS` and `loadFileLocal`: the four `malloc`s, `dlopen`, and whether
    `dlsym` finds all of `main`, `_start` and `_restart`. -/
structure LoadHost where
  localPath : Bool
  cwd : Bool
  dlopen : Bool
  dlsym : Bool
  name : Bool
  path : Bool
  deriving DecidableEq, Repr

/-- Answers to the calls of `vrun`: the `malloc` of the vector, of its strings, and `fork()`. -/
structure RunHost where
  argv : Bool
  arg : Nat → Bool
  fork : Int

/-- No call of loading a program fails. -/
def LoadHost.succeeds (h : LoadHost) : Bool :=
  h.localPath && h.cwd && h.dlopen && h.dlsym && h.name && h.path

/-- Answers to the calls of `forkCopy`. -/
structure ForkCopyHost where
  argv : Bool
  arg : Nat → Bool
  name : Bool
  path : Bool
  cwd : Bool
  dlopen : Bool
  dlsym : Bool
  environ : Bool
  environEntry : Nat → Bool

/-- The first `n` of a family of allocations all succeed. -/
def allocsOk (n : Nat) (ok : Nat → Bool) : Bool := (List.range n).all ok

/-- No call of the copy of a process with `n` arguments fails; those for its environment are not looked at. -/
def ForkCopyHost.succeeds (h : ForkCopyHost) (n : Nat) : Bool :=
  h.argv && allocsOk n h.arg && h.name && h.path && h.cwd && h.dlopen && h.dlsym

/-- `fileLocalPath` of a mounted `FSDirect`: the container path (which ends in a slash) in front. -/
def fileLocalPath (containerPath path : CStr) (alloc : Bool) : Option CStr :=
  if alloc then some (containerPath ++ path) else none

/-- No call of running a program with `n` strings in its argument vector fails. -/
def RunHost.succeeds (h : RunHost) (n : Nat) : Bool := h.argv && allocsOk n h.arg && decide (0 ≤ h.fork)

theorem allocsOk_iff {n : Nat} {ok : Nat → Bool} : allocsOk n ok = true ↔ ∀ j < n, ok j = true := by
  simp [allocsOk]

namespace Process

/-! ## Loading -/

/-- The `error` exit of `loadFileLocal`. -/
def unload (p : Process) : Process := { p with dlHandle := none, name := none, path := none }

def loadFileLocal (p : Process) (gpath : CStr) (h : LoadHost) : Eff (Bool × Process) :=
  if p.state ≠ .none then .ok (false, p)
  else if ¬ h.dlopen then .ok (false, p.unload)
  else if ¬ h.dlsym then .ok (false, p.unload)
  else
    match strstrrev gpath (bytes "/") with
    | none => .error .nullDeref  -- the result is used unchecked
    | some i =>
        if ¬ h.name then .ok (false, p.unload)
        else if ¬ h.path then .ok (false, p.unload)
        else .ok (true, { p with
          dlHandle := some gpath, name := some (gpath.drop (i + 1)), path := some gpath,
          state := .loaded })

/-- `loadFileFS`: every `error` exit frees and clears `cwd`. -/
def loadFileFS (p : Process) (containerPath path : CStr) (h : LoadHost) : Eff (Bool × Process) :=
  if p.state ≠ .none then .ok (false, p)
  else if path.head? ≠ some 47 then .ok (false, p)
  else
    match fileLocalPath containerPath path h.localPath with
    | none => .ok (false, { p with cwd := none })
    | some localPath =>
        if p.cwd ≠ none then .error .assertFailed
        else if ¬ h.cwd then .ok (false, { p with cwd := none })
        else
          match { p with cwd := some (dirname path) }.loadFileLocal localPath h with
          | .error e => .error e
          | .ok (true, p) => .ok (true, p)
          | .ok (false, p) => .ok (false, { p with cwd := none })

/-! ## Working directory and environment -/

def setCwd (p : Process) (gcwd : CStr) (alloc : Bool) : Bool × Process :=
  if alloc then (true, { p with cwd := some gcwd }) else (false, p)

/-- `setEnviron`: the old environment is freed first; a failed copy leaves none. -/
def setEnviron (p : Process) (env : Option (List CStr)) (array : Bool) (entry : Nat → Bool) :
    Bool × Process :=
  match env with
  | none => (true, { p with environ := none })
  | some es =>
      if array ∧ allocsOk es.length entry then (true, { p with environ := some es })
      else (false, { p with environ := none })

/-! ## Running and forking -/

/-- The process object as `arun` leaves it in the image that runs the program. -/
def started (p : Process) (argv : List CStr) (posixPID : Int) : Process :=
  { p with state := .running, posixPID := posixPID, argv := some argv }

/-- How a run call ends: what the caller sees, and the object in the image that runs the program. -/
structure Ran where
  ret : Bool
  image : Option Process
  deriving DecidableEq, Repr

/-- `arun`: with `doFork` the program runs in a new host process, whose id is the answer of `fork()`; the
    caller's object is left as it is. Without, it runs in the calling host process `self`. -/
def arun (p : Process) (doFork : Bool) (argv : List CStr) (fork self : Int) : Ran :=
  if p.state ≠ .loaded then ⟨false, none⟩
  else if doFork then
    if fork < 0 then ⟨false, none⟩ else ⟨true, some (p.started argv fork)⟩
  else ⟨true, some (p.started argv self)⟩

/-- `vrun`: the program's name goes in front of the arguments. -/
def vrun (p : Process) (doFork : Bool) (args : List CStr) (h : RunHost) (self : Int) : Eff Ran :=
  if ¬ h.argv then .ok ⟨false, none⟩
  else
    match p.name with
    | none => .error .nullDeref
    | some name =>
        if ¬ allocsOk (args.length + 1) h.arg then .ok ⟨false, none⟩
        else .ok (p.arun doFork (name :: args) h.fork self)

/-- `run`: the arguments arrive as a variadic list. -/
def run (p : Process) (doFork : Bool) (args : List CStr) (h : RunHost) (self : Int) : Eff Ran :=
  p.vrun doFork args h self

/-- `forkCopy`: the child gets copies of the strings, its own library handle, the state and the
    environment; it gets no descriptors and no host process id. The `error` label does not get to its end: it closes
    the handle of the child, which is null before `dlopen`, and after that it releases the strings before the
    destructor releases them. -/
def forkCopy (p : Process) (h : ForkCopyHost) : Eff (Option Process) :=
  let args := p.argv.getD []
  if ¬ (h.argv ∧ allocsOk args.length h.arg) then .error .nullDeref
  else
    match p.name, p.path, p.cwd with
    | some name, some path, some cwd =>
        if ¬ (h.name ∧ h.path ∧ h.cwd ∧ h.dlopen) then .error .nullDeref
        else if ¬ h.dlsym then .error .dangling
        else
          let child : Process :=
            { argv := some args, name := some name, path := some path, cwd := some cwd,
              dlHandle := some path, state := p.state }
          -- the result of `setEnviron` is not looked at: a child may come without an environment
          .ok (some (child.setEnviron p.environ h.environ h.environEntry).2)
    | _, _, _ => .error .nullDeref

/-! ## Descriptors -/

/-- `fdAdd`: the first slot holding `-1`, or a new one. -/
def fdAdd (p : Process) (serverFd : Int) : Int × Process :=
  match p.fds.findIdx? (· == -1) with
  | some i => (i, { p with fds := p.fds.set i serverFd })
  | none => (p.fds.length, { p with fds := p.fds ++ [serverFd] })

/-- `fdRemove`: the first slot holding `serverFd` is set to `-1`. -/
def fdRemove (p : Process) (serverFd : Int) : Process :=
  match p.fds.findIdx? (· == serverFd) with
  | some i => { p with fds := p.fds.set i (-1) }
  | none => p

/-! ## What the operations can do -/

theorem fdAdd_eq_place (p : Process) (serverFd : Int) :
    p.fdAdd serverFd =
      (((Slots.place (· == -1) p.fds serverFd).1 : Int),
        { p with fds := (Slots.place (· == -1) p.fds serverFd).2 }) := by
  unfold fdAdd Slots.place
  cases p.fds.findIdx? (· == -1) <;> rfl

/-- `fdRemove` empties the slot of a server descriptor that stands in one slot only. -/
theorem fdRemove_of_unique {p : Process} {n : Nat} {v : Int} (hn : p.fds[n]? = some v)
    (huniq : ∀ k, p.fds[k]? = some v → k = n) :
    p.fdRemove v = { p with fds := p.fds.set n (-1) } := by
  unfold fdRemove
  split
  · next i hi =>
      obtain ⟨hlt, hv, -⟩ := List.findIdx?_eq_some_iff_getElem.mp hi
      have hin : i = n := huniq i (by rw [List.getElem?_eq_getElem hlt]; simpa using hv)
      rw [hin]
  · next hnone =>
      have hall := List.findIdx?_eq_none_iff.mp hnone v (List.mem_of_getElem? hn)
      simp at hall

/-- The exits of `loadFileLocal` on an object not yet loaded. -/
theorem loadFileLocal_cases {p : Process} (hp : p.state = .none) (gpath : CStr) (h : LoadHost) :
    (¬ (h.dlopen = true ∧ h.dlsym = true ∧ h.name = true ∧ h.path = true) ∧
      p.loadFileLocal gpath h = .ok (false, p.unload)) ∨
    strstrrev gpath (bytes "/") = none ∨
    ((h.dlopen = true ∧ h.dlsym = true ∧ h.name = true ∧ h.path = true) ∧
      ∃ i, strstrrev gpath (bytes "/") = some i ∧
        p.loadFileLocal gpath h = .ok (true, { p with
          dlHandle := some gpath, name := some (gpath.drop (i + 1)), path := some gpath,
          state := .loaded })) := by
  cases hi : strstrrev gpath (bytes "/") with
  | none => exact Or.inr (Or.inl rfl)
  | some i =>
      unfold loadFileLocal
      rw [if_neg (by simp [hp])]
      by_cases hdl : h.dlopen = true
      · by_cases hsym : h.dlsym = true
        · by_cases hn : h.name = true
          · by_cases hpa : h.path = true
            · exact Or.inr (Or.inr ⟨⟨hdl, hsym, hn, hpa⟩, i, rfl, by simp [hdl, hsym, hn, hpa, hi]⟩)
            · exact Or.inl ⟨fun hc => hpa hc.2.2.2, by simp [hdl, hsym, hn, hpa, hi]⟩
          · exact Or.inl ⟨fun hc => hn hc.2.2.1, by simp [hdl, hsym, hn, hi]⟩
        · exact Or.inl ⟨fun hc => hsym hc.2.1, by simp [hdl, hsym]⟩
      · exact Or.inl ⟨fun hc => hdl hc.1, by simp [hdl]⟩

/-- An absolute path has a slash for the search of `loadFileLocal` to find, whatever the container. -/
theorem slash_found (containerPath : CStr) {path : CStr} (h : path.head? = some 47) :
    strstrrev (containerPath ++ path) (bytes "/") ≠ none := by
  apply strstrrev_singleton_ne_none (b := 47)
  cases path with
  | nil => simp at h
  | cons b rest =>
      simp only [List.head?_cons, Option.some.injEq] at h
      simp [h]

/-- `setEnviron` changes the environment only. -/
theorem setEnviron_eq (p : Process) (env : Option (List CStr)) (array : Bool) (entry : Nat → Bool) :
    ∃ e, (p.setEnviron env array entry).2 = { p with environ := e } := by
  unfold setEnviron
  split
  · exact ⟨_, rfl⟩
  · split <;> exact ⟨_, rfl⟩

/-- The allocations of a copy of the environment succeed. -/
def EnvironCopied (env : Option (List CStr)) (array : Bool) (entry : Nat → Bool) : Prop :=
  ∀ es, env = some es → array = true ∧ allocsOk es.length entry = true

/-- The environment set is the one given, unless it could not be copied. -/
theorem setEnviron_environ_iff (p : Process) (env : Option (List CStr)) (array : Bool) (entry : Nat → Bool) :
    (p.setEnviron env array entry).2.environ = env ↔ EnvironCopied env array entry := by
  unfold setEnviron EnvironCopied
  cases env with
  | none => exact iff_of_true rfl (fun es hes => by cases hes)
  | some es =>
      by_cases hok : array = true ∧ allocsOk es.length entry = true
      · simp only [if_pos hok]
        exact iff_of_true trivial (fun es' hes => by cases hes; exact hok)
      · simp only [if_neg hok]
        exact iff_of_false nofun (fun hall => hok (hall es rfl))

/-- `setCwd` changes the working directory only. -/
theorem setCwd_eq (p : Process) (gcwd : CStr) (alloc : Bool) :
    ∃ d, (p.setCwd gcwd alloc).2 = { p with cwd := d } := by
  unfold setCwd
  split <;> exact ⟨_, rfl⟩

/-- A copy that fails is not survived. -/
theorem forkCopy_ne_none {p : Process} {h : ForkCopyHost} : p.forkCopy h ≠ .ok none := by
  intro hc
  unfold forkCopy at hc
  dsimp only at hc
  split at hc
  · cases hc
  · split at hc
    · split at hc
      · cases hc
      · split at hc <;> cases hc
    · cases hc

/-- The copy made for a child: the strings and the state of the parent, and its environment where that could
    be copied. -/
theorem forkCopy_exact {p c : Process} {h : ForkCopyHost} (hc : p.forkCopy h = .ok (some c)) :
    ∃ name path cwd, p.name = some name ∧ p.path = some path ∧ p.cwd = some cwd ∧
      c = (({ argv := some (p.argv.getD []), name := some name, path := some path, cwd := some cwd,
              dlHandle := some path, state := p.state } : Process).setEnviron
                p.environ h.environ h.environEntry).2 := by
  unfold forkCopy at hc
  simp only at hc
  split at hc
  · cases hc
  · split at hc
    · next name path cwd hname hpath hcwd =>
        split at hc
        · cases hc
        · split at hc
          · cases hc
          · cases hc
            exact ⟨name, path, cwd, hname, hpath, hcwd, rfl⟩
    · cases hc

/-- **When a process can be copied**: its strings are there, and no call fails. -/
theorem forkCopy_iff {p : Process} (hstrings : p.name ≠ none ∧ p.path ≠ none ∧ p.cwd ≠ none) (h : ForkCopyHost) :
    (h.succeeds (p.argv.getD []).length = true → ∃ c, p.forkCopy h = .ok (some c)) ∧
    (h.succeeds (p.argv.getD []).length = false → ∃ e, p.forkCopy h = .error e) := by
  obtain ⟨name, hname⟩ := Option.ne_none_iff_exists'.mp hstrings.1
  obtain ⟨path, hpath⟩ := Option.ne_none_iff_exists'.mp hstrings.2.1
  obtain ⟨cwd, hcwd⟩ := Option.ne_none_iff_exists'.mp hstrings.2.2
  unfold forkCopy ForkCopyHost.succeeds
  rw [hname, hpath, hcwd]
  dsimp only
  split
  · next hargs =>
      refine ⟨fun hall => absurd ?_ hargs, fun _ => ⟨_, rfl⟩⟩
      simp only [Bool.and_eq_true] at hall
      exact hall.1.1.1.1.1
  · next hargs =>
      split
      · next hrest =>
          refine ⟨fun hall => absurd ?_ hrest, fun _ => ⟨_, rfl⟩⟩
          simp only [Bool.and_eq_true] at hall
          exact ⟨hall.1.1.1.1.2, hall.1.1.1.2, hall.1.1.2, hall.1.2⟩
      · next hrest =>
          split
          · next hsym => exact ⟨fun hall => absurd (by simp at hall; exact hall.2) hsym, fun _ => ⟨_, rfl⟩⟩
          · next hsym =>
              refine ⟨fun _ => ⟨_, rfl⟩, fun hall => ?_⟩
              have hargs := not_not.mp hargs
              have hrest := not_not.mp hrest
              simp [hargs, hrest, not_not.mp hsym] at hall

/-- It has no descriptors and no host process id. -/
theorem forkCopy_some {p c : Process} {h : ForkCopyHost} (hc : p.forkCopy h = .ok (some c)) :
    c.fds = [] ∧ c.posixPID = -1 ∧ c.state = p.state := by
  obtain ⟨name, path, cwd, -, -, -, rfl⟩ := forkCopy_exact hc
  obtain ⟨e, he⟩ := setEnviron_eq
    ({ argv := some (p.argv.getD []), name := some name, path := some path, cwd := some cwd,
       dlHandle := some path, state := p.state } : Process) p.environ h.environ h.environEntry
  rw [he]
  exact ⟨rfl, rfl, rfl⟩

/-- The object as a successful `loadFileFS` leaves it. -/
def ofFile (localPath cwd name : CStr) : Process where
  dlHandle := some localPath
  name := some name
  path := some localPath
  cwd := some cwd
  state := .loaded

/-- A newly loaded object, given an environment and a working directory and run without forking: it runs in
    the calling host process. -/
theorem arun_ofFile (localPath cwd name : CStr) (env : Option (List CStr)) (array : Bool)
    (entry : Nat → Bool) (gcwd : CStr) (alloc : Bool) (argv : List CStr) (self : Int) :
    ((((ofFile localPath cwd name).setEnviron env array entry).2.setCwd gcwd alloc).2.arun
        false argv 0 self).image =
      some ((((ofFile localPath cwd name).setEnviron env array entry).2.setCwd gcwd alloc).2.started
        argv self) := by
  obtain ⟨e, he⟩ := (ofFile localPath cwd name).setEnviron_eq env array entry
  obtain ⟨d, hd⟩ := ((ofFile localPath cwd name).setEnviron env array entry).2.setCwd_eq gcwd alloc
  rw [hd, he]
  rfl

/-- **Loading into a fresh object never faults**: it is refused and leaves the object fresh, or it leaves
    it loaded with all its strings set; the second exactly when the path is absolute and no call fails. -/
theorem loadFileFS_new (containerPath path : CStr) (h : LoadHost) :
    (¬ (path.head? = some 47 ∧ h.succeeds = true) ∧
      ({} : Process).loadFileFS containerPath path h = .ok (false, {})) ∨
    ((path.head? = some 47 ∧ h.succeeds = true) ∧
      ({} : Process).loadFileFS containerPath path h =
        .ok (true, ofFile (containerPath ++ path) (dirname path) (lastPart path))) := by
  unfold loadFileFS fileLocalPath LoadHost.succeeds
  rw [if_neg (by simp)]
  by_cases hhead : path.head? = some 47
  · rw [if_neg (by simpa using hhead)]
    by_cases hlp : h.localPath = true
    · by_cases hcwd : h.cwd = true
      · rcases loadFileLocal_cases (p := { cwd := some (dirname path) }) rfl (containerPath ++ path) h
          with ⟨hfail, heq⟩ | hnone | ⟨⟨hdl, hsym, hn, hpa⟩, i, hi, heq⟩
        · refine Or.inl ⟨?_, by simp [hlp, hcwd, heq, unload]⟩
          rintro ⟨-, hok⟩
          simp only [Bool.and_eq_true] at hok
          exact hfail ⟨hok.1.1.1.2, hok.1.1.2, hok.1.2, hok.2⟩
        · exact absurd hnone (slash_found containerPath hhead)
        · obtain ⟨i', hi', hname⟩ := lastPart_eq containerPath hhead
          rw [hi] at hi'
          cases hi'
          exact Or.inr ⟨⟨hhead, by simp [hlp, hcwd, hdl, hsym, hn, hpa]⟩, by simp [hlp, hcwd, heq, hname, ofFile]⟩
      · exact Or.inl ⟨by simp [hcwd], by simp [hlp, hcwd]⟩
    · exact Or.inl ⟨by simp [hlp], by simp [hlp]⟩
  · exact Or.inl ⟨fun hc => hhead hc.1, by rw [if_pos hhead]⟩

end Process

end DistributedPlatform

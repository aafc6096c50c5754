import DistributedPlatform.Fs
import DistributedPlatform.Lib.Lexical
import DistributedPlatform.Server.Syscall

/-!
# `Correctness.Container` — host files a program can name

The two ways a path of a program reaches the host: `open(2)` in an open, `dlopen` in an exec. Neither they
nor the layers above simplify the path, so `..` in it is resolved by the host.

* `named_inside_iff` — the host paths a path is turned into lie at or below the container exactly when the
  path does not climb above its start, or names again the directories it left;
* `named_outside` — a path that does not.
-/

namespace DistributedPlatform
namespace Container

open Server Lexical

/-! ## Where a host path leads -/

/-- The moves of a path: one for each component other than `.`. -/
def moves (path : CStr) : List (Move CStr) :=
  (components 47 path).filterMap fun c =>
    if c = bytes "." then none else if c = bytes ".." then some .up else some (.down c)

/-- Lexical resolution of a host path, from the server's working directory if it is relative. -/
def resolve (cwd : List CStr) (path : CStr) : List CStr :=
  walk (if path.head? = some 47 then [] else cwd) (moves path)

/-- The host path denotes a place at or below the directory. -/
def Inside (cwd : List CStr) (dir hostPath : CStr) : Prop := resolve cwd dir <+: resolve cwd hostPath

/-- The path climbs no higher than its start, or goes down again by the last names of the directory. -/
def StaysInside (cwd : List CStr) (dir path : CStr) : Prop :=
  let r := reduce (moves path)
  (resolve cwd dir).drop ((resolve cwd dir).length - r.ups) <+: r.names

instance (cwd : List CStr) (dir hostPath : CStr) : Decidable (Inside cwd dir hostPath) :=
  inferInstanceAs (Decidable (_ <+: _))

instance (cwd : List CStr) (dir path : CStr) : Decidable (StaysInside cwd dir path) :=
  inferInstanceAs (Decidable (_ <+: _))

theorem moves_append (s t : CStr) : moves (s ++ 47 :: t) = moves s ++ moves t := by
  unfold moves
  rw [components_append, List.filterMap_append]

/-- A path put behind that of the mounted container is walked from the container. -/
theorem resolve_mounted {dir : CStr} {isDir alloc : Bool} {fs : FSDirect} {c : CStr}
    (hm : ({} : FSDirect).mountFile dir isDir alloc = .ok (true, fs)) (hc : fs.containerPath = some c)
    (cwd : List CStr) (path : CStr) :
    resolve cwd (c ++ path) = walk (resolve cwd dir) (moves path) := by
  obtain ⟨c', hc', hne, hcase⟩ := FSDirect.mountFile_ok hm
  rw [hc] at hc'
  cases hc'
  have hmoves : moves (c ++ path) = moves dir ++ moves path := by
    rcases hcase with rfl | ⟨d, rfl, rfl⟩
    · rw [List.append_assoc, List.singleton_append, moves_append]
    · have hnil : moves [] = [] := rfl
      rw [List.append_assoc, List.singleton_append, moves_append, moves_append, hnil, List.append_nil]
  have hhead : (c ++ path).head? = dir.head? := by
    obtain ⟨b, rest, rfl⟩ := List.exists_cons_of_ne_nil hne
    rcases hcase with rfl | ⟨d, hd, rfl⟩
    · simp
    · simp
  unfold resolve
  rw [hhead, hmoves, walk_append]

/-! ## The host paths a program names -/

/-- The path `loadFileFS` hands to `dlopen`, if it gets that far. -/
def dlopenPath (p : Process) (containerPath path : CStr) (h : LoadHost) : Option CStr :=
  if p.state ≠ .none ∨ path.head? ≠ some 47 then none
  else (fileLocalPath containerPath path h.localPath).filter fun _ => h.cwd

/-- The host path is handed to the host for a path given to open or exec by the process. -/
inductive Named (s : Server) (pid : Nat) (path : CStr) : CStr → Prop
  | open {flags : Int} {mode : Nat} {h : OpenHost} {r : FdResult} {hostPath : CStr} {f : Int} {m : Nat}
      {ret : Int} :
      s.syscallOpen pid path flags mode h = .ok r → .open hostPath f m ret ∈ r.calls →
      Named s pid path hostPath
  | exec {h : LoadHost} {curr : Process} {hostPath : CStr} :
      s.proc pid = some curr → dlopenPath {} s.filesystem path h = some hostPath →
      Named s pid path hostPath

/-- The path goes to the host with that of the container in front, and nothing else done to it. -/
theorem Named.eq {s : Server} {pid : Nat} {path hostPath : CStr} (h : Named s pid path hostPath) :
    hostPath = s.filesystem ++ path := by
  cases h with
  | «open» hr hmem =>
      unfold syscallOpen at hr
      split at hr
      · cases hr
      · exact (open_calls hr hmem).1
  | exec hp hd =>
      unfold dlopenPath fileLocalPath at hd
      split at hd
      · cases hd
      · obtain ⟨hlp, -⟩ := Option.filter_eq_some_iff.mp hd
        split at hlp
        · exact (Option.some.inj hlp).symm
        · cases hlp

/-- Every path reaches the host in one of the two ways: `/dev/…` by exec, any other by open. -/
theorem exists_named {s : Server} {pid : Nat} {curr : Process} (hp : s.proc pid = some curr) (path : CStr) :
    Named s pid path (s.filesystem ++ path) := by
  by_cases hdev : (bytes "/dev/").isPrefixOf path = true
  · have habs : path.head? = some 47 := by
      obtain ⟨rest, rfl⟩ := List.isPrefixOf_iff_prefix.mp hdev
      rfl
    exact .exec (h := ⟨true, true, true, true, true, true⟩) hp
      (by simp [dlopenPath, fileLocalPath, habs])
  · -- the host is asked even when it refuses
    have hr : s.syscallOpen pid path 0 0 ⟨true, -1, true, 0⟩ =
        .ok { ret := -1, srv := s, proc := curr
              calls := [.open (s.filesystem ++ path) 0 0 (-1)] } := by
      simp [syscallOpen, hp, fdOpenFdFromPath, hdev, fdOpenFdFromFile, fileLocalPath]
    exact .open hr (List.mem_singleton.mpr rfl)

/-- The library an exec leaves open is the file of the path handed to `dlopen`. -/
theorem exec_dlHandle {s : Server} {pid : Nat} {path : CStr} {argv : List CStr} {h : ExecHost} {self : Int}
    {r : Spawned} (hr : s.syscallExec pid path argv h self = .ok r) :
    r = { ret := -1, srv := s } ∨
    ∃ (t : Server) (q : Process), r.srv = t.setProc pid (some q) ∧ q.dlHandle ≠ none ∧
      q.dlHandle = dlopenPath {} s.filesystem path h.load := by
  rcases syscallExec_exact hr with ⟨-, rfl⟩ | ⟨curr, cwd, r', -, ⟨habs, hload⟩, -, -, rfl⟩
  · exact Or.inl rfl
  · refine Or.inr ⟨r'.srv, _, rfl, ?_⟩
    simp only [LoadHost.succeeds, Bool.and_eq_true] at hload
    rw [execed_eq]
    simp [Process.ofFile, dlopenPath, fileLocalPath, habs, hload.1.1.1.1, Option.filter]

/-! ## At or below the container -/

/-- **What a program can name.** With a directory mounted, all host paths that open and exec make of a path
    denote places at or below the directory if and only if the path stays inside, read by itself. -/
theorem named_inside_iff {dir : CStr} {isDir alloc : Bool} {fs : FSDirect} {s : Server}
    (hm : ({} : FSDirect).mountFile dir isDir alloc = .ok (true, fs))
    (hs : fs.containerPath = some s.filesystem) {pid : Nat} {curr : Process} (hp : s.proc pid = some curr)
    (cwd : List CStr) (path : CStr) :
    (∀ hostPath, Named s pid path hostPath → Inside cwd dir hostPath) ↔ StaysInside cwd dir path := by
  have hiff : Inside cwd dir (s.filesystem ++ path) ↔ StaysInside cwd dir path := by
    unfold Inside
    rw [resolve_mounted hm hs]
    exact prefix_walk_iff _ _
  constructor
  · intro h
    exact hiff.mp (h _ (exists_named hp path))
  · intro h hostPath hn
    rw [hn.eq]
    exact hiff.mpr h

/-- A server with a container and one program. -/
def mounted : Server where
  procs := [some {}, some { state := .running, posixPID := 100, cwd := some (bytes "/") }]
  filesystem := bytes "/srv/container/"

theorem named_inside_profile :
    StaysInside [] (bytes "/srv/container") (bytes "/bin/../home//.profile") ∧
      ∀ hostPath, Named mounted 1 (bytes "/bin/../home//.profile") hostPath →
        Inside [] (bytes "/srv/container") hostPath := by
  have hm : ({} : FSDirect).mountFile (bytes "/srv/container") true true =
      .ok (true, { containerPath := some mounted.filesystem }) := rfl
  have hstays : StaysInside [] (bytes "/srv/container") (bytes "/bin/../home//.profile") := by decide
  exact ⟨hstays, (named_inside_iff hm rfl rfl [] (bytes "/bin/../home//.profile")).mpr hstays⟩

/-- A path with `..` at its front names a file beside the container. -/
theorem named_outside :
    ∃ hostPath, Named mounted 1 (bytes "/../passwd") hostPath ∧
      ¬ Inside [] (bytes "/srv/container") hostPath :=
  ⟨_, exists_named rfl _, by decide⟩

end Container
end DistributedPlatform

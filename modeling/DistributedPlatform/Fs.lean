import DistributedPlatform.Process

/-!
# `Fs` — the mounted container

`fsdirect.cpp`: the file system the server boots from is a directory of the host, and a path of a program is
put behind the path of that directory as it is.
-/

namespace DistributedPlatform

/-- `class FSDirect`. -/
structure FSDirect where
  containerPath : Option CStr := none
  deriving DecidableEq, Repr

namespace FSDirect

/-- `mountFile`; `isDir` is the answer of `stat(2)`, which finds nothing at the empty path. The path is
    stored with a slash at its end. -/
def mountFile (fs : FSDirect) (path : CStr) (isDir alloc : Bool) : Eff (Bool × FSDirect) :=
  if fs.containerPath ≠ none then .ok (false, fs)
  else if ¬ isDir then .ok (false, fs)
  else
    match path.getLast? with
    | none => .error .outOfBounds  -- `path[pathLen-1]`
    | some b =>
        if ¬ alloc then .ok (false, fs)
        else .ok (true, { containerPath := some (if b = 47 then path else path ++ [47]) })

def unmount (_ : FSDirect) : FSDirect := { containerPath := none }

/-- What `mountFile` stores: the path, which is not empty, with a slash at its end. -/
theorem mountFile_ok {path : CStr} {isDir alloc : Bool} {fs : FSDirect}
    (h : ({} : FSDirect).mountFile path isDir alloc = .ok (true, fs)) :
    ∃ c, fs.containerPath = some c ∧ path ≠ [] ∧ (c = path ++ [47] ∨ ∃ d, path = d ++ [47] ∧ c = path) := by
  unfold mountFile at h
  rw [if_neg (by simp)] at h
  split at h
  · cases h
  · split at h
    · cases h
    · next b hb =>
        split at h
        · cases h
        · obtain ⟨d, rfl⟩ := List.getLast?_eq_some_iff.mp hb
          cases h
          refine ⟨_, rfl, by simp, ?_⟩
          by_cases hslash : b = 47
          · right
            subst hslash
            exact ⟨d, rfl, if_pos rfl⟩
          · exact Or.inl (if_neg hslash)

end FSDirect

end DistributedPlatform

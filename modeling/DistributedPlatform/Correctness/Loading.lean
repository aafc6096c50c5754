import DistributedPlatform.ProcessHeap

/-!
# `Correctness.Loading` — loading a program, with what can fail

Two loaders, each with its own clean-up. `loadFileLocal` clears the three fields it fills, `loadFileFS` the working
directory; so where one fails the object is as it was, but for the functions looked up.

* `copyPath_eq`, `fileLocalPath_eq`, `dirnameInPlace_eq` — the buffers;
* `loadFileLocal_cases`, `loadFileFS_cases` — how the loaders end;
* `load_once` — a load of an object that is not loaded, and the load after one that failed;
* `loadFileFS_contents` — a first load as `Process.loadFileFS` has it.
-/

namespace DistributedPlatform
namespace Loading

open Arena (Grown)
open Ledger ProcessObj

variable {l : Ledger} {o : ProcessObj} {fs : FSDirect} {dir : Dirname} {value : CStr → CStr} {c p : CStr}
  {path : Option CStr} {h : LoadHost}

/-! ## The buffers -/

/-- The copy of the container path and the path fits. -/
theorem fileLocalPath_eq (hfs : fs.containerPath = some c) (hc : 0 ∉ c) (hp : 0 ∉ p) (l : Ledger) (ok : Bool)
    (fill : Nat → Byte) :
    fs.fileLocalPath l p ok fill =
      .ok (if ok then (some ⟨l.heap.next, c ++ p⟩, { l with heap := l.heap.push }) else (none, l)) := by
  cases ok with
  | false => simp only [FSDirect.fileLocalPath, hfs, malloc_false, Bool.false_eq_true, if_false]
  | true =>
      have hlen := length_fresh fill (c.length + p.length + 1)
      obtain ⟨m₁, r, hparts, hm₁, hr⟩ := exists_parts hlen
      obtain ⟨k₁, k₂, rfl, hk₁, hk₂⟩ := exists_parts hm₁
      obtain ⟨x, rfl⟩ := List.length_eq_one_iff.mp hr
      have hfirst : memcpy (k₁ ++ k₂ ++ [x]) 0 c = .ok (c ++ k₂ ++ [x]) := by
        have h := memcpy_append (l := []) (m := k₁) (r := k₂ ++ [x]) hk₁.symm
        simpa using h
      have hsecond : memcpy (c ++ k₂ ++ [x]) c.length p = .ok (c ++ p ++ [x]) := memcpy_append hk₂.symm
      have hnul : store (c ++ p ++ [x]) (c.length + p.length) 0 = .ok (c ++ p ++ [0]) := by
        have h := store_append (c ++ p) [] x 0
        rwa [List.length_append] at h
      have hread : strAt (c ++ p ++ [0]) 0 = .ok (c ++ p) :=
        strAt_append (s := c ++ p) (by simp [hc, hp]) [] []
      simp only [FSDirect.fileLocalPath, hfs, malloc_true, hparts, hfirst, hsecond, hnul, hread, bind, Except.bind,
        if_true]

/-- The string a result of `dirname` points to. -/
def Points (b : Block) (s : CStr) : DirPtr → Prop
  | .inside i => strAt b i = .ok s
  | .outside t => t = s

/-- `dirname` follows POSIX: it may change the path it is given, where it is, and returns the directory `value` of
    it; that is no longer than the path. -/
structure Posix (dir : Dirname) (value : CStr → CStr) : Prop where
  returns : ∀ p, p.head? = some 47 → 0 ∉ p →
    ∃ b r, dir (p ++ [0]) = .ok (b, r) ∧ b.length = p.length + 1 ∧ Points b (value p) r
  noNul : ∀ p, p.head? = some 47 → 0 ∉ p → 0 ∉ value p
  bounded : ∀ p, p.head? = some 47 → (value p).length ≤ p.length

/-- The directory is moved to the front of the buffer of the path, and fits. -/
theorem dirnameInPlace_eq (hdir : Posix dir value) (habs : p.head? = some 47) (hp : 0 ∉ p) (fill : Nat → Byte) :
    dirnameInPlace dir p fill = .ok (value p) := by
  obtain ⟨b, r, hcall, hlen, hpoints⟩ := hdir.returns p habs hp
  have hcopy : memcpy (fresh fill (p.length + 1)) 0 (p ++ [0]) = .ok (p ++ [0]) := by
    have h := memcpy_append (l := []) (m := fresh fill (p.length + 1)) (r := []) (s := p ++ [0])
      (by rw [length_fresh, List.length_append]; rfl)
    simpa using h
  have hnul := hdir.noNul p habs hp
  have hread : ∀ rest, strAt (value p ++ 0 :: rest) 0 = .ok (value p) := fun rest => strAt_append hnul [] rest
  cases r with
  | inside i =>
      obtain ⟨front, back, rfl, rfl, -⟩ := exists_of_strAt hpoints
      have hsrc : Buffer.read (front ++ value p ++ 0 :: back) front.length ((value p).length + 1) =
          some (value p ++ [0]) := by
        have h := Buffer.read_append (l := front) (m := value p ++ [0]) (r := back)
        simpa using h
      have hmove : ∃ rest, memmove (front ++ value p ++ 0 :: back) 0 front.length ((value p).length + 1) =
          .ok (value p ++ 0 :: rest) := by
        have hroom : 0 + (value p ++ [0]).length ≤ (front ++ value p ++ 0 :: back).length := by
          simp
          omega
        have hwrite := Buffer.write_of_le hroom
        refine ⟨(front ++ value p ++ 0 :: back).drop ((value p).length + 1), ?_⟩
        simp only [memmove, hsrc, inBounds, bind, Except.bind, hwrite]
        simp
      obtain ⟨rest, hmove⟩ := hmove
      have hstring : strAt (front ++ value p ++ 0 :: back) front.length = .ok (value p) := hpoints
      simp only [dirnameInPlace, hcopy, hcall, hstring, hmove, hread, bind, Except.bind]
  | outside s =>
      cases hpoints
      obtain ⟨front, back, rfl, hfront, -⟩ := exists_parts (b := b) (n := (value p).length + 1)
        (m := p.length - (value p).length) (by have := hdir.bounded p habs; omega)
      have hput : memcpy (front ++ back) 0 (value p ++ [0]) = .ok (value p ++ 0 :: back) := by
        have h := memcpy_append (l := []) (m := front) (r := back) (s := value p ++ [0])
          (by rw [hfront, List.length_append]; rfl)
        simpa using h
      simp only [dirnameInPlace, hcopy, hcall, hput, hread, bind, Except.bind]

/-! ## The loaders -/

/-- The fields `loadFileLocal` fills are as the constructor leaves them. -/
structure Closed (o : ProcessObj) : Prop where
  state : o.state = .none
  name : o.name = none
  path : o.path = none
  dlHandle : o.dlHandle = none

/-- … and those `loadFileFS` does. -/
structure Unloaded (o : ProcessObj) : Prop extends Closed o where
  cwd : o.cwd = none

theorem Closed.exists_eq (ho : Closed o) :
    ∃ o₁ : ProcessObj, o = { o₁ with state := .none, name := none, path := none, dlHandle := none } := by
  refine ⟨o, ?_⟩
  cases o
  cases ho.state
  cases ho.name
  cases ho.path
  cases ho.dlHandle
  rfl

/-- A file that was opened is closed again. -/
theorem unload_opened (o : ProcessObj) (file : CStr) {name : Option Cell} {m m' : Arena}
    (hfree : Ledger.free { l with heap := m } (name.map (·.block)) = .ok { l with heap := m' }) :
    unload { o with dlHandle := some file, name := name, path := none } ⟨m, file :: l.libs, l.stray⟩ =
      .ok (false, { o with dlHandle := none, name := none, path := none }, { l with heap := m' }) := by
  have hclose : Ledger.dlclose ⟨m, file :: l.libs, l.stray⟩ (some file) = .ok { l with heap := m } := by
    simp [Ledger.dlclose]
  simp only [unload, hclose, hfree, Option.map_none, free_none, bind, Except.bind]

/-- The calls of `loadFileLocal` succeed. -/
structure Opens (h : LoadHost) : Prop where
  dlopen : h.dlopen = true
  dlsym : h.dlsym = true
  name : h.name = true
  path : h.path = true

/-- **The inner loader**: it refuses, and all it opened and allocated is gone, or it fills its fields. -/
theorem loadFileLocal_cases (ho : Closed o) {g : Cell} (hg : g.block ∈ l.heap.live) {i : Nat}
    (hi : strstrrev g.text (bytes "/") = some i) :
    (¬ Opens h ∧ ∃ s m, Grown l.heap [] m ∧
      o.loadFileLocal l g h = .ok (false, { o with symbols := s }, { l with heap := m })) ∨
    (Opens h ∧ ∃ n q m, Grown l.heap [n, q] m ∧
      o.loadFileLocal l g h = .ok (true, { o with
        dlHandle := some g.text, symbols := some g.text, name := some ⟨n, g.text.drop (i + 1)⟩,
        path := some ⟨q, g.text⟩, state := .loaded }, { l with heap := m, libs := g.text :: l.libs })) := by
  have htext := text_eq hg
  obtain ⟨o₁, rfl⟩ := ho.exists_eq
  cases hopen : h.dlopen with
  | false =>
      refine Or.inl ⟨fun hall => Bool.false_ne_true (hopen.symm.trans hall.dlopen), o₁.symbols, l.heap, .refl _, ?_⟩
      simp only [loadFileLocal, htext, Ledger.dlopen, hopen, bind, Except.bind, Bool.false_eq_true, if_false]
      rfl
  | true =>
      have hnone : Ledger.free { l with heap := l.heap } ((none : Option Cell).map (·.block)) = .ok l := rfl
      have hnothing := unload_opened { o₁ with symbols := some g.text, state := .none } g.text hnone
      cases hsym : h.dlsym with
      | false =>
          refine Or.inl ⟨fun hall => Bool.false_ne_true (hsym.symm.trans hall.dlsym), some g.text, l.heap, .refl _, ?_⟩
          simp only [loadFileLocal, htext, Ledger.dlopen, hopen, hsym, bind, Except.bind, Bool.false_eq_true, if_true]
          exact hnothing
      | true =>
          cases hname : h.name with
          | false =>
              refine Or.inl ⟨fun hall => Bool.false_ne_true (hname.symm.trans hall.name), some g.text, l.heap,
                .refl _, ?_⟩
              simp only [loadFileLocal, htext, Ledger.dlopen, hopen, hsym, hi, hname, dup_false, bind, Except.bind,
                if_true]
              exact hnothing
          | true =>
              have hpush := Grown.push l.heap
              cases hpath : h.path with
              | false =>
                  obtain ⟨m, hfree, hm⟩ := hpush.free (.refl _)
                  refine Or.inl ⟨fun hall => Bool.false_ne_true (hpath.symm.trans hall.path), some g.text, m, hm, ?_⟩
                  simp only [loadFileLocal, htext, Ledger.dlopen, hopen, hsym, hi, hname, hpath, dup_true, dup_false,
                    bind, Except.bind, if_true]
                  exact unload_opened { o₁ with symbols := some g.text, state := .none } g.text
                    (free_eq (l := { l with heap := l.heap.push }) hfree)
              | true =>
                  refine Or.inr ⟨⟨hopen, hsym, hname, hpath⟩, l.heap.next, l.heap.push.next, l.heap.push.push,
                    hpush.trans (Grown.push _), ?_⟩
                  simp only [loadFileLocal, htext, Ledger.dlopen, hopen, hsym, hi, hname, hpath, dup_true, bind,
                    Except.bind, if_true]
                  rfl

theorem succeeds_iff : h.succeeds = true ↔ h.localPath = true ∧ h.cwd = true ∧ Opens h := by
  unfold LoadHost.succeeds
  simp only [Bool.and_eq_true]
  constructor
  · rintro ⟨⟨⟨⟨⟨hlocal, hcwd⟩, hopen⟩, hsym⟩, hname⟩, hpath⟩
    exact ⟨hlocal, hcwd, hopen, hsym, hname, hpath⟩
  · rintro ⟨hlocal, hcwd, hopen, hsym, hname, hpath⟩
    exact ⟨⟨⟨⟨⟨hlocal, hcwd⟩, hopen⟩, hsym⟩, hname⟩, hpath⟩

/-- With both buffers allocated, what the inner loader does decides. -/
theorem loadFileFS_eq (ho : Unloaded o) (hfs : fs.containerPath = some c) (hc : 0 ∉ c) (hdir : Posix dir value)
    (habs : p.head? = some 47) (hp : 0 ∉ p) (hlocal : h.localPath = true) (hcwd : h.cwd = true) (fill : LoadFill) :
    o.loadFileFS l fs dir (some p) h fill =
      (loadFileLocal { o with cwd := some ⟨l.heap.push.next, value p⟩ } { l with heap := l.heap.push.push }
          ⟨l.heap.next, c ++ p⟩ h >>= fun (loaded, o, l') =>
        if loaded then l'.free (some l.heap.next) >>= fun l => .ok (true, o, l)
        else o.dropCwd l' (some ⟨l.heap.next, c ++ p⟩)) := by
  have hstate : ¬ o.state ≠ .none := not_not_intro ho.state
  have hnocwd : ¬ o.cwd ≠ none := not_not_intro ho.cwd
  have hpath := fileLocalPath_eq hfs hc hp l true fill.localPath
  have hdirname := dirnameInPlace_eq hdir habs hp fill.cwd
  simp only [loadFileFS, if_neg hstate, if_neg (not_not_intro habs), hlocal, hpath, if_true, if_neg hnocwd, hcwd,
    malloc_true, hdirname, bind, Except.bind]

/-- … and one that fails gives the buffers back. -/
theorem dropCwd_eq {g d : Cell} {m m₁ m₂ : Arena} (hfirst : m.free g.block = some m₁)
    (hsecond : m₁.free d.block = some m₂) (o : ProcessObj) (l : Ledger) :
    dropCwd { o with cwd := some d } { l with heap := m } (some g) =
      .ok (false, { o with cwd := none }, { l with heap := m₂ }) := by
  have hdrop₁ := free_eq (l := { l with heap := m }) hfirst
  have hdrop₂ := free_eq (l := { l with heap := m₁ }) hsecond
  simp only [dropCwd, Option.map_some, hdrop₁, hdrop₂, bind, Except.bind]

/-- A path that is not absolute, or a buffer that cannot be allocated: all is as before. -/
theorem loadFileFS_refused (ho : Unloaded o) (hfs : fs.containerPath = some c) (hc : 0 ∉ c)
    (hpath : ∀ p, path = some p → 0 ∉ p) (l : Ledger) (fill : LoadFill)
    (hno : ¬ ∃ p, path = some p ∧ p.head? = some 47 ∧ h.localPath = true ∧ h.cwd = true) :
    ∃ m, Grown l.heap [] m ∧ o.loadFileFS l fs dir path h fill = .ok (false, o, { l with heap := m }) := by
  have hstate : ¬ o.state ≠ .none := not_not_intro ho.state
  have hsame : { o with cwd := none } = o := by
    cases o
    cases ho.cwd
    rfl
  cases path with
  | none =>
      refine ⟨l.heap, .refl _, ?_⟩
      simp only [loadFileFS, if_neg hstate]
  | some p =>
      by_cases habs : p.head? = some 47
      · have hbuffer := fileLocalPath_eq hfs hc (hpath p rfl) l h.localPath fill.localPath
        cases hlocal : h.localPath with
        | false =>
            rw [hlocal] at hbuffer
            refine ⟨l.heap, .refl _, ?_⟩
            simp only [loadFileFS, if_neg hstate, if_neg (not_not_intro habs), hlocal, hbuffer, bind, Except.bind,
              Bool.false_eq_true, if_false, dropCwd, ho.cwd, Option.map_none, free_none, hsame]
        | true =>
            rw [hlocal, if_pos rfl] at hbuffer
            cases hcwd : h.cwd with
            | false =>
                -- the path built is given back
                obtain ⟨m, hfree, hm⟩ := (Grown.push l.heap).free (.refl _)
                have hdrop := free_eq (l := { l with heap := l.heap.push }) hfree
                refine ⟨m, hm, ?_⟩
                simp only [loadFileFS, if_neg hstate, if_neg (not_not_intro habs), hlocal, hbuffer, bind, Except.bind,
                  hcwd, malloc_false, dropCwd, ho.cwd, ne_eq, not_true_eq_false, if_false, Option.map_none,
                  Option.map_some, hdrop, free_none, hsame]
            | true => exact absurd ⟨p, rfl, habs, hlocal, hcwd⟩ hno
      · refine ⟨l.heap, .refl _, ?_⟩
        simp only [loadFileFS, if_neg hstate, if_pos habs]

/-- **The ways a load ends**: it is refused, with nothing left of it, or the fields are filled. -/
theorem loadFileFS_cases (ho : Unloaded o) (hfs : fs.containerPath = some c) (hc : 0 ∉ c) (hdir : Posix dir value)
    (hpath : ∀ p, path = some p → 0 ∉ p) (l : Ledger) (h : LoadHost) (fill : LoadFill) :
    ((¬ ∃ p, path = some p ∧ p.head? = some 47 ∧ h.succeeds = true) ∧ ∃ s m, Grown l.heap [] m ∧
      o.loadFileFS l fs dir path h fill = .ok (false, { o with symbols := s }, { l with heap := m })) ∨
    (∃ p, (path = some p ∧ p.head? = some 47 ∧ h.succeeds = true) ∧ ∃ d n q m, Grown l.heap [d, n, q] m ∧
      o.loadFileFS l fs dir path h fill = .ok (true, { o with
        cwd := some ⟨d, value p⟩, dlHandle := some (c ++ p), symbols := some (c ++ p),
        name := some ⟨n, lastPart p⟩, path := some ⟨q, c ++ p⟩, state := .loaded },
        { l with heap := m, libs := (c ++ p) :: l.libs })) := by
  by_cases hbuffers : ∃ p, path = some p ∧ p.head? = some 47 ∧ h.localPath = true ∧ h.cwd = true
  · obtain ⟨p, rfl, habs, hlocal, hcwd⟩ := hbuffers
    have hfirst := Grown.push l.heap
    have hsecond := Grown.push l.heap.push
    obtain ⟨i, hi, hname⟩ := lastPart_eq c habs
    have hlive : l.heap.next ∈ l.heap.push.push.live := by
      rw [hsecond.live, hfirst.live]
      simp
    have hclosed : Closed { o with cwd := some ⟨l.heap.push.next, value p⟩ } :=
      ⟨ho.state, ho.name, ho.path, ho.dlHandle⟩
    rw [loadFileFS_eq ho hfs hc hdir habs (hpath p rfl) hlocal hcwd fill]
    rcases loadFileLocal_cases (l := { l with heap := l.heap.push.push }) (h := h) hclosed
      (g := ⟨l.heap.next, c ++ p⟩) hlive hi with
      ⟨hfail, s, m, hm, hload⟩ | ⟨hopen, n, q, m, hm, hload⟩
    · -- the two buffers are left, and are released
      obtain ⟨m₁, hfree₁, hm₁⟩ := hfirst.free (hsecond.trans hm)
      obtain ⟨m₂, hfree₂, hm₂⟩ := hm₁.free (.refl _)
      refine Or.inl ⟨?_, s, m₂, hm₂, ?_⟩
      · rintro ⟨-, -, -, hall⟩
        exact hfail (succeeds_iff.mp hall).2.2
      · have hsame : { o with symbols := s, cwd := none } = { o with symbols := s } := by
          cases o
          cases ho.cwd
          rfl
        rw [hload]
        have hdrop := dropCwd_eq (g := ⟨l.heap.next, c ++ p⟩) (d := ⟨l.heap.push.next, value p⟩) hfree₁ hfree₂
          { o with symbols := s } l
        exact hdrop.trans (by rw [hsame])
    · -- only the path built is
      obtain ⟨m₁, hfree₁, hm₁⟩ := hfirst.free (hsecond.trans hm)
      refine Or.inr ⟨p, ⟨rfl, habs, succeeds_iff.mpr ⟨hlocal, hcwd, hopen⟩⟩, l.heap.push.next, n, q, m₁, hm₁, ?_⟩
      have hdrop := free_eq (l := ⟨m, (c ++ p) :: l.libs, l.stray⟩) hfree₁
      rw [hname] at hload
      rw [hload]
      show (Ledger.free ⟨m, (c ++ p) :: l.libs, l.stray⟩ _ >>= _) = _
      rw [hdrop]
      rfl
  · obtain ⟨m, hm, hload⟩ := loadFileFS_refused ho hfs hc hpath l fill hbuffers
    refine Or.inl ⟨?_, o.symbols, m, hm, hload⟩
    rintro ⟨p, hp, habs, hall⟩
    obtain ⟨hlocal, hcwd, -⟩ := succeeds_iff.mp hall
    exact hbuffers ⟨p, hp, habs, hlocal, hcwd⟩

/-! ## A load -/

/-- What a load of a process `o` from the container `c` gives: the program of the path is there, or `o` is as it was,
    but for the functions looked up. Nothing else changes, and no memory or library is held in vain. -/
structure FirstLoad (value : CStr → CStr) (c : CStr) (o : ProcessObj) (l : Ledger) (path : Option CStr) (h : LoadHost)
    (r : Bool × ProcessObj × Ledger) : Prop where
  ret : r.1 = true ↔ ∃ p, path = some p ∧ p.head? = some 47 ∧ h.succeeds = true
  loaded : r.1 = true → ∃ p d n q, path = some p ∧
    r.2.1 = { o with
      cwd := some ⟨d, value p⟩, dlHandle := some (c ++ p), symbols := some (c ++ p), name := some ⟨n, lastPart p⟩,
      path := some ⟨q, c ++ p⟩, state := .loaded } ∧
    Grown l.heap [d, n, q] r.2.2.heap ∧ r.2.2.libs = (c ++ p) :: l.libs
  refused : r.1 = false → r.2.1 = { o with symbols := r.2.1.symbols } ∧ Grown l.heap [] r.2.2.heap ∧
    r.2.2.libs = l.libs
  stray : r.2.2.stray = l.stray

theorem exists_firstLoad (ho : Unloaded o) (hfs : fs.containerPath = some c) (hc : 0 ∉ c) (hdir : Posix dir value)
    (hpath : ∀ p, path = some p → 0 ∉ p) (l : Ledger) (h : LoadHost) (fill : LoadFill) :
    ∃ r, o.loadFileFS l fs dir path h fill = .ok r ∧ FirstLoad value c o l path h r := by
  rcases loadFileFS_cases ho hfs hc hdir hpath l h fill with
    ⟨hno, s, m, hm, hload⟩ | ⟨p, hyes, d, n, q, m, hm, hload⟩
  · exact ⟨_, hload, iff_of_false Bool.false_ne_true hno, nofun, fun _ => ⟨rfl, hm, rfl⟩, rfl⟩
  · exact ⟨_, hload, iff_of_true rfl ⟨p, hyes⟩, fun _ => ⟨p, d, n, q, hyes.1, rfl, hm, rfl⟩, nofun, rfl⟩

/-- A load does not look at the functions that were looked up before. -/
theorem FirstLoad.of_symbols {s : Option CStr} {r : Bool × ProcessObj × Ledger}
    (hr : FirstLoad value c { o with symbols := s } l path h r) : FirstLoad value c o l path h r where
  ret := hr.ret
  loaded := hr.loaded
  refused := hr.refused
  stray := hr.stray

/-- **Loading a process that is not loaded**, from any mounted container and with any path and any answers. The call
    returns, so no copy leaves its buffer and the last slash is found. It returns `true` exactly for an absolute path
    and when no step fails; then the process has the name, the directory and the file of the path. Otherwise it is
    unloaded as before, and what a later load of it does is what it would have done without the first. -/
theorem load_once (ho : Unloaded o) (hfs : fs.containerPath = some c) (hc : 0 ∉ c) (hdir : Posix dir value)
    (hpath : ∀ p, path = some p → 0 ∉ p) (l : Ledger) (h : LoadHost) (fill : LoadFill) :
    ∃ r, o.loadFileFS l fs dir path h fill = .ok r ∧ FirstLoad value c o l path h r ∧
      (r.1 = false → Unloaded r.2.1 ∧ ∀ path' h' fill', (∀ p, path' = some p → 0 ∉ p) →
        ∃ r', r.2.1.loadFileFS r.2.2 fs dir path' h' fill' = .ok r' ∧ FirstLoad value c o r.2.2 path' h' r') := by
  obtain ⟨r, hload, hr⟩ := exists_firstLoad ho hfs hc hdir hpath l h fill
  refine ⟨r, hload, hr, fun hret => ?_⟩
  obtain ⟨hsame, -, -⟩ := hr.refused hret
  have hunloaded : Unloaded r.2.1 := by
    rw [hsame]
    exact ⟨⟨ho.state, ho.name, ho.path, ho.dlHandle⟩, ho.cwd⟩
  refine ⟨hunloaded, fun path' h' fill' hpath' => ?_⟩
  obtain ⟨r', hload', hr'⟩ := exists_firstLoad hunloaded hfs hc hdir hpath' r.2.2 h' fill'
  rw [hsame] at hr'
  exact ⟨r', hload', hr'.of_symbols⟩

/-- A `dirname` that ends the path behind its directory. -/
def dirnameCut : Dirname := fun b => .ok (b.set (dirname (cstr b)).length 0, .inside 0)

theorem dirnameCut_posix : Posix dirnameCut dirname where
  returns p habs hp := by
    obtain ⟨rest, hrest⟩ := dirname_initial habs
    have hnul : 0 ∉ dirname p := fun h => hp ((dirname_initial habs).subset h)
    obtain ⟨x, tail, htail⟩ : ∃ x tail, rest ++ [0] = x :: tail := List.exists_cons_of_ne_nil (by simp)
    have hblock : p ++ [0] = dirname p ++ x :: tail := by
      rw [← htail, ← List.append_assoc, hrest]
    have hset : (p ++ [0]).set (dirname p).length 0 = dirname p ++ 0 :: tail := by
      rw [hblock, List.set_append_right _ _ (le_refl _), Nat.sub_self, List.set_cons_zero]
    refine ⟨(p ++ [0]).set (dirname p).length 0, .inside 0, ?_, by simp, ?_⟩
    · unfold dirnameCut
      rw [cstr_append hp []]
    · rw [hset]
      exact strAt_append hnul [] tail
  noNul p habs hp h := hp ((dirname_initial habs).subset h)
  bounded p habs := (dirname_initial habs).length_le

/-- With no memory for the name the first load is refused, and the second loads the program. -/
theorem load_once_again :
    ∃ (fs : FSDirect) (r : Bool × ProcessObj × Ledger) (r' : Bool × ProcessObj × Ledger) (fill : LoadFill),
      ({} : FSDirect).mountFile (bytes "/srv") true true = .ok (true, fs) ∧
      ({} : ProcessObj).loadFileFS ⟨.empty, [], 0⟩ fs dirnameCut (some (bytes "/bin/sh"))
        ⟨true, true, true, true, false, true⟩ fill = .ok r ∧ r.1 = false ∧
      r.2.1.loadFileFS r.2.2 fs dirnameCut (some (bytes "/bin/sh")) ⟨true, true, true, true, true, true⟩ fill =
        .ok r' ∧ r'.1 = true := by
  have hpath : ∀ p, some (bytes "/bin/sh") = some p → 0 ∉ p := fun p hp => Option.some.inj hp ▸ (by decide)
  have hfresh : Unloaded {} := ⟨⟨rfl, rfl, rfl, rfl⟩, rfl⟩
  have hmounted : ({ containerPath := some (bytes "/srv/") } : FSDirect).containerPath = some (bytes "/srv/") := rfl
  obtain ⟨r, hload, hr, hlater⟩ := load_once
    hfresh hmounted (by decide) dirnameCut_posix hpath ⟨.empty, [], 0⟩ ⟨true, true, true, true, false, true⟩
    ⟨fun _ => 7, fun _ => 7⟩
  have hret : r.1 = false := by
    rw [← Bool.not_eq_true]
    intro htrue
    obtain ⟨p, -, -, hall⟩ := hr.ret.mp htrue
    exact Bool.false_ne_true hall
  obtain ⟨-, hlater⟩ := hlater hret
  obtain ⟨r', hload', hr'⟩ := hlater (some (bytes "/bin/sh")) ⟨true, true, true, true, true, true⟩
    ⟨fun _ => 7, fun _ => 7⟩ hpath
  exact ⟨_, r, r', _, rfl, hload, hret, hload', hr'.ret.mpr ⟨_, rfl, rfl, rfl⟩⟩

/-! ## The contents -/

/-- **A first load as it is on the contents of the object.** -/
theorem loadFileFS_contents (hfs : fs.containerPath = some c) (hc : 0 ∉ c) (hdir : Posix dir dirname) (hp : 0 ∉ p)
    (l : Ledger) (h : LoadHost) (fill : LoadFill) :
    ∃ r, ({} : ProcessObj).loadFileFS l fs dir (some p) h fill = .ok r ∧
      ({} : Process).loadFileFS c p h = .ok (r.1, r.2.1.contents) := by
  have hfresh : Unloaded {} := ⟨⟨rfl, rfl, rfl, rfl⟩, rfl⟩
  rcases loadFileFS_cases hfresh hfs hc hdir (fun q hq => Option.some.inj hq ▸ hp) l h fill with
    ⟨hno, s, m, -, hload⟩ | ⟨q, ⟨hq, habs, hall⟩, d, n, b, m, -, hload⟩
  · refine ⟨_, hload, ?_⟩
    rcases Process.loadFileFS_new c p h with ⟨-, hnew⟩ | ⟨hyes, -⟩
    · exact hnew
    · exact absurd ⟨p, rfl, hyes⟩ hno
  · cases hq
    refine ⟨_, hload, ?_⟩
    obtain ⟨i, hi, hname⟩ := lastPart_eq c habs
    obtain ⟨hlocal, hcwd, hopen⟩ := succeeds_iff.mp hall
    simp [Process.loadFileFS, Process.loadFileLocal, fileLocalPath, hlocal, hcwd, hopen.dlopen, hopen.dlsym,
      hopen.name, hopen.path, habs, hi, hname, contents]

/-- The copy `mountFile` makes fits its block, and is the path that is stored. -/
theorem copyPath_eq {dirPath : CStr} (hne : dirPath ≠ []) (hp : 0 ∉ dirPath) (fill : Nat → Byte) :
    ∃ c, 0 ∉ c ∧ FSDirect.copyPath dirPath fill = .ok c ∧
      ({} : FSDirect).mountFile dirPath true true = .ok (true, { containerPath := some c }) := by
  obtain ⟨d, x, rfl⟩ : ∃ d x, dirPath = d ++ [x] := ⟨_, _, (List.dropLast_concat_getLast hne).symm⟩
  have hlast : load (d ++ [x]) d.length = .ok x := load_append d [] x
  have hfirst : ∀ m r : Block, m.length = d.length + 1 → memcpy (m ++ r) 0 (d ++ [x]) = .ok (d ++ [x] ++ r) := by
    intro m r hm
    have h := memcpy_append (l := []) (m := m) (r := r) (s := d ++ [x]) (by rw [hm, List.length_append]; rfl)
    simpa using h
  by_cases hslash : x = 47
  · subst hslash
    refine ⟨d ++ [47], hp, ?_, by simp [FSDirect.mountFile]⟩
    obtain ⟨m, r, hparts, hm, hr⟩ := exists_parts (length_fresh fill (d.length + 1 + 1))
    obtain ⟨y, rfl⟩ := List.length_eq_one_iff.mp hr
    have hput : store (d ++ [47] ++ [y]) (d.length + 1 + 1 - 2) 47 = .ok (d ++ [47] ++ [y]) := by
      rw [List.append_assoc]
      exact store_append d [y] 47 47
    have hnul : store (d ++ [47] ++ [y]) (d.length + 1) 0 = .ok (d ++ [47] ++ [0]) := by
      have h := store_append (d ++ [47]) [] y 0
      rwa [List.length_append] at h
    have hread : strAt (d ++ [47] ++ [0]) 0 = .ok (d ++ [47]) := strAt_append hp [] []
    simp only [FSDirect.copyPath, List.length_append, List.length_singleton, Nat.add_sub_cancel, hlast, bind,
      Except.bind, ne_eq, not_true_eq_false, if_false, hparts, hfirst m [y] hm, hput, hnul, hread]
  · have hc : 0 ∉ d ++ [x] ++ [47] := by simpa using hp
    refine ⟨d ++ [x] ++ [47], hc, ?_, by simp [FSDirect.mountFile, hslash]⟩
    obtain ⟨m, r, hparts, hm, hr⟩ := exists_parts (length_fresh fill (d.length + 1 + 2))
    obtain ⟨y, z, rfl⟩ := List.length_eq_two.mp hr
    have hput : store (d ++ [x] ++ [y, z]) (d.length + 1) 47 = .ok (d ++ [x] ++ [47] ++ [z]) := by
      have h := store_append (d ++ [x]) [z] y 47
      rw [List.length_append] at h
      rwa [List.append_assoc _ [47]]
    have hnul : store (d ++ [x] ++ [47] ++ [z]) (d.length + 1 + 2 - 1) 0 = .ok (d ++ [x] ++ [47] ++ [0]) := by
      have h := store_append (d ++ [x] ++ [47]) [] z 0
      rwa [List.length_append, List.length_append] at h
    have hread : strAt (d ++ [x] ++ [47] ++ [0]) 0 = .ok (d ++ [x] ++ [47]) := strAt_append hc [] []
    simp only [FSDirect.copyPath, List.length_append, List.length_singleton, Nat.add_sub_cancel, hlast, bind,
      Except.bind, ne_eq, hslash, not_false_eq_true, if_true, hparts, hfirst m [y, z] hm, hput, hnul, hread]

end Loading
end DistributedPlatform

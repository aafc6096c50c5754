import DistributedPlatform.ProcessHeap
import DistributedPlatform.Stdlib.Stdlib

/-!
# `Correctness.EnvironCopy` — the copy `setEnviron` makes

The array of the copy is filled from the front, and when a string cannot be copied there is a null pointer where
its pointer would be. So the array can be cleared at any time by the loop that runs up to the first null, and the
elements behind it are never looked at.

* `clearEnviron_eq` — clearing an environment;
* `getenv_eq` — `getenv` over an array is `getenv` over its strings;
* `environ_copied` — `setEnviron`, with what it returns, installs, releases and leaves.
-/

namespace DistributedPlatform
namespace EnvironCopy

open Arena (Grown)
open Ledger ProcessObj

variable {l : Ledger} {o : ProcessObj} {a : PtrArray} {cs : List Cell}

/-! ## Arrays that end with a null -/

/-- An array that ends with a null and can be read. -/
structure Readable (l : Ledger) (a : PtrArray) : Prop where
  terminated : ∃ rest, a.slots = a.cells.map .ptr ++ .null :: rest
  live : ∀ b ∈ a.held, b ∈ l.heap.live

/-- … and belongs to one holder. -/
structure Holds (l : Ledger) (a : PtrArray) : Prop extends Readable l a where
  nodup : a.held.Nodup

theorem cells_eq (b : Nat) (cs : List Cell) (rest : List Slot) :
    (⟨b, cs.map .ptr ++ .null :: rest⟩ : PtrArray).cells = cs := by
  have htake : (cs.map Slot.ptr ++ .null :: rest).takeWhile (· ≠ .null) = cs.map .ptr := by
    rw [List.takeWhile_append_of_pos (by simp), List.takeWhile_cons_of_neg (by simp), List.append_nil]
  unfold PtrArray.cells
  rw [htake, List.filterMap_map]
  simp [Function.comp_def, Slot.cell?]

theorem Readable.block (h : Readable l a) : a.block ∈ l.heap.live :=
  h.live _ (List.mem_append_right _ List.mem_cons_self)

theorem Readable.cell (h : Readable l a) {c : Cell} (hc : c ∈ a.cells) : c.block ∈ l.heap.live :=
  h.live _ (List.mem_append_left _ (List.mem_map_of_mem hc))

theorem Readable.entries (h : Readable l a) : l.entries a = .ok a.cells := by
  obtain ⟨rest, hslots⟩ := h.terminated
  simp only [Ledger.entries, slots_eq h.block, hslots, upToNull_eq, bind, Except.bind]

/-- Clearing releases the array and its strings. -/
theorem clearEnviron_eq (h : ∀ a, o.environ = some a → Holds l a) :
    ∃ m, o.clearEnviron l = .ok ({ o with environ := none, infoEnviron := none }, { l with heap := m }) ∧
      m.live = l.heap.live \ (o.environ.elim [] PtrArray.held).toFinset := by
  cases ho : o.environ with
  | none =>
      refine ⟨l.heap, ?_, by simp⟩
      simp only [clearEnviron, ho, bind, Except.bind]
  | some a =>
      have ha := h a ho
      obtain ⟨rest, hslots⟩ := ha.terminated
      obtain ⟨m, hfree, hm⟩ := Arena.freeAll_live ha.nodup ha.live
      have hclear : l.freeEntries a = .ok { l with heap := m } :=
        (freeEntries_eq ha.block hslots).trans (freeAll_eq hfree)
      refine ⟨m, ?_, hm⟩
      simp only [clearEnviron, ho, hclear, bind, Except.bind]

/-! ## `getenv` -/

theorem findEntry_eq {cs : List Cell} (hcs : ∀ c ∈ cs, c.block ∈ l.heap.live) (rest : List Slot) (name : CStr) :
    l.findEntry name (cs.map .ptr ++ .null :: rest) =
      .ok (LibEnv.getenv { Denviron := some (cs.map (·.text)) } name) := by
  induction cs with
  | nil => rfl
  | cons c cs ih =>
      have hrest := ih fun d hd => hcs d (List.mem_cons_of_mem c hd)
      have htext := text_eq (hcs c List.mem_cons_self)
      by_cases hpre : (name ++ bytes "=").isPrefixOf c.text = true
      · simp [findEntry, htext, LibEnv.getenv, hpre, bind, Except.bind]
      · simp only [LibEnv.getenv] at hrest
        simp [findEntry, htext, LibEnv.getenv, hpre, hrest, bind, Except.bind]

/-- What `getenv` finds depends on the strings only. -/
theorem getenv_eq (h : Readable l a) (name : CStr) :
    l.getenv (some a) name = .ok (LibEnv.getenv { Denviron := some (a.cells.map (·.text)) } name) := by
  obtain ⟨rest, hslots⟩ := h.terminated
  have hfind := findEntry_eq (fun c hc => h.cell hc) rest name
  rw [← hslots] at hfind
  simp only [Ledger.getenv, slots_eq h.block, bind, Except.bind]
  exact hfind

/-! ## `setEnviron` -/

/-- Every allocation a copy of `env` needs succeeds. -/
def Allocates (env : Option PtrArray) (array : Bool) (entry : Nat → Bool) : Prop :=
  ∀ a, env = some a → array = true ∧ allocsOk a.cells.length entry = true

/-- The object has a copy of `env`: an array with its strings, in order, and a null; `info.environ` is that array,
    and `getenv` gives the same answers over both. -/
def Copied (l : Ledger) (env : Option PtrArray) (o : ProcessObj) : Prop :=
  match env with
  | none => o.environ = none ∧ o.infoEnviron = none
  | some e => ∃ a, o.environ = some a ∧ o.infoEnviron = some a.block ∧ a.slots = a.cells.map .ptr ++ [.null] ∧
      a.cells.map (·.text) = e.cells.map (·.text) ∧
      ∀ name, ∃ value, l.getenv (some a) name = .ok value ∧ l.getenv (some e) name = .ok value

/-- From `old` on: the blocks of the old environment are gone, those of the new one were made, and that is all. -/
def Exchanged (l : Ledger) (old : Option PtrArray) (l' : Ledger) (new : Option PtrArray) : Prop :=
  ∃ m, m.live = l.heap.live \ (old.elim [] PtrArray.held).toFinset ∧
    Grown m (new.elim [] PtrArray.held) l'.heap ∧ l'.libs = l.libs ∧ l'.stray = l.stray

/-- Copying into a fresh array: all of it, or what was copied is released again. -/
theorem copy_cases {e : PtrArray} {m : Arena} (he : Readable { l with heap := m } e) (o : ProcessObj)
    (entry : Nat → Bool) :
    (allocsOk e.cells.length entry = true ∧ ∃ (cs : List Cell) (m' : Arena), cs.map (·.text) = e.cells.map (·.text) ∧
        Grown m (blocks cs ++ [m.next]) m' ∧
        copyArgv entry e.cells 0 ⟨m.next, List.replicate (e.cells.length + 1) .indeterminate⟩
            { l with heap := m.push } =
          .ok (true, cs.length, ⟨m.next, cs.map .ptr ++ [.indeterminate]⟩, { l with heap := m' })) ∨
      (¬ allocsOk e.cells.length entry = true ∧ ∃ n a m' m'', Grown m [] m'' ∧
        copyArgv entry e.cells 0 ⟨m.next, List.replicate (e.cells.length + 1) .indeterminate⟩
            { l with heap := m.push } = .ok (false, n, a, { l with heap := m' }) ∧
        { o with environ := some a }.clearEnviron { l with heap := m' } =
          .ok ({ o with environ := none, infoEnviron := none }, { l with heap := m'' })) := by
  obtain ⟨cs, m', hgrown, hcases⟩ :=
    buildArgv_cases { l with heap := m } entry (e.cells.length + 1) fun c hc => he.cell hc
  rw [allocsOk_iff]
  rcases hcases with ⟨-, hok, htexts, hcopy⟩ | ⟨hfail, rest, hcopy⟩ | ⟨hshort, -⟩
  · rw [Nat.add_sub_cancel_left] at hcopy
    exact Or.inl ⟨hok, cs, m', htexts, hgrown, hcopy⟩
  · obtain ⟨m'', hfree, hm''⟩ := hgrown.freeAll (.refl m') (List.Perm.refl _)
    refine Or.inr ⟨hfail, _, _, m', m'', hm'', hcopy, ?_⟩
    have hblock : m.next ∈ m'.live := by
      rw [hgrown.live]
      exact Finset.mem_union_right _ (by simp)
    have hclear := freeEntries_eq (l := { l with heap := m' }) (a := ⟨m.next, cs.map .ptr ++ .null :: rest⟩) hblock rfl
    rw [freeAll_eq hfree] at hclear
    simp only [clearEnviron, hclear, bind, Except.bind]
  · exact absurd hshort (Nat.not_lt.mpr (Nat.le_succ _))

/-- The environment set. -/
theorem setEnviron_cases (env : Option PtrArray) (array : Bool) (entry : Nat → Bool)
    (hold : ∀ a, o.environ = some a → Holds l a)
    (henv : ∀ a, env = some a → Readable l a ∧ ∀ old, o.environ = some old → a.held.Disjoint old.held) :
    (Allocates env array entry ∧ ∃ new l',
        o.setEnviron l env array entry =
          .ok (true, { o with environ := new, infoEnviron := new.map (·.block) }, l') ∧
        Exchanged l o.environ l' new ∧
        ((env = none ∧ new = none) ∨ ∃ (e : PtrArray) (cs : List Cell) (b : Nat), env = some e ∧
          new = some ⟨b, cs.map .ptr ++ [.null]⟩ ∧ cs.map (·.text) = e.cells.map (·.text))) ∨
      (¬ Allocates env array entry ∧ ∃ l',
        o.setEnviron l env array entry = .ok (false, { o with environ := none, infoEnviron := none }, l') ∧
        Exchanged l o.environ l' none) := by
  obtain ⟨m, hclear, hm⟩ := clearEnviron_eq hold
  cases env with
  | none =>
      refine Or.inl ⟨nofun, none, { l with heap := m }, ?_, ⟨m, hm, .refl m, rfl, rfl⟩, Or.inl ⟨rfl, rfl⟩⟩
      simp only [setEnviron, hclear, bind, Except.bind, Option.map_none]
  | some e =>
      obtain ⟨he, hdisj⟩ := henv e rfl
      have hread : Readable { l with heap := m } e := by
        refine ⟨he.terminated, fun b hb => ?_⟩
        rw [hm, Finset.mem_sdiff, List.mem_toFinset]
        refine ⟨he.live b hb, fun hmem => ?_⟩
        cases ho : o.environ with
        | none =>
            rw [ho] at hmem
            cases hmem
        | some old =>
            rw [ho] at hmem
            exact hdisj old ho hb hmem
      have halloc : Allocates (some e) array entry ↔ array = true ∧ allocsOk e.cells.length entry = true :=
        ⟨fun h => h e rfl, fun h a ha => Option.some.inj ha ▸ h⟩
      rw [halloc]
      cases array with
      | false =>
          refine Or.inr ⟨fun h => Bool.false_ne_true h.1, { l with heap := m }, ?_, m, hm, .refl m, rfl, rfl⟩
          simp only [setEnviron, hclear, hread.entries, malloc_false, bind, Except.bind]
      | true =>
          rcases copy_cases hread { o with environ := none, infoEnviron := none } entry with
            ⟨hok, cs, m', htexts, hgrown, hcopy⟩ | ⟨hfail, n, a, m', m'', hgrown, hcopy, hundo⟩
          · have hblock : m.next ∈ m'.live := by
              rw [hgrown.live]
              exact Finset.mem_union_right _ (by simp)
            have hset := setSlot_eq (l := { l with heap := m' }) hblock cs [] .indeterminate .null
            refine Or.inl ⟨⟨rfl, hok⟩, some ⟨m.next, cs.map .ptr ++ [.null]⟩, { l with heap := m' }, ?_, ?_,
              Or.inr ⟨e, cs, m.next, rfl, rfl, htexts⟩⟩
            · simp only [setEnviron, hclear, hread.entries, malloc_true, hcopy, hset, bind, Except.bind, if_true]
              rfl
            · refine ⟨m, hm, ?_, rfl, rfl⟩
              show Grown m (PtrArray.held ⟨m.next, cs.map .ptr ++ [.null]⟩) m'
              unfold PtrArray.held
              rw [cells_eq]
              exact hgrown
          · refine Or.inr ⟨fun h => hfail h.2, { l with heap := m'' }, ?_, m, hm, hgrown, rfl, rfl⟩
            simp only [setEnviron, hclear, hread.entries, malloc_true, hcopy, hundo, bind, Except.bind]
            rfl

/-- A new environment can be read, by its own holder. -/
theorem Exchanged.holds {old new : Option PtrArray} {l' : Ledger} (h : Exchanged l old l' new)
    (hnew : ∀ a, new = some a → a.slots = a.cells.map .ptr ++ [.null]) : ∀ a, new = some a → Holds l' a := by
  obtain ⟨m, -, hgrown, -, -⟩ := h
  intro a ha
  rw [ha] at hgrown
  refine ⟨⟨⟨[], hnew a ha⟩, fun b hb => ?_⟩, hgrown.nodup⟩
  rw [hgrown.live]
  exact Finset.mem_union_right _ (List.mem_toFinset.mpr hb)

/-- What was live beside the old environment is so still. -/
theorem Exchanged.readable {old new : Option PtrArray} {l' : Ledger} (h : Exchanged l old l' new)
    (ha : Readable l a) (hdisj : ∀ b, old = some b → a.held.Disjoint b.held) : Readable l' a := by
  obtain ⟨m, hm, hgrown, -, -⟩ := h
  refine ⟨ha.terminated, fun b hb => ?_⟩
  rw [hgrown.live, hm]
  refine Finset.mem_union_left _ (Finset.mem_sdiff.mpr ⟨ha.live b hb, fun hmem => ?_⟩)
  rw [List.mem_toFinset] at hmem
  cases old with
  | none => cases hmem
  | some old => exact hdisj old rfl hb hmem

/-- **Setting the environment**: with any environment in place, any array to copy that is not part of it, and any
    answers of the allocator, `setEnviron` returns. It returns `true` exactly when all it asks for is allocated, and
    then the object has a copy; otherwise it has no environment. Either way what the old environment held is gone,
    what the new one holds was made, and no other block came or went. -/
theorem environ_copied (env : Option PtrArray) (array : Bool) (entry : Nat → Bool)
    (hold : ∀ a, o.environ = some a → Holds l a)
    (henv : ∀ a, env = some a → Readable l a ∧ ∀ old, o.environ = some old → a.held.Disjoint old.held) :
    ∃ ret o' l', o.setEnviron l env array entry = .ok (ret, o', l') ∧
      (ret = true ↔ Allocates env array entry) ∧ (ret = true → Copied l' env o') ∧
      (ret = false → o'.environ = none ∧ o'.infoEnviron = none) ∧
      o' = { o with environ := o'.environ, infoEnviron := o'.infoEnviron } ∧
      Exchanged l o.environ l' o'.environ ∧ ∀ a, o'.environ = some a → Holds l' a := by
  rcases setEnviron_cases env array entry hold henv with
    ⟨halloc, new, l', hset, hex, ⟨rfl, rfl⟩ | ⟨e, cs, b, rfl, rfl, htexts⟩⟩ | ⟨hfail, l', hset, hex⟩
  · exact ⟨true, _, l', hset, iff_of_true rfl halloc, fun _ => ⟨rfl, rfl⟩, nofun, rfl, hex, nofun⟩
  · have hcells : (⟨b, cs.map .ptr ++ [.null]⟩ : PtrArray).cells = cs := cells_eq b cs []
    have hholds := hex.holds fun a ha => by
      cases ha
      rw [hcells]
    refine ⟨true, _, l', hset, iff_of_true rfl halloc, fun _ => ?_, nofun, rfl, hex, hholds⟩
    refine ⟨_, rfl, rfl, by rw [hcells], by rw [hcells, htexts], fun name => ?_⟩
    obtain ⟨he, hdisj⟩ := henv e rfl
    refine ⟨_, getenv_eq (hholds _ rfl).toReadable name, ?_⟩
    rw [getenv_eq (hex.readable he hdisj), hcells, htexts]
  · exact ⟨false, _, l', hset, iff_of_false nofun hfail, nofun, fun _ => ⟨rfl, rfl⟩, rfl, hex, nofun⟩

/-- One string is copied in the place of another. -/
theorem environ_copied_one :
    ∃ (o : ProcessObj) (l : Ledger) (env : PtrArray) (ret : Bool) (o' : ProcessObj) (l' : Ledger),
      o.environ ≠ none ∧ o.setEnviron l (some env) true (fun _ => true) = .ok (ret, o', l') ∧
      (ret = true ↔ Allocates (some env) true fun _ => true) ∧ (ret = true → Copied l' (some env) o') ∧
      Exchanged l o.environ l' o'.environ := by
  -- four blocks: the array in place and its string, the array to copy and its string
  let l : Ledger := { heap := Arena.empty.push.push.push.push }
  let old : PtrArray := ⟨0, [.ptr ⟨1, bytes "HOME=/"⟩, .null]⟩
  let env : PtrArray := ⟨2, [.ptr ⟨3, bytes "HOME=/home"⟩, .null]⟩
  have hold : Holds l old := ⟨⟨⟨[], rfl⟩, by decide⟩, by decide⟩
  have henv : Readable l env := ⟨⟨[], rfl⟩, by decide⟩
  have hdisj : ∀ b ∈ env.held, b ∉ old.held := by decide
  obtain ⟨ret, o', l', hset, hret, hcopied, -, -, hex, -⟩ :=
    environ_copied (o := { environ := some old }) (some env) true (fun _ => true)
      (fun a ha => Option.some.inj ha ▸ hold)
      (fun a ha => Option.some.inj ha ▸ ⟨henv, fun b hb => Option.some.inj hb ▸ fun x hx hx' => hdisj x hx hx'⟩)
  exact ⟨_, l, env, ret, o', l', Option.some_ne_none _, hset, hret, hcopied, hex⟩

/-- The contents of the object change as `Process.setEnviron` has it. -/
theorem setEnviron_contents (env : Option PtrArray) (array : Bool) (entry : Nat → Bool)
    (hold : ∀ a, o.environ = some a → Holds l a)
    (henv : ∀ a, env = some a → Readable l a ∧ ∀ old, o.environ = some old → a.held.Disjoint old.held) :
    ∃ o' l', o.setEnviron l env array entry =
        .ok ((o.contents.setEnviron (env.map fun a => a.cells.map (·.text)) array entry).1, o', l') ∧
      o'.contents = (o.contents.setEnviron (env.map fun a => a.cells.map (·.text)) array entry).2 := by
  rcases setEnviron_cases env array entry hold henv with
    ⟨halloc, new, l', hset, -, ⟨rfl, rfl⟩ | ⟨e, cs, b, rfl, rfl, htexts⟩⟩ | ⟨hfail, l', hset, -⟩
  · exact ⟨_, l', hset, rfl⟩
  · have hok := halloc e rfl
    have hcontents : o.contents.setEnviron (some (e.cells.map (·.text))) array entry =
        (true, { o.contents with environ := some (e.cells.map (·.text)) }) := by
      unfold Process.setEnviron
      exact if_pos (by simpa using hok)
    rw [Option.map_some, hcontents]
    refine ⟨_, l', hset, ?_⟩
    simp only [contents, Option.map_some, cells_eq, htexts]
  · cases env with
    | none => exact absurd (fun a ha => nomatch ha) hfail
    | some e =>
        have hno : ¬ (array = true ∧ allocsOk (e.cells.map (·.text)).length entry = true) := by
          rw [List.length_map]
          exact fun h => hfail fun a ha => Option.some.inj ha ▸ h
        have hcontents : o.contents.setEnviron (some (e.cells.map (·.text))) array entry =
            (false, { o.contents with environ := none }) := by
          unfold Process.setEnviron
          exact if_neg hno
        rw [Option.map_some, hcontents]
        exact ⟨_, l', hset, rfl⟩

end EnvironCopy
end DistributedPlatform

import DistributedPlatform.Correctness.EnvironCopy

/-!
# `Correctness.ForkFailures` — a `forkCopy` that fails

The `error` label of `forkCopy` closes the library of the child, releases its fields and leaves them as they are; then
it deletes the object, and the destructor finds the same fields.

* `not_abandoned` — the label never gets to its end: before `dlopen` the handle it closes is null, and after it the
  argument vector is released twice;
* `released_iff` — when a failure releases what it should: at no point of `forkCopy`;
* `forkCopy_contents` — the call that succeeds is the one `Process.forkCopy` has on the contents.
-/

namespace DistributedPlatform
namespace ForkFailures

open Arena (Grown)
open Ledger ProcessObj

variable {l l' : Ledger} {p child child' : ProcessObj} {newProc : Bool} {h : ForkCopyHost}

/-- No call fails up to the environment. -/
structure Made (p : ProcessObj) (newProc : Bool) (h : ForkCopyHost) : Prop where
  newProc : newProc = true
  argv : h.argv = true
  arg : allocsOk p.argc h.arg = true
  name : h.name = true
  path : h.path = true
  cwd : h.cwd = true
  dlopen : h.dlopen = true
  dlsym : h.dlsym = true

/-- Some allocation, `dlopen` or `dlsym` of the call fails. -/
def Fails (p : ProcessObj) (newProc : Bool) (h : ForkCopyHost) : Prop :=
  ¬ (Made p newProc h ∧ EnvironCopy.Allocates p.environ h.environ h.environEntry)

/-- The call returns `NULL`, the blocks and libraries are those there were before, and no handle was closed that was
    not open; a block released twice would be a fault. -/
def Released (p : ProcessObj) (l : Ledger) (newProc : Bool) (h : ForkCopyHost) : Prop :=
  ∃ l', p.forkCopy l newProc h = .ok (.returned none l') ∧ l'.heap.live = l.heap.live ∧ l'.libs = l.libs ∧
    l'.stray = l.stray

/-- The vector is released, and then found again. -/
theorem abandon_released {a : PtrArray} (ha : child.argv = some a) : child.abandon l ≠ .ok l' := by
  intro habandon
  unfold abandon at habandon
  rw [ha] at habandon
  obtain ⟨l₁, hargv, habandon⟩ := Eff.bind_eq_ok.mp habandon
  obtain ⟨l₂, hclose, habandon⟩ := Eff.bind_eq_ok.mp habandon
  obtain ⟨l₃, hname, habandon⟩ := Eff.bind_eq_ok.mp habandon
  obtain ⟨l₄, hpath, habandon⟩ := Eff.bind_eq_ok.mp habandon
  obtain ⟨l₅, hcwd, habandon⟩ := Eff.bind_eq_ok.mp habandon
  have hgone : a.block ∉ l₅.heap.live := by
    apply notMem_of_free hcwd
    apply notMem_of_free hpath
    apply notMem_of_free hname
    rw [dlclose_heap hclose]
    exact notMem_of_freeArgv hargv
  unfold destroy at habandon
  rw [ha] at habandon
  obtain ⟨l₆, hagain, -⟩ := Eff.bind_eq_ok.mp habandon
  rw [freeArgv_released hgone] at hagain
  cases hagain

/-- Once the vector is allocated the child has one. -/
theorem argv_of_copyFields {done : Bool} (hcopy : child.copyFields p l h = .ok (done, child', l')) :
    done = true ∨ child'.argv = child.argv := by
  unfold copyFields at hcopy
  obtain ⟨⟨name, l₁⟩, -, hcopy⟩ := Eff.bind_eq_ok.mp hcopy
  dsimp only at hcopy
  split at hcopy
  · cases hcopy
    exact Or.inr rfl
  · obtain ⟨⟨path, l₂⟩, -, hcopy⟩ := Eff.bind_eq_ok.mp hcopy
    dsimp only at hcopy
    split at hcopy
    · cases hcopy
      exact Or.inr rfl
    · obtain ⟨⟨cwd, l₃⟩, -, hcopy⟩ := Eff.bind_eq_ok.mp hcopy
      dsimp only at hcopy
      split at hcopy
      · cases hcopy
        exact Or.inr rfl
      · split at hcopy
        · cases hcopy
        · obtain ⟨file, -, hcopy⟩ := Eff.bind_eq_ok.mp hcopy
          split at hcopy
          · cases hcopy
            exact Or.inr rfl
          · obtain ⟨x, -, hcopy⟩ := Eff.bind_eq_ok.mp hcopy
            cases hcopy
            exact Or.inl rfl

theorem argv_of_copyInto (hargv : h.argv = true) (hcopy : child.copyInto p l h = .ok (false, child', l')) :
    ∃ a, child'.argv = some a := by
  unfold copyInto at hcopy
  rw [hargv, malloc_true] at hcopy
  obtain ⟨args, -, hcopy⟩ := Eff.bind_eq_ok.mp hcopy
  obtain ⟨⟨done, argc, argv, l₁⟩, -, hcopy⟩ := Eff.bind_eq_ok.mp hcopy
  cases done with
  | false =>
      cases hcopy
      exact ⟨argv, rfl⟩
  | true =>
      rcases argv_of_copyFields hcopy with hdone | heq
      · cases hdone
      · exact ⟨argv, heq⟩

/-- **The label never gets to its end.** -/
theorem not_abandoned (hcopy : copyInto {} p l h = .ok (false, child, l')) {l₂ : Ledger} :
    child.abandon l' ≠ .ok l₂ := by
  cases hargv : h.argv with
  | true =>
      obtain ⟨a, ha⟩ := argv_of_copyInto hargv hcopy
      exact abandon_released ha
  | false =>
      -- the child is as the constructor left it, and its handle is null
      unfold copyInto at hcopy
      rw [hargv, malloc_false] at hcopy
      cases hcopy
      intro habandon
      cases habandon

/-- So no failure ends with `NULL`. -/
theorem not_released : ¬ Released p l newProc h := by
  rintro ⟨l', hcall, -⟩
  unfold forkCopy at hcall
  cases newProc with
  | false => cases hcall
  | true =>
      rw [malloc_true] at hcall
      obtain ⟨⟨done, child, l₁⟩, hcopy, hcall⟩ := Eff.bind_eq_ok.mp hcall
      cases done with
      | true => cases hcall
      | false =>
          obtain ⟨l₂, habandon, -⟩ := Eff.bind_eq_ok.mp hcall
          exact not_abandoned hcopy habandon

/-- **When a failed fork is undone**: never. For every process, every memory and every answer, what was acquired is
    released once and no handle is closed that was not opened, only if no call fails. -/
theorem released_iff (p : ProcessObj) (l : Ledger) (newProc : Bool) (h : ForkCopyHost) :
    (Fails p newProc h → Released p l newProc h) ↔ ¬ Fails p newProc h :=
  ⟨fun himp hfails => not_released (himp hfails), fun hno hfails => absurd hfails hno⟩

/-- A shell with one argument, and its blocks. -/
def shell : ProcessObj where
  argc := 1
  argv := some ⟨0, [.ptr ⟨1, bytes "shell"⟩]⟩
  dlHandle := some (bytes "/srv/bin/shell")
  name := some ⟨2, bytes "shell"⟩
  path := some ⟨3, bytes "/srv/bin/shell"⟩
  state := .running
  cwd := some ⟨4, bytes "/bin"⟩

def shellLedger : Ledger where
  heap := Arena.empty.push.push.push.push.push
  libs := [bytes "/srv/bin/shell"]

/-- All is copied and the library opened, and one of the functions is not found in it. -/
def noSymbol : ForkCopyHost where
  argv := true
  arg _ := true
  name := true
  path := true
  cwd := true
  dlopen := true
  dlsym := false
  environ := true
  environEntry _ := true

/-- The vector and its string are released by the label and by the destructor. -/
theorem vector_twice :
    Fails shell true noSymbol ∧ shell.forkCopy shellLedger true noSymbol = .error .dangling ∧
      ¬ Released shell shellLedger true noSymbol := by
  have hcall : shell.forkCopy shellLedger true noSymbol = .error .dangling := by rfl
  refine ⟨fun hmade => Bool.false_ne_true hmade.1.dlsym, hcall, ?_⟩
  rintro ⟨l', hreturn, -⟩
  rw [hcall] at hreturn
  cases hreturn

/-! ## The contents -/

/-- An object whose strings are all there. -/
structure Usable (l : Ledger) (p : ProcessObj) : Prop where
  argc : p.argv = none → p.argc = 0
  argv : ∀ a, p.argv = some a → ∃ (cs : List Cell) (rest : List Slot), a.block ∈ l.heap.live ∧
    a.slots = cs.map Slot.ptr ++ rest ∧ p.argc = cs.length ∧ ∀ c ∈ cs, c.block ∈ l.heap.live
  name : ∃ c, p.name = some c ∧ c.block ∈ l.heap.live
  path : ∃ c, p.path = some c ∧ c.block ∈ l.heap.live
  cwd : ∃ c, p.cwd = some c ∧ c.block ∈ l.heap.live
  environ : ∀ a, p.environ = some a → EnvironCopy.Readable l a

/-- … are so with more allocated. -/
theorem Usable.mono (hp : Usable l p) (hmono : ∀ b, b ∈ l.heap.live → b ∈ l'.heap.live) : Usable l' p := by
  obtain ⟨hargc, hargv, ⟨n, hn, hnl⟩, ⟨q, hq, hql⟩, ⟨d, hd, hdl⟩, henv⟩ := hp
  refine ⟨hargc, fun a ha => ?_, ⟨n, hn, hmono _ hnl⟩, ⟨q, hq, hmono _ hql⟩, ⟨d, hd, hmono _ hdl⟩,
    fun a ha => ⟨(henv a ha).terminated, fun b hb => hmono _ ((henv a ha).live b hb)⟩⟩
  obtain ⟨cs, rest, hlive, hslots, hlen, hcs⟩ := hargv a ha
  exact ⟨cs, rest, hmono _ hlive, hslots, hlen, fun c hc => hmono _ (hcs c hc)⟩

theorem dupField_eq {c : Cell} (hc : c.block ∈ l.heap.live) :
    dupField l true (some c) = .ok (some ⟨l.heap.next, c.text⟩, { l with heap := l.heap.push }) := by
  simp only [dupField, text_eq hc, dup_true, bind, Except.bind]

/-- The rest of the copy: `child` has the argument vector. -/
theorem copyFields_contents (hp : Usable l p) (hmade : Made p newProc h) (hnew : child.environ = none) :
    ∃ name path cwd child' l', p.contents.name = some name ∧ p.contents.path = some path ∧
      p.contents.cwd = some cwd ∧ child.copyFields p l h = .ok (true, child', l') ∧
      child'.contents = (({ child.contents with
        name := some name, path := some path, cwd := some cwd, dlHandle := some path,
        state := p.state } : Process).setEnviron p.contents.environ h.environ h.environEntry).2 := by
  obtain ⟨n, hn, hnl⟩ := hp.name
  obtain ⟨q, hq, hql⟩ := hp.path
  obtain ⟨d, hd, hdl⟩ := hp.cwd
  have hpush : ∀ (m : Arena) b, b ∈ m.live → b ∈ m.push.live := fun m b hb => Finset.mem_insert_of_mem hb
  have hname := dupField_eq hnl
  have hpath := dupField_eq (l := { l with heap := l.heap.push }) (hpush _ _ hql)
  have hcwd := dupField_eq (l := { l with heap := l.heap.push.push }) (hpush _ _ (hpush _ _ hdl))
  have hfile := text_eq (l := { l with heap := l.heap.push.push.push }) (hpush _ _ (hpush _ _ (hpush _ _ hql)))
  obtain ⟨l₁, hl₁⟩ : ∃ l₁ : Ledger, l₁ = { l with heap := l.heap.push.push.push, libs := q.text :: l.libs } :=
    ⟨_, rfl⟩
  obtain ⟨child₁, hchild₁⟩ : ∃ o : ProcessObj, o = { child with
      name := some ⟨l.heap.next, n.text⟩, path := some ⟨l.heap.push.next, q.text⟩,
      cwd := some ⟨l.heap.push.push.next, d.text⟩, dlHandle := some q.text, symbols := some q.text,
      state := p.state } := ⟨_, rfl⟩
  have hread : ∀ a, p.environ = some a → EnvironCopy.Readable l₁ a ∧
      ∀ old, child₁.environ = some old → a.held.Disjoint old.held := by
    intro a ha
    have hmono : Usable l₁ p := hp.mono fun b hb => hl₁ ▸ hpush _ _ (hpush _ _ (hpush _ _ hb))
    refine ⟨hmono.environ a ha, fun old hold => ?_⟩
    rw [hchild₁] at hold
    cases hnew.symm.trans hold
  have hold : ∀ a, child₁.environ = some a → EnvironCopy.Holds l₁ a := by
    intro a ha
    rw [hchild₁] at ha
    cases hnew.symm.trans ha
  obtain ⟨o', l', hset, hcontents⟩ :=
    EnvironCopy.setEnviron_contents p.environ h.environ h.environEntry hold hread
  refine ⟨n.text, q.text, d.text, o', l', by simp [contents, hn], by simp [contents, hq], by simp [contents, hd],
    ?_, ?_⟩
  · rw [hchild₁, hl₁] at hset
    simp [copyFields, hn, hq, hd, hmade.name, hmade.path, hmade.cwd, hname, hpath, hcwd, hfile, dlopen,
      hmade.dlopen, hmade.dlsym, hset, bind, Except.bind]
  · rw [hcontents, hchild₁]
    rfl

/-- The arguments can be read, with more allocated too. -/
theorem Usable.args (hp : Usable l p) :
    ∃ cs, (∀ l' : Ledger, (∀ b, b ∈ l.heap.live → b ∈ l'.heap.live) → p.args l' = .ok cs) ∧
      p.contents.argv.getD [] = cs.map (·.text) ∧ p.argc = cs.length ∧ ∀ c ∈ cs, c.block ∈ l.heap.live := by
  cases hargv : p.argv with
  | none =>
      refine ⟨[], fun l' _ => ?_, ?_, hp.argc hargv, fun c hc => absurd hc List.not_mem_nil⟩
      · simp only [ProcessObj.args, hargv, hp.argc hargv, if_true]
      · simp only [contents, hargv, Option.map_none, Option.getD_none, List.map_nil]
  | some a =>
      obtain ⟨cs, rest, ha, hslots, hargc, hcs⟩ := hp.argv a hargv
      refine ⟨cs, fun l' hmono => ?_, ?_, hargc, hcs⟩
      · have hptrs : l'.argPtrs a cs.length = .ok (cs.map some) := by
          unfold argPtrs
          split
          · next hzero => rw [List.eq_nil_of_length_eq_zero hzero]; rfl
          · simp only [slots_eq (hmono _ ha), hslots, firstPtrs_eq, bind, Except.bind]
        simp [ProcessObj.args, hargv, hargc, hptrs, bind, Except.bind]
      · simp only [contents, hargv, Option.map_some, hslots, hargc, cells_of_take, Option.getD_some]

/-- No call fails, seen from the contents. -/
theorem Usable.made_iff (hp : Usable l p) :
    Made p true h ↔ h.succeeds (p.contents.argv.getD []).length = true := by
  obtain ⟨cs, -, hargv, hargc, -⟩ := hp.args
  have hlen : (p.contents.argv.getD []).length = p.argc := by rw [hargv, List.length_map, hargc]
  rw [hlen]
  unfold ForkCopyHost.succeeds
  simp only [Bool.and_eq_true]
  refine ⟨fun hmade =>
    ⟨⟨⟨⟨⟨⟨hmade.argv, hmade.arg⟩, hmade.name⟩, hmade.path⟩, hmade.cwd⟩, hmade.dlopen⟩, hmade.dlsym⟩, ?_⟩
  rintro ⟨⟨⟨⟨⟨⟨hargv, harg⟩, hname⟩, hpath⟩, hcwd⟩, hopen⟩, hsym⟩
  exact ⟨rfl, hargv, harg, hname, hpath, hcwd, hopen, hsym⟩

theorem copyInto_contents (hp : Usable l p) (hmade : Made p newProc h) :
    ∃ child l', copyInto {} p l h = .ok (true, child, l') ∧ p.contents.forkCopy h = .ok (some child.contents) := by
  obtain ⟨cs, hread, hargv, hargc, hcs⟩ := hp.args
  have hargs := hread { l with heap := l.heap.push } fun b hb => Finset.mem_insert_of_mem hb
  have harg : ∀ j < cs.length, h.arg j = true := allocsOk_iff.mp (hargc ▸ hmade.arg)
  obtain ⟨new, m, hgrown, hcases⟩ := buildArgv_cases l h.arg p.argc hcs
  rcases hcases with ⟨-, -, htexts, hcopy⟩ | ⟨hfail, -⟩ | ⟨hshort, -⟩
  · obtain ⟨argv, hnew⟩ : ∃ a : PtrArray, a = ⟨l.heap.next, new.map Slot.ptr ++ List.replicate (p.argc - cs.length)
      .indeterminate⟩ := ⟨_, rfl⟩
    have hgrew : Usable { l with heap := m } p := hp.mono fun b hb => by
      rw [hgrown.live]
      exact Finset.mem_union_left _ hb
    obtain ⟨name, path, cwd, child, l', hname, hpath, hcwd, hfields, hchild⟩ :=
      copyFields_contents hgrew hmade (rfl : ({ argc := new.length, argv := some argv } : ProcessObj).environ = none)
    refine ⟨child, l', ?_, ?_⟩
    · rw [← hnew] at hcopy
      simp only [copyInto, hmade.argv, malloc_true, hargs, hcopy, bind, Except.bind, if_true]
      exact hfields
    · have hargv' : ({ argc := new.length, argv := some argv } : ProcessObj).contents.argv =
          some (cs.map (·.text)) := by
        simp only [contents, Option.map_some, hnew, cells_of_take, htexts]
      have hok : h.argv = true ∧ allocsOk (cs.map (·.text)).length h.arg = true :=
        ⟨hmade.argv, allocsOk_iff.mpr fun j hj => harg j (by rwa [List.length_map] at hj)⟩
      unfold Process.forkCopy
      rw [hargv, hname, hpath, hcwd, hchild, if_neg (not_not_intro hok)]
      dsimp only
      rw [if_neg (not_not_intro ⟨hmade.name, hmade.path, hmade.cwd, hmade.dlopen⟩),
        if_neg (not_not_intro hmade.dlsym), ← hargv']
      rfl
  · exact absurd (fun j hj => harg j hj) hfail
  · rw [hargc] at hshort
    exact absurd hshort (Nat.lt_irrefl _)

/-- **The call as it is on the contents of the objects**, where no call fails up to the environment. -/
theorem forkCopy_contents (hp : Usable l p) (hmade : Made p newProc h) :
    ∃ child l', p.forkCopy l newProc h = .ok (.returned (some (l.heap.next, child)) l') ∧
      p.contents.forkCopy h = .ok (some child.contents) := by
  obtain ⟨child, l', hcopy, hcontents⟩ := copyInto_contents (l := { l with heap := l.heap.push })
    (hp.mono fun b hb => Finset.mem_insert_of_mem hb) hmade
  refine ⟨child, l', ?_, hcontents⟩
  simp only [forkCopy, hmade.newProc, malloc_true, hcopy, bind, Except.bind, if_true]

end ForkFailures
end DistributedPlatform

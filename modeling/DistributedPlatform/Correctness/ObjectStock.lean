import Mathlib.Tactic.Abel
import DistributedPlatform.Correctness.ArgVector
import DistributedPlatform.Correctness.ForkFailures
import DistributedPlatform.Correctness.Loading
import DistributedPlatform.Correctness.Stock

/-!
# `Correctness.ObjectStock` — what becomes of an object, and what it costs

The longer functions of the process object, as far as they can be told by what there was and what there is: the copy
for a fork, a load, a run in a child, and what a new object takes over from an old one.

* `copy_cases` — the two ways `forkCopy` ends;
* `load_cases` — a new object is filled, or nothing is left of the load;
* `vrun_cases` — a run in a child, seen from both images;
* `inherit_stock` — the environment and the directory of another object.
-/

namespace DistributedPlatform
namespace ObjectStock

open Arena (Grown)
open Ledger ProcessObj Stock
open ForkFailures (Made)
open Loading (Posix)

variable {l l' : Ledger} {p o child child' : ProcessObj} {h : ForkCopyHost} {r : Goods}

/-! ## Quantities -/

/-- How many blocks, references and closings. -/
def size : Goods →+ ℕ × ℕ × ℕ := Multiset.cardHom.prodMap (Multiset.cardHom.prodMap (AddMonoidHom.id ℕ))

@[simp] theorem size_ofBlocks (bs : List Nat) : size (ofBlocks bs) = (bs.length, 0, 0) := rfl

@[simp] theorem size_ofLibs (files : List CStr) : size (ofLibs files) = (0, files.length, 0) := rfl

/-! ## The copy of an object -/

/-- An object that was loaded, or copied. -/
structure Whole (o : ProcessObj) : Prop extends Shaped o where
  name : ∃ c, o.name = some c
  path : ∃ c, o.path = some c
  cwd : ∃ c, o.cwd = some c

theorem args_eq (ho : Shaped p) (hl : stock l = ofArgv p + r) :
    p.args l = .ok (argCells p) ∧ (argCells p).length = p.argc ∧ ∀ c ∈ argCells p, c.block ∈ l.heap.live := by
  cases ha : p.argv with
  | none =>
      have hnil : argCells p = [] := by
        unfold argCells
        rw [ha, Option.elim_none]
      rw [hnil]
      refine ⟨?_, (ho.argc ha).symm, fun c hc => absurd hc List.not_mem_nil⟩
      simp only [ProcessObj.args, ha, ho.argc ha, if_true]
  | some a =>
      obtain ⟨cs, rest, hslots, hargc⟩ := ho.argv a ha
      rw [ofArgv_of_slots ha hslots hargc] at hl
      rw [argCells_of_slots ha hslots hargc]
      have hblock : a.block ∈ l.heap.live := live_of_stock hl (List.mem_append_right _ List.mem_cons_self)
      have hptrs : l.argPtrs a cs.length = .ok (cs.map some) := by
        unfold argPtrs
        split
        · next hzero => rw [List.eq_nil_of_length_eq_zero hzero]; rfl
        · simp only [slots_eq hblock, hslots, firstPtrs_eq, bind, Except.bind]
      refine ⟨?_, hargc.symm, fun c hc => live_of_stock hl (List.mem_append_left _ (List.mem_map_of_mem hc))⟩
      simp [ProcessObj.args, ha, hargc, hptrs, bind, Except.bind]

theorem dupField_some {ok : Bool} {s : Option Cell} {c : Cell} (hdup : dupField l ok s = .ok (some c, l')) :
    ok = true := by
  cases ok with
  | true => rfl
  | false =>
      cases s with
      | none => cases hdup
      | some s =>
          obtain ⟨t, -, hdup⟩ := Eff.bind_eq_ok.mp hdup
          cases hdup

/-- A copy of the fields that gets to its end was given all it asked for, but for the environment. -/
theorem made_of_copyFields (hcopy : child.copyFields p l h = .ok (true, child', l')) :
    h.name = true ∧ h.path = true ∧ h.cwd = true ∧ h.dlopen = true ∧ h.dlsym = true := by
  unfold copyFields at hcopy
  obtain ⟨⟨name, l₁⟩, hname, hcopy⟩ := Eff.bind_eq_ok.mp hcopy
  dsimp only at hcopy
  cases name with
  | none => cases hcopy
  | some n =>
      obtain ⟨⟨path, l₂⟩, hpath, hcopy⟩ := Eff.bind_eq_ok.mp hcopy
      dsimp only at hcopy
      cases path with
      | none => cases hcopy
      | some q =>
          obtain ⟨⟨cwd, l₃⟩, hcwd, hcopy⟩ := Eff.bind_eq_ok.mp hcopy
          dsimp only at hcopy
          cases cwd with
          | none => cases hcopy
          | some d =>
              rw [if_neg (Option.some_ne_none d)] at hcopy
              split at hcopy
              · cases hcopy
              · obtain ⟨file, -, hcopy⟩ := Eff.bind_eq_ok.mp hcopy
                refine ⟨dupField_some hname, dupField_some hpath, dupField_some hcwd, ?_⟩
                cases hopen : h.dlopen with
                | false =>
                    rw [hopen] at hcopy
                    cases hcopy
                | true =>
                    cases hsym : h.dlsym with
                    | false =>
                        rw [hopen, hsym] at hcopy
                        cases hcopy
                    | true => exact ⟨rfl, rfl⟩

/-- More blocks beside those there are. -/
theorem stock_push (hl : stock l = r) : stock { l with heap := l.heap.push } = ofBlocks [l.heap.next] + r :=
  hl ▸ grown_stock (Grown.push l.heap)

/-- The arguments are copied, when there is memory. -/
theorem copyArgv_args (hp : Shaped p) (hl : stock l = ofArgv p + r) :
    p.args { l with heap := l.heap.push } = .ok (argCells p) ∧
      ((allocsOk p.argc h.arg = true ∧ ∃ (cs : List Cell) (m : Arena), cs.length = p.argc ∧
          stock { l with heap := m } = ofBlocks (blocks cs ++ [l.heap.next]) + (ofArgv p + r) ∧
          copyArgv h.arg (argCells p) 0 ⟨l.heap.next, List.replicate p.argc .indeterminate⟩
            { l with heap := l.heap.push } = .ok (true, cs.length, ⟨l.heap.next, cs.map .ptr⟩, { l with heap := m })) ∨
        (¬ allocsOk p.argc h.arg = true ∧ ∃ n a m, copyArgv h.arg (argCells p) 0
          ⟨l.heap.next, List.replicate p.argc .indeterminate⟩ { l with heap := l.heap.push } =
            .ok (false, n, a, { l with heap := m }))) := by
  have hpush := stock_push hl
  rw [add_left_comm] at hpush
  obtain ⟨hread, hlen, -⟩ := args_eq hp hpush
  obtain ⟨-, -, hlive⟩ := args_eq hp hl
  refine ⟨hread, ?_⟩
  rw [allocsOk_iff, ← hlen]
  obtain ⟨cs, m, hgrown, ⟨-, hok, htexts, hcopy⟩ | ⟨hfail, rest, hcopy⟩ | ⟨hshort, -⟩⟩ :=
    buildArgv_cases l h.arg (argCells p).length hlive
  · rw [Nat.sub_self, List.replicate_zero, List.append_nil] at hcopy
    have hcs : cs.length = (argCells p).length := by
      have hcs := congrArg List.length htexts
      simpa using hcs
    exact Or.inl ⟨hok, cs, m, hcs, hl ▸ grown_stock hgrown, hcopy⟩
  · exact Or.inr ⟨hfail, _, _, m, hcopy⟩
  · exact absurd hshort (Nat.lt_irrefl _)

theorem made_of_copyInto (hp : Shaped p) (hl : stock l = ofArgv p + r)
    (hcopy : copyInto {} p l h = .ok (true, child, l')) : Made p true h := by
  unfold copyInto at hcopy
  cases hargv : h.argv with
  | false =>
      rw [hargv] at hcopy
      cases hcopy
  | true =>
      obtain ⟨hread, hcases⟩ := copyArgv_args (h := h) hp hl
      simp only [hargv, malloc_true, hread, bind, Except.bind] at hcopy
      rcases hcases with ⟨hok, cs, m, -, -, hargs⟩ | ⟨-, n, a, m, hargs⟩
      · simp only [hargs, if_true] at hcopy
        obtain ⟨hname, hpath, hcwd, hopen, hsym⟩ := made_of_copyFields hcopy
        exact ⟨rfl, hargv, hok, hname, hpath, hcwd, hopen, hsym⟩
      · simp only [hargs, Bool.false_eq_true, if_false] at hcopy
        cases hcopy

/-- A field of an object, beside the rest. -/
theorem fields_name (p : ProcessObj) : ∃ r', fields p = ofCell p.name + r' :=
  ⟨ofArgv p + ofLibs p.dlHandle.toList + ofCell p.path + ofEnviron p.environ + ofCell p.cwd, by unfold fields; abel⟩

theorem fields_path (p : ProcessObj) : ∃ r', fields p = ofCell p.path + r' :=
  ⟨ofArgv p + ofLibs p.dlHandle.toList + ofCell p.name + ofEnviron p.environ + ofCell p.cwd, by unfold fields; abel⟩

/-- … and those that are put in place later. -/
theorem fields_with (p : ProcessObj) : ∃ r', ∀ env info cwd,
    fields { p with environ := env, infoEnviron := info, cwd } = ofEnviron env + (ofCell cwd + r') := by
  refine ⟨ofArgv p + ofLibs p.dlHandle.toList + ofCell p.name + ofCell p.path, fun env info cwd => ?_⟩
  show ofArgv p + (ofLibs p.dlHandle.toList + (ofCell p.name + (ofCell p.path + (ofEnviron env + ofCell cwd)))) = _
  abel

theorem live_of_cell {c : Cell} (hl : stock l = ofCell (some c) + r) : c.block ∈ l.heap.live :=
  live_of_stock hl List.mem_cons_self

/-- The fields of a copy, behind the argument vector. -/
theorem copyFields_stock (hp : Whole p) (hmade : Made p true h) (hchild : child.environ = none)
    (hl : stock l = fields p + r) :
    ∃ (n q d : Cell) (file : CStr) (env : Option PtrArray) (l' : Ledger),
      child.copyFields p l h = .ok (true, { child with
        name := some n, path := some q, cwd := some d, dlHandle := some file, symbols := some file, state := p.state,
        environ := env, infoEnviron := env.map (·.block) }, l') ∧
      size (ofEnviron env) = (copySize p.environ h.environ h.environEntry, 0, 0) ∧
      (∀ a, env = some a → ∃ rest, a.slots = a.cells.map .ptr ++ .null :: rest) ∧
      stock l' = (ofLibs [file] + (ofCell (some n) + (ofCell (some q) + (ofEnviron env + ofCell (some d))))) +
        (fields p + r) := by
  obtain ⟨n, hn⟩ := hp.name
  obtain ⟨q, hq⟩ := hp.path
  obtain ⟨d, hd⟩ := hp.cwd
  have hpush : ∀ (m : Arena) b, b ∈ m.live → b ∈ m.push.live := fun m b hb => Finset.mem_insert_of_mem hb
  have hnl : n.block ∈ l.heap.live := by
    obtain ⟨r', hr⟩ := fields_name p
    rw [hr, hn, add_assoc] at hl
    exact live_of_cell hl
  have hql : q.block ∈ l.heap.live := by
    obtain ⟨r', hr⟩ := fields_path p
    rw [hr, hq, add_assoc] at hl
    exact live_of_cell hl
  have hdl : d.block ∈ l.heap.live := by
    obtain ⟨r', hr⟩ := fields_with p
    have hboth : fields p = ofEnviron p.environ + (ofCell p.cwd + r') := hr p.environ p.infoEnviron p.cwd
    rw [hboth, add_left_comm, hd, add_assoc] at hl
    exact live_of_cell hl
  have hname := ForkFailures.dupField_eq hnl
  have hpath := ForkFailures.dupField_eq (l := { l with heap := l.heap.push }) (hpush _ _ hql)
  have hcwd := ForkFailures.dupField_eq (l := { l with heap := l.heap.push.push }) (hpush _ _ (hpush _ _ hdl))
  have hfile := text_eq (l := { l with heap := l.heap.push.push.push }) (hpush _ _ (hpush _ _ (hpush _ _ hql)))
  obtain ⟨l₁, hl₁⟩ : ∃ l₁ : Ledger, l₁ = { l with heap := l.heap.push.push.push, libs := q.text :: l.libs } :=
    ⟨_, rfl⟩
  -- three blocks and a reference more
  have hstock : stock l₁ = ofLibs [q.text] + (ofBlocks [l.heap.push.push.next] + (ofBlocks [l.heap.push.next] +
      (ofBlocks [l.heap.next] + (fields p + r)))) := by
    rw [hl₁]
    exact dlopen_stock (l := { l with heap := l.heap.push.push.push }) q.text
      (stock_push (l := { l with heap := l.heap.push.push })
        (stock_push (l := { l with heap := l.heap.push }) (stock_push hl)))
  obtain ⟨r', hr⟩ := fields_with p
  have hboth : fields p = ofEnviron p.environ + (ofCell p.cwd + r') := hr p.environ p.infoEnviron p.cwd
  have henviron : stock l₁ = ofEnviron p.environ + (ofLibs [q.text] + (ofBlocks [l.heap.push.push.next] +
      (ofBlocks [l.heap.push.next] + (ofBlocks [l.heap.next] + (ofCell p.cwd + r' + r))))) := by
    rw [hstock, hboth]
    abel
  obtain ⟨child₁, hchild₁⟩ : ∃ o : ProcessObj, o = { child with
      name := some ⟨l.heap.next, n.text⟩, path := some ⟨l.heap.push.next, q.text⟩,
      cwd := some ⟨l.heap.push.push.next, d.text⟩, dlHandle := some q.text, symbols := some q.text,
      state := p.state } := ⟨_, rfl⟩
  have hnone : child₁.environ = none := by rw [hchild₁, hchild]
  obtain ⟨ret, env, l', bs, hset, hbs, hlen, hnull, hl'⟩ :=
    setEnviron_stock h.environ h.environEntry hnone hp.environ henviron
  refine ⟨⟨l.heap.next, n.text⟩, ⟨l.heap.push.next, q.text⟩, ⟨l.heap.push.push.next, d.text⟩, q.text, env, l', ?_, ?_,
    hnull, ?_⟩
  · rw [hchild₁, hl₁] at hset
    simp [copyFields, hn, hq, hd, hmade.name, hmade.path, hmade.cwd, hname, hpath, hcwd, hfile, dlopen,
      hmade.dlopen, hmade.dlsym, hset, bind, Except.bind]
  · rw [hbs, size_ofBlocks, hlen]
  · rw [hl', ← henviron, hstock, hbs]
    show _ = ofLibs [q.text] + (ofBlocks [l.heap.next] + (ofBlocks [l.heap.push.next] + (ofBlocks bs +
      ofBlocks [l.heap.push.push.next]))) + (fields p + r)
    abel

/-- The blocks of the copy of `p`, its own among them. -/
def copied (p : ProcessObj) (h : ForkCopyHost) : Nat := p.argc + 5 + copySize p.environ h.environ h.environEntry

/-- **The ways `forkCopy` ends**: with a whole copy, or not at all. -/
theorem copy_cases (hp : Whole p) (hl : stock l = fields p + r) (h : ForkCopyHost) :
    (Made p true h ∧ ∃ b child l', p.forkCopy l true h = .ok (.returned (some (b, child)) l') ∧ Whole child ∧
      size (ofBlocks [b] + fields child) = (copied p h, 1, 0) ∧
      stock l' = (ofBlocks [b] + fields child) + (fields p + r)) ∨
    (¬ Made p true h ∧ ∃ e, p.forkCopy l true h = .error e) := by
  have hargs : stock { l with heap := l.heap.push } = ofArgv p + (ofBlocks [l.heap.next] + (ofLibs p.dlHandle.toList +
      (ofCell p.name + (ofCell p.path + (ofEnviron p.environ + ofCell p.cwd))) + r)) := by
    rw [stock_push hl, fields]
    abel
  by_cases hmade : Made p true h
  · obtain ⟨hread, hcases⟩ := copyArgv_args (h := h) hp.toShaped hargs
    rcases hcases with ⟨-, cs, m, hlen, hm, hcopy⟩ | ⟨hfail, -⟩
    · obtain ⟨child₀, hchild₀⟩ : ∃ o : ProcessObj,
          o = { argc := cs.length, argv := some ⟨l.heap.push.next, cs.map Slot.ptr⟩ } := ⟨_, rfl⟩
      have hrest : stock { l with heap := m } = fields p + (ofBlocks (blocks cs ++ [l.heap.push.next]) +
          (ofBlocks [l.heap.next] + r)) := by
        rw [hm, fields]
        abel
      have hnone : child₀.environ = none := by rw [hchild₀]
      obtain ⟨n, q, d, file, env, l', hfields, hsize, hnull, hl'⟩ := copyFields_stock hp hmade hnone hrest
      obtain ⟨child, hchild⟩ : ∃ o : ProcessObj, o = { child₀ with
          name := some n, path := some q, cwd := some d, dlHandle := some file, symbols := some file,
          state := p.state, environ := env, infoEnviron := env.map (·.block) } := ⟨_, rfl⟩
      rw [← hchild] at hfields
      have hargv : child.argv = some ⟨l.heap.push.next, cs.map Slot.ptr⟩ := by rw [hchild, hchild₀]
      have hargc : child.argc = cs.length := by rw [hchild, hchild₀]
      have hheld : ofArgv child = ofBlocks (blocks cs ++ [l.heap.push.next]) :=
        ofArgv_of_slots hargv (List.append_nil _).symm hargc
      have hall : fields child = ofBlocks (blocks cs ++ [l.heap.push.next]) + (ofLibs [file] + (ofCell (some n) +
          (ofCell (some q) + (ofEnviron env + ofCell (some d))))) := by
        unfold fields
        rw [hheld, hchild]
        rfl
      refine Or.inl ⟨hmade, l.heap.next, child, l', ?_, ?_, ?_, ?_⟩
      · have hinto : copyInto {} p { l with heap := l.heap.push } h = .ok (true, child, l') := by
          simp only [copyInto, hmade.argv, malloc_true, hread, hcopy, bind, Except.bind, if_true]
          rw [← hchild₀]
          exact hfields
        simp only [forkCopy, malloc_true, hinto, bind, Except.bind, if_true]
      · refine ⟨⟨fun hnil => ?_, fun a ha => ?_, fun a ha => ?_⟩, ⟨n, by rw [hchild]⟩, ⟨q, by rw [hchild]⟩,
          ⟨d, by rw [hchild]⟩⟩
        · rw [hargv] at hnil
          cases hnil
        · cases hargv.symm.trans ha
          exact ⟨cs, [], (List.append_nil _).symm, hargc⟩
        · rw [hchild] at ha
          exact hnull a ha
      · have hone : ∀ c : Cell, size (ofCell (some c)) = (1, 0, 0) := fun _ => rfl
        rw [hall]
        simp only [map_add, size_ofBlocks, size_ofLibs, hsize, hone, copied, blocks, List.length_append,
          List.length_map, List.length_singleton, Prod.mk_add_mk, hlen]
        refine Prod.ext ?_ rfl
        dsimp only
        omega
      · rw [hl', hall]
        abel
    · exact absurd hmade.arg hfail
  · refine Or.inr ⟨hmade, ?_⟩
    unfold forkCopy
    rw [malloc_true]
    dsimp only
    cases hinto : copyInto {} p { l with heap := l.heap.push } h with
    | error e => exact ⟨e, rfl⟩
    | ok x =>
        obtain ⟨done, child, l₁⟩ := x
        cases done with
        | true => exact absurd (made_of_copyInto hp.toShaped hargs hinto) hmade
        | false =>
            cases hab : child.abandon l₁ with
            | error e => exact ⟨e, by simp [hab, bind, Except.bind]⟩
            | ok l₂ => exact absurd hab (ForkFailures.not_abandoned hinto)

/-! ## A program loaded -/

section Loading

variable {fs : FSDirect} {dir : Dirname} {value : CStr → CStr} {c path : CStr}

/-- The object of a program that was loaded and has not run. -/
structure Loaded (o : ProcessObj) : Prop extends Whole o where
  state : o.state = .loaded
  noArgv : o.argv = none
  noEnviron : o.environ = none

/-- A new object is filled, or nothing is left of the load. -/
theorem load_cases (hfs : fs.containerPath = some c) (hc : 0 ∉ c) (hdir : Posix dir value) (hp : 0 ∉ path)
    (hl : stock l = r) (h : LoadHost) (fill : LoadFill) :
    (¬ (path.head? = some 47 ∧ h.succeeds = true) ∧ ∃ o l',
      ({} : ProcessObj).loadFileFS l fs dir (some path) h fill = .ok (false, o, l') ∧ stock l' = r) ∨
    ((path.head? = some 47 ∧ h.succeeds = true) ∧ ∃ o l',
      ({} : ProcessObj).loadFileFS l fs dir (some path) h fill = .ok (true, o, l') ∧ Loaded o ∧
      stock l' = fields o + r) := by
  have hnew : Loading.Unloaded {} := ⟨⟨rfl, rfl, rfl, rfl⟩, rfl⟩
  rcases Loading.loadFileFS_cases hnew hfs hc hdir (fun q hq => Option.some.inj hq ▸ hp) l h fill with
    ⟨hno, s, m, hm, hload⟩ | ⟨q, ⟨hq, habs, hall⟩, d, n, b, m, hm, hload⟩
  · refine Or.inl ⟨fun hyes => hno ⟨path, rfl, hyes⟩, _, _, hload, ?_⟩
    rw [grown_stock hm, hl, ofBlocks_nil, zero_add]
  · cases hq
    refine Or.inr ⟨⟨habs, hall⟩, _, _, hload, ?_, ?_⟩
    · have hshaped : Shaped {
          cwd := some ⟨d, value path⟩, dlHandle := some (c ++ path), symbols := some (c ++ path),
          name := some ⟨n, lastPart path⟩, path := some ⟨b, c ++ path⟩, state := .loaded } :=
        ⟨fun _ => rfl, shaped_new.argv, shaped_new.environ⟩
      exact ⟨⟨hshaped, ⟨_, rfl⟩, ⟨_, rfl⟩, ⟨_, rfl⟩⟩, rfl, rfl, rfl⟩
    · have hgrown : stock { l with heap := m, libs := (c ++ path) :: l.libs } =
          ofLibs [c ++ path] + (ofBlocks ([d] ++ ([n] ++ [b])) + r) :=
        dlopen_stock (l := { l with heap := m }) (c ++ path) (hl ▸ grown_stock hm)
      rw [hgrown, ofBlocks_append, ofBlocks_append]
      show _ = 0 + (ofLibs [c ++ path] + (ofBlocks [n] + (ofBlocks [b] + (0 + ofBlocks [d])))) + r
      abel

end Loading

/-- An object that runs has the vector beside what it had. -/
theorem fields_started (ho : o.argv = none) (cs : List Cell) (b : Nat) (posixPID : Int) :
    fields (o.started cs.length ⟨b, cs.map .ptr⟩ posixPID) = ofBlocks (blocks cs ++ [b]) + fields o := by
  have hargv : ofArgv (o.started cs.length ⟨b, cs.map .ptr⟩ posixPID) = ofBlocks (blocks cs ++ [b]) :=
    ofArgv_of_slots (a := ⟨b, cs.map .ptr⟩) rfl (List.append_nil _).symm rfl
  have hnone : ofArgv o = 0 := by
    unfold ofArgv
    rw [ho, Option.elim_none]
  unfold fields
  rw [hargv, hnone, zero_add]
  rfl

theorem Whole.started (ho : Whole o) (cs : List Cell) (b : Nat) (posixPID : Int) :
    Whole (o.started cs.length ⟨b, cs.map .ptr⟩ posixPID) := by
  refine ⟨⟨fun hnil => ?_, fun a ha => ?_, ho.environ⟩, ho.name, ho.path, ho.cwd⟩
  · cases hnil
  · cases ha
    exact ⟨cs, [], (List.append_nil _).symm, rfl⟩

/-! ## A program run -/

/-- With more there is what there was. -/
theorem live_of_more {d : Goods} (hl : stock l = r) (hl' : stock l' = d + r) {b : Nat} (hb : b ∈ l.heap.live) :
    b ∈ l'.heap.live := by
  have hval : l'.heap.live.val = d.1 + l.heap.live.val := by
    rw [← hl] at hl'
    exact congrArg Prod.fst hl'
  exact Finset.mem_val.mp (hval ▸ Multiset.mem_add.mpr (Or.inr hb))

/-- A program that was loaded is run in a child: the vector is in the object there, and lost here. -/
theorem vrun_cases (ho : Loaded o) (hl : stock l = fields o + r) {args : List Cell}
    (hargs : ∀ c ∈ args, c.block ∈ l.heap.live) (hfits : args.length + 1 < 2 ^ 32) (h : RunHost) (self : Int) :
    (¬ h.succeeds (args.length + 1) = true ∧ ∃ l',
      o.vrun l true args h self = .ok { ret := false, obj := o, ledger := l' } ∧ stock l' = fields o + r) ∨
    (h.succeeds (args.length + 1) = true ∧ ∃ o' l' d, o.vrun l true args h self =
        .ok { ret := true, obj := o, ledger := l', child := some (o', l') } ∧ Whole o' ∧
      size d = (args.length + 2, 0, 0) ∧ fields o' = d + fields o ∧ stock l' = d + (fields o + r)) := by
  have hname : ∀ c, o.name = some c → c.block ∈ l.heap.live := by
    intro c hc
    obtain ⟨r', hr⟩ := fields_name o
    rw [hr, hc, add_assoc] at hl
    exact live_of_cell hl
  have hsucceeds : h.succeeds (args.length + 1) = true ↔ ArgVector.Enters o true args h := by
    unfold RunHost.succeeds
    rw [Bool.and_eq_true, Bool.and_eq_true, decide_eq_true_eq]
    exact ⟨fun hs => ⟨ho.state, hfits, hs.1.1, hs.1.2, fun _ => hs.2⟩, fun hin => ⟨⟨hin.argv, hin.arg⟩, hin.fork rfl⟩⟩
  rw [hsucceeds]
  rcases @ArgVector.vrun_cases l o true args h self hname hargs with
    ⟨hbad, -⟩ | ⟨hno, m, hm, hrun⟩ | ⟨hin, name, cs, m, -, htexts, hm, hrun⟩
  · rcases hbad with hnone | hlarge
    · obtain ⟨c, hc⟩ := ho.name
      cases hc.symm.trans hnone
    · omega
  · refine Or.inl ⟨hno, _, hrun, ?_⟩
    rw [grown_stock hm, hl, ofBlocks_nil, zero_add]
  · rw [ArgVector.arun_of_enters hin] at hrun
    have hlen : cs.length = args.length + 1 := by
      have hlen := congrArg List.length htexts
      simpa using hlen
    refine Or.inr ⟨hin, _, _, ofBlocks (blocks cs ++ [l.heap.next]), hrun, ho.toWhole.started _ _ _, ?_,
      fields_started ho.noArgv cs _ _, hl ▸ grown_stock hm⟩
    rw [size_ofBlocks, List.length_append, blocks, List.length_map, hlen]
    rfl

/-! ## What an exec hands on -/

/-- Two parts are two blocks. -/
theorem block_ne {c d : Cell} (hl : stock l = ofCell (some c) + (ofCell (some d) + r)) : c.block ≠ d.block := by
  have hval : l.heap.live.val = c.block ::ₘ d.block ::ₘ r.1 := congrArg Prod.fst hl
  have hnodup := hval ▸ l.heap.live.nodup
  rintro heq
  exact (Multiset.nodup_cons.mp hnodup).1 (heq ▸ Multiset.mem_cons_self _ _)

/-- A new object gets the environment and the directory of the old one, which is still there. -/
theorem inherit_stock {n : ProcessObj} (hn : Loaded n) (ho : Whole o) (hl : stock l = fields n + (fields o + r))
    (h : ExecHost) :
    ∃ ret₁ ret₂ n₁ l₁ n₂ l₂, n.setEnviron l o.environ h.environ h.environEntry = .ok (ret₁, n₁, l₁) ∧
      n₁.setCwd l₁ o.cwd h.cwd = .ok (ret₂, n₂, l₂) ∧ Whole n₂ ∧ n₂.state = .loaded ∧ n₂.argv = none ∧
      stock l₂ = fields n₂ + (fields o + r) := by
  obtain ⟨d, hd⟩ := ho.cwd
  obtain ⟨ro, hro⟩ := fields_with o
  obtain ⟨rn, hrn⟩ := fields_with n
  have hold : fields o = ofEnviron o.environ + (ofCell (some d) + ro) :=
    (hro o.environ o.infoEnviron o.cwd).trans (by rw [hd])
  have hnew : fields n = ofCell n.cwd + rn :=
    (hrn n.environ n.infoEnviron n.cwd).trans (by rw [hn.noEnviron]; exact zero_add _)
  have hread : stock l = ofEnviron o.environ + (ofCell n.cwd + (rn + (ofCell (some d) + (ro + r)))) := by
    rw [hl, hold, hnew]
    abel
  obtain ⟨ret₁, env, l₁, bs, hset₁, hbs, -, hnull, hl₁⟩ :=
    setEnviron_stock h.environ h.environEntry hn.noEnviron ho.environ hread
  obtain ⟨n₁, hn₁⟩ : ∃ x : ProcessObj, x = { n with environ := env, infoEnviron := env.map (·.block) } := ⟨_, rfl⟩
  rw [← hn₁] at hset₁
  have hcwd : n₁.cwd = n.cwd := by rw [hn₁]
  have hparts : stock l₁ =
      ofCell n₁.cwd + (ofCell (some d) + (ofBlocks bs + (ofEnviron o.environ + (rn + (ro + r))))) := by
    rw [hl₁, hcwd]
    abel
  have hlive : d.block ∈ l₁.heap.live := live_of_cell (hparts.trans (add_left_comm _ _ _))
  obtain ⟨ret₂, cwd, l₂, hset₂, hl₂, hsome⟩ := setCwd_stock h.cwd hparts hlive fun e he => block_ne (he ▸ hparts)
  obtain ⟨n₂, hn₂⟩ : ∃ x : ProcessObj, x = { n₁ with cwd } := ⟨_, rfl⟩
  rw [← hn₂, ← hd] at hset₂
  have hfields : fields n₂ = ofBlocks bs + (ofCell cwd + rn) := by
    rw [hn₂, hn₁, ← hbs]
    exact hrn env (env.map (·.block)) cwd
  have hsame : n₂ = { n with environ := env, infoEnviron := env.map (·.block), cwd } := by rw [hn₂, hn₁]
  have hshaped : Shaped n₂ := by
    rw [hsame]
    exact ⟨hn.argc, hn.argv, hnull⟩
  have hplace : ∃ c, n₂.cwd = some c := by
    rw [hsame]
    refine Option.ne_none_iff_exists'.mp fun hnone => ?_
    obtain ⟨e, he⟩ := hn.cwd
    cases (hcwd.trans he).symm.trans (hsome hnone)
  refine ⟨ret₁, ret₂, n₁, l₁, n₂, l₂, hset₁, hset₂, ⟨hshaped, ?_, ?_, hplace⟩, ?_, ?_, ?_⟩
  · rw [hsame]
    exact hn.name
  · rw [hsame]
    exact hn.path
  · rw [hsame]
    exact hn.state
  · rw [hsame]
    exact hn.noArgv
  · rw [hl₂, hfields, hold]
    abel

end ObjectStock
end DistributedPlatform

import DistributedPlatform.ProcessHeap

/-!
# `Correctness.ArgVector` — who owns the argument vector

`vrun` builds the vector and hands it to `arun`, which stores it in the object of the image that runs the program.
When `arun` refuses, `vrun` releases the vector; when it succeeds, `vrun` takes it for stored.

* `copies_cases` — the vector is built, or what there was of it is released;
* `vrun_cases` — the ways a call ends;
* `balanced_iff` — when no block of the vector is lost;
* `vrun_contents` — the call as `Process.vrun` has it.
-/

namespace DistributedPlatform
namespace ArgVector

open Arena (Grown)
open Ledger ProcessObj

variable {l : Ledger} {o : ProcessObj} {doFork : Bool} {args : List Cell} {h : RunHost} {self : Int}

/-- What is left of the vector when `vrun` returns: nothing, or a vector that is in the object, and which the
    destructor's loop releases to the last block. -/
def Balanced (l : Ledger) (r : RanHeap) : Prop :=
  Grown l.heap [] r.ledger.heap ∨
    ∃ a l', r.obj.argv = some a ∧ a.block ∉ l.heap.live ∧ r.ledger.freeArgv a r.obj.argc = .ok l' ∧
      Grown l.heap [] l'.heap

/-- The program is entered. -/
structure Enters (o : ProcessObj) (doFork : Bool) (args : List Cell) (h : RunHost) : Prop where
  loaded : o.state = .loaded
  argc : args.length + 1 < 2 ^ 32
  argv : h.argv = true
  arg : allocsOk (args.length + 1) h.arg = true
  fork : doFork = true → 0 ≤ h.fork

/-- `arun` refuses, or stores the vector where the program runs. -/
theorem arun_cases (o : ProcessObj) (l : Ledger) (doFork : Bool) (argc : Nat) (a : PtrArray) (fork self : Int) :
    ((o.state ≠ .loaded ∨ doFork = true ∧ fork < 0) ∧
      o.arun l doFork argc a fork self = { ret := false, obj := o, ledger := l }) ∨
    (o.state = .loaded ∧ (doFork = true → 0 ≤ fork) ∧ o.arun l doFork argc a fork self =
      if doFork then { ret := true, obj := o, ledger := l, child := some (o.started argc a fork, l) }
      else { ret := true, obj := o.started argc a self, ledger := l }) := by
  unfold arun
  by_cases hstate : o.state = .loaded
  · rw [if_neg (not_not_intro hstate)]
    cases doFork with
    | false => exact Or.inr ⟨hstate, nofun, rfl⟩
    | true =>
        by_cases hfork : fork < 0
        · refine Or.inl ⟨Or.inr ⟨rfl, hfork⟩, ?_⟩
          rw [if_pos rfl, if_pos hfork]
        · refine Or.inr ⟨hstate, fun _ => not_lt.mp hfork, ?_⟩
          rw [if_pos rfl, if_neg hfork, if_pos rfl]
  · exact Or.inl ⟨Or.inl hstate, if_pos hstate⟩

/-- **The ways a call ends**: it has no name to begin with or the vector is too short; it returns `false` and has
    released what it allocated; or the program is entered with a new vector of copies. -/
theorem vrun_cases (hname : ∀ c, o.name = some c → c.block ∈ l.heap.live)
    (hargs : ∀ c ∈ args, c.block ∈ l.heap.live) :
    ((o.name = none ∨ 2 ^ 32 ≤ args.length + 1) ∧ ∃ e, o.vrun l doFork args h self = .error e) ∨
    (¬ Enters o doFork args h ∧ ∃ m, Grown l.heap [] m ∧
      o.vrun l doFork args h self = .ok { ret := false, obj := o, ledger := { l with heap := m } }) ∨
    (Enters o doFork args h ∧ ∃ name cs m, o.name = some name ∧
      cs.map (·.text) = name.text :: args.map (·.text) ∧ Grown l.heap (blocks cs ++ [l.heap.next]) m ∧
      o.vrun l doFork args h self = .ok (o.arun { l with heap := m } doFork cs.length ⟨l.heap.next, cs.map .ptr⟩
        h.fork self)) := by
  cases hargv : h.argv with
  | false =>
      refine Or.inr (Or.inl ⟨fun hin => ?_, l.heap, .refl _, ?_⟩)
      · have h := hin.argv
        rw [hargv] at h
        cases h
      · simp only [vrun, hargv, malloc_false]
  | true =>
      cases hn : o.name with
      | none =>
          refine Or.inl ⟨Or.inl rfl, .nullDeref, ?_⟩
          simp only [vrun, hargv, malloc_true, hn]
      | some name =>
          have hsrc : ∀ c ∈ name :: args, c.block ∈ l.heap.live := List.forall_mem_cons.mpr ⟨hname name hn, hargs⟩
          obtain ⟨cs, m, hgrown, hcases⟩ := buildArgv_cases l h.arg ((args.length + 1) % 2 ^ 32) hsrc
          rw [List.length_cons] at hcases
          rcases hcases with ⟨hroom, hok, htexts, hcopy⟩ | ⟨hfail, rest, hcopy⟩ | ⟨hshort, hcopy⟩
          · have hargc : (args.length + 1) % 2 ^ 32 = args.length + 1 := by omega
            have hlen : cs.length = args.length + 1 := by
              have h := congrArg List.length htexts
              simpa using h
            rw [hargc, Nat.sub_self, List.replicate_zero, List.append_nil] at hcopy
            have hvrun : o.vrun l doFork args h self =
                (if (o.arun { l with heap := m } doFork cs.length ⟨l.heap.next, cs.map .ptr⟩ h.fork self).ret then
                  .ok (o.arun { l with heap := m } doFork cs.length ⟨l.heap.next, cs.map .ptr⟩ h.fork self)
                else (o.arun { l with heap := m } doFork cs.length ⟨l.heap.next, cs.map .ptr⟩ h.fork
                    self).ledger.freeArgv ⟨l.heap.next, cs.map .ptr⟩ cs.length >>= fun ledger =>
                  .ok { (o.arun { l with heap := m } doFork cs.length ⟨l.heap.next, cs.map .ptr⟩ h.fork self) with
                    ledger }) := by
              simp only [vrun, hargv, malloc_true, hn, hargc, hcopy, hlen, bind, Except.bind]
              rfl
            rcases arun_cases o { l with heap := m } doFork cs.length ⟨l.heap.next, cs.map .ptr⟩ h.fork self with
              ⟨hrefused, harun⟩ | ⟨hstate, hfork, harun⟩
            · obtain ⟨m', hfree, hm'⟩ := freeArgv_built hgrown (.refl m) l []
              rw [List.append_nil] at hfree
              refine Or.inr (Or.inl ⟨fun hin => ?_, m', hm', ?_⟩)
              · rcases hrefused with hstate | ⟨hfork, hneg⟩
                · exact hstate hin.loaded
                · exact absurd (hin.fork hfork) (not_le.mpr hneg)
              · rw [hvrun, harun]
                simp only [hfree, bind, Except.bind]
                rfl
            · refine Or.inr (Or.inr ⟨⟨hstate, by omega, hargv, allocsOk_iff.mpr hok, hfork⟩, name, cs, m, rfl,
                htexts, hgrown, ?_⟩)
              have hret : (o.arun { l with heap := m } doFork cs.length ⟨l.heap.next, cs.map .ptr⟩ h.fork
                  self).ret = true := by
                rw [harun]
                cases doFork <;> rfl
              rw [hvrun, if_pos hret]
          · obtain ⟨m', hfree, hm'⟩ := freeArgv_built hgrown (.refl m) l (.null :: rest)
            refine Or.inr (Or.inl ⟨fun hin => hfail (allocsOk_iff.mp hin.arg), m', hm', ?_⟩)
            simp only [vrun, hargv, malloc_true, hn, hcopy, hfree, bind, Except.bind]
            rfl
          · refine Or.inl ⟨Or.inr (by omega), .outOfBounds, ?_⟩
            simp only [vrun, hargv, malloc_true, hn, hcopy, bind, Except.bind]

/-- The program entered, by where it runs. -/
theorem arun_of_enters (hin : Enters o doFork args h) (argc : Nat) (a : PtrArray) :
    o.arun l doFork argc a h.fork self =
      if doFork then { ret := true, obj := o, ledger := l, child := some (o.started argc a h.fork, l) }
      else { ret := true, obj := o.started argc a self, ledger := l } := by
  rcases arun_cases o l doFork argc a h.fork self with ⟨hstate | ⟨hfork, hneg⟩, -⟩ | ⟨-, -, harun⟩
  · exact absurd hin.loaded hstate
  · exact absurd (hin.fork hfork) (not_le.mpr hneg)
  · exact harun

/-- **When no block of the vector is lost**: whatever the arguments, the state of the process and the answers of the
    allocator and of `fork`, a call that returns has released every block it allocated or left it in `info.argv`,
    except in the image that forked a child to run the program. -/
theorem balanced_iff (hname : ∀ c, o.name = some c → c.block ∈ l.heap.live)
    (hargs : ∀ c ∈ args, c.block ∈ l.heap.live) (hargv : ∀ a, o.argv = some a → a.block ∈ l.heap.live) :
    (∀ r, o.vrun l doFork args h self = .ok r → Balanced l r) ↔
      ¬ (doFork = true ∧ o.name ≠ none ∧ Enters o doFork args h) := by
  rcases vrun_cases (o := o) (l := l) (h := h) hname hargs with
    ⟨hbad, e, hrun⟩ | ⟨hno, m, hgrown, hrun⟩ | ⟨hin, name, cs, m, hn, -, hgrown, hrun⟩
  · refine iff_of_true (fun r hr => nomatch hrun.symm.trans hr) ?_
    rintro ⟨-, hsome, hin⟩
    rcases hbad with hnone | hlarge
    · exact hsome hnone
    · exact absurd hin.argc (not_lt.mpr hlarge)
  · refine iff_of_true (fun r hr => ?_) (fun hc => hno hc.2.2)
    cases hrun.symm.trans hr
    exact Or.inl hgrown
  · rw [arun_of_enters hin] at hrun
    cases doFork with
    | false =>
        refine iff_of_true (fun r hr => ?_) (fun hc => Bool.false_ne_true hc.1)
        cases hrun.symm.trans hr
        -- the object has the vector
        obtain ⟨m', hfree, hm'⟩ := freeArgv_built hgrown (.refl m) l []
        rw [List.append_nil] at hfree
        exact Or.inr ⟨_, _, rfl, l.heap.next_notMem, hfree, hm'⟩
    | true =>
        refine iff_of_false (fun hall => ?_) (not_not_intro ⟨rfl, hn ▸ Option.some_ne_none _, hin⟩)
        rcases hall _ hrun with hnothing | ⟨a, l', hown, hfresh, -⟩
        · exact hgrown.live_ne (List.append_ne_nil_of_right_ne_nil _ (List.cons_ne_nil _ _)) hnothing.live_eq
        · exact hfresh (hargv a hown)

/-- A process that runs without forking, and one that forks without success. -/
theorem balanced_iff_run :
    ∃ (o : ProcessObj) (l : Ledger) (h h' : RunHost), o.state = .loaded ∧
      (∀ r, o.vrun l false [] h 100 = .ok r → Balanced l r) ∧
      (∀ r, o.vrun l true [] h' 100 = .ok r → Balanced l r) := by
  let l : Ledger := { heap := Arena.empty.push }
  have hname : ∀ c, some (⟨0, bytes "sh"⟩ : Cell) = some c → c.block ∈ l.heap.live :=
    fun c hc => Option.some.inj hc ▸ (by decide)
  have hargs : ∀ c ∈ ([] : List Cell), c.block ∈ l.heap.live := fun _ hc => absurd hc List.not_mem_nil
  have hargv : ∀ a, (none : Option PtrArray) = some a → a.block ∈ l.heap.live := fun _ ha => nomatch ha
  refine ⟨{ state := .loaded, name := some ⟨0, bytes "sh"⟩ }, l, ⟨true, fun _ => true, 0⟩,
    ⟨true, fun _ => true, -1⟩, rfl, ?_, ?_⟩
  · exact (balanced_iff hname hargs hargv).mpr fun hc => Bool.false_ne_true hc.1
  · exact (balanced_iff hname hargs hargv).mpr fun hc => absurd (hc.2.2.fork rfl) (by decide)

/-- The image that forked a child has lost the vector. -/
theorem vector_lost :
    ¬ ∀ (o : ProcessObj) (l : Ledger) (doFork : Bool) (args : List Cell) (h : RunHost) (self : Int),
      (∀ c, o.name = some c → c.block ∈ l.heap.live) → (∀ c ∈ args, c.block ∈ l.heap.live) →
      (∀ a, o.argv = some a → a.block ∈ l.heap.live) →
      ∀ r, o.vrun l doFork args h self = .ok r → Balanced l r := by
  intro hall
  let l : Ledger := { heap := Arena.empty.push }
  have hbalanced := hall { state := .loaded, name := some ⟨0, bytes "sh"⟩ } l true [] ⟨true, fun _ => true, 101⟩ 100
    (fun c hc => Option.some.inj hc ▸ (by decide)) nofun nofun _ rfl
  rcases hbalanced with hnothing | ⟨a, l', hown, -⟩
  · have hlive := hnothing.live_eq
    revert hlive
    decide
  · cases hown

/-! ## The contents -/

/-- A copy of the name and the arguments is what the contents have in the vector. -/
theorem started_contents (o : ProcessObj) {cs : List Cell} (b : Nat) (posixPID : Int) :
    (o.started cs.length ⟨b, cs.map .ptr⟩ posixPID).contents =
      o.contents.started (cs.map (·.text)) posixPID := by
  have htake : (((cs.map Slot.ptr).take cs.length).filterMap Slot.cell?) = cs := by
    have h := cells_of_take cs []
    rwa [List.append_nil] at h
  simp only [contents, started, Process.started, Option.map_some, htake]

theorem vrun_refused {p : Process} {ss : List CStr} (hname : h.argv = true → p.name ≠ none)
    (hno : ¬ (p.state = .loaded ∧ h.argv = true ∧ allocsOk (ss.length + 1) h.arg = true ∧
      (doFork = true → 0 ≤ h.fork))) : p.vrun doFork ss h self = .ok ⟨false, none⟩ := by
  unfold Process.vrun
  by_cases hargv : h.argv = true
  · obtain ⟨name, hn⟩ := Option.ne_none_iff_exists'.mp (hname hargv)
    rw [if_neg (not_not_intro hargv), hn]
    dsimp only
    by_cases harg : allocsOk (ss.length + 1) h.arg = true
    · rw [if_neg (not_not_intro harg)]
      unfold Process.arun
      by_cases hstate : p.state = .loaded
      · rw [if_neg (not_not_intro hstate)]
        have hfork : ¬ (doFork = true → 0 ≤ h.fork) := fun hf => hno ⟨hstate, hargv, harg, hf⟩
        push Not at hfork
        rw [if_pos hfork.1, if_pos hfork.2]
      · rw [if_pos hstate]
    · rw [if_pos harg]
  · rw [if_pos hargv]

/-- **The call as it is on the contents of the object.** -/
theorem vrun_contents (hname : ∀ c, o.name = some c → c.block ∈ l.heap.live)
    (hargs : ∀ c ∈ args, c.block ∈ l.heap.live) (hfits : args.length + 1 < 2 ^ 32) {r : RanHeap}
    (hr : o.vrun l doFork args h self = .ok r) :
    o.contents.vrun doFork (args.map (·.text)) h self =
      .ok ⟨r.ret, if doFork then r.child.map (·.1.contents) else if r.ret then some r.obj.contents else none⟩ := by
  rcases vrun_cases (o := o) (l := l) (h := h) hname hargs with
    ⟨-, e, hrun⟩ | ⟨hno, m, -, hrun⟩ | ⟨hin, name, cs, m, hn, htexts, -, hrun⟩
  · cases hrun.symm.trans hr
  · cases hrun.symm.trans hr
    have hrefused : o.contents.vrun doFork (args.map (·.text)) h self = .ok ⟨false, none⟩ := by
      refine vrun_refused (fun hargv hnone => ?_) (fun hc => ?_)
      · have hn : o.name = none := Option.map_eq_none_iff.mp hnone
        simp only [vrun, hargv, malloc_true, hn] at hr
        cases hr
      · rw [List.length_map] at hc
        exact hno ⟨hc.1, hfits, hc.2.1, hc.2.2.1, hc.2.2.2⟩
    rw [hrefused]
    cases doFork <;> rfl
  · rw [arun_of_enters hin] at hrun
    have hname' : o.contents.name = some name.text := by
      show o.name.map (·.text) = _
      rw [hn]
      rfl
    have hstate : o.contents.state = .loaded := hin.loaded
    have harg : allocsOk ((args.map (·.text)).length + 1) h.arg = true := by
      rw [List.length_map]
      exact hin.arg
    have hentered : o.contents.vrun doFork (args.map (·.text)) h self =
        .ok (o.contents.arun doFork (name.text :: args.map (·.text)) h.fork self) := by
      unfold Process.vrun
      rw [if_neg (not_not_intro hin.argv), hname']
      exact if_neg (not_not_intro harg)
    rw [hentered, ← htexts]
    unfold Process.arun
    rw [if_neg (not_not_intro hstate)]
    cases doFork with
    | false =>
        cases hrun.symm.trans hr
        rw [← started_contents o l.heap.next self]
        rfl
    | true =>
        cases hrun.symm.trans hr
        rw [if_neg (not_lt.mpr (hin.fork rfl)), ← started_contents o l.heap.next h.fork]
        rfl

end ArgVector
end DistributedPlatform

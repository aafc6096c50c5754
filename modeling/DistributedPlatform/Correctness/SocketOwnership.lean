import DistributedPlatform.Lib.Run
import DistributedPlatform.Net.SocketTcp

/-!
# `Correctness.SocketOwnership` — which descriptors a `SocketTcp` owns

One object is driven by any sequence of calls with any host answers. A ledger beside it follows the
descriptors it has acquired and not released, and notes a host call on a descriptor it does not own.
`Sound` says the ledger and the object's state agree.

Two exits break the agreement: `close` leaves the object in `StateServer` after the descriptor is gone, and
`connect` returns with a descriptor it never closes (or dereferences the failed name lookup). They are the
only ones: `sound_iff_harmless`.
-/

namespace DistributedPlatform
namespace SocketOwnership

open Machine

/-- A call on the object, with the host's answers to it. -/
inductive Call
  | connect (h : ConnectHost)
  | listen (fd : Int)
  | read (max : Nat) (ans : ReadAns)
  | write (size : Nat) (ans : Int)
  | close (ret : Int)
  | destruct (ret : Int)
  deriving DecidableEq, Repr

/-- Descriptors acquired and not yet released, and whether a host call ever went to one not owned. -/
structure Ledger where
  owned : List Int := []
  misuse : Bool := false
  deriving DecidableEq, Repr

/-- A host call on `fd`. -/
def Ledger.use (l : Ledger) (fd : Int) : Ledger :=
  { l with misuse := l.misuse || decide (fd ∉ l.owned) }

def Ledger.record (l : Ledger) : HostCall → Ledger
  | .socket ret => if ret < 0 then l else { l with owned := ret :: l.owned }
  | .connect fd _ => l.use fd
  | .read fd _ => l.use fd
  | .write fd _ => l.use fd
  | .close fd ret =>
      if ret = -1 then l.use fd else { l.use fd with owned := l.owned.erase fd }
  | .open _ _ _ _ => l

/-- The object (`none` once destroyed) and its ledger. -/
structure State where
  obj : Option SocketTcp := some {}
  ledger : Ledger := {}
  faulted : Bool := false
  deriving DecidableEq, Repr

/-- The object and the host calls made, into the next state. -/
def State.next (x : State) (obj : Option SocketTcp) (calls : List HostCall) : State :=
  { x with obj := obj, ledger := calls.foldl Ledger.record x.ledger }

/-- One call on a live object `s`. -/
def call (x : State) (s : SocketTcp) : Call → State
  | .connect h =>
      match s.connect h with
      | .ok (_, s', calls) => x.next (some s') calls
      | .error _ => { x with faulted := true }
  | .listen fd =>
      if (s.listen fd).1 then
        { x with obj := some (s.listen fd).2
                 ledger := { x.ledger with owned := fd :: x.ledger.owned } }
      else { x with obj := some (s.listen fd).2 }
  | .read max ans => x.next (some s) (s.read max ans).2
  | .write size ans => x.next (some s) (s.write size ans).2
  | .close ret => x.next (some (s.close ret).2.1) (s.close ret).2.2
  | .destruct ret => x.next none (s.destruct ret)

/-- A call steps a live object; a destroyed object or a crashed program takes no more calls. -/
def Step (x : State) (c : Call) (y : State) : Prop :=
  ∃ s, x.obj = some s ∧ x.faulted = false ∧ y = call x s c

/-- Ledger and object agree: a live object owns exactly `sockFd` unless it is in `StateNone`, and no host
    call ever went to a descriptor that was not owned. -/
structure Sound (x : State) : Prop where
  owned : ∀ s, x.obj = some s →
    x.ledger.owned = if s.state = .stateNone then [] else [s.sockFd]
  noMisuse : x.ledger.misuse = false
  noFault : x.faulted = false

/-- What is asked of a step: it ends in a sound state, a `connect` that does not connect leaves the ledger
    as it was, and after a `close` that returned true the object refuses i/o and can be used again. -/
structure Kept (x : State) (c : Call) (y : State) : Prop where
  sound : Sound y
  connect : ∀ s h, x.obj = some s → c = .connect h →
    (∀ s' calls, s.connect h ≠ .ok (true, s', calls)) → y.ledger.owned = x.ledger.owned
  reusable : ∀ s ret, x.obj = some s → c = .close ret → (s.close ret).1 = true →
    ∃ s', y.obj = some s' ∧ (∀ n a, (s'.read n a).1 = none) ∧ (∀ n a, (s'.write n a).1 = -1) ∧
      ∀ fd, (s'.listen fd).1 = true

/-- The steps that take neither bad exit: no successful `close` of an open object, and no `connect` that
    gets a descriptor and then fails. -/
def Harmless (x : State) : Call → Prop
  | .connect h => ∀ s, x.obj = some s →
      s.state ≠ .stateNone ∨ h.socket < 0 ∨ (h.resolves = true ∧ 0 ≤ h.connect)
  | .close ret => ∀ s, x.obj = some s → s.state = .stateNone ∨ ret = -1
  | _ => True

/-! ## One step -/

/-- Using the one owned descriptor is no misuse. -/
theorem Ledger.use_owned {l : Ledger} {fd : Int} (h : l.owned = [fd]) : l.use fd = l := by
  cases l
  simp_all [Ledger.use]

theorem sound_init : Sound {} where
  owned s hs := by cases hs; rfl
  noMisuse := rfl
  noFault := rfl

theorem Sound.owned_none {x : State} {s : SocketTcp} (h : Sound x) (hs : x.obj = some s)
    (hn : s.state = .stateNone) : x.ledger.owned = [] := by
  rw [h.owned s hs, if_pos hn]

theorem Sound.owned_open {x : State} {s : SocketTcp} (h : Sound x) (hs : x.obj = some s)
    (hn : s.state ≠ .stateNone) : x.ledger.owned = [s.sockFd] := by
  rw [h.owned s hs, if_neg hn]

/-- No calls and the same object: the same state. -/
theorem State.next_self {x : State} {s : SocketTcp} (hs : x.obj = some s) :
    x.next (some s) [] = x := by
  cases x; cases hs; rfl

/-- A call on the owned descriptor that keeps the object leaves the state as it was. -/
theorem State.next_use {x : State} {s : SocketTcp} {c : HostCall} (hs : x.obj = some s)
    (hc : x.ledger.record c = x.ledger) : x.next (some s) [c] = x := by
  cases x; cases hs; simp_all [State.next]

/-- Calls other than `connect` and `close` are only asked to end in a sound state. -/
theorem Kept.of_sound {x y : State} {c : Call} (h : Sound y) (hcon : ∀ hst, c ≠ .connect hst)
    (hcl : ∀ ret, c ≠ .close ret) : Kept x c y where
  sound := h
  connect _ hst _ heq _ := absurd heq (hcon hst)
  reusable _ ret _ heq _ := absurd heq (hcl ret)

/-- Reads are refused or go to the owned descriptor. -/
theorem call_read {x : State} {s : SocketTcp} (hs : x.obj = some s) (h : Sound x) (n : Nat)
    (a : ReadAns) : call x s (.read n a) = x := by
  by_cases hn : s.state = .stateNone
  · simp only [call, SocketTcp.read_of_none hn]; exact State.next_self hs
  · simp only [call, SocketTcp.read_of_open hn]
    exact State.next_use hs (Ledger.use_owned (h.owned_open hs hn))

theorem call_write {x : State} {s : SocketTcp} (hs : x.obj = some s) (h : Sound x) (n : Nat)
    (a : Int) : call x s (.write n a) = x := by
  by_cases hn : s.state = .stateNone
  · simp only [call, SocketTcp.write_of_none hn]; exact State.next_self hs
  · simp only [call, SocketTcp.write_of_open hn]
    exact State.next_use hs (Ledger.use_owned (h.owned_open hs hn))

/-- `listen` adopts the descriptor when it owns none, and is refused otherwise. -/
theorem sound_listen {x : State} {s : SocketTcp} (hs : x.obj = some s) (h : Sound x) (fd : Int) :
    Sound (call x s (.listen fd)) := by
  by_cases hn : s.state = .stateNone
  · simp only [call, SocketTcp.listen_of_none hn, if_true]
    refine ⟨?_, h.noMisuse, h.noFault⟩
    intro s' hs'
    cases hs'
    simp [h.owned_none hs hn]
  · simp only [call, SocketTcp.listen_of_open hn, Bool.false_eq_true, if_false]
    exact ⟨fun s' hs' => by cases hs'; exact h.owned s hs, h.noMisuse, h.noFault⟩

/-- A harmless `connect` is refused, gets no descriptor, or connects. -/
theorem kept_connect {x : State} {s : SocketTcp} (hs : x.obj = some s) (h : Sound x)
    {hst : ConnectHost} (hc : Harmless x (.connect hst)) :
    Kept x (.connect hst) (call x s (.connect hst)) := by
  have hharm := hc s hs
  rcases s.connect_cases hst with ⟨hn, heq⟩ | ⟨hn, hneg, heq⟩ | ⟨hn, hpos, hr, -⟩ |
    ⟨hn, hpos, hr, hcn, -⟩ | ⟨hn, hpos, hr, hcn, heq⟩
  · simp only [call, heq, State.next_self hs]
    exact ⟨h, fun _ _ _ _ _ => rfl, fun _ _ _ hcl => nomatch hcl⟩
  · simp only [call, heq]
    have hown := h.owned_none hs hn
    have hrec : x.ledger.record (.socket hst.socket) = x.ledger := if_pos hneg
    refine ⟨⟨?_, ?_, h.noFault⟩, fun _ _ _ _ _ => ?_, fun _ _ _ hcl => nomatch hcl⟩
    · intro s' hs'
      cases hs'
      simp [State.next, hrec, hown, hn]
    · simp [State.next, hrec, h.noMisuse]
    · simp [State.next, hrec]
  -- the two failures behind `socket()`, which leave its descriptor open: the step is not harmless
  · rcases hharm with hcon | hneg | ⟨hr', -⟩
    · exact absurd hn hcon
    · omega
    · rw [hr] at hr'; cases hr'
  · rcases hharm with hcon | hneg | ⟨-, hcn'⟩
    · exact absurd hn hcon
    · omega
    · omega
  · simp only [call, heq]
    have hown := h.owned_none hs hn
    have hpos' : ¬ hst.socket < 0 := by omega
    refine ⟨⟨?_, ?_, h.noFault⟩, ?_, fun _ _ _ hcl => nomatch hcl⟩
    · intro s' hs'
      cases hs'
      simp [State.next, Ledger.record, Ledger.use, hpos', hown]
    · simp [State.next, Ledger.record, Ledger.use, hpos', h.noMisuse]
    · intro s₁ h₁ hs₁ heq₁ hfail
      cases heq₁
      rw [hs] at hs₁; cases hs₁
      exact absurd heq (hfail _ _)

/-- A harmless `close` is refused, by the object or by the host. -/
theorem kept_close {x : State} {s : SocketTcp} (hs : x.obj = some s) (h : Sound x) {ret : Int}
    (hc : Harmless x (.close ret)) : Kept x (.close ret) (call x s (.close ret)) := by
  have hrefused : (s.close ret).1 = false ∧ call x s (.close ret) = x := by
    rcases s.close_cases ret with ⟨hn, heq⟩ | ⟨hn, hr, heq⟩ | ⟨hn, hr, -⟩
    · simp only [call, heq]; exact ⟨trivial, State.next_self hs⟩
    · simp only [call, heq]
      refine ⟨trivial, State.next_use hs ?_⟩
      simp only [Ledger.record, if_pos hr]
      exact Ledger.use_owned (h.owned_open hs hn)
    · rcases hc s hs with hcon | hcon
      · exact absurd hcon hn
      · exact absurd hcon hr
  rw [hrefused.2]
  refine ⟨h, fun _ _ _ hcl => (nomatch hcl), ?_⟩
  intro s₁ ret₁ hs₁ heq₁ htrue
  cases heq₁
  rw [hs] at hs₁; cases hs₁
  rw [hrefused.1] at htrue; cases htrue

/-- The destructor closes what is owned; afterwards there is no object to agree with. -/
theorem sound_destruct {x : State} {s : SocketTcp} (hs : x.obj = some s) (h : Sound x) (ret : Int) :
    Sound (call x s (.destruct ret)) := by
  refine ⟨fun _ hs' => (nomatch hs'), ?_, h.noFault⟩
  rcases s.close_cases ret with ⟨-, heq⟩ | ⟨hn, hr, heq⟩ | ⟨hn, hr, heq⟩
  · simp only [call, SocketTcp.destruct, heq]; exact h.noMisuse
  · simp only [call, SocketTcp.destruct, heq]
    simp [State.next, Ledger.record, hr, Ledger.use_owned (h.owned_open hs hn), h.noMisuse]
  · simp only [call, SocketTcp.destruct, heq]
    simp [State.next, Ledger.record, hr, Ledger.use_owned (h.owned_open hs hn), h.noMisuse]

/-- **A harmless step keeps everything.** -/
theorem kept_of_harmless {x y : State} {c : Call} (h : Sound x) (hc : Harmless x c)
    (hst : Step x c y) : Kept x c y := by
  obtain ⟨s, hs, -, rfl⟩ := hst
  cases c with
  | connect hst => exact kept_connect hs h hc
  | close ret => exact kept_close hs h hc
  | listen fd => exact Kept.of_sound (sound_listen hs h fd) (fun _ => nofun) (fun _ => nofun)
  | read n a => rw [call_read hs h]; exact Kept.of_sound h (fun _ => nofun) (fun _ => nofun)
  | write n a => rw [call_write hs h]; exact Kept.of_sound h (fun _ => nofun) (fun _ => nofun)
  | destruct ret => exact Kept.of_sound (sound_destruct hs h ret) (fun _ => nofun) (fun _ => nofun)

/-- **A step that is not harmless ends in an unsound state.** -/
theorem not_kept_of_not_harmless {x y : State} {c : Call} (h : Sound x) (hc : ¬ Harmless x c)
    (hst : Step x c y) : ¬ Kept x c y := by
  obtain ⟨s, hs, -, rfl⟩ := hst
  intro hk
  cases c with
  | connect hst =>
      rcases s.connect_cases hst with ⟨hn, -⟩ | ⟨-, hneg, -⟩ | ⟨-, -, -, heq⟩ |
        ⟨hn, hpos, -, -, heq⟩ | ⟨-, -, hr, hcn, -⟩
      · exact hc fun s' hs' => by rw [hs] at hs'; cases hs'; exact Or.inl hn
      · exact hc fun _ _ => Or.inr (Or.inl hneg)
      · -- the name is not found, and the answer is used all the same
        have hf := hk.sound.noFault
        simp [call, heq] at hf
      · -- refused: the descriptor stays open although the object says it has none
        have hpos' : ¬ hst.socket < 0 := by omega
        have hown := hk.sound.owned { s with sockFd := hst.socket } (by simp [call, heq, State.next])
        simp [call, heq, State.next, Ledger.record, Ledger.use, hpos', hn] at hown
      · exact hc fun _ _ => Or.inr (Or.inr ⟨hr, hcn⟩)
  | close ret =>
      rcases s.close_cases ret with ⟨hn, -⟩ | ⟨-, hr, -⟩ | ⟨hn, hr, heq⟩
      · exact hc fun s' hs' => by rw [hs] at hs'; cases hs'; exact Or.inl hn
      · exact hc fun _ _ => Or.inr hr
      · -- closed: nothing is owned although the object says `StateServer`
        have hown := hk.sound.owned _ rfl
        simp [heq, State.next, call, Ledger.record, hr, h.owned_open hs hn] at hown
  | listen fd => exact hc trivial
  | read n a => exact hc trivial
  | write n a => exact hc trivial
  | destruct ret => exact hc trivial

/-! ## Whole runs -/

/-- **Ownership along a run.** From a fresh object, every step of a run keeps ledger and object in
    agreement exactly when no step of the run is a successful `close` of an open object or a `connect`
    that fails after it got a descriptor. -/
theorem sound_iff_harmless {tr : List (State × Call × State)} {y : State} (h : Run Step {} tr y) :
    (∀ x ∈ tr, Kept x.1 x.2.1 x.2.2) ↔ ∀ x ∈ tr, Harmless x.1 x.2.1 :=
  h.always_iff_good (I := Sound)
    (fun _ _ _ hI hC hst => ⟨(kept_of_harmless hI hC hst).sound, kept_of_harmless hI hC hst⟩)
    (fun _ _ _ hI hC hst => not_kept_of_not_harmless hI hC hst) sound_init

/-- A connection is adopted, read from and written to, and the host refuses to close it: all steps are
    harmless, so every one of them is kept. -/
theorem sound_iff_harmless_refused :
    ∃ tr y, Run Step {} tr y ∧ ∀ x ∈ tr, Kept x.1 x.2.1 x.2.2 := by
  have h0 : Run Step {} _ _ := Run.single (i := Call.listen 5) ⟨{}, rfl, rfl, rfl⟩
  have h1 := Run.tail h0 (i := Call.read 16 (some (bytes "hello"))) ⟨_, rfl, rfl, rfl⟩
  have h2 := Run.tail h1 (i := Call.write 5 5) ⟨_, rfl, rfl, rfl⟩
  have h3 := Run.tail h2 (i := Call.close (-1)) ⟨_, rfl, rfl, rfl⟩
  refine ⟨_, _, h3, (sound_iff_harmless h3).mpr ?_⟩
  intro x hx
  simp only [List.mem_append, List.mem_singleton] at hx
  rcases hx with ((rfl | rfl) | rfl) | rfl
  · trivial
  · trivial
  · trivial
  · intro s _; exact Or.inr rfl

/-- **`close` followed by the destructor closes twice.** The object connects on descriptor 5, closes it, and
    the destructor hands 5 to `close(2)` again: a host call on a descriptor the object no longer owns. -/
theorem close_then_destruct_misuses :
    ¬ ∀ tr y, Run Step {} tr y → ∀ x ∈ tr, Kept x.1 x.2.1 x.2.2 := by
  intro hall
  have h0 : Run Step {} _ _ := Run.single (i := Call.connect ⟨5, true, 0⟩) ⟨{}, rfl, rfl, rfl⟩
  have h1 := Run.tail h0 (i := Call.close 0) ⟨_, rfl, rfl, rfl⟩
  have h2 := Run.tail h1 (i := Call.destruct 0) ⟨_, rfl, rfl, rfl⟩
  have hlast := hall _ _ h2 (_, Call.destruct 0, _) (List.mem_append_right _ (List.mem_singleton_self _))
  exact absurd hlast.sound.noMisuse (by decide)

end SocketOwnership
end DistributedPlatform

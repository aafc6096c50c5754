import Mathlib.Data.List.Basic

/-!
# `Lib.Indirect` — numbered slots that name shared cells

A two-level table: every owner `p` has numbered slots, a slot may name a cell, and a cell may hold an
object. What number `n` denotes for `p` is the object behind both lookups, `Table.view`.

The table behaves like one private map per owner as long as it is `Linked`: no slot names an empty cell
and no cell is named twice. The three ways a table changes are

* `Table.bind` — put an object into an empty cell and name it from a slot;
* `Table.unbind` — empty a cell and the slot that names it;
* `Table.drop` — forget all the slots of an owner.

Each keeps `Linked`, and the first two act on `view` as a point update, which is all an owner can see.
`Covered` is the converse of `Linked` (no cell is held without a slot naming it); `Released p` is any
number of `unbind`s at slots of one owner.
-/

namespace Indirect

variable {P C O : Type*}

/-- Numbered slots per owner, and the cells they name. -/
@[ext] structure Table (P C O : Type*) where
  slot : P → Nat → Option C
  cell : C → Option O

namespace Table

/-- What number `n` denotes for owner `p`. -/
def view (t : Table P C O) (p : P) (n : Nat) : Option O := (t.slot p n).bind t.cell

/-- Every named cell holds an object, and no cell is named by two slots. -/
structure Linked (t : Table P C O) : Prop where
  live : ∀ {p n c}, t.slot p n = some c → ∃ o, t.cell c = some o
  inj : ∀ {p q n m c}, t.slot p n = some c → t.slot q m = some c → p = q ∧ n = m

/-- Every object held is named by some slot. -/
def Covered (t : Table P C O) : Prop := ∀ c o, t.cell c = some o → ∃ p n, t.slot p n = some c

/-- In a linked table a number denotes something exactly when its slot is in use. -/
theorem Linked.view_eq_none_iff {t : Table P C O} (h : t.Linked) {p : P} {n : Nat} :
    t.view p n = none ↔ t.slot p n = none := by
  unfold view
  cases hs : t.slot p n with
  | none => simp
  | some c =>
      obtain ⟨o, ho⟩ := h.live hs
      simp [ho]

variable [DecidableEq P] [DecidableEq C]

/-- A map of two arguments, changed at one point. -/
def put {V : Type*} (m : P → Nat → Option V) (p : P) (n : Nat) (v : Option V) : P → Nat → Option V :=
  fun q k => if q = p ∧ k = n then v else m q k

@[simp] theorem put_self {V : Type*} (m : P → Nat → Option V) (p : P) (n : Nat) (v : Option V) :
    put m p n v p n = v := by simp [put]

theorem put_ne {V : Type*} {m : P → Nat → Option V} {p q : P} {n k : Nat} {v : Option V}
    (h : ¬ (q = p ∧ k = n)) : put m p n v q k = m q k := by simp only [put, if_neg h]

/-- Put `o` into cell `c` and name it from slot `n` of `p`. -/
def bind (t : Table P C O) (p : P) (n : Nat) (c : C) (o : O) : Table P C O where
  slot := put t.slot p n (some c)
  cell := Function.update t.cell c (some o)

/-- Empty cell `c` and slot `n` of `p`. -/
def unbind (t : Table P C O) (p : P) (n : Nat) (c : C) : Table P C O where
  slot := put t.slot p n none
  cell := Function.update t.cell c none

/-- Forget the slots of `p`; the cells stay. -/
def drop (t : Table P C O) (p : P) : Table P C O where
  slot := fun q n => if q = p then none else t.slot q n
  cell := t.cell

/-! ## `Linked` and `Covered` across the three changes -/

variable {t : Table P C O} {p : P} {n : Nat} {c : C} {o : O}

theorem Linked.bind (h : t.Linked) (hc : t.cell c = none) : (t.bind p n c o).Linked where
  live {q k d} hd := by
    by_cases hcd : d = c
    · exact ⟨o, by simp [Table.bind, hcd]⟩
    · have hne : ¬ (q = p ∧ k = n) := by
        rintro ⟨rfl, rfl⟩
        exact hcd (by simpa [Table.bind] using hd.symm)
      simp only [Table.bind, put_ne hne] at hd
      obtain ⟨o', ho'⟩ := h.live hd
      exact ⟨o', by simpa [Table.bind, hcd] using ho'⟩
  inj {q r k m d} hq hr := by
    have hnot : ∀ {x y}, t.slot x y = some c → False := fun hs => by
      obtain ⟨o', ho'⟩ := h.live hs
      rw [hc] at ho'; cases ho'
    by_cases hqn : q = p ∧ k = n <;> by_cases hrn : r = p ∧ m = n
    · exact ⟨hqn.1.trans hrn.1.symm, hqn.2.trans hrn.2.symm⟩
    · simp only [Table.bind, put, if_pos hqn, if_neg hrn] at hq hr
      cases hq; exact absurd hr hnot
    · simp only [Table.bind, put, if_neg hqn, if_pos hrn] at hq hr
      cases hr; exact absurd hq hnot
    · simp only [Table.bind, put, if_neg hqn, if_neg hrn] at hq hr
      exact h.inj hq hr

theorem Linked.unbind (h : t.Linked) (hn : t.slot p n = some c) : (t.unbind p n c).Linked where
  live {q k d} hd := by
    have hne : ¬ (q = p ∧ k = n) := by
      intro hqk; simp [Table.unbind, put, hqk] at hd
    simp only [Table.unbind, put_ne hne] at hd
    have hdc : d ≠ c := fun hdc => hne (h.inj (hdc ▸ hd) hn)
    obtain ⟨o', ho'⟩ := h.live hd
    exact ⟨o', by simpa [Table.unbind, hdc] using ho'⟩
  inj {q r k m d} hq hr := by
    by_cases hqn : q = p ∧ k = n
    · simp [Table.unbind, put, hqn] at hq
    · by_cases hrn : r = p ∧ m = n
      · simp [Table.unbind, put, hrn] at hr
      · simp only [Table.unbind, put_ne hqn, put_ne hrn] at hq hr
        exact h.inj hq hr

omit [DecidableEq C] in
theorem Linked.drop (h : t.Linked) : (t.drop p).Linked where
  live {q k d} hd := by
    by_cases hqp : q = p
    · simp [Table.drop, hqp] at hd
    · simp only [Table.drop, if_neg hqp] at hd; exact h.live hd
  inj {q r k m d} hq hr := by
    by_cases hqp : q = p
    · simp [Table.drop, hqp] at hq
    · by_cases hrp : r = p
      · simp [Table.drop, hrp] at hr
      · simp only [Table.drop, if_neg hqp, if_neg hrp] at hq hr; exact h.inj hq hr

theorem Covered.bind (h : t.Covered) (hn : t.slot p n = none) : (t.bind p n c o).Covered := by
  intro d o' hd
  by_cases hdc : d = c
  · exact ⟨p, n, by simp [Table.bind, hdc]⟩
  · simp only [Table.bind, Function.update_of_ne hdc] at hd
    obtain ⟨q, k, hq⟩ := h d o' hd
    have hne : ¬ (q = p ∧ k = n) := by
      rintro ⟨rfl, rfl⟩; rw [hn] at hq; cases hq
    exact ⟨q, k, by simpa only [Table.bind, put_ne hne] using hq⟩

theorem Covered.unbind (h : t.Covered) (hn : t.slot p n = some c) :
    (t.unbind p n c).Covered := by
  intro d o' hd
  have hdc : d ≠ c := by
    rintro rfl; simp [Table.unbind] at hd
  simp only [Table.unbind, Function.update_of_ne hdc] at hd
  obtain ⟨q, k, hq⟩ := h d o' hd
  have hne : ¬ (q = p ∧ k = n) := by
    rintro ⟨rfl, rfl⟩; rw [hn] at hq; exact hdc (Option.some.inj hq).symm
  exact ⟨q, k, by simpa only [Table.unbind, put_ne hne] using hq⟩

omit [DecidableEq C] in
theorem Covered.drop (h : t.Covered) (hp : ∀ k, t.slot p k = none) : (t.drop p).Covered := by
  intro d o' hd
  obtain ⟨q, k, hq⟩ := h d o' hd
  have hqp : q ≠ p := by
    rintro rfl; rw [hp k] at hq; cases hq
  exact ⟨q, k, by simpa only [Table.drop, if_neg hqp] using hq⟩

/-! ## The view: what the owners see -/

/-- A bind is a point update of the view: nothing else changes for anybody. -/
theorem Linked.view_bind (h : t.Linked) (hc : t.cell c = none) :
    (t.bind p n c o).view = put t.view p n (some o) := by
  funext q k
  by_cases hqk : q = p ∧ k = n
  · simp [view, Table.bind, put, hqk]
  · simp only [view, Table.bind, put_ne hqk]
    cases hs : t.slot q k with
    | none => rfl
    | some d =>
        have hdc : d ≠ c := by
          rintro rfl
          obtain ⟨o', ho'⟩ := h.live hs
          rw [hc] at ho'; cases ho'
        simp [hdc]

/-- An unbind is a point update of the view as well. -/
theorem Linked.view_unbind (h : t.Linked) (hn : t.slot p n = some c) :
    (t.unbind p n c).view = put t.view p n none := by
  funext q k
  by_cases hqk : q = p ∧ k = n
  · simp [view, Table.unbind, put, hqk]
  · simp only [view, Table.unbind, put_ne hqk]
    cases hs : t.slot q k with
    | none => rfl
    | some d =>
        have hdc : d ≠ c := by
          rintro rfl; exact hqk (h.inj hs hn)
        simp [hdc]

/-! ## Releasing slots of one owner -/

/-- `t'` is `t` after some slots of `p` were unbound. -/
inductive Released (t : Table P C O) (p : P) : Table P C O → Prop
  | refl : Released t p t
  | unbind {t' : Table P C O} {n : Nat} {c : C} :
      Released t p t' → t'.slot p n = some c → Released t p (t'.unbind p n c)

/-- An unbind in front of others. -/
theorem Released.head {t' : Table P C O} (hn : t.slot p n = some c)
    (h : Released (t.unbind p n c) p t') : Released t p t' := by
  induction h with
  | refl => exact Released.unbind Released.refl hn
  | unbind _ hm ih => exact Released.unbind ih hm

theorem Released.linked {t' : Table P C O} (h : Released t p t') (ht : t.Linked) : t'.Linked := by
  induction h with
  | refl => exact ht
  | unbind _ hn ih => exact ih.unbind hn

theorem Released.covered {t' : Table P C O} (h : Released t p t') (ht : t.Covered) : t'.Covered := by
  induction h with
  | refl => exact ht
  | unbind _ hn ih => exact Covered.unbind ih hn

/-- A slot of `p` is left alone or emptied together with the cell it named. -/
theorem Released.slot {t' : Table P C O} (h : Released t p t') (k : Nat) :
    t'.slot p k = t.slot p k ∨ t'.slot p k = none := by
  induction h with
  | refl => exact Or.inl rfl
  | @unbind t' n c _ _ ih =>
      by_cases hk : k = n
      · exact Or.inr (by simp [Table.unbind, hk])
      · have hne : ¬ (p = p ∧ k = n) := fun hkn => hk hkn.2
        simpa only [Table.unbind, put_ne hne] using ih

/-- A slot that is free stays free. -/
theorem Released.slot_free {t' : Table P C O} (h : Released t p t') {k : Nat} (hk : t.slot p k = none) :
    t'.slot p k = none := by
  rcases h.slot k with hs | hs
  · rw [hs, hk]
  · exact hs

/-- Releasing slots of `p` leaves every other owner's slots alone. -/
theorem Released.slot_other {t' : Table P C O} (h : Released t p t') {q : P} (hq : q ≠ p) (k : Nat) :
    t'.slot q k = t.slot q k := by
  induction h with
  | refl => rfl
  | @unbind t' n c _ _ ih =>
      have hne : ¬ (q = p ∧ k = n) := fun hqk => hq hqk.1
      rw [← ih]; simp only [Table.unbind, put_ne hne]

/-- … and the cells those name. -/
theorem Released.cell_other {t' : Table P C O} (h : Released t p t') (ht : t.Linked) {q : P}
    (hq : q ≠ p) {k : Nat} {c : C} (hc : t.slot q k = some c) : t'.cell c = t.cell c := by
  induction h with
  | refl => rfl
  | @unbind t' n d hrel hn ih =>
      have hcd : c ≠ d := by
        rintro rfl
        have hqc : t'.slot q k = some c := by rw [hrel.slot_other hq]; exact hc
        exact hq ((hrel.linked ht).inj hqc hn).1
      rw [← ih]; simp [Table.unbind, hcd]

/-- A cell is left alone or emptied. -/
theorem Released.cell {t' : Table P C O} (h : Released t p t') (c : C) :
    t'.cell c = t.cell c ∨ t'.cell c = none := by
  induction h with
  | refl => exact Or.inl rfl
  | @unbind t' n d _ _ ih =>
      by_cases hcd : c = d
      · exact Or.inr (by simp [Table.unbind, hcd])
      · simpa only [Table.unbind, Function.update_of_ne hcd] using ih

/-- A cell that no slot of `p` names is left alone. -/
theorem Released.cell_kept {t' : Table P C O} (h : Released t p t') {c : C}
    (hc : ∀ k, t.slot p k ≠ some c) : t'.cell c = t.cell c := by
  induction h with
  | refl => rfl
  | @unbind t' n d hrel hn ih =>
      have hcd : c ≠ d := by
        rintro rfl
        rcases hrel.slot n with hs | hs
        · exact hc n (hs ▸ hn)
        · rw [hs] at hn; cases hn
      rw [← ih]
      simp [Table.unbind, hcd]

/-- A slot that was emptied had its cell emptied with it. -/
theorem Released.cell_of_slot {t' : Table P C O} (h : Released t p t') {k : Nat} {c : C}
    (hc : t.slot p k = some c) (hk : t'.slot p k = none) : t'.cell c = none := by
  induction h with
  | refl => rw [hc] at hk; cases hk
  | @unbind t' n d hrel hn ih =>
      by_cases hcd : c = d
      · simp [Table.unbind, hcd]
      · simp only [Table.unbind, Function.update_of_ne hcd]
        apply ih
        by_cases hkn : k = n
        · subst hkn
          rcases hrel.slot k with hs | hs
          · rw [hs, hc] at hn; exact absurd (Option.some.inj hn) hcd
          · exact hs
        · have hne : ¬ (p = p ∧ k = n) := fun h' => hkn h'.2
          simpa only [Table.unbind, put_ne hne] using hk

end Table

end Indirect

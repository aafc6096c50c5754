import Mathlib.Data.Nat.Prime.Basic
import Mathlib.Data.Nat.Sqrt
import Mathlib.Algebra.BigOperators.Group.List.Basic
import DistributedPlatform.Programs.Factor

/-!
# `Correctness.Factor` — trial division

What is printed times what is left is the number, and what is left has no factor below `d`. A round divides what is
left or moves `d` on; the square root, which may be one too large, only says when to stop.

* `body_eq`, `turn_ok` — one round;
* `loop_ok` — all of them;
* `factor_primes` — the numbers printed.
-/

namespace DistributedPlatform
namespace Factor

/-- A conversion of square roots that is exact or one too large. -/
def Rounds (isqrt : ℕ → ℕ) : Prop := ∀ k < 2 ^ 64, isqrt k = k.sqrt ∨ isqrt k = k.sqrt + 1

/-- What holds between two rounds. -/
structure Inv (isqrt : ℕ → ℕ) (whole : ℕ) (st : State) : Prop where
  pos : 1 ≤ st.n
  fits : st.n < 2 ^ 64
  root : st.sqrtn = isqrt st.n
  two : 2 ≤ st.d
  bound : st.d ≤ 2 ^ 32 + 1
  prod : st.printed.prod * st.n = whole
  least : ∀ p, p.Prime → p ∣ st.n → st.d ≤ p
  primes : ∀ p ∈ st.printed, p.Prime
  sorted : st.printed.Pairwise (· ≤ ·)
  below : ∀ p ∈ st.printed, p ≤ st.d

variable {isqrt : ℕ → ℕ} {whole : ℕ} {st : State}

theorem root_le (hroot : Rounds isqrt) {k : ℕ} (hk : k < 2 ^ 64) : k.sqrt ≤ isqrt k ∧ isqrt k ≤ 2 ^ 32 := by
  have hsqrt : k.sqrt < 2 ^ 32 := Nat.sqrt_lt.mpr (by omega)
  rcases hroot k hk with h | h <;> omega

/-- Each round makes this smaller: what is left goes down, or `d` comes closer to its bound. -/
def rest (st : State) : ℕ := st.n * (2 ^ 32 + 2) + (2 ^ 32 + 2 - st.d)

/-- The smallest factor is a prime. -/
theorem prime_of_least (hinv : Inv isqrt whole st) (hdvd : st.d ∣ st.n) : st.d.Prime := by
  have htwo := hinv.two
  refine Nat.prime_def_minFac.mpr ⟨htwo, le_antisymm (Nat.minFac_le (by omega)) ?_⟩
  exact hinv.least _ (Nat.minFac_prime (by omega)) ((Nat.minFac_dvd _).trans hdvd)

/-- The factor goes to what is printed. -/
theorem Inv.divide (hinv : Inv isqrt whole st) (hdvd : st.d ∣ st.n) :
    Inv isqrt whole ⟨st.n / st.d, isqrt (st.n / st.d), st.d, st.printed ++ [st.d]⟩ := by
  have hpos := hinv.pos
  have hmuldiv : st.d * (st.n / st.d) = st.n := Nat.mul_div_cancel' hdvd
  have hquotient : 1 ≤ st.n / st.d := Nat.div_pos (Nat.le_of_dvd hpos hdvd) (by have htwo := hinv.two; omega)
  have hless : st.n / st.d < st.n := Nat.div_lt_self hpos hinv.two
  refine ⟨hquotient, hless.trans hinv.fits, rfl, hinv.two, hinv.bound, ?_, ?_, ?_, ?_, ?_⟩
  · rw [List.prod_append, List.prod_singleton, Nat.mul_assoc, hmuldiv]
    exact hinv.prod
  · intro p hp hpdvd
    exact hinv.least p hp (hpdvd.trans (Nat.div_dvd_of_dvd hdvd))
  · intro p hp
    rcases List.mem_append.mp hp with hp | hp
    · exact hinv.primes p hp
    · rw [List.mem_singleton.mp hp]
      exact prime_of_least hinv hdvd
  · refine List.pairwise_append.mpr ⟨hinv.sorted, List.pairwise_singleton _ _, fun p hp r hr => ?_⟩
    rw [List.mem_singleton.mp hr]
    exact hinv.below p hp
  · intro p hp
    rcases List.mem_append.mp hp with hp | hp
    · exact hinv.below p hp
    · exact le_of_eq (List.mem_singleton.mp hp)

/-- What does not divide is passed over. -/
theorem Inv.pass (hinv : Inv isqrt whole st) (hdvd : ¬ st.d ∣ st.n) (hbound : st.d ≤ 2 ^ 32) :
    Inv isqrt whole { st with d := st.d + 1 } := by
  have htwo : 2 ≤ st.d + 1 := hinv.two.trans (Nat.le_succ _)
  have hnext : st.d + 1 ≤ 2 ^ 32 + 1 := Nat.succ_le_succ hbound
  refine ⟨hinv.pos, hinv.fits, hinv.root, htwo, hnext, hinv.prod, ?_, hinv.primes, hinv.sorted,
    fun p hp => (hinv.below p hp).trans (Nat.le_succ _)⟩
  intro p hp hpdvd
  refine Nat.lt_of_le_of_ne (hinv.least p hp hpdvd) ?_
  rintro rfl
  exact hdvd hpdvd

/-- The body of the loop does not trap. -/
theorem body_eq (hinv : Inv isqrt whole st) :
    st.body isqrt = .ok (if st.d ∣ st.n then ⟨st.n / st.d, isqrt (st.n / st.d), st.d - 1, st.printed ++ [st.d]⟩
      else st) := by
  have htwo := hinv.two
  have hdiv : div st.n st.d = .ok (st.n / st.d) := if_neg (by omega)
  have hmulle : st.d * (st.n / st.d) ≤ st.n := Nat.mul_div_le _ _
  have hmul : mul st.d (st.n / st.d) = .ok (st.d * (st.n / st.d)) := if_pos (hmulle.trans_lt hinv.fits)
  have hsub : sub st.n (st.d * (st.n / st.d)) = .ok (st.n % st.d) := by
    unfold sub
    rw [if_pos hmulle, Nat.mod_eq_sub_mul_div]
  have hback : sub st.d 1 = .ok (st.d - 1) := if_pos (by omega)
  by_cases hdvd : st.d ∣ st.n
  · have hmod : st.n % st.d = 0 := Nat.mod_eq_zero_of_dvd hdvd
    simp only [State.body, hdiv, hmul, hsub, hmod, hback, hdvd, bind, Except.bind, if_true]
  · have hmod : st.n % st.d ≠ 0 := fun h => hdvd (Nat.dvd_of_mod_eq_zero h)
    simp only [State.body, hdiv, hmul, hsub, hmod, hdvd, bind, Except.bind, if_false]

/-- **One round.** -/
theorem turn_ok (hroot : Rounds isqrt) (hinv : Inv isqrt whole st) (hle : st.d ≤ st.sqrtn) :
    ∃ st' d, st.body isqrt = .ok st' ∧ add st'.d 1 = .ok d ∧ Inv isqrt whole { st' with d } ∧
      rest { st' with d } < rest st := by
  have htwo := hinv.two
  have hbound : st.d ≤ 2 ^ 32 := hle.trans (hinv.root ▸ (root_le hroot hinv.fits).2)
  by_cases hdvd : st.d ∣ st.n
  · have hagain : add (st.d - 1) 1 = .ok st.d := by
      have hcancel : st.d - 1 + 1 = st.d := by omega
      unfold add fits
      rw [hcancel, if_pos (by omega)]
    have hless : st.n / st.d < st.n := Nat.div_lt_self hinv.pos htwo
    refine ⟨_, st.d, (body_eq hinv).trans (by rw [if_pos hdvd]), hagain, hinv.divide hdvd, ?_⟩
    exact Nat.add_lt_add_right (Nat.mul_lt_mul_of_pos_right hless (by decide)) _
  · have hnext : add st.d 1 = .ok (st.d + 1) := if_pos (by omega)
    refine ⟨st, st.d + 1, (body_eq hinv).trans (by rw [if_neg hdvd]), hnext, hinv.pass hdvd hbound, ?_⟩
    unfold rest
    dsimp only
    omega

/-- **All rounds.** With fuel for them the loop ends, at a `d` behind the square root. -/
theorem loop_ok (hroot : Rounds isqrt) (hinv : Inv isqrt whole st) :
    ∃ st', (∀ fuel, rest st < fuel → loop isqrt fuel st = .ok (some st')) ∧ Inv isqrt whole st' ∧
      st'.sqrtn < st'.d := by
  induction hk : rest st using Nat.strong_induction_on generalizing st with
  | _ k ih =>
      subst hk
      have hfuel : ∀ fuel, rest st < fuel → ∃ fuel', fuel = fuel' + 1 := fun fuel h =>
        Nat.exists_eq_succ_of_ne_zero (by omega)
      by_cases hle : st.d ≤ st.sqrtn
      · obtain ⟨st', d, hbody, hadd, hinv', hless⟩ := turn_ok hroot hinv hle
        obtain ⟨st'', hloop, hdone⟩ := ih _ hless hinv' rfl
        refine ⟨st'', fun fuel h => ?_, hdone⟩
        obtain ⟨fuel, rfl⟩ := hfuel fuel h
        unfold loop
        simp only [hle, hbody, hadd, hloop fuel (by omega), bind, Except.bind, if_true]
      · refine ⟨st, fun fuel h => ?_, hinv, not_le.mp hle⟩
        obtain ⟨fuel, rfl⟩ := hfuel fuel h
        exact if_neg hle

/-- What is left behind the square root is 1 or a prime. -/
theorem prime_of_root (hroot : Rounds isqrt) (hinv : Inv isqrt whole st) (hdone : st.sqrtn < st.d)
    (hne : st.n ≠ 1) : st.n.Prime := by
  by_contra hnot
  have hpos := hinv.pos
  have hleast := hinv.least _ (Nat.minFac_prime hne) (Nat.minFac_dvd _)
  have hsquare := Nat.minFac_sq_le_self hpos hnot
  have hsqrt : st.n.minFac ≤ st.n.sqrt := Nat.le_sqrt'.mpr hsquare
  have hle := (root_le hroot hinv.fits).1
  rw [← hinv.root] at hle
  omega

theorem inv_start (isqrt : ℕ → ℕ) {n : ℕ} (hn : 2 ≤ n) (hfits : n < 2 ^ 64) :
    Inv isqrt n { n, sqrtn := isqrt n, d := 2 } where
  pos := Nat.le_of_succ_le hn
  fits := hfits
  root := rfl
  two := le_refl _
  bound := Nat.succ_le_succ (Nat.one_le_two_pow)
  prod := Nat.one_mul n
  least _ hp _ := hp.two_le
  primes _ hp := absurd hp List.not_mem_nil
  sorted := List.Pairwise.nil
  below _ hp := absurd hp List.not_mem_nil

/-- **The numbers printed** for any number from 2 on, with any such conversion: the loop ends, nothing overflows and
    nothing is divided by zero, and they are primes, in order, with the number as their product. -/
theorem factor_primes (hroot : Rounds isqrt) {n : ℕ} (hn : 2 ≤ n) (hfits : n < 2 ^ 64) :
    ∃ rounds ps, (∀ fuel, rounds < fuel → factor isqrt fuel n = .ok (some ps)) ∧
      (∀ p ∈ ps, p.Prime) ∧ ps.Pairwise (· ≤ ·) ∧ ps.prod = n := by
  obtain ⟨st, hloop, hinv, hdone⟩ := loop_ok hroot (inv_start isqrt hn hfits)
  refine ⟨rest { n, sqrtn := isqrt n, d := 2 }, if st.n ≠ 1 then st.printed ++ [st.n] else st.printed,
    fun fuel hfuel => ?_, ?_⟩
  · unfold factor
    rw [if_neg (by omega), hloop fuel hfuel]
    rfl
  · by_cases hone : st.n = 1
    · rw [if_neg (not_not.mpr hone)]
      have hprod := hinv.prod
      rw [hone, Nat.mul_one] at hprod
      exact ⟨hinv.primes, hinv.sorted, hprod⟩
    · rw [if_pos hone]
      have hprime := prime_of_root hroot hinv hdone hone
      refine ⟨fun p hp => ?_, ?_, ?_⟩
      · rcases List.mem_append.mp hp with hp | hp
        · exact hinv.primes p hp
        · rw [List.mem_singleton.mp hp]
          exact hprime
      · refine List.pairwise_append.mpr ⟨hinv.sorted, List.pairwise_singleton _ _, fun p hp r hr => ?_⟩
        rw [List.mem_singleton.mp hr]
        exact (hinv.below p hp).trans (hinv.least _ hprime dvd_rfl)
      · rw [List.prod_append, List.prod_singleton]
        exact hinv.prod

/-- A square root that is one too large each time. -/
theorem factor_primes_twelve :
    ∃ rounds ps, (∀ fuel, rounds < fuel → factor (fun k => k.sqrt + 1) fuel 12 = .ok (some ps)) ∧
      (∀ p ∈ ps, p.Prime) ∧ ps.Pairwise (· ≤ ·) ∧ ps.prod = 12 :=
  factor_primes (fun _ _ => Or.inr rfl) (by decide) (by decide)

end Factor
end DistributedPlatform

import DistributedPlatform.Host

/-!
# `Programs.Factor` — the factor program

`factor.c`, for one number: the numbers it prints behind the colon. The arithmetic is that of `unsigned long long`,
where a result that does not fit is a trap and not wrapped around. The conversion of `sqrt(n)` to an integer is an
argument.
-/

namespace DistributedPlatform
namespace Factor

/-- What the arithmetic is not to do. -/
inductive Trap
  | overflow
  | divByZero
  deriving DecidableEq, Repr

/-- A result, if it is an `unsigned long long`. -/
def fits (n : Nat) : Except Trap Nat := if n < 2 ^ 64 then .ok n else .error .overflow

def add (a b : Nat) : Except Trap Nat := fits (a + b)

def mul (a b : Nat) : Except Trap Nat := fits (a * b)

def sub (a b : Nat) : Except Trap Nat := if b ≤ a then .ok (a - b) else .error .overflow

def div (a b : Nat) : Except Trap Nat := if b = 0 then .error .divByZero else .ok (a / b)

/-- The variables of the trial division, and what is printed. -/
structure State where
  n : Nat
  sqrtn : Nat
  d : Nat
  printed : List Nat := []
  deriving DecidableEq, Repr

/-- The body of the loop. -/
def State.body (isqrt : Nat → Nat) (st : State) : Except Trap State := do
  let q ← div st.n st.d
  let q' ← div st.n st.d
  let m ← mul st.d q'
  let r ← sub st.n m
  if r = 0 then do
    let printed := st.printed ++ [st.d]
    let n := q
    let sqrtn := isqrt n
    let d ← sub st.d 1  -- the loop counts it up again
    .ok { n, sqrtn, d, printed }
  else .ok st

/-- `for(d=2;d<=sqrtn;++d)`; `none` when it takes more rounds than `fuel`. -/
def loop (isqrt : Nat → Nat) : (fuel : Nat) → State → Except Trap (Option State)
  | 0, _ => .ok none
  | fuel + 1, st =>
      if st.d ≤ st.sqrtn then do
        let st ← st.body isqrt
        let d ← add st.d 1
        loop isqrt fuel { st with d }
      else .ok (some st)

/-- The numbers printed for `n`. -/
def factor (isqrt : Nat → Nat) (fuel n : Nat) : Except Trap (Option (List Nat)) :=
  if n < 2 then .ok (some [n])
  else do
    let st ← loop isqrt fuel { n, sqrtn := isqrt n, d := 2 }
    match st with
    | none => .ok none
    | some st => .ok (some (if st.n ≠ 1 then st.printed ++ [st.n] else st.printed))

end Factor
end DistributedPlatform

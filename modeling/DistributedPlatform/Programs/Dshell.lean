import DistributedPlatform.Host

/-!
# `Programs.Dshell` — the line of the second shell

`programs/dshell`: a line is cut into tokens (`token.cpp`), the tokens are put together to the strings of the jobs
(`command.cpp`), and these are cut again (`job.cpp`). Memory is there when it is asked for. Two accesses of these
functions are not allowed by the language; what they find is an argument (`Slack`).
-/

namespace DistributedPlatform
namespace Dshell

/-- What memory has beyond what the language promises: whether a block of some size has room for one byte more, and
    whether the characters of a string object that is gone are still there. -/
structure Slack where
  padded : Nat → Bool
  kept : CStr → Bool

/-- `strcpy` of a string and its NUL to a new block of `size` bytes. -/
def strcpy (m : Slack) (size : Nat) (s : CStr) : Eff CStr :=
  if s.length + 1 ≤ size ∨ (s.length = size ∧ m.padded size = true) then .ok s else .error .outOfBounds

/-! ## Tokens -/

structure Token where
  str : CStr
  length : Int
  deriving DecidableEq, Repr

def delimiterCount : Nat := 3

def delimiters : List Byte := bytes " &|\n"

def ssSize (ss : CStr) : Int := toI32 ss.length

/-- `addToQueue`: the string stream and the tokens afterwards. -/
def addToQueue (m : Slack) (ss : CStr) (tokens : List Token) : Eff (CStr × List Token) :=
  let size := ssSize ss
  if size > 0 then do
    let str ← strcpy m size.toNat ss
    .ok ([], tokens ++ [⟨str, toI32 str.length⟩])
  else .ok (ss, tokens)

/-- The variables of `tokenize`. -/
structure Tokenizer where
  inString : Bool := false
  inEquation : Bool := false
  ss : CStr := []
  tokens : List Token := []
  deriving DecidableEq, Repr

namespace Tokenizer

def flush (m : Slack) (st : Tokenizer) : Eff Tokenizer := do
  let (ss, tokens) ← addToQueue m st.ss st.tokens
  .ok { st with ss, tokens }

def put (st : Tokenizer) (c : Byte) : Tokenizer := { st with ss := st.ss ++ [c] }

/-- The body of the loop. -/
def step (m : Slack) (st : Tokenizer) (c : Byte) : Eff Tokenizer :=
  if st.inString then
    if c = 34 then { st with inString := false }.flush m else .ok (st.put c)
  else if st.inEquation then .ok st
  else if c = 36 then .ok st  -- the equations of `$` are to be done
  else if c = 34 then { st with inString := true }.flush m
  else if c ∈ delimiters.take delimiterCount then do
    let st ← st.flush m
    if c ≠ 32 ∧ c ≠ 10 then (st.put c).flush m else .ok st
  else .ok (st.put c)

end Tokenizer

def tokenize (m : Slack) (input : CStr) : Eff (List Token) := do
  let length := toI32 input.length
  let st ← (input.take length.toNat).foldlM (Tokenizer.step m) {}
  let st ← st.flush m
  .ok st.tokens

/-! ## The strings of the jobs -/

def jobSplitters : List Byte := bytes "&"

/-- The variables of `handleCommand`. -/
structure Splitter where
  ss : CStr := []
  jobs : List CStr := []
  deriving DecidableEq, Repr

namespace Splitter

/-- `const char *str=ss.str().c_str();` and the copy that is made of it: `str` points into an object that is gone. -/
def pushJob (m : Slack) (st : Splitter) : Eff Splitter :=
  if m.kept st.ss = false then .error .dangling
  else
    let len := toI32 st.ss.length
    let size := toI32 (len + 1)
    if size < 0 then .error .nullDeref  -- there is no such block, and `temp` is used unchecked
    else do
      let temp ← strcpy m size.toNat st.ss
      .ok { ss := [], jobs := st.jobs ++ [temp] }

/-- The body of the loop. -/
def step (m : Slack) (st : Splitter) (t : Token) : Eff Splitter :=
  if t.length = 1 ∧ ∃ c ∈ jobSplitters, t.str.head? = some c then st.pushJob m
  else .ok { st with ss := st.ss ++ t.str ++ [32] }

end Splitter

def handleCommand (m : Slack) (tokens : List Token) : Eff (List CStr) := do
  let st ← tokens.foldlM (Splitter.step m) {}
  if st.ss.length > 0 then do
    let st ← st.pushJob m
    .ok st.jobs
  else .ok st.jobs

/-! ## Jobs -/

/-- `strtok` with a set of separators: the next token and what is left of the string. -/
def strtokAny (delims : List Byte) (s : CStr) : Option (CStr × CStr) :=
  match s.dropWhile (· ∈ delims) with
  | [] => none
  | b :: rest =>
      let t := b :: rest
      some (t.takeWhile (· ∉ delims), (t.dropWhile (· ∉ delims)).drop 1)

theorem strtokAny_length {delims : List Byte} {s t rest : CStr} (h : strtokAny delims s = some (t, rest)) :
    rest.length < s.length := by
  unfold strtokAny at h
  have hskip := (List.dropWhile_suffix (l := s) (· ∈ delims)).length_le
  split at h
  · cases h
  · next b u hu =>
      cases h
      have hrest := (List.dropWhile_suffix (l := b :: u) (· ∉ delims)).length_le
      rw [hu] at hskip
      rw [List.length_drop]
      simp only [List.length_cons] at hskip hrest
      omega

/-- `class Job`. -/
structure Job where
  jobName : CStr
  args : List CStr := []
  deriving DecidableEq, Repr

namespace Job

/-- `Job::Job`. -/
def new (m : Slack) (name : Option CStr) : Eff Job :=
  match name with
  | none => .error .nullDeref  -- `strlen(name)`
  | some name => do
      let jobName ← strcpy m (name.length + 1) name
      .ok { jobName }

def addArg (m : Slack) (job : Job) (arg : CStr) : Eff Job := do
  let a ← strcpy m (arg.length + 1) arg
  .ok { job with args := job.args ++ [a] }

/-- The loop of `jobFromString`. -/
def addArgs (m : Slack) (job : Job) (rest : CStr) : Eff Job :=
  match _h : strtokAny (bytes " \n") rest with
  | none => .ok job
  | some (arg, rest') => do
      let job ← job.addArg m arg
      addArgs m job rest'
termination_by rest.length
decreasing_by exact strtokAny_length _h

def jobFromString (m : Slack) (str : CStr) : Eff Job :=
  match strtokAny (bytes " \n") str with
  | none => new m none
  | some (exeName, rest) => do
      let job ← new m (some exeName)
      addArgs m job rest

/-- The name and the arguments. -/
def words (job : Job) : List CStr := job.jobName :: job.args

end Job

/-- What `main` does with a line before it starts the jobs. -/
def parseLine (m : Slack) (input : CStr) : Eff (List Job) := do
  let tokens ← tokenize m input
  let jobs ← handleCommand m tokens
  jobs.mapM (Job.jobFromString m)

end Dshell
end DistributedPlatform

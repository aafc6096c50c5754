import Mathlib.Algebra.Order.BigOperators.Group.List
import Mathlib.Algebra.Order.Group.Nat
import DistributedPlatform.Correctness.DshellTokens

/-!
# `Correctness.DshellJobs` — the jobs of a line

The tokens between two that are `&` are put together with a space behind each, and `strtok` takes the string apart
again, at spaces and newlines. Whether a token stood in quotes is not handed on.

* `handleCommand_eq_ok`, `jobFromString_eq` — the strings, and a job made of one;
* `lex_lineKind` — a line cut by its newlines too;
* `Parses`, `jobs_iff` — when the jobs are those of the line;
* `text_iff` — when every string has a name in it;
* `fits_iff` — when every copy fits.
-/

namespace DistributedPlatform
namespace Dshell

open Lexer

variable {m : Slack} {line s : CStr} {c : Byte}

/-! ## The strings -/

/-- The copy of a string can be made: its characters are still there, and `int len` is its length. -/
structure Copied (m : Slack) (s : CStr) : Prop where
  kept : m.kept s = true
  short : s.length + 1 < 2 ^ 31

theorem strcpy_self (m : Slack) (s : CStr) : strcpy m (s.length + 1) s = .ok s := if_pos (Or.inl (le_refl _))

/-- The copy of a job's string is made, and fits, or it is not made at all. -/
theorem pushJob_eq_ok {st st' : Splitter} :
    st.pushJob m = .ok st' ↔ Copied m st.ss ∧ st' = { ss := [], jobs := st.jobs ++ [st.ss] } := by
  unfold Splitter.pushJob
  cases hkept : m.kept st.ss with
  | false =>
      refine iff_of_false nofun fun h => ?_
      rw [h.1.kept] at hkept
      cases hkept
  | true =>
      rw [if_neg (by simp)]
      dsimp only
      by_cases hshort : st.ss.length + 1 < 2 ^ 31
      · have hsize : toI32 (toI32 st.ss.length + 1) = ((st.ss.length + 1 : Nat) : Int) := by
          unfold toI32
          omega
        rw [hsize, if_neg (by omega), Int.toNat_natCast, strcpy_self]
        exact ⟨fun h => ⟨⟨hkept, hshort⟩, (Except.ok.inj h).symm⟩, fun h => by rw [h.2]; rfl⟩
      · refine iff_of_false ?_ fun h => hshort h.1.short
        by_cases hneg : toI32 (toI32 st.ss.length + 1) < 0
        · rw [if_pos hneg]
          nofun
        · rw [if_neg hneg]
          intro h
          obtain ⟨temp, hcopy, -⟩ := Eff.bind_eq_ok.mp h
          unfold strcpy at hcopy
          split at hcopy
          · next hroom =>
              unfold toI32 at hroom hneg
              omega
          · cases hcopy

/-- The tokens at which `handleCommand` cuts. -/
def isAmp (t : CStr) : Bool := t == [38]

/-- The strings made of the tokens, with `ss` in the stream. -/
def stringsFrom : (ss : CStr) → List CStr → List CStr
  | ss, [] => if ss = [] then [] else [ss]
  | ss, t :: ts => if isAmp t then ss :: stringsFrom [] ts else stringsFrom (ss ++ t ++ [32]) ts

/-- The string of a group of tokens. -/
def render (g : List CStr) : CStr := (g.map (· ++ [32])).flatten

/-- All of them, but for the last when it is empty. -/
def closeLast {α : Type*} : List (List α) → List (List α)
  | [] => []
  | [l] => if l.isEmpty then [] else [l]
  | l :: ls => l :: closeLast ls

section closeLast

variable {α β : Type*} {ls : List (List α)}

theorem closeLast_cons (l : List α) (hls : ls ≠ []) : closeLast (l :: ls) = l :: closeLast ls := by
  obtain ⟨l', ls', rfl⟩ := List.exists_cons_of_ne_nil hls
  rfl

theorem closeLast_eq_self (h : ∀ l ∈ ls, l ≠ []) : closeLast ls = ls := by
  induction ls with
  | nil => rfl
  | cons l ls ih =>
      cases ls with
      | nil => exact if_neg (by simpa using h l List.mem_cons_self)
      | cons l' ls =>
          rw [closeLast_cons l (List.cons_ne_nil _ _), ih fun d hd => h d (List.mem_cons_of_mem l hd)]

theorem flatten_closeLast (ls : List (List α)) : (closeLast ls).flatten = ls.flatten := by
  induction ls with
  | nil => rfl
  | cons l ls ih =>
      cases ls with
      | nil => cases l <;> rfl
      | cons l' ls => rw [closeLast_cons l (List.cons_ne_nil _ _), List.flatten_cons, ih, ← List.flatten_cons]

theorem closeLast_map {f : List α → List β} (hf : ∀ l, f l = [] ↔ l = []) (ls : List (List α)) :
    closeLast (ls.map f) = (closeLast ls).map f := by
  induction ls with
  | nil => rfl
  | cons l ls ih =>
      cases ls with
      | nil =>
          show (if (f l).isEmpty then [] else [f l]) = (if l.isEmpty then [] else [l]).map f
          simp only [List.isEmpty_iff, hf]
          split <;> rfl
      | cons l' ls =>
          have hmap : (l' :: ls).map f ≠ [] := List.cons_ne_nil _ _
          rw [closeLast_cons l (List.cons_ne_nil _ _), List.map_cons, closeLast_cons (f l) hmap, ih, List.map_cons]

end closeLast

/-- The strings are those of the groups between the `&`s. -/
theorem stringsFrom_eq (ts : List CStr) (ss : CStr) :
    stringsFrom ss ts = closeLast (((ts.splitOnP isAmp).map render).modifyHead (ss ++ ·)) := by
  induction ts generalizing ss with
  | nil =>
      show _ = closeLast [ss ++ []]
      rw [List.append_nil, stringsFrom, closeLast]
      simp only [List.isEmpty_iff]
  | cons t ts ih =>
      obtain ⟨g, gs, hgs⟩ := List.exists_cons_of_ne_nil (List.splitOnP_ne_nil isAmp ts)
      rw [List.splitOnP_cons_eq_if_modifyHead, stringsFrom, hgs]
      rw [hgs] at ih
      by_cases ht : isAmp t = true
      · rw [if_pos ht, if_pos ht, ih]
        show ss :: closeLast (render g :: gs.map render) = closeLast ((ss ++ []) :: render g :: gs.map render)
        rw [List.append_nil, closeLast_cons ss (List.cons_ne_nil _ _)]
      · rw [if_neg ht, if_neg ht, ih]
        have hrender : ss ++ render (t :: g) = ss ++ t ++ [32] ++ render g := by simp [render]
        show closeLast ((ss ++ t ++ [32] ++ render g) :: gs.map render) =
          closeLast ((ss ++ render (t :: g)) :: gs.map render)
        rw [hrender]

theorem step_ofItem (m : Slack) (st : Splitter) (i : Item Byte) :
    st.step m (Token.ofItem i) =
      if isAmp i.text then st.pushJob m else .ok { st with ss := st.ss ++ i.text ++ [32] } := by
  have hcut : ((Token.ofItem i).length = 1 ∧ ∃ c ∈ jobSplitters, (Token.ofItem i).str.head? = some c) ↔
      isAmp i.text = true := by
    have hamp : jobSplitters = [38] := rfl
    show ((i.text.length : Int) = 1 ∧ ∃ c ∈ jobSplitters, i.text.head? = some c) ↔ (i.text == [38]) = true
    rw [hamp, beq_iff_eq]
    constructor
    · rintro ⟨hlen, c, hc, hhead⟩
      obtain ⟨d, hd⟩ := List.length_eq_one_iff.mp (by exact_mod_cast hlen)
      rw [hd] at hhead ⊢
      rw [List.mem_singleton.mp hc] at hhead
      exact congrArg ([·]) (Option.some.inj hhead)
    · intro h
      rw [h]
      exact ⟨rfl, 38, List.mem_singleton_self _, rfl⟩
  unfold Splitter.step
  exact if_congr hcut rfl rfl

/-- `handleCommand` from some token on. -/
theorem splitter_run {items : List (Item Byte)} {jobs : List CStr} :
    ∀ st : Splitter, ((items.map Token.ofItem).foldlM (Splitter.step m) st >>= fun st =>
        if st.ss.length > 0 then st.pushJob m >>= fun st => .ok st.jobs else .ok st.jobs) = .ok jobs ↔
      (∀ s ∈ stringsFrom st.ss (items.map (·.text)), Copied m s) ∧
        jobs = st.jobs ++ stringsFrom st.ss (items.map (·.text)) := by
  induction items with
  | nil =>
      intro st
      rw [List.map_nil, List.foldlM_nil, pure_bind, List.map_nil, stringsFrom]
      by_cases hnil : st.ss = []
      · rw [if_neg (by simp [hnil]), if_pos hnil, List.append_nil]
        exact ⟨fun h => ⟨fun _ hs => absurd hs List.not_mem_nil, (Except.ok.inj h).symm⟩, fun h => by rw [h.2]⟩
      · rw [if_pos (List.length_pos_iff.mpr hnil), if_neg hnil]
        constructor
        · intro h
          obtain ⟨st', hpush, hjobs⟩ := Eff.bind_eq_ok.mp h
          obtain ⟨hcopied, rfl⟩ := pushJob_eq_ok.mp hpush
          exact ⟨fun s hs => List.mem_singleton.mp hs ▸ hcopied, (Except.ok.inj hjobs).symm⟩
        · rintro ⟨hcopied, rfl⟩
          rw [pushJob_eq_ok.mpr ⟨hcopied _ (List.mem_singleton_self _), rfl⟩, ok_bind]
  | cons i items ih =>
      intro st
      rw [List.map_cons, List.foldlM_cons, bind_assoc, step_ofItem, List.map_cons, stringsFrom]
      by_cases hi : isAmp i.text = true
      · rw [if_pos hi, if_pos hi]
        constructor
        · intro h
          obtain ⟨st', hpush, hrest⟩ := Eff.bind_eq_ok.mp h
          obtain ⟨hcopied, rfl⟩ := pushJob_eq_ok.mp hpush
          obtain ⟨hall, rfl⟩ := (ih _).mp hrest
          refine ⟨fun s hs => ?_, by rw [List.append_assoc, List.singleton_append]⟩
          rcases List.mem_cons.mp hs with rfl | hs
          · exact hcopied
          · exact hall s hs
        · rintro ⟨hall, rfl⟩
          have hpush := pushJob_eq_ok.mpr ⟨hall _ List.mem_cons_self, rfl⟩
          rw [hpush, ok_bind]
          refine (ih _).mpr ⟨fun s hs => hall s (List.mem_cons_of_mem _ hs), ?_⟩
          rw [List.append_assoc, List.singleton_append]
      · rw [if_neg hi, if_neg hi, ok_bind]
        exact ih _

/-- The tokens between two that are `&`. -/
def tokenGroups (line : CStr) : List (List CStr) := ((lex kind (seen line)).map (·.text)).splitOnP isAmp

/-- The strings of the jobs of a line. -/
def jobStrings (line : CStr) : List CStr := (closeLast (tokenGroups line)).map render

theorem render_eq_nil_iff (g : List CStr) : render g = [] ↔ g = [] := by
  cases g <;> simp [render]

/-- **What `handleCommand` makes of the tokens of a line.** -/
theorem handleCommand_eq_ok {jobs : List CStr} :
    handleCommand m ((lex kind (seen line)).map Token.ofItem) = .ok jobs ↔
      (∀ s ∈ jobStrings line, Copied m s) ∧ jobs = jobStrings line := by
  have hstrings : stringsFrom [] ((lex kind (seen line)).map (·.text)) = jobStrings line := by
    rw [stringsFrom_eq, jobStrings, ← closeLast_map render_eq_nil_iff, tokenGroups]
    congr 1
    cases (((lex kind (seen line)).map (·.text)).splitOnP isAmp).map render <;> rfl
  have hrun : ((lex kind (seen line)).map Token.ofItem).foldlM (Splitter.step m) {} >>= (fun st =>
      if st.ss.length > 0 then st.pushJob m >>= fun st => .ok st.jobs else .ok st.jobs) = .ok jobs ↔ _ :=
    splitter_run {}
  rw [List.nil_append] at hrun
  rw [← hstrings, ← hrun]
  unfold handleCommand
  rfl

/-! ## A job from its string -/

/-- `strtok` with a space and a newline: these separate, and everything else is part of a word. -/
def blankKind (c : Byte) : Kind := if c = 32 ∨ c = 10 then .separator else .plain

theorem blankKind_separator : blankKind c = .separator ↔ c = 32 ∨ c = 10 := by
  unfold blankKind
  split <;> simp_all

theorem isQuote_blankKind (c : Byte) : isQuote blankKind c = false := by
  unfold isQuote blankKind
  split <;> rfl

theorem mem_blanks : c ∈ bytes " \n" ↔ c = 32 ∨ c = 10 := by
  show c ∈ [32, 10] ↔ _
  simp

theorem inWord_blankKind (c : Byte) : inWord blankKind c = decide (c ∉ bytes " \n") := by
  unfold inWord blankKind
  by_cases hc : c = 32 ∨ c = 10
  · simp [hc, mem_blanks.mpr hc]
  · simp [hc, mt mem_blanks.mp hc]

theorem isPlain_blankKind (c : Byte) : isPlain blankKind c = inWord blankKind c := by
  unfold isPlain inWord blankKind
  split <;> rfl

/-- `strtok` takes the first word off. -/
theorem strtokAny_cases (s : CStr) :
    (strtokAny (bytes " \n") s = none ∧ lex blankKind s = []) ∨
      ∃ w rest, strtokAny (bytes " \n") s = some (w, rest) ∧ lex blankKind s = ⟨.word, w⟩ :: lex blankKind rest := by
  induction s with
  | nil => exact Or.inl ⟨rfl, lex_nil⟩
  | cons c s ih =>
      by_cases hc : c ∈ bytes " \n"
      · have hskip : strtokAny (bytes " \n") (c :: s) = strtokAny (bytes " \n") s := by
          unfold strtokAny
          rw [List.dropWhile_cons_of_pos (by simpa using hc)]
        rw [hskip, lex_separator (blankKind_separator.mpr (mem_blanks.mp hc))]
        exact ih
      · have hinWord : inWord blankKind = fun c => decide (c ∉ bytes " \n") := funext inWord_blankKind
        have hplain : isPlain blankKind = inWord blankKind := funext isPlain_blankKind
        have htake : (c :: s).takeWhile (· ∉ bytes " \n") ≠ [] := by
          rw [List.takeWhile_cons_of_pos (by simpa using hc)]
          exact List.cons_ne_nil _ _
        refine Or.inr ⟨(c :: s).takeWhile (· ∉ bytes " \n"), ((c :: s).dropWhile (· ∉ bytes " \n")).drop 1, ?_, ?_⟩
        · unfold strtokAny
          rw [List.dropWhile_cons_of_neg (by simpa using hc)]
        · have hfilter : ((c :: s).takeWhile (inWord blankKind)).filter (inWord blankKind) =
              (c :: s).takeWhile (inWord blankKind) := by
            rw [List.filter_eq_self]
            exact fun d hd => List.mem_takeWhile_imp hd
          rw [lex_eq, hplain, hfilter, hinWord, emit_of_ne_nil htake]
          congr 1
          cases hrest : (c :: s).dropWhile (· ∉ bytes " \n") with
          | nil => rfl
          | cons d r =>
              have hd := List.head?_dropWhile_not (· ∉ bytes " \n") (c :: s)
              rw [hrest] at hd
              have hsep : d ∈ bytes " \n" := by simpa using hd
              rw [lex_separator (blankKind_separator.mpr (mem_blanks.mp hsep))]
              rfl

/-- The words of a string. -/
def wordsOf (s : CStr) : List CStr := (lex blankKind s).map (·.text)

theorem addArgs_eq (m : Slack) (job : Job) (rest : CStr) :
    job.addArgs m rest = .ok { job with args := job.args ++ wordsOf rest } := by
  rw [Job.addArgs]
  rcases strtokAny_cases rest with ⟨hnone, hlex⟩ | ⟨arg, rest', hsome, hlex⟩
  · split
    · rw [wordsOf, hlex, List.map_nil, List.append_nil]
    · next h => cases hnone.symm.trans h
  · split
    · next h => cases hsome.symm.trans h
    · next h =>
        cases hsome.symm.trans h
        have hadd : job.addArg m arg = .ok { job with args := job.args ++ [arg] } := by
          unfold Job.addArg
          rw [strcpy_self, ok_bind]
        have hwords : wordsOf rest = arg :: wordsOf rest' := by
          unfold wordsOf
          rw [hlex, List.map_cons]
        rw [hadd, ok_bind, addArgs_eq m _ rest', hwords, List.append_assoc, List.singleton_append]
termination_by rest.length
decreasing_by exact strtokAny_length hsome

/-- **A job is the words of its string**, and one without words has a null name. -/
theorem jobFromString_eq (m : Slack) (s : CStr) :
    Job.jobFromString m s =
      match wordsOf s with
      | [] => .error .nullDeref
      | name :: args => .ok ⟨name, args⟩ := by
  unfold Job.jobFromString
  rcases strtokAny_cases s with ⟨hnone, hlex⟩ | ⟨name, rest, hsome, hlex⟩
  · rw [hnone, wordsOf, hlex]
    rfl
  · have hnew : Job.new m (some name) = .ok { jobName := name } := by
      unfold Job.new
      dsimp only
      rw [strcpy_self, ok_bind]
    rw [hsome, wordsOf, hlex]
    dsimp only
    rw [hnew, ok_bind, addArgs_eq]
    rfl

theorem jobFromString_eq_ok {job : Job} : Job.jobFromString m s = .ok job ↔ wordsOf s = job.words := by
  rw [jobFromString_eq]
  cases hwords : wordsOf s with
  | nil => exact iff_of_false nofun nofun
  | cons name args =>
      obtain ⟨jobName, jobArgs⟩ := job
      show Except.ok _ = Except.ok _ ↔ _ = jobName :: jobArgs
      rw [Except.ok.injEq, Job.mk.injEq, List.cons.injEq]

/-- The loop of `main` over the strings. -/
theorem mapM_eq_ok {strings : List CStr} {js : List Job} :
    strings.mapM (Job.jobFromString m) = .ok js ↔ js.map Job.words = strings.map wordsOf := by
  induction strings generalizing js with
  | nil =>
      rw [List.mapM_nil, List.map_nil, List.map_eq_nil_iff]
      exact ⟨fun h => (Except.ok.inj h).symm, fun h => congrArg Except.ok h.symm⟩
  | cons s strings ih =>
      rw [List.mapM_cons, List.map_cons]
      constructor
      · intro h
        obtain ⟨job, hjob, h⟩ := Eff.bind_eq_ok.mp h
        obtain ⟨js', hjs, h⟩ := Eff.bind_eq_ok.mp h
        cases h
        rw [List.map_cons, ih.mp hjs, jobFromString_eq_ok.mp hjob]
      · intro h
        cases js with
        | nil => cases h
        | cons job js =>
            rw [List.map_cons, List.cons.injEq] at h
            rw [jobFromString_eq_ok.mpr h.1.symm, ok_bind, ih.mpr h.2, ok_bind]
            rfl

/-- **What a line comes to**: the memory is there for its tokens and strings, and the jobs have the words of the
    strings. -/
theorem parseLine_eq_ok {js : List Job} :
    parseLine m line = .ok js ↔
      (∀ i ∈ lex kind (seen line), m.padded i.text.length = true) ∧ (∀ s ∈ jobStrings line, Copied m s) ∧
        js.map Job.words = (jobStrings line).map wordsOf := by
  rw [← mapM_eq_ok (m := m)]
  unfold parseLine
  constructor
  · intro h
    obtain ⟨tokens, htokenize, h⟩ := Eff.bind_eq_ok.mp h
    obtain ⟨strings, hhandle, h⟩ := Eff.bind_eq_ok.mp h
    obtain ⟨hpadded, rfl⟩ := tokenize_eq_ok.mp htokenize
    obtain ⟨hcopied, rfl⟩ := handleCommand_eq_ok.mp hhandle
    exact ⟨hpadded, hcopied, h⟩
  · rintro ⟨hpadded, hcopied, h⟩
    rw [tokenize_eq_ok.mpr ⟨hpadded, rfl⟩, ok_bind, handleCommand_eq_ok.mpr ⟨hcopied, rfl⟩, ok_bind]
    exact h

/-! ## The words of a line -/

/-- The characters of a word are blank to `strtok` where they are to a reader of the line. -/
theorem blankKind_eq_lineKind (hplain : kind c = .plain) : blankKind c = lineKind c := by
  have hdollar : c ≠ 36 := by
    rintro rfl
    cases hplain
  rw [kind_eq, if_neg hdollar] at hplain
  unfold blankKind
  split
  · next hblank =>
      unfold lineKind
      rw [if_pos hblank]
  · next hblank =>
      rw [if_neg fun h => hblank (Or.inr h)] at hplain
      exact hplain.symm

theorem lineKind_ne_skipped (c : Byte) : lineKind c ≠ .skipped := by
  unfold lineKind
  split_ifs <;> nofun

/-- **A line cut by its newlines too** is that without, with its words cut. -/
theorem lex_lineKind (hdollar : 36 ∉ line) : lex lineKind line = (lex kind line).flatMap (recut lineKind) := by
  refine lex_recut isQuote_lineKind fun c hc => ?_
  have h36 : c ≠ 36 := fun h => hdollar (h ▸ hc)
  rw [kind_eq, if_neg h36]
  by_cases h10 : c = 10
  · rw [if_pos h10]
    exact ⟨nofun, fun h => absurd rfl h⟩
  · rw [if_neg h10]
    exact ⟨lineKind_ne_skipped c, fun _ => rfl⟩

/-- Whether a token stands between two jobs. -/
def isCut (i : Item Byte) : Bool := i.form == .operator && i.text == [38]

/-- The words between two `&` that do not stand in quotes. -/
def lineGroups (line : CStr) : List (List CStr) := ((lex lineKind line).splitOnP isCut).map (·.map (·.text))

/-- The words that stand in quotes. -/
def quotedWords (line : CStr) : List CStr := ((lex lineKind line).filter (·.form == .quoted)).map (·.text)

/-- The words a token stands for. -/
def meant (i : Item Byte) : List CStr := ((recut lineKind i).filter (!isCut ·)).map (·.text)

/-- The words made of a token. -/
def handed (i : Item Byte) : List CStr := if isAmp i.text then [] else wordsOf i.text

theorem wordsOf_append_blank (s rest : CStr) : wordsOf (s ++ [32] ++ rest) = wordsOf s ++ wordsOf rest := by
  have hblank : blankKind 32 = .separator := rfl
  have hsplit : lex blankKind (s ++ 32 :: rest) = lex blankKind s ++ lex blankKind (32 :: rest) := by
    refine lex_append (fun c _ => isQuote_blankKind c) fun c hc => ?_
    cases hc
    rfl
  unfold wordsOf
  rw [List.append_assoc, List.singleton_append, hsplit, lex_separator hblank, List.map_append]

/-- Putting tokens together keeps the words of each. -/
theorem wordsOf_render (g : List CStr) : wordsOf (render g) = g.flatMap wordsOf := by
  induction g with
  | nil => exact congrArg (List.map Item.text) lex_nil
  | cons t g ih =>
      have hcons : render (t :: g) = t ++ [32] ++ render g := by simp [render]
      rw [hcons, wordsOf_append_blank, ih, List.flatMap_cons]

theorem flatMap_filter {α β : Type*} (p : α → Bool) (f : α → List β) (l : List α) :
    (l.filter p).flatMap f = l.flatMap fun a => if p a then f a else [] := by
  induction l with
  | nil => rfl
  | cons a l ih =>
      rw [List.filter_cons, List.flatMap_cons, ← ih]
      split
      · rw [List.flatMap_cons]
      · rw [List.nil_append]

/-- The words made of a line, all jobs together. -/
theorem flatten_wordsOf (hlen : line.length < 2 ^ 31) :
    ((jobStrings line).map wordsOf).flatten = (lex kind line).flatMap handed := by
  have hwords : wordsOf ∘ render = (List.flatMap wordsOf : List CStr → List CStr) := funext wordsOf_render
  have hhanded : (lex kind line).flatMap handed =
      ((lex kind line).map (·.text)).flatMap fun t => if isAmp t then [] else wordsOf t := by
    rw [List.flatMap_map]
    rfl
  have hflatten : ∀ ls : List (List CStr), ls.flatMap (List.flatMap wordsOf) = ls.flatten.flatMap wordsOf := by
    intro ls
    rw [← List.flatMap_id, List.flatMap_assoc]
    rfl
  rw [jobStrings, List.map_map, hwords, ← List.flatMap_def, hflatten, flatten_closeLast, tokenGroups,
    flatten_splitOnP, seen_of_lt hlen, flatMap_filter, hhanded]
  congr 1
  funext t
  cases isAmp t <;> rfl

/-- The words of a line, all groups together. -/
theorem flatten_lineGroups (hdollar : 36 ∉ line) : (lineGroups line).flatten = (lex kind line).flatMap meant := by
  rw [lineGroups, ← List.map_flatten, flatten_splitOnP, lex_lineKind hdollar, List.filter_flatMap, List.map_flatMap]
  rfl

/-- A word is cut by its newlines alone. -/
theorem lex_word {s : CStr} (hplain : ∀ c ∈ s, kind c = .plain) : lex lineKind s = lex blankKind s :=
  lex_congr_of_forall fun c hc => (blankKind_eq_lineKind (hplain c hc)).symm

theorem isCut_of_blank {s : CStr} {i : Item Byte} (hi : i ∈ lex blankKind s) : isCut i = false := by
  have hmade := made_of_mem_lex hi
  unfold Item.Made at hmade
  unfold isCut
  cases hform : i.form with
  | word => rfl
  | quoted => rfl
  | operator =>
      rw [hform] at hmade
      obtain ⟨c, -, hc⟩ := hmade
      unfold blankKind at hc
      split at hc <;> cases hc

section Token

variable {i : Item Byte}

/-- What is left of a token in quotes when it is put together with others and taken apart again. -/
def Unbroken (w : CStr) : Prop := w ≠ [38] ∧ 32 ∉ w ∧ 10 ∉ w

theorem isAmp_eq_isCut (hmade : i.Made kind) (hquoted : i.form ≠ .quoted) : isAmp i.text = isCut i := by
  unfold Item.Made at hmade
  unfold isCut isAmp
  cases hform : i.form with
  | quoted => exact absurd hform hquoted
  | operator => rfl
  | word =>
      rw [hform] at hmade
      have hamp : i.text ≠ [38] := by
        intro htext
        cases hmade 38 (htext ▸ List.mem_singleton_self _)
      simpa using hamp

theorem wordsOf_plain {w : CStr} (hne : w ≠ []) (hblank : 32 ∉ w ∧ 10 ∉ w) : wordsOf w = [w] := by
  have hplain : ∀ c ∈ w, blankKind c = .plain := by
    intro c hc
    unfold blankKind
    rw [if_neg]
    rintro (rfl | rfl)
    · exact hblank.1 hc
    · exact hblank.2 hc
  rw [wordsOf, lex_plain hne hplain]
  rfl

/-- Its own words are those of a token that is not broken. -/
theorem wordsOf_eq_recut (hmade : i.Made kind) (hne : i.text ≠ []) (hwhole : i.form = .quoted → Unbroken i.text) :
    wordsOf i.text = (recut lineKind i).map (·.text) := by
  unfold Item.Made at hmade
  unfold recut
  cases hform : i.form with
  | word =>
      rw [hform] at hmade
      rw [lex_word hmade]
      rfl
  | quoted => exact wordsOf_plain hne (hwhole hform).2
  | operator =>
      rw [hform] at hmade
      obtain ⟨c, htext, hc⟩ := hmade
      refine wordsOf_plain hne ⟨fun h => ?_, fun h => ?_⟩
      · rw [htext] at h
        rw [← List.mem_singleton.mp h] at hc
        cases hc
      · rw [htext] at h
        rw [← List.mem_singleton.mp h] at hc
        cases hc

theorem isCut_of_mem_recut (hmade : i.Made kind) (hcut : isCut i = false) {j : Item Byte}
    (hj : j ∈ recut lineKind i) : isCut j = false := by
  unfold Item.Made at hmade
  unfold recut at hj
  cases hform : i.form with
  | word =>
      rw [hform] at hmade hj
      dsimp only at hj
      rw [lex_word hmade] at hj
      exact isCut_of_blank hj
  | quoted =>
      rw [hform] at hj
      rwa [List.mem_singleton.mp hj]
  | operator =>
      rw [hform] at hj
      rwa [List.mem_singleton.mp hj]

theorem meant_of_isCut (hcut : isCut i = true) : meant i = [] := by
  have hform : i.form = .operator := by
    unfold isCut at hcut
    exact beq_iff_eq.mp (Bool.and_eq_true_iff.mp hcut).1
  unfold meant recut
  rw [hform]
  dsimp only
  rw [List.filter_cons_of_neg (by simpa using hcut)]
  rfl

theorem meant_of_not_isCut (hmade : i.Made kind) (hcut : isCut i = false) :
    meant i = (recut lineKind i).map (·.text) := by
  unfold meant
  rw [List.filter_eq_self.mpr]
  intro j hj
  rw [isCut_of_mem_recut hmade hcut hj]
  rfl

/-- A token that is not in quotes is handed on as it is meant. -/
theorem handed_eq_meant (hmade : i.Made kind) (hne : i.text ≠ []) (hquoted : i.form ≠ .quoted) :
    handed i = meant i := by
  unfold handed
  rw [isAmp_eq_isCut hmade hquoted]
  cases hcut : isCut i with
  | true =>
      rw [meant_of_isCut hcut]
      rfl
  | false =>
      rw [meant_of_not_isCut hmade hcut]
      exact wordsOf_eq_recut hmade hne fun h => absurd h hquoted

/-- A token may lose characters, and does when it is broken. -/
theorem length_handed (hne : i.text ≠ []) :
    (handed i).flatten.length ≤ i.text.length ∧
      ((handed i).flatten.length = i.text.length → Unbroken i.text) := by
  unfold handed
  cases hamp : isAmp i.text with
  | true =>
      refine ⟨Nat.zero_le _, fun h => ?_⟩
      exact absurd (List.length_eq_zero_iff.mp h.symm) hne
  | false =>
      have hflatten : (wordsOf i.text).flatten = i.text.filter (keeps blankKind) := by
        rw [wordsOf, flatten_lex, content_eq_filter fun c _ => isQuote_blankKind c]
      show (wordsOf i.text).flatten.length ≤ _ ∧ ((wordsOf i.text).flatten.length = _ → _)
      rw [hflatten]
      refine ⟨List.length_filter_le _ _, fun h => ?_⟩
      have hall := List.length_filter_eq_length_iff.mp h
      refine ⟨?_, fun hc => ?_, fun hc => ?_⟩
      · rw [isAmp] at hamp
        simpa using hamp
      · cases hall 32 hc
      · cases hall 10 hc

end Token

theorem mem_quotedWords (hdollar : 36 ∉ line) {w : CStr} : w ∈ quotedWords line ↔ ⟨.quoted, w⟩ ∈ lex kind line := by
  have hmem : w ∈ quotedWords line ↔ ⟨.quoted, w⟩ ∈ lex lineKind line := by
    unfold quotedWords
    rw [List.mem_map]
    constructor
    · rintro ⟨⟨form, text⟩, hi, rfl⟩
      obtain ⟨hi, hform⟩ := List.mem_filter.mp hi
      cases beq_iff_eq.mp hform
      exact hi
    · intro h
      exact ⟨_, List.mem_filter.mpr ⟨h, rfl⟩, rfl⟩
  rw [hmem, lex_lineKind hdollar, List.mem_flatMap]
  constructor
  · rintro ⟨i, hi, hj⟩
    have hmade := made_of_mem_lex hi
    unfold Item.Made at hmade
    unfold recut at hj
    cases hform : i.form with
    | word =>
        rw [hform] at hmade hj
        dsimp only at hj
        rw [lex_word hmade] at hj
        exact absurd rfl (form_ne_quoted (fun c _ => isQuote_blankKind c) hj)
    | quoted =>
        rw [hform] at hj
        rwa [List.mem_singleton.mp hj]
    | operator =>
        rw [hform] at hj
        rwa [List.mem_singleton.mp hj]
  · intro h
    exact ⟨_, h, List.mem_singleton_self _⟩

/-- The groups of the code and of the line, where no word in quotes is a `&` of its own. -/
theorem groups_eq (hdollar : 36 ∉ line) (hlen : line.length < 2 ^ 31) (hwhole : ∀ w ∈ quotedWords line, Unbroken w) :
    tokenGroups line = ((lex kind line).splitOnP isCut).map (·.map (·.text)) ∧
      (lex lineKind line).splitOnP isCut = ((lex kind line).splitOnP isCut).map (·.flatMap (recut lineKind)) := by
  have hamp : ∀ i ∈ lex kind line, isAmp i.text = isCut i := by
    intro i hi
    by_cases hquoted : i.form = .quoted
    · have hi' : i.text ∈ quotedWords line := by
        rw [mem_quotedWords hdollar, ← hquoted]
        exact hi
      have hnot : isCut i = false := by
        rw [isCut, hquoted]
        rfl
      rw [hnot, isAmp]
      simpa using (hwhole _ hi').1
    · exact isAmp_eq_isCut (made_of_mem_lex hi) hquoted
  constructor
  · have hmap : (lex kind line).map (·.text) = (lex kind line).flatMap fun i => [i.text] := List.map_eq_flatMap
    rw [tokenGroups, seen_of_lt hlen, hmap, splitOnP_flatMap (p := isCut)]
    · simp only [← List.map_eq_flatMap]
    · intro i hi hcut
      exact ⟨i.text, rfl, by rw [hamp i hi, hcut]⟩
    · intro i hi hcut t ht
      rw [List.mem_singleton.mp ht, hamp i hi, hcut]
  · rw [lex_lineKind hdollar, splitOnP_flatMap (p := isCut)]
    · intro i _ hcut
      refine ⟨i, ?_, hcut⟩
      have hform : i.form = .operator := beq_iff_eq.mp (Bool.and_eq_true_iff.mp hcut).1
      unfold recut
      rw [hform]
    · intro i hi hcut j hj
      exact isCut_of_mem_recut (made_of_mem_lex hi) hcut hj

theorem exists_jobs {gs : List (List CStr)} (hgs : ∀ g ∈ gs, g ≠ []) : ∃ js : List Job, js.map Job.words = gs := by
  induction gs with
  | nil => exact ⟨[], rfl⟩
  | cons g gs ih =>
      obtain ⟨js, rfl⟩ := ih fun d hd => hgs d (List.mem_cons_of_mem g hd)
      obtain ⟨name, args, rfl⟩ := List.exists_cons_of_ne_nil (hgs g List.mem_cons_self)
      exact ⟨⟨name, args⟩ :: js, rfl⟩

theorem length_flatMap_flatten {α β : Type*} (f : α → List (List β)) (l : List α) :
    (l.flatMap f).flatten.length = (l.map fun a => (f a).flatten.length).sum := by
  induction l with
  | nil => rfl
  | cons a l ih => rw [List.flatMap_cons, List.flatten_append, List.length_append, ih, List.map_cons, List.sum_cons]

/-- With the words of the line in the jobs, none of them has lost anything: no token of the code has more characters
    than are meant, and together they have as many. -/
theorem unbroken_of_words (hdollar : 36 ∉ line) (hlen : line.length < 2 ^ 31)
    (hwords : (jobStrings line).map wordsOf = lineGroups line) : ∀ w ∈ quotedWords line, Unbroken w := by
  intro w hw
  have hi := (mem_quotedWords hdollar).mp hw
  have hmeant : (meant (⟨.quoted, w⟩ : Item Byte)).flatten = w := List.append_nil w
  have hle : ∀ i ∈ lex kind line, (handed i).flatten.length ≤ (meant i).flatten.length := by
    intro i hi
    by_cases hquoted : i.form = .quoted
    · obtain ⟨form, text⟩ := i
      cases hquoted
      exact (length_handed (ne_nil_of_mem_lex hi)).1.trans_eq (congrArg List.length (List.append_nil text).symm)
    · rw [handed_eq_meant (made_of_mem_lex hi) (ne_nil_of_mem_lex hi) hquoted]
  have hsum : ((lex kind line).map fun i => (handed i).flatten.length).sum =
      ((lex kind line).map fun i => (meant i).flatten.length).sum := by
    rw [← length_flatMap_flatten, ← length_flatMap_flatten, ← flatten_wordsOf hlen, ← flatten_lineGroups hdollar,
      hwords]
  refine (length_handed (ne_nil_of_mem_lex hi)).2 (le_antisymm (length_handed (ne_nil_of_mem_lex hi)).1 ?_)
  by_contra hlt
  refine hsum.not_lt (List.sum_lt_sum _ _ hle ⟨_, hi, ?_⟩)
  rw [hmeant]
  exact not_le.mp hlt

/-- … and with nothing lost the words are in the jobs. -/
theorem words_of_unbroken (hdollar : 36 ∉ line) (hlen : line.length < 2 ^ 31)
    (hgroups : ∀ g ∈ lineGroups line, g ≠ []) (hwhole : ∀ w ∈ quotedWords line, Unbroken w) :
    (jobStrings line).map wordsOf = lineGroups line := by
  obtain ⟨hcode, hline⟩ := groups_eq hdollar hlen hwhole
  have hclose : closeLast (tokenGroups line) = tokenGroups line := by
    refine closeLast_eq_self fun g hg hnil => ?_
    rw [hcode] at hg
    obtain ⟨items, hitems, rfl⟩ := List.mem_map.mp hg
    rw [List.map_eq_nil_iff.mp hnil] at hitems
    refine hgroups [] ?_ rfl
    rw [lineGroups, hline]
    exact List.mem_map_of_mem (f := List.map Item.text) (List.mem_map_of_mem (f := List.flatMap _) hitems)
  rw [jobStrings, hclose, hcode, lineGroups, hline, List.map_map, List.map_map, List.map_map]
  refine List.map_congr_left fun items hitems => ?_
  have hmem : ∀ i ∈ items, i ∈ lex kind line := by
    intro i hi
    have hflat : i ∈ ((lex kind line).splitOnP isCut).flatten := List.mem_flatten_of_mem hitems hi
    rw [flatten_splitOnP] at hflat
    exact (List.mem_filter.mp hflat).1
  show wordsOf (render (items.map (·.text))) = (items.flatMap (recut lineKind)).map (·.text)
  rw [wordsOf_render, List.flatMap_map, List.map_flatMap]
  refine List.flatMap_congr fun i hi => ?_
  refine wordsOf_eq_recut (made_of_mem_lex (hmem i hi)) (ne_nil_of_mem_lex (hmem i hi)) fun hquoted => ?_
  refine hwhole _ ((mem_quotedWords hdollar).mpr ?_)
  rw [← hquoted]
  exact hmem i hi

theorem jobStrings_seen (line : CStr) : jobStrings (seen line) = jobStrings line := by
  unfold jobStrings tokenGroups
  rw [seen_seen]

/-- What it takes for the jobs to be those of the line: `int length` misses no word, none in quotes has a blank in it or
    is a `&`, and memory is there for the tokens and the strings. -/
structure Parses (m : Slack) (line : CStr) : Prop where
  counted : lineGroups (seen line) = lineGroups line
  whole : ∀ w ∈ quotedWords (seen line), Unbroken w
  padded : ∀ i ∈ lex kind (seen line), m.padded i.text.length = true
  copied : ∀ s ∈ jobStrings line, Copied m s

theorem jobs_of_parses (hdollar : 36 ∉ line) (hgroups : ∀ g ∈ lineGroups line, g ≠ []) (h : Parses m line) :
    ∃ js, parseLine m line = .ok js ∧ js.map Job.words = lineGroups line := by
  obtain ⟨js, hjs⟩ := exists_jobs hgroups
  have hwords : (jobStrings (seen line)).map wordsOf = lineGroups (seen line) := by
    refine words_of_unbroken (notMem_seen hdollar) (length_seen line) ?_ h.whole
    rw [h.counted]
    exact hgroups
  rw [jobStrings_seen, h.counted] at hwords
  exact ⟨js, parseLine_eq_ok.mpr ⟨h.padded, h.copied, hjs.trans hwords.symm⟩, hjs⟩

theorem parses_of_jobs (hdollar : 36 ∉ line) (hlen : line.length < 2 ^ 31) {js : List Job}
    (hparse : parseLine m line = .ok js) (hwords : js.map Job.words = lineGroups line) : Parses m line := by
  have hseen := seen_of_lt hlen
  obtain ⟨hpadded, hcopied, hjs⟩ := parseLine_eq_ok.mp hparse
  refine ⟨congrArg lineGroups hseen, ?_, hpadded, hcopied⟩
  rw [hseen]
  exact unbroken_of_words hdollar hlen (hjs.symm.trans hwords)

/-- **When the jobs are those of the line**: in a line without `$` with a word between any two `&`, when `Parses` says
    so, and in one that an `int` can count exactly then. -/
theorem jobs_iff (hdollar : 36 ∉ line) (hgroups : ∀ g ∈ lineGroups line, g ≠ []) :
    (Parses m line → ∃ js, parseLine m line = .ok js ∧ js.map Job.words = lineGroups line) ∧
      (line.length < 2 ^ 31 →
        ((∃ js, parseLine m line = .ok js ∧ js.map Job.words = lineGroups line) ↔ Parses m line)) := by
  refine ⟨jobs_of_parses hdollar hgroups, fun hlen => ⟨?_, jobs_of_parses hdollar hgroups⟩⟩
  rintro ⟨js, hparse, hwords⟩
  exact parses_of_jobs hdollar hlen hparse hwords

theorem jobs_iff_two :
    ∃ js, parseLine benign (bytes "cat \"ab\"&ls|wc") = .ok js ∧
      js.map Job.words = lineGroups (bytes "cat \"ab\"&ls|wc") := by
  have hgroups : ∀ g ∈ lineGroups (bytes "cat \"ab\"&ls|wc"), g ≠ [] := by
    rw [lineGroups, ← lexFrom_false_nil]
    decide
  have hseen := seen_of_lt (by decide : (bytes "cat \"ab\"&ls|wc").length < 2 ^ 31)
  have hquoted : quotedWords (bytes "cat \"ab\"&ls|wc") = [bytes "ab"] := by
    rw [quotedWords, ← lexFrom_false_nil]
    decide
  have hstrings : jobStrings (bytes "cat \"ab\"&ls|wc") = [bytes "cat ab ", bytes "ls | wc "] := by
    rw [jobStrings, tokenGroups, hseen, ← lexFrom_false_nil]
    decide
  refine (jobs_iff (by decide) hgroups).1 ⟨congrArg lineGroups hseen, ?_, fun _ _ => rfl, fun s hs => ⟨rfl, ?_⟩⟩
  · rw [hseen, hquoted]
    intro w hw
    rw [List.mem_singleton.mp hw]
    exact ⟨by decide, by decide, by decide⟩
  · rw [hstrings] at hs
    revert s
    decide

/-- A word in quotes with a space becomes two. -/
theorem quotes_lost :
    ¬ ∀ line : CStr, 36 ∉ line → line.length < 2 ^ 31 → (∀ g ∈ lineGroups line, g ≠ []) →
      ∃ js, parseLine benign line = .ok js ∧ js.map Job.words = lineGroups line := by
  intro hall
  have hgroups : ∀ g ∈ lineGroups (bytes "echo \"a b\""), g ≠ [] := by
    rw [lineGroups, ← lexFrom_false_nil]
    decide
  obtain ⟨js, hparse, hwords⟩ := hall (bytes "echo \"a b\"") (by decide) (by decide) hgroups
  obtain ⟨-, -, hjs⟩ := parseLine_eq_ok.mp hparse
  have hquoted : bytes "a b" ∈ quotedWords (bytes "echo \"a b\"") := by
    rw [quotedWords, ← lexFrom_false_nil]
    decide
  refine (unbroken_of_words (by decide) (by decide) (hjs.symm.trans hwords) _ hquoted).2.1 ?_
  decide

/-! ## The name of a job -/

/-- A string a job can be made of. -/
structure Named (m : Slack) (s : CStr) : Prop where
  text : ∃ c ∈ s, c ∉ bytes " \n"
  found : strtokAny (bytes " \n") s ≠ none
  job : Job.jobFromString m s ≠ .error .nullDeref

theorem wordsOf_eq_nil_iff : wordsOf s = [] ↔ ∀ c ∈ s, c ∈ bytes " \n" := by
  rw [wordsOf, List.map_eq_nil_iff, lex_eq_nil_iff, content_eq_filter fun c _ => isQuote_blankKind c,
    List.filter_eq_nil_iff]
  refine forall₂_congr fun c _ => ?_
  rw [mem_blanks, ← blankKind_separator]
  unfold keeps blankKind
  split <;> decide

theorem named_iff : Named m s ↔ ∃ c ∈ s, c ∉ bytes " \n" := by
  refine ⟨fun h => h.text, fun htext => ?_⟩
  have hwords : wordsOf s ≠ [] := by
    obtain ⟨c, hc, hblank⟩ := htext
    exact fun hnil => hblank (wordsOf_eq_nil_iff.mp hnil c hc)
  refine ⟨htext, ?_, ?_⟩
  · rcases strtokAny_cases s with ⟨-, hlex⟩ | ⟨w, rest, hsome, -⟩
    · exact absurd (congrArg (List.map Item.text) hlex) hwords
    · rw [hsome]
      nofun
  · rw [jobFromString_eq]
    cases hs : wordsOf s with
    | nil => exact absurd hs hwords
    | cons name args => nofun

/-- There is text in a string when there is in one of its tokens. -/
theorem text_render {g : List CStr} :
    (∃ c ∈ render g, c ∉ bytes " \n") ↔ ∃ t ∈ g, ∃ c ∈ t, c ∉ bytes " \n" := by
  unfold render
  simp only [List.mem_flatten, List.mem_map]
  constructor
  · rintro ⟨c, ⟨-, ⟨t, ht, rfl⟩, hc⟩, hblank⟩
    rcases List.mem_append.mp hc with hc | hc
    · exact ⟨t, ht, c, hc, hblank⟩
    · rw [List.mem_singleton.mp hc] at hblank
      exact absurd (mem_blanks.mpr (Or.inl rfl)) hblank
  · rintro ⟨t, ht, c, hc, hblank⟩
    exact ⟨c, ⟨_, ⟨t, ht, rfl⟩, List.mem_append_left _ hc⟩, hblank⟩

theorem benign_strings (hshort : ∀ s ∈ jobStrings line, s.length + 1 < 2 ^ 31) :
    ∃ tokens, tokenize benign line = .ok tokens ∧ handleCommand benign tokens = .ok (jobStrings line) :=
  ⟨_, tokenize_eq_ok.mpr ⟨fun _ _ => rfl, rfl⟩,
    handleCommand_eq_ok.mpr ⟨fun s hs => ⟨rfl, hshort s hs⟩, rfl⟩⟩

/-- **When every string has a name in it**: exactly when in front of every `&`, and behind the last if there is
    anything, there is a token with text in it, or a string is so long that none is made. -/
theorem text_iff :
    (∀ m tokens strings, tokenize m line = .ok tokens → handleCommand m tokens = .ok strings →
        ∀ s ∈ strings, Named m s) ↔
      ((∀ s ∈ jobStrings line, s.length + 1 < 2 ^ 31) →
        ∀ g ∈ closeLast (tokenGroups line), ∃ t ∈ g, ∃ c ∈ t, c ∉ bytes " \n") := by
  constructor
  · intro hall hshort g hg
    obtain ⟨tokens, htokenize, hhandle⟩ := benign_strings hshort
    have hs : render g ∈ jobStrings line := List.mem_map_of_mem hg
    exact text_render.mp (named_iff.mp (hall benign _ _ htokenize hhandle _ hs))
  · intro htext m tokens strings htokenize hhandle s hs
    obtain ⟨-, rfl⟩ := tokenize_eq_ok.mp htokenize
    obtain ⟨hcopied, rfl⟩ := handleCommand_eq_ok.mp hhandle
    obtain ⟨g, hg, rfl⟩ := List.mem_map.mp hs
    exact named_iff.mpr (text_render.mpr (htext (fun s hs => (hcopied s hs).short) g hg))

/-- A line with nothing but its newline makes a string without a name. -/
theorem newline_unnamed :
    ¬ ∀ (line : CStr) (m : Slack) (tokens : List Token) (strings : List CStr), tokenize m line = .ok tokens →
      handleCommand m tokens = .ok strings → ∀ s ∈ strings, Named m s := by
  intro hall
  have hstrings : jobStrings (bytes "\n") = [bytes "\n "] := by
    rw [jobStrings, tokenGroups, seen_of_lt (by decide), ← lexFrom_false_nil]
    decide
  obtain ⟨tokens, htokenize, hhandle⟩ := benign_strings (by rw [hstrings]; decide)
  have hnamed := hall (bytes "\n") benign tokens _ htokenize hhandle (bytes "\n ") (by rw [hstrings]; decide)
  obtain ⟨c, hc, hblank⟩ := hnamed.text
  have hmem : c ∈ [10, 32] := hc
  rcases List.mem_cons.mp hmem with rfl | hmem
  · exact hblank (mem_blanks.mpr (Or.inr rfl))
  · exact hblank (mem_blanks.mpr (Or.inl (List.mem_singleton.mp hmem)))

/-! ## The size of the copies -/

/-- Every copy fits in its block, whatever is behind it, and tokens know their length. -/
structure Fits (line : CStr) : Prop where
  copies : ∀ kept, parseLine ⟨fun _ => false, kept⟩ line ≠ .error .outOfBounds
  lengths : ∀ m tokens, tokenize m line = .ok tokens → ∀ t ∈ tokens, t.length = t.str.length

/-- The block of any token is too short for its NUL. -/
theorem lex_eq_nil_of_fits (hfits : Fits line) : lex kind (seen line) = [] := by
  by_contra hne
  refine hfits.copies (fun _ => true) ?_
  have htokenize : tokenize ⟨fun _ => false, fun _ => true⟩ line = .error .outOfBounds := by
    obtain ⟨i, items, hitems⟩ := List.exists_cons_of_ne_nil hne
    rw [tokenize_eq, hitems, deliver_cons, if_neg Bool.false_ne_true]
  unfold parseLine
  rw [htokenize]
  rfl

/-- **When every copy fits**: exactly when the line has no tokens. -/
theorem fits_iff : Fits line ↔ content kind false (seen line) = [] := by
  rw [← lex_eq_nil_iff]
  constructor
  · exact lex_eq_nil_of_fits
  · intro hnil
    refine ⟨fun kept => ?_, ?_⟩
    · have hstrings : jobStrings line = [] := by
        rw [jobStrings, tokenGroups, hnil]
        rfl
      have hparse : parseLine ⟨fun _ => false, kept⟩ line = .ok [] := by
        rw [parseLine_eq_ok, hnil, hstrings]
        exact ⟨fun _ hi => absurd hi List.not_mem_nil, fun _ hs => absurd hs List.not_mem_nil, rfl⟩
      rw [hparse]
      nofun
    · intro m tokens htokenize t ht
      obtain ⟨-, rfl⟩ := tokenize_eq_ok.mp htokenize
      obtain ⟨i, -, rfl⟩ := List.mem_map.mp ht
      rfl

/-- One character is enough. -/
theorem token_overrun : ¬ ∀ line : CStr, Fits line := by
  intro hall
  have hnil := lex_eq_nil_of_fits (hall (bytes "a"))
  rw [seen_of_lt (by decide), lex_eq_nil_iff] at hnil
  revert hnil
  decide

end Dshell
end DistributedPlatform

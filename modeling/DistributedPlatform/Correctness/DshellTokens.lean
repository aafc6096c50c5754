import DistributedPlatform.Lib.Lexer
import DistributedPlatform.Programs.Dshell

/-!
# `Correctness.DshellTokens` — the tokens of a line

`tokenize` is the lexer whose characters are those of the delimiter table, as far as `delimiterCount` goes: the
newline is at the end of the table and is not counted, so it is a character like any other.

* `tokenize_eq` — the tokens, where each has room for its NUL;
* `Tokenizes`, `tokens_iff` — when they are those of the line.
-/

namespace DistributedPlatform
namespace Dshell

open Lexer

variable {m : Slack} {line : CStr} {c : Byte}

/-- What `tokenize` takes a character for. -/
def kind (c : Byte) : Kind :=
  if c = 36 then .skipped
  else if c = 34 then .quote
  else if c ∈ delimiters.take delimiterCount then if c ≠ 32 ∧ c ≠ 10 then .operator else .separator
  else .plain

def Token.ofItem (i : Item Byte) : Token := ⟨i.text, i.text.length⟩

/-- Tokens are added, if each block has room for one byte more. -/
def deliver (m : Slack) (tokens : List Token) (items : List (Item Byte)) : Eff (List Token) :=
  if ∀ i ∈ items, m.padded i.text.length = true then .ok (tokens ++ items.map Token.ofItem)
  else .error .outOfBounds

theorem strcpy_short (m : Slack) (s : CStr) :
    strcpy m s.length s = if m.padded s.length = true then .ok s else .error .outOfBounds := by
  have hlt : ¬ s.length + 1 ≤ s.length := by omega
  unfold strcpy
  simp only [hlt, true_and, false_or]

theorem addToQueue_eq (m : Slack) {ss : CStr} (hfits : FitsI32 ss.length) (tokens : List Token) :
    addToQueue m ss tokens =
      if ss = [] then .ok ([], tokens)
      else if m.padded ss.length = true then .ok ([], tokens ++ [⟨ss, ss.length⟩])
      else .error .outOfBounds := by
  have hsize : ssSize ss = ss.length := toI32_eq_self_iff.mpr hfits
  unfold addToQueue
  dsimp only
  rw [hsize]
  by_cases hnil : ss = []
  · subst hnil
    rfl
  · have hpos := List.length_pos_iff.mpr hnil
    rw [if_pos (by exact_mod_cast hpos), if_neg hnil, Int.toNat_natCast, strcpy_short]
    split
    · simp only [bind, Except.bind, toI32_eq_self_iff.mpr hfits]
    · rfl

theorem deliver_cons (tokens : List Token) (i : Item Byte) (items : List (Item Byte)) :
    deliver m tokens (i :: items) =
      if m.padded i.text.length = true then deliver m (tokens ++ [Token.ofItem i]) items else .error .outOfBounds := by
  unfold deliver
  by_cases hi : m.padded i.text.length = true
  · rw [if_pos hi]
    simp [hi]
  · rw [if_neg hi, if_neg fun hall => hi (hall i List.mem_cons_self)]

/-- The variables with nothing unusual in them. -/
def scanning (q : Bool) (ss : CStr) (tokens : List Token) : Tokenizer := { inString := q, ss, tokens }

/-- Flushing the buffer adds it as a token, and what follows goes on behind. -/
theorem flush_bind {q : Bool} {ss : CStr} (hss : FitsI32 ss.length) (tokens : List Token) (form : Form)
    (rest : List (Item Byte)) {f : Tokenizer → Eff (List Token)}
    (hf : ∀ tokens, f (scanning q [] tokens) = deliver m tokens rest) :
    ((scanning q ss tokens).flush m >>= f) = deliver m tokens (emit form ss rest) := by
  have hflush : (scanning q ss tokens).flush m =
      (addToQueue m ss tokens >>= fun r => .ok (scanning q r.1 r.2)) := rfl
  rw [hflush, addToQueue_eq m hss]
  by_cases hnil : ss = []
  · rw [if_pos hnil, hnil, emit_nil, ← hf]
    rfl
  · rw [if_neg hnil, emit_of_ne_nil hnil, deliver_cons]
    by_cases hpad : m.padded ss.length = true
    · rw [if_pos hpad, if_pos hpad, ← hf]
      rfl
    · rw [if_neg hpad, if_neg hpad]
      rfl

theorem ok_bind {α β : Type} (a : α) (f : α → Eff β) : ((.ok a : Eff α) >>= f) = f a := rfl

/-- `tokenize` from some character of the line on. -/
def Tokenizer.run (m : Slack) (st : Tokenizer) (line : CStr) : Eff (List Token) := do
  let st ← line.foldlM (Tokenizer.step m) st
  let st ← st.flush m
  .ok st.tokens

theorem run_nil (m : Slack) (st : Tokenizer) : st.run m [] = (st.flush m >>= fun st => .ok st.tokens) := by
  unfold Tokenizer.run
  rw [List.foldlM_nil, pure_bind]

theorem run_cons (m : Slack) (st : Tokenizer) (c : Byte) (line : CStr) :
    st.run m (c :: line) = (st.step m c >>= fun st => st.run m line) := by
  unfold Tokenizer.run
  rw [List.foldlM_cons, bind_assoc]

@[simp] theorem isQuote_kind : isQuote kind c = decide (c = 34) := by
  unfold isQuote kind
  by_cases h36 : c = 36
  · subst h36
    rfl
  · by_cases h34 : c = 34
    · subst h34
      rfl
    · rw [if_neg h36, if_neg h34]
      split
      · split <;> simp [h34]
      · simp [h34]

/-- What a character does: inside quotes, and outside. -/
theorem step_quoted (m : Slack) (ss : CStr) (tokens : List Token) (c : Byte) :
    (scanning true ss tokens).step m c =
      if isQuote kind c then (scanning false ss tokens).flush m else .ok (scanning true (ss ++ [c]) tokens) := by
  have hstring : (scanning true ss tokens).inString = true := rfl
  rw [isQuote_kind]
  unfold Tokenizer.step
  rw [if_pos hstring]
  by_cases h : c = 34
  · rw [if_pos h, if_pos (by simpa using h)]
    rfl
  · rw [if_neg h, if_neg (by simpa using h)]
    rfl

theorem step_unquoted (m : Slack) (ss : CStr) (tokens : List Token) (c : Byte) :
    (scanning false ss tokens).step m c =
      match kind c with
      | .plain => .ok (scanning false (ss ++ [c]) tokens)
      | .skipped => .ok (scanning false ss tokens)
      | .separator => (scanning false ss tokens).flush m
      | .operator => (scanning false ss tokens).flush m >>= fun st => (st.put c).flush m
      | .quote => (scanning true ss tokens).flush m := by
  have hstring : ¬ (scanning false ss tokens).inString = true := Bool.false_ne_true
  have hequation : ¬ (scanning false ss tokens).inEquation = true := Bool.false_ne_true
  unfold Tokenizer.step kind
  rw [if_neg hstring, if_neg hequation]
  by_cases h36 : c = 36
  · rw [if_pos h36, if_pos h36]
  · by_cases h34 : c = 34
    · rw [if_neg h36, if_pos h34, if_neg h36, if_pos h34]
      rfl
    · rw [if_neg h36, if_neg h34, if_neg h36, if_neg h34]
      by_cases hdelim : c ∈ delimiters.take delimiterCount
      · rw [if_pos hdelim, if_pos hdelim]
        by_cases hop : c ≠ 32 ∧ c ≠ 10
        · simp only [if_pos hop]
        · simp only [if_neg hop]
          exact bind_pure _
      · rw [if_neg hdelim, if_neg hdelim]
        rfl

/-- **The rest of a line**, with the characters of the token that is not finished in the buffer. -/
theorem run_eq (m : Slack) {bound : Nat} (hbound : ∀ n : Nat, n < bound → FitsI32 n) (line : CStr) :
    ∀ (q : Bool) (ss : CStr) (tokens : List Token), ss.length + line.length < bound →
      (scanning q ss tokens).run m line = deliver m tokens (lexFrom kind q ss line) := by
  induction line with
  | nil =>
      intro q ss tokens hlen
      rw [run_nil]
      unfold lexFrom
      refine flush_bind (hbound _ (by omega)) tokens _ [] fun tokens => ?_
      simp [deliver, scanning]
  | cons c line ih =>
      intro q ss tokens hlen
      rw [List.length_cons] at hlen
      have hss : FitsI32 ss.length := hbound _ (by omega)
      have hput : (scanning q (ss ++ [c]) tokens).run m line = deliver m tokens (lexFrom kind q (ss ++ [c]) line) := by
        refine ih q (ss ++ [c]) tokens ?_
        rw [List.length_append, List.length_singleton]
        omega
      have hrest : ∀ q tokens, (scanning q [] tokens).run m line = deliver m tokens (lexFrom kind q [] line) :=
        fun q tokens => ih q [] tokens (by rw [List.length_nil]; omega)
      rw [run_cons]
      cases q with
      | true =>
          rw [step_quoted]
          unfold lexFrom
          split
          · exact flush_bind hss tokens .quoted _ (hrest false)
          · rw [ok_bind]
            exact hput
      | false =>
          rw [step_unquoted]
          unfold lexFrom
          cases hk : kind c with
          | plain =>
              rw [ok_bind]
              exact hput
          | skipped =>
              rw [ok_bind]
              exact ih false ss tokens (by omega)
          | separator => exact flush_bind hss tokens .word _ (hrest false)
          | operator =>
              dsimp only
              rw [bind_assoc]
              refine flush_bind hss tokens .word _ fun tokens => ?_
              have hone : FitsI32 ([c] : CStr).length := hbound _ (by rw [List.length_singleton]; omega)
              exact flush_bind (q := false) hone tokens .operator _ (hrest false)
          | quote => exact flush_bind hss tokens .word _ (hrest true)

/-- The characters `int length` counts: all of them, in a line of fewer than 2³¹. -/
def seen (line : CStr) : CStr := line.take (toI32 line.length).toNat

theorem seen_of_lt (h : line.length < 2 ^ 31) : seen line = line := by
  have hfits : toI32 line.length = line.length := toI32_eq_self_iff.mpr ⟨by omega, by exact_mod_cast h⟩
  rw [seen, hfits, Int.toNat_natCast, List.take_length]

theorem length_seen (line : CStr) : (seen line).length < 2 ^ 31 := by
  have h := (fitsI32_toI32 (line.length : Int)).2
  rw [seen, List.length_take]
  omega

/-- **The tokens `tokenize` makes.** -/
theorem tokenize_eq (m : Slack) (line : CStr) : tokenize m line = deliver m [] (lex kind (seen line)) := by
  have hbound : ∀ n : Nat, n < 2 ^ 31 → FitsI32 n := fun n hn => ⟨by omega, by exact_mod_cast hn⟩
  rw [← lexFrom_false_nil]
  exact run_eq m hbound (seen line) false [] [] (by rw [List.length_nil, Nat.zero_add]; exact length_seen line)

theorem deliver_eq_ok {tokens tokens' : List Token} {items : List (Item Byte)} :
    deliver m tokens items = .ok tokens' ↔
      (∀ i ∈ items, m.padded i.text.length = true) ∧ tokens' = tokens ++ items.map Token.ofItem := by
  unfold deliver
  split
  · next h => exact ⟨fun heq => ⟨h, (Except.ok.inj heq).symm⟩, fun heq => by rw [heq.2]⟩
  · next h => exact iff_of_false nofun fun heq => h heq.1

theorem tokenize_eq_ok {tokens : List Token} :
    tokenize m line = .ok tokens ↔
      (∀ i ∈ lex kind (seen line), m.padded i.text.length = true) ∧
        tokens = (lex kind (seen line)).map Token.ofItem := by
  rw [tokenize_eq, deliver_eq_ok, List.nil_append]

/-! ## The tokens of a line -/

/-- What a character of a line is: a space or a newline separates, `&` and `|` are tokens of their own. -/
def lineKind (c : Byte) : Kind :=
  if c = 32 ∨ c = 10 then .separator
  else if c = 38 ∨ c = 124 then .operator
  else if c = 34 then .quote
  else .plain

def lineTokens (line : CStr) : List CStr := (lex lineKind line).map (·.text)

/-- The tokens are those of the line, none is empty, and together they are the line without its quotes and without
    the spaces and newlines outside them. -/
structure IsCut (line : CStr) (tokens : List Token) : Prop where
  texts : tokens.map (·.str) = lineTokens line
  ne_nil : ∀ t ∈ tokens, t.str ≠ []
  flatten : (tokens.map (·.str)).flatten = content lineKind false line

/-- The table has the newline behind the end, and `$` is left out. -/
theorem kind_eq (c : Byte) : kind c = if c = 36 then .skipped else if c = 10 then .plain else lineKind c := by
  have htable : c ∈ delimiters.take delimiterCount ↔ c = 32 ∨ c = 38 ∨ c = 124 := by
    show c ∈ [32, 38, 124] ↔ _
    simp
  unfold kind lineKind
  rw [if_congr htable rfl rfl]
  by_cases h36 : c = 36
  · rw [if_pos h36, if_pos h36]
  · rw [if_neg h36, if_neg h36]
    by_cases h34 : c = 34
    · subst h34
      rfl
    · rw [if_neg h34, if_neg h34]
      by_cases h10 : c = 10
      · subst h10
        rfl
      · by_cases h32 : c = 32
        · subst h32
          rfl
        · simp [h10, h32]

theorem isQuote_lineKind (c : Byte) : isQuote kind c = isQuote lineKind c := by
  rw [isQuote_kind]
  unfold isQuote
  by_cases h34 : c = 34
  · subst h34
    rfl
  · unfold lineKind
    rw [if_neg h34]
    split
    · simp [h34]
    · split <;> simp [h34]

theorem keeps_newline : keeps kind 10 = true ∧ keeps lineKind 10 = false := by decide

theorem texts_ofItem (items : List (Item Byte)) : (items.map Token.ofItem).map (·.str) = items.map (·.text) := by
  rw [List.map_map]
  rfl

theorem seen_seen (line : CStr) : seen (seen line) = seen line := seen_of_lt (length_seen line)

theorem notMem_seen (hc : c ∉ line) : c ∉ seen line := fun h => hc (List.mem_of_mem_take h)

/-- Where no newline stands outside quotes the two tables cut in the same way. -/
theorem lex_eq_of_notMem (hdollar : 36 ∉ line) (hnone : 10 ∉ outside lineKind false line) :
    lex kind line = lex lineKind line := by
  rw [← outside_congr isQuote_lineKind] at hnone
  refine lex_congr (fun c _ => isQuote_lineKind c) fun c hc => ?_
  have h36 : c ≠ 36 := fun h => hdollar (h ▸ mem_of_mem_outside hc)
  have h10 : c ≠ 10 := fun h => hnone (h ▸ hc)
  rw [kind_eq, if_neg h36, if_neg h10]

/-- A newline outside quotes is in some token, so there is a character too many. -/
theorem notMem_of_flatten (hdollar : 36 ∉ line) (hflatten : content kind false line = content lineKind false line) :
    10 ∉ outside lineKind false line := by
  intro hnewline
  have hkept : ∀ c ∈ line, keeps lineKind c = true → keeps kind c = true := by
    intro c hc hk
    have h36 : c ≠ 36 := fun h => hdollar (h ▸ hc)
    unfold keeps
    rw [kind_eq, if_neg h36]
    by_cases h10 : c = 10
    · rw [if_pos h10]
      rfl
    · rw [if_neg h10]
      exact hk
  rw [← outside_congr isQuote_lineKind] at hnewline
  have hback := (length_content isQuote_lineKind hkept).2 (by rw [hflatten]) 10 hnewline keeps_newline.1
  rw [keeps_newline.2] at hback
  cases hback

/-- What it takes for the tokens to be those of the line: `int length` misses none, no newline stands outside quotes,
    and the block of every token has room for the NUL, which `addToQueue` does not ask for. -/
structure Tokenizes (m : Slack) (line : CStr) : Prop where
  counted : lineTokens (seen line) = lineTokens line
  newline : 10 ∉ outside lineKind false (seen line)
  padded : ∀ t ∈ lineTokens line, m.padded t.length = true

theorem isCut_of_tokenizes (hdollar : 36 ∉ line) (h : Tokenizes m line) :
    ∃ tokens, tokenize m line = .ok tokens ∧ IsCut line tokens := by
  have hlex := lex_eq_of_notMem (notMem_seen hdollar) h.newline
  have htexts : ((lex kind (seen line)).map Token.ofItem).map (·.str) = lineTokens line := by
    rw [texts_ofItem, hlex]
    exact h.counted
  refine ⟨_, tokenize_eq_ok.mpr ⟨fun i hi => ?_, rfl⟩, htexts, fun t ht => ?_, ?_⟩
  · apply h.padded
    rw [← h.counted, lineTokens, ← hlex]
    exact List.mem_map_of_mem hi
  · obtain ⟨i, hi, rfl⟩ := List.mem_map.mp ht
    exact ne_nil_of_mem_lex hi
  · rw [htexts, lineTokens, flatten_lex]

theorem tokenizes_of_isCut (hdollar : 36 ∉ line) (hlen : line.length < 2 ^ 31) {tokens : List Token}
    (htokenize : tokenize m line = .ok tokens) (hcut : IsCut line tokens) : Tokenizes m line := by
  have hseen := seen_of_lt hlen
  obtain ⟨hpadded, rfl⟩ := tokenize_eq_ok.mp htokenize
  have htexts := hcut.texts
  have hflatten := hcut.flatten
  rw [texts_ofItem, hseen] at htexts hflatten
  rw [flatten_lex] at hflatten
  refine ⟨congrArg lineTokens hseen, ?_, fun t ht => ?_⟩
  · rw [hseen]
    exact notMem_of_flatten hdollar hflatten
  · rw [← htexts] at ht
    obtain ⟨i, hi, rfl⟩ := List.mem_map.mp ht
    apply hpadded
    rwa [hseen]

/-- **When the tokens are those of the line**: in a line without `$`, when `Tokenizes` says so, and in one that an `int`
    can count exactly then. -/
theorem tokens_iff (hdollar : 36 ∉ line) :
    (Tokenizes m line → ∃ tokens, tokenize m line = .ok tokens ∧ IsCut line tokens) ∧
      (line.length < 2 ^ 31 →
        ((∃ tokens, tokenize m line = .ok tokens ∧ IsCut line tokens) ↔ Tokenizes m line)) := by
  refine ⟨isCut_of_tokenizes hdollar, fun hlen => ⟨?_, isCut_of_tokenizes hdollar⟩⟩
  rintro ⟨tokens, htokenize, hcut⟩
  exact tokenizes_of_isCut hdollar hlen htokenize hcut

/-- Blocks with room to spare, and characters that stay. -/
def benign : Slack where
  padded _ := true
  kept _ := true

theorem tokens_iff_words :
    ∃ tokens, tokenize benign (bytes "cat \"a b\"|more") = .ok tokens ∧
      IsCut (bytes "cat \"a b\"|more") tokens ∧
      tokens.map (·.str) = [bytes "cat", bytes "a b", bytes "|", bytes "more"] := by
  have hdollar : 36 ∉ bytes "cat \"a b\"|more" := by decide
  have hnewline : 10 ∉ outside lineKind false (bytes "cat \"a b\"|more") := by decide
  have hseen := seen_of_lt (by decide : (bytes "cat \"a b\"|more").length < 2 ^ 31)
  have htokenizes : Tokenizes benign (bytes "cat \"a b\"|more") :=
    ⟨congrArg lineTokens hseen, by rw [hseen]; exact hnewline, fun _ _ => rfl⟩
  obtain ⟨tokens, htokenize, hcut⟩ := (tokens_iff hdollar).1 htokenizes
  refine ⟨tokens, htokenize, hcut, ?_⟩
  rw [hcut.texts, lineTokens, ← lexFrom_false_nil]
  decide

/-- The newline at the end of a line is in its last token. -/
theorem newline_kept :
    ¬ ∀ line : CStr, 36 ∉ line → line.length < 2 ^ 31 →
      ∃ tokens, tokenize benign line = .ok tokens ∧ IsCut line tokens := by
  intro hall
  obtain ⟨tokens, htokenize, hcut⟩ := hall (bytes "ls\n") (by decide) (by decide)
  obtain ⟨-, rfl⟩ := tokenize_eq_ok.mp htokenize
  have hflatten := hcut.flatten
  rw [seen_of_lt (by decide), texts_ofItem, flatten_lex] at hflatten
  revert hflatten
  decide

end Dshell
end DistributedPlatform

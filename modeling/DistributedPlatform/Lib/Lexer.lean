import Mathlib.Data.List.TakeWhile

/-!
# `Lib.Lexer` — cutting a text into tokens, with quotes

A text is cut by what each character does outside quotes (`Kind`). `lex` takes one token off after the other;
`lexFrom` goes over the text once, with the characters of the token that is not finished, and is the same
(`lexFrom_eq`).

* `lex_eq`, `lex_append` — a text in parts;
* `flatten_lexFrom` — the characters of the tokens;
* `mem_lex` — what the tokens are;
* `lex_congr`, `lex_recut` — two ways to cut that differ in some characters.
-/

namespace Lexer

/-- What a character does outside quotes. -/
inductive Kind
  | plain
  | skipped
  | separator
  | operator
  | quote
  deriving DecidableEq, Repr

/-- What a token is: a run of plain characters, what stands in quotes, or an operator. -/
inductive Form
  | word
  | quoted
  | operator
  deriving DecidableEq, Repr

structure Item (α : Type*) where
  form : Form
  text : List α
  deriving DecidableEq, Repr

variable {α : Type*} (kind : α → Kind)

/-- The characters a word goes on with. -/
def inWord (c : α) : Bool := kind c == .plain || kind c == .skipped

def isPlain (c : α) : Bool := kind c == .plain

def isQuote (c : α) : Bool := kind c == .quote

/-- A token in front, if there is anything in it. -/
def emit (form : Form) (text : List α) (rest : List (Item α)) : List (Item α) :=
  if text.isEmpty then rest else ⟨form, text⟩ :: rest

/-- The tokens of a text. -/
def lex : List α → List (Item α)
  | [] => []
  | c :: s =>
      match kind c with
      | .separator => lex s
      | .operator => ⟨.operator, [c]⟩ :: lex s
      | .quote => emit .quoted (s.takeWhile (!isQuote kind ·)) (lex ((s.dropWhile (!isQuote kind ·)).drop 1))
      | .plain | .skipped =>
          emit .word (((c :: s).takeWhile (inWord kind)).filter (isPlain kind)) (lex (s.dropWhile (inWord kind)))
termination_by s => s.length
decreasing_by
  all_goals simp only [List.length_cons, List.length_drop]
  · exact Nat.lt_succ_self _
  · exact Nat.lt_succ_self _
  · have h := (List.dropWhile_suffix (l := s) (!isQuote kind ·)).length_le
    omega
  · have h := (List.dropWhile_suffix (l := s) (inWord kind)).length_le
    omega

/-- The tokens of a text of which `buf` was read, inside quotes or not. -/
def lexFrom : (quoted : Bool) → (buf : List α) → List α → List (Item α)
  | quoted, buf, [] => emit (if quoted then .quoted else .word) buf []
  | true, buf, c :: s => if isQuote kind c then emit .quoted buf (lexFrom false [] s) else lexFrom true (buf ++ [c]) s
  | false, buf, c :: s =>
      match kind c with
      | .plain => lexFrom false (buf ++ [c]) s
      | .skipped => lexFrom false buf s
      | .separator => emit .word buf (lexFrom false [] s)
      | .operator => emit .word buf (⟨.operator, [c]⟩ :: lexFrom false [] s)
      | .quote => emit .word buf (lexFrom true [] s)

/-- The characters that stand for themselves. -/
def content : (quoted : Bool) → List α → List α
  | _, [] => []
  | true, c :: s => if isQuote kind c then content false s else c :: content true s
  | false, c :: s =>
      match kind c with
      | .plain | .operator => c :: content false s
      | .skipped | .separator => content false s
      | .quote => content true s

/-- The characters outside quotes. -/
def outside : (quoted : Bool) → List α → List α
  | _, [] => []
  | true, c :: s => if isQuote kind c then outside false s else outside true s
  | false, c :: s => if isQuote kind c then outside true s else c :: outside false s

variable {kind} {s r w : List α} {c : α}

@[simp] theorem emit_nil (form : Form) (rest : List (Item α)) : emit form [] rest = rest := rfl

theorem emit_of_ne_nil (hw : w ≠ []) (form : Form) (rest : List (Item α)) :
    emit form w rest = ⟨form, w⟩ :: rest := by
  unfold emit
  rw [if_neg (by simpa using hw)]

/-! ## A text in parts -/

theorem lex_nil : lex kind [] = [] := by
  unfold lex
  rfl

/-- A text starts with a word, which may be empty. -/
theorem lex_eq (kind : α → Kind) (s : List α) :
    lex kind s =
      emit .word ((s.takeWhile (inWord kind)).filter (isPlain kind)) (lex kind (s.dropWhile (inWord kind))) := by
  cases s with
  | nil => rfl
  | cons c s =>
      by_cases hc : inWord kind c = true
      · rw [List.dropWhile_cons_of_pos hc, lex]
        unfold inWord at hc
        cases hk : kind c <;> simp_all
      · rw [List.takeWhile_cons_of_neg hc, List.dropWhile_cons_of_neg hc]
        rfl

/-- **Once over the text is enough.** -/
theorem lexFrom_eq (kind : α → Kind) (s : List α) :
    (∀ buf, lexFrom kind true buf s = emit .quoted (buf ++ s.takeWhile (!isQuote kind ·))
        (lex kind ((s.dropWhile (!isQuote kind ·)).drop 1))) ∧
      ∀ buf, lexFrom kind false buf s = emit .word (buf ++ (s.takeWhile (inWord kind)).filter (isPlain kind))
        (lex kind (s.dropWhile (inWord kind))) := by
  induction s with
  | nil =>
      constructor
      · intro buf
        simp [lexFrom, lex_nil]
      · intro buf
        simp [lexFrom, lex_nil]
  | cons c s ih =>
      obtain ⟨hquoted, hword⟩ := ih
      have hlex : lexFrom kind false [] s = lex kind s := by
        rw [hword, lex_eq kind s, List.nil_append]
      constructor
      · intro buf
        unfold lexFrom
        by_cases hc : isQuote kind c = true
        · rw [if_pos hc, hlex]
          simp [hc]
        · rw [if_neg hc, hquoted]
          simp [hc]
      · intro buf
        unfold lexFrom
        cases hk : kind c with
        | plain =>
            dsimp only
            rw [hword]
            simp [inWord, isPlain, hk]
        | skipped =>
            dsimp only
            rw [hword]
            simp [inWord, isPlain, hk]
        | separator =>
            dsimp only
            rw [hlex]
            simp [inWord, hk, lex]
        | operator =>
            dsimp only
            rw [hlex]
            simp [inWord, hk, lex]
        | quote =>
            dsimp only
            rw [hquoted]
            simp [inWord, hk, lex]

theorem lexFrom_false_nil (kind : α → Kind) (s : List α) : lexFrom kind false [] s = lex kind s := by
  rw [(lexFrom_eq kind s).2, lex_eq kind s, List.nil_append]

theorem emit_append (form : Form) (w : List α) (rest : List (Item α)) :
    emit form w rest = emit form w [] ++ rest := by
  unfold emit
  split <;> rfl

/-- A text without quotes, and another that does not go on with its last word. -/
theorem lexFrom_append (hs : ∀ c ∈ s, isQuote kind c = false) (hr : ∀ c, r.head? = some c → inWord kind c = false)
    (buf : List α) : lexFrom kind false buf (s ++ r) = lexFrom kind false buf s ++ lex kind r := by
  rw [← lexFrom_false_nil]
  induction s generalizing buf with
  | nil =>
      cases r with
      | nil => simp [lexFrom]
      | cons c r =>
          have hc := hr c rfl
          unfold inWord at hc
          cases hk : kind c with
          | plain => simp [hk] at hc
          | skipped => simp [hk] at hc
          | separator => simpa [lexFrom, hk] using emit_append _ _ _
          | operator => simpa [lexFrom, hk] using emit_append _ _ _
          | quote => simpa [lexFrom, hk] using emit_append _ _ _
  | cons c s ih =>
      have hc := hs c List.mem_cons_self
      have ih := ih fun d hd => hs d (List.mem_cons_of_mem c hd)
      rw [List.cons_append]
      cases hk : kind c with
      | plain => simp only [lexFrom, hk, ih]
      | skipped => simp only [lexFrom, hk, ih]
      | separator =>
          simp only [lexFrom, hk, ih]
          rw [emit_append, emit_append _ _ (lexFrom kind false [] s), List.append_assoc]
      | operator =>
          simp only [lexFrom, hk, ih]
          rw [emit_append, emit_append _ _ (_ :: lexFrom kind false [] s), List.append_assoc, List.cons_append]
      | quote => simp [isQuote, hk] at hc

theorem lex_append (hs : ∀ c ∈ s, isQuote kind c = false) (hr : ∀ c, r.head? = some c → inWord kind c = false) :
    lex kind (s ++ r) = lex kind s ++ lex kind r := by
  rw [← lexFrom_false_nil, lexFrom_append hs hr, lexFrom_false_nil]

theorem lex_separator (hc : kind c = .separator) (s : List α) : lex kind (c :: s) = lex kind s := by
  rw [lex, hc]

/-- Plain characters are one word. -/
theorem lex_plain (hw : w ≠ []) (hplain : ∀ c ∈ w, kind c = .plain) : lex kind w = [⟨.word, w⟩] := by
  have htake : w.takeWhile (inWord kind) = w := by
    rw [List.takeWhile_eq_self_iff]
    intro c hc
    simp [inWord, hplain c hc]
  have hdrop : w.dropWhile (inWord kind) = [] := by
    rw [List.dropWhile_eq_nil_iff]
    intro c hc
    simp [inWord, hplain c hc]
  have hfilter : w.filter (isPlain kind) = w := by
    rw [List.filter_eq_self]
    intro c hc
    simp [isPlain, hplain c hc]
  rw [lex_eq, htake, hdrop, hfilter, lex_nil, emit_of_ne_nil hw]

/-! ## The characters of the tokens -/

theorem mem_emit {form : Form} {rest : List (Item α)} {i : Item α} (hi : i ∈ emit form w rest) :
    (i = ⟨form, w⟩ ∧ w ≠ []) ∨ i ∈ rest := by
  by_cases hw : w = []
  · rw [hw, emit_nil] at hi
    exact Or.inr hi
  · rw [emit_of_ne_nil hw] at hi
    rcases List.mem_cons.mp hi with h | h
    · exact Or.inl ⟨h, hw⟩
    · exact Or.inr h

/-- What the tokens are made of. -/
def Item.Made (kind : α → Kind) (i : Item α) : Prop :=
  match i.form with
  | .word => ∀ c ∈ i.text, kind c = .plain
  | .operator => ∃ c, i.text = [c] ∧ kind c = .operator
  | .quoted => True

/-- A token as it should be; one in quotes only if `opened`. -/
structure Item.Sound (kind : α → Kind) (opened : Prop) (i : Item α) : Prop where
  made : i.Made kind
  ne_nil : i.text ≠ []
  quoted : i.form = .quoted → opened

theorem Item.Sound.mono {p p' : Prop} {i : Item α} (h : i.Sound kind p) (hp : p → p') : i.Sound kind p' :=
  ⟨h.made, h.ne_nil, fun hform => hp (h.quoted hform)⟩

theorem sound_word {p : Prop} {w : List α} (hmade : ∀ c ∈ w, kind c = .plain) (hw : w ≠ []) :
    Item.Sound kind p ⟨.word, w⟩ := ⟨hmade, hw, nofun⟩

theorem sound_quoted {p : Prop} {w : List α} (hw : w ≠ []) (hp : p) : Item.Sound kind p ⟨.quoted, w⟩ :=
  ⟨trivial, hw, fun _ => hp⟩

/-- **Each token** is made of what was read, is not empty, and is quoted only behind a quote. -/
theorem mem_lexFrom {q : Bool} {buf : List α} (hbuf : q = false → ∀ c ∈ buf, kind c = .plain) {i : Item α}
    (hi : i ∈ lexFrom kind q buf s) : i.Sound kind (q = true ∨ ∃ c ∈ s, isQuote kind c = true) := by
  induction s generalizing q buf with
  | nil =>
      unfold lexFrom at hi
      rcases mem_emit hi with ⟨rfl, hw⟩ | hi
      · cases q with
        | true => exact sound_quoted hw (Or.inl rfl)
        | false => exact sound_word (hbuf rfl) hw
      · exact absurd hi List.not_mem_nil
  | cons c s ih =>
      have hbehind : (∃ d ∈ s, isQuote kind d = true) → ∃ d ∈ c :: s, isQuote kind d = true := by
        rintro ⟨d, hd, hquote⟩
        exact ⟨d, List.mem_cons_of_mem c hd, hquote⟩
      have hnil : ∀ {p : Prop}, i ∈ lexFrom kind false [] s →
          i.Sound kind (p ∨ ∃ d ∈ c :: s, isQuote kind d = true) := fun hi =>
        (ih (fun _ _ h => absurd h List.not_mem_nil) hi).mono fun h => Or.inr (hbehind (h.resolve_left nofun))
      cases q with
      | true =>
          unfold lexFrom at hi
          split at hi
          · rcases mem_emit hi with ⟨rfl, hw⟩ | hi
            · exact sound_quoted hw (Or.inl rfl)
            · exact hnil hi
          · exact (ih (q := true) nofun hi).mono fun _ => Or.inl rfl
      | false =>
          have hbuf := hbuf rfl
          unfold lexFrom at hi
          cases hk : kind c with
          | plain =>
              rw [hk] at hi
              have hplain : ∀ d ∈ buf ++ [c], kind d = .plain := by
                intro d hd
                rcases List.mem_append.mp hd with hd | hd
                · exact hbuf d hd
                · rw [List.mem_singleton.mp hd, hk]
              exact (ih (fun _ => hplain) hi).mono (Or.imp_right hbehind)
          | skipped =>
              rw [hk] at hi
              exact (ih (fun _ => hbuf) hi).mono (Or.imp_right hbehind)
          | separator =>
              rw [hk] at hi
              rcases mem_emit hi with ⟨rfl, hw⟩ | hi
              · exact sound_word hbuf hw
              · exact hnil hi
          | operator =>
              rw [hk] at hi
              rcases mem_emit hi with ⟨rfl, hw⟩ | hi
              · exact sound_word hbuf hw
              · rcases List.mem_cons.mp hi with rfl | hi
                · exact ⟨⟨c, rfl, hk⟩, List.cons_ne_nil _ _, nofun⟩
                · exact hnil hi
          | quote =>
              rw [hk] at hi
              rcases mem_emit hi with ⟨rfl, hw⟩ | hi
              · exact sound_word hbuf hw
              · have hquote : isQuote kind c = true := by
                  rw [isQuote, hk]
                  rfl
                exact (ih (q := true) nofun hi).mono fun _ => Or.inr ⟨c, List.mem_cons_self, hquote⟩

theorem mem_lex {i : Item α} (hi : i ∈ lex kind s) : i.Sound kind (∃ c ∈ s, isQuote kind c = true) := by
  rw [← lexFrom_false_nil] at hi
  exact (mem_lexFrom (fun _ _ h => absurd h List.not_mem_nil) hi).mono fun h => h.resolve_left Bool.false_ne_true

theorem made_of_mem_lex {i : Item α} (hi : i ∈ lex kind s) : i.Made kind := (mem_lex hi).made

/-- No token is empty. -/
theorem ne_nil_of_mem_lex {i : Item α} (hi : i ∈ lex kind s) : i.text ≠ [] := (mem_lex hi).ne_nil

/-- Without quotes nothing is quoted. -/
theorem form_ne_quoted (hs : ∀ c ∈ s, isQuote kind c = false) {i : Item α} (hi : i ∈ lex kind s) :
    i.form ≠ .quoted := by
  intro hform
  obtain ⟨c, hc, hquote⟩ := (mem_lex hi).quoted hform
  rw [hs c hc] at hquote
  cases hquote

theorem flatten_emit (form : Form) (w : List α) (rest : List (Item α)) :
    ((emit form w rest).map (·.text)).flatten = w ++ (rest.map (·.text)).flatten := by
  by_cases hw : w = []
  · rw [hw, emit_nil, List.nil_append]
  · rw [emit_of_ne_nil hw, List.map_cons, List.flatten_cons]

/-- **The tokens, one behind the other, are the characters that stand for themselves.** -/
theorem flatten_lexFrom (kind : α → Kind) (q : Bool) (buf s : List α) :
    ((lexFrom kind q buf s).map (·.text)).flatten = buf ++ content kind q s := by
  induction s generalizing q buf with
  | nil =>
      unfold lexFrom content
      rw [flatten_emit]
      rfl
  | cons c s ih =>
      cases q with
      | true =>
          unfold lexFrom content
          split
          · rw [flatten_emit, ih, List.nil_append]
          · rw [ih, List.append_assoc, List.singleton_append]
      | false =>
          unfold lexFrom content
          cases kind c with
          | plain => exact (ih _ _).trans (List.append_assoc _ _ _)
          | skipped => exact ih _ _
          | separator => exact (flatten_emit _ _ _).trans (by rw [ih, List.nil_append])
          | operator =>
              refine (flatten_emit _ _ _).trans ?_
              rw [List.map_cons, List.flatten_cons, ih, List.nil_append, List.singleton_append]
          | quote => exact (flatten_emit _ _ _).trans (by rw [ih, List.nil_append])

theorem flatten_lex (kind : α → Kind) (s : List α) : ((lex kind s).map (·.text)).flatten = content kind false s := by
  rw [← lexFrom_false_nil, flatten_lexFrom, List.nil_append]

theorem lex_eq_nil_iff : lex kind s = [] ↔ content kind false s = [] := by
  rw [← flatten_lex]
  constructor
  · intro h
    rw [h]
    rfl
  · intro h
    rw [List.eq_nil_iff_forall_not_mem]
    intro i hi
    exact ne_nil_of_mem_lex hi (List.flatten_eq_nil_iff.mp h _ (List.mem_map_of_mem hi))

/-- The characters that are in a token when they stand outside quotes. -/
def keeps (kind : α → Kind) (c : α) : Bool := kind c == .plain || kind c == .operator

theorem content_false_cons (kind : α → Kind) (c : α) (s : List α) :
    content kind false (c :: s) =
      if isQuote kind c then content kind true s
      else if keeps kind c then c :: content kind false s else content kind false s := by
  rw [content]
  unfold isQuote keeps
  cases kind c <;> rfl

/-- Without quotes these are the characters kept. -/
theorem content_eq_filter (hs : ∀ c ∈ s, isQuote kind c = false) : content kind false s = s.filter (keeps kind) := by
  induction s with
  | nil => rfl
  | cons c s ih =>
      have hc := hs c List.mem_cons_self
      rw [content_false_cons, if_neg (by rw [hc]; exact Bool.false_ne_true), List.filter_cons,
        ih fun d hd => hs d (List.mem_cons_of_mem c hd)]

/-! ## Two ways to cut a text -/

section Two

variable {kind' : α → Kind} {q : Bool}

theorem outside_congr (hquote : ∀ c, isQuote kind c = isQuote kind' c) (q : Bool) (s : List α) :
    outside kind q s = outside kind' q s := by
  induction s generalizing q with
  | nil => rfl
  | cons c s ih => cases q <;> simp only [outside, hquote, ih]

theorem mem_of_mem_outside (h : c ∈ outside kind q s) : c ∈ s := by
  induction s generalizing q with
  | nil => exact h
  | cons d s ih =>
      cases q with
      | true =>
          unfold outside at h
          split at h <;> exact List.mem_cons_of_mem d (ih h)
      | false =>
          unfold outside at h
          split at h
          · exact List.mem_cons_of_mem d (ih h)
          · rcases List.mem_cons.mp h with rfl | h
            · exact List.mem_cons_self
            · exact List.mem_cons_of_mem d (ih h)

/-- Where the characters outside quotes are taken in the same way, the tokens are the same. -/
theorem lexFrom_congr (hquote : ∀ c ∈ s, isQuote kind c = isQuote kind' c)
    (h : ∀ c ∈ outside kind q s, kind c = kind' c) (buf : List α) :
    lexFrom kind q buf s = lexFrom kind' q buf s := by
  induction s generalizing q buf with
  | nil => rfl
  | cons c s ih =>
      have hhead := hquote c List.mem_cons_self
      have ih := fun q h => ih (q := q) (fun d hd => hquote d (List.mem_cons_of_mem c hd)) h
      cases q with
      | true =>
          unfold lexFrom
          unfold outside at h
          rw [← hhead]
          split
          · next hc =>
              rw [if_pos hc] at h
              rw [ih false h]
          · next hc =>
              rw [if_neg hc] at h
              rw [ih true h]
      | false =>
          unfold lexFrom
          unfold outside at h
          by_cases hc : isQuote kind c = true
          · rw [if_pos hc] at h
            have hk : kind c = .quote := by simpa [isQuote] using hc
            have hk' : kind' c = .quote := by
              rw [hhead] at hc
              simpa [isQuote] using hc
            rw [hk, hk']
            dsimp only
            rw [ih true h]
          · rw [if_neg hc] at h
            have hrest : ∀ buf, lexFrom kind false buf s = lexFrom kind' false buf s :=
              ih false fun d hd => h d (List.mem_cons_of_mem c hd)
            rw [← h c List.mem_cons_self]
            cases hk : kind c with
            | quote => simp [isQuote, hk] at hc
            | _ => simp only [hrest]

theorem lex_congr (hquote : ∀ c ∈ s, isQuote kind c = isQuote kind' c)
    (h : ∀ c ∈ outside kind false s, kind c = kind' c) : lex kind s = lex kind' s := by
  rw [← lexFrom_false_nil, ← lexFrom_false_nil, lexFrom_congr hquote h]

/-- … as they are where every character is. -/
theorem lex_congr_of_forall (h : ∀ c ∈ s, kind c = kind' c) : lex kind s = lex kind' s := by
  refine lex_congr (fun c hc => ?_) fun c hc => h c (mem_of_mem_outside hc)
  unfold isQuote
  rw [h c hc]

/-- What becomes of a token when words are cut further. -/
def recut (kind' : α → Kind) (i : Item α) : List (Item α) :=
  match i.form with
  | .word => lex kind' i.text
  | .quoted | .operator => [i]

theorem flatMap_emit_quoted (w : List α) (rest : List (Item α)) :
    (emit .quoted w rest).flatMap (recut kind') = emit .quoted w (rest.flatMap (recut kind')) := by
  by_cases hw : w = []
  · rw [hw, emit_nil, emit_nil]
  · rw [emit_of_ne_nil hw, emit_of_ne_nil hw, List.flatMap_cons]
    rfl

/-- A text as its first word, which may be empty, and what follows; `kind'` cuts there too. -/
theorem lex_eq_append (hquote : ∀ c, isQuote kind c = isQuote kind' c)
    (h : ∀ c ∈ s, kind c ≠ .skipped ∧ (kind c ≠ .plain → kind' c = kind c)) :
    lex kind s = emit .word (s.takeWhile (inWord kind)) (lex kind (s.dropWhile (inWord kind))) ∧
      lex kind' s = lex kind' (s.takeWhile (inWord kind)) ++ lex kind' (s.dropWhile (inWord kind)) := by
  have hsplit : s.takeWhile (inWord kind) ++ s.dropWhile (inWord kind) = s := List.takeWhile_append_dropWhile
  have hplain : ∀ c ∈ s.takeWhile (inWord kind), kind c = .plain := by
    intro c hc
    have hs : c ∈ s := hsplit ▸ List.mem_append_left _ hc
    have hword := List.mem_takeWhile_imp hc
    unfold inWord at hword
    rcases Bool.or_eq_true_iff.mp hword with hk | hk
    · exact beq_iff_eq.mp hk
    · exact absurd (beq_iff_eq.mp hk) (h c hs).1
  constructor
  · have hfilter : (s.takeWhile (inWord kind)).filter (isPlain kind) = s.takeWhile (inWord kind) := by
      rw [List.filter_eq_self]
      intro c hc
      simp [isPlain, hplain c hc]
    rw [← hfilter]
    exact lex_eq kind s
  · rw [← lex_append, hsplit]
    · intro c hc
      rw [← hquote, isQuote, hplain c hc]
      rfl
    · intro c hc
      have hs : c ∈ s := hsplit ▸ List.mem_append_right _ (List.mem_of_mem_head? hc)
      have hword := List.head?_dropWhile_not (inWord kind) s
      rw [hc] at hword
      have hnot : inWord kind c = false := by simpa using hword
      have hne : kind c ≠ .plain := fun hk => by simp [inWord, hk] at hnot
      unfold inWord at hnot ⊢
      rw [(h c hs).2 hne]
      exact hnot

/-- **Where only plain characters are taken in another way**, the words are cut and nothing else. -/
theorem lex_recut (hquote : ∀ c, isQuote kind c = isQuote kind' c)
    (h : ∀ c ∈ s, kind c ≠ .skipped ∧ (kind c ≠ .plain → kind' c = kind c)) :
    lex kind' s = (lex kind s).flatMap (recut kind') := by
  induction hn : s.length using Nat.strong_induction_on generalizing s with
  | _ n ih =>
      subst hn
      have ih : ∀ r : List α, r <:+ s → r.length < s.length → lex kind' r = (lex kind r).flatMap (recut kind') :=
        fun r hr hlt => ih r.length hlt (fun c hc => h c (hr.mem hc)) rfl
      by_cases hw : s.takeWhile (inWord kind) = []
      · cases s with
        | nil => rw [lex_nil, lex_nil, List.flatMap_nil]
        | cons c s =>
            have hne : kind c ≠ .plain := by
              intro hk
              rw [List.takeWhile_cons_of_pos (by simp [inWord, hk])] at hw
              cases hw
            have hrest := ih s (List.suffix_cons c s) (Nat.lt_succ_self _)
            have hk' := (h c List.mem_cons_self).2 hne
            cases hk : kind c with
            | plain => exact absurd hk hne
            | skipped => exact absurd hk (h c List.mem_cons_self).1
            | separator => rw [lex_separator (hk'.trans hk), lex_separator hk, hrest]
            | operator =>
                rw [lex, hk'.trans hk, lex, hk]
                dsimp only
                rw [hrest, List.flatMap_cons]
                rfl
            | quote =>
                have hsuffix : (s.dropWhile (!isQuote kind ·)).drop 1 <:+ s :=
                  (List.drop_suffix _ _).trans (List.dropWhile_suffix _)
                rw [lex, hk'.trans hk, lex, hk]
                dsimp only
                simp only [← hquote]
                rw [flatMap_emit_quoted,
                  ih _ (hsuffix.trans (List.suffix_cons c s)) (Nat.lt_succ_of_le hsuffix.length_le)]
      · obtain ⟨hlex, hlex'⟩ := lex_eq_append hquote h
        have hlength := congrArg List.length (List.takeWhile_append_dropWhile (p := inWord kind) (l := s))
        have hpos := List.length_pos_iff.mpr hw
        rw [List.length_append] at hlength
        rw [hlex, hlex', emit_of_ne_nil hw, List.flatMap_cons, ih _ (List.dropWhile_suffix _) (by omega)]
        rfl

/-- With fewer characters kept the tokens have fewer characters, if one of these stands outside quotes. -/
theorem length_content (hquote : ∀ c, isQuote kind c = isQuote kind' c)
    (hkeep : ∀ c ∈ s, keeps kind' c = true → keeps kind c = true) :
    (content kind' q s).length ≤ (content kind q s).length ∧
      ((content kind' q s).length = (content kind q s).length →
        ∀ c ∈ outside kind q s, keeps kind c = true → keeps kind' c = true) := by
  induction s generalizing q with
  | nil => exact ⟨le_refl _, fun _ _ hc => absurd hc List.not_mem_nil⟩
  | cons c s ih =>
      have ih := fun q => ih (q := q) fun d hd => hkeep d (List.mem_cons_of_mem c hd)
      cases q with
      | true =>
          unfold content outside
          rw [← hquote]
          split
          · exact ih false
          · rw [List.length_cons, List.length_cons]
            exact ⟨Nat.succ_le_succ (ih true).1, fun h => (ih true).2 (Nat.succ_injective h)⟩
      | false =>
          rw [content_false_cons, content_false_cons, ← hquote]
          unfold outside
          split
          · exact ih true
          · obtain ⟨hle, heq⟩ := ih false
            by_cases hc' : keeps kind' c = true
            · rw [if_pos hc', if_pos (hkeep c List.mem_cons_self hc'), List.length_cons, List.length_cons]
              refine ⟨Nat.succ_le_succ hle, fun h d hd hk => ?_⟩
              rcases List.mem_cons.mp hd with rfl | hd
              · exact hc'
              · exact heq (Nat.succ_injective h) d hd hk
            · rw [if_neg hc']
              by_cases hc : keeps kind c = true
              · rw [if_pos hc, List.length_cons]
                exact ⟨Nat.le_succ_of_le hle, fun h => absurd hle (by omega)⟩
              · rw [if_neg hc]
                refine ⟨hle, fun h d hd hk => ?_⟩
                rcases List.mem_cons.mp hd with rfl | hd
                · exact absurd hk hc
                · exact heq h d hd hk

end Two

/-! ## Groups of tokens -/

section Groups

variable {β γ : Type*} {p : β → Bool}

/-- Cutting loses what is cut at. -/
theorem flatten_splitOnP (p : β → Bool) (l : List β) : (l.splitOnP p).flatten = l.filter (!p ·) := by
  induction l with
  | nil => rfl
  | cons b l ih =>
      rw [List.splitOnP_cons_eq_if_modifyHead]
      obtain ⟨g, gs, hgs⟩ := List.exists_cons_of_ne_nil (List.splitOnP_ne_nil p l)
      rw [hgs] at ih ⊢
      by_cases hb : p b = true
      · rw [if_pos hb, List.filter_cons_of_neg (by simpa using hb), ← ih]
        rfl
      · rw [if_neg hb, List.filter_cons_of_pos (by simpa using hb), ← ih]
        rfl

theorem splitOnP_append {l : List β} (hl : ∀ b ∈ l, p b = false) (r : List β) :
    (l ++ r).splitOnP p = (r.splitOnP p).modifyHead (l ++ ·) := by
  obtain ⟨g, gs, hgs⟩ := List.exists_cons_of_ne_nil (List.splitOnP_ne_nil p r)
  induction l with
  | nil =>
      rw [List.nil_append, hgs]
      rfl
  | cons b l ih =>
      have hb := hl b List.mem_cons_self
      rw [List.cons_append, List.splitOnP_cons_eq_if_modifyHead, if_neg (by rw [hb]; exact Bool.false_ne_true),
        ih fun d hd => hl d (List.mem_cons_of_mem b hd), hgs]
      rfl

/-- Replacing each element that is not cut at by some others changes the groups in the same way. -/
theorem splitOnP_flatMap {q : γ → Bool} {f : β → List γ} {l : List β}
    (hcut : ∀ b ∈ l, p b = true → ∃ c, f b = [c] ∧ q c = true)
    (hkeep : ∀ b ∈ l, p b = false → ∀ c ∈ f b, q c = false) :
    (l.flatMap f).splitOnP q = (l.splitOnP p).map (·.flatMap f) := by
  induction l with
  | nil => rfl
  | cons b l ih =>
      have ih := ih (fun d hd => hcut d (List.mem_cons_of_mem b hd)) fun d hd => hkeep d (List.mem_cons_of_mem b hd)
      obtain ⟨g, gs, hgs⟩ := List.exists_cons_of_ne_nil (List.splitOnP_ne_nil p l)
      rw [List.flatMap_cons, List.splitOnP_cons_eq_if_modifyHead, hgs]
      rw [hgs] at ih
      cases hb : p b with
      | true =>
          obtain ⟨c, hc, hqc⟩ := hcut b List.mem_cons_self hb
          rw [hc, List.singleton_append, List.splitOnP_cons_eq_if_modifyHead, if_pos hqc, if_pos rfl, ih]
          rfl
      | false =>
          rw [splitOnP_append (hkeep b List.mem_cons_self hb), ih, if_neg Bool.false_ne_true]
          rfl

end Groups

end Lexer

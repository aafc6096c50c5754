import DistributedPlatform.Lib.Words

/-!
# `Lib.Spelling` — one spelling for each list of components

A string that begins with a separator, or does not, and cuts at the separators into certain components can be
spelled in many ways; `spell` is the shortest. `tidy` takes a string to it: runs of separators are made one
(`squeeze`), and one at the end goes unless it is all there is.

* `tidy_eq_spell` — the tidy form is the spelling of the components;
* `tidy_eq_tidy_iff` — two strings have one tidy form exactly when both are rooted or neither is and they have
  the same components;
* `tidy_tidy`, `length_tidy_le`, `tidy_no_adjacent`, `getLast?_tidy` — what a tidy form looks like;
* `components_drop_spell_iff` — where a spelling can be cut.
-/

namespace Spelling

open Lexical Words

variable {α : Type*} {sep : α} {s t : List α}

/-! ## Spelling -/

/-- The components with one separator between any two, and one in front if rooted. -/
def spell (sep : α) (rooted : Bool) (cs : List (List α)) : List α :=
  (if rooted then [sep] else []) ++ [sep].intercalate cs

theorem intercalate_ne_nil {cs : List (List α)} (h : ∀ c ∈ cs, IsWord sep c) (hne : cs ≠ []) :
    [sep].intercalate cs ≠ [] := by
  obtain ⟨c, cs, rfl⟩ := List.exists_cons_of_ne_nil hne
  obtain ⟨a, c, rfl⟩ := List.exists_cons_of_ne_nil (h c List.mem_cons_self).ne_nil
  rw [List.intercalate_cons_cons_left]
  exact List.cons_ne_nil _ _

/-- Without a separator in front the spelling begins with a component. -/
theorem head?_intercalate {cs : List (List α)} (h : ∀ c ∈ cs, IsWord sep c) :
    ([sep].intercalate cs).head? ≠ some sep := by
  cases cs with
  | nil => nofun
  | cons c cs =>
      have hw := h c List.mem_cons_self
      obtain ⟨a, c, rfl⟩ := List.exists_cons_of_ne_nil hw.ne_nil
      rw [List.intercalate_cons_cons_left, List.head?_cons]
      exact fun heq => hw.notMem (by rw [Option.some.inj heq]; exact List.mem_cons_self)

/-- The spelling is rooted if it was to be. -/
theorem head?_spell {cs : List (List α)} (h : ∀ c ∈ cs, IsWord sep c) (rooted : Bool) :
    (spell sep rooted cs).head? = some sep ↔ rooted = true := by
  cases rooted with
  | false => exact iff_of_false (head?_intercalate h) nofun
  | true => exact iff_of_true rfl rfl

/-- What stands between the spellings of two lists in that of both. -/
theorem intercalate_append (ds es : List (List α)) :
    [sep].intercalate (ds ++ es) =
      [sep].intercalate ds ++ ((if ds = [] ∨ es = [] then [] else [sep]) ++ [sep].intercalate es) := by
  induction ds with
  | nil => rw [if_pos (Or.inl rfl)]; rfl
  | cons d ds ih =>
      by_cases hes : es = []
      · subst hes
        rw [if_pos (Or.inr rfl), List.append_nil, List.intercalate_nil, List.append_nil, List.append_nil]
      · rw [if_neg (by simp [hes])]
        by_cases hds : ds = []
        · subst hds
          rw [List.singleton_append, List.intercalate_cons_of_ne_nil hes, List.intercalate_singleton,
            List.append_assoc]
        · rw [if_neg (by simp [hes, hds])] at ih
          rw [List.cons_append, List.intercalate_cons_of_ne_nil (by simp [hes]), ih,
            List.intercalate_cons_of_ne_nil hds]
          simp only [List.append_assoc]

theorem spell_append (ds es : List (List α)) :
    spell sep true (ds ++ es) =
      spell sep true ds ++ ((if ds = [] ∨ es = [] then [] else [sep]) ++ [sep].intercalate es) := by
  unfold spell
  rw [intercalate_append, List.append_assoc]

/-- A shorter list has a shorter spelling, … -/
theorem length_spell_le {ds cs : List (List α)} (h : ds <+: cs) :
    (spell sep true ds).length ≤ (spell sep true cs).length := by
  obtain ⟨es, rfl⟩ := h
  rw [spell_append, List.length_append]
  exact Nat.le_add_right _ _

/-- … by a separator and a component at least. -/
theorem length_spell_lt {ds cs : List (List α)} (hcs : ∀ c ∈ cs, IsWord sep c) (h : ds <+: cs) (hne : ds ≠ [])
    (hlt : ds ≠ cs) : (spell sep true ds).length + 2 ≤ (spell sep true cs).length := by
  obtain ⟨es, rfl⟩ := h
  have hes : es ≠ [] := fun h => hlt (by rw [h, List.append_nil])
  have hpos := List.length_pos_iff.mpr (intercalate_ne_nil (fun c hc => hcs c (List.mem_append_right _ hc)) hes)
  rw [spell_append, if_neg (by simp [hne, hes])]
  simp only [List.length_append, List.length_singleton]
  omega

variable [DecidableEq α]

/-! ## The components of a string, from its first item on -/

theorem notMem_of_mem_splitOn {c : List α} : ∀ {s : List α}, c ∈ s.splitOn sep → sep ∉ c := by
  intro s
  induction s generalizing c with
  | nil => intro h; simp at h; simp [h]
  | cons a s ih =>
      rw [List.splitOn_cons_eq_if_modifyHead]
      obtain ⟨x, xs, hx⟩ := List.exists_cons_of_ne_nil (List.splitOn_ne_nil sep s)
      rw [hx] at ih ⊢
      by_cases ha : a = sep
      · intro h
        rw [if_pos (beq_iff_eq.mpr ha)] at h
        rcases List.mem_cons.mp h with rfl | h
        · exact List.not_mem_nil
        · exact ih h
      · intro h
        rw [if_neg (by simpa using ha), List.modifyHead_cons] at h
        rcases List.mem_cons.mp h with rfl | h
        · exact List.not_mem_cons_of_ne_of_not_mem (Ne.symm ha) (ih List.mem_cons_self)
        · exact ih (List.mem_cons_of_mem _ h)

theorem isWord_of_mem {c : List α} (h : c ∈ components sep s) : IsWord sep c := by
  obtain ⟨hmem, hne⟩ := List.mem_filter.mp h
  exact ⟨by simpa using hne, notMem_of_mem_splitOn hmem⟩

theorem components_singleton {a : α} (ha : a ≠ sep) : components sep [a] = [[a]] :=
  components_word ⟨List.cons_ne_nil _ _, by simpa using ha.symm⟩

/-- An item before a separator is a component of its own. -/
theorem components_cons_cons_sep {a : α} (ha : a ≠ sep) (s : List α) :
    components sep (a :: sep :: s) = [a] :: components sep s := by
  have h := components_append sep [a] s
  rwa [components_singleton ha] at h

/-- An item before another belongs to its component. -/
theorem components_cons_cons {a b : α} (ha : a ≠ sep) (hb : b ≠ sep) (s : List α) :
    ∃ c cs, components sep (b :: s) = (b :: c) :: cs ∧ components sep (a :: b :: s) = (a :: b :: c) :: cs := by
  obtain ⟨x, xs, hx⟩ := List.exists_cons_of_ne_nil (List.splitOn_ne_nil sep s)
  have hbs : (b :: s).splitOn sep = (b :: x) :: xs := by
    rw [List.splitOn_cons_eq_if_modifyHead, if_neg (by simpa using hb), hx, List.modifyHead_cons]
  have habs : (a :: b :: s).splitOn sep = (a :: b :: x) :: xs := by
    rw [List.splitOn_cons_eq_if_modifyHead, if_neg (by simpa using ha), hbs, List.modifyHead_cons]
  exact ⟨x, xs.filter fun c => !c.isEmpty, by rw [components, hbs]; rfl, by rw [components, habs]; rfl⟩

/-- Together the components are the items other than the separator. -/
theorem flatten_components (sep : α) (s : List α) : (components sep s).flatten = s.filter (· ≠ sep) := by
  have hfilter : ∀ xs : List (List α), (xs.filter fun c => !c.isEmpty).flatten = xs.flatten := by
    intro xs
    induction xs with
    | nil => rfl
    | cons x xs ih => cases x <;> simp [ih]
  unfold components
  rw [hfilter]
  induction s with
  | nil => rfl
  | cons a s ih =>
      rw [List.splitOn_cons_eq_if_modifyHead]
      obtain ⟨x, xs, hx⟩ := List.exists_cons_of_ne_nil (List.splitOn_ne_nil sep s)
      rw [hx] at ih ⊢
      by_cases ha : a = sep
      · rw [if_pos (beq_iff_eq.mpr ha), List.filter_cons_of_neg (by simpa using ha), ← ih]
        rfl
      · rw [if_neg (by simpa using ha), List.filter_cons_of_pos (by simpa using ha), ← ih]
        rfl

theorem eq_of_filter_nil (h : s.filter (· ≠ sep) = []) : ∀ a ∈ s, a = sep := by
  simpa [List.filter_eq_nil_iff] using h

/-- A string without components consists of separators. -/
theorem eq_of_components_nil (h : components sep s = []) : ∀ a ∈ s, a = sep := by
  have hflat := flatten_components sep s
  rw [h] at hflat
  exact eq_of_filter_nil hflat.symm

theorem getLast?_of_components_nil (h : components sep s = []) (hne : s ≠ []) : s.getLast? = some sep := by
  rw [List.getLast?_eq_some_getLast hne, eq_of_components_nil h _ (List.getLast_mem hne)]

/-! ## The components of a spelling -/

theorem components_intercalate {cs : List (List α)} :
    (∀ c ∈ cs, IsWord sep c) → components sep ([sep].intercalate cs) = cs := by
  induction cs with
  | nil => intro _; rfl
  | cons c cs ih =>
      intro h
      have hw := h c List.mem_cons_self
      have hrest := ih fun c hc => h c (List.mem_cons_of_mem _ hc)
      by_cases hnil : cs = []
      · rw [hnil, List.intercalate_singleton, components_word hw]
      · rw [List.intercalate_cons_of_ne_nil hnil, List.append_assoc, List.singleton_append, components_append,
          components_word hw, hrest]
        rfl

/-- **The spelling has the components it was made of.** -/
theorem components_spell {cs : List (List α)} (h : ∀ c ∈ cs, IsWord sep c) (rooted : Bool) :
    components sep (spell sep rooted cs) = cs := by
  cases rooted with
  | false => exact components_intercalate h
  | true => exact (components_cons_sep sep _).trans (components_intercalate h)

/-! ## Squeezing -/

/-- Runs of separators made one. -/
def squeeze (sep : α) : List α → List α
  | [] => []
  | [a] => [a]
  | a :: b :: s => if a = sep ∧ b = sep then squeeze sep (b :: s) else a :: squeeze sep (b :: s)

/-- The string, squeezed and without a separator at its end unless that is all there is. -/
def tidy (sep : α) (s : List α) : List α :=
  let t := squeeze sep s
  if t ≠ [sep] ∧ t.getLast? = some sep then t.dropLast else t

theorem squeeze_sep_sep (s : List α) : squeeze sep (sep :: sep :: s) = squeeze sep (sep :: s) :=
  if_pos ⟨rfl, rfl⟩

theorem squeeze_cons {a : α} (h : ¬ (a = sep ∧ s.head? = some sep)) :
    squeeze sep (a :: s) = a :: squeeze sep s := by
  cases s with
  | nil => rfl
  | cons b s => exact if_neg (by simpa using h)

/-- A run of separators. -/
theorem squeeze_replicate (k : ℕ) (h : s.head? ≠ some sep) :
    squeeze sep (List.replicate (k + 1) sep ++ s) = sep :: squeeze sep s := by
  induction k with
  | zero => exact squeeze_cons fun hs => h hs.2
  | succ k ih =>
      rw [← ih, List.replicate_succ, List.cons_append, List.replicate_succ, List.cons_append, squeeze_sep_sep]

/-- The first item stays, … -/
theorem head?_squeeze (sep : α) (s : List α) : (squeeze sep s).head? = s.head? := by
  induction s with
  | nil => rfl
  | cons a s ih =>
      by_cases h : a = sep ∧ s.head? = some sep
      · obtain ⟨rfl, hs⟩ := h
        obtain ⟨r, rfl⟩ := List.head?_eq_some_iff.mp hs
        rw [squeeze_sep_sep, ih]
        rfl
      · rw [squeeze_cons h]
        rfl

/-- … and so does the last. -/
theorem getLast?_squeeze (sep : α) (s : List α) : (squeeze sep s).getLast? = s.getLast? := by
  induction s with
  | nil => rfl
  | cons a s ih =>
      by_cases h : a = sep ∧ s.head? = some sep
      · obtain ⟨rfl, hs⟩ := h
        obtain ⟨r, rfl⟩ := List.head?_eq_some_iff.mp hs
        rw [squeeze_sep_sep, ih, List.getLast?_cons_cons]
      · rw [squeeze_cons h, List.getLast?_cons, List.getLast?_cons, ih]

theorem squeeze_ne_nil (h : s ≠ []) : squeeze sep s ≠ [] := by
  intro hnil
  have hhead := head?_squeeze sep s
  rw [hnil] at hhead
  exact h (List.head?_eq_none_iff.mp hhead.symm)

theorem squeeze_sublist (sep : α) (s : List α) : List.Sublist (squeeze sep s) s := by
  induction s with
  | nil => exact List.Sublist.refl _
  | cons a s ih =>
      by_cases h : a = sep ∧ s.head? = some sep
      · obtain ⟨rfl, hs⟩ := h
        obtain ⟨r, rfl⟩ := List.head?_eq_some_iff.mp hs
        rw [squeeze_sep_sep]
        exact ih.cons a
      · rw [squeeze_cons h]
        exact ih.cons_cons a

theorem squeeze_no_adjacent (sep : α) (s : List α) : ∀ l r, squeeze sep s ≠ l ++ sep :: sep :: r := by
  induction s with
  | nil => intro l r h; cases l <;> cases h
  | cons a s ih =>
      intro l r
      by_cases h : a = sep ∧ s.head? = some sep
      · obtain ⟨rfl, hs⟩ := h
        obtain ⟨t, rfl⟩ := List.head?_eq_some_iff.mp hs
        rw [squeeze_sep_sep]
        exact ih l r
      · rw [squeeze_cons h]
        intro heq
        cases l with
        | nil =>
            obtain ⟨ha, hs⟩ := List.cons.inj heq
            have hhead := head?_squeeze sep s
            rw [hs] at hhead
            exact h ⟨ha, hhead.symm⟩
        | cons x l => exact ih l r (List.cons.inj heq).2

/-- **A squeezed string**: its components, a separator in front if there was one, and one at the end. -/
theorem squeeze_eq (sep : α) (s : List α) :
    squeeze sep s = spell sep (s.head? == some sep) (components sep s) ++
      if components sep s ≠ [] ∧ s.getLast? = some sep then [sep] else [] := by
  induction s with
  | nil => rfl
  | cons a s ih =>
      by_cases h : a = sep ∧ s.head? = some sep
      · -- one more separator in front changes nothing
        obtain ⟨rfl, hs⟩ := h
        obtain ⟨r, rfl⟩ := List.head?_eq_some_iff.mp hs
        rw [squeeze_sep_sep, ih, components_cons_sep a (a :: r), List.getLast?_cons_cons]
        rfl
      · rw [squeeze_cons h, ih]
        by_cases ha : a = sep
        · subst ha
          have hs : s.head? ≠ some a := fun hs => h ⟨rfl, hs⟩
          cases s with
          | nil => simp [spell, components_cons_sep]
          | cons b r => simp_all [spell, components_cons_sep]
        · cases s with
          | nil => simp [spell, components_singleton ha, ha]
          | cons b r =>
              by_cases hb : b = sep
              · subst hb
                rw [components_cons_cons_sep ha, components_cons_sep, List.getLast?_cons_cons]
                by_cases hnil : components b r = []
                · -- the separators behind the item are all there is
                  have hlast : (b :: r).getLast? = some b :=
                    getLast?_of_components_nil ((components_cons_sep b r).trans hnil) (List.cons_ne_nil b r)
                  simp [spell, hnil, hlast, ha]
                · rw [spell, spell, List.intercalate_cons_of_ne_nil hnil]
                  simp [hnil, ha]
              · obtain ⟨c, cs, hbs, habs⟩ := components_cons_cons ha hb r
                simp [spell, hbs, habs, ha, hb]

/-! ## The tidy form -/

/-- **The tidy form of a string is the spelling of its components.** -/
theorem tidy_eq_spell (sep : α) (s : List α) :
    tidy sep s = spell sep (s.head? == some sep) (components sep s) := by
  have hsq := squeeze_eq sep s
  have hlast := getLast?_squeeze sep s
  unfold tidy
  dsimp only
  by_cases hnil : components sep s = []
  · cases s with
    | nil => rfl
    | cons a r =>
        -- nothing but separators: one of them is left
        have ha := eq_of_components_nil hnil a List.mem_cons_self
        have hone : squeeze sep (a :: r) = [sep] := by
          rw [hsq, hnil, ha]
          simp [spell]
        rw [hone, hnil, ha, if_neg (by simp)]
        simp [spell]
  · have hspell : spell sep (s.head? == some sep) (components sep s) ≠ [] := by
      intro h
      exact intercalate_ne_nil (fun c hc => isWord_of_mem hc) hnil (List.append_eq_nil_iff.mp h).2
    by_cases hend : s.getLast? = some sep
    · rw [if_pos ⟨hnil, hend⟩] at hsq
      have hne : squeeze sep s ≠ [sep] := by
        rw [hsq]
        intro h
        exact hspell (List.append_left_eq_self.mp h)
      rw [if_pos ⟨hne, by rw [hlast, hend]⟩, hsq, List.dropLast_concat]
    · rw [if_neg (fun h => hend h.2), List.append_nil] at hsq
      rw [if_neg (fun h => hend (hlast ▸ h.2)), hsq]

theorem components_tidy (sep : α) (s : List α) : components sep (tidy sep s) = components sep s := by
  rw [tidy_eq_spell]
  exact components_spell (fun c hc => isWord_of_mem hc) _

theorem head?_tidy (sep : α) (s : List α) : (tidy sep s).head? = some sep ↔ s.head? = some sep := by
  rw [tidy_eq_spell, head?_spell fun c hc => isWord_of_mem hc]
  exact beq_iff_eq

/-- **One tidy form for each list of components.** -/
theorem tidy_eq_tidy_iff : tidy sep s = tidy sep t ↔
    (s.head? = some sep ↔ t.head? = some sep) ∧ components sep s = components sep t := by
  constructor
  · intro h
    rw [← head?_tidy sep s, ← head?_tidy sep t, ← components_tidy sep s, ← components_tidy sep t, h]
    exact ⟨Iff.rfl, rfl⟩
  · rintro ⟨hroot, hcs⟩
    rw [tidy_eq_spell, tidy_eq_spell, hcs]
    congr 1
    rw [Bool.eq_iff_iff, beq_iff_eq, beq_iff_eq]
    exact hroot

theorem tidy_tidy (sep : α) (s : List α) : tidy sep (tidy sep s) = tidy sep s :=
  tidy_eq_tidy_iff.mpr ⟨head?_tidy sep s, components_tidy sep s⟩

theorem tidy_sublist (sep : α) (s : List α) : List.Sublist (tidy sep s) s := by
  unfold tidy
  dsimp only
  split
  · exact (List.dropLast_sublist _).trans (squeeze_sublist sep s)
  · exact squeeze_sublist sep s

theorem notMem_tidy {a : α} (h : a ∉ s) (sep : α) : a ∉ tidy sep s :=
  fun hmem => h ((tidy_sublist sep s).subset hmem)

theorem length_tidy_le (sep : α) (s : List α) : (tidy sep s).length ≤ s.length := (tidy_sublist sep s).length_le

theorem tidy_ne_nil (h : s ≠ []) : tidy sep s ≠ [] := by
  have hsq : squeeze sep s ≠ [] := squeeze_ne_nil h
  unfold tidy
  dsimp only
  split
  · next hend =>
      intro hnil
      have hsplit := List.dropLast_append_getLast? sep hend.2
      rw [hnil] at hsplit
      exact hend.1 hsplit.symm
  · exact hsq

/-- No two separators are adjacent, … -/
theorem tidy_no_adjacent (sep : α) (s : List α) : ∀ l r, tidy sep s ≠ l ++ sep :: sep :: r := by
  intro l r
  unfold tidy
  dsimp only
  split
  · next hend =>
      intro h
      have hsplit := List.dropLast_append_getLast? sep hend.2
      rw [h] at hsplit
      exact squeeze_no_adjacent sep s l (r ++ [sep]) (by rw [← hsplit]; simp)
  · exact squeeze_no_adjacent sep s l r

/-- … and none is at the end, unless it is all there is. -/
theorem getLast?_tidy (h : tidy sep s ≠ [sep]) : (tidy sep s).getLast? ≠ some sep := by
  unfold tidy at h ⊢
  dsimp only at h ⊢
  split
  · next hend =>
      intro hlast
      have hsplit := List.dropLast_append_getLast? sep hend.2
      have hsplit' := List.dropLast_append_getLast? sep hlast
      exact squeeze_no_adjacent sep s (squeeze sep s).dropLast.dropLast []
        (by rw [← hsplit, ← hsplit', List.append_assoc]; simp)
  · next hend =>
      rw [if_neg hend] at h
      exact fun hlast => hend ⟨h, hlast⟩

/-! ## Cutting a spelling -/

theorem tidy_spell {cs : List (List α)} (h : ∀ c ∈ cs, IsWord sep c) (rooted : Bool) :
    tidy sep (spell sep rooted cs) = spell sep rooted cs := by
  rw [tidy_eq_spell, components_spell h]
  congr 1
  rw [Bool.eq_iff_iff, beq_iff_eq]
  exact head?_spell h rooted

theorem getLast?_spell {cs : List (List α)} (h : ∀ c ∈ cs, IsWord sep c) (hne : cs ≠ []) :
    (spell sep true cs).getLast? ≠ some sep := by
  rw [← tidy_spell h true]
  apply getLast?_tidy
  rw [tidy_spell h true]
  exact fun heq => intercalate_ne_nil h hne (List.append_right_eq_self.mp heq)

/-- The items other than separators, in the spelling of components. -/
theorem filter_spell {cs : List (List α)} (h : ∀ c ∈ cs, IsWord sep c) :
    (spell sep true cs).filter (· ≠ sep) = cs.flatten := by
  rw [← flatten_components, components_spell h]

/-- A part of a spelling that stops short of it has fewer of them. -/
theorem filter_take_spell_ne {ds : List (List α)} (h : ∀ c ∈ ds, IsWord sep c) {k : ℕ} (hk : 0 < k)
    (hlt : k < (spell sep true ds).length) : ((spell sep true ds).take k).filter (· ≠ sep) ≠ ds.flatten := by
  intro hcut
  have hrest : ((spell sep true ds).drop k).filter (· ≠ sep) = [] := by
    have hall := congrArg (List.filter (· ≠ sep)) (List.take_append_drop k (spell sep true ds))
    rw [List.filter_append, hcut, filter_spell h] at hall
    exact List.append_right_eq_self.mp hall
  have hne : (spell sep true ds).drop k ≠ [] := by simpa using hlt
  by_cases hnil : ds = []
  · subst hnil
    have hone : k < 1 := hlt
    omega
  · -- the last item would be a separator
    have hlast : (spell sep true ds).getLast? = some sep := by
      rw [← List.take_append_drop k (spell sep true ds), List.getLast?_append_of_ne_nil _ hne,
        List.getLast?_eq_some_getLast hne, eq_of_filter_nil hrest _ (List.getLast_mem hne)]
    exact getLast?_spell h hnil hlast

theorem eq_zero_of_filter_take {cs : List (List α)} (h : ∀ c ∈ cs, IsWord sep c) (hne : cs ≠ []) {j : ℕ}
    (hj : (([sep].intercalate cs).take j).filter (· ≠ sep) = []) : j = 0 := by
  have hhead := head?_intercalate h
  obtain ⟨b, r, hb⟩ := List.exists_cons_of_ne_nil (intercalate_ne_nil h hne)
  rw [hb] at hj hhead
  cases j with
  | zero => rfl
  | succ j => exact absurd (congrArg some (eq_of_filter_nil hj b List.mem_cons_self)) hhead

/-- A part that goes on behind the spelling of `ds` without another of them goes on with the separator only. -/
theorem of_filter_take_spell {ds es : List (List α)} (hes : ∀ c ∈ es, IsWord sep c) {k : ℕ}
    (hgt : (spell sep true ds).length < k) (hle : k ≤ (spell sep true (ds ++ es)).length)
    (hcut : ((spell sep true (ds ++ es)).take k).filter (· ≠ sep) = (spell sep true ds).filter (· ≠ sep)) :
    k = (spell sep true ds).length + 1 ∧ ds ≠ [] ∧ es ≠ [] := by
  rw [spell_append] at hcut hle
  have hmore : (((if ds = [] ∨ es = [] then [] else [sep]) ++ [sep].intercalate es).take
      (k - (spell sep true ds).length)).filter (· ≠ sep) = [] := by
    rw [List.take_append, List.take_of_length_le (Nat.le_of_lt hgt), List.filter_append] at hcut
    exact List.append_right_eq_self.mp hcut
  rw [List.length_append] at hle
  by_cases hnil : es = []
  · subst hnil
    simp at hle
    omega
  · by_cases hds : ds = []
    · rw [if_pos (Or.inl hds), List.nil_append] at hmore
      have hzero := eq_zero_of_filter_take hes hnil hmore
      omega
    · rw [if_neg (by simp [hds, hnil])] at hmore
      obtain ⟨j, hj⟩ : ∃ j, k - (spell sep true ds).length = j + 1 :=
        ⟨k - (spell sep true ds).length - 1, by omega⟩
      rw [hj, List.singleton_append, List.take_succ_cons, List.filter_cons_of_neg (by simp)] at hmore
      have hzero := eq_zero_of_filter_take hes hnil hmore
      exact ⟨by omega, hds, hnil⟩

/-- Behind the spelling of `ds`, or that and its separator, are the components that follow. -/
theorem components_drop_spell {ds es : List (List α)} (hes : ∀ c ∈ es, IsWord sep c) {k : ℕ}
    (hk : k = (spell sep true ds).length ∨ k = (spell sep true ds).length + 1 ∧ ds ≠ [] ∧ es ≠ []) :
    components sep ((spell sep true (ds ++ es)).drop k) = es := by
  rw [spell_append]
  rcases hk with rfl | ⟨rfl, hne, hne'⟩
  · rw [List.drop_left]
    by_cases hjoin : ds = [] ∨ es = []
    · rw [if_pos hjoin, List.nil_append, components_intercalate hes]
    · rw [if_neg hjoin, List.singleton_append, components_cons_sep, components_intercalate hes]
  · rw [if_neg (by simp [hne, hne']), List.drop_append, List.drop_of_length_le (Nat.le_succ _),
      Nat.add_sub_cancel_left, List.nil_append, List.singleton_append, List.drop_one, List.tail_cons,
      components_intercalate hes]

/-- **Where a spelling can be cut**: what is behind the first `k` items has the components that follow `ds` exactly
    when those are the spelling of `ds`, or that and the separator behind it. -/
theorem components_drop_spell_iff {ds cs : List (List α)} (hcs : ∀ c ∈ cs, IsWord sep c) {k : ℕ} (hk : 0 < k)
    (hle : k ≤ (spell sep true cs).length) :
    ds ++ components sep ((spell sep true cs).drop k) = cs ↔
      ds <+: cs ∧ (k = (spell sep true ds).length ∨
        k = (spell sep true ds).length + 1 ∧ ds ≠ [] ∧ ds ≠ cs) := by
  have hmore : ∀ es : List (List α), ds ≠ ds ++ es ↔ es ≠ [] := fun es => by simp
  constructor
  · intro heq
    have hpre : ds <+: cs := ⟨_, heq⟩
    refine ⟨hpre, ?_⟩
    obtain ⟨es, rfl⟩ := hpre
    have hds : ∀ c ∈ ds, IsWord sep c := fun c hc => hcs c (List.mem_append_left _ hc)
    have hes : ∀ c ∈ es, IsWord sep c := fun c hc => hcs c (List.mem_append_right _ hc)
    -- the items other than separators in the part cut off are those of `ds`
    have hcut : ((spell sep true (ds ++ es)).take k).filter (· ≠ sep) = ds.flatten := by
      have hall := congrArg (List.filter (· ≠ sep)) (List.take_append_drop k (spell sep true (ds ++ es)))
      rw [List.filter_append, ← flatten_components sep (List.drop k _), List.append_cancel_left heq,
        filter_spell hcs, List.flatten_append] at hall
      exact List.append_cancel_right hall
    rcases Nat.lt_trichotomy k (spell sep true ds).length with hlt | heqk | hgt
    · rw [spell_append, List.take_append_of_le_length (Nat.le_of_lt hlt)] at hcut
      exact absurd hcut (filter_take_spell_ne hds hk hlt)
    · exact Or.inl heqk
    · rw [← filter_spell hds] at hcut
      rw [hmore]
      exact Or.inr (of_filter_take_spell hes hgt hle hcut)
  · rintro ⟨⟨es, rfl⟩, hcut⟩
    rw [hmore] at hcut
    rw [components_drop_spell (fun c hc => hcs c (List.mem_append_right _ hc)) hcut]

end Spelling

import SoftRadio.Text.Blank

/-!
# Words of a text

A text is a row of words with white space around them.  However long the gaps are and whichever
white space stands in them, the words are the same.

* `Spaced`: a text and its words.
* `words_append`: a word, what comes after it, and white space between the two.
* `words_eq_iff`: a text has no other words than those it is split into.
* `Spaced.intercalate`: words with one space between each two of them.
-/

namespace SoftRadio.Text

/-- A text and its words: before each word and at the end of the text there is a gap, which is
white, and between two words it is not empty. -/
inductive Spaced : (cs : List Char) → (ws : List (List Char)) → Prop
  | gap {gap : List Char} (hgap : ∀ c ∈ gap, isBlank c = true) : Spaced gap []
  | word {gap word rest : List Char} {ws : List (List Char)} (hgap : ∀ c ∈ gap, isBlank c = true)
      (hne : word ≠ []) (hword : ∀ c ∈ word, isBlank c = false)
      (hrest : ∀ c ∈ rest.head?, isBlank c = true) (h : Spaced rest ws) :
      Spaced (gap ++ (word ++ rest)) (word :: ws)

variable {cs gap word rest : List Char} {ws : List (List Char)}

theorem Spaced.ne_nil_and_not_blank (h : Spaced cs ws) :
    ∀ w ∈ ws, w ≠ [] ∧ ∀ c ∈ w, isBlank c = false := by
  induction h with
  | gap => exact nofun
  | word hgap hne hword hrest h ih =>
    intro w hw
    rcases List.mem_cons.1 hw with rfl | hw
    · exact ⟨hne, hword⟩
    · exact ih w hw

/-! ## Splitting -/

theorem words_gap_append (hgap : ∀ c ∈ gap, isBlank c = true) (cs : List Char) :
    words (gap ++ cs) = words cs := by
  induction gap with
  | nil => rfl
  | cons c gap ih =>
    obtain ⟨hc, hgap⟩ := List.forall_mem_cons.1 hgap
    rw [List.cons_append, words.eq_def]
    dsimp only
    rw [if_pos hc, ih hgap]

/-- A word ends where white space or the end of the text is. -/
theorem words_append (hne : word ≠ []) (hword : ∀ c ∈ word, isBlank c = false)
    (hrest : ∀ c ∈ rest.head?, isBlank c = true) : words (word ++ rest) = word :: words rest := by
  induction word with
  | nil => exact absurd rfl hne
  | cons c word ih =>
    obtain ⟨hc, hword⟩ := List.forall_mem_cons.1 hword
    rw [List.cons_append, words.eq_def]
    simp only [hc, Bool.false_eq_true, if_false]
    cases word with
    | nil =>
      cases rest with
      | nil => rfl
      | cons d rest =>
        dsimp only [List.nil_append]
        rw [if_pos (hrest d rfl)]
    | cons d word =>
      have hd : isBlank d = false := hword d List.mem_cons_self
      rw [List.cons_append]
      simp only [hd, Bool.false_eq_true, if_false]
      rw [← List.cons_append, ih (List.cons_ne_nil d word) hword]

theorem Spaced.words_eq (h : Spaced cs ws) : words cs = ws := by
  induction h with
  | @gap gap hgap =>
    have hnone := words_gap_append hgap []
    rwa [List.append_nil] at hnone
  | word hgap hne hword hrest h ih => rw [words_gap_append hgap, words_append hne hword hrest, ih]

/-- The first gap may be empty. -/
theorem Spaced.append (hne : word ≠ []) (hword : ∀ c ∈ word, isBlank c = false)
    (hrest : ∀ c ∈ rest.head?, isBlank c = true) (h : Spaced rest ws) :
    Spaced (word ++ rest) (word :: ws) :=
  @Spaced.word [] word rest ws nofun hne hword hrest h

/-- White space before a text makes its first gap longer. -/
theorem Spaced.cons_blank {c : Char} (hc : isBlank c = true) (h : Spaced cs ws) :
    Spaced (c :: cs) ws := by
  cases h with
  | gap hgap => exact .gap (List.forall_mem_cons.2 ⟨hc, hgap⟩)
  | @word gap word rest ws hgap hne hword hrest h =>
    rw [← List.cons_append]
    exact .word (List.forall_mem_cons.2 ⟨hc, hgap⟩) hne hword hrest h

/-- Any other character is a word of its own or makes the first word longer. -/
theorem Spaced.exists_cons {c : Char} (hc : isBlank c = false) (h : Spaced cs ws) :
    ∃ ws, Spaced (c :: cs) ws := by
  have hone : ∀ d ∈ [c], isBlank d = false := fun d hd => List.mem_singleton.1 hd ▸ hc
  cases h with
  | gap hgap =>
    exact ⟨_, .append (List.cons_ne_nil c []) hone
      (fun d hd => hgap d (List.mem_of_mem_head? hd)) (.gap hgap)⟩
  | @word gap word rest ws hgap hne hword hrest h =>
    cases gap with
    | nil =>
      exact ⟨_, .append (List.cons_ne_nil c word) (List.forall_mem_cons.2 ⟨hc, hword⟩) hrest h⟩
    | cons d gap =>
      refine ⟨_, .append (List.cons_ne_nil c []) hone (fun e he => ?_)
        (.word hgap hne hword hrest h)⟩
      cases he
      exact hgap d List.mem_cons_self

/-- Every text is a row of words. -/
theorem exists_spaced (cs : List Char) : ∃ ws, Spaced cs ws := by
  induction cs with
  | nil => exact ⟨[], .gap nofun⟩
  | cons c cs ih =>
    obtain ⟨ws, h⟩ := ih
    cases hc : isBlank c with
    | true => exact ⟨ws, h.cons_blank hc⟩
    | false => exact h.exists_cons hc

/-- A text has no other words than those it is split into. -/
theorem words_eq_iff : words cs = ws ↔ Spaced cs ws := by
  refine ⟨?_, Spaced.words_eq⟩
  rintro rfl
  obtain ⟨ws, h⟩ := exists_spaced cs
  rw [h.words_eq]
  exact h

/-! ## Joining -/

/-- Words with a space between each two of them are spaced. -/
theorem Spaced.intercalate (h : ∀ w ∈ ws, w ≠ [] ∧ ∀ c ∈ w, isBlank c = false) :
    Spaced (List.intercalate [' '] ws) ws := by
  induction ws with
  | nil => exact .gap nofun
  | cons w ws ih =>
    obtain ⟨⟨hne, hword⟩, hws⟩ := List.forall_mem_cons.1 h
    cases ws with
    | nil =>
      have hlast : Spaced (w ++ []) [w] := .append hne hword nofun (.gap nofun)
      rw [List.append_nil] at hlast
      rwa [List.intercalate_singleton]
    | cons next ws =>
      rw [List.intercalate_cons_cons, List.append_assoc]
      refine .append hne hword (fun c hc => ?_) ((ih hws).cons_blank (by decide))
      cases hc
      decide

end SoftRadio.Text

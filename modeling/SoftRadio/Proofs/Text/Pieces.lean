import Mathlib.Data.List.DropRight
import SoftRadio.Text.Blank

/-!
# Pieces of a text

Markup is read piece by piece: a text is split at a separator, and each piece is trimmed and may be
split again at its first separator.

* `splitOn_eq`: splitting is that of the library, whose lemmas then apply.
* `splitOnce_append_cons`, `splitOnce_of_not_mem`: the first separator, if there is one.
* `Tight`: no white space at either end; `tight_trim`, `trim_of_tight`.
* `exists_trim`: what trimming takes away stands at the ends and is white.
-/

namespace SoftRadio.Text

variable {sep : Char} {cs front back : List Char}

/-! ## Splitting -/

theorem splitOn_eq (sep : Char) (cs : List Char) : splitOn sep cs = cs.splitOn sep := by
  induction cs with
  | nil => rfl
  | cons c cs ih =>
    rw [List.splitOn_cons_eq_if_modifyHead, splitOn, ih]
    by_cases hc : c = sep
    · rw [if_pos hc, if_pos (beq_iff_eq.2 hc)]
    · obtain ⟨piece, pieces, hcs⟩ := List.exists_cons_of_ne_nil (List.splitOn_ne_nil sep cs)
      rw [if_neg hc, if_neg (mt beq_iff_eq.1 hc), hcs]
      rfl

/-- The separator stands between the pieces and not in them. -/
theorem not_mem_of_mem_splitOn {piece : List Char} (h : piece ∈ splitOn sep cs) : sep ∉ piece := by
  induction cs generalizing piece with
  | nil =>
    rw [List.mem_singleton.1 h]
    exact List.not_mem_nil
  | cons c cs ih =>
    by_cases hc : c = sep
    · rw [splitOn, if_pos hc] at h
      rcases List.mem_cons.1 h with rfl | h
      · exact List.not_mem_nil
      · exact ih h
    · have hne : splitOn sep cs ≠ [] := splitOn_eq sep cs ▸ List.splitOn_ne_nil sep cs
      obtain ⟨first, rest, hcs⟩ := List.exists_cons_of_ne_nil hne
      rw [splitOn, if_neg hc, hcs] at h
      rw [hcs] at ih
      rcases List.mem_cons.1 h with rfl | h
      · intro hmem
        rcases List.mem_cons.1 hmem with heq | hmem
        · exact hc heq.symm
        · exact ih List.mem_cons_self hmem
      · exact ih (List.mem_cons_of_mem _ h)

theorem splitOnce_of_not_mem (h : sep ∉ cs) : splitOnce sep cs = none := by
  induction cs with
  | nil => rfl
  | cons c cs ih =>
    obtain ⟨hc, hcs⟩ := not_or.1 (mt List.mem_cons.2 h)
    rw [splitOnce, if_neg (Ne.symm hc), ih hcs, Option.map_none]

/-- The first separator is the one that has none before it. -/
theorem splitOnce_append_cons (h : sep ∉ front) :
    splitOnce sep (front ++ sep :: back) = some (front, back) := by
  induction front with
  | nil => rw [List.nil_append, splitOnce, if_pos rfl]
  | cons c front ih =>
    obtain ⟨hc, hfront⟩ := not_or.1 (mt List.mem_cons.2 h)
    rw [List.cons_append, splitOnce, if_neg (Ne.symm hc), ih hfront, Option.map_some]

/-! ## Trimming -/

/-- No white space at either end. -/
structure Tight (cs : List Char) : Prop where
  head : ∀ c ∈ cs.head?, isBlank c = false
  last : ∀ c ∈ cs.getLast?, isBlank c = false

theorem tight_nil : Tight [] := ⟨nofun, nofun⟩

theorem trimStart_of_head (h : ∀ c ∈ cs.head?, isBlank c = false) : trimStart cs = cs := by
  cases cs with
  | nil => rfl
  | cons c cs => exact List.dropWhile_cons_of_neg (by simp [h c rfl])

theorem trimEnd_of_last (h : ∀ c ∈ cs.getLast?, isBlank c = false) : trimEnd cs = cs := by
  have hhead : ∀ c ∈ cs.reverse.head?, isBlank c = false := by rwa [List.head?_reverse]
  calc (trimStart cs.reverse).reverse = cs.reverse.reverse := by rw [trimStart_of_head hhead]
    _ = cs := cs.reverse_reverse

theorem trim_of_tight (h : Tight cs) : trim cs = cs := by
  unfold trim
  rw [trimStart_of_head h.head, trimEnd_of_last h.last]

theorem trimEnd_prefix (cs : List Char) : trimEnd cs <+: cs :=
  List.rdropWhile_prefix isBlank cs

theorem tight_trim (cs : List Char) : Tight (trim cs) := by
  constructor
  case head =>
    intro c hc
    -- the first character is that of the text before its end was trimmed
    have hstart : (trimStart cs).head? = some c := by
      obtain ⟨rest, hrest⟩ := trimEnd_prefix (trimStart cs)
      rw [← hrest, List.head?_append, show (trimEnd (trimStart cs)).head? = some c from hc,
        Option.some_or]
    have hnot := List.head?_dropWhile_not isBlank cs
    rw [show (cs.dropWhile isBlank).head? = some c from hstart] at hnot
    exact hnot
  case last =>
    intro c hc
    have hnot := List.head?_dropWhile_not isBlank (trimStart cs).reverse
    rw [← List.getLast?_reverse] at hnot
    rw [show ((trimStart cs).reverse.dropWhile isBlank).reverse.getLast? = some c from hc] at hnot
    exact hnot

/-- What is around a character that is not white has its ends from its parts. -/
theorem Tight.append_cons {c : Char} (hfront : Tight front) (hback : Tight back)
    (hc : isBlank c = false) : Tight (front ++ c :: back) := by
  constructor
  case head =>
    intro d hd
    rw [List.head?_append] at hd
    cases front with
    | nil =>
      cases hd
      exact hc
    | cons e front => exact hfront.head d hd
  case last =>
    intro d hd
    rw [List.getLast?_append] at hd
    cases hback' : back.getLast? with
    | none =>
      rw [List.getLast?_eq_none_iff.1 hback'] at hd
      cases hd
      exact hc
    | some e =>
      rw [List.getLast?_cons, hback'] at hd
      cases hd
      exact hback.last e hback'

/-- What trimming takes away stands at the ends and is white. -/
theorem exists_trim (cs : List Char) : ∃ front back, cs = front ++ trim cs ++ back ∧
    (∀ c ∈ front, isBlank c = true) ∧ ∀ c ∈ back, isBlank c = true := by
  refine ⟨cs.takeWhile isBlank, (trimStart cs).rtakeWhile isBlank, ?_, ?_, ?_⟩
  · have hend : trim cs ++ (trimStart cs).rtakeWhile isBlank = trimStart cs :=
      List.rdropWhile_append_rtakeWhile
    rw [List.append_assoc, hend]
    exact List.takeWhile_append_dropWhile.symm
  · exact fun c hc => List.mem_takeWhile_imp hc
  · exact fun c hc => List.mem_rtakeWhile_imp hc

theorem trim_blank_append (h : ∀ c ∈ front, isBlank c = true) (cs : List Char) :
    trim (front ++ cs) = trim cs := by
  unfold trim trimStart
  rw [List.dropWhile_append_of_pos h]

theorem trimEnd_append_blank (h : ∀ c ∈ back, isBlank c = true) (cs : List Char) :
    trimEnd (cs ++ back) = trimEnd cs := by
  have hreverse : ∀ c ∈ back.reverse, isBlank c = true := fun c hc => h c (List.mem_reverse.1 hc)
  unfold trimEnd
  rw [List.reverse_append, List.dropWhile_append_of_pos hreverse]

theorem trim_append_blank (h : ∀ c ∈ back, isBlank c = true) (cs : List Char) :
    trim (cs ++ back) = trim cs := by
  unfold trim trimStart
  rw [List.dropWhile_append]
  split
  next hempty =>
    have hback : back.dropWhile isBlank = [] := List.dropWhile_eq_nil_iff.2 h
    rw [hback, List.isEmpty_iff.1 hempty]
  · exact trimEnd_append_blank h _

end SoftRadio.Text

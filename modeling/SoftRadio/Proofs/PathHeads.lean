import Mathlib.Data.String.Basic
import SoftRadio.PropertyTree

/-!
# Heads of texts in order

The texts below a path are listed in their order, each is cut at its first slash, and of equal
neighbours one is kept.  A text that is the name itself comes before the texts that go on from it
with a slash, and what goes on from it with a character before the slash comes in between.

* `exists_of_lt_of_not_lt`: what stands between a text and a longer one.
* `TreePath.head_eq_iff`: the texts that are cut to a given name.
* `PropertyTree.head?_heads_eq_iff`: of the texts behind a name, the first one is cut to it if any
  is, unless others come in between.
* `PropertyTree.count_heads`: a name is kept twice if it is parted, and else once at most.
-/

namespace SoftRadio

/-! ## Texts in order -/

section

variable {c r s front : List Char} {x : Char}

theorem self_lt_append_cons (c : List Char) (x : Char) (m : List Char) : c < c ++ x :: m := by
  have h : c ++ [] < c ++ x :: m := List.append_left_lt (List.nil_lt_cons x m)
  rwa [List.append_nil] at h

theorem append_lt_append_iff : front ++ r < front ++ s ↔ r < s := by
  induction front with
  | nil => rfl
  | cons a front ih =>
    rw [List.cons_append, List.cons_append, List.cons_lt_cons_iff, ih]
    simp

/-- What stands between a text and a longer one goes on with a character no greater. -/
theorem exists_of_lt_of_not_lt {m : List Char} (hlow : c < r) (hhigh : ¬ c ++ x :: m < r) :
    ∃ y n, r = c ++ y :: n ∧ y ≤ x := by
  induction c generalizing r with
  | nil =>
    cases r with
    | nil => exact absurd hlow (List.lt_irrefl [])
    | cons y n => exact ⟨y, n, rfl, not_lt.1 fun hlt => hhigh (List.cons_lt_cons_iff.2 (.inl hlt))⟩
  | cons a c ih =>
    cases r with
    | nil => exact absurd hlow (List.not_lt_nil _)
    | cons b r =>
      rw [List.cons_append, List.cons_lt_cons_iff] at hhigh
      rcases List.cons_lt_cons_iff.1 hlow with hab | ⟨rfl, hlow'⟩
      · exact absurd (.inl hab) hhigh
      · obtain ⟨y, n, rfl, hy⟩ := ih hlow' fun h => hhigh (.inr ⟨rfl, h⟩)
        exact ⟨y, n, rfl, hy⟩

end

namespace TreePath

variable {c r : List Char} {rests : List (List Char)}

theorem head_append {m : List Char} (hc : '/' ∉ c) : head (c ++ m) = c ++ head m := by
  refine List.takeWhile_append_of_pos fun d hd => bne_iff_ne.2 ?_
  rintro rfl
  exact hc hd

theorem head_cons_of_ne {x : Char} {m : List Char} (hx : x ≠ '/') :
    head (x :: m) = x :: head m :=
  List.takeWhile_cons_of_pos (bne_iff_ne.2 hx)

/-- The texts that have a name before their first slash. -/
theorem head_eq_iff (hc : '/' ∉ c) : head r = c ↔ r = c ∨ ∃ m, r = c ++ '/' :: m := by
  have hself : head c = c := by
    have happ := head_append (m := []) hc
    rwa [List.append_nil, show head [] = [] from rfl, List.append_nil] at happ
  constructor
  · intro h
    have happ : head r ++ r.dropWhile (· != '/') = r := List.takeWhile_append_dropWhile
    have hfirst := List.head?_dropWhile_not (· != '/') r
    rw [h] at happ
    cases hrest : r.dropWhile (· != '/') with
    | nil =>
      rw [hrest, List.append_nil] at happ
      exact .inl happ.symm
    | cons d m =>
      rw [hrest] at happ hfirst
      obtain rfl : d = '/' := by simpa using hfirst
      exact .inr ⟨m, happ.symm⟩
  · rintro (rfl | ⟨m, rfl⟩)
    · exact hself
    · rw [head_append hc]
      exact List.append_nil c
end TreePath

namespace PropertyTree

open TreePath

variable {c r : List Char} {rests : List (List Char)}

theorem dropRepeats_cons (a : List Char) (l : List (List Char)) :
    dropRepeats (a :: l) = if l.head? = some a then dropRepeats l else a :: dropRepeats l := by
  cases l with
  | nil => rfl
  | cons b l =>
    rw [dropRepeats, List.head?_cons]
    by_cases hab : a = b
    · simp [hab]
    · simp [hab, Ne.symm hab]

theorem mem_dropRepeats {a : List Char} {l : List (List Char)} : a ∈ dropRepeats l ↔ a ∈ l := by
  induction l with
  | nil => rfl
  | cons b l ih =>
    rw [dropRepeats_cons]
    split
    next h =>
      rw [ih, List.mem_cons]
      refine (or_iff_right_of_imp ?_).symm
      rintro rfl
      exact List.mem_of_head? h
    · rw [List.mem_cons, List.mem_cons, ih]

theorem count_dropRepeats_of_ne {a : List Char} (h : a ≠ c) (l : List (List Char)) :
    (dropRepeats (a :: l)).count c = (dropRepeats l).count c := by
  rw [dropRepeats_cons]
  split
  · rfl
  · exact List.count_cons_of_ne h

theorem count_dropRepeats_self (c : List Char) (l : List (List Char)) :
    (dropRepeats (c :: l)).count c =
      (dropRepeats l).count c + if l.head? = some c then 0 else 1 := by
  rw [dropRepeats_cons]
  split
  · rfl
  · exact List.count_cons_self

/-! ## Heads of texts in order -/

/-- A text goes on from a name with a character that comes before the slash. -/
def Between (c : List Char) (rests : List (List Char)) : Prop :=
  ∃ x m, x < '/' ∧ c ++ x :: m ∈ rests

/-- What comes after a text with a slash behind the name is not between the name and its slash. -/
theorem not_between_of_lt {m : List Char} (h : ∀ r ∈ rests, c ++ '/' :: m < r) :
    ¬ Between c rests := by
  rintro ⟨x, n, hx, hmem⟩
  rcases List.cons_lt_cons_iff.1 (append_lt_append_iff.1 (h _ hmem)) with hlt | ⟨rfl, -⟩
  · exact lt_asymm hx hlt
  · exact lt_irrefl _ hx

theorem slash_of_head_eq (hc : '/' ∉ c) (hlow : c < r) (h : head r = c) :
    ∃ m, r = c ++ '/' :: m := by
  rcases (head_eq_iff hc).1 h with rfl | h
  · exact absurd hlow (lt_irrefl r)
  · exact h

/-- Of the texts behind a name, the first one has it for its head if any has, unless others come
between the name and its slash. -/
theorem head?_heads_eq_iff (hc : '/' ∉ c) (h : rests.Pairwise (· < ·))
    (hlow : ∀ r ∈ rests, c < r) :
    (rests.map head).head? = some c ↔ c ∈ rests.map head ∧ ¬ Between c rests := by
  cases rests with
  | nil => simp
  | cons first rest =>
    obtain ⟨hfirst, -⟩ := List.pairwise_cons.1 h
    rw [List.map_cons, List.head?_cons, Option.some_inj]
    constructor
    · intro hhead
      refine ⟨List.mem_cons.2 (.inl hhead.symm), ?_⟩
      obtain ⟨m, rfl⟩ := slash_of_head_eq hc (hlow first List.mem_cons_self) hhead
      rintro ⟨x, n, hx, hmem⟩
      rcases List.mem_cons.1 hmem with heq | hmem
      · obtain ⟨rfl, -⟩ := List.cons.inj (List.append_cancel_left heq)
        exact lt_irrefl _ hx
      · exact not_between_of_lt hfirst ⟨x, n, hx, hmem⟩
    · rintro ⟨hmem, hbetween⟩
      rcases List.mem_cons.1 hmem with heq | hmem
      · exact heq.symm
      · obtain ⟨r, hr, hhead⟩ := List.mem_map.1 hmem
        obtain ⟨m, rfl⟩ := slash_of_head_eq hc (hlow r (List.mem_cons_of_mem first hr)) hhead
        obtain ⟨y, n, rfl, hy⟩ := exists_of_lt_of_not_lt (hlow first List.mem_cons_self)
          (lt_asymm (hfirst _ hr))
        rcases hy.lt_or_eq with hy | rfl
        · exact absurd ⟨y, n, hy, List.mem_cons_self⟩ hbetween
        · exact (head_eq_iff hc).2 (.inr ⟨n, rfl⟩)

/-- Behind the name itself, all texts that have it for their head stand side by side. -/
theorem count_heads_of_lt (hc : '/' ∉ c) (h : rests.Pairwise (· < ·))
    (hlow : ∀ r ∈ rests, c < r) :
    (dropRepeats (rests.map head)).count c = if c ∈ rests.map head then 1 else 0 := by
  induction rests with
  | nil => rfl
  | cons r rest ih =>
    obtain ⟨hr, hrest⟩ := List.pairwise_cons.1 h
    have hlowRest : ∀ r' ∈ rest, c < r' := fun r' hr' => hlow r' (List.mem_cons_of_mem r hr')
    rw [List.map_cons]
    by_cases hhead : head r = c
    · obtain ⟨m, rfl⟩ := slash_of_head_eq hc (hlow r List.mem_cons_self) hhead
      rw [hhead, count_dropRepeats_self, ih hrest hlowRest, if_pos List.mem_cons_self]
      simp only [head?_heads_eq_iff hc hrest hlowRest, not_between_of_lt hr, not_false_eq_true,
        and_true]
      split <;> rfl
    · rw [count_dropRepeats_of_ne hhead, ih hrest hlowRest]
      simp only [List.mem_cons, Ne.symm hhead, false_or]

/-- A name is there itself and with a slash behind it, and there are texts between the two. -/
structure Parted (c : List Char) (rests : List (List Char)) : Prop where
  self : c ∈ rests
  slash : ∃ m, c ++ '/' :: m ∈ rests
  between : Between c rests

/-- Texts before a name have no part in where it stands. -/
theorem parted_cons_of_lt (h : r < c) : Parted c (r :: rests) ↔ Parted c rests := by
  have hskip : ∀ d m, c ++ d :: m ∈ r :: rests ↔ c ++ d :: m ∈ rests := fun d m =>
    List.mem_cons.trans (or_iff_right fun heq => lt_asymm h (heq ▸ self_lt_append_cons c d m))
  have hself : c ∈ r :: rests ↔ c ∈ rests := List.mem_cons.trans (or_iff_right h.ne')
  constructor
  · rintro ⟨hc, ⟨m, hm⟩, ⟨x, n, hx, hn⟩⟩
    exact ⟨hself.1 hc, ⟨m, (hskip _ m).1 hm⟩, ⟨x, n, hx, (hskip x n).1 hn⟩⟩
  · rintro ⟨hc, ⟨m, hm⟩, ⟨x, n, hx, hn⟩⟩
    exact ⟨hself.2 hc, ⟨m, (hskip _ m).2 hm⟩, ⟨x, n, hx, (hskip x n).2 hn⟩⟩

theorem parted_cons_self (hc : '/' ∉ c) (hlow : ∀ r ∈ rests, c < r) :
    Parted c (c :: rests) ↔ c ∈ rests.map head ∧ Between c rests := by
  have hskip : ∀ d m, c ++ d :: m ∈ c :: rests ↔ c ++ d :: m ∈ rests := fun d m =>
    List.mem_cons.trans (or_iff_right (self_lt_append_cons c d m).ne')
  constructor
  · rintro ⟨-, ⟨m, hm⟩, ⟨x, n, hx, hn⟩⟩
    have hhead : head (c ++ '/' :: m) = c := (head_eq_iff hc).2 (.inr ⟨m, rfl⟩)
    exact ⟨List.mem_map.2 ⟨_, (hskip _ m).1 hm, hhead⟩, ⟨x, n, hx, (hskip x n).1 hn⟩⟩
  · rintro ⟨hmem, ⟨x, n, hx, hn⟩⟩
    obtain ⟨r, hr, hhead⟩ := List.mem_map.1 hmem
    obtain ⟨m, rfl⟩ := slash_of_head_eq hc (hlow r hr) hhead
    exact ⟨List.mem_cons_self, ⟨m, (hskip _ m).2 hr⟩, ⟨x, n, hx, (hskip x n).2 hn⟩⟩

open Classical in
/-- How often a name is the head of texts in order, when equal neighbours count once. -/
theorem count_heads (hc : '/' ∉ c) (h : rests.Pairwise (· < ·)) :
    (dropRepeats (rests.map head)).count c =
      if Parted c rests then 2 else if c ∈ rests.map head then 1 else 0 := by
  induction rests with
  | nil =>
    have hnot : ¬ Parted c [] := fun hparted => List.not_mem_nil hparted.self
    rw [if_neg hnot]
    rfl
  | cons r rest ih =>
    obtain ⟨hr, hrest⟩ := List.pairwise_cons.1 h
    rcases lt_trichotomy r c with hlt | rfl | hgt
    · -- texts before the name
      have hhead : head r ≠ c := by
        intro heq
        rcases (head_eq_iff hc).1 heq with rfl | ⟨m, rfl⟩
        · exact lt_irrefl r hlt
        · exact lt_asymm hlt (self_lt_append_cons c '/' m)
      rw [List.map_cons, count_dropRepeats_of_ne hhead, ih hrest]
      simp only [parted_cons_of_lt hlt, List.mem_cons, Ne.symm hhead, false_or]
    · -- the name itself
      have hhead : head r = r := (head_eq_iff hc).2 (.inl rfl)
      rw [List.map_cons, hhead, count_dropRepeats_self, count_heads_of_lt hc hrest hr]
      simp only [parted_cons_self hc hr, head?_heads_eq_iff hc hrest hr, List.mem_cons_self]
      by_cases hmem : r ∈ rest.map head <;> by_cases hbetween : Between r rest <;>
        simp [hmem, hbetween]
    · -- texts behind the name
      have hlow : ∀ r' ∈ r :: rest, c < r' := by
        intro r' hr'
        rcases List.mem_cons.1 hr' with rfl | hr'
        · exact hgt
        · exact hgt.trans (hr r' hr')
      have hnot : ¬ Parted c (r :: rest) := fun hparted => lt_irrefl c (hlow c hparted.self)
      rw [if_neg hnot]
      exact count_heads_of_lt hc h hlow
end PropertyTree

end SoftRadio

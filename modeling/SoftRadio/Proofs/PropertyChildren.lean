import SoftRadio.Proofs.PathHeads
import SoftRadio.Proofs.PropertyOrder

/-!
# The names right below a path

A listing has every name that comes right after the path in the components of some node, and no
other.  It has a name twice if there is a node of that name, there are nodes below it, and a name
that goes on from it with a character before the slash has a node in between; else it has it once.

* `TreePath.front`: what is written before the names right below a path.
* `TreePath.exists_of_intercalate_eq`, `TreePath.intercalate_append`: what is below a path is
  written behind its front, and nothing else is.
* `tails`: what is written of the nodes below a path; `Tidy.mem_tails_iff`, `Tidy.ordered_tails`.
* `Tidy.count_children_cases`: how often a name stands in a listing.
* `children_account`: the listing of a tree after any requests.
-/

namespace SoftRadio

namespace TreePath

variable {r : List Char}

theorem after?_eq_some_iff {front cs rest : List Char} :
    after? front cs = some rest ↔ cs = front ++ rest := by
  induction front generalizing cs with
  | nil => exact Option.some_inj
  | cons f front ih =>
    cases cs with
    | nil => simp [after?]
    | cons c cs =>
      rw [after?, List.cons_append, List.cons.injEq]
      split
      next hfc => rw [ih, and_iff_right hfc.symm]
      next hfc => exact iff_of_false nofun fun h => hfc h.1.symm

/-- What is written before the names right below a path. -/
def front : List (List Char) → List Char
  | [] => ['/']
  | part :: rest => '/' :: (part ++ front rest)

theorem exists_front_eq (parts : List (List Char)) : ∃ w, front parts = '/' :: w := by
  cases parts with
  | nil => exact ⟨[], rfl⟩
  | cons part rest => exact ⟨part ++ front rest, rfl⟩

theorem intercalate_cons (part : List Char) {rest : List (List Char)} (h : rest ≠ []) :
    List.intercalate ['/'] (part :: rest) = part ++ '/' :: List.intercalate ['/'] rest := by
  rw [List.intercalate_cons_of_ne_nil h, List.append_assoc]
  rfl

theorem head_intercalate {e : List Char} (he : '/' ∉ e) (more : List (List Char)) :
    head (List.intercalate ['/'] (e :: more)) = e := by
  rw [head_eq_iff he]
  cases more with
  | nil => exact .inl List.intercalate_singleton
  | cons d more => exact .inr ⟨_, intercalate_cons e (List.cons_ne_nil d more)⟩

theorem exists_intercalate_eq (e : List Char) (more : List (List Char)) :
    ∃ tail, List.intercalate ['/'] (e :: more) = e ++ tail := by
  cases more with
  | nil => exact ⟨[], by rw [List.intercalate_singleton, List.append_nil]⟩
  | cons d more => exact ⟨_, intercalate_cons e (List.cons_ne_nil d more)⟩

theorem intercalate_append_slash {parts : List (List Char)} (h : parts ≠ []) :
    '/' :: List.intercalate ['/'] parts ++ ['/'] = front parts := by
  induction parts with
  | nil => exact absurd rfl h
  | cons part rest ih =>
    cases rest with
    | nil => rw [List.intercalate_singleton]; rfl
    | cons next rest =>
      have hne : next :: rest ≠ [] := List.cons_ne_nil next rest
      rw [intercalate_cons part hne, front, ← ih hne]
      simp

theorem normal_eq_slash_iff (path : String) : normal path = "/" ↔ components path = [] := by
  have hroot : "/" = ofComponents [] := rfl
  rw [hroot]
  constructor
  · exact ofComponents_inj (fun _ => component_of_mem_components) nofun
  · intro h
    rw [normal, h]

theorem front_components (path : String) :
    (if normal path = "/" then ['/'] else (normal path).toList ++ ['/']) =
      front (components path) := by
  split
  next h => rw [(normal_eq_slash_iff path).1 h, front]
  next h =>
    rw [← intercalate_append_slash (mt (normal_eq_slash_iff path).2 h), normal, ofComponents,
      String.toList_ofList]

/-- What is below a path is written behind its front. -/
theorem intercalate_append (parts : List (List Char)) (e : List Char) (more : List (List Char)) :
    '/' :: List.intercalate ['/'] (parts ++ e :: more) =
      front parts ++ List.intercalate ['/'] (e :: more) := by
  induction parts with
  | nil => rfl
  | cons part rest ih =>
    have hne : rest ++ e :: more ≠ [] := by simp
    rw [List.cons_append, intercalate_cons part hne, ih, front, List.cons_append,
      List.append_assoc]

/-- Only what is below a path is written behind its front. -/
theorem exists_of_intercalate_eq {parts below : List (List Char)}
    (hparts : ∀ part ∈ parts, Component part) (hbelow : ∀ part ∈ below, Component part)
    (hr : r ≠ []) (h : '/' :: List.intercalate ['/'] below = front parts ++ r) :
    ∃ e more, below = parts ++ e :: more ∧ r = List.intercalate ['/'] (e :: more) := by
  induction parts generalizing below with
  | nil =>
    have hr' : List.intercalate ['/'] below = r := (List.cons.inj h).2
    cases below with
    | nil => exact absurd hr'.symm hr
    | cons e more => exact ⟨e, more, rfl, hr'.symm⟩
  | cons part rest ih =>
    obtain ⟨hpart, hrest⟩ := List.forall_mem_cons.1 hparts
    obtain ⟨w, hw⟩ := exists_front_eq rest
    have hafter : List.intercalate ['/'] below = part ++ '/' :: (w ++ r) := by
      rw [front, hw] at h
      simpa using h
    cases below with
    | nil => simp at hafter
    | cons b below =>
      obtain ⟨hb, hbelow⟩ := List.forall_mem_cons.1 hbelow
      obtain rfl : b = part := by
        rw [← head_intercalate hb.slash below, hafter]
        exact (head_eq_iff hpart.slash).2 (.inr ⟨_, rfl⟩)
      cases below with
      | nil => simp at hafter
      | cons next below =>
        rw [intercalate_cons b (List.cons_ne_nil next below)] at hafter
        obtain ⟨e, more, heq, hmore⟩ := ih hrest hbelow
          ((List.append_cancel_left hafter).trans (by rw [hw, List.cons_append]))
        exact ⟨e, more, by rw [heq, List.cons_append], hmore⟩
end TreePath

namespace PropertyTree

open TreePath

section

variable {V κ : Type} [Typed V κ] [DecidableEq κ] {t : PropertyTree V} {path : String}
  {c : List Char}

/-- What is written of the nodes below a path, behind the path. -/
def tails (t : PropertyTree V) (path : String) : List (List Char) :=
  (t.paths.filterMap fun p => after? (front (TreePath.components path)) p.toList).filter
    fun r => !(head r).isEmpty

theorem children_eq (t : PropertyTree V) (path : String) :
    t.children path = (dropRepeats ((t.tails path).map head)).map String.ofList := by
  unfold children tails paths
  rw [List.filterMap_map]
  dsimp only
  rw [TreePath.front_components, List.filter_map]
  rfl

theorem Tidy.ordered_tails (h : Tidy t) (path : String) :
    (t.tails path).Pairwise (· < ·) := by
  refine List.Pairwise.filter _ (List.pairwise_filterMap.2 (h.ordered.imp ?_))
  intro p q hpq r hr s hs
  rw [after?_eq_some_iff] at hr hs
  have hlists := String.lt_iff_toList_lt.1 hpq
  rw [hr, hs] at hlists
  exact append_lt_append_iff.1 hlists

theorem Tidy.mem_tails_iff (h : Tidy t) (path : String) {r : List Char} :
    r ∈ t.tails path ↔ ∃ e more, t.HasNode (TreePath.components path ++ e :: more) ∧
      r = List.intercalate ['/'] (e :: more) := by
  have hwritten : ∀ p ∈ t.paths,
      p.toList = '/' :: List.intercalate ['/'] (TreePath.components p) := by
    intro p hp
    conv_lhs => rw [← h.written p hp, TreePath.normal, TreePath.ofComponents, String.toList_ofList]
  unfold tails
  rw [List.mem_filter, List.mem_filterMap]
  constructor
  · rintro ⟨⟨p, hp, hr⟩, hhead⟩
    rw [after?_eq_some_iff, hwritten p hp] at hr
    have hne : r ≠ [] := by
      rintro rfl
      cases hhead
    obtain ⟨e, more, hparts, hr⟩ := exists_of_intercalate_eq
      (fun _ => TreePath.component_of_mem_components)
      (fun _ => TreePath.component_of_mem_components)
      hne hr
    exact ⟨e, more, h.hasNode_iff.2 ⟨p, hp, hparts⟩, hr⟩
  · rintro ⟨e, more, hnode, rfl⟩
    have he : TreePath.Component e := hnode.component e (by simp)
    obtain ⟨p, hp, hparts⟩ := h.hasNode_iff.1 hnode
    refine ⟨⟨p, hp, ?_⟩, ?_⟩
    · rw [after?_eq_some_iff, hwritten p hp, hparts, intercalate_append]
    · rw [head_intercalate he.slash]
      simpa using he.ne_nil

/-- A name stands twice in a listing if there is a node of that name and nodes below it, and between
them in order a name that goes on from it with a character before the slash. -/
structure ListedTwice (t : PropertyTree V) (parts : List (List Char)) (c : List Char) : Prop where
  node : t.HasNode (parts ++ [c])
  below : ∃ d more, t.HasNode (parts ++ c :: d :: more)
  between : ∃ x rest more, x < '/' ∧ t.HasNode (parts ++ (c ++ x :: rest) :: more)

theorem Tidy.mem_heads_iff (h : Tidy t) (path : String) :
    c ∈ (t.tails path).map head ↔ ∃ more, t.HasNode (TreePath.components path ++ c :: more) := by
  rw [List.mem_map]
  constructor
  · rintro ⟨r, hr, rfl⟩
    obtain ⟨e, more, hnode, rfl⟩ := (h.mem_tails_iff path).1 hr
    rw [head_intercalate (hnode.component e (by simp)).slash]
    exact ⟨more, hnode⟩
  · rintro ⟨more, hnode⟩
    exact ⟨_, (h.mem_tails_iff path).2 ⟨c, more, hnode, rfl⟩,
      head_intercalate (hnode.component c (by simp)).slash more⟩

/-- The first name of a tail is its head. -/
theorem Tidy.exists_of_mem_tails (h : Tidy t) {r : List Char} (hr : r ∈ t.tails path) :
    ∃ more, t.HasNode (TreePath.components path ++ head r :: more) ∧
      r = List.intercalate ['/'] (head r :: more) := by
  obtain ⟨e, more, hnode, rfl⟩ := (h.mem_tails_iff path).1 hr
  rw [head_intercalate (hnode.component e (by simp)).slash]
  exact ⟨more, hnode, rfl⟩

theorem Tidy.self_mem_tails_iff (h : Tidy t) (path : String) (hc : '/' ∉ c) :
    c ∈ t.tails path ↔ t.HasNode (TreePath.components path ++ [c]) := by
  constructor
  · intro hself
    obtain ⟨more, hnode, heq⟩ := h.exists_of_mem_tails hself
    rw [(head_eq_iff hc).2 (.inl rfl)] at hnode heq
    cases more with
    | nil => exact hnode
    | cons d more =>
      rw [intercalate_cons c (List.cons_ne_nil d more)] at heq
      exact absurd heq (self_lt_append_cons c '/' _).ne
  · intro hnode
    exact (h.mem_tails_iff path).2 ⟨c, [], hnode, List.intercalate_singleton.symm⟩

theorem Tidy.slash_mem_tails_iff (h : Tidy t) (path : String) (hc : '/' ∉ c) :
    (∃ m, c ++ '/' :: m ∈ t.tails path) ↔
      ∃ d more, t.HasNode (TreePath.components path ++ c :: d :: more) := by
  constructor
  · rintro ⟨m, hm⟩
    obtain ⟨more, hnode, heq⟩ := h.exists_of_mem_tails hm
    rw [(head_eq_iff hc).2 (.inr ⟨m, rfl⟩)] at hnode heq
    cases more with
    | nil =>
      rw [List.intercalate_singleton] at heq
      exact absurd heq (self_lt_append_cons c '/' m).ne'
    | cons d more => exact ⟨d, more, hnode⟩
  · rintro ⟨d, more, hnode⟩
    exact ⟨_, (h.mem_tails_iff path).2 ⟨c, d :: more, hnode,
      (intercalate_cons c (List.cons_ne_nil d more)).symm⟩⟩

theorem Tidy.between_tails_iff (h : Tidy t) (path : String) (hc : '/' ∉ c) :
    Between c (t.tails path) ↔
      ∃ x rest more, x < '/' ∧
        t.HasNode (TreePath.components path ++ (c ++ x :: rest) :: more) := by
  constructor
  · rintro ⟨x, m, hx, hm⟩
    obtain ⟨more, hnode, -⟩ := h.exists_of_mem_tails hm
    rw [head_append hc, head_cons_of_ne hx.ne] at hnode
    exact ⟨x, head m, more, hx, hnode⟩
  · rintro ⟨x, rest, more, hx, hnode⟩
    obtain ⟨tail, htail⟩ := exists_intercalate_eq (c ++ x :: rest) more
    refine ⟨x, rest ++ tail, hx, (h.mem_tails_iff path).2 ⟨_, more, hnode, ?_⟩⟩
    rw [htail, List.append_assoc, List.cons_append]

theorem Tidy.parted_iff (h : Tidy t) (path : String) (hc : '/' ∉ c) :
    Parted c (t.tails path) ↔ t.ListedTwice (TreePath.components path) c := by
  constructor
  · rintro ⟨hself, hslash, hbetween⟩
    exact ⟨(h.self_mem_tails_iff path hc).1 hself, (h.slash_mem_tails_iff path hc).1 hslash,
      (h.between_tails_iff path hc).1 hbetween⟩
  · rintro ⟨hnode, hbelow, hbetween⟩
    exact ⟨(h.self_mem_tails_iff path hc).2 hnode, (h.slash_mem_tails_iff path hc).2 hbelow,
      (h.between_tails_iff path hc).2 hbetween⟩

theorem count_children (t : PropertyTree V) (path c : String) :
    (t.children path).count c = (dropRepeats ((t.tails path).map head)).count c.toList := by
  rw [children_eq]
  conv_lhs => rw [← String.ofList_toList (s := c)]
  exact List.count_map_of_injective _ String.ofList (fun _ _ => String.ofList_injective) c.toList

theorem Tidy.mem_children_iff (h : Tidy t) (path c : String) :
    c ∈ t.children path ↔ ∃ more, t.HasNode (TreePath.components path ++ c.toList :: more) := by
  rw [← h.mem_heads_iff, ← mem_dropRepeats, ← List.count_pos_iff, count_children,
    List.count_pos_iff]

/-- A name stands in a listing twice, once or not at all. -/
theorem Tidy.count_children_cases (h : Tidy t) (path c : String) :
    let twice := t.ListedTwice (TreePath.components path) c.toList
    twice ∧ (t.children path).count c = 2 ∨
      ¬ twice ∧ c ∈ t.children path ∧ (t.children path).count c = 1 ∨
      ¬ twice ∧ c ∉ t.children path ∧ (t.children path).count c = 0 := by
  intro twice
  by_cases hmem : c ∈ t.children path
  case neg =>
    have hnot : ¬ twice := fun htwice =>
      hmem ((h.mem_children_iff path c).2 ⟨[], htwice.node⟩)
    exact .inr (.inr ⟨hnot, hmem, List.count_eq_zero.2 hmem⟩)
  case pos =>
    obtain ⟨more, hnode⟩ := (h.mem_children_iff path c).1 hmem
    have hc : '/' ∉ c.toList := (hnode.component c.toList (by simp)).slash
    have hcount := count_heads hc (h.ordered_tails path)
    rw [← count_children] at hcount
    by_cases htwice : twice
    · rw [if_pos ((h.parted_iff path hc).2 htwice)] at hcount
      exact .inl ⟨htwice, hcount⟩
    · rw [if_neg (mt (h.parted_iff path hc).1 htwice),
        if_pos ((h.mem_heads_iff path).2 ⟨more, hnode⟩)] at hcount
      exact .inr (.inl ⟨htwice, hmem, hcount⟩)

/-- What a listing of the names right below a path has, in a tree that began empty: the names that
come right after the path in the components of nodes, once each, but for those that the order of the
paths parts, which it has twice. -/
theorem children_account (requests : List (Request V κ)) (path : String) :
    let t := (empty : PropertyTree V).run requests
    (∀ c, c ∈ t.children path ↔
        ∃ more, t.HasNode (TreePath.components path ++ c.toList :: more)) ∧
      (∀ c, (t.children path).count c ≤ 2) ∧
      (∀ c, (t.children path).count c = 2 ↔
        t.ListedTwice (TreePath.components path) c.toList) ∧
      ((t.children path).Nodup ↔
        ∀ c : String, ¬ t.ListedTwice (TreePath.components path) c.toList) := by
  intro t
  have h : Tidy t := tidy_empty.run requests
  have htwice : ∀ c, (t.children path).count c = 2 ↔
      t.ListedTwice (TreePath.components path) c.toList := by
    intro c
    rcases h.count_children_cases path c with ⟨hc, hcount⟩ | ⟨hc, -, hcount⟩ | ⟨hc, -, hcount⟩
    · exact iff_of_true hcount hc
    · exact iff_of_false (by omega) hc
    · exact iff_of_false (by omega) hc
  have hle : ∀ c, (t.children path).count c ≤ 2 := by
    intro c
    rcases h.count_children_cases path c with ⟨-, hcount⟩ | ⟨-, -, hcount⟩ | ⟨-, -, hcount⟩ <;>
      omega
  refine ⟨h.mem_children_iff path, hle, htwice, ?_⟩
  rw [List.nodup_iff_count_le_one]
  refine forall_congr' fun c => ?_
  rw [← htwice c]
  have := hle c
  omega

end

/-- A node with another below it, and a sibling whose name goes on from its name with a hyphen. -/
def hyphenated : List (Request Property PropertyType) :=
  [.create "/a" (.text "x"), .create "/a-b" (.text "x"), .create "/a/c" (.text "x")]

/-- The name of a node stands twice in a listing. -/
theorem listed_twice_hyphenated :
    ((empty : PropertyTree).run hyphenated).children "/" = ["a", "a-b", "a"] := by
  decide +kernel
end PropertyTree

end SoftRadio

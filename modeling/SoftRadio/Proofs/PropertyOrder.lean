import Mathlib.Data.String.Basic
import SoftRadio.Proofs.PropertyMap

/-!
# Nodes in order

Whatever was asked of a tree that began empty, its nodes are in the order of their paths, each under
the written form of its path.

* `Tidy`: such a tree.
* `Tidy.create`, `Tidy.set`: a write that is accepted keeps it so; `Tidy.serve`, `Tidy.run`.
* `HasNode`, `Tidy.hasNode_iff`: the nodes told by their components.
-/

namespace SoftRadio

namespace PropertyTree

section

variable {V κ : Type} [Typed V κ] [DecidableEq κ] {t t' : PropertyTree V} {path p : String} {v : V}

def paths (t : PropertyTree V) : List String := t.nodes.map Prod.fst

theorem find?_eq_none_iff : t.find? p = none ↔ p ∉ t.paths := by
  unfold find? paths
  rw [Option.map_eq_none_iff, List.find?_eq_none, List.mem_map]
  constructor
  · rintro h ⟨e, he, heq⟩
    exact h e he (decide_eq_true heq)
  · intro h e he heq
    exact h ⟨e, he, of_decide_eq_true heq⟩

theorem mem_paths_insertNode {nodes : List (String × V)} :
    p ∈ (insertNode path v nodes).map Prod.fst ↔ p = path ∨ p ∈ nodes.map Prod.fst := by
  induction nodes with
  | nil => simp [insertNode]
  | cons e rest ih =>
    rw [insertNode]
    split
    · simp
    · rw [List.map_cons, List.mem_cons, ih, List.map_cons, List.mem_cons]
      exact or_left_comm

theorem paths_replaceNode (nodes : List (String × V)) :
    (replaceNode path v nodes).map Prod.fst = nodes.map Prod.fst := by
  induction nodes with
  | nil => rfl
  | cons e rest ih =>
    rw [replaceNode]
    split
    · rfl
    · rw [List.map_cons, ih, List.map_cons]

theorem ordered_insertNode {nodes : List (String × V)} (hnew : path ∉ nodes.map Prod.fst)
    (h : (nodes.map Prod.fst).Pairwise (· < ·)) :
    ((insertNode path v nodes).map Prod.fst).Pairwise (· < ·) := by
  induction nodes with
  | nil => exact List.pairwise_singleton _ _
  | cons e rest ih =>
    obtain ⟨hne, hnewRest⟩ := not_or.1 (mt List.mem_cons.2 hnew)
    obtain ⟨he, hrest⟩ := List.pairwise_cons.1 h
    rw [insertNode]
    split
    next hlt =>
      refine List.pairwise_cons.2 ⟨?_, h⟩
      intro q hq
      rcases List.mem_cons.1 hq with rfl | hq
      · exact hlt
      · exact hlt.trans (he q hq)
    next hle =>
      refine List.pairwise_cons.2 ⟨?_, ih hnewRest hrest⟩
      intro q hq
      rcases mem_paths_insertNode.1 hq with rfl | hq
      · exact lt_of_le_of_ne (not_lt.1 hle) (Ne.symm hne)
      · exact he q hq

/-- The nodes are in the order of their paths, each under the written form of its path. -/
structure Tidy (t : PropertyTree V) : Prop where
  ordered : t.paths.Pairwise (· < ·)
  written : ∀ p ∈ t.paths, TreePath.normal p = p

theorem tidy_empty : Tidy (empty : PropertyTree V) := ⟨.nil, nofun⟩

theorem Tidy.create (h : Tidy t) (hc : t.create path v = .ok t') : Tidy t' := by
  have hnew := find?_eq_none_iff.1 (find?_of_create hc).1
  unfold PropertyTree.create at hc
  dsimp only at hc
  split at hc
  · cases hc
  · cases hc
    refine ⟨ordered_insertNode hnew h.ordered, ?_⟩
    intro p hp
    rcases mem_paths_insertNode.1 hp with rfl | hp
    · exact TreePath.normal_ofComponents fun _ => TreePath.component_of_mem_components
    · exact h.written p hp

theorem Tidy.set (h : Tidy t) (hs : t.set path v = .ok t') : Tidy t' := by
  unfold PropertyTree.set at hs
  dsimp only at hs
  split at hs
  · cases hs
  · split at hs
    · cases hs
      have hpaths : paths ⟨replaceNode (TreePath.normal path) v t.nodes⟩ = t.paths :=
        paths_replaceNode t.nodes
      exact ⟨by rw [hpaths]; exact h.ordered, by rw [hpaths]; exact h.written⟩
    · cases hs

theorem Tidy.serve (h : Tidy t) (r : Request V κ) : Tidy (t.serve r).2 := by
  cases r with
  | get path type => exact h
  | contains path => exact h
  | create path v =>
    unfold PropertyTree.serve
    dsimp only
    cases hc : t.create path v with
    | error f => exact h
    | ok t' => exact h.create hc
  | set path v =>
    unfold PropertyTree.serve
    dsimp only
    cases hs : t.set path v with
    | error f => exact h
    | ok t' => exact h.set hs

theorem Tidy.run (h : Tidy t) (requests : List (Request V κ)) : Tidy (t.run requests) := by
  induction requests generalizing t with
  | nil => exact h
  | cons r rest ih => exact ih (h.serve r)
/-- There is a node with these components. -/
def HasNode (t : PropertyTree V) (parts : List (List Char)) : Prop :=
  ∃ path, t.contains path = true ∧ TreePath.components path = parts

theorem HasNode.component {parts : List (List Char)} (h : t.HasNode parts) :
    ∀ part ∈ parts, TreePath.Component part := by
  obtain ⟨path, -, rfl⟩ := h
  exact fun _ => TreePath.component_of_mem_components

theorem contains_iff : t.contains path = true ↔ TreePath.normal path ∈ t.paths := by
  unfold contains
  rw [Option.isSome_iff_ne_none, ne_eq, find?_eq_none_iff, not_not]

theorem Tidy.hasNode_iff (h : Tidy t) {parts : List (List Char)} :
    t.HasNode parts ↔ ∃ p ∈ t.paths, TreePath.components p = parts := by
  constructor
  · rintro ⟨path, hpath, rfl⟩
    refine ⟨TreePath.normal path, contains_iff.1 hpath, ?_⟩
    exact TreePath.components_ofComponents fun _ => TreePath.component_of_mem_components
  · rintro ⟨p, hp, rfl⟩
    exact ⟨p, contains_iff.2 (by rwa [h.written p hp]), rfl⟩

end

end PropertyTree

end SoftRadio

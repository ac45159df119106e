import SoftRadio.PropertyTree
import SoftRadio.Proofs.Outcome
import SoftRadio.Proofs.Steps
import SoftRadio.Proofs.Text.Pieces

/-!
# Paths and nodes of the property tree

A path is told by its components, and a list of components by the path that it is written as, so
that different lists of components are different nodes.  A node is found by the written form of
its path and holds what was last put there; it goes on to hold a value of the type it began with.

* `Slashed`: a text and its components; `components_eq_iff`: a path has no others.
* `components_ofComponents`: components are read as they were written; `normal_inj`.
* `createInPlace`, `setInPlace`: a tree is written in place, after all that may be refused.
* `find?_of_create`, `find?_of_set`: what is found after a write that was accepted.
* `sow`: a node is put into a tree that may have it already; `find?_foldl_sow`.
* `lastAt`: the last entry for a path in a list of writes.
-/

namespace SoftRadio

namespace TreePath

/-- What can stand between slashes. -/
structure Component (part : List Char) : Prop where
  ne_nil : part ≠ []
  slash : '/' ∉ part

/-- The pieces of a text between slashes, without the empty ones. -/
def pieces (cs : List Char) : List (List Char) := (Text.splitOn '/' cs).filter (!·.isEmpty)

theorem pieces_append_slash (xs ys : List Char) :
    pieces (xs ++ '/' :: ys) = pieces xs ++ pieces ys := by
  unfold pieces
  rw [Text.splitOn_eq, Text.splitOn_eq, Text.splitOn_eq, List.splitOn_append_cons_self,
    List.filter_append]

theorem pieces_component {part : List Char} (h : Component part) : pieces part = [part] := by
  unfold pieces
  rw [Text.splitOn_eq, List.splitOn_eq_singleton h.slash,
    List.filter_cons_of_pos (by simpa using h.ne_nil)]
  rfl

theorem component_of_mem_components {path : String} {part : List Char}
    (h : part ∈ components path) : Component part := by
  obtain ⟨hpiece, hne⟩ := List.mem_filter.1 h
  exact ⟨by simpa using hne, Text.not_mem_of_mem_splitOn hpiece⟩

/-- A text and its components, from its start on: slashes are passed over, and a component ends
where the next slash is or the text ends. -/
inductive Slashed : (cs : List Char) → (parts : List (List Char)) → Prop
  | done : Slashed [] []
  | slash {cs : List Char} {parts : List (List Char)} (h : Slashed cs parts) :
      Slashed ('/' :: cs) parts
  | last {part : List Char} (hpart : Component part) : Slashed part [part]
  | part {part cs : List Char} {parts : List (List Char)} (hpart : Component part)
      (h : Slashed cs parts) : Slashed (part ++ '/' :: cs) (part :: parts)

theorem Slashed.pieces_eq {cs : List Char} {parts : List (List Char)} (h : Slashed cs parts) :
    pieces cs = parts := by
  induction h with
  | done => rfl
  | slash h ih => exact (pieces_append_slash [] _).trans ih
  | last hpart => exact pieces_component hpart
  | part hpart h ih => rw [pieces_append_slash, pieces_component hpart, ih, List.singleton_append]

theorem Component.cons {c : Char} {part : List Char} (hc : c ≠ '/') (h : Component part) :
    Component (c :: part) :=
  ⟨List.cons_ne_nil c part, List.not_mem_cons_of_ne_of_not_mem hc.symm h.slash⟩

/-- Every text has components.  What is no slash begins one of its own, or makes the first one
longer. -/
theorem exists_slashed (cs : List Char) : ∃ parts, Slashed cs parts := by
  induction cs with
  | nil => exact ⟨[], .done⟩
  | cons c cs ih =>
    obtain ⟨parts, h⟩ := ih
    by_cases hc : c = '/'
    · subst hc
      exact ⟨parts, .slash h⟩
    · have hone : Component [c] := ⟨List.cons_ne_nil c [], by simpa using Ne.symm hc⟩
      cases h with
      | done => exact ⟨[[c]], .last hone⟩
      | slash h => exact ⟨[c] :: parts, .part hone h⟩
      | last hpart => exact ⟨[c :: cs], .last (hpart.cons hc)⟩
      | @part part _ rest hpart h => exact ⟨(c :: part) :: rest, .part (hpart.cons hc) h⟩

/-- A path has no other components than those it is split into. -/
theorem components_eq_iff {path : String} {parts : List (List Char)} :
    components path = parts ↔ Slashed path.toList parts := by
  refine ⟨?_, Slashed.pieces_eq⟩
  rintro rfl
  obtain ⟨parts, h⟩ := exists_slashed path.toList
  rw [show components path = parts from h.pieces_eq]
  exact h

theorem pieces_intercalate {parts : List (List Char)} (h : ∀ part ∈ parts, Component part) :
    pieces (List.intercalate ['/'] parts) = parts := by
  induction parts with
  | nil => rfl
  | cons part rest ih =>
    obtain ⟨hpart, hrest⟩ := List.forall_mem_cons.1 h
    cases rest with
    | nil => simpa using pieces_component hpart
    | cons next rest =>
      rw [List.intercalate_cons_cons, List.append_assoc, List.singleton_append,
        pieces_append_slash, pieces_component hpart, ih hrest]
      rfl

/-- Components are read as they were written. -/
theorem components_ofComponents {parts : List (List Char)} (h : ∀ part ∈ parts, Component part) :
    components (ofComponents parts) = parts := by
  show pieces (ofComponents parts).toList = parts
  rw [ofComponents, String.toList_ofList]
  exact (pieces_append_slash [] _).trans (pieces_intercalate h)

/-- What is written in this form stays as it is. -/
theorem normal_ofComponents {parts : List (List Char)} (h : ∀ part ∈ parts, Component part) :
    normal (ofComponents parts) = ofComponents parts := by
  rw [normal, components_ofComponents h]

theorem ofComponents_inj {parts other : List (List Char)} (h : ∀ part ∈ parts, Component part)
    (hother : ∀ part ∈ other, Component part) (heq : ofComponents parts = ofComponents other) :
    parts = other := by
  rw [← components_ofComponents h, heq, components_ofComponents hother]

/-- Paths are written alike just if they have the same components. -/
theorem normal_inj {path other : String} :
    normal path = normal other ↔ components path = components other := by
  constructor
  · exact ofComponents_inj (fun _ => component_of_mem_components)
      (fun _ => component_of_mem_components)
  · intro h
    rw [normal, normal, h]

/-- A decimal number is a component. -/
theorem component_toDigits (n : Nat) : Component (Nat.toDigits 10 n) := by
  refine ⟨Nat.toDigits_ne_nil, fun h => ?_⟩
  have hdigit := Nat.isDigit_of_mem_toDigits (by omega) (by omega) h
  revert hdigit
  decide

theorem toDigits_inj {n m : Nat} (h : Nat.toDigits 10 n = Nat.toDigits 10 m) : n = m := by
  have hread := congrArg (Nat.ofDigitChars 10 · 0) h
  simpa [Nat.ofDigitChars_ten_toDigits] using hread

end TreePath

namespace PropertyTree

section

variable {V κ : Type} [Typed V κ] [DecidableEq κ] {t t' : PropertyTree V} {path : String} {v : V}

/-- A node that is created is found, besides those that were there. -/
theorem find?_of_create (h : t.create path v = .ok t') :
    t.find? (TreePath.normal path) = none ∧
      ∀ p, t'.find? p = if p = TreePath.normal path then some v else t.find? p := by
  unfold create at h
  dsimp only at h
  split at h
  · cases h
  next hnone =>
    cases h
    exact ⟨hnone, fun p => find?_insertNode _ p v t.nodes (Option.map_eq_none_iff.1 hnone)⟩

/-- A node that is set was there, with a value of the same type. -/
theorem find?_of_set (h : t.set path v = .ok t') :
    (∃ w, t.find? (TreePath.normal path) = some w ∧ Typed.type w = Typed.type v) ∧
      ∀ p, t'.find? p = if p = TreePath.normal path then some v else t.find? p := by
  unfold PropertyTree.set at h
  dsimp only at h
  split at h
  · cases h
  next w hw =>
    split at h
    next htype =>
      cases h
      refine ⟨⟨w, hw, htype⟩, fun p => ?_⟩
      refine (find?_replaceNode _ p v t.nodes).trans ?_
      obtain ⟨e, he, -⟩ := Option.map_eq_some_iff.1 hw
      rw [he]
      rfl
    · cases h

theorem get_of_find? (h : t.find? (TreePath.normal path) = some v) :
    t.get path (Typed.type v) = .ok v := by
  unfold get
  dsimp only
  rw [h]
  exact if_pos rfl

/-! ## Writes in place -/

open Steps

/-- Add a node in place, after the look for one that is there. -/
def createInPlace (path : String) (v : V) : Steps (PropertyTree V) Unit := do
  let path := TreePath.normal path
  match ← look fun t => .ok (t.find? path) with
  | some _ => check (refuse (.nodeExists path))
  | none => modify fun t => ⟨insertNode path v t.nodes⟩

/-- Change a value in place, after the look at the one that is there and at its type. -/
def setInPlace (path : String) (v : V) : Steps (PropertyTree V) Unit := do
  let path := TreePath.normal path
  match ← look fun t => .ok (t.find? path) with
  | none => check (refuse (.noPath path))
  | some w =>
    if Typed.type w = Typed.type v then modify fun t => ⟨replaceNode path v t.nodes⟩
    else check (refuse (.wrongPropertyType path (Typed.name (V := V) (Typed.type v))))

variable {F : Fault → Prop}

omit [Typed V κ] [DecidableEq κ] in
theorem sets_createInPlace (t : PropertyTree V) (path : String) (v : V) :
    Sets F (createInPlace path v) t (t.create path v) := by
  refine endsAs_ok_bind (b := t.find? (TreePath.normal path)) rfl ?_
  unfold create
  dsimp only
  cases t.find? (TreePath.normal path) with
  | some w => exact endsAs_refuse _
  | none => exact sets_modify _

theorem sets_setInPlace (t : PropertyTree V) (path : String) (v : V) :
    Sets F (setInPlace path v) t (t.set path v) := by
  refine endsAs_ok_bind (b := t.find? (TreePath.normal path)) rfl ?_
  unfold PropertyTree.set
  dsimp only
  cases t.find? (TreePath.normal path) with
  | none => exact endsAs_refuse _
  | some w => exact .ite (fun _ => sets_modify _) fun _ => endsAs_refuse _

end

/-! ## Properties of a radio -/

variable {t : PropertyTree} {path : String}

theorem getText_of_find? {text : String} (h : t.find? (TreePath.normal path) = some (.text text)) :
    t.getText path = .ok text := by
  unfold getText
  rw [show t.get path .text = _ from get_of_find? h]
  rfl

theorem getDboard_of_find? {record : DboardEeprom}
    (h : t.find? (TreePath.normal path) = some (.dboard record)) :
    t.getDboard path = .ok record := by
  unfold getDboard
  rw [show t.get path .dboard = _ from get_of_find? h]
  rfl

theorem getAddress_of_find? {memory : Address}
    (h : t.find? (TreePath.normal path) = some (.address memory)) :
    t.getAddress path = .ok memory := by
  unfold getAddress
  rw [show t.get path .address = _ from get_of_find? h]
  rfl

/-! ## Sowing -/

/-- Put a node into a tree, unless there is one at its path already. -/
def sow (t : PropertyTree) (e : String × Property) : PropertyTree :=
  match t.create e.1 e.2 with
  | .ok t => t
  | .error _ => t

theorem find?_sow (t : PropertyTree) (e : String × Property) (p : String) :
    (t.sow e).find? p = (t.find? p).or (if p = TreePath.normal e.1 then some e.2 else none) := by
  unfold sow
  split
  next t' h =>
    obtain ⟨hnone, hfind⟩ := find?_of_create h
    rw [hfind]
    split
    next hp => rw [hp, hnone, Option.none_or]
    · rw [Option.or_none]
  next f h =>
    unfold create at h
    dsimp only at h
    split at h
    next w hw =>
      split
      next hp => rw [hp, hw, Option.some_or]
      · rw [Option.or_none]
    · cases h

/-- What is found in a tree after sowing is what was there or else what was sown first. -/
theorem find?_foldl_sow (t : PropertyTree) (entries : List (String × Property)) (p : String) :
    (entries.foldl sow t).find? p =
      (t.find? p).or ((entries.find? fun e => TreePath.normal e.1 = p).map Prod.snd) := by
  induction entries generalizing t with
  | nil => rw [List.foldl_nil, List.find?_nil, Option.map_none, Option.or_none]
  | cons e rest ih =>
    rw [List.foldl_cons, ih, find?_sow, Option.or_assoc]
    congr 1
    by_cases hp : p = TreePath.normal e.1
    · simp [hp]
    · simp [hp, Ne.symm hp]

/-! ## The last write -/

/-- The last entry for a path in a list of writes. -/
def lastAt (path : String) (writes : List (String × Property)) : Option Property :=
  (writes.reverse.find? fun e => TreePath.normal e.1 = TreePath.normal path).map Prod.snd

theorem lastAt_append (path : String) (early late : List (String × Property)) :
    lastAt path (early ++ late) = (lastAt path late).or (lastAt path early) := by
  unfold lastAt
  rw [List.reverse_append, List.find?_append, Option.map_or]

end PropertyTree

end SoftRadio

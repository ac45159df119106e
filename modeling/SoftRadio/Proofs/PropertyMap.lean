import Mathlib.Data.Finmap
import SoftRadio.Proofs.PropertyTree

/-!
# The property tree as a finite map

Whatever was asked of a tree that began empty, what it holds is a finite map from lists of
components to values: each request that was accepted and writes has put its value into the map, in
place of the one that was there.  The tree answers every request by what the map has for the
components of its path.

* `Request`, `serve`: a typed access to the tree, its outcome and the tree that it leaves.
* `Directory`: the finite map, with `Directory.ofWrites` for what a list of writes has put in it.
* `serve_eq_serveInPlace`: what a refused request leaves is what its steps have written so far.
* `holds_serve`, `holds_run`: the tree holds its directory, through one request and through a run.
* `AnswersAs`: how a tree answers that holds a directory.
* `sameType_serve`, `sameType_run`: a node stays, with a value of its type.
-/

namespace SoftRadio

namespace PropertyTree

/-- An access to a tree. -/
inductive Request (V κ : Type) where
  | create (path : String) (v : V)
  | get (path : String) (type : κ)
  | set (path : String) (v : V)
  | contains (path : String)

/-- What an access that was accepted comes back with. -/
inductive Reply (V : Type) where
  | done
  | value (v : V)
  | known (b : Bool)

section

variable {V κ : Type} [Typed V κ] [DecidableEq κ]

/-- Go on with the tree that a write has made, if it has. -/
def settle (t : PropertyTree V) :
    Except Fault (PropertyTree V) → Except Fault (Reply V) × PropertyTree V
  | .ok t' => (.ok .done, t')
  | .error f => (.error f, t)

/-- The outcome of a request, and the tree that it leaves. -/
def serve (t : PropertyTree V) : Request V κ → Except Fault (Reply V) × PropertyTree V
  | .create path v => t.settle (t.create path v)
  | .get path type => ((t.get path type).map .value, t)
  | .set path v => t.settle (t.set path v)
  | .contains path => (.ok (.known (t.contains path)), t)

/-- A request step by step, on the tree that is there. -/
def serveInPlace : Request V κ → Steps (PropertyTree V) (Reply V)
  | .create path v => do
    createInPlace path v
    return .done
  | .get path type => Steps.look fun t => (t.get path type).map .value
  | .set path v => do
    setInPlace path v
    return .done
  | .contains path => Steps.look fun t => .ok (.known (t.contains path))

theorem settle_eq_of_sets {t : PropertyTree V} {x : Steps (PropertyTree V) Unit}
    {written : Except Fault (PropertyTree V)} (h : Steps.Sets (fun _ => True) x t written) :
    t.settle written = (x >>= fun _ => pure .done) t := by
  rcases h.outcome with ⟨_, t', hx, rfl⟩ | ⟨f, t', hx, rfl, hkept⟩
  · rw [Steps.bind_of_ok hx]
    rfl
  · rw [hkept trivial] at hx
    rw [Steps.bind_of_error hx]
    rfl

/-- A request that is refused leaves what its steps have written by then, which is nothing: the
one write of each is its last step. -/
theorem serve_eq_serveInPlace (t : PropertyTree V) (r : Request V κ) :
    t.serve r = serveInPlace r t := by
  cases r with
  | create path v => exact settle_eq_of_sets (sets_createInPlace t path v)
  | get path type => rfl
  | set path v => exact settle_eq_of_sets (sets_setInPlace t path v)
  | contains path => rfl

def run (t : PropertyTree V) (requests : List (Request V κ)) : PropertyTree V :=
  requests.foldl (fun t r => (t.serve r).2) t

/-- What a request writes if the tree accepts it. -/
def written (t : PropertyTree V) (r : Request V κ) : Option (String × V) :=
  match r, (t.serve r).1 with
  | .create path v, .ok _ => some (path, v)
  | .set path v, .ok _ => some (path, v)
  | _, _ => none

/-- The writes that are accepted in a run, in order. -/
def accepted (t : PropertyTree V) : List (Request V κ) → List (String × V)
  | [] => []
  | r :: rest => (t.written r).toList ++ (t.serve r).2.accepted rest

end

/-! ## Directories -/

/-- A finite map from lists of components to values. -/
abbrev Directory (V : Type) := Finmap fun _ : List (List Char) => V

namespace Directory

variable {V : Type}

/-- What the map has for a path. -/
def at? (m : Directory V) (path : String) : Option V := m.lookup (TreePath.components path)

/-- Put a value at a path, in place of the one that is there. -/
def put (m : Directory V) (e : String × V) : Directory V :=
  m.insert (TreePath.components e.1) e.2

/-- What a list of writes has put into an empty map. -/
def ofWrites (writes : List (String × V)) : Directory V := writes.foldl put ∅

theorem at?_put (m : Directory V) (e : String × V) (path : String) :
    (m.put e).at? path =
      if TreePath.normal path = TreePath.normal e.1 then some e.2 else m.at? path := by
  unfold at? put
  split
  next h => rw [TreePath.normal_inj.1 h, Finmap.lookup_insert]
  next h => exact Finmap.lookup_insert_of_ne m fun heq => h (TreePath.normal_inj.2 heq)

end Directory

/-- The tree has for every path what the map has. -/
def Holds {V : Type} (t : PropertyTree V) (m : Directory V) : Prop :=
  ∀ path, t.find? (TreePath.normal path) = m.at? path

section

variable {V κ : Type} [Typed V κ] [DecidableEq κ] {t : PropertyTree V} {m : Directory V}

theorem holds_empty : Holds (empty : PropertyTree V) ∅ := by
  intro path
  show none = (∅ : Directory V).lookup (TreePath.components path)
  rw [Finmap.lookup_empty]

theorem Holds.put {t' : PropertyTree V} {path : String} {v : V} (h : Holds t m)
    (hfind : ∀ p, t'.find? p = if p = TreePath.normal path then some v else t.find? p) :
    Holds t' (m.put (path, v)) := by
  intro p
  rw [hfind, Directory.at?_put, h p]

/-- A request puts what it writes into the map, and nothing else. -/
theorem holds_serve (h : Holds t m) (r : Request V κ) :
    Holds (t.serve r).2 ((t.written r).toList.foldl Directory.put m) := by
  cases r with
  | get path type => exact h
  | contains path => exact h
  | create path v =>
    unfold written serve
    dsimp only
    cases hc : t.create path v with
    | error f => exact h
    | ok t' => exact h.put (find?_of_create hc).2
  | set path v =>
    unfold written serve
    dsimp only
    cases hs : t.set path v with
    | error f => exact h
    | ok t' => exact h.put (find?_of_set hs).2

theorem holds_run (h : Holds t m) (requests : List (Request V κ)) :
    Holds (t.run requests) ((t.accepted requests).foldl Directory.put m) := by
  induction requests generalizing t m with
  | nil => exact h
  | cons r rest ih =>
    have hstep := ih (holds_serve h r)
    rw [← List.foldl_append] at hstep
    exact hstep

/-! ## Answers -/

/-- A step that is refused with an error of this class. -/
def RefusedAs {β : Type} (x : Except Fault β) (kind : ErrorKind) : Prop :=
  ∃ e, x = refuse e ∧ e.kind = kind

/-- A tree that answers every request by what the map has for the path. -/
structure AnswersAs (t : PropertyTree V) (m : Directory V) : Prop where
  contains (path : String) : t.contains path = true ↔ ∃ v, m.at? path = some v
  create_ok (path : String) (v : V) : (∃ t', t.create path v = .ok t') ↔ m.at? path = none
  create_taken (path : String) (v w : V) :
    m.at? path = some w → RefusedAs (t.create path v) .runtime
  set_ok (path : String) (v : V) :
    (∃ t', t.set path v = .ok t') ↔ ∃ w, m.at? path = some w ∧ Typed.type w = Typed.type v
  set_absent (path : String) (v : V) : m.at? path = none → RefusedAs (t.set path v) .lookup
  set_mistyped (path : String) (v w : V) :
    m.at? path = some w → Typed.type w ≠ Typed.type v → RefusedAs (t.set path v) .type
  get_ok (path : String) (type : κ) (v : V) :
    t.get path type = .ok v ↔ m.at? path = some v ∧ Typed.type v = type
  get_absent (path : String) (type : κ) : m.at? path = none → RefusedAs (t.get path type) .lookup
  get_mistyped (path : String) (type : κ) (w : V) :
    m.at? path = some w → Typed.type w ≠ type → RefusedAs (t.get path type) .type

theorem create_of_find?_none {path : String} (v : V)
    (h : t.find? (TreePath.normal path) = none) : ∃ t', t.create path v = .ok t' := by
  refine ⟨⟨insertNode (TreePath.normal path) v t.nodes⟩, ?_⟩
  unfold create
  dsimp only
  rw [h]

theorem create_taken_of_find? {path : String} (v : V) {w : V}
    (h : t.find? (TreePath.normal path) = some w) : RefusedAs (t.create path v) .runtime := by
  refine ⟨.nodeExists (TreePath.normal path), ?_, rfl⟩
  unfold create
  dsimp only
  rw [h]

theorem set_of_find? {path : String} {v w : V} (h : t.find? (TreePath.normal path) = some w)
    (htype : Typed.type w = Typed.type v) : ∃ t', t.set path v = .ok t' := by
  refine ⟨⟨replaceNode (TreePath.normal path) v t.nodes⟩, ?_⟩
  unfold PropertyTree.set
  dsimp only
  rw [h]
  exact if_pos htype

theorem set_absent_of_find? {path : String} (v : V)
    (h : t.find? (TreePath.normal path) = none) : RefusedAs (t.set path v) .lookup := by
  refine ⟨.noPath (TreePath.normal path), ?_, rfl⟩
  unfold PropertyTree.set
  dsimp only
  rw [h]

theorem set_mistyped_of_find? {path : String} {v w : V}
    (h : t.find? (TreePath.normal path) = some w) (htype : Typed.type w ≠ Typed.type v) :
    RefusedAs (t.set path v) .type := by
  refine ⟨.wrongPropertyType (TreePath.normal path) (Typed.name (V := V) (Typed.type v)), ?_, rfl⟩
  unfold PropertyTree.set
  dsimp only
  rw [h]
  exact if_neg htype

theorem get_eq_ok_iff {path : String} {type : κ} {v : V} :
    t.get path type = .ok v ↔
      t.find? (TreePath.normal path) = some v ∧ Typed.type v = type := by
  constructor
  · intro h
    unfold get at h
    dsimp only at h
    split at h
    · cases h
    next w hw =>
      split at h
      next htype =>
        cases h
        exact ⟨hw, htype⟩
      · cases h
  · rintro ⟨hfind, rfl⟩
    exact get_of_find? hfind

theorem get_absent_of_find? {path : String} (type : κ)
    (h : t.find? (TreePath.normal path) = none) : RefusedAs (t.get path type) .lookup := by
  refine ⟨.noPath (TreePath.normal path), ?_, rfl⟩
  unfold get
  dsimp only
  rw [h]

theorem get_mistyped_of_find? {path : String} {type : κ} {w : V}
    (h : t.find? (TreePath.normal path) = some w) (htype : Typed.type w ≠ type) :
    RefusedAs (t.get path type) .type := by
  refine ⟨.wrongPropertyType (TreePath.normal path) (Typed.name (V := V) type), ?_, rfl⟩
  unfold get
  dsimp only
  rw [h]
  exact if_neg htype

theorem answersAs_of_holds (h : Holds t m) : AnswersAs t m where
  contains path := by
    rw [← h path]
    exact Option.isSome_iff_exists
  create_ok path v := by
    rw [← h path]
    constructor
    · rintro ⟨t', hc⟩
      exact (find?_of_create hc).1
    · exact create_of_find?_none v
  create_taken path v w hw := create_taken_of_find? v ((h path).trans hw)
  set_ok path v := by
    rw [← h path]
    constructor
    · rintro ⟨t', hs⟩
      exact (find?_of_set hs).1
    · rintro ⟨w, hw, htype⟩
      exact set_of_find? hw htype
  set_absent path v hnone := set_absent_of_find? v ((h path).trans hnone)
  set_mistyped path v w hw := set_mistyped_of_find? ((h path).trans hw)
  get_ok path type v := by
    rw [← h path]
    exact get_eq_ok_iff
  get_absent path type hnone := get_absent_of_find? type ((h path).trans hnone)
  get_mistyped path type w hw := get_mistyped_of_find? ((h path).trans hw)

/-! ## The type of a node -/

/-- The value of a node may change, but not its type. -/
theorem sameType_serve {p : String} {v : V} (h : t.find? p = some v) (r : Request V κ) :
    ∃ w, (t.serve r).2.find? p = some w ∧ Typed.type w = Typed.type v := by
  cases r with
  | get path type => exact ⟨v, h, rfl⟩
  | contains path => exact ⟨v, h, rfl⟩
  | create path u =>
    unfold serve
    dsimp only
    cases hc : t.create path u with
    | error f => exact ⟨v, h, rfl⟩
    | ok t' =>
      obtain ⟨hnone, hfind⟩ := find?_of_create hc
      have hne : p ≠ TreePath.normal path := by
        rintro rfl
        rw [hnone] at h
        cases h
      exact ⟨v, (hfind p).trans ((if_neg hne).trans h), rfl⟩
  | set path u =>
    unfold serve
    dsimp only
    cases hs : t.set path u with
    | error f => exact ⟨v, h, rfl⟩
    | ok t' =>
      obtain ⟨⟨w, hw, htype⟩, hfind⟩ := find?_of_set hs
      by_cases hp : p = TreePath.normal path
      · have hvw : v = w := Option.some.inj (h.symm.trans (hp ▸ hw))
        exact ⟨u, (hfind p).trans (if_pos hp), hvw ▸ htype.symm⟩
      · exact ⟨v, (hfind p).trans ((if_neg hp).trans h), rfl⟩

theorem sameType_run {p : String} {v : V} (h : t.find? p = some v)
    (requests : List (Request V κ)) :
    ∃ w, (t.run requests).find? p = some w ∧ Typed.type w = Typed.type v := by
  induction requests generalizing t v with
  | nil => exact ⟨v, h, rfl⟩
  | cons r rest ih =>
    obtain ⟨w, hw, htype⟩ := sameType_serve h r
    obtain ⟨u, hu, hlast⟩ := ih hw
    exact ⟨u, hu, hlast.trans htype⟩

/-- A request that is refused changes nothing. -/
theorem serve_of_error {r : Request V κ} {f : Fault} (h : (t.serve r).1 = .error f) :
    (t.serve r).2 = t := by
  have hsettle : ∀ x : Except Fault (PropertyTree V),
      (t.settle x).1 = .error f → (t.settle x).2 = t := by
    intro x hx
    cases x with
    | ok t' => cases hx
    | error f' => rfl
  cases r with
  | get path type => rfl
  | contains path => rfl
  | create path v => exact hsettle _ h
  | set path v => exact hsettle _ h

/-- A tree that began empty answers as the finite map of the writes that it has accepted, where
two paths are one node just if they have the same components.  What it refuses leaves it as it
was, and what can once be read as some type can be read as that type ever after. -/
theorem run_answersAs_writes (requests later : List (Request V κ)) :
    (∀ path other : String, TreePath.normal path = TreePath.normal other ↔
        TreePath.components path = TreePath.components other) ∧
      AnswersAs (empty.run requests) (.ofWrites ((empty : PropertyTree V).accepted requests)) ∧
      (∀ r f, ((empty.run requests).serve r).1 = .error f →
        ((empty.run requests).serve r).2 = empty.run requests) ∧
      ∀ path type v, (empty.run requests).get path type = .ok v →
        ∃ w, ((empty.run requests).run later).get path type = .ok w := by
  refine ⟨fun path other => TreePath.normal_inj, answersAs_of_holds (holds_run holds_empty _),
    fun r f hf => serve_of_error hf, ?_⟩
  intro path type v hget
  obtain ⟨hfind, htype⟩ := get_eq_ok_iff.1 hget
  obtain ⟨w, hw, hsame⟩ := sameType_run hfind later
  exact ⟨w, get_eq_ok_iff.2 ⟨hw, hsame.trans htype⟩⟩

end

/-- Requests for the names of two boards, in several spellings. -/
def twoNames : List (Request Property PropertyType) :=
  [.create "/mboards//0/name" (.text "sim0"), .create "mboards/1/name/" (.text "sim1"),
    .create "mboards/0/name/" (.text "again"), .set "mboards/0/name" (.word 3),
    .set "mboards/0/name" (.text "renamed"), .set "mboards/1" (.text "lost")]

/-- Each of two nodes is found again by another spelling of its path, with the value it was last
set to, however often it was asked for something else.  The node above one of them is none. -/
theorem renamed_node :
    let t := empty.run twoNames
    TreePath.normal "/mboards/0//name" ≠ TreePath.normal "//mboards/1/name" ∧
      t.get "/mboards/0//name" .text = .ok (.text "renamed") ∧
      t.get "//mboards/1/name" .text = .ok (.text "sim1") ∧
      RefusedAs (t.set "mboards/1" (.text "lost")) .lookup := by
  intro t
  obtain ⟨hnormal, hanswers, -⟩ := run_answersAs_writes twoNames []
  refine ⟨fun h => absurd ((hnormal _ _).1 h) (by decide), ?_, ?_, ?_⟩
  · exact (hanswers.get_ok _ _ _).2 ⟨rfl, rfl⟩
  · exact (hanswers.get_ok _ _ _).2 ⟨rfl, rfl⟩
  · exact hanswers.set_absent _ _ rfl

end PropertyTree

end SoftRadio

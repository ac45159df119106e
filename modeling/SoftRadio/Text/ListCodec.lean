import SoftRadio.Capacity

/-!
Lists of texts as one text.  Elements are joined by commas; a comma or a
backslash inside an element gets a backslash in front.  The number of
elements is kept apart, because no element and one empty element are
written alike.  A reader makes room for that number of elements first, and
crashes if there cannot be so much.
-/

namespace SoftRadio.Text

/-- Escape one element. -/
def escapeItem : List Char → List Char
  | [] => []
  | c :: cs => if c = '\\' ∨ c = ',' then '\\' :: c :: escapeItem cs else c :: escapeItem cs

def joinItems : List (List Char) → List Char
  | [] => []
  | [item] => escapeItem item
  | item :: rest => escapeItem item ++ ',' :: joinItems rest

/-- The elements of an encoded text; a dangling backslash stands for nothing. -/
def splitItems : List Char → List (List Char)
  | [] => [[]]
  | '\\' :: c :: cs =>
    match splitItems cs with
    | [] => [[c]]
    | item :: rest => (c :: item) :: rest
  | ['\\'] => [[]]
  | c :: cs =>
    if c = ',' then [] :: splitItems cs
    else match splitItems cs with
      | [] => [[c]]
      | item :: rest => (c :: item) :: rest

/-- Reading starts a list, even from nothing. -/
theorem splitItems_ne_nil (cs : List Char) : splitItems cs ≠ [] := by
  fun_cases splitItems cs <;> simp

/-- An escaped element is read as it was, whatever follows. -/
theorem splitItems_escapeItem_append (item tail : List Char) :
    splitItems (escapeItem item ++ tail) =
      (item ++ (splitItems tail).headD []) :: (splitItems tail).tail := by
  induction item with
  | nil =>
    cases h : splitItems tail with
    | nil => exact absurd h (splitItems_ne_nil tail)
    | cons first rest => simp [escapeItem, h]
  | cons c cs ih =>
    by_cases hc : c = '\\' ∨ c = ','
    · simp [escapeItem, hc, splitItems, ih]
    · obtain ⟨hb, hk⟩ := not_or.1 hc
      simp only [escapeItem, if_neg hc, List.cons_append]
      rw [splitItems.eq_def]
      split
      · contradiction
      · rename_i heq
        exact absurd (List.cons.inj heq).1 hb
      · rename_i heq
        exact absurd (List.cons.inj heq).1 hb
      · rename_i heq
        obtain ⟨rfl, rfl⟩ := List.cons.inj heq
        rw [if_neg hk, ih]

/-- What is joined is split into the same elements. -/
theorem splitItems_joinItems (items : List (List Char)) (h : items ≠ []) :
    splitItems (joinItems items) = items := by
  induction items with
  | nil => exact absurd rfl h
  | cons item rest ih =>
    cases rest with
    | nil =>
      have := splitItems_escapeItem_append item []
      simpa [joinItems, splitItems] using this
    | cons next rest =>
      have hnext := ih (by simp)
      rw [joinItems, splitItems_escapeItem_append]
      · simp [splitItems, hnext]
      · simp

def encodeList (items : List String) : String :=
  String.ofList (joinItems (items.map String.toList))

/-- The elements of an encoded list of `count`. -/
def elements (encoded : String) (count : Nat) : List String :=
  if count = 0 then [] else (splitItems encoded.toList).map String.ofList

/-- The bytes that a list takes for each text in it. -/
def textSize : Nat := 24

/-- Read an encoded list of `count` elements. -/
def decodeList (encoded : String) (count : Nat) : Except Fault (List String) := do
  Capacity.reserve count textSize
  return elements encoded count

/-- A list that is encoded and split with its count comes back. -/
theorem elements_encodeList (items : List String) :
    elements (encodeList items) items.length = items := by
  unfold elements encodeList
  by_cases h : items = []
  · simp [h]
  · have hlen : items.length ≠ 0 := by simpa using h
    have hmap : items.map String.toList ≠ [] := by simpa using h
    rw [if_neg hlen, String.toList_ofList, splitItems_joinItems _ hmap, List.map_map]
    simp [Function.comp_def]

end SoftRadio.Text

import SoftRadio.Text.ListCodec
import SoftRadio.Proofs.Outcome

/-!
# Lists as one text, both ways

A list is encoded and read back as it was, and a text in which every backslash escapes something is
the encoding of its elements.  So the lists of each length and the escaped texts with one bare comma
fewer are the same things written in two ways.

* `Escaped`: a text in which every backslash escapes a backslash or a comma.
* `bareCommas`: the commas that are not escaped; `length_splitItems_of_escaped`.
* `joinItems_splitItems`: what is split is joined again; the inverse, `splitItems_joinItems`, is
  beside the codec.
* `joinItems_of_plain`: without backslashes and commas nothing is escaped.
* `list_codec_exact`: encoding and reading undo each other.
-/

namespace SoftRadio.Text

/-- Every backslash has a backslash or a comma after it that it escapes. -/
inductive Escaped : List Char → Prop
  | nil : Escaped []
  | comma {cs : List Char} : Escaped cs → Escaped (',' :: cs)
  | plain {c : Char} {cs : List Char} : c ≠ '\\' → c ≠ ',' → Escaped cs → Escaped (c :: cs)
  | pair {c : Char} {cs : List Char} : c = '\\' ∨ c = ',' → Escaped cs → Escaped ('\\' :: c :: cs)

/-- The number of commas that no backslash escapes. -/
def bareCommas : List Char → Nat
  | [] => 0
  | '\\' :: _ :: cs => bareCommas cs
  | c :: cs => if c = ',' then bareCommas cs + 1 else bareCommas cs

/-! ## Splitting, character by character -/

section

variable {c : Char} {cs item : List Char} {rest : List (List Char)}

theorem splitItems_pair (h : splitItems cs = item :: rest) :
    splitItems ('\\' :: c :: cs) = (c :: item) :: rest := by
  rw [splitItems, h]

theorem splitItems_comma (cs : List Char) : splitItems (',' :: cs) = [] :: splitItems cs := by
  have hslash : ',' ≠ '\\' := by decide
  rw [splitItems, if_pos rfl]
  · intro d ds heq
    exact absurd heq hslash
  · intro heq
    exact absurd heq hslash

theorem splitItems_plain (hslash : c ≠ '\\') (hcomma : c ≠ ',')
    (h : splitItems cs = item :: rest) : splitItems (c :: cs) = (c :: item) :: rest := by
  rw [splitItems, if_neg hcomma, h]
  · intro d ds heq
    exact absurd heq hslash
  · intro heq
    exact absurd heq hslash

theorem bareCommas_comma (cs : List Char) : bareCommas (',' :: cs) = bareCommas cs + 1 := by
  rw [bareCommas, if_pos rfl]
  intro d ds heq
  exact absurd heq (by decide)

theorem bareCommas_plain (hslash : c ≠ '\\') (hcomma : c ≠ ',') :
    bareCommas (c :: cs) = bareCommas cs := by
  rw [bareCommas, if_neg hcomma]
  intro d ds heq
  exact absurd heq hslash

theorem exists_splitItems (cs : List Char) : ∃ item rest, splitItems cs = item :: rest :=
  List.exists_cons_of_ne_nil (splitItems_ne_nil cs)

/-- There is one element more than there are bare commas. -/
theorem length_splitItems_of_escaped (h : Escaped cs) :
    (splitItems cs).length = bareCommas cs + 1 := by
  induction h with
  | nil => rfl
  | @comma cs _ ih =>
    rw [splitItems_comma, bareCommas_comma, List.length_cons, ih]
  | @plain c cs hslash hcomma _ ih =>
    obtain ⟨item, rest, h⟩ := exists_splitItems cs
    rw [splitItems_plain hslash hcomma h, bareCommas_plain hslash hcomma, ← ih, h]
    rfl
  | @pair c cs _ _ ih =>
    obtain ⟨item, rest, h⟩ := exists_splitItems cs
    rw [splitItems_pair h, bareCommas, ← ih, h]
    rfl

/-! ## Joining again -/

theorem joinItems_cons (item : List Char) {rest : List (List Char)} (h : rest ≠ []) :
    joinItems (item :: rest) = escapeItem item ++ ',' :: joinItems rest := by
  cases rest with
  | nil => exact absurd rfl h
  | cons next rest => rfl

/-- The first character of the first element is escaped by itself. -/
theorem joinItems_head (c : Char) (item : List Char) (rest : List (List Char)) :
    joinItems ((c :: item) :: rest) = escapeItem [c] ++ joinItems (item :: rest) := by
  have hitem : escapeItem (c :: item) = escapeItem [c] ++ escapeItem item := by
    by_cases hc : c = '\\' ∨ c = ','
    · simp [escapeItem, hc]
    · simp [escapeItem, hc]
  cases rest with
  | nil => exact hitem
  | cons next rest => simp [joinItems, hitem]

/-- What is split is joined again. -/
theorem joinItems_splitItems (h : Escaped cs) : joinItems (splitItems cs) = cs := by
  induction h with
  | nil => rfl
  | @comma cs _ ih =>
    rw [splitItems_comma, joinItems_cons [] (splitItems_ne_nil cs), ih]
    rfl
  | @plain c cs hslash hcomma _ ih =>
    obtain ⟨item, rest, h⟩ := exists_splitItems cs
    have hc : escapeItem [c] = [c] := if_neg (not_or.2 ⟨hslash, hcomma⟩)
    rw [splitItems_plain hslash hcomma h, joinItems_head, ← h, ih, hc]
    rfl
  | @pair c cs hc _ ih =>
    obtain ⟨item, rest, h⟩ := exists_splitItems cs
    have hpair : escapeItem [c] = ['\\', c] := if_pos hc
    rw [splitItems_pair h, joinItems_head, ← h, ih, hpair]
    rfl

/-! ## Plain elements -/

theorem escapeItem_of_plain (hslash : '\\' ∉ item) (hcomma : ',' ∉ item) :
    escapeItem item = item := by
  induction item with
  | nil => rfl
  | cons c cs ih =>
    obtain ⟨hc, hcs⟩ := not_or.1 (mt List.mem_cons.2 hslash)
    obtain ⟨hd, hds⟩ := not_or.1 (mt List.mem_cons.2 hcomma)
    rw [escapeItem, if_neg (not_or.2 ⟨Ne.symm hc, Ne.symm hd⟩), ih hcs hds]

theorem joinItems_of_plain {items : List (List Char)}
    (h : ∀ item ∈ items, '\\' ∉ item ∧ ',' ∉ item) :
    joinItems items = List.intercalate [','] items := by
  induction items with
  | nil => rfl
  | cons item rest ih =>
    obtain ⟨hitem, hrest⟩ := List.forall_mem_cons.1 h
    have hplain : escapeItem item = item := escapeItem_of_plain hitem.1 hitem.2
    cases rest with
    | nil => simpa [joinItems] using hplain
    | cons next rest =>
      rw [joinItems_cons item (List.cons_ne_nil next rest), hplain, ih hrest,
        List.intercalate_cons_cons, List.append_assoc]
      rfl

end

/-! ## Texts -/

theorem encodeList_of_plain {items : List String}
    (h : ∀ item ∈ items, '\\' ∉ item.toList ∧ ',' ∉ item.toList) :
    encodeList items = ",".intercalate items := by
  have hlists : ∀ item ∈ items.map String.toList, '\\' ∉ item ∧ ',' ∉ item := by
    intro item hitem
    obtain ⟨text, htext, rfl⟩ := List.mem_map.1 hitem
    exact h text htext
  rw [← String.toList_inj, String.toList_intercalate, encodeList, String.toList_ofList,
    joinItems_of_plain hlists]
  rfl

/-- A list of texts is read just if there is room for its length and these are the elements. -/
theorem decodeList_eq_ok_iff {encoded : String} {count : Nat} {items : List String} :
    decodeList encoded count = .ok items ↔
      count * textSize ≤ Capacity.limit ∧ elements encoded count = items := by
  rw [decodeList, bind_eq_ok_iff]
  constructor
  · rintro ⟨room, hroom, hread⟩
    exact ⟨(Capacity.reserve_eq_ok_iff count textSize).1 hroom, pure_eq_ok_iff.1 hread⟩
  · rintro ⟨hroom, hread⟩
    exact ⟨(), (Capacity.reserve_eq_ok_iff count textSize).2 hroom, pure_eq_ok_iff.2 hread⟩

/-- The elements of an escaped text, one more than its bare commas, are encoded as that text. -/
theorem elements_of_escaped {encoded : String} {count : Nat} (h : Escaped encoded.toList)
    (hcount : count = bareCommas encoded.toList + 1) :
    (elements encoded count).length = count ∧ encodeList (elements encoded count) = encoded := by
  have hne : count ≠ 0 := by omega
  unfold elements encodeList
  rw [if_neg hne, List.length_map, length_splitItems_of_escaped h, List.map_map]
  refine ⟨hcount.symm, ?_⟩
  have hid : String.toList ∘ String.ofList = id := funext fun cs => String.toList_ofList
  rw [hid, List.map_id, joinItems_splitItems h, String.ofList_toList]

theorem encodeList_inj {items other : List String} (hlen : items.length = other.length)
    (h : encodeList items = encodeList other) : items = other := by
  rw [← elements_encodeList items, h, hlen, elements_encodeList]

/-- What is encoded is read as it was, and an escaped text is encoded again from its elements; a
reader is in want of nothing but room for as many texts.  Plain texts are joined by commas, and no
two lists of one length are encoded alike. -/
theorem list_codec_exact :
    (∀ items : List String, elements (encodeList items) items.length = items ∧
        (decodeList (encodeList items) items.length = .ok items ↔
          items.length * textSize ≤ Capacity.limit)) ∧
      (∀ items : List String, (∀ item ∈ items, '\\' ∉ item.toList ∧ ',' ∉ item.toList) →
        encodeList items = ",".intercalate items) ∧
      (∀ (encoded : String) (count : Nat), Escaped encoded.toList →
        count = bareCommas encoded.toList + 1 →
        (elements encoded count).length = count ∧
          encodeList (elements encoded count) = encoded ∧
          (decodeList encoded count = .ok (elements encoded count) ↔
            count * textSize ≤ Capacity.limit)) ∧
      ∀ items other : List String, items.length = other.length →
        encodeList items = encodeList other → items = other := by
  refine ⟨fun items => ⟨elements_encodeList items, ?_⟩, fun items => encodeList_of_plain,
    fun encoded count h hcount => ?_, fun items other => encodeList_inj⟩
  · rw [decodeList_eq_ok_iff]
    exact and_iff_left (elements_encodeList items)
  · obtain ⟨hlen, hencode⟩ := elements_of_escaped h hcount
    refine ⟨hlen, hencode, ?_⟩
    rw [decodeList_eq_ok_iff]
    exact and_iff_left rfl

/-- A list goes both ways whose elements end in a backslash, are empty or are a comma. -/
theorem awkward_list_both_ways :
    decodeList "a\\\\,,\\," 3 = .ok ["a\\", "", ","] ∧
      encodeList ["a\\", "", ","] = "a\\\\,,\\," := by
  have hescaped : Escaped "a\\\\,,\\,".toList :=
    .plain (by decide) (by decide) (.pair (.inl rfl) (.comma (.comma (.pair (.inr rfl) .nil))))
  obtain ⟨-, hencode, hdecode⟩ := list_codec_exact.2.2.1 _ 3 hescaped rfl
  exact ⟨hdecode.2 (by decide), hencode⟩

end SoftRadio.Text

import SoftRadio.Proofs.Text.Buffer
import SoftRadio.Proofs.Text.ListCodec

/-!
# Lists of texts in buffers that are too short

An encoded list is cut to the room of a buffer, wherever the end of the room falls: in the middle
of an element, between a backslash and what it escapes, or behind a comma.  What is left is read as
the first elements of the list, the last one of them cut short; nothing is read that was not there.

* `CutShort`: a list of which only a front is left, and of its last element again a front.
* `splitItems_of_prefix`: a front of an encoded list is split into such a list.
* `elements_of_short_buffer`: what is read from a buffer of any length.
-/

namespace SoftRadio.Text

/-- What is left of a list when it is cut off within one of its elements. -/
inductive CutShort : (items left : List (List Char)) → Prop
  | within {part item : List Char} (rest : List (List Char)) : part <+: item →
      CutShort (item :: rest) [part]
  | after (item : List Char) {rest left : List (List Char)} : CutShort rest left →
      CutShort (item :: rest) (item :: left)

variable {u item : List Char} {items : List (List Char)}

/-- The element that is left last is a front of the one in its place, and those before it are as
they were. -/
theorem CutShort.exists_front {left : List (List Char)} (h : CutShort items left) :
    ∃ front item part rest, items = front ++ item :: rest ∧ left = front ++ [part] ∧
      part <+: item := by
  induction h with
  | within rest hpart => exact ⟨[], _, _, rest, rfl, rfl, hpart⟩
  | after item _ ih =>
    obtain ⟨front, last, part, rest, rfl, rfl, hpart⟩ := ih
    exact ⟨item :: front, last, part, rest, rfl, rfl, hpart⟩

/-- A front of an escaped element is read as a front of the element. -/
theorem splitItems_of_prefix_escapeItem (h : u <+: escapeItem item) :
    ∃ part, splitItems u = [part] ∧ part <+: item := by
  induction item generalizing u with
  | nil =>
    rw [List.prefix_nil.1 h]
    exact ⟨[], rfl, List.nil_prefix⟩
  | cons c cs ih =>
    by_cases hc : c = '\\' ∨ c = ','
    case pos =>
      rw [escapeItem, if_pos hc] at h
      -- the cut is before the backslash, behind it, or after what it escapes
      rcases List.prefix_cons_iff.1 h with rfl | ⟨v, rfl, hv⟩
      · exact ⟨[], rfl, List.nil_prefix⟩
      · rcases List.prefix_cons_iff.1 hv with rfl | ⟨w, rfl, hw⟩
        · exact ⟨[], rfl, List.nil_prefix⟩
        · obtain ⟨part, hsplit, hpart⟩ := ih hw
          exact ⟨c :: part, splitItems_pair hsplit, List.cons_prefix_cons.2 ⟨rfl, hpart⟩⟩
    case neg =>
      obtain ⟨hslash, hcomma⟩ := not_or.1 hc
      rw [escapeItem, if_neg hc] at h
      rcases List.prefix_cons_iff.1 h with rfl | ⟨v, rfl, hv⟩
      · exact ⟨[], rfl, List.nil_prefix⟩
      · obtain ⟨part, hsplit, hpart⟩ := ih hv
        exact ⟨c :: part, splitItems_plain hslash hcomma hsplit,
          List.cons_prefix_cons.2 ⟨rfl, hpart⟩⟩

/-- A front of two texts one after the other ends in the first or in the second. -/
theorem prefix_append_cases {first second : List Char} (h : u <+: first ++ second) :
    u <+: first ∨ ∃ v, u = first ++ v ∧ v <+: second := by
  rcases List.prefix_or_prefix_of_prefix h (List.prefix_append first second) with hu | ⟨v, rfl⟩
  · exact .inl hu
  · exact .inr ⟨v, rfl, (List.prefix_append_right_inj first).1 h⟩

/-- A front of an encoded list is split into what is left of the list. -/
theorem splitItems_of_prefix (hne : items ≠ []) (h : u <+: joinItems items) :
    CutShort items (splitItems u) := by
  induction items generalizing u with
  | nil => exact absurd rfl hne
  | cons item rest ih =>
    have hwithin : u <+: escapeItem item → CutShort (item :: rest) (splitItems u) := by
      intro hu
      obtain ⟨part, hsplit, hpart⟩ := splitItems_of_prefix_escapeItem hu
      rw [hsplit]
      exact .within rest hpart
    cases rest with
    | nil => exact hwithin h
    | cons next rest =>
      rcases prefix_append_cases h with hu | ⟨v, rfl, hv⟩
      · exact hwithin hu
      · rcases List.prefix_cons_iff.1 hv with rfl | ⟨w, rfl, hw⟩
        · exact hwithin ⟨[], by simp⟩
        · have hitem : splitItems (escapeItem item ++ ',' :: w) = item :: splitItems w := by
            rw [splitItems_escapeItem_append, splitItems_comma, List.headD_cons, List.append_nil,
              List.tail_cons]
          rw [hitem]
          exact .after item (ih (List.cons_ne_nil next rest) hw)

/-! ## Texts -/

/-- An encoded list that was cut is read as the elements before the cut and a front of the one in
which it falls. -/
theorem exists_front_of_truncate {items : List String} (hne : items ≠ []) (room : Nat) :
    ∃ front item part rest, items = front ++ item :: rest ∧
      elements (truncate (encodeList items) room) items.length = front ++ [part] ∧
      part.toList <+: item.toList := by
  have hmap : items.map String.toList ≠ [] := mt List.map_eq_nil_iff.1 hne
  have hlen : items.length ≠ 0 := mt List.length_eq_zero_iff.1 hne
  have hcut := splitItems_of_prefix hmap (takeBytes_isPrefix room _)
  obtain ⟨front, item, part, rest, hitems, hleft, hpart⟩ := hcut.exists_front
  obtain ⟨front', tail, rfl, rfl, htail⟩ := List.map_eq_append_iff.1 hitems
  obtain ⟨item', rest', rfl, rfl, -⟩ := List.map_eq_cons_iff.1 htail
  refine ⟨front', item', String.ofList part, rest', rfl, ?_, ?_⟩
  · rw [elements, if_neg hlen, truncate, encodeList, String.toList_ofList, String.toList_ofList,
      hleft, List.map_append, List.map_map]
    simp [Function.comp_def]
  · rwa [String.toList_ofList]

theorem mem_escapeItem {c : Char} (h : c ∈ escapeItem item) : c = '\\' ∨ c ∈ item := by
  induction item with
  | nil => exact .inr h
  | cons d ds ih =>
    rw [escapeItem] at h
    split at h
    · rcases List.mem_cons.1 h with hc | h
      · exact .inl hc
      · rcases List.mem_cons.1 h with rfl | h
        · exact .inr List.mem_cons_self
        · exact (ih h).imp_right (List.mem_cons_of_mem d)
    · rcases List.mem_cons.1 h with rfl | h
      · exact .inr List.mem_cons_self
      · exact (ih h).imp_right (List.mem_cons_of_mem d)

/-- No character of an encoded list is new, but for backslashes and commas. -/
theorem mem_joinItems {c : Char} (h : c ∈ joinItems items) :
    c = '\\' ∨ c = ',' ∨ ∃ item ∈ items, c ∈ item := by
  induction items with
  | nil => cases h
  | cons item rest ih =>
    have hitem : c ∈ escapeItem item → c = '\\' ∨ c = ',' ∨ ∃ item' ∈ item :: rest, c ∈ item' :=
      fun hmem => (mem_escapeItem hmem).imp_right fun hc => .inr ⟨item, List.mem_cons_self, hc⟩
    cases rest with
    | nil => exact hitem h
    | cons next rest =>
      rcases List.mem_append.1 h with h | h
      · exact hitem h
      · rcases List.mem_cons.1 h with rfl | h
        · exact .inr (.inl rfl)
        · refine (ih h).imp_right (Or.imp_right ?_)
          rintro ⟨item', hmem, hc⟩
          exact ⟨item', List.mem_cons_of_mem item hmem, hc⟩

/-- What is read from a buffer, however short, in which an encoded list of texts without zero
characters was put: all of the list if there is room for it, and else a front of it whose last
element is cut short.  A reader is in want of nothing but room for as many texts. -/
theorem elements_of_short_buffer (items : List String) (buffer : List UInt8)
    (hbuffer : 1 ≤ buffer.length) (hzero : ∀ item ∈ items, '\x00' ∉ item.toList) :
    ∃ text, ofBytes? (untilZero (fill buffer (encodeList items)).2) = some text ∧
      (decodeList text items.length = .ok (elements text items.length) ↔
        items.length * textSize ≤ Capacity.limit) ∧
      (items = [] → elements text items.length = []) ∧
      (items ≠ [] → ∃ front item part rest, items = front ++ item :: rest ∧
        elements text items.length = front ++ [part] ∧ part.toList <+: item.toList) ∧
      ((bytes (encodeList items)).length ≤ buffer.length - 1 →
        elements text items.length = items) := by
  have hencoded : '\x00' ∉ (encodeList items).toList := by
    rw [encodeList, String.toList_ofList]
    intro hmem
    rcases mem_joinItems hmem with h | h | ⟨cs, hcs, h⟩
    · cases h
    · cases h
    · obtain ⟨item, hitem, rfl⟩ := List.mem_map.1 hcs
      exact hzero item hitem h
  refine ⟨truncate (encodeList items) (buffer.length - 1), ?_, ?_, ?_, ?_, ?_⟩
  · rw [untilZero_fill hbuffer hencoded, ofBytes?_bytes]
  · rw [decodeList_eq_ok_iff]
    exact and_iff_left rfl
  · rintro rfl
    rfl
  · intro hne
    exact exists_front_of_truncate hne (buffer.length - 1)
  · intro hroom
    rw [truncate_of_le hroom, elements_encodeList]

/-- There is room for a backslash, but not for the comma that it escapes: one element is left, and
of that one the first character. -/
theorem elements_behind_backslash :
    1 ≤ (List.replicate 3 (0xee : UInt8)).length ∧ (∀ item ∈ ["a,b", "é"], '\x00' ∉ item.toList) ∧
      ofBytes? (untilZero (fill (List.replicate 3 0xee) (encodeList ["a,b", "é"])).2) =
        some "a\\" ∧
      decodeList "a\\" 2 = .ok ["a"] ∧
      ∃ front item part rest, ["a,b", "é"] = front ++ item :: rest ∧ ["a"] = front ++ [part] ∧
        part.toList <+: item.toList := by
  have hbuffer : 1 ≤ (List.replicate 3 (0xee : UInt8)).length := by decide
  have hzero : ∀ item ∈ ["a,b", "é"], '\x00' ∉ item.toList := by decide
  have hleft : ofBytes? (untilZero (fill (List.replicate 3 0xee) (encodeList ["a,b", "é"])).2) =
      some "a\\" := by decide +kernel
  obtain ⟨text, htext, hdecode, -, hcut, -⟩ :=
    elements_of_short_buffer ["a,b", "é"] (List.replicate 3 0xee) hbuffer hzero
  obtain rfl : "a\\" = text := Option.some.inj (hleft.symm.trans htext)
  exact ⟨hbuffer, hzero, hleft, hdecode.2 (by decide), hcut (List.cons_ne_nil _ _)⟩

end SoftRadio.Text

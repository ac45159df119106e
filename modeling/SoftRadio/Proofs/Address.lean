import SoftRadio.Address
import SoftRadio.Proofs.Text.Pieces

/-!
# Device addresses and their markup

The pieces of a markup that are not blank are its entries, each a key and a value.  An address is
read from the entries in order, so that it has the keys in the order in which they come first, each
with the value that comes last.  What is read from a markup can be written without loss, and so can
whatever is made of such addresses.

* `entries`: keys and values of a markup; `parse_eq`: to read a markup is to set its entries.
* `keys_parse`, `get?_parse`: the keys of an address that was read, and their values.
* `Printable`: what can be written without loss; `parse_render`.
* `Derived`: what is made of addresses that were read; `printable_of_derived`.
-/

namespace SoftRadio

namespace Address

/-- Set the pairs of a list, in order. -/
def setAll (a : Address) (pairs : List (String × String)) : Address :=
  pairs.foldl (fun a p => a.set p.1 p.2) a

/-! ## Reading -/

/-- The pieces between commas that are not blank. -/
def segments (markup : String) : List (List Char) :=
  (Text.splitOn ',' markup.toList).filter (Text.trim · ≠ [])

/-- The key and the value of a segment: what is before the first equals sign and what is after it,
both trimmed. -/
def entry (segment : List Char) : String × String :=
  match Text.splitOnce '=' segment with
  | some (k, v) => (String.ofList (Text.trim k), String.ofList (Text.trim v))
  | none => (String.ofList (Text.trim segment), "")

def entries (markup : String) : List (String × String) := (segments markup).map entry

section

variable {segment k v : List Char}

theorem entry_of_not_mem (h : '=' ∉ segment) :
    entry segment = (String.ofList (Text.trim segment), "") := by
  unfold entry
  rw [Text.splitOnce_of_not_mem h]

theorem entry_append_cons (h : '=' ∉ k) :
    entry (k ++ '=' :: v) = (String.ofList (Text.trim k), String.ofList (Text.trim v)) := by
  unfold entry
  rw [Text.splitOnce_append_cons h]

theorem not_mem_of_blank (h : ∀ c ∈ segment, Text.isBlank c = true) : '=' ∉ segment := by
  intro hmem
  have hblank := h '=' hmem
  exact absurd hblank (by decide)

/-- What is trimmed before it is taken apart is taken apart alike. -/
theorem entry_trim (segment : List Char) : entry (Text.trim segment) = entry segment := by
  obtain ⟨front, back, hsegment, hfront, hback⟩ := Text.exists_trim segment
  generalize Text.trim segment = core at hsegment
  subst hsegment
  by_cases hmem : '=' ∈ core
  · obtain ⟨k, v, rfl, hk⟩ := List.eq_append_cons_of_mem hmem
    have hfrontk : '=' ∉ front ++ k := by
      rw [List.mem_append]
      exact not_or.2 ⟨not_mem_of_blank hfront, hk⟩
    have hwhole : front ++ (k ++ '=' :: v) ++ back = (front ++ k) ++ '=' :: (v ++ back) := by
      simp
    rw [hwhole, entry_append_cons hk, entry_append_cons hfrontk, Text.trim_blank_append hfront,
      Text.trim_append_blank hback]
  · have hwhole : '=' ∉ front ++ core ++ back := by
      simp only [List.mem_append, not_or]
      exact ⟨⟨not_mem_of_blank hfront, hmem⟩, not_mem_of_blank hback⟩
    rw [entry_of_not_mem hmem, entry_of_not_mem hwhole, Text.trim_append_blank hback,
      Text.trim_blank_append hfront]

/-- A segment that is not blank sets its entry. -/
theorem addSegment_eq (a : Address) (segment : List Char) :
    a.addSegment segment =
      if Text.trim segment = [] then a else a.set (entry segment).1 (entry segment).2 := by
  rw [← entry_trim]
  unfold addSegment
  split
  next hblank => rw [if_pos hblank]
  next cs hcs =>
    rw [if_neg hcs]
    by_cases hmem : '=' ∈ Text.trim segment
    · obtain ⟨k, v, hkv, hk⟩ := List.eq_append_cons_of_mem hmem
      rw [hkv, entry_append_cons hk, Text.splitOnce_append_cons hk]
    · have htight := Text.trim_of_tight (Text.tight_trim segment)
      rw [entry_of_not_mem hmem, Text.splitOnce_of_not_mem hmem, htight]

end

/-- To read a markup is to set its entries. -/
theorem parse_eq (markup : String) : parse markup = empty.setAll (entries markup) := by
  unfold parse entries segments
  generalize Text.splitOn ',' markup.toList = pieces
  generalize empty = a
  induction pieces generalizing a with
  | nil => rfl
  | cons piece rest ih =>
    rw [List.foldl_cons, ih, addSegment_eq]
    by_cases hblank : Text.trim piece = []
    · rw [if_pos hblank, List.filter_cons_of_neg (by simpa using hblank)]
    · rw [if_neg hblank, List.filter_cons_of_pos (by simpa using hblank)]
      rfl

theorem setAll_append (a : Address) (early late : List (String × String)) :
    a.setAll (early ++ late) = (a.setAll early).setAll late :=
  List.foldl_append

/-- Keys are in the order in which they are set first. -/
theorem keys_setAll_empty (pairs : List (String × String)) :
    (empty.setAll pairs).keys = (pairs.map Prod.fst).eraseDups := by
  induction pairs using List.reverseRecOn with
  | nil => rfl
  | append_singleton pairs p ih =>
    rw [setAll_append, List.map_append, List.eraseDups_append, ← ih]
    show ((empty.setAll pairs).set p.1 p.2).keys = _
    rw [keys_set]
    by_cases hmem : p.1 ∈ (empty.setAll pairs).keys
    · rw [if_pos hmem]
      rw [ih, List.mem_eraseDups] at hmem
      simp [List.removeAll, hmem]
    · rw [if_neg hmem]
      rw [ih, List.mem_eraseDups] at hmem
      simp [List.removeAll, hmem, List.eraseDups_cons]

/-- A key has the value that it was set to last. -/
theorem get?_setAll_empty (pairs : List (String × String)) (key : String) :
    (empty.setAll pairs).get? key = ((pairs.filter (·.1 = key)).getLast?).map Prod.snd := by
  induction pairs using List.reverseRecOn with
  | nil => rfl
  | append_singleton pairs p ih =>
    rw [setAll_append, List.filter_append, List.getLast?_append, Option.map_or, ← ih]
    show ((empty.setAll pairs).set p.1 p.2).get? key = _
    rw [get?_set]
    by_cases hkey : key = p.1
    · simp [hkey]
    · simp [hkey, Ne.symm hkey]

/-! ## Writing -/

/-- A value that is read as it is written. -/
structure PrintableValue (text : String) : Prop where
  tight : Text.Tight text.toList
  comma : ',' ∉ text.toList

/-- A key that is read as it is written. -/
structure PrintableKey (text : String) : Prop extends PrintableValue text where
  equals : '=' ∉ text.toList

/-- An address that is read as it is written. -/
structure Printable (a : Address) : Prop where
  nodup : a.keys.Nodup
  key : ∀ p ∈ a.pairs, PrintableKey p.1
  value : ∀ p ∈ a.pairs, PrintableValue p.2

theorem setPair_of_not_mem {key value : String} {pairs : List (String × String)}
    (h : key ∉ pairs.map Prod.fst) : setPair key value pairs = pairs ++ [(key, value)] := by
  induction pairs with
  | nil => rfl
  | cons p rest ih =>
    obtain ⟨hp, hrest⟩ := not_or.1 (mt List.mem_cons.2 h)
    rw [setPair, if_neg (Ne.symm hp), ih hrest]
    rfl

/-- Pairs with keys of their own are put in as they are. -/
theorem setAll_of_nodup {a : Address} {pairs : List (String × String)}
    (h : (a.keys ++ pairs.map Prod.fst).Nodup) : a.setAll pairs = ⟨a.pairs ++ pairs⟩ := by
  induction pairs generalizing a with
  | nil => rw [List.append_nil]; rfl
  | cons p rest ih =>
    have hnew : p.1 ∉ a.keys := by
      intro hmem
      exact (List.nodup_append.1 h).2.2 p.1 hmem p.1 List.mem_cons_self rfl
    have hset : a.set p.1 p.2 = ⟨a.pairs ++ [p]⟩ := by
      unfold Address.set
      rw [setPair_of_not_mem hnew]
    show (a.set p.1 p.2).setAll rest = _
    rw [hset, ih]
    · simp
    · simpa [keys] using h

/-- A printable pair is written as a segment that sets it. -/
theorem addSegment_pair (a : Address) {key value : String} (hkey : PrintableKey key)
    (hvalue : PrintableValue value) :
    a.addSegment (key ++ "=" ++ value).toList = a.set key value := by
  have hchars : (key ++ "=" ++ value).toList = key.toList ++ '=' :: value.toList := by
    simp
  have htight : Text.Tight (key.toList ++ '=' :: value.toList) :=
    hkey.tight.append_cons hvalue.tight (by decide)
  rw [hchars, addSegment_eq, Text.trim_of_tight htight, if_neg (by simp),
    entry_append_cons hkey.equals, Text.trim_of_tight hkey.tight,
    Text.trim_of_tight hvalue.tight, String.ofList_toList, String.ofList_toList]

/-- The segment that a pair is written as. -/
def written (p : String × String) : List Char := (p.1 ++ "=" ++ p.2).toList

theorem comma_not_mem_written {p : String × String} (hkey : PrintableKey p.1)
    (hvalue : PrintableValue p.2) : ',' ∉ written p := by
  have hk := hkey.comma
  have hv := hvalue.comma
  simp [written, hk, hv]

theorem foldl_addSegment_written {pairs : List (String × String)} (a : Address)
    (hkey : ∀ p ∈ pairs, PrintableKey p.1) (hvalue : ∀ p ∈ pairs, PrintableValue p.2) :
    (pairs.map written).foldl addSegment a = a.setAll pairs := by
  induction pairs generalizing a with
  | nil => rfl
  | cons p rest ih =>
    obtain ⟨hk, hkeys⟩ := List.forall_mem_cons.1 hkey
    obtain ⟨hv, hvalues⟩ := List.forall_mem_cons.1 hvalue
    rw [List.map_cons, List.foldl_cons, written, addSegment_pair a hk hv]
    exact ih _ hkeys hvalues

theorem toList_render (a : Address) :
    a.render.toList = List.intercalate [','] (a.pairs.map written) := by
  unfold render
  rw [String.toList_intercalate, List.map_map]
  rfl

/-- What is printable is read as it is written. -/
theorem parse_render {a : Address} (h : Printable a) : parse a.render = a := by
  have hset : empty.setAll a.pairs = a := setAll_of_nodup h.nodup
  unfold parse
  rw [toList_render, Text.splitOn_eq]
  by_cases hnil : a.pairs = []
  · rw [hnil] at hset ⊢
    exact hset
  · have hcomma : ∀ part ∈ a.pairs.map written, ',' ∉ part := by
      intro part hpart
      obtain ⟨p, hp, rfl⟩ := List.mem_map.1 hpart
      exact comma_not_mem_written (h.key p hp) (h.value p hp)
    rw [List.splitOn_intercalate ',' hcomma (mt List.map_eq_nil_iff.1 hnil),
      foldl_addSegment_written empty h.key h.value, hset]

/-! ## What is made of addresses that were read -/

theorem mem_setPair {key value : String} {pairs : List (String × String)} {p : String × String}
    (h : p ∈ setPair key value pairs) : p = (key, value) ∨ p ∈ pairs := by
  induction pairs with
  | nil => exact .inl (List.mem_singleton.1 h)
  | cons q rest ih =>
    rw [setPair] at h
    split at h
    next hkey =>
      rcases List.mem_cons.1 h with rfl | h
      · exact .inl (by rw [hkey])
      · exact .inr (List.mem_cons_of_mem _ h)
    · rcases List.mem_cons.1 h with rfl | h
      · exact .inr List.mem_cons_self
      · exact (ih h).imp_right (List.mem_cons_of_mem _)

theorem printable_empty : Printable empty := ⟨List.nodup_nil, nofun, nofun⟩

section

variable {a b : Address} {key value : String}

theorem Printable.set (h : Printable a) (hkey : PrintableKey key)
    (hvalue : PrintableValue value) : Printable (a.set key value) where
  nodup := nodup_keys_set h.nodup key value
  key p hp := by
    rcases mem_setPair hp with rfl | hp
    · exact hkey
    · exact h.key p hp
  value p hp := by
    rcases mem_setPair hp with rfl | hp
    · exact hvalue
    · exact h.value p hp

theorem Printable.setAll {pairs : List (String × String)} (h : Printable a)
    (hkey : ∀ p ∈ pairs, PrintableKey p.1) (hvalue : ∀ p ∈ pairs, PrintableValue p.2) :
    Printable (a.setAll pairs) := by
  induction pairs generalizing a with
  | nil => exact h
  | cons p rest ih =>
    obtain ⟨hk, hkeys⟩ := List.forall_mem_cons.1 hkey
    obtain ⟨hv, hvalues⟩ := List.forall_mem_cons.1 hvalue
    exact ih (h.set hk hv) hkeys hvalues

theorem Printable.merged (ha : Printable a) (hb : Printable b) : Printable (a.merged b) :=
  ha.setAll hb.key hb.value

theorem Printable.erase (h : Printable a) (key : String) : Printable (a.erase key).2 := by
  have hsub : (a.erase key).2.pairs.Sublist a.pairs := List.eraseP_sublist
  exact ⟨h.nodup.sublist (hsub.map Prod.fst), fun p hp => h.key p (hsub.mem hp),
    fun p hp => h.value p (hsub.mem hp)⟩

end

theorem mem_of_mem_trim {c : Char} {cs : List Char} (h : c ∈ Text.trim cs) : c ∈ cs := by
  obtain ⟨front, back, hcs, -, -⟩ := Text.exists_trim cs
  rw [hcs]
  exact List.mem_append_left back (List.mem_append_right front h)

theorem printableValue_trim {cs : List Char} (h : ',' ∉ cs) :
    PrintableValue (String.ofList (Text.trim cs)) := by
  constructor
  · rw [String.toList_ofList]
    exact Text.tight_trim cs
  · rw [String.toList_ofList]
    exact mt mem_of_mem_trim h

theorem printableKey_trim {cs : List Char} (hcomma : ',' ∉ cs) (hequals : '=' ∉ cs) :
    PrintableKey (String.ofList (Text.trim cs)) := by
  refine ⟨printableValue_trim hcomma, ?_⟩
  rw [String.toList_ofList]
  exact mt mem_of_mem_trim hequals

theorem printable_entry {segment : List Char} (h : ',' ∉ segment) :
    PrintableKey (entry segment).1 ∧ PrintableValue (entry segment).2 := by
  by_cases hmem : '=' ∈ segment
  · obtain ⟨k, v, rfl, hk⟩ := List.eq_append_cons_of_mem hmem
    rw [List.mem_append, not_or] at h
    rw [entry_append_cons hk]
    exact ⟨printableKey_trim h.1 hk, printableValue_trim (List.not_mem_of_not_mem_cons h.2)⟩
  · rw [entry_of_not_mem hmem]
    exact ⟨printableKey_trim h hmem, Text.tight_nil, List.not_mem_nil⟩

/-- What was read can be written. -/
theorem printable_parse (markup : String) : Printable (parse markup) := by
  have hentry : ∀ p ∈ entries markup, PrintableKey p.1 ∧ PrintableValue p.2 := by
    intro p hp
    obtain ⟨segment, hsegment, rfl⟩ := List.mem_map.1 hp
    exact printable_entry (Text.not_mem_of_mem_splitOn (List.mem_filter.1 hsegment).1)
  rw [parse_eq]
  exact printable_empty.setAll (fun p hp => (hentry p hp).1) (fun p hp => (hentry p hp).2)

/-- An address that is made of addresses that were read: they are merged, keys are removed, and keys
that there are set to values that there are. -/
inductive Derived : Address → Prop
  | parsed (markup : String) : Derived (parse markup)
  | merged {a b : Address} : Derived a → Derived b → Derived (a.merged b)
  | erased {a : Address} (key : String) : Derived a → Derived (a.erase key).2
  | set {a b c : Address} {p q : String × String} : Derived a → Derived b → Derived c →
      p ∈ b.pairs → q ∈ c.pairs → Derived (a.set p.1 q.2)

theorem printable_of_derived {a : Address} (h : Derived a) : Printable a := by
  induction h with
  | parsed markup => exact printable_parse markup
  | merged _ _ iha ihb => exact iha.merged ihb
  | erased key _ ih => exact ih.erase key
  | set _ _ _ hp hq iha ihb ihc => exact iha.set (ihb.key _ hp) (ihc.value _ hq)

/-- An address that was read has the keys of its markup in the order in which they come first, each
once and with the value that comes last, and is read again from its own markup.  So is whatever is
made of such addresses. -/
theorem markup_normal_form :
    (∀ markup, (parse markup).keys.Nodup ∧
        (parse markup).keys = ((entries markup).map Prod.fst).eraseDups ∧
        (∀ key, (parse markup).get? key =
          (((entries markup).filter (·.1 = key)).getLast?).map Prod.snd) ∧
        parse (parse markup).render = parse markup) ∧
      ∀ a, Derived a → a.keys.Nodup ∧ parse a.render = a := by
  refine ⟨fun markup => ⟨nodup_keys_parse markup, ?_, fun key => ?_, ?_⟩, fun a ha => ?_⟩
  · rw [parse_eq]
    exact keys_setAll_empty (entries markup)
  · rw [parse_eq]
    exact get?_setAll_empty (entries markup) key
  · exact parse_render (printable_parse markup)
  · exact ⟨(printable_of_derived ha).nodup, parse_render (printable_of_derived ha)⟩

/-- Two markups that were read, merged and cut by a key are written and read again. -/
theorem merged_and_cut_markup :
    parse (((parse " type = sim,,name=a=b").merged (parse "serial,type= x")).erase
      "serial").2.render = ⟨[("type", "x"), ("name", "a=b")]⟩ := by
  have hderived : Derived (((parse " type = sim,,name=a=b").merged
      (parse "serial,type= x")).erase "serial").2 :=
    .erased "serial" (.merged (.parsed _) (.parsed _))
  rw [(markup_normal_form.2 _ hderived).2]
  decide

end Address

end SoftRadio

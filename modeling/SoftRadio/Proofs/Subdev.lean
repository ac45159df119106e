import SoftRadio.Proofs.Outcome
import SoftRadio.Proofs.Text.Pieces
import SoftRadio.Proofs.Text.Words
import SoftRadio.Subdev

/-!
# The markup of a specification

A specification is written word by word, and what is written is read again.  Reading takes more
than that: white space of any kind and length between the words, and words without a colon.

* `Spells`: a word and the pair that it stands for; `parseToken?_eq_some_iff`.
* `exists_parse_iff`: which texts are read; `parse_eq_ok_iff`, `parse_eq_ok_iff_exists`: what is
  read; `exists_of_parseTokens_eq_error`: of any other text the first word that spells nothing is
  named.
* `SubdevPair.Legible`: a pair that can be read from what is written of it.
* `parse_render`: what is made of such pairs is read from its own markup;
  `legible_of_parse`: what was read is.
-/

namespace SoftRadio

namespace SubdevSpec

open Text (isBlank Spaced)

/-- A word and the pair that it spells: a slot, which is not empty, and after a colon a subdevice,
which may be.  Neither has a colon in it. -/
inductive Spells : (token : List Char) → (pair : SubdevPair) → Prop
  | slot {slot : List Char} (hne : slot ≠ []) (hslot : ':' ∉ slot) :
      Spells slot ⟨String.ofList slot, ""⟩
  | both {slot subdevice : List Char} (hne : slot ≠ []) (hslot : ':' ∉ slot)
      (hsubdevice : ':' ∉ subdevice) :
      Spells (slot ++ ':' :: subdevice) ⟨String.ofList slot, String.ofList subdevice⟩

/-! ## Reading -/

theorem parseToken?_eq_some_iff {token : List Char} {p : SubdevPair} :
    parseToken? token = some p ↔ Spells token p := by
  constructor
  · intro h
    unfold parseToken? at h
    by_cases hcolon : ':' ∈ token
    · obtain ⟨slot, subdevice, rfl, hslot⟩ := List.eq_append_cons_of_mem hcolon
      rw [Text.splitOnce_append_cons hslot] at h
      dsimp only at h
      split at h
      · cases h
      next hgood =>
        obtain ⟨hne, hsubdevice⟩ : slot ≠ [] ∧ ':' ∉ subdevice := by simpa using hgood
        cases h
        exact .both hne hslot hsubdevice
    · rw [Text.splitOnce_of_not_mem hcolon] at h
      dsimp only at h
      split at h
      · cases h
      next hne =>
        cases h
        exact .slot (by simpa using hne) hcolon
  · intro h
    unfold parseToken?
    cases h with
    | slot hne hslot =>
      rw [Text.splitOnce_of_not_mem hslot]
      exact if_neg (by simpa using hne)
    | both hne hslot hsubdevice =>
      rw [Text.splitOnce_append_cons hslot]
      exact if_neg (by simpa using ⟨hne, hsubdevice⟩)

theorem parseTokens_eq_ok_iff {tokens : List (List Char)} {pairs : List SubdevPair} :
    parseTokens tokens = .ok pairs ↔ List.Forall₂ Spells tokens pairs := by
  induction tokens generalizing pairs with
  | nil =>
    unfold parseTokens
    constructor
    · rintro ⟨⟩
      exact .nil
    · rintro ⟨⟩
      rfl
  | cons token tokens ih =>
    unfold parseTokens
    cases htoken : parseToken? token with
    | none =>
      refine ⟨nofun, fun h => ?_⟩
      cases h with
      | cons hspells hrest =>
        rw [parseToken?_eq_some_iff.2 hspells] at htoken
        cases htoken
    | some p =>
      constructor
      · intro h
        obtain ⟨rest, hrest, h⟩ := bind_eq_ok_iff.1 h
        cases pure_eq_ok_iff.1 h
        exact .cons (parseToken?_eq_some_iff.1 htoken) (ih.1 hrest)
      · intro h
        cases h with
        | cons hspells hrest =>
          rw [parseToken?_eq_some_iff.2 hspells] at htoken
          cases htoken
          exact bind_eq_ok_iff.2 ⟨_, ih.2 hrest, rfl⟩

/-- What is refused is refused for its first word that spells nothing. -/
theorem exists_of_parseTokens_eq_error {tokens : List (List Char)} {f : Fault}
    (h : parseTokens tokens = .error f) :
    ∃ front token rest, tokens = front ++ token :: rest ∧ (∀ t ∈ front, ∃ p, Spells t p) ∧
      (∀ p, ¬ Spells token p) ∧ f = .error (.badSubdevToken (String.ofList token)) := by
  induction tokens with
  | nil => cases h
  | cons token tokens ih =>
    unfold parseTokens at h
    cases htoken : parseToken? token with
    | none =>
      rw [htoken] at h
      cases h
      refine ⟨[], token, tokens, rfl, nofun, fun p hspells => ?_, rfl⟩
      rw [parseToken?_eq_some_iff.2 hspells] at htoken
      cases htoken
    | some p =>
      rw [htoken] at h
      cases hrest : parseTokens tokens with
      | ok pairs =>
        rw [hrest] at h
        cases h
      | error f' =>
        rw [hrest] at h
        cases h
        obtain ⟨front, bad, rest, rfl, hfront, hbad, rfl⟩ := ih hrest
        exact ⟨token :: front, bad, rest, rfl,
          List.forall_mem_cons.2 ⟨⟨p, parseToken?_eq_some_iff.1 htoken⟩, hfront⟩, hbad, rfl⟩

/-- A text is read if its words spell pairs, and these are what is read. -/
theorem parse_eq_ok_iff {markup : String} {tokens : List (List Char)} {s : SubdevSpec}
    (h : Spaced markup.toList tokens) :
    parse markup = .ok s ↔ List.Forall₂ Spells tokens s.pairs := by
  unfold parse
  rw [h.words_eq, ← parseTokens_eq_ok_iff, bind_eq_ok_iff]
  constructor
  · rintro ⟨pairs, hpairs, ⟨⟩⟩
    exact hpairs
  · exact fun hpairs => ⟨s.pairs, hpairs, rfl⟩

/-- Where words spell pairs, there are pairs that they spell. -/
theorem exists_forall₂_spells_iff {tokens : List (List Char)} :
    (∃ pairs, List.Forall₂ Spells tokens pairs) ↔ ∀ token ∈ tokens, ∃ p, Spells token p := by
  constructor
  · rintro ⟨pairs, h⟩
    induction h with
    | nil => exact nofun
    | cons hp _ ih => exact List.forall_mem_cons.2 ⟨⟨_, hp⟩, ih⟩
  · intro h
    induction tokens with
    | nil => exact ⟨[], .nil⟩
    | cons token tokens ih =>
      obtain ⟨⟨p, hp⟩, hrest⟩ := List.forall_mem_cons.1 h
      obtain ⟨pairs, hpairs⟩ := ih hrest
      exact ⟨p :: pairs, .cons hp hpairs⟩

/-- A text is read just if each of its words spells a pair. -/
theorem exists_parse_iff {markup : String} {tokens : List (List Char)}
    (h : Spaced markup.toList tokens) :
    (∃ s, parse markup = .ok s) ↔ ∀ token ∈ tokens, ∃ p, Spells token p := by
  rw [← exists_forall₂_spells_iff]
  constructor
  · rintro ⟨s, hs⟩
    exact ⟨s.pairs, (parse_eq_ok_iff h).1 hs⟩
  · rintro ⟨pairs, hpairs⟩
    exact ⟨⟨pairs⟩, (parse_eq_ok_iff h).2 hpairs⟩

/-- What is read of a text is what its words spell, whichever way the text is spaced. -/
theorem parse_eq_ok_iff_exists {markup : String} {s : SubdevSpec} :
    parse markup = .ok s ↔
      ∃ tokens, Spaced markup.toList tokens ∧ List.Forall₂ Spells tokens s.pairs := by
  constructor
  · intro hs
    obtain ⟨tokens, hspaced⟩ := Text.exists_spaced markup.toList
    exact ⟨tokens, hspaced, (parse_eq_ok_iff hspaced).1 hs⟩
  · rintro ⟨tokens, hspaced, hspells⟩
    exact (parse_eq_ok_iff hspaced).2 hspells

end SubdevSpec

/-! ## Writing -/

/-- A pair that can be read from what is written of it. -/
structure SubdevPair.Legible (p : SubdevPair) : Prop where
  slot : p.slot.toList ≠ []
  plain : ∀ c ∈ p.slot.toList ++ p.subdevice.toList, Text.isBlank c = false ∧ c ≠ ':'

namespace SubdevSpec

open Text (isBlank Spaced)

/-- What is written of a pair. -/
def written (p : SubdevPair) : List Char := p.slot.toList ++ ':' :: p.subdevice.toList

theorem spells_written {p : SubdevPair} (h : p.Legible) : Spells (written p) p := by
  have hspells : Spells (written p)
      ⟨String.ofList p.slot.toList, String.ofList p.subdevice.toList⟩ := by
    refine .both h.slot (fun hcolon => ?_) fun hcolon => ?_
    · exact (h.plain ':' (List.mem_append_left _ hcolon)).2 rfl
    · exact (h.plain ':' (List.mem_append_right _ hcolon)).2 rfl
  rwa [String.ofList_toList, String.ofList_toList] at hspells

theorem written_not_blank {p : SubdevPair} (h : p.Legible) :
    written p ≠ [] ∧ ∀ c ∈ written p, isBlank c = false := by
  refine ⟨by simp [written], fun c hc => ?_⟩
  rcases List.mem_append.1 hc with hc | hc
  · exact (h.plain c (List.mem_append_left _ hc)).1
  · rcases List.mem_cons.1 hc with rfl | hc
    · decide
    · exact (h.plain c (List.mem_append_right _ hc)).1

/-- A word without white space spells a pair that can be read again. -/
theorem legible_of_spells {token : List Char} {p : SubdevPair} (h : Spells token p)
    (hblank : ∀ c ∈ token, isBlank c = false) : p.Legible := by
  cases h with
  | slot hne hslot =>
    refine ⟨by rwa [String.toList_ofList], fun c hc => ?_⟩
    dsimp only at hc
    rw [String.toList_ofList, String.toList_empty, List.append_nil] at hc
    exact ⟨hblank c hc, fun hcolon => hslot (hcolon ▸ hc)⟩
  | both hne hslot hsubdevice =>
    refine ⟨by rwa [String.toList_ofList], fun c hc => ?_⟩
    dsimp only at hc
    rw [String.toList_ofList, String.toList_ofList] at hc
    rcases List.mem_append.1 hc with hc | hc
    · exact ⟨hblank c (List.mem_append_left _ hc), fun hcolon => hslot (hcolon ▸ hc)⟩
    · exact ⟨hblank c (List.mem_append_right _ (List.mem_cons_of_mem _ hc)),
        fun hcolon => hsubdevice (hcolon ▸ hc)⟩

/-- What was read can be read again. -/
theorem legible_of_parse {markup : String} {s : SubdevSpec} (h : parse markup = .ok s) :
    ∀ p ∈ s.pairs, p.Legible := by
  obtain ⟨tokens, hspaced, hspells⟩ := parse_eq_ok_iff_exists.1 h
  have hblank := hspaced.ne_nil_and_not_blank
  clear hspaced h
  generalize s.pairs = pairs at hspells ⊢
  induction hspells with
  | nil => exact nofun
  | cons hp _ ih =>
    obtain ⟨⟨-, htoken⟩, hblank⟩ := List.forall_mem_cons.1 hblank
    exact List.forall_mem_cons.2 ⟨legible_of_spells hp htoken, ih hblank⟩

theorem toList_render (s : SubdevSpec) :
    s.render.toList = List.intercalate [' '] (s.pairs.map written) := by
  have hpair : ∀ p : SubdevPair, (p.slot ++ ":" ++ p.subdevice).toList = written p := by
    intro p
    rw [String.toList_append, String.toList_append, List.append_assoc]
    rfl
  unfold render
  rw [String.toList_intercalate, List.map_map]
  exact congrArg _ (List.map_congr_left fun p _ => hpair p)

/-- The characters of words that are put together are those of the words, and what stands
between them. -/
theorem mem_intercalate {c : Char} {sep : List Char} {ws : List (List Char)}
    (h : c ∈ List.intercalate sep ws) : c ∈ sep ∨ ∃ w ∈ ws, c ∈ w := by
  induction ws with
  | nil => cases h
  | cons w ws ih =>
    cases ws with
    | nil =>
      rw [List.intercalate_singleton] at h
      exact .inr ⟨w, List.mem_cons_self, h⟩
    | cons next ws =>
      rw [List.intercalate_cons_cons, List.append_assoc] at h
      rcases List.mem_append.1 h with h | h
      · exact .inr ⟨w, List.mem_cons_self, h⟩
      · rcases List.mem_append.1 h with h | h
        · exact .inl h
        · refine (ih h).imp_right ?_
          rintro ⟨w', hw', hc⟩
          exact ⟨w', List.mem_cons_of_mem w hw', hc⟩

/-- The characters of a markup are spaces, colons and those of the pairs. -/
theorem mem_render {s : SubdevSpec} {c : Char} (h : c ∈ s.render.toList) :
    c = ' ' ∨ c = ':' ∨ ∃ p ∈ s.pairs, c ∈ p.slot.toList ++ p.subdevice.toList := by
  rw [toList_render] at h
  rcases mem_intercalate h with hspace | ⟨w, hw, hc⟩
  · exact .inl (List.mem_singleton.1 hspace)
  · obtain ⟨p, hp, rfl⟩ := List.mem_map.1 hw
    rcases List.mem_append.1 hc with hc | hc
    · exact .inr (.inr ⟨p, hp, List.mem_append_left _ hc⟩)
    · exact .inr ((List.mem_cons.1 hc).imp_right fun hc => ⟨p, hp, List.mem_append_right _ hc⟩)

/-- A specification is read from its own markup. -/
theorem parse_render {s : SubdevSpec} (h : ∀ p ∈ s.pairs, p.Legible) : parse s.render = .ok s := by
  have hspaced : Spaced s.render.toList (s.pairs.map written) := by
    rw [toList_render]
    refine .intercalate fun w hw => ?_
    obtain ⟨p, hp, rfl⟩ := List.mem_map.1 hw
    exact written_not_blank (h p hp)
  rw [parse_eq_ok_iff hspaced, List.forall₂_map_left_iff, List.forall₂_same]
  exact fun p hp => spells_written (h p hp)

end SubdevSpec

end SoftRadio

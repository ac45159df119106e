import Mathlib.Order.Bounds.Basic
import SoftRadio.Proofs.Text.Buffer

/-!
# Where a text is cut

A text is cut between two of its characters.  In the bytes such a place is known by the byte behind
it, which does not go on with a character; so the last one at or before a limit is found by going
back from there, byte by byte.  It is reached at the front of the text at the latest.

* `isBoundary_iff`: the places that are known by their bytes are those between two characters.
* `isGreatest_boundaryBefore`: going back ends at the last of them.
* `isGreatest_length_truncate`: a cut text reaches to the last of them that its room allows.
* `truncate_fill_exact`: what cutting a text leaves, and what filling a buffer with it.
-/

namespace SoftRadio.Text

/-- Whether a byte goes on with a character that a byte before it began. -/
def goesOn (byte : UInt8) : Bool := 0x80 ≤ byte && byte < 0xC0

/-- Whether the place behind the first `n` bytes is an end of the text or lies between two of its
characters, as far as the bytes show. -/
def isBoundary (bs : List UInt8) (n : Nat) : Bool :=
  n == 0 || n == bs.length || bs[n]?.any (!goesOn ·)

/-- The last boundary at or before a place, looked for from there to the front. -/
def boundaryBefore (bs : List UInt8) : Nat → Nat
  | 0 => 0
  | n + 1 => if isBoundary bs (n + 1) then n + 1 else boundaryBefore bs n

/-- The bytes up to the last boundary that the room allows. -/
def cutBack (bs : List UInt8) (room : Nat) : List UInt8 :=
  if bs.length ≤ room then bs else bs.take (boundaryBefore bs room)

/-- Going back ends, and at the last boundary: nothing between there and the limit is one. -/
theorem isGreatest_boundaryBefore (bs : List UInt8) (room : Nat) :
    IsGreatest {n | n ≤ room ∧ isBoundary bs n} (boundaryBefore bs room) := by
  induction room with
  | zero => exact ⟨⟨Nat.le_refl 0, rfl⟩, fun n hn => hn.1⟩
  | succ room ih =>
    unfold boundaryBefore
    split
    · next hhere => exact ⟨⟨Nat.le_refl _, hhere⟩, fun n hn => hn.1⟩
    · next hhere =>
      obtain ⟨⟨hle, hboundary⟩, hgreatest⟩ := ih
      refine ⟨⟨by omega, hboundary⟩, fun n hn => hgreatest ⟨?_, hn.2⟩⟩
      have hne : n ≠ room + 1 := by
        rintro rfl
        exact hhere hn.2
      have := hn.1
      omega

/-! ## Boundaries of a text -/

theorem goesOn_ofNat (n : Nat) (hn : n < 256) :
    goesOn (UInt8.ofNat n) = decide (128 ≤ n ∧ n < 192) := by
  have hval : (UInt8.ofNat n).toNat = n := by rw [UInt8.toNat_ofNat', Nat.mod_eq_of_lt hn]
  unfold goesOn
  rw [← Bool.decide_and]
  refine decide_eq_decide.2 ?_
  rw [UInt8.le_iff_toNat_le, UInt8.lt_iff_toNat_lt, hval]
  exact Iff.rfl

/-- All bytes of a character but the first go on with it. -/
theorem exists_utf8EncodeChar_eq (c : Char) :
    ∃ lead tail, String.utf8EncodeChar c = lead :: tail ∧ goesOn lead = false ∧
      ∀ byte ∈ tail, goesOn byte = true := by
  have hlead : ∀ n : Nat, n < 128 ∨ 192 ≤ n → n < 256 → goesOn (UInt8.ofNat n) = false := by
    intro n hn hlt
    rw [goesOn_ofNat n hlt, decide_eq_false_iff_not]
    omega
  have htail : ∀ n : Nat, goesOn (UInt8.ofNat (n % 64 + 128)) = true := by
    intro n
    rw [goesOn_ofNat _ (by omega), decide_eq_true_iff]
    omega
  fun_cases String.utf8EncodeChar c
  case case1 v hv => exact ⟨_, [], rfl, hlead v (by omega) (by omega), nofun⟩
  all_goals
    refine ⟨_, _, rfl, hlead _ (by omega) (by omega), ?_⟩
    simp only [List.forall_mem_cons, htail, true_and]
    nofun

/-- No place within a character is a boundary. -/
theorem isBoundary_of_lt_utf8Size {c : Char} {n : Nat} (hpos : 0 < n) (hn : n < c.utf8Size)
    (rest : List UInt8) : isBoundary (String.utf8EncodeChar c ++ rest) n = false := by
  obtain ⟨lead, tail, hc, -, htail⟩ := exists_utf8EncodeChar_eq c
  have hlen := String.length_utf8EncodeChar c
  obtain ⟨k, rfl⟩ := Nat.exists_eq_add_of_lt hpos
  rw [hc, List.length_cons] at hlen
  have hk : k < tail.length := by omega
  have hbyte : (String.utf8EncodeChar c ++ rest)[0 + k + 1]? = some tail[k] := by
    rw [hc, List.cons_append, List.getElem?_cons_succ, Nat.zero_add, List.getElem?_append_left hk,
      List.getElem?_eq_getElem hk]
  have hinside : 0 + k + 1 ≠ (String.utf8EncodeChar c ++ rest).length := by
    rw [hc, List.cons_append, List.length_cons, List.length_append]
    omega
  unfold isBoundary
  rw [hbyte, Option.any_some, htail _ (List.getElem_mem hk)]
  simpa using hinside

/-- Behind a character the boundaries are those of what follows. -/
theorem isBoundary_utf8Size_add (c : Char) (cs : List Char) (k : Nat) :
    isBoundary (String.utf8EncodeChar c ++ cs.flatMap String.utf8EncodeChar) (c.utf8Size + k) =
      isBoundary (cs.flatMap String.utf8EncodeChar) k := by
  have hlen := String.length_utf8EncodeChar c
  have hpos := c.utf8Size_pos
  have hbyte : (String.utf8EncodeChar c ++ cs.flatMap String.utf8EncodeChar)[c.utf8Size + k]? =
      (cs.flatMap String.utf8EncodeChar)[k]? := by
    rw [List.getElem?_append_right (by omega), hlen, Nat.add_sub_cancel_left]
  unfold isBoundary
  rw [hbyte, List.length_append, hlen]
  cases k with
  | zero =>
    -- what follows begins with a first byte, or there is nothing
    cases cs with
    | nil => simp
    | cons d ds =>
      obtain ⟨lead, tail, hd, hlead, -⟩ := exists_utf8EncodeChar_eq d
      rw [List.flatMap_cons, hd]
      simp [hlead]
  | succ k =>
    have hsame : (c.utf8Size + (k + 1) == c.utf8Size + (cs.flatMap String.utf8EncodeChar).length) =
        (k + 1 == (cs.flatMap String.utf8EncodeChar).length) := by
      rw [Bool.eq_iff_iff, beq_iff_eq, beq_iff_eq]
      omega
    rw [hsame, beq_eq_false_iff_ne.2 (by omega : c.utf8Size + (k + 1) ≠ 0)]
    rfl

/-- The places that are known by their bytes are those behind a run of whole characters. -/
theorem isBoundary_flatMap_iff (cs : List Char) (n : Nat) :
    isBoundary (cs.flatMap String.utf8EncodeChar) n ↔
      ∃ front, front <+: cs ∧ byteCount front = n := by
  induction cs generalizing n with
  | nil =>
    simp only [List.flatMap_nil, List.prefix_nil, exists_eq_left, byteCount_nil]
    cases n <;> simp [isBoundary]
  | cons c cs ih =>
    rw [List.flatMap_cons]
    simp only [List.prefix_cons_iff, or_and_right, exists_or, exists_eq_left, byteCount_nil]
    rcases Nat.eq_zero_or_pos n with rfl | hpos
    · simp [isBoundary]
    rcases Nat.lt_or_ge n c.utf8Size with hlt | hge
    · rw [isBoundary_of_lt_utf8Size hpos hlt]
      refine iff_of_false nofun ?_
      rintro (rfl | ⟨-, ⟨front, rfl, -⟩, hcount⟩)
      · omega
      · rw [byteCount_cons] at hcount
        omega
    · obtain ⟨k, rfl⟩ := Nat.exists_eq_add_of_le hge
      rw [isBoundary_utf8Size_add, ih]
      constructor
      · rintro ⟨front, hfront, rfl⟩
        exact .inr ⟨_, ⟨front, rfl, hfront⟩, rfl⟩
      · rintro (hzero | ⟨-, ⟨front, rfl, hfront⟩, hcount⟩)
        · omega
        · rw [byteCount_cons] at hcount
          exact ⟨front, hfront, by omega⟩

theorem isBoundary_bytes_iff (s : String) (n : Nat) :
    isBoundary (bytes s) n ↔ ∃ front, front <+: s.toList ∧ byteCount front = n := by
  rw [bytes_eq]
  exact isBoundary_flatMap_iff s.toList n

/-! ## Cut texts -/

theorem byteCount_append (front rest : List Char) :
    byteCount (front ++ rest) = byteCount front + byteCount rest := by
  induction front with
  | nil => rw [List.nil_append, byteCount_nil, Nat.zero_add]
  | cons c front ih => rw [List.cons_append, byteCount_cons, byteCount_cons, ih, Nat.add_assoc]

theorem length_bytes_truncate (s : String) (room : Nat) :
    (bytes (truncate s room)).length = byteCount (takeBytes room s.toList) := by
  rw [length_bytes, truncate, String.toList_ofList]

theorem bytes_truncate_isPrefix (s : String) (room : Nat) :
    bytes (truncate s room) <+: bytes s := by
  obtain ⟨rest, hrest⟩ := truncate_isPrefix s room
  rw [bytes_eq, bytes_eq, ← hrest, List.flatMap_append]
  exact List.prefix_append _ _

/-- A cut text reaches to the last boundary that its room allows. -/
theorem isGreatest_length_truncate (s : String) (room : Nat) :
    IsGreatest {n | n ≤ room ∧ isBoundary (bytes s) n} (bytes (truncate s room)).length := by
  rw [length_bytes_truncate]
  constructor
  · exact ⟨byteCount_takeBytes_le room s.toList,
      (isBoundary_bytes_iff s _).2 ⟨_, takeBytes_isPrefix room s.toList, rfl⟩⟩
  · rintro n ⟨hle, hboundary⟩
    obtain ⟨front, hfront, rfl⟩ := (isBoundary_bytes_iff s n).1 hboundary
    obtain ⟨rest, hrest⟩ := hfront
    have hlen := length_le_takeBytes room front rest hle
    rw [hrest] at hlen
    obtain ⟨more, hmore⟩ := List.prefix_of_prefix_length_le ⟨rest, hrest⟩
      (takeBytes_isPrefix room s.toList) hlen
    rw [← hmore, byteCount_append]
    omega

/-- Cutting a text and going back in its bytes lead to the same place. -/
theorem bytes_truncate (s : String) (room : Nat) :
    bytes (truncate s room) = cutBack (bytes s) room := by
  unfold cutBack
  split
  · next hfits => rw [truncate_of_le hfits]
  · rw [← (isGreatest_length_truncate s room).unique (isGreatest_boundaryBefore (bytes s) room)]
    exact List.prefix_iff_eq_take.1 (bytes_truncate_isPrefix s room)

/-- However much room there is, a cut text is the longest front of the text that ends on a boundary
and fits, and going back from the end of the room finds it.  Boundaries are the places behind whole
characters.  A buffer without a byte is left alone; any other, whatever is in it, is filled to its
end: with the text, cut to leave room for one zero, and from there on with zeros.  The number that
comes back is that of the bytes before the zeros, and these bytes are read as the cut text. -/
theorem truncate_fill_exact (s : String) :
    (∀ n, isBoundary (bytes s) n ↔ ∃ front, front <+: s.toList ∧ byteCount front = n) ∧
    (∀ room, (truncate s room).toList <+: s.toList ∧
      IsGreatest {n | n ≤ room ∧ isBoundary (bytes s) n} (bytes (truncate s room)).length ∧
      bytes (truncate s room) = cutBack (bytes s) room) ∧
    fill [] s = (0, []) ∧
    ∀ (first : UInt8) (others : List UInt8), ∃ count zeros filled,
      fill (first :: others) s = (count, filled) ∧
      filled = bytes (truncate s others.length) ++ List.replicate (zeros + 1) 0 ∧
      filled.length = (first :: others).length ∧
      count = (bytes (truncate s others.length)).length ∧
      ofBytes? (filled.take count) = some (truncate s others.length) := by
  refine ⟨isBoundary_bytes_iff s, fun room => ⟨truncate_isPrefix s room,
    isGreatest_length_truncate s room, bytes_truncate s room⟩, rfl, fun first others => ?_⟩
  have hle := length_bytes_truncate_le s others.length
  refine ⟨_, _, _, fill_cons first others s, rfl, ?_, rfl, ?_⟩
  · rw [List.length_append, List.length_replicate, List.length_cons]
    omega
  · rw [List.take_left, ofBytes?_bytes]

/-- A character of two bytes does not go into the one that is left. -/
example : fill [0xEE, 0xEE, 0xEE, 0xEE, 0xEE] "aéé" = (3, [0x61, 0xC3, 0xA9, 0, 0]) := by
  decide +kernel

end SoftRadio.Text

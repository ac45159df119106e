import Mathlib.Data.List.TakeWhile
import SoftRadio.Text.Truncation

/-!
# Texts in buffers

A buffer that is filled with a text has the bytes of its longest front that fits, and zeros from
there on.  So a text without a zero character is found again before the first zero, cut to the room
that there was.

* `takeBytes_of_le`: what fits is taken whole.
* `length_bytes`: a text is as long as its characters are in UTF-8.
* `zero_not_mem_utf8EncodeChar`: no byte is zero but that of the zero character.
* `ofBytes?_bytes`, `ofBytes?_eq_some_iff`: a text is read from its bytes, and from no others.
* `fill_cons`: a buffer is filled to its end.
* `untilZero_fill_eq`, `untilZero_fill`: what stands before the first zero of a filled buffer.
-/

namespace SoftRadio.Text

theorem takeBytes_isPrefix (room : Nat) (cs : List Char) : takeBytes room cs <+: cs := by
  obtain ⟨rest, hrest⟩ := takeBytes_append_drop room cs
  exact ⟨rest, hrest.symm⟩

/-- What fits is taken whole. -/
theorem takeBytes_of_le {room : Nat} {cs : List Char} (h : byteCount cs ≤ room) :
    takeBytes room cs = cs := by
  have hlen := length_le_takeBytes room cs [] h
  rw [List.append_nil] at hlen
  exact (takeBytes_isPrefix room cs).eq_of_length_le hlen

/-! ## Bytes -/

theorem toList_eq_data_toList (array : ByteArray) : array.toList = array.data.toList := by
  have hloop : ∀ (i : Nat) (front : List UInt8),
      ByteArray.toList.loop array i front = front.reverse ++ array.data.toList.drop i := by
    intro i front
    fun_induction ByteArray.toList.loop array i front with
    | case1 i front hi ih =>
      have hlt : i < array.data.toList.length := by simpa using hi
      have hget : array.get! i = array.data.toList[i] := by
        rw [Array.getElem_toList]
        exact getElem!_pos array.data i hi
      rw [ih, List.drop_eq_getElem_cons hlt, hget, List.reverse_cons, List.append_assoc,
        List.singleton_append]
    | case2 i front hi =>
      have hlen : array.data.toList.length ≤ i := by simpa using Nat.le_of_not_lt hi
      rw [List.drop_eq_nil_of_le hlen, List.append_nil]
  exact hloop 0 []

/-- The bytes of a text are those of its characters. -/
theorem bytes_eq (s : String) : bytes s = s.toList.flatMap String.utf8EncodeChar := by
  have hutf : s.toUTF8 = s.toList.utf8Encode := by simp
  rw [bytes, hutf, toList_eq_data_toList, List.utf8Encode, List.toList_data_toByteArray]

theorem length_bytes (s : String) : (bytes s).length = byteCount s.toList := by
  rw [bytes_eq]
  induction s.toList with
  | nil => rfl
  | cons c cs ih =>
    rw [List.flatMap_cons, List.length_append, ih, String.length_utf8EncodeChar, byteCount_cons]

theorem truncate_isPrefix (s : String) (room : Nat) : (truncate s room).toList <+: s.toList := by
  rw [truncate, String.toList_ofList]
  exact takeBytes_isPrefix room s.toList

/-- A text that fits is not cut. -/
theorem truncate_of_le {s : String} {room : Nat} (h : (bytes s).length ≤ room) :
    truncate s room = s := by
  rw [length_bytes] at h
  rw [truncate, takeBytes_of_le h, String.ofList_toList]

/-- Only the zero character has a byte that is zero: those of more than one byte have none that is
less than 128. -/
theorem zero_not_mem_utf8EncodeChar {c : Char} (h : c ≠ '\x00') :
    0 ∉ String.utf8EncodeChar c := by
  have hpos : c.val.toNat ≠ 0 := fun hzero => h (Char.ext (UInt32.toNat_inj.1 hzero))
  have hbyte : ∀ n : Nat, n ≠ 0 → n < 256 → (0 : UInt8) ≠ UInt8.ofNat n := by
    intro n hn hlt heq
    have hval := congrArg UInt8.toNat heq
    rw [UInt8.toNat_ofNat', Nat.mod_eq_of_lt hlt] at hval
    exact hn hval.symm
  fun_cases String.utf8EncodeChar c
  case case1 v hv =>
    rw [List.mem_singleton]
    exact hbyte v hpos (by omega)
  all_goals
    simp only [List.mem_cons, List.not_mem_nil, or_false, not_or]
    repeat' apply And.intro
    all_goals exact hbyte _ (by omega) (by omega)

/-- A text is read from its bytes. -/
theorem ofBytes?_bytes (s : String) : ofBytes? (bytes s) = some s := by
  have harray : (⟨(bytes s).toArray⟩ : ByteArray) = s.toByteArray := by
    rw [bytes, toList_eq_data_toList]
    rfl
  rw [ofBytes?, harray, String.fromUTF8?, dif_pos s.isValidUTF8]
  rfl

/-- Bytes are read as the text whose bytes they are, and no others are read. -/
theorem ofBytes?_eq_some_iff {bs : List UInt8} {s : String} :
    ofBytes? bs = some s ↔ bytes s = bs := by
  constructor
  · intro h
    unfold ofBytes? String.fromUTF8? at h
    split at h
    · cases h
      exact toList_eq_data_toList _
    · cases h
  · rintro rfl
    exact ofBytes?_bytes s

theorem isSome_ofBytes?_iff {bs : List UInt8} :
    (ofBytes? bs).isSome ↔ ByteArray.IsValidUTF8 ⟨bs.toArray⟩ := by
  unfold ofBytes? String.fromUTF8?
  split
  · next hvalid => exact iff_of_true rfl hvalid
  · next hvalid => exact iff_of_false nofun hvalid

/-! ## Filled buffers -/

theorem length_bytes_truncate_le (s : String) (room : Nat) :
    (bytes (truncate s room)).length ≤ room := by
  rw [length_bytes, truncate, String.toList_ofList]
  exact byteCount_takeBytes_le room s.toList

/-- A buffer is filled to its end, with one zero at least. -/
theorem fill_cons (first : UInt8) (others : List UInt8) (s : String) :
    fill (first :: others) s = ((bytes (truncate s others.length)).length,
      bytes (truncate s others.length) ++
        List.replicate (others.length - (bytes (truncate s others.length)).length + 1) 0) := by
  have hle := length_bytes_truncate_le s others.length
  unfold fill
  rw [List.length_cons]
  dsimp only
  rw [Nat.sub_add_comm hle]

/-- A filled buffer has the text, cut to leave room for a zero, and at least one zero after it. -/
theorem exists_fill_eq {buffer : List UInt8} (hbuffer : 1 ≤ buffer.length) (s : String) :
    ∃ zeros, (fill buffer s).2 =
      bytes (truncate s (buffer.length - 1)) ++ 0 :: List.replicate zeros 0 := by
  cases buffer with
  | nil => cases hbuffer
  | cons first others =>
    refine ⟨others.length - (bytes (truncate s others.length)).length, ?_⟩
    rw [fill_cons, List.replicate_succ]
    rfl

/-- The characters of a text before its first zero character. -/
def untilNul (s : String) : String := String.ofList (s.toList.takeWhile (· != '\x00'))

theorem untilNul_isPrefix (s : String) : (untilNul s).toList <+: s.toList := by
  rw [untilNul, String.toList_ofList]
  exact List.takeWhile_prefix _

theorem untilNul_eq_self_iff {s : String} : untilNul s = s ↔ '\x00' ∉ s.toList := by
  have hlist : untilNul s = s ↔ s.toList.takeWhile (· != '\x00') = s.toList := by
    rw [← String.toList_inj, untilNul, String.toList_ofList]
  rw [hlist, List.takeWhile_eq_self_iff]
  constructor
  · intro h hmem
    exact bne_iff_ne.1 (h _ hmem) rfl
  · intro h c hc
    exact bne_iff_ne.2 fun hnul => h (hnul ▸ hc)

/-- The bytes before the first zero are those of the characters before the first zero character. -/
theorem untilZero_bytes_append (s : String) (rest : List UInt8) :
    untilZero (bytes s ++ 0 :: rest) = bytes (untilNul s) := by
  rw [bytes_eq, bytes_eq, untilNul, String.toList_ofList]
  unfold untilZero
  induction s.toList with
  | nil => rfl
  | cons c cs ih =>
    by_cases hnul : c = '\x00'
    · subst hnul
      rfl
    · have hkept : ∀ byte ∈ String.utf8EncodeChar c, (byte != 0) = true := by
        intro byte hmem
        refine bne_iff_ne.2 ?_
        rintro rfl
        exact zero_not_mem_utf8EncodeChar hnul hmem
      have hc : (c != '\x00') = true := bne_iff_ne.2 hnul
      rw [List.takeWhile_cons, if_pos hc, List.flatMap_cons, List.flatMap_cons, List.append_assoc,
        List.takeWhile_append_of_pos hkept, ih]

/-- What stands before the first zero of a filled buffer is the text, cut to the room and at its
first zero character. -/
theorem untilZero_fill_eq {buffer : List UInt8} (hbuffer : 1 ≤ buffer.length) (s : String) :
    untilZero (fill buffer s).2 = bytes (untilNul (truncate s (buffer.length - 1))) := by
  obtain ⟨zeros, hfill⟩ := exists_fill_eq hbuffer s
  rw [hfill, untilZero_bytes_append]

/-- What stands before the first zero of a filled buffer is the text, cut to the room. -/
theorem untilZero_fill {buffer : List UInt8} {s : String} (hbuffer : 1 ≤ buffer.length)
    (h : '\x00' ∉ s.toList) :
    untilZero (fill buffer s).2 = bytes (truncate s (buffer.length - 1)) := by
  have hcut : '\x00' ∉ (truncate s (buffer.length - 1)).toList := fun hmem =>
    h ((truncate_isPrefix s _).subset hmem)
  rw [untilZero_fill_eq hbuffer, untilNul_eq_self_iff.2 hcut]

end SoftRadio.Text

import SoftRadio.Eeprom
import SoftRadio.Proofs.Outcome
import SoftRadio.Proofs.Text.Boundary

/-!
# Daughterboard records across the flat interface

The serial of a daughterboard goes into a text field of 64 bytes, and comes back from there cut to
63 bytes and at its first zero character.  A field that callers lay out is read up to its first
zero byte, if that is well-formed UTF-8, and is written again with zeros from there on.

* `toEeprom_ofEeprom`: what comes back of a record.
* `toEeprom_eq_ok_iff`: which fields are read, and as what.
* `ofEeprom_of_toEeprom`: what is written of a field that was read.
* `record_both_ways`: the two directions together.
-/

namespace SoftRadio.DboardRecord

open Text

/-- A record is read if its text field is, and the numbers are taken over. -/
theorem toEeprom_eq_ok_iff {r : DboardRecord} {e : DboardEeprom} :
    r.toEeprom = .ok e ↔
      bytes e.serial = untilZero r.serial ∧ e.id = r.id ∧ e.revision = r.revision := by
  have hread : ∀ s, TextField.read r.serial = .ok s ↔ bytes s = untilZero r.serial := by
    intro s
    rw [← ofBytes?_eq_some_iff]
    unfold TextField.read
    cases ofBytes? (untilZero r.serial) with
    | none => exact iff_of_false nofun nofun
    | some t => rw [Except.ok.injEq, Option.some.injEq]
  unfold toEeprom
  rw [bind_eq_ok_iff]
  constructor
  · rintro ⟨s, hs, h⟩
    cases h
    exact ⟨(hread s).1 hs, rfl, rfl⟩
  · rintro ⟨hserial, hid, hrevision⟩
    refine ⟨e.serial, (hread _).2 hserial, ?_⟩
    rw [← hid, ← hrevision]
    rfl

/-- A field is read if and only if what stands before its first zero is well-formed. -/
theorem exists_toEeprom_iff (r : DboardRecord) :
    (∃ e, r.toEeprom = .ok e) ↔ ByteArray.IsValidUTF8 ⟨(untilZero r.serial).toArray⟩ := by
  rw [← isSome_ofBytes?_iff, Option.isSome_iff_exists]
  constructor
  · rintro ⟨e, h⟩
    exact ⟨e.serial, ofBytes?_eq_some_iff.2 (toEeprom_eq_ok_iff.1 h).1⟩
  · rintro ⟨s, h⟩
    exact ⟨⟨r.id, s, r.revision⟩, toEeprom_eq_ok_iff.2 ⟨ofBytes?_eq_some_iff.1 h, rfl, rfl⟩⟩

/-- What comes back of a record is cut to the room of the field and at its first zero. -/
theorem toEeprom_ofEeprom (e : DboardEeprom) :
    (ofEeprom e).toEeprom = .ok ⟨e.id, untilNul (truncate e.serial 63), e.revision⟩ := by
  have hsize : 1 ≤ (List.replicate TextField.size (0 : UInt8)).length := by decide
  exact toEeprom_eq_ok_iff.2 ⟨(untilZero_fill_eq hsize e.serial).symm, rfl, rfl⟩

/-- All of a record comes back if its serial fits and has no zero character, and only then. -/
theorem toEeprom_ofEeprom_eq_iff (e : DboardEeprom) :
    (ofEeprom e).toEeprom = .ok e ↔ (bytes e.serial).length ≤ 63 ∧ '\x00' ∉ e.serial.toList := by
  rw [toEeprom_ofEeprom]
  constructor
  · intro h
    have hserial := congrArg DboardEeprom.serial (Except.ok.inj h)
    dsimp only at hserial
    -- both cuts only take away, so neither took anything
    have hfront := truncate_isPrefix e.serial 63
    have hlen := (untilNul_isPrefix (truncate e.serial 63)).length_le
    rw [hserial] at hlen
    have hcut : truncate e.serial 63 = e.serial := String.toList_inj.1 (hfront.eq_of_length_le hlen)
    rw [hcut] at hserial
    exact ⟨hcut ▸ length_bytes_truncate_le e.serial 63, untilNul_eq_self_iff.1 hserial⟩
  · rintro ⟨hfits, hnul⟩
    rw [truncate_of_le hfits, untilNul_eq_self_iff.2 hnul]

/-- What is written of a field that was read is what was read, and zeros from there on. -/
theorem ofEeprom_of_toEeprom {r : DboardRecord} {e : DboardEeprom}
    (hsize : r.serial.length = TextField.size) (hzero : 0 ∈ r.serial) (h : r.toEeprom = .ok e) :
    ofEeprom e = ⟨r.id, untilZero r.serial ++
      List.replicate (TextField.size - (untilZero r.serial).length) 0, r.revision⟩ := by
  obtain ⟨hserial, hid, hrevision⟩ := toEeprom_eq_ok_iff.1 h
  have hshort : (untilZero r.serial).length < TextField.size := by
    have hfront : untilZero r.serial <+: r.serial := List.takeWhile_prefix _
    rcases Nat.lt_or_ge (untilZero r.serial).length TextField.size with hlt | hge
    · exact hlt
    · have hall := List.takeWhile_eq_self_iff.1 (hfront.eq_of_length_le (hsize ▸ hge))
      exact absurd rfl (bne_iff_ne.1 (hall 0 hzero))
  have hfits : (bytes e.serial).length ≤ 63 := by
    rw [hserial]
    exact Nat.le_of_lt_succ hshort
  have hzeros : 63 - (bytes e.serial).length + 1 = TextField.size - (bytes e.serial).length := by
    unfold TextField.size
    omega
  have hfill : TextField.ofText e.serial = bytes e.serial ++
      List.replicate (TextField.size - (bytes e.serial).length) 0 := by
    unfold TextField.ofText
    rw [TextField.size, List.replicate_succ, fill_cons, List.length_replicate,
      truncate_of_le hfits, hzeros]
    rfl
  unfold ofEeprom
  rw [hfill, hserial, hid, hrevision]

/-- A daughterboard's record always comes back from the flat interface: its numbers as they are, and
as its serial the longest front of it that ends between two characters and fits in 63 bytes, cut at
its first zero character.  So all of it comes back if and only if the serial fits and has no zero
character.  A record of which the text field has a zero is read if and only if the bytes before the
first one are well-formed UTF-8, and is then written again as it was up to there, with zeros after
it. -/
theorem record_both_ways :
    (∀ e : DboardEeprom,
      (∃ front, front.toList <+: e.serial.toList ∧
        IsGreatest {n | n ≤ 63 ∧ isBoundary (bytes e.serial) n} (bytes front).length ∧
        (ofEeprom e).toEeprom = .ok ⟨e.id, untilNul front, e.revision⟩) ∧
      ((ofEeprom e).toEeprom = .ok e ↔
        (bytes e.serial).length ≤ 63 ∧ '\x00' ∉ e.serial.toList)) ∧
    ∀ r : DboardRecord, r.serial.length = TextField.size → 0 ∈ r.serial →
      ((∃ e, r.toEeprom = .ok e) ↔ ByteArray.IsValidUTF8 ⟨(untilZero r.serial).toArray⟩) ∧
      ∀ e, r.toEeprom = .ok e → ofEeprom e = ⟨r.id, untilZero r.serial ++
        List.replicate (TextField.size - (untilZero r.serial).length) 0, r.revision⟩ := by
  refine ⟨fun e => ⟨?_, toEeprom_ofEeprom_eq_iff e⟩, fun r hsize hzero =>
    ⟨exists_toEeprom_iff r, fun e h => ofEeprom_of_toEeprom hsize hzero h⟩⟩
  exact ⟨truncate e.serial 63, truncate_isPrefix e.serial 63,
    isGreatest_length_truncate e.serial 63, toEeprom_ofEeprom e⟩

/-- A field with a letter of two bytes before its first zero, and with remains of another text
behind it. -/
theorem record_of_used_field :
    let field : List UInt8 := [0x41, 0xC3, 0xA9, 0] ++ List.replicate 60 0xFF
    field.length = TextField.size ∧ 0 ∈ field ∧ ∃ e, toEeprom ⟨257, field, -1⟩ = .ok e ∧
      ofEeprom e = ⟨257, [0x41, 0xC3, 0xA9] ++ List.replicate 61 0, -1⟩ := by
  intro field
  have hsize : field.length = TextField.size := by decide
  have hzero : 0 ∈ field := by decide
  have huntil : untilZero field = [0x41, 0xC3, 0xA9] := by decide
  obtain ⟨hread, hwritten⟩ := record_both_ways.2 ⟨257, field, -1⟩ hsize hzero
  rw [huntil] at hread hwritten
  obtain ⟨e, he⟩ := hread.2 ⟨['A', 'é'], by decide⟩
  exact ⟨hsize, hzero, e, he, hwritten e he⟩

end SoftRadio.DboardRecord

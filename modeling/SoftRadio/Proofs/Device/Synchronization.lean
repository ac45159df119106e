import Mathlib.Order.Monotone.Defs
import SoftRadio.Proofs.Device.Channels
import SoftRadio.Proofs.Exact

/-!
# Setting the time of all boards at a pulse

The boards of a radio count the elapsed time together, and a pulse comes with every whole second of
it.  When the time is set on all of them at the next pulse, each board looks at the elapsed time
for itself, one after another.  So each takes the pulse after its own look, and they take the same
one just if no pulse comes between the first look and the last.

* `Clock.pulseAfter`, `Clock.comesTo_setNextPulse`: the pulse that a clock takes, and that it comes
  to the time there; `Clock.ComesTo.unique`: and nowhere else; `Clock.ComesTo.of_now`: what is read
  at a pulse tells it.
* `timeSynchronized_iff`: when the clocks of a radio agree.
* `setTimeUnknownPulse_account`: what each board reads when, and when all of them read it at once.
* `setTimeUnknownPulse_astride`: two boards with a pulse between their looks.
-/

namespace SoftRadio

/-! ## One clock -/

namespace Clock

/-- The pulse after some seconds have passed. -/
def pulseAfter (elapsed : ℚ) : ℤ := ⌊elapsed⌋ + 1

theorem lt_pulseAfter (elapsed : ℚ) : elapsed < pulseAfter elapsed := by
  unfold pulseAfter
  rw [Int.cast_add, Int.cast_one]
  exact Int.lt_floor_add_one elapsed

theorem offset_setNextPulse (elapsed : ℚ) (time : TimeSpec ℚ) :
    (setNextPulse elapsed time).offset = time.toSecs - pulseAfter elapsed := by
  unfold pulseAfter
  rw [Int.cast_add]
  rfl

/-- At a pulse it is the latest one. -/
theorem lastPulse_intCast (c : Clock ℚ) (pulse : ℤ) : c.lastPulse pulse = c.now pulse := by
  have hfloor : Scalar.floor (pulse : ℚ) = pulse := congrArg Int.cast (Int.floor_intCast pulse)
  unfold lastPulse now
  rw [hfloor]

/-- A clock comes to a time at a pulse: so many seconds it counts, and so it is read, as the time
and as that of the latest pulse. -/
structure ComesTo (c : Clock ℚ) (time : TimeSpec ℚ) (pulse : ℤ) : Prop where
  secs : pulse + c.offset = time.toSecs
  now : c.now pulse = .ok time
  lastPulse : c.lastPulse pulse = .ok time

theorem comesTo_setNextPulse {time : TimeSpec ℚ} (htime : time.Normal) (elapsed : ℚ) :
    (setNextPulse elapsed time).ComesTo time (pulseAfter elapsed) := by
  have hsecs : pulseAfter elapsed + (setNextPulse elapsed time).offset = time.toSecs := by
    rw [offset_setNextPulse, add_sub_cancel]
  have hnow : (setNextPulse elapsed time).now (pulseAfter elapsed) = .ok time := by
    unfold now
    rw [hsecs, htime.ofSecs_toSecs]
  exact ⟨hsecs, hnow, (lastPulse_intCast _ _).trans hnow⟩

/-- A clock that reads a time at a pulse has come to it, unless the time lies at an end of what can
be read. -/
theorem ComesTo.of_now {c : Clock ℚ} {time : TimeSpec ℚ} {pulse : ℤ}
    (hleast : Word.least < time.full) (hgreatest : time.full < Word.greatest)
    (h : c.now pulse = .ok time) : c.ComesTo time pulse := by
  have hreading : c.reading pulse = time := Except.ok.inj ((now_eq c pulse).symm.trans h)
  have hfull : Word.clamp ⌊(pulse : ℚ) + c.offset⌋ = time.full :=
    (Scalar.toInt_floor _).symm.trans (congrArg TimeSpec.full hreading)
  have hfrac : pulse + c.offset - ((⌊(pulse : ℚ) + c.offset⌋ : ℤ) : ℚ) = time.frac :=
    congrArg TimeSpec.frac hreading
  have hfloor : ⌊(pulse : ℚ) + c.offset⌋ = time.full := by
    unfold Word.clamp at hfull
    omega
  refine ⟨?_, h, (lastPulse_intCast c pulse).trans h⟩
  show pulse + c.offset = (time.full : ℚ) + time.frac
  rw [← hfrac, hfloor, add_sub_cancel]

/-- A clock comes to a time at one pulse only. -/
theorem ComesTo.unique {c : Clock ℚ} {time : TimeSpec ℚ} {pulse other : ℤ}
    (h : c.ComesTo time pulse) (h' : c.ComesTo time other) : pulse = other := by
  have hsame : (pulse : ℚ) = other := add_right_cancel (h.secs.trans h'.secs.symm)
  exact_mod_cast hsame

end Clock

/-! ## All clocks of a radio -/

namespace Device

variable {d : Device ℚ} {time : TimeSpec ℚ} {looks : ℕ → ℚ}

/-- The pulses that the boards take, in the order of the boards. -/
theorem clocks_setTimeUnknownPulse (d : Device ℚ) (time : TimeSpec ℚ) (looks : ℕ → ℚ) :
    (d.setTimeUnknownPulse time looks).boards.map Board.clock =
      (List.range d.boards.length).map fun i => Clock.setNextPulse (looks i) time := by
  show (d.boards.zipIdx.map _).map _ = _
  rw [List.range_eq_range', ← List.zipIdx_map_snd 0 d.boards, List.map_map, List.map_map]
  rfl

theorem forall_clock_setTimeUnknownPulse {P : Clock ℚ → Prop} :
    (∀ b ∈ (d.setTimeUnknownPulse time looks).boards, P b.clock) ↔
      ∀ i < d.boards.length, P (Clock.setNextPulse (looks i) time) := by
  have hmap := List.forall_mem_map (f := Board.clock) (P := P)
    (l := (d.setTimeUnknownPulse time looks).boards)
  rw [← hmap, clocks_setTimeUnknownPulse, List.forall_mem_map]
  simp only [List.mem_range]

/-- The clocks of a radio agree if none differs from the first by a millionth of a second. -/
theorem timeSynchronized_iff :
    d.timeSynchronized = true ↔ ∀ first ∈ (d.boards.map Board.clock).head?,
      ∀ c ∈ d.boards.map Board.clock, |c.offset - first.offset| < 1 / 1000000 := by
  have hlimit : (Scalar.ratio 1 1000000 : ℚ) = 1 / 1000000 := by
    norm_num [Scalar.ratio, Scalar.ofInt]
  unfold timeSynchronized
  rw [hlimit]
  cases d.boards with
  | nil => exact iff_of_true rfl fun first h => absurd h (Option.not_mem_none first)
  | cons b rest =>
    rw [List.head?_map]
    simp only [List.head?_cons, Option.map_some, Option.mem_some_iff, forall_eq', List.all_eq_true,
      List.forall_mem_map]
    exact forall₂_congr fun _ _ => decide_eq_true_iff

/-- Pulses are a second apart at least. -/
theorem abs_offset_sub_lt_iff {first look : ℚ} :
    |(Clock.setNextPulse look time).offset - (Clock.setNextPulse first time).offset| < 1 / 1000000 ↔
      Clock.pulseAfter look = Clock.pulseAfter first := by
  rw [Clock.offset_setNextPulse, Clock.offset_setNextPulse, sub_sub_sub_cancel_left, ← Int.cast_sub,
    ← Int.cast_abs]
  constructor
  · intro h
    have hlt : |Clock.pulseAfter first - Clock.pulseAfter look| < 1 := by
      have hone : ((|Clock.pulseAfter first - Clock.pulseAfter look| : ℤ) : ℚ) < 1 := by linarith
      exact_mod_cast hone
    exact (sub_eq_zero.1 (Int.abs_lt_one_iff.1 hlt)).symm
  · intro h
    rw [h, sub_self, abs_zero]
    norm_num

/-- They agree just if all boards took the pulse of the first. -/
theorem timeSynchronized_setTimeUnknownPulse_iff :
    (d.setTimeUnknownPulse time looks).timeSynchronized = true ↔
      ∀ i < d.boards.length, Clock.pulseAfter (looks i) = Clock.pulseAfter (looks 0) := by
  rw [timeSynchronized_iff, clocks_setTimeUnknownPulse]
  cases d.boards.length with
  | zero =>
    exact iff_of_true (fun first h => absurd h (Option.not_mem_none first))
      fun i h => absurd h (Nat.not_lt_zero i)
  | succ n =>
    rw [List.head?_map, List.head?_range, if_neg n.succ_ne_zero]
    simp only [Option.map_some, Option.mem_some_iff, forall_eq', List.forall_mem_map,
      List.mem_range, abs_offset_sub_lt_iff]

/-- One pulse does for all boards just if no pulse comes between the first look and the last. -/
theorem forall_pulseAfter_eq_iff (hlooks : Monotone looks) (n : ℕ) :
    (∀ i < n, Clock.pulseAfter (looks i) = Clock.pulseAfter (looks 0)) ↔
      ⌊looks (n - 1)⌋ = ⌊looks 0⌋ := by
  unfold Clock.pulseAfter
  constructor
  · intro h
    cases n with
    | zero => rfl
    | succ n => exact add_right_cancel (h n (Nat.lt_succ_self n))
  · intro h i hi
    have hlast : ⌊looks i⌋ ≤ ⌊looks (n - 1)⌋ := Int.floor_mono (hlooks (Nat.le_sub_one_of_lt hi))
    have hfirst : ⌊looks 0⌋ ≤ ⌊looks i⌋ := Int.floor_mono (hlooks (Nat.zero_le i))
    rw [le_antisymm (h ▸ hlast) hfirst]

theorem clock_of_getElem? {i : ℕ} {b : Board ℚ}
    (h : (d.setTimeUnknownPulse time looks).boards[i]? = some b) :
    b.clock = Clock.setNextPulse (looks i) time := by
  have hclock : ((d.setTimeUnknownPulse time looks).boards.map Board.clock)[i]? = some b.clock := by
    rw [List.getElem?_map, h]
    rfl
  rw [clocks_setTimeUnknownPulse] at hclock
  obtain ⟨hi, hset⟩ := List.getElem?_eq_some_iff.1 hclock
  rw [← hset, List.getElem_map, List.getElem_range]

/-- If all boards come to the time at one pulse, they took the pulse of the first. -/
theorem pulseAfter_eq_of_comesTo {pulse : ℤ} (htime : time.Normal)
    (h : ∀ b ∈ (d.setTimeUnknownPulse time looks).boards, b.clock.ComesTo time pulse) :
    ∀ i < d.boards.length, Clock.pulseAfter (looks i) = Clock.pulseAfter (looks 0) := by
  have htaken (i : ℕ) (hi : i < d.boards.length) : Clock.pulseAfter (looks i) = pulse :=
    (Clock.comesTo_setNextPulse htime (looks i)).unique
      ((forall_clock_setTimeUnknownPulse (P := (·.ComesTo time pulse))).1 h i hi)
  exact fun i hi => (htaken i hi).trans (htaken 0 (Nat.zero_lt_of_lt hi)).symm

/-- When the time is set on all boards at the next pulse, every board comes to it at the pulse
after its own look.  The clocks agree, and all boards come to the time at one pulse, just if no
pulse comes between the first look and the last.  If one does, they do not even read it at one
pulse, unless the time lies at an end of what can be read. -/
theorem setTimeUnknownPulse_account (d : Device ℚ) {time : TimeSpec ℚ} (htime : time.Normal)
    {looks : ℕ → ℚ} (hlooks : Monotone looks) {start : ℚ} (hstart : start ≤ looks 0) :
    ∃ d', d.perform looks (.setTimeUnknownPulse time) = .ok (.done, d') ∧
      d'.boards.length = d.boards.length ∧
      (∀ (i : ℕ) (b : Board ℚ), d'.boards[i]? = some b →
        start < Clock.pulseAfter (looks i) ∧
          b.clock.ComesTo time (Clock.pulseAfter (looks i))) ∧
      (d'.timeSynchronized = true ↔ ⌊looks (d.boards.length - 1)⌋ = ⌊looks 0⌋) ∧
      ((∃ pulse : ℤ, start < pulse ∧ ∀ b ∈ d'.boards, b.clock.ComesTo time pulse) ↔
        ⌊looks (d.boards.length - 1)⌋ = ⌊looks 0⌋) ∧
      (Word.least < time.full → time.full < Word.greatest →
        ∀ pulse : ℤ, (∀ b ∈ d'.boards, b.clock.now pulse = .ok time) →
          ⌊looks (d.boards.length - 1)⌋ = ⌊looks 0⌋) := by
  have hcomes (i : ℕ) :
      (Clock.setNextPulse (looks i) time).ComesTo time (Clock.pulseAfter (looks i)) :=
    Clock.comesTo_setNextPulse htime (looks i)
  have hlater (i : ℕ) : start < Clock.pulseAfter (looks i) :=
    (hstart.trans (hlooks (Nat.zero_le i))).trans_lt (Clock.lt_pulseAfter (looks i))
  have hlength : (d.setTimeUnknownPulse time looks).boards.length = d.boards.length := by
    rw [← List.length_map, clocks_setTimeUnknownPulse, List.length_map, List.length_range]
  have hagree := forall_pulseAfter_eq_iff hlooks d.boards.length
  refine ⟨d.setTimeUnknownPulse time looks, rfl, hlength, fun i b hb => ⟨hlater i, ?_⟩,
    timeSynchronized_setTimeUnknownPulse_iff.trans hagree, ?_,
    fun hleast hgreatest pulse hall => ?_⟩
  · rw [clock_of_getElem? hb]
    exact hcomes i
  · rw [← hagree]
    constructor
    · rintro ⟨pulse, -, hall⟩
      exact pulseAfter_eq_of_comesTo htime hall
    · intro hsame
      refine ⟨Clock.pulseAfter (looks 0), hlater 0,
        (forall_clock_setTimeUnknownPulse (P := (·.ComesTo time _))).2 fun i hi => ?_⟩
      exact hsame i hi ▸ hcomes i
  · rw [← hagree]
    exact pulseAfter_eq_of_comesTo htime fun b hb => .of_now hleast hgreatest (hall b hb)

/-- The looks of boards that look a tenth of a second apart, the first of them at `first`. -/
def tenths (first : ℚ) (board : ℕ) : ℚ := first + board / 10

theorem monotone_tenths (first : ℚ) : Monotone (tenths first) := by
  intro i j hij
  have hcast : (i : ℚ) ≤ j := Nat.cast_le.2 hij
  unfold tenths
  linarith

/-- A radio with two boards. -/
theorem exists_two_boards : ∃ (g : Geometry ℚ) (opened : Device ℚ),
    Geometry.ofAddress Geometry.standard ⟨[("num_mboards", "2")]⟩ = .ok g ∧
      make Address.empty g = .ok opened ∧ opened.boards.length = 2 := by
  obtain ⟨g, opened, hsize, hmake, htwo⟩ := exists_opened Geometry.standard
    ⟨[("num_mboards", "2")]⟩ Address.empty
    (fun opened : Device ℚ => opened.boards.length = 2) (by decide +kernel)
  exact ⟨g, opened, hsize, hmake, of_decide_eq_true htwo⟩

/-- Two boards that look within one second come to the time together. -/
theorem setTimeUnknownPulse_within : ∃ (g : Geometry ℚ) (opened d' : Device ℚ),
    Geometry.ofAddress Geometry.standard ⟨[("num_mboards", "2")]⟩ = .ok g ∧
      make Address.empty g = .ok opened ∧
      (⟨10, 1 / 4⟩ : TimeSpec ℚ).Normal ∧ Monotone (tenths (1 / 2)) ∧ 1 / 3 ≤ tenths (1 / 2) 0 ∧
      opened.perform (tenths (1 / 2)) (.setTimeUnknownPulse ⟨10, 1 / 4⟩) = .ok (.done, d') ∧
      d'.timeSynchronized = true ∧
      ∃ pulse : ℤ, 1 / 3 < (pulse : ℚ) ∧ ∀ b ∈ d'.boards, b.clock.ComesTo ⟨10, 1 / 4⟩ pulse := by
  obtain ⟨g, opened, hsize, hmake, htwo⟩ := exists_two_boards
  have htime : (⟨10, 1 / 4⟩ : TimeSpec ℚ).Normal := ⟨rfl, by norm_num, by norm_num⟩
  have hstart : 1 / 3 ≤ tenths (1 / 2) 0 := by norm_num [tenths]
  have hsecond : ⌊tenths (1 / 2) (opened.boards.length - 1)⌋ = ⌊tenths (1 / 2) 0⌋ := by
    rw [htwo]
    decide +kernel
  obtain ⟨d', hset, -, -, hsync, hpulse, -⟩ :=
    setTimeUnknownPulse_account opened htime (monotone_tenths (1 / 2)) hstart
  exact ⟨g, opened, d', hsize, hmake, htime, monotone_tenths _, hstart, hset, hsync.2 hsecond,
    hpulse.2 hsecond⟩

/-- Two boards with a pulse between their looks do not agree, and read the time at no pulse
together. -/
theorem setTimeUnknownPulse_astride : ∃ (g : Geometry ℚ) (opened d' : Device ℚ),
    Geometry.ofAddress Geometry.standard ⟨[("num_mboards", "2")]⟩ = .ok g ∧
      make Address.empty g = .ok opened ∧ Monotone (tenths (19 / 20)) ∧
      opened.perform (tenths (19 / 20)) (.setTimeUnknownPulse ⟨10, 0⟩) = .ok (.done, d') ∧
      d'.timeSynchronized = false ∧
      ¬ ∃ pulse : ℤ, ∀ b ∈ d'.boards, b.clock.now pulse = .ok ⟨10, 0⟩ := by
  obtain ⟨g, opened, hsize, hmake, htwo⟩ := exists_two_boards
  have hapart : Clock.pulseAfter (tenths (19 / 20) 1) ≠ Clock.pulseAfter (tenths (19 / 20) 0) := by
    decide +kernel
  refine ⟨g, opened, opened.setTimeUnknownPulse ⟨10, 0⟩ (tenths (19 / 20)), hsize, hmake,
    monotone_tenths _, rfl, Bool.eq_false_iff.2 fun hsync => ?_, ?_⟩
  · exact hapart (timeSynchronized_setTimeUnknownPulse_iff.1 hsync 1 (by omega))
  · rintro ⟨pulse, hall⟩
    have htime : (⟨10, 0⟩ : TimeSpec ℚ).Normal := ⟨rfl, le_rfl, one_pos⟩
    exact hapart (pulseAfter_eq_of_comesTo htime
      (fun b hb => .of_now (by decide) (by decide) (hall b hb)) 1 (by omega))

end Device

end SoftRadio

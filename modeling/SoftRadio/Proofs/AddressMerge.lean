import Mathlib.Data.List.Nodup
import SoftRadio.Proofs.Discovery

/-!
# Addresses put over one another

An address without repeated keys is known by the order of its keys and the value at each of them.
Putting a second address over it adds the new keys of the second one at the end and takes its
values where it has any.  So the order of grouping does not matter, and what the first address has
stays in front, unchanged if the second one has no other value for it.  This is what a hint is
matched for: the radio that discovery reported is opened under all that was reported of it.

* `ext_of_get?`: addresses with the same keys in order and the same values are equal.
* `keys_merged`: the keys of an address that is put over another.
* `Agrees`: the same value at every key that both have; `matchesHint_iff` and `take_merged_iff`
  say what hangs on it.
* `merged_laws`: all of it together.
-/

namespace SoftRadio

namespace Address

variable {a b c : Address} {key value : String}

/-! ## An address by its keys and its values -/

theorem get?_eq_none_iff : a.get? key = none ↔ key ∉ a.keys := by
  unfold get? keys
  rw [Option.map_eq_none_iff, List.find?_eq_none, List.mem_map]
  constructor
  · rintro h ⟨p, hp, rfl⟩
    exact h p hp (decide_eq_true rfl)
  · intro h p hp heq
    exact h ⟨p, hp, of_decide_eq_true heq⟩

theorem exists_get?_of_mem_keys (h : key ∈ a.keys) : ∃ mine, a.get? key = some mine := by
  by_contra hnone
  exact get?_eq_none_iff.1 (Option.eq_none_iff_forall_not_mem.2 fun v hv => hnone ⟨v, hv⟩) h

theorem mem_pairs_of_get? (h : a.get? key = some value) : (key, value) ∈ a.pairs := by
  obtain ⟨⟨k, v⟩, hfind, rfl⟩ := Option.map_eq_some_iff.1 h
  have hk : decide (k = key) = true := by simpa using List.find?_some hfind
  exact of_decide_eq_true hk ▸ List.mem_of_find?_eq_some hfind

/-- Where no key is repeated, every pair is found at its key. -/
theorem get?_of_mem_pairs (ha : a.keys.Nodup) (h : (key, value) ∈ a.pairs) :
    a.get? key = some value := by
  obtain ⟨mine, hmine⟩ := exists_get?_of_mem_keys (List.mem_map_of_mem (f := Prod.fst) h)
  have hsame := List.inj_on_of_nodup_map ha h (mem_pairs_of_get? hmine) rfl
  rw [hmine, (Prod.mk.inj hsame).2]

/-- The pairs are the keys in order, each with the value at it. -/
theorem pairs_eq_map (ha : a.keys.Nodup) : a.pairs = a.keys.map fun k => (k, a.getD k "") := by
  unfold keys
  rw [List.map_map]
  refine (List.map_id _).symm.trans (List.map_congr_left fun ⟨k, v⟩ hp => ?_)
  show (k, v) = (k, a.getD k "")
  unfold getD
  rw [get?_of_mem_pairs ha hp, Option.getD_some]

theorem ext_of_get? (ha : a.keys.Nodup) (hkeys : a.keys = b.keys)
    (hget : ∀ key, a.get? key = b.get? key) : a = b := by
  have hpairs : a.pairs = b.pairs := by
    rw [pairs_eq_map ha, pairs_eq_map (hkeys ▸ ha), hkeys]
    unfold getD
    simp only [hget]
  cases a
  cases b
  exact congrArg mk hpairs

/-! ## What is put over an address -/

/-- The keys of the first address stay in front; the new ones of the second follow in order. -/
theorem keys_merged (a : Address) (hb : b.keys.Nodup) :
    (a.merged b).keys = a.keys ++ b.keys.filter (· ∉ a.keys) := by
  obtain ⟨pairs⟩ := b
  induction pairs generalizing a with
  | nil => exact (List.append_nil _).symm
  | cons p rest ih =>
    obtain ⟨k, v⟩ := p
    obtain ⟨hk, hrest⟩ := List.nodup_cons.1 hb
    have hstep : (a.merged ⟨(k, v) :: rest⟩).keys =
        (a.set k v).keys ++ (Address.mk rest).keys.filter (· ∉ (a.set k v).keys) :=
      ih (a.set k v) hrest
    have hcons : (Address.mk ((k, v) :: rest)).keys = k :: (Address.mk rest).keys := rfl
    rw [hstep, hcons, keys_set]
    by_cases hmem : k ∈ a.keys
    · rw [if_pos hmem, List.filter_cons_of_neg (by simpa using hmem)]
    · rw [if_neg hmem, List.filter_cons_of_pos (by simpa using hmem), List.append_assoc,
        List.singleton_append]
      congr 2
      -- the key that was added does not come again
      refine List.filter_congr fun other hother => ?_
      have hne : other ≠ k := fun h => hk (h ▸ hother)
      simp [hne]

theorem nodup_keys_merged (ha : a.keys.Nodup) (hb : b.keys.Nodup) : (a.merged b).keys.Nodup := by
  rw [keys_merged a hb]
  refine List.nodup_append.2 ⟨ha, hb.filter _, ?_⟩
  rintro key hkey other hother rfl
  exact of_decide_eq_true (List.mem_filter.1 hother).2 hkey

/-- The grouping does not matter. -/
theorem merged_assoc (ha : a.keys.Nodup) (hb : b.keys.Nodup) (hc : c.keys.Nodup) :
    (a.merged b).merged c = a.merged (b.merged c) := by
  have hbc := nodup_keys_merged hb hc
  refine ext_of_get? (nodup_keys_merged (nodup_keys_merged ha hb) hc) ?_ fun key => ?_
  · rw [keys_merged _ hc, keys_merged _ hb, keys_merged _ hbc, keys_merged _ hc,
      List.filter_append, List.append_assoc, List.filter_filter]
    congr 2
    -- new over both is new over the second and then over the first
    refine List.filter_congr fun key _ => ?_
    by_cases hfirst : key ∈ a.keys <;> by_cases hsecond : key ∈ b.keys <;> simp [hfirst, hsecond]
  · rw [get?_merged _ hc, get?_merged _ hb, get?_merged _ hbc, get?_merged _ hc, Option.or_assoc]

theorem empty_merged (ha : a.keys.Nodup) : empty.merged a = a := by
  have hkeys : (empty.merged a).keys = a.keys := by
    rw [keys_merged _ ha]
    exact List.filter_eq_self.2 fun key _ => decide_eq_true List.not_mem_nil
  refine ext_of_get? (hkeys ▸ ha) hkeys fun key => ?_
  rw [get?_merged _ ha, get?_empty, Option.or_none]

theorem merged_self (ha : a.keys.Nodup) : a.merged a = a := by
  have hkeys : (a.merged a).keys = a.keys := by
    rw [keys_merged _ ha, List.filter_eq_nil_iff.2 fun key hkey => by simpa using hkey,
      List.append_nil]
  refine ext_of_get? (hkeys ▸ ha) hkeys fun key => ?_
  rw [get?_merged _ ha, Option.or_self]

/-! ## Addresses that agree -/

/-- At every key that both addresses have they have the same value. -/
def Agrees (a b : Address) : Prop :=
  ∀ key mine other, a.get? key = some mine → b.get? key = some other → other = mine

theorem matchesHint_iff (hb : b.keys.Nodup) : a.matchesHint b = true ↔ a.Agrees b := by
  unfold matchesHint
  rw [List.all_eq_true]
  constructor
  · intro h key mine other hmine hother
    have hpair := h (key, other) (mem_pairs_of_get? hother)
    dsimp only at hpair
    rw [hmine] at hpair
    exact (eq_of_beq hpair).symm
  · rintro h ⟨key, other⟩ hp
    dsimp only
    split
    · rfl
    next mine hmine => exact beq_of_eq (h key mine other hmine (get?_of_mem_pairs hb hp)).symm

theorem Agrees.get?_merged (h : a.Agrees b) (hb : b.keys.Nodup) (hmine : a.get? key = some value) :
    (a.merged b).get? key = some value := by
  rw [Address.get?_merged a hb, hmine]
  cases hother : b.get? key with
  | none => rfl
  | some other => rw [h key value other hmine hother, Option.some_or]

/-- What an address has stays in front, unchanged, just if the one that is put over it agrees. -/
theorem take_merged_iff (ha : a.keys.Nodup) (hb : b.keys.Nodup) :
    (a.merged b).pairs.take a.size = a.pairs ↔ a.Agrees b := by
  have hfront : (a.merged b).pairs.take a.size =
      a.keys.map fun k => (k, (a.merged b).getD k "") := by
    have hsize : a.size = a.keys.length := (List.length_map _).symm
    rw [pairs_eq_map (nodup_keys_merged ha hb), ← List.map_take, keys_merged a hb, hsize,
      List.take_left]
  have hvalue : ∀ key mine, a.get? key = some mine →
      (a.merged b).getD key "" = (b.get? key).getD mine := by
    intro key mine hmine
    unfold getD
    rw [get?_merged a hb, hmine]
    cases b.get? key <;> rfl
  rw [hfront, pairs_eq_map ha, List.map_inj_left]
  constructor
  · intro h key mine other hmine hother
    have hkey : key ∈ a.keys := List.mem_map_of_mem (f := Prod.fst) (mem_pairs_of_get? hmine)
    have hsame := (Prod.mk.inj (h key hkey)).2
    rwa [hvalue key mine hmine, hother, getD, hmine] at hsame
  · intro h key hkey
    obtain ⟨mine, hmine⟩ := exists_get?_of_mem_keys hkey
    rw [hvalue key mine hmine, getD, hmine]
    cases hother : b.get? key with
    | none => rfl
    | some other => exact congrArg (Prod.mk key) (h key mine other hmine hother)

end Address

/-! ## What was reported of a radio -/

/-- A driver that heeds hints reports only addresses that answer to them, with no key repeated. -/
def Driver.HeedsHints {δ : Type} (d : Driver δ) : Prop :=
  ∀ hint found, d.find hint = .ok found → ∀ a ∈ found, a.keys.Nodup ∧ a.matchesHint hint = true

theorem Simulation.heedsHints_driver {α : Type} [Scalar α] (settings : SimSettings α) :
    (driver settings).HeedsHints := by
  intro hint found hfind a ha
  cases hfind
  unfold find at ha
  split at ha
  · obtain ⟨haddress, hmatch⟩ := List.mem_filter.1 ha
    obtain ⟨i, -, rfl⟩ := List.mem_map.1 haddress
    have hkeys : (address settings i).keys = ["type", "serial", "name", "product"] := rfl
    exact ⟨hkeys ▸ by decide, hmatch⟩
  · cases ha

namespace Discovery

variable {δ : Type} {drivers : List (Driver δ)} {args : Address}

theorem eq_merged_of_choose {d : Driver δ} {addr : Address}
    (h : choose drivers args = .ok (d, addr)) :
    ∃ first rest, search args drivers = .ok (first :: rest) ∧ addr = first.merged args := by
  obtain ⟨found, hfound, h⟩ := bind_eq_ok_iff.1 h
  split at h
  · cases h
  next first rest =>
    dsimp only at h
    split at h
    · cases h
      exact ⟨first, rest, hfound, rfl⟩
    · cases h

theorem heeds_of_search (hdrivers : ∀ d ∈ drivers, d.HeedsHints) {found : List Address}
    (h : search args drivers = .ok found) {a : Address} (ha : a ∈ found) :
    a.keys.Nodup ∧ a.matchesHint args = true := by
  obtain ⟨-, rfl⟩ := search_eq_ok_iff.1 h
  obtain ⟨d, hd, hreported⟩ := List.mem_flatMap.1 ha
  unfold reported at hreported
  split at hreported
  next mine hfind => exact hdrivers d (List.mem_filter.1 hd).1 args mine hfind a hreported
  · cases hreported

end Discovery

namespace Address

/-- Addresses without repeated keys are a monoid under being put over one another, in which every
element is idempotent; the later one decides.  An address answers to a hint just if it stays in
front, unchanged, when the hint is put over it, and so a radio is opened under every pair that was
reported of it. -/
theorem merged_laws {a b c : Address} (ha : a.keys.Nodup) (hb : b.keys.Nodup)
    (hc : c.keys.Nodup) :
    (a.merged b).keys.Nodup ∧ (∀ key, (a.merged b).get? key = (b.get? key).or (a.get? key)) ∧
    (a.merged b).merged c = a.merged (b.merged c) ∧
    a.merged empty = a ∧ empty.merged a = a ∧ a.merged a = a ∧
    (a.matchesHint b = true ↔ (a.merged b).pairs.take a.size = a.pairs) ∧
    ∀ (δ : Type) (drivers : List (Driver δ)) d addr, (∀ d ∈ drivers, d.HeedsHints) →
      Discovery.choose drivers b = .ok (d, addr) →
      ∃ first rest, Discovery.search b drivers = .ok (first :: rest) ∧
        addr.pairs.take first.size = first.pairs ∧
        ∀ key value, first.get? key = some value → addr.get? key = some value := by
  refine ⟨nodup_keys_merged ha hb, get?_merged a hb, merged_assoc ha hb hc, rfl, empty_merged ha,
    merged_self ha, (matchesHint_iff hb).trans (take_merged_iff ha hb).symm, ?_⟩
  intro δ drivers d addr hdrivers hchoose
  obtain ⟨first, rest, hsearch, rfl⟩ := Discovery.eq_merged_of_choose hchoose
  obtain ⟨hfirst, hmatch⟩ := Discovery.heeds_of_search hdrivers hsearch List.mem_cons_self
  have hagrees : first.Agrees b := (matchesHint_iff hb).1 hmatch
  exact ⟨first, rest, hsearch, (take_merged_iff hfirst hb).2 hagrees,
    fun key value hmine => hagrees.get?_merged hb hmine⟩

/-- A simulated radio is asked for by its serial, with a size for its packets: it is opened under
what was reported of it, and the arguments that the hint has beside that come behind. -/
theorem merged_laws_packetSize :
    let found : Address := ⟨[("type", "sim"), ("serial", "SIM0001")]⟩
    let args := parse "serial=SIM0001,frame_size=64"
    let drivers : List (Driver (Radio ℚ)) := [Simulation.driver Settings.standard.sim]
    found.keys.Nodup ∧ args.keys.Nodup ∧ (parse "frame_size=32").keys.Nodup ∧
    (found.merged args).pairs.take 2 = found.pairs ∧
    (found.merged args).merged (parse "frame_size=32") =
      found.merged (args.merged (parse "frame_size=32")) ∧
    ∃ first rest d addr, Discovery.search args drivers = .ok (first :: rest) ∧
      Discovery.choose drivers args = .ok (d, addr) ∧
      addr.pairs.take first.size = first.pairs := by
  intro found args drivers
  have hfound : found.keys.Nodup := by decide
  have hargs : args.keys.Nodup := nodup_keys_parse _
  have hmore : (parse "frame_size=32").keys.Nodup := nodup_keys_parse _
  have hmatch : found.matchesHint args = true := by decide +kernel
  obtain ⟨-, -, hassoc, -, -, -, hiff, hopened⟩ := merged_laws hfound hargs hmore
  obtain ⟨⟨d, addr⟩, hchoose⟩ : ∃ chosen, Discovery.choose drivers args = .ok chosen :=
    isOk_iff.1 (by decide +kernel)
  have hheeds : ∀ d ∈ drivers, d.HeedsHints := by
    intro d hd
    rw [List.mem_singleton.1 hd]
    exact Simulation.heedsHints_driver _
  obtain ⟨first, rest, hsearch, hfront, -⟩ := hopened _ drivers d addr hheeds hchoose
  exact ⟨hfound, hargs, hmore, hiff.1 hmatch, hassoc, first, rest, d, addr, hsearch, hchoose,
    hfront⟩

end Address

end SoftRadio

import SoftRadio.Proofs.Exact
import SoftRadio.Proofs.Outcome
import SoftRadio.Station

/-!
# Who opens what was found

A search puts down addresses and forgets who reported them.  The radio at the first of them is
opened by the first driver that has the name in the address.  If drivers keep to their contract,
this is a driver of the name of the one that reported it, and the one itself unless another of
that name is before it.  Drivers that were added while the program runs have distinct names, but
their names may be those of built-in drivers, which come first.

* `search_eq_ok_iff`: what a search finds, driver by driver.
* `reporter?`: which driver reported the first address.
* `called`: which driver is called upon to open a radio, and at which address.
* `called_reporter_iff`: when the two are the same.
-/

namespace SoftRadio

variable {δ : Type}

/-- The contract of a driver: the addresses that it reports have its name. -/
def Driver.Honest (d : Driver δ) : Prop :=
  ∀ hint found, d.find hint = .ok found → ∀ a ∈ found, a.get? "type" = some d.name

namespace Discovery

/-! ## What a search finds -/

/-- The drivers that are asked, in order. -/
def asked (hint : Address) (drivers : List (Driver δ)) : List (Driver δ) :=
  drivers.filter (admits hint ·.name)

theorem asked_cons_of_admits {hint : Address} {d : Driver δ} (h : admits hint d.name = true)
    (rest : List (Driver δ)) : asked hint (d :: rest) = d :: asked hint rest :=
  List.filter_cons_of_pos h

theorem asked_cons_of_not_admits {hint : Address} {d : Driver δ} (h : ¬ admits hint d.name = true)
    (rest : List (Driver δ)) : asked hint (d :: rest) = asked hint rest :=
  List.filter_cons_of_neg h

/-- What a driver contributes: a refusal is as good as nothing. -/
def reported (hint : Address) (d : Driver δ) : List Address :=
  match d.find hint with
  | .ok found => found
  | .error _ => []

/-- A search succeeds unless one of those asked crashes.  It finds what they have to report, and
the others have no part in it. -/
theorem search_eq_ok_iff {hint : Address} {drivers : List (Driver δ)} {found : List Address} :
    search hint drivers = .ok found ↔
      (∀ d ∈ asked hint drivers, ∀ text, d.find hint ≠ .error (.crash text)) ∧
        found = (asked hint drivers).flatMap (reported hint) := by
  induction drivers generalizing found with
  | nil => simp [search, asked, eq_comm]
  | cons d rest ih =>
    by_cases hd : admits hint d.name
    · rw [asked_cons_of_admits hd, List.forall_mem_cons, List.flatMap_cons]
      unfold search
      rw [if_pos hd]
      cases hfind : d.find hint with
      | ok mine =>
        have hmine : reported hint d = mine := by rw [reported, hfind]
        dsimp only
        rw [bind_eq_ok_iff, hmine]
        simp only [pure_eq_ok_iff, ih, reduceCtorEq, ne_eq, not_false_eq_true, implies_true,
          true_and]
        constructor
        · rintro ⟨more, ⟨hquiet, rfl⟩, rfl⟩
          exact ⟨hquiet, rfl⟩
        · rintro ⟨hquiet, rfl⟩
          exact ⟨_, ⟨hquiet, rfl⟩, rfl⟩
      | error f =>
        have hnothing : reported hint d = [] := by rw [reported, hfind]
        rw [hnothing, List.nil_append]
        cases f with
        | error e => simp [ih]
        | crash text => simp [crash]
    · rw [asked_cons_of_not_admits hd, search, if_neg hd]
      exact ih

/-- The place of the driver that reports the first address. -/
def reporter? (hint : Address) (drivers : List (Driver δ)) : Option Nat :=
  drivers.findIdx? fun d => admits hint d.name && !(reported hint d).isEmpty

theorem exists_reporter {hint first : Address} {drivers : List (Driver δ)} {rest : List Address}
    (h : (asked hint drivers).flatMap (reported hint) = first :: rest) :
    ∃ i d, reporter? hint drivers = some i ∧ drivers[i]? = some d ∧ admits hint d.name = true ∧
      (reported hint d).head? = some first := by
  unfold reporter?
  induction drivers with
  | nil => cases h
  | cons d ds ih =>
    rw [List.findIdx?_cons]
    by_cases hd : (admits hint d.name && !(reported hint d).isEmpty) = true
    · rw [if_pos hd]
      obtain ⟨hadmits, hmine⟩ := Bool.and_eq_true_iff.1 hd
      refine ⟨0, d, rfl, rfl, hadmits, ?_⟩
      rw [asked_cons_of_admits hadmits, List.flatMap_cons] at h
      cases hrep : reported hint d with
      | nil => simp [hrep] at hmine
      | cons a as =>
        rw [hrep, List.cons_append] at h
        rw [List.head?_cons, (List.cons.inj h).1]
    · rw [if_neg hd]
      have hskip : (asked hint (d :: ds)).flatMap (reported hint) =
          (asked hint ds).flatMap (reported hint) := by
        by_cases hadmits : admits hint d.name = true
        · have hnothing : reported hint d = [] := by simpa [hadmits] using hd
          rw [asked_cons_of_admits hadmits, List.flatMap_cons, hnothing, List.nil_append]
        · rw [asked_cons_of_not_admits hadmits]
      obtain ⟨i, d', hi, hd', hrest⟩ := ih (hskip ▸ h)
      exact ⟨i + 1, d', by rw [hi]; rfl, hd', hrest⟩

/-! ## Who is called upon -/

/-- A driver that does not open anything but tells its place and what it was given. -/
def marked (d : Driver δ) (place : Nat) : Driver (Nat × Address) :=
  ⟨d.name, d.find, fun addr => .ok (place, addr)⟩

/-- The drivers, each telling its place. -/
def numbered (drivers : List (Driver δ)) : List (Driver (Nat × Address)) :=
  drivers.mapIdx fun place d => marked d place

/-- Which driver is called upon to open a radio, and at which address. -/
def called (drivers : List (Driver δ)) (args : Address) : Except Fault (Nat × Address) :=
  open? (numbered drivers) args

/-- A search does not depend on what drivers open. -/
theorem search_mapIdx_marked (hint : Address) (drivers : List (Driver δ)) (place : Nat → Nat) :
    search hint (drivers.mapIdx fun i d => marked d (place i)) = search hint drivers := by
  induction drivers generalizing place with
  | nil => rfl
  | cons d rest ih =>
    rw [List.mapIdx_cons]
    unfold search
    rw [ih fun i => place (i + 1)]
    rfl

/-- What is found settles the choice. -/
theorem choose_of_found {drivers : List (Driver δ)} {args first : Address} {rest : List Address}
    (h : search args drivers = .ok (first :: rest)) :
    choose drivers args =
      match drivers.find? (·.name = (first.merged args).getD "type" "") with
      | some d => .ok (d, first.merged args)
      | none => refuse (.noDriver ((first.merged args).getD "type" "")) := by
  unfold choose
  rw [h]
  rfl

section

variable {drivers : List (Driver δ)} {args first : Address} {rest : List Address} {j : Nat}

/-- The driver of a name is the first that has it. -/
theorem find?_of_findIdx? {name : String} (hj : drivers.findIdx? (·.name = name) = some j) :
    ∃ hlt : j < drivers.length, drivers.find? (·.name = name) = some drivers[j] ∧
      (numbered drivers).find? (·.name = name) = some (marked drivers[j] j) := by
  obtain ⟨hlt, hname, hbefore⟩ := List.findIdx?_eq_some_iff_getElem.1 hj
  refine ⟨hlt, List.find?_eq_some_iff_getElem.2 ⟨hname, j, hlt, rfl, ?_⟩,
    List.find?_eq_some_iff_getElem.2 ⟨hname, j, by simpa [numbered] using hlt, ?_, ?_⟩⟩
  · intro k hk
    simpa using hbefore k hk
  · simp [numbered]
  · intro k hk
    simpa [numbered, marked] using hbefore k hk

/-- The driver called upon is the first of the name in the address. -/
theorem called_of_found (h : search args drivers = .ok (first :: rest))
    (hj : drivers.findIdx? (·.name = (first.merged args).getD "type" "") = some j) :
    called drivers args = .ok (j, first.merged args) ∧
      ∃ d, drivers[j]? = some d ∧ open? drivers args = d.make (first.merged args) := by
  obtain ⟨hlt, hfind, hnumbered⟩ := find?_of_findIdx? hj
  have hsearch : search args (numbered drivers) = .ok (first :: rest) :=
    (search_mapIdx_marked args drivers id).trans h
  constructor
  · unfold called open?
    rw [choose_of_found hsearch, hnumbered]
    rfl
  · refine ⟨drivers[j], List.getElem?_eq_getElem hlt, ?_⟩
    unfold open?
    rw [choose_of_found h, hfind]
    rfl

end

/-! ## The drivers that are known -/

/-- Built-in drivers, and after them those that were added while the program runs. -/
def known (builtIn added : List (Driver δ)) : List (Driver δ) :=
  builtIn ++ added.foldl register []

theorem nodup_names_register {drivers : List (Driver δ)} (h : (drivers.map Driver.name).Nodup)
    (d : Driver δ) : ((register drivers d).map Driver.name).Nodup := by
  unfold register
  rw [List.map_append, List.nodup_append]
  refine ⟨h.sublist (List.filter_sublist.map _), by simp, ?_⟩
  rintro name hname other hother rfl
  obtain ⟨e, he, rfl⟩ := List.mem_map.1 hname
  have hne : e.name ≠ d.name := by simpa using (List.mem_filter.1 he).2
  exact hne (List.mem_singleton.1 hother)

/-- Drivers that were added have distinct names. -/
theorem nodup_names_foldl_register {drivers : List (Driver δ)}
    (h : (drivers.map Driver.name).Nodup) (added : List (Driver δ)) :
    ((added.foldl register drivers).map Driver.name).Nodup := by
  induction added generalizing drivers with
  | nil => exact h
  | cons d rest ih => exact ih (nodup_names_register h d)

/-- Of the drivers that were added, no two have one name. -/
theorem eq_of_name_eq_of_added {builtIn added : List (Driver δ)} {i j : Nat} {d e : Driver δ}
    (hi : builtIn.length ≤ i) (hj : builtIn.length ≤ j) (hd : (known builtIn added)[i]? = some d)
    (he : (known builtIn added)[j]? = some e) (h : e.name = d.name) : i = j := by
  have hnone : (([] : List (Driver δ)).map Driver.name).Nodup := List.nodup_nil
  have hnodup := nodup_names_foldl_register hnone added
  have hadded : ∀ k, builtIn.length ≤ k →
      (added.foldl register [])[k - builtIn.length]? = (known builtIn added)[k]? :=
    fun k hk => (List.getElem?_append_right hk).symm
  have hcount : i - builtIn.length < ((added.foldl register []).map Driver.name).length := by
    rw [List.length_map]
    exact (List.getElem?_eq_some_iff.1 ((hadded i hi).trans hd)).1
  have hsame : ((added.foldl register []).map Driver.name)[i - builtIn.length]? =
      ((added.foldl register []).map Driver.name)[j - builtIn.length]? := by
    rw [List.getElem?_map, List.getElem?_map, hadded i hi, hadded j hj, hd, he, Option.map_some,
      Option.map_some, h]
  have hindex := (List.getElem?_inj hcount hnodup).1 hsame
  omega

/-- The first driver of a name is the one at a given place just if no built-in driver before it
has the name. -/
theorem findIdx?_name_known {builtIn added : List (Driver δ)} {i : Nat} {d : Driver δ}
    (hd : (known builtIn added)[i]? = some d) :
    ∃ j, (known builtIn added).findIdx? (·.name = d.name) = some j ∧
      (j = i ↔ ∀ k b, k < i → builtIn[k]? = some b → b.name ≠ d.name) := by
  cases hj : (known builtIn added).findIdx? (·.name = d.name) with
  | none =>
    have hno := List.findIdx?_eq_none_iff.1 hj _ (List.mem_of_getElem? hd)
    simp at hno
  | some j =>
    refine ⟨j, rfl, ?_⟩
    obtain ⟨hlt, hname, hbefore⟩ := List.findIdx?_eq_some_iff_getElem.1 hj
    have hfirst : (known builtIn added)[j]? = some (known builtIn added)[j] :=
      List.getElem?_eq_getElem hlt
    replace hname : (known builtIn added)[j].name = d.name := of_decide_eq_true hname
    constructor
    · rintro rfl k b hk hb heq
      obtain ⟨hkb, hb⟩ := List.getElem?_eq_some_iff.1 hb
      have hkth : (known builtIn added)[k] = b := (List.getElem_append_left hkb).trans hb
      exact hbefore k hk (decide_eq_true (hkth ▸ heq))
    · intro hclear
      obtain ⟨hi, hget⟩ := List.getElem?_eq_some_iff.1 hd
      have hle : j ≤ i := by
        by_contra hgt
        exact hbefore i (Nat.lt_of_not_le hgt) (decide_eq_true (congrArg Driver.name hget))
      by_contra hne
      by_cases hjb : j < builtIn.length
      · have hb : builtIn[j]? = some (known builtIn added)[j] :=
          (List.getElem?_append_left hjb).symm.trans hfirst
        exact hclear j _ (by omega) hb hname
      · exact hne (eq_of_name_eq_of_added (by omega) (by omega) hd hfirst hname).symm

/-- The arguments do not take the name of its driver from an address. -/
theorem type_of_merged {d : Driver δ} (hd : d.Honest) {args a : Address}
    (hargs : args.keys.Nodup) (hadmits : admits args d.name = true) (ha : a ∈ reported args d) :
    (a.merged args).get? "type" = some d.name := by
  have htype : a.get? "type" = some d.name := by
    unfold reported at ha
    split at ha
    next found hfind => exact hd args found hfind a ha
    · cases ha
  rw [Address.get?_merged a hargs, htype]
  unfold admits at hadmits
  split at hadmits
  next hnone => rw [hnone, Option.none_or]
  next t hsome => rw [hsome, Option.some_or, eq_of_beq hadmits]

/-- What a search over the known drivers finds, and who opens the first of it.  Those that the
hint rules out have no part in it, and one that refuses adds nothing.  If the search finds
anything, the driver called upon is given the first address with the arguments put over it, and
nobody else is called; it has the name of the driver that reported the address, and is that
driver itself if and only if no built-in driver before that one has its name. -/
theorem called_reporter_iff {builtIn added : List (Driver δ)}
    (honest : ∀ d ∈ known builtIn added, d.Honest) {args : Address} (hargs : args.keys.Nodup) :
    let drivers := known builtIn added
    (∀ found, search args drivers = .ok found ↔
      (∀ d ∈ asked args drivers, ∀ text, d.find args ≠ .error (.crash text)) ∧
        found = (asked args drivers).flatMap (reported args)) ∧
    ∀ first rest, search args drivers = .ok (first :: rest) →
      ∃ i reporter j opener,
        reporter? args drivers = some i ∧ drivers[i]? = some reporter ∧
        drivers[j]? = some opener ∧ opener.name = reporter.name ∧
        called drivers args = .ok (j, first.merged args) ∧
        open? drivers args = opener.make (first.merged args) ∧
        (j = i ↔ ∀ k b, k < i → builtIn[k]? = some b → b.name ≠ reporter.name) := by
  intro drivers
  refine ⟨fun found => search_eq_ok_iff, fun first rest hfound => ?_⟩
  obtain ⟨-, hconcat⟩ := search_eq_ok_iff.1 hfound
  obtain ⟨i, reporter, hi, hreporter, hadmits, hhead⟩ := exists_reporter hconcat.symm
  have htype : (first.merged args).getD "type" "" = reporter.name := by
    unfold Address.getD
    rw [type_of_merged (honest _ (List.mem_of_getElem? hreporter)) hargs hadmits
      (List.mem_of_head? hhead), Option.getD_some]
  obtain ⟨j, hj, hiff⟩ := findIdx?_name_known hreporter
  obtain ⟨hcalled, opener, hopener, hopen⟩ := called_of_found hfound (htype ▸ hj)
  have hname : opener.name = reporter.name := by
    obtain ⟨hlt, hnamed, -⟩ := List.findIdx?_eq_some_iff_getElem.1 hj
    cases (List.getElem?_eq_getElem hlt).symm.trans hopener
    exact of_decide_eq_true hnamed
  exact ⟨i, reporter, j, opener, hi, hreporter, hopener, hname, hcalled, hopen, hiff⟩

end Discovery

/-! ## The drivers of a station -/

section

variable {α : Type} [Scalar α]

theorem Simulation.honest_driver (settings : SimSettings α) : (driver settings).Honest := by
  intro hint found hfind a ha
  cases hfind
  unfold find at ha
  split at ha
  · obtain ⟨i, -, rfl⟩ := List.mem_map.1 (List.mem_filter.1 ha).1
    rfl
  · cases ha

theorem Script.honest_driver {s : Script α} {addresses : List Address} {filtered : Bool}
    (hs : s.find = .addresses addresses filtered)
    (h : ∀ a ∈ addresses, a.get? "type" = some s.name) : s.driver.Honest := by
  intro hint found hfind a ha
  rw [show s.driver.find hint = findWith s.find hint from rfl, hs] at hfind
  cases hfind
  split at ha
  · exact h a (List.mem_filter.1 ha).1
  · exact h a ha

end

namespace Discovery

/-- The simulation and one driver of the given name, which reports one radio. -/
def simulationAnd (name serial : String) : List (Driver (Radio ℚ)) :=
  let script : Script ℚ :=
    ⟨name, .addresses [⟨[("type", name), ("serial", serial)]⟩] true, .simulated⟩
  known [Simulation.driver Settings.standard.sim] [script.driver]

theorem honest_simulationAnd (name serial : String) :
    ∀ d ∈ simulationAnd name serial, d.Honest := by
  intro d hd
  rcases List.mem_append.1 hd with hd | hd
  · rw [List.mem_singleton.1 hd]
    exact Simulation.honest_driver _
  · rw [List.mem_singleton.1 hd]
    refine Script.honest_driver rfl fun a ha => ?_
    rw [List.mem_singleton.1 ha]
    rfl

/-- A driver of a name of its own opens the radio that it reported. -/
theorem called_mock :
    called (simulationAnd "mock" "M1") (Address.parse "type=mock") =
      .ok (1, ⟨[("type", "mock"), ("serial", "M1")]⟩) := by
  have hfound : search (Address.parse "type=mock") (simulationAnd "mock" "M1") =
      .ok [⟨[("type", "mock"), ("serial", "M1")]⟩] := by
    decide +kernel
  obtain ⟨i, reporter, j, opener, hi, hreporter, -, -, hcalled, -, hiff⟩ :=
    (called_reporter_iff (honest_simulationAnd "mock" "M1") (Address.nodup_keys_parse _)).2 _ _
      hfound
  have hone : reporter? (Address.parse "type=mock") (simulationAnd "mock" "M1") = some 1 := by
    decide +kernel
  cases hone.symm.trans hi
  have hself : j = 1 := hiff.2 fun k b hk hb => by
    cases Nat.lt_one_iff.1 hk
    cases hb
    cases hreporter
    decide
  have hmerged : Address.merged ⟨[("type", "mock"), ("serial", "M1")]⟩ (Address.parse "type=mock") =
      ⟨[("type", "mock"), ("serial", "M1")]⟩ := by
    decide +kernel
  rw [hself, hmerged] at hcalled
  exact hcalled

/-- A driver that was added under the name of the simulation keeps to its contract and reports the
only radio of that serial; but the simulation is called upon to open it. -/
theorem called_namesake :
    (∀ d ∈ simulationAnd "sim" "X1", d.Honest) ∧
      search (Address.parse "serial=X1") (simulationAnd "sim" "X1") =
        .ok [⟨[("type", "sim"), ("serial", "X1")]⟩] ∧
      reporter? (Address.parse "serial=X1") (simulationAnd "sim" "X1") = some 1 ∧
      called (simulationAnd "sim" "X1") (Address.parse "serial=X1") =
        .ok (0, ⟨[("type", "sim"), ("serial", "X1")]⟩) :=
  ⟨honest_simulationAnd "sim" "X1", by decide +kernel, by decide +kernel, by decide +kernel⟩

end Discovery

end SoftRadio

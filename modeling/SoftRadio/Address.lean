import SoftRadio.Text.Blank
import SoftRadio.Fault
import SoftRadio.Decimal.Reading

/-!
Device addresses: ordered pairs of a key and a value, such as
`type=sim,serial=SIM0001`.  The same markup carries discovery hints, extra
arguments and the contents of a motherboard's memory.  Setting a key that
is there changes its value in place; a new key goes to the end.
-/

namespace SoftRadio

structure Address where
  pairs : List (String × String)
  deriving DecidableEq, Repr, Inhabited

namespace Address

def empty : Address := ⟨[]⟩

/-- Change the value of the first pair with the key, or add a pair. -/
def setPair (key value : String) : List (String × String) → List (String × String)
  | [] => [(key, value)]
  | (k, v) :: rest => if k = key then (k, value) :: rest else (k, v) :: setPair key value rest

def set (a : Address) (key value : String) : Address := ⟨setPair key value a.pairs⟩

/-- The value at a key. -/
def get? (a : Address) (key : String) : Option String :=
  (a.pairs.find? fun (k, _) => k = key).map Prod.snd

def getD (a : Address) (key fallback : String) : String := (a.get? key).getD fallback

def contains (a : Address) (key : String) : Bool := (a.get? key).isSome

theorem find?_setPair (key value other : String) (pairs : List (String × String)) :
    ((setPair key value pairs).find? fun p => p.1 = other).map Prod.snd =
      if other = key then some value
      else (pairs.find? fun p => p.1 = other).map Prod.snd := by
  induction pairs with
  | nil => by_cases h : other = key <;> simp [setPair, h, eq_comm]
  | cons p rest ih =>
    obtain ⟨k, v⟩ := p
    by_cases hk : k = key
    · subst hk
      by_cases h : other = k <;> simp [setPair, h, eq_comm]
    · by_cases h : k = other
      · subst h
        simp [setPair, hk]
      · simp [setPair, hk, h, ih]

/-- A value is found at the key it was set at, and the other keys keep theirs. -/
theorem get?_set (a : Address) (key value other : String) :
    (a.set key value).get? other = if other = key then some value else a.get? other :=
  find?_setPair key value other a.pairs

@[simp] theorem get?_empty (key : String) : empty.get? key = none := rfl

/-- Take the first pair with the key away; also its value. -/
def erase (a : Address) (key : String) : Option String × Address :=
  (a.get? key, ⟨a.pairs.eraseP fun (k, _) => k = key⟩)

def keys (a : Address) : List String := a.pairs.map Prod.fst

def size (a : Address) : Nat := a.pairs.length

def isEmpty (a : Address) : Bool := a.pairs.isEmpty

/-- Read one segment into the address.  A segment is trimmed and, if
nothing is left, skipped; without an equals sign it is a key whose value is
empty. -/
def addSegment (a : Address) (segment : List Char) : Address :=
  match Text.trim segment with
  | [] => a
  | cs => match Text.splitOnce '=' cs with
    | some (k, v) => a.set (String.ofList (Text.trim k)) (String.ofList (Text.trim v))
    | none => a.set (String.ofList cs) ""

/-- Read `k=v,k2=v2`. -/
def parse (markup : String) : Address :=
  (Text.splitOn ',' markup.toList).foldl addSegment empty

/-- The markup of an address. -/
def render (a : Address) : String :=
  ",".intercalate (a.pairs.map fun (k, v) => k ++ "=" ++ v)

/-- One line for each pair, as messages show it. -/
def listing (a : Address) : String :=
  if a.isEmpty then "Empty Device Address"
  else "Device Address:\n" ++ String.join (a.pairs.map fun (k, v) => s!"    {k}: {v}\n")

/-- Whether a device at this address answers to a hint: every key of the
hint that the address has too has the same value in both. -/
def matchesHint (a hint : Address) : Bool :=
  hint.pairs.all fun (k, v) => match a.get? k with
    | none => true
    | some mine => mine == v

/-- Set every pair of the second address on the first, in order. -/
def merged (a b : Address) : Address := b.pairs.foldl (fun acc (k, v) => acc.set k v) a

/-- The second address decides where it has the key. -/
theorem get?_merged (a : Address) {b : Address} (hb : b.keys.Nodup) (key : String) :
    (a.merged b).get? key = (b.get? key).or (a.get? key) := by
  obtain ⟨pairs⟩ := b
  induction pairs generalizing a with
  | nil => rfl
  | cons p rest ih =>
    obtain ⟨k, v⟩ := p
    obtain ⟨hk, hrest⟩ := List.nodup_cons.1 hb
    have hstep : (a.merged ⟨(k, v) :: rest⟩).get? key =
        ((Address.mk rest).get? key).or ((a.set k v).get? key) := ih (a.set k v) hrest
    rw [hstep, get?_set]
    by_cases h : key = k
    · subst h
      have hnone : (Address.mk rest).get? key = none := by
        unfold get?
        rw [List.find?_eq_none.2 fun p hp => ?_, Option.map_none]
        exact fun heq => hk (List.mem_map.2 ⟨p, hp, of_decide_eq_true heq⟩)
      rw [if_pos rfl, hnone, Option.none_or]
      simp [get?]
    · have hcons : (Address.mk ((k, v) :: rest)).get? key = (Address.mk rest).get? key := by
        simp [get?, Ne.symm h]
      rw [if_neg h, hcons]

theorem keys_set (a : Address) (key value : String) :
    (a.set key value).keys = if key ∈ a.keys then a.keys else a.keys ++ [key] := by
  obtain ⟨pairs⟩ := a
  unfold keys set
  dsimp only
  induction pairs with
  | nil => rfl
  | cons p rest ih =>
    obtain ⟨k, v⟩ := p
    by_cases h : k = key
    · simp [setPair, h]
    · by_cases hmem : key ∈ rest.map Prod.fst
      · simp [setPair, h, ih, hmem]
      · simp [setPair, h, ih, hmem, Ne.symm h]

/-- An address never gets a key twice. -/
theorem nodup_keys_set {a : Address} (h : a.keys.Nodup) (key value : String) :
    (a.set key value).keys.Nodup := by
  rw [keys_set]
  split
  · exact h
  next hkey =>
    refine List.nodup_append.2 ⟨h, by simp, ?_⟩
    rintro k hk other hother rfl
    exact hkey (List.mem_singleton.1 hother ▸ hk)

theorem nodup_keys_addSegment {a : Address} (h : a.keys.Nodup) (segment : List Char) :
    (a.addSegment segment).keys.Nodup := by
  unfold addSegment
  split
  · exact h
  · split
    · exact nodup_keys_set h _ _
    · exact nodup_keys_set h _ _

/-- No key is twice in an address that was read. -/
theorem nodup_keys_parse (markup : String) : (parse markup).keys.Nodup := by
  unfold parse
  generalize Text.splitOn ',' markup.toList = segments
  have hempty : empty.keys.Nodup := List.nodup_nil
  generalize empty = a at hempty
  induction segments generalizing a with
  | nil => exact hempty
  | cons segment rest ih => exact ih _ (nodup_keys_addSegment hempty segment)

/-- The value at a key, read as a number by `read?`. -/
def number? {β : Type} (read? : String → Option β) (a : Address) (key : String) :
    Except Fault (Option β) :=
  match a.get? key with
  | none => .ok none
  | some raw => match read? raw with
    | some n => .ok (some n)
    | none => refuse (.badArgument key raw)

def nat? (a : Address) (key : String) : Except Fault (Option Nat) :=
  a.number? Decimal.readNat? key

end Address

end SoftRadio

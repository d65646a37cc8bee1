/-!
# Bindings in order

Keys with one value each, in the order in which the keys were first bound. Binding a key again
replaces its value and leaves the key, and its place, as they were: of equal keys the first is
kept.

* `get?_insert`: what is found after a binding.
* `keys_insert`: the keys after a binding; `Distinct.insert`: no two of them are equal.
-/

namespace TypingStore

/-- Keys and values, in the order in which the keys were first bound. -/
structure Bindings (κ ν : Type) where
  entries : List (κ × ν) := []

namespace Bindings

variable {κ ν : Type}

instance : Inhabited (Bindings κ ν) := ⟨{}⟩

/-- The bound keys, the first bound first. -/
def keys (b : Bindings κ ν) : List κ := b.entries.map Prod.fst

/-- The number of bound keys. -/
def size (b : Bindings κ ν) : Nat := b.entries.length

variable [BEq κ]

/-- The value bound to a key. -/
def get? (b : Bindings κ ν) (key : κ) : Option ν :=
  (b.entries.find? fun entry => entry.1 == key).map Prod.snd

/-- Whether a key is bound. -/
def contains (b : Bindings κ ν) (key : κ) : Bool := b.entries.any fun entry => entry.1 == key

/-- The entries with a new value for `key`: in its old place, or at the end. -/
def put (key : κ) (value : ν) : List (κ × ν) → List (κ × ν)
  | [] => [(key, value)]
  | entry :: rest =>
    if entry.1 == key then (entry.1, value) :: rest else entry :: put key value rest

/-- Binds a key. -/
def insert (b : Bindings κ ν) (key : κ) (value : ν) : Bindings κ ν := ⟨put key value b.entries⟩

/-- No two keys are equal. -/
def Distinct (b : Bindings κ ν) : Prop := b.keys.Pairwise fun x y => (x == y) = false

theorem contains_iff {b : Bindings κ ν} {key : κ} :
    b.contains key = true ↔ ∃ k ∈ b.keys, (k == key) = true := by
  simp [contains, keys]

theorem get?_isSome (b : Bindings κ ν) (key : κ) : (b.get? key).isSome = b.contains key := by
  obtain ⟨entries⟩ := b
  induction entries with
  | nil => rfl
  | cons entry rest ih =>
    simp only [get?, contains, List.find?_cons, List.any_cons, Option.isSome_map] at ih ⊢
    cases entry.1 == key with
    | true => rfl
    | false => simpa using ih

theorem get?_eq_none {b : Bindings κ ν} {key : κ} (h : b.contains key = false) :
    b.get? key = none := by
  have hsome := b.get?_isSome key
  rw [h] at hsome
  simpa using hsome

/-- **What a binding changes**: the keys equal to the one bound, and no other. -/
theorem get?_insert [EquivBEq κ] (b : Bindings κ ν) (key other : κ) (value : ν) :
    (b.insert key value).get? other = if key == other then some value else b.get? other := by
  obtain ⟨entries⟩ := b
  simp only [insert, get?]
  induction entries with
  | nil =>
    cases h : key == other <;> simp [put, h]
  | cons entry rest ih =>
    rw [put]
    by_cases same : (entry.1 == key) = true
    · -- an entry of an equal key answers for `other` exactly when `key` does
      have agree : (entry.1 == other) = (key == other) := BEq.congr_left same
      cases h : key == other <;> simp [same, agree, h]
    · by_cases here : (entry.1 == other) = true
      · have apart : (key == other) = false := by
          cases h : key == other with
          | false => rfl
          | true => exact absurd (PartialEquivBEq.trans here (BEq.symm h)) same
        simp [same, here, apart]
      · simpa [same, here] using ih

theorem map_fst_put (key : κ) (value : ν) (entries : List (κ × ν)) :
    (put key value entries).map Prod.fst =
      if entries.any (fun entry => entry.1 == key) then entries.map Prod.fst
      else entries.map Prod.fst ++ [key] := by
  induction entries with
  | nil => rfl
  | cons entry rest ih =>
    rw [put]
    by_cases same : (entry.1 == key) = true
    · simp [same]
    · have fresh : (entry.1 == key) = false := by simpa using same
      by_cases later : (rest.any fun entry => entry.1 == key) = true
      · simp only [later, if_true] at ih
        simp [fresh, ih, later]
      · simp only [later, if_false, Bool.false_eq_true] at ih
        simp [fresh, ih, later]

/-- **The keys after a binding**: a new key comes last, an old one stays as it was. -/
theorem keys_insert (b : Bindings κ ν) (key : κ) (value : ν) :
    (b.insert key value).keys = if b.contains key then b.keys else b.keys ++ [key] :=
  map_fst_put key value b.entries

theorem Distinct.empty : (⟨[]⟩ : Bindings κ ν).Distinct := List.Pairwise.nil

/-- **Bindings keep their keys apart.** -/
theorem Distinct.insert {b : Bindings κ ν} (h : b.Distinct) (key : κ) (value : ν) :
    (b.insert key value).Distinct := by
  rw [Distinct, keys_insert]
  split
  · exact h
  · next absent =>
    refine List.pairwise_append.2 ⟨h, List.pairwise_singleton _ _, ?_⟩
    intro k mem k' mem'
    rw [List.mem_singleton.1 mem']
    cases equal : k == key with
    | false => rfl
    | true => exact absurd (contains_iff.2 ⟨k, mem, equal⟩) absent

end Bindings

end TypingStore

import TypingStore.Proofs.LatestBinding

/-!
# The keys of a context, in the order of their first records

A context holds each key once, in the place where it was first recorded, and of keys that are equal
it keeps the one that came first. So **its keys are those of its records without the repetitions**
(`World.Told.keys`), whatever way the records came: by an operation or with the commit of a child.

* `World.keysIn`: the keys recorded in a context, told by the events.
* `Bindings.keys_insertAll_eq_iff`: when bindings leave the keys alone.
-/

namespace TypingStore

namespace Bindings

variable {κ ν : Type} [BEq κ]

/-- Keys that are bound one after the other are kept in order, and a key like one before it is left
out. -/
theorem keys_insertAll [EquivBEq κ] (entries : List (κ × ν)) :
    (({} : Bindings κ ν).insertAll entries).keys = (entries.map Prod.fst).eraseDups := by
  -- what was bound so far is the list of the keys that were kept so far, turned around
  have hkept : ∀ (entries : List (κ × ν)) (b : Bindings κ ν), (b.insertAll entries).keys =
      List.eraseDupsBy.loop (· == ·) (entries.map Prod.fst) b.keys.reverse := by
    intro entries
    induction entries with
    | nil =>
      intro b
      rw [List.map_nil, List.eraseDupsBy.loop, List.reverse_reverse]
      rfl
    | cons entry entries ih =>
      intro b
      have hcontains : b.keys.reverse.any (fun k => entry.1 == k) = b.contains entry.1 := by
        simp only [keys, contains, List.any_reverse, List.any_map, Function.comp_def]
        exact congrArg (b.entries.any ·) (funext fun e => BEq.comm)
      have hstep : (b.insertAll (entry :: entries)).keys =
          ((b.insert entry.1 entry.2).insertAll entries).keys := rfl
      rw [hstep, ih, keys_insert, List.map_cons, List.eraseDupsBy.loop, hcontains]
      cases b.contains entry.1 with
      | true => rfl
      | false => simp
  exact hkept entries {}

theorem Distinct.insertAll [EquivBEq κ] {b : Bindings κ ν} (h : b.Distinct)
    (entries : List (κ × ν)) : (b.insertAll entries).Distinct := by
  induction entries generalizing b with
  | nil => exact h
  | cons entry entries ih => exact ih (h.insert entry.1 entry.2)

/-- **Bindings leave the keys alone** when they are all bound already. -/
theorem keys_insertAll_eq_iff {b : Bindings κ ν} {entries : List (κ × ν)} :
    (b.insertAll entries).keys = b.keys ↔ ∀ entry ∈ entries, b.contains entry.1 = true := by
  induction entries generalizing b with
  | nil => simp [insertAll]
  | cons entry entries ih =>
    have hstep : (b.insertAll (entry :: entries)).keys =
        ((b.insert entry.1 entry.2).insertAll entries).keys := rfl
    rw [hstep, List.forall_mem_cons]
    have hone := keys_insert b entry.1 entry.2
    cases hbound : b.contains entry.1 with
    | true =>
      rw [hbound, if_pos rfl] at hone
      have hsame : ∀ key, (b.insert entry.1 entry.2).contains key = b.contains key := by
        intro key
        rw [Bool.eq_iff_iff, contains_iff, contains_iff, hone]
      rw [← hone, ih]
      simp only [hsame, true_and]
    | false =>
      rw [hbound, if_neg Bool.false_ne_true] at hone
      -- the new key is there to stay
      have hlonger : b.keys.length <
          ((b.insert entry.1 entry.2).insertAll entries).keys.length := by
        have hle := (keys_prefix_insertAll (b.insert entry.1 entry.2) entries).length_le
        rw [hone, List.length_append, List.length_singleton] at hle
        omega
      constructor
      · intro heq
        rw [heq] at hlonger
        omega
      · intro hall
        exact absurd hall.1 Bool.false_ne_true

/-- **Of equal keys the first is kept**: a key that is bound was bound before, or the bindings that
came before its own have no key like it. -/
theorem exists_first_of_mem_keys [EquivBEq κ] {b : Bindings κ ν} {entries : List (κ × ν)} {k : κ}
    (hk : k ∈ (b.insertAll entries).keys) :
    k ∈ b.keys ∨ (b.contains k = false ∧ ∃ before v after, entries = before ++ (k, v) :: after ∧
      ∀ e ∈ before, (e.1 == k) = false) := by
  induction entries generalizing b with
  | nil => exact .inl hk
  | cons entry entries ih =>
    rcases ih hk with hkept | ⟨habsent, before, v, after, hsplit, hbefore⟩
    · rw [keys_insert] at hkept
      split at hkept
      · exact .inl hkept
      · rename_i hnew
        rcases List.mem_append.1 hkept with hold | hlast
        · exact .inl hold
        · rw [List.mem_singleton.1 hlast]
          exact .inr ⟨by simpa using hnew, [], entry.2, entries, rfl, nofun⟩
    · rw [contains_insert, Bool.or_eq_false_iff] at habsent
      refine .inr ⟨habsent.2, entry :: before, v, after, by rw [hsplit]; rfl, ?_⟩
      intro e he
      rcases List.mem_cons.1 he with rfl | he
      · exact habsent.1
      · exact hbefore e he

end Bindings

namespace World

/-- The keys recorded in `c`, in the order of their first records. Which entries count is told by
`read`: the types of nodes, or those of variables. -/
def keysIn {κ : Type} [BEq κ] (w : World) (read : Entry → Option (κ × Value)) (c : ContextId) :
    List κ :=
  (((w.events.filterMap (Event.entryIn c)).filterMap read).map Prod.fst).eraseDups

variable {w : World}

/-- No two of the keys recorded in a context are equal. -/
theorem keysIn_pairwise {κ : Type} [BEq κ] [EquivBEq κ] (w : World)
    (read : Entry → Option (κ × Value)) (c : ContextId) :
    (w.keysIn read c).Pairwise fun k k' => (k == k') = false := by
  rw [keysIn, ← Bindings.keys_insertAll]
  exact Bindings.Distinct.empty.insertAll _

/-- **The keys of a context** are those recorded in it, in the order of their first records, and no
two of them are equal. -/
theorem Told.keys (hw : w.Told) (c : ContextId) :
    ((w.store.context c).nodeTypes.keys = w.keysIn Entry.nodeType? c ∧
        (w.store.context c).varTypes.keys = w.keysIn Entry.varType? c) ∧
      (w.store.context c).nodeTypes.Distinct ∧ (w.store.context c).varTypes.Distinct := by
  rw [(hw c).nodeTypes, (hw c).varTypes]
  exact ⟨⟨Bindings.keys_insertAll _, Bindings.keys_insertAll _⟩, .insertAll .empty _,
    .insertAll .empty _⟩

/-- `key` itself was recorded in `c`, and no key like it had been recorded there before. -/
def FirstRecorded {κ : Type} [BEq κ] (w : World) (read : Entry → Option (κ × Value))
    (c : ContextId) (key : κ) : Prop :=
  ∃ before entry after type, w.events = before ++ .entered c entry :: after ∧
    read entry = some (key, type) ∧
    ∀ earlier ∈ before, ∀ type', ¬ earlier.Records read c key type'

/-- A key that comes first among the keys of its kind was recorded first. -/
theorem firstRecorded_of_mem_keys {κ : Type} [BEq κ] [EquivBEq κ]
    {read : Entry → Option (κ × Value)} {c : ContextId} {key : κ}
    (hkey : key ∈ (({} : Bindings κ Value).insertAll
      ((w.events.filterMap (Event.entryIn c)).filterMap read)).keys) :
    w.FirstRecorded read c key := by
  rcases Bindings.exists_first_of_mem_keys hkey with
    hnone | ⟨-, before, type, after, hsplit, hfirst⟩
  · cases hnone
  · rw [List.filterMap_filterMap] at hsplit
    obtain ⟨earlier, rest, hevents, hbefore, hrest⟩ := List.filterMap_eq_append_iff.1 hsplit
    obtain ⟨silent, event, later, hlater, hsilent, hread, -⟩ := List.filterMap_eq_cons_iff.1 hrest
    obtain ⟨entry, hentry, hread⟩ := Option.bind_eq_some_iff.1 hread
    have hevent : event = .entered c entry := by
      cases event with
      | created d p => cases hentry
      | entered d put =>
        simp only [Event.entryIn] at hentry
        split at hentry
        · rename_i hd
          rw [hd, Option.some.inj hentry]
        · cases hentry
    refine ⟨earlier ++ silent, entry, later, type, ?_, hread, ?_⟩
    · rw [hevents, hlater, hevent, List.append_assoc]
    · intro other hother type' hrecords
      obtain ⟨k, hk, hlike⟩ := records_iff.1 hrecords
      rcases List.mem_append.1 hother with hother | hother
      · -- what was bound before the key is unlike it
        have hbound : (k, type') ∈ before := by
          rw [← hbefore]
          exact List.mem_filterMap.2 ⟨other, hother, hk⟩
        exact absurd (hlike.symm.trans (hfirst _ hbound)) Bool.noConfusion
      · rw [hsilent other hother] at hk
        cases hk

/-- **A context keeps the first of equal keys** that reached it, in whatever way. -/
theorem Told.first (hw : w.Told) (c : ContextId) :
    (∀ key ∈ (w.store.context c).nodeTypes.keys, w.FirstRecorded Entry.nodeType? c key) ∧
      ∀ handle ∈ (w.store.context c).varTypes.keys, w.FirstRecorded Entry.varType? c handle := by
  rw [(hw c).nodeTypes, (hw c).varTypes]
  exact ⟨fun key hkey => firstRecorded_of_mem_keys hkey,
    fun handle hhandle => firstRecorded_of_mem_keys hhandle⟩

end World

end TypingStore

import TypingStore.Proofs.Entries

/-!
# Replaying a branch

A commit does not replay what was written to the child. It hands over what the child holds
in the end: every key once, in the place of its first write, with the value of its last. For
the parent that makes no difference (`Bindings.insertAll_insertAll`, `Grows.replay`).

* `Bindings.insertAll`: binding several keys, in order.
* `Bindings.get?_insertAll`: the last binding of a key decides.
* `Context.Grows`: what a context holds after some entries were put down in it, whatever
  happened to its version.
-/

namespace TypingStore

namespace Bindings

variable {κ ν : Type} [BEq κ]

/-- Binds several keys, in order. -/
def insertAll (b : Bindings κ ν) (entries : List (κ × ν)) : Bindings κ ν :=
  entries.foldl (fun b e => b.insert e.1 e.2) b

/-- The value that the last of several bindings of a key gives it. -/
def last? (entries : List (κ × ν)) (key : κ) : Option ν :=
  (entries.reverse.find? fun e => e.1 == key).map Prod.snd

theorem insertAll_append (b : Bindings κ ν) (l l' : List (κ × ν)) :
    b.insertAll (l ++ l') = (b.insertAll l).insertAll l' :=
  List.foldl_append ..

variable [EquivBEq κ]

/-- **The last binding of a key decides**, and what was there before only if there is none. -/
theorem get?_insertAll (b : Bindings κ ν) (l : List (κ × ν)) (key : κ) :
    (b.insertAll l).get? key = (last? l key).or (b.get? key) := by
  induction l generalizing b with
  | nil => rfl
  | cons e l ih =>
    have hl : (b.insertAll (e :: l)).get? key = ((b.insert e.1 e.2).insertAll l).get? key := rfl
    rw [hl, ih, get?_insert]
    simp only [last?, List.reverse_cons, List.find?_append, Option.map_or]
    cases he : e.1 == key <;> cases l.reverse.find? (fun e => e.1 == key) <;> simp [he]

/-- Of two bindings of equal keys, the first gives the place and the second the value. -/
theorem insert_insert_of_beq (b : Bindings κ ν) {k k' : κ} (h : (k == k') = true) (v v' : ν) :
    (b.insert k v).insert k' v' = b.insert k v' := by
  obtain ⟨l⟩ := b
  simp only [insert, mk.injEq]
  induction l with
  | nil => simp [put, h]
  | cons e l ih =>
    have hcongr : (e.1 == k) = (e.1 == k') := BEq.congr_right h
    by_cases he : (e.1 == k) = true
    · have he' : (e.1 == k') = true := hcongr ▸ he
      simp [put, he, he']
    · have he' : ¬ (e.1 == k') = true := hcongr ▸ he
      simp [put, he, he', ih]

/-- A new value for a key that is bound already can be given before or after another key is
bound. -/
theorem insert_comm_of_contains {b : Bindings κ ν} {k j : κ} (hk : b.contains k = true)
    (hkj : (k == j) = false) (v w : ν) :
    (b.insert j w).insert k v = (b.insert k v).insert j w := by
  obtain ⟨l⟩ := b
  simp only [insert, mk.injEq]
  simp only [contains] at hk
  induction l with
  | nil => simp at hk
  | cons e l ih =>
    by_cases he : (e.1 == k) = true
    · have hej : (e.1 == j) = false := (BEq.congr_left he).trans hkj
      simp [put, he, hej]
    · have hl : l.any (fun e => e.1 == k) = true := by simpa [he] using hk
      by_cases hej : (e.1 == j) = true
      · simp [put, he, hej]
      · simp [put, he, hej, ih hl]

theorem contains_insert (b : Bindings κ ν) (key k : κ) (v : ν) :
    (b.insert k v).contains key = ((k == key) || b.contains key) := by
  rw [← get?_isSome, get?_insert, ← get?_isSome]
  cases k == key <;> simp

/-- The same with several other keys. -/
theorem insertAll_insert_comm {b : Bindings κ ν} {k : κ} {l : List (κ × ν)}
    (hk : b.contains k = true) (hl : ∀ e ∈ l, (k == e.1) = false) (v : ν) :
    (b.insertAll l).insert k v = (b.insert k v).insertAll l := by
  induction l generalizing b with
  | nil => rfl
  | cons e l ih =>
    have hke := hl e List.mem_cons_self
    have hk' : (b.insert e.1 e.2).contains k = true := by simp [contains_insert, hk]
    show ((b.insert e.1 e.2).insertAll l).insert k v = ((b.insert k v).insert e.1 e.2).insertAll l
    rw [ih hk' fun x hx => hl x (List.mem_cons_of_mem _ hx), insert_comm_of_contains hk hke]

/-- **Handing over one more binding**: it may as well be bound after all the others were handed
over. -/
theorem insertAll_put (b : Bindings κ ν) (k : κ) (v : ν) (l : List (κ × ν))
    (hl : (l.map Prod.fst).Pairwise fun x y => (x == y) = false) :
    b.insertAll (put k v l) = (b.insertAll l).insert k v := by
  induction l generalizing b with
  | nil => rfl
  | cons e l ih =>
    rw [List.map_cons, List.pairwise_cons] at hl
    by_cases he : (e.1 == k) = true
    · -- the key is bound here, and not again further on
      have hapart : ∀ x ∈ l, (k == x.1) = false := fun x hx =>
        (BEq.congr_left he).symm.trans (hl.1 x.1 (List.mem_map_of_mem hx))
      have hk : (b.insert e.1 e.2).contains k = true := by simp [contains_insert, he]
      have hput : put k v (e :: l) = (e.1, v) :: l := by simp [put, he]
      calc b.insertAll (put k v (e :: l))
          = (b.insert e.1 v).insertAll l := by rw [hput]; rfl
        _ = ((b.insert e.1 e.2).insert k v).insertAll l := by rw [insert_insert_of_beq b he]
        _ = ((b.insert e.1 e.2).insertAll l).insert k v := (insertAll_insert_comm hk hapart v).symm
    · have hput : put k v (e :: l) = e :: put k v l := by simp [put, he]
      rw [hput]
      exact ih (b.insert e.1 e.2) hl.2

/-- **Handing over the bindings is handing over the whole history**: what was bound several times
can be bound once. -/
theorem insertAll_insertAll (b : Bindings κ ν) {a : Bindings κ ν} (ha : a.Distinct)
    (l : List (κ × ν)) :
    b.insertAll (a.insertAll l).entries = (b.insertAll a.entries).insertAll l := by
  induction l generalizing a with
  | nil => rfl
  | cons e l ih =>
    show b.insertAll ((a.insert e.1 e.2).insertAll l).entries = _
    rw [ih (ha.insert e.1 e.2)]
    exact congrArg (insertAll · l) (insertAll_put b e.1 e.2 a.entries ha)

end Bindings

namespace Entry

/-- The node type in an entry. -/
def nodeType? : Entry → Option (NodeKey × Value)
  | nodeType node type => some (⟨node⟩, type)
  | _ => none

/-- The variable type in an entry. -/
def varType? : Entry → Option (Handle × Value)
  | varType handle type => some (handle, type)
  | _ => none

/-- The error in an entry. -/
def error? : Entry → Option Value
  | error e => some e
  | _ => none

end Entry

namespace Context

/-- `c'` holds what `c` holds and, after that, the entries. -/
structure Grows (c : Context) (es : List Entry) (c' : Context) : Prop where
  nodeTypes : c'.nodeTypes = c.nodeTypes.insertAll (es.filterMap Entry.nodeType?)
  varTypes : c'.varTypes = c.varTypes.insertAll (es.filterMap Entry.varType?)
  errors : c'.errors = c.errors ++ es.filterMap Entry.error?

theorem Grows.refl (c : Context) : c.Grows [] c := ⟨rfl, rfl, (List.append_nil _).symm⟩

theorem Grows.trans {c c' c'' : Context} {es es' : List Entry} (h : c.Grows es c')
    (h' : c'.Grows es' c'') : c.Grows (es ++ es') c'' where
  nodeTypes := by
    rw [h'.nodeTypes, h.nodeTypes, List.filterMap_append, Bindings.insertAll_append]
  varTypes := by rw [h'.varTypes, h.varTypes, List.filterMap_append, Bindings.insertAll_append]
  errors := by rw [h'.errors, h.errors, List.filterMap_append, List.append_assoc]

theorem grows_enter (policy : VersionPolicy) (e : Entry) (c : Context) :
    c.Grows [e] (c.enter policy e) := by
  cases e with
  | nodeType node type =>
    exact ⟨by simp [enter, recordType]; rfl, by simp [enter, recordType]; rfl,
      by simp [enter, recordType, Entry.error?]⟩
  | varType handle type =>
    exact ⟨by simp [enter, recordVariable]; rfl, by simp [enter, recordVariable]; rfl,
      by simp [enter, recordVariable, Entry.error?]⟩
  | error error => exact ⟨rfl, rfl, rfl⟩

/-- Entries do to what a context holds what they say, under either policy. -/
theorem grows_enterAll (policy : VersionPolicy) (es : List Entry) (c : Context) :
    c.Grows es (c.enterAll policy es) := by
  induction es generalizing c with
  | nil => exact .refl c
  | cons e es ih => exact (grows_enter policy e c).trans (ih _)

/-- The entries of a context, sorted by kind, are what it holds. -/
theorem filterMap_entries (c : Context) :
    c.entries.filterMap Entry.nodeType? = c.nodeTypes.entries ∧
      c.entries.filterMap Entry.varType? = c.varTypes.entries ∧
      c.entries.filterMap Entry.error? = c.errors := by
  -- the other two kinds leave nothing
  have hnone : ∀ {α β : Type} (l : List α), l.filterMap (fun _ => (none : Option β)) = [] :=
    fun l => List.filterMap_eq_nil_iff.2 fun _ _ => rfl
  refine ⟨?_, ?_, ?_⟩ <;>
    simp [entries, List.filterMap_map, Entry.nodeType?, Entry.varType?, Entry.error?,
      Function.comp_def, hnone]

/-- **A commit replays the branch.** If the entries `es` made a new child what it is, handing over
what the child holds is putting `es` down in the parent. -/
theorem Grows.replay {new child : Context} {es : List Entry} (h : new.Grows es child)
    (hnew : new.entries = []) (policy : VersionPolicy) (c : Context) :
    c.Grows es (c.enterAll policy child.entries) := by
  obtain ⟨hn, hv, he⟩ := child.filterMap_entries
  have hempty : new.nodeTypes = ⟨[]⟩ ∧ new.varTypes = ⟨[]⟩ ∧ new.errors = [] := by
    simp only [entries, List.append_eq_nil_iff, List.map_eq_nil_iff] at hnew
    exact ⟨congrArg Bindings.mk hnew.1.1, congrArg Bindings.mk hnew.1.2, hnew.2⟩
  obtain ⟨hn0, hv0, he0⟩ := hempty
  -- the child is distinct, as it started out empty
  have hg := grows_enterAll policy child.entries c
  refine ⟨?_, ?_, ?_⟩
  · rw [hg.nodeTypes, hn, h.nodeTypes, hn0, Bindings.insertAll_insertAll _ .empty]
    rfl
  · rw [hg.varTypes, hv, h.varTypes, hv0, Bindings.insertAll_insertAll _ .empty]
    rfl
  · rw [hg.errors, he, h.errors, he0, List.nil_append]

end Context

end TypingStore

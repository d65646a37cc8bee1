import TypingStore.Objects.Equality
import TypingStore.Types.Display

/-!
# Joins and their normal form

A join is meant to be flat: a type that is no union, or a union of several different types none of
which is a union. The join looks into each of its arguments once and no deeper, so a union that
stands among the members of an argument stays whole, as a member of the answer or as the answer
itself.

* `Value.leaves`: the types at the bottom of the unions of a type.
* `Objects.Normal`: a type without unions in a union, and without equal members.
* `Objects.exists_kept`, `Objects.apart_eraseDupsBy`: the first of equal members is kept, and no
  other.
* `Objects.Joins`, `Objects.join_joins`: what a join answers; nothing is lost in it.
* `Objects.join_flatJoin_iff`: the answer is flat exactly when no union among the members of the
  arguments is kept.
-/

namespace TypingStore

namespace Value

/-- Whether a type is a union. -/
def isUnion : Value → Bool
  | .unionType _ _ => true
  | _ => false

mutual

/-- The types at the bottom of the unions of a type, from left to right. -/
def leaves : Value → List Value
  | .unionType _ members => leavesAll members
  | v => [v]

/-- The leaves of a list of types. -/
def leavesAll : List Value → List Value
  | [] => []
  | v :: vs => leaves v ++ leavesAll vs

end

theorem leavesAll_eq_flatMap (vs : List Value) : leavesAll vs = vs.flatMap leaves := by
  induction vs with
  | nil => rfl
  | cons v vs ih => simp [leavesAll, ih]

theorem members_of_not_isUnion {v : Value} (hflat : v.isUnion = false) : v.members = [v] := by
  cases v <;> simp_all [isUnion, members]

theorem leaves_of_not_isUnion {v : Value} (hflat : v.isUnion = false) : v.leaves = [v] := by
  cases v <;> simp_all [isUnion, leaves]

/-- The leaves of a type are those of its members. -/
theorem leavesAll_members (v : Value) : leavesAll v.members = v.leaves := by
  cases v <;> simp [members, leaves, leavesAll]

theorem isUnion_eq_of_head {v w : Value} (hhead : v.head = w.head) : v.isUnion = w.isUnion := by
  cases v <;> cases w <;> simp_all [head, isUnion]

/-- A type whose members are no unions has no other leaves. -/
theorem leaves_of_flat {v : Value} (hflat : ∀ m ∈ v.members, m.isUnion = false) :
    v.leaves = v.members := by
  have hpure (ms : List Value) (h : ∀ m ∈ ms, m.isUnion = false) : leavesAll ms = ms := by
    induction ms with
    | nil => rfl
    | cons m ms ih =>
      have hm := leaves_of_not_isUnion (h m List.mem_cons_self)
      have hms := ih fun m' hm' => h m' (List.mem_cons_of_mem m hm')
      simp [leavesAll, hm, hms]
  rw [← leavesAll_members, hpure v.members hflat]

variable {lens : Lens}

mutual

/-- Equal types have equal leaves, one for one. -/
theorem map_shape_leaves {v w : Value} (hsame : v.shape lens = w.shape lens) :
    v.leaves.map (shape lens) = w.leaves.map (shape lens) := by
  have hhead : v.head = w.head := by simpa [shape] using congrArg (fun | .of head _ => head) hsame
  cases hv : v.isUnion with
  | false =>
    have hw : w.isUnion = false := isUnion_eq_of_head hhead ▸ hv
    simp [leaves_of_not_isUnion hv, leaves_of_not_isUnion hw, hsame]
  | true =>
    have hw : w.isUnion = true := isUnion_eq_of_head hhead ▸ hv
    match v, w with
    | .unionType _ vs, .unionType _ ws =>
      have hparts : shapes lens vs = shapes lens ws := by simpa [shape, head, parts] using hsame
      simpa [leaves] using map_shape_leavesAll hparts

/-- Equal lists of types have equal leaves, one for one. -/
theorem map_shape_leavesAll {vs ws : List Value} (hsame : shapes lens vs = shapes lens ws) :
    (leavesAll vs).map (shape lens) = (leavesAll ws).map (shape lens) := by
  match vs, ws with
  | [], [] => rfl
  | [], _ :: _ => simp [shapes] at hsame
  | _ :: _, [] => simp [shapes] at hsame
  | v :: vs, w :: ws =>
    obtain ⟨hfirst, hrest⟩ := shapes_cons_eq_iff.mp hsame
    simp [leavesAll, map_shape_leaves hfirst, map_shape_leavesAll hrest]

end

end Value

namespace Objects

variable {objects : Objects}

/-! ## The members that are kept -/

theorem equal_eq_false_iff {a b : Value} :
    objects.equal a b = false ↔ objects.shape a ≠ objects.shape b := by
  rw [← Bool.not_eq_true, equal_iff]

theorem eraseDupsBy_sublist (same : Value → Value → Bool) (ms : List Value) :
    (ms.eraseDupsBy same).Sublist ms := by
  match ms with
  | [] => simp
  | m :: ms =>
    rw [List.eraseDupsBy_cons]
    exact .cons_cons m ((eraseDupsBy_sublist same _).trans List.filter_sublist)
termination_by ms.length
decreasing_by exact Nat.lt_succ_of_le (List.length_filter_le _ _)

/-- Of every member an equal one is kept. -/
theorem exists_kept (objects : Objects) {ms : List Value} {m : Value} (hm : m ∈ ms) :
    ∃ kept ∈ ms.eraseDupsBy objects.equal, objects.shape kept = objects.shape m := by
  match ms with
  | first :: ms =>
    rw [List.eraseDupsBy_cons]
    by_cases hsame : objects.shape first = objects.shape m
    · exact ⟨first, List.mem_cons_self, hsame⟩
    · have hrest : m ∈ ms := by
        rcases List.mem_cons.mp hm with rfl | hm
        · exact absurd rfl hsame
        · exact hm
      have hleft : m ∈ ms.filter fun b => decide (objects.equal b first = false) := by
        simpa [hrest, equal_eq_false_iff] using Ne.symm hsame
      obtain ⟨kept, hkept, hequal⟩ := exists_kept objects hleft
      exact ⟨kept, List.mem_cons_of_mem first hkept, hequal⟩
termination_by ms.length
decreasing_by exact Nat.lt_succ_of_le (List.length_filter_le _ _)

/-- No two members that are kept are equal. -/
theorem apart_eraseDupsBy (objects : Objects) (ms : List Value) :
    (ms.eraseDupsBy objects.equal).Pairwise fun a b => objects.equal a b = false := by
  match ms with
  | [] => simp
  | first :: ms =>
    rw [List.eraseDupsBy_cons, List.pairwise_cons]
    constructor
    · intro m hm
      have hother := (List.mem_filter.mp ((eraseDupsBy_sublist _ _).subset hm)).2
      rw [decide_eq_true_eq, equal_eq_false_iff] at hother
      exact equal_eq_false_iff.mpr (Ne.symm hother)
    · exact apart_eraseDupsBy objects _
termination_by ms.length
decreasing_by exact Nat.lt_succ_of_le (List.length_filter_le _ _)

/-- When only one member is kept, it is the first and all others are equal to it. -/
theorem all_equal_of_kept_one {ms : List Value} {m : Value}
    (hone : ms.eraseDupsBy objects.equal = [m]) :
    ∃ rest, ms = m :: rest ∧ ∀ other ∈ rest, objects.equal m other = true := by
  match ms with
  | [] => simp at hone
  | first :: rest =>
    have hfirst : first = m := by
      rw [List.eraseDupsBy_cons] at hone
      exact (List.cons.inj hone).1
    subst hfirst
    refine ⟨rest, rfl, fun other hother => ?_⟩
    obtain ⟨kept, hkept, hsame⟩ := exists_kept objects (List.mem_cons_of_mem first hother)
    rw [hone, List.mem_singleton] at hkept
    exact equal_iff.mpr (hkept ▸ hsame)

/-! ## Leaves -/

/-- Whether a type equal to `t` is a leaf of one of `types`. -/
def HasLeaf (objects : Objects) (types : List Value) (t : Value) : Prop :=
  ∃ type ∈ types, ∃ leaf ∈ type.leaves, objects.equal leaf t = true

theorem hasLeaf_iff_mem {types : List Value} {t : Value} :
    objects.HasLeaf types t ↔
      objects.shape t ∈ (Value.leavesAll types).map (Value.shape objects.lens) := by
  simp [HasLeaf, Value.leavesAll_eq_flatMap, equal_iff, shape]
  grind

/-- A list of types has the leaves of its members. -/
theorem hasLeaf_members {types : List Value} {t : Value} :
    objects.HasLeaf (types.flatMap Value.members) t ↔ objects.HasLeaf types t := by
  have hleaves : Value.leavesAll (types.flatMap Value.members) = Value.leavesAll types := by
    induction types with
    | nil => rfl
    | cons type types ih =>
      simp only [Value.leavesAll_eq_flatMap, List.flatMap_cons, List.flatMap_append] at ih ⊢
      rw [ih, ← Value.leavesAll_eq_flatMap, Value.leavesAll_members]
  rw [hasLeaf_iff_mem, hasLeaf_iff_mem, hleaves]

/-- Dropping members that are equal to others loses no leaf. -/
theorem hasLeaf_eraseDupsBy {ms : List Value} {t : Value} :
    objects.HasLeaf (ms.eraseDupsBy objects.equal) t ↔ objects.HasLeaf ms t := by
  constructor
  · rintro ⟨m, hm, hleaf⟩
    exact ⟨m, (eraseDupsBy_sublist _ _).subset hm, hleaf⟩
  · rintro ⟨m, hm, leaf, hleaf, hequal⟩
    obtain ⟨kept, hkept, hsame⟩ := exists_kept objects hm
    have hshape : objects.shape leaf ∈ m.leaves.map (Value.shape objects.lens) :=
      List.mem_map_of_mem hleaf
    rw [← Value.map_shape_leaves hsame] at hshape
    obtain ⟨leaf', hleaf', hsame'⟩ := List.mem_map.mp hshape
    exact ⟨kept, hkept, leaf', hleaf', equal_iff.mpr (hsame'.trans (equal_iff.mp hequal))⟩

/-! ## The answer -/

/-- A type in normal form: no union, or a union of at least two types of which none is a union and
no two are equal. -/
def Normal (objects : Objects) (type : Value) : Prop :=
  type.isUnion = false ∨
    2 ≤ type.members.length ∧ (∀ m ∈ type.members, m.isUnion = false) ∧
      type.members.Pairwise fun a b => objects.equal a b = false

theorem Normal.flat {type : Value} (hnormal : objects.Normal type) :
    ∀ m ∈ type.members, m.isUnion = false := by
  rcases hnormal with hflat | ⟨_, hflat, _⟩
  · intro m hm
    rw [Value.members_of_not_isUnion hflat, List.mem_singleton] at hm
    exact hm ▸ hflat
  · exact hflat

/-- What a join of `types` is meant to be: a normal form whose members are the leaves of `types`. -/
structure FlatJoin (objects : Objects) (types : List Value) (join : Value) : Prop where
  normal : objects.Normal join
  members : ∀ t, t.isUnion = false →
    ((∃ m ∈ join.members, objects.equal m t = true) ↔ objects.HasLeaf types t)

/-- What a join of `types` always is: their first member when all others are equal to it, else a
union of different members with one for each member of the types. It has the leaves of the types. -/
structure Joins (objects : Objects) (types : List Value) (join : Value) : Prop where
  kept : (∃ rest, types.flatMap Value.members = join :: rest ∧
      ∀ m ∈ rest, objects.equal join m = true) ∨
    (join.isUnion = true ∧ 2 ≤ join.members.length ∧
      join.members.Sublist (types.flatMap Value.members) ∧
      (join.members.Pairwise fun a b => objects.equal a b = false) ∧
      ∀ m ∈ types.flatMap Value.members, ∃ kept ∈ join.members, objects.equal kept m = true)
  leaves : ∀ t, objects.HasLeaf [join] t ↔ objects.HasLeaf types t

/-- **What is kept**: a join refuses only types without any member, and answers their join. -/
theorem join_joins (objects : Objects) (types : List Value) :
    (types.flatMap Value.members = [] ∧ (objects.join types).1 = .error .emptyJoin) ∨
      ∃ join, (objects.join types).1 = .ok join ∧ objects.Joins types join := by
  have hleaves (t : Value) :
      objects.HasLeaf (Types.joined objects.equal types) t ↔ objects.HasLeaf types t :=
    hasLeaf_eraseDupsBy.trans hasLeaf_members
  have hcover (m : Value) (hm : m ∈ types.flatMap Value.members) :
      ∃ kept ∈ Types.joined objects.equal types, objects.equal kept m = true := by
    obtain ⟨kept, hmem, hsame⟩ := exists_kept objects hm
    exact ⟨kept, hmem, equal_iff.mpr hsame⟩
  have hsub := eraseDupsBy_sublist objects.equal (types.flatMap Value.members)
  have happart := apart_eraseDupsBy objects (types.flatMap Value.members)
  rw [← Types.joined] at hsub happart
  match hkept : Types.joined objects.equal types with
  | [] =>
    refine .inl ⟨List.eq_nil_iff_forall_not_mem.mpr fun m hm => ?_, by simp [join, hkept]⟩
    obtain ⟨kept, hmem, _⟩ := hcover m hm
    simp [hkept] at hmem
  | [m] =>
    refine .inr ⟨m, by simp [join, hkept], .inl (all_equal_of_kept_one hkept), fun t => ?_⟩
    rw [← hleaves, hkept]
  | first :: second :: rest =>
    rw [hkept] at hcover hsub happart
    refine .inr ⟨.unionType ⟨objects.nextStamp⟩ (first :: second :: rest),
      by simp [join, hkept, make],
      .inr ⟨rfl, by simp [Value.members], hsub, happart, hcover⟩, fun t => ?_⟩
    rw [← hleaves, hkept, ← hasLeaf_members]
    simp [Value.members]

/-- When looking into each argument once is enough: no member is a union, or all members are equal
to the first and that is in normal form. -/
def FlatMembers (objects : Objects) (members : List Value) : Prop :=
  (∀ m ∈ members, m.isUnion = false) ∨
    ∃ first rest, members = first :: rest ∧
      (∀ m ∈ rest, objects.equal first m = true) ∧ objects.Normal first

theorem isUnion_eq_of_equal {a b : Value} (hequal : objects.equal a b = true) :
    a.isUnion = b.isUnion := by
  have hsame := equal_iff.mp hequal
  exact Value.isUnion_eq_of_head (by simpa [shape, Value.shape] using And.left (Shape.of.inj hsame))

theorem Joins.flatJoin_of_normal {types : List Value} {join : Value}
    (hjoin : objects.Joins types join) (hnormal : objects.Normal join) :
    objects.FlatJoin types join := by
  refine ⟨hnormal, fun t _ => ?_⟩
  rw [← hjoin.leaves, HasLeaf]
  simp [Value.leaves_of_flat hnormal.flat]

theorem Joins.flatJoin_iff {types : List Value} {join : Value} (hjoin : objects.Joins types join) :
    objects.FlatJoin types join ↔ objects.FlatMembers (types.flatMap Value.members) := by
  suffices h : objects.Normal join ↔ objects.FlatMembers (types.flatMap Value.members) from
    ⟨fun hflat => h.mp hflat.normal, fun hflat => hjoin.flatJoin_of_normal (h.mpr hflat)⟩
  rcases hjoin.kept with ⟨rest, hmembers, hequal⟩ | ⟨hunion, htwo, hsub, happart, hcover⟩
  · constructor
    · exact fun hnormal => .inr ⟨join, rest, hmembers, hequal, hnormal⟩
    · rintro (hflat | ⟨first, rest', hmembers', -, hnormal⟩)
      · exact .inl (hflat join (hmembers ▸ List.mem_cons_self))
      · have hfirst : first = join := (List.cons.inj (hmembers'.symm.trans hmembers)).1
        exact hfirst ▸ hnormal
  · constructor
    · intro hnormal
      refine .inl fun m hm => ?_
      obtain ⟨kept, hkept, hequal⟩ := hcover m hm
      exact isUnion_eq_of_equal hequal ▸ hnormal.flat kept hkept
    · rintro (hflat | ⟨first, rest, hmembers, hequal, -⟩)
      · exact .inr ⟨htwo, fun m hm => hflat m (hsub.subset hm), happart⟩
      · -- members that are all equal to the first are not kept twice
        have hall (m : Value) (hm : m ∈ join.members) : objects.shape m = objects.shape first := by
          have hm' := hsub.subset hm
          rw [hmembers, List.mem_cons] at hm'
          rcases hm' with rfl | hm'
          · rfl
          · exact (equal_iff.mp (hequal m hm')).symm
        match hms : join.members with
        | [] => simp [hms] at htwo
        | [_] => simp [hms] at htwo
        | a :: b :: _ =>
          rw [hms] at happart hall
          have hdiffer := (List.pairwise_cons.mp happart).1 b (by simp)
          exact absurd ((hall a (by simp)).trans (hall b (by simp)).symm)
            (equal_eq_false_iff.mp hdiffer)

/-- **A join is flat exactly when looking into each argument once is enough.** Types without any
member have no join. All others have one, which loses no leaf and adds none; it is the normal form
that a join is meant to be when no member of an argument is a union, or when all members are equal
to one normal form, and in no other case. -/
theorem join_flatJoin_iff (objects : Objects) (types : List Value) :
    (types.flatMap Value.members = [] ∧ (objects.join types).1 = .error .emptyJoin) ∨
      ∃ join, (objects.join types).1 = .ok join ∧ objects.Joins types join ∧
        (objects.FlatJoin types join ↔ objects.FlatMembers (types.flatMap Value.members)) := by
  rcases join_joins objects types with hnone | ⟨join, hok, hjoin⟩
  · exact .inl hnone
  · exact .inr ⟨join, hok, hjoin, hjoin.flatJoin_iff⟩

-- a union in a union stays beside the type it is made of, which is then displayed twice
example :
    let integer := Value.instanceType ⟨1⟩ "Integer" []
    (({} : Objects).join [.unionType ⟨3⟩ [.unionType ⟨2⟩ [integer], integer]]).1.toOption.map
      (Value.display fun _ => "") = some "Integer | Integer" := by
  decide +kernel

end Objects

end TypingStore

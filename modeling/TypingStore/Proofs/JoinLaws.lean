import Mathlib.Data.List.Perm.Basic
import TypingStore.Proofs.Joins

/-!
# The laws of joins

On flat types, of which no union has a union for a member, a join only keeps the first of equal
members. So a join of joins is the join of all, whichever way the types are grouped, and it keeps
the same members in the same places; and the order of the types decides about the order of the
members and about which of equal ones is kept, and about nothing else.

* `Objects.eraseDupsBy_append`: what is kept of two rows of members, one after the other.
* `Objects.FlatlyJoins`: what a join of flat types answers, said once (`join_of_flat`).
* `Grouping`, `Grouping.keeps_run`: joins of joins, put together in any way.
* `Objects.join_laws`: joins are associative and idempotent, and do not depend on the order.
-/

namespace TypingStore

namespace Objects

variable {objects objects' : Objects}

/-! ## Members that are kept -/

/-- Whether a member is equal to none of these. -/
def isNew (objects : Objects) (ms : List Value) (m : Value) : Bool :=
  ms.all fun other => !objects.equal m other

theorem isNew_iff {ms : List Value} {m : Value} :
    objects.isNew ms m = true ↔ ∀ other ∈ ms, objects.shape m ≠ objects.shape other := by
  simp only [isNew, List.all_eq_true, Bool.not_eq_true', equal_eq_false_iff]

/-- The first member is kept, and those that are not equal to it follow. -/
theorem eraseDupsBy_cons_isNew (m : Value) (ms : List Value) :
    (m :: ms).eraseDupsBy objects.equal =
      m :: (ms.filter (objects.isNew [m])).eraseDupsBy objects.equal := by
  have hfilter : (ms.filter fun b => decide (objects.equal b m = false)) =
      ms.filter (objects.isNew [m]) := by
    refine List.filter_congr fun b _ => ?_
    rw [Bool.eq_iff_iff, isNew_iff, decide_eq_true_eq, equal_eq_false_iff]
    simp
  rw [List.eraseDupsBy_cons, hfilter]

/-- **What is kept of two rows**: what is kept of the first, and of the second what is equal to
nothing in the first. -/
theorem eraseDupsBy_append (objects : Objects) (xs ys : List Value) :
    (xs ++ ys).eraseDupsBy objects.equal =
      xs.eraseDupsBy objects.equal ++ (ys.filter (objects.isNew xs)).eraseDupsBy objects.equal := by
  match xs with
  | [] =>
    have hall : ys.filter (objects.isNew []) = ys := List.filter_eq_self.mpr fun _ _ => rfl
    rw [hall]
    rfl
  | x :: xs =>
    -- what is equal to something in the first row is equal to `x` or to something that is not
    have hrest : (ys.filter (objects.isNew [x])).filter
          (objects.isNew (xs.filter (objects.isNew [x]))) =
        ys.filter (objects.isNew (x :: xs)) := by
      rw [List.filter_filter]
      refine List.filter_congr fun y _ => ?_
      rw [Bool.eq_iff_iff, Bool.and_eq_true, isNew_iff, isNew_iff, isNew_iff]
      simp only [List.mem_filter, isNew_iff, List.mem_cons, List.not_mem_nil, or_false,
        forall_eq, forall_eq_or_imp]
      constructor
      · rintro ⟨hother, hx⟩
        refine ⟨hx, fun z hz hsame => ?_⟩
        exact hother z ⟨hz, fun hzx => hx (hsame.trans hzx)⟩ hsame
      · rintro ⟨hx, hother⟩
        exact ⟨fun z hz => hother z hz.1, hx⟩
    rw [List.cons_append, eraseDupsBy_cons_isNew, eraseDupsBy_cons_isNew, List.filter_append,
      eraseDupsBy_append objects (xs.filter (objects.isNew [x])), hrest, List.cons_append]
termination_by xs.length
decreasing_by exact Nat.lt_succ_of_le (List.length_filter_le _ _)

/-- What equal members have in common can be asked for before or after. -/
theorem filter_eraseDupsBy (objects : Objects) {p : Value → Bool}
    (hp : ∀ a b, objects.shape a = objects.shape b → p a = p b) (ms : List Value) :
    (ms.eraseDupsBy objects.equal).filter p = (ms.filter p).eraseDupsBy objects.equal := by
  match ms with
  | [] => rfl
  | m :: ms =>
    have hrest := filter_eraseDupsBy objects hp (ms.filter (objects.isNew [m]))
    rw [eraseDupsBy_cons_isNew, List.filter_cons, List.filter_cons, hrest]
    cases hm : p m with
    | true =>
      rw [if_pos rfl, if_pos rfl, eraseDupsBy_cons_isNew, List.filter_filter, List.filter_filter]
      simp only [Bool.and_comm]
    | false =>
      -- those equal to `m` are left out as well
      rw [if_neg Bool.false_ne_true, if_neg Bool.false_ne_true, List.filter_filter]
      congr 1
      refine List.filter_congr fun b _ => ?_
      cases hb : p b with
      | false => rfl
      | true =>
        rw [Bool.true_and, isNew_iff]
        simp only [List.mem_singleton, forall_eq]
        intro hsame
        rw [hp b m hsame, hm] at hb
        cases hb
termination_by ms.length
decreasing_by exact Nat.lt_succ_of_le (List.length_filter_le _ _)

/-- Members that are all different are all kept. -/
theorem eraseDupsBy_of_apart {ms : List Value}
    (happart : ms.Pairwise fun a b => objects.equal a b = false) :
    ms.eraseDupsBy objects.equal = ms := by
  induction ms with
  | nil => rfl
  | cons m ms ih =>
    obtain ⟨hm, hms⟩ := List.pairwise_cons.mp happart
    have hall : ms.filter (objects.isNew [m]) = ms := by
      refine List.filter_eq_self.mpr fun b hb => ?_
      rw [isNew_iff]
      simp only [List.mem_singleton, forall_eq]
      exact Ne.symm (equal_eq_false_iff.mp (hm b hb))
    rw [eraseDupsBy_cons_isNew, hall, ih hms]

/-- What is kept is kept again. -/
theorem eraseDupsBy_eraseDupsBy (objects : Objects) (ms : List Value) :
    (ms.eraseDupsBy objects.equal).eraseDupsBy objects.equal = ms.eraseDupsBy objects.equal :=
  eraseDupsBy_of_apart (apart_eraseDupsBy objects ms)

/-- What is new to a row is new to what is kept of it. -/
theorem isNew_eraseDupsBy (objects : Objects) (ms : List Value) :
    objects.isNew (ms.eraseDupsBy objects.equal) = objects.isNew ms := by
  funext m
  rw [Bool.eq_iff_iff, isNew_iff, isNew_iff]
  constructor
  · intro hnew other hother
    obtain ⟨kept, hkept, hsame⟩ := exists_kept objects hother
    exact hsame ▸ hnew kept hkept
  · intro hnew other hother
    exact hnew other ((eraseDupsBy_sublist _ _).subset hother)

/-- **Members can be dropped early**: rows in which equal members were dropped beforehand keep the
same members in the end, in the same order. -/
theorem eraseDupsBy_append_congr {xs xs' ys ys' : List Value}
    (hxs : xs.eraseDupsBy objects.equal = xs'.eraseDupsBy objects.equal)
    (hys : ys.eraseDupsBy objects.equal = ys'.eraseDupsBy objects.equal) :
    (xs ++ ys).eraseDupsBy objects.equal = (xs' ++ ys').eraseDupsBy objects.equal := by
  have hnew : objects.isNew xs = objects.isNew xs' := by
    rw [← isNew_eraseDupsBy, hxs, isNew_eraseDupsBy]
  have hcongr (a b : Value) (hsame : objects.shape a = objects.shape b) :
      objects.isNew xs' a = objects.isNew xs' b := by
    rw [Bool.eq_iff_iff, isNew_iff, isNew_iff, hsame]
  rw [eraseDupsBy_append, eraseDupsBy_append, hxs, hnew, ← filter_eraseDupsBy objects hcongr, hys,
    filter_eraseDupsBy objects hcongr]

/-! ## Joins of flat types -/

/-- No union among these types has a union for a member. -/
def FlatTypes (types : List Value) : Prop :=
  ∀ type ∈ types, ∀ m ∈ type.members, m.isUnion = false

theorem FlatTypes.flatMap {types : List Value} (hflat : FlatTypes types) :
    ∀ m ∈ types.flatMap Value.members, m.isUnion = false := by
  intro m hm
  obtain ⟨type, htype, hm⟩ := List.mem_flatMap.mp hm
  exact hflat type htype m hm

theorem FlatTypes.append {types types' : List Value} (hflat : FlatTypes types)
    (hflat' : FlatTypes types') : FlatTypes (types ++ types') := by
  intro type htype
  rcases List.mem_append.mp htype with htype | htype
  · exact hflat type htype
  · exact hflat' type htype

/-- What a join of flat types is: the members that are kept, in a union if there are several. -/
structure FlatlyJoins (objects : Objects) (types : List Value) (join : Value) : Prop where
  members : join.members = Types.joined objects.equal types
  isUnion_iff : join.isUnion = true ↔ 2 ≤ join.members.length

/-- **A join of flat types** refuses them only when they have no member at all. Making the union
changes nothing that equality looks at. -/
theorem join_of_flat (objects : Objects) {types : List Value} (hflat : FlatTypes types) :
    (types.flatMap Value.members = [] ∧ objects.join types = (.error .emptyJoin, objects)) ∨
      (types.flatMap Value.members ≠ [] ∧
        ∃ join after, objects.join types = (.ok join, after) ∧
          after.attributes = objects.attributes ∧ objects.FlatlyJoins types join) := by
  have hmem (m : Value) (hm : m ∈ Types.joined objects.equal types) : m.isUnion = false :=
    hflat.flatMap m ((eraseDupsBy_sublist _ _).subset hm)
  by_cases hnone : types.flatMap Value.members = []
  · refine .inl ⟨hnone, ?_⟩
    simp [join, Types.joined, hnone]
  · refine .inr ⟨hnone, ?_⟩
    rcases hkept : Types.joined objects.equal types with _ | ⟨first, _ | ⟨second, rest⟩⟩
    · obtain ⟨m, hm⟩ := List.exists_mem_of_ne_nil _ hnone
      obtain ⟨kept, hmem, -⟩ := exists_kept objects hm
      rw [← Types.joined, hkept] at hmem
      cases hmem
    · have hfirst : first.isUnion = false := hmem first (hkept ▸ List.mem_cons_self)
      have hmembers : first.members = [first] := Value.members_of_not_isUnion hfirst
      refine ⟨first, objects, by simp [join, hkept], rfl, hmembers.trans hkept.symm, ?_⟩
      simp [hfirst, hmembers]
    · refine ⟨.unionType ⟨objects.nextStamp⟩ (first :: second :: rest),
        { objects with nextStamp := objects.nextStamp + 1 }, by simp only [join, hkept, make], rfl,
        hkept.symm, ?_⟩
      simp [Value.isUnion, Value.members]

/-- Joins are the same type when they have the same members, and the very same object when that is
no union. -/
structure SameJoin (objects : Objects) (a b : Value) : Prop where
  members : a.members = b.members
  equal : objects.equal a b = true
  same : b.isUnion = false → a = b

/-- **The members decide about a join**: what has the members of a join, in a union if there are
several, is that join. -/
theorem FlatlyJoins.sameJoin {types types' : List Value} {a b : Value}
    (ha : objects.FlatlyJoins types a) (hb : objects.FlatlyJoins types' b)
    (hmembers : a.members = b.members) : objects.SameJoin a b := by
  have hunion : a.isUnion = b.isUnion := by
    rw [Bool.eq_iff_iff, ha.isUnion_iff, hb.isUnion_iff, hmembers]
  have hsame (hflat : b.isUnion = false) : a = b := by
    have ha' := Value.members_of_not_isUnion (hunion.trans hflat)
    have hb' := Value.members_of_not_isUnion hflat
    rw [ha', hb'] at hmembers
    exact (List.cons.inj hmembers).1
  refine ⟨hmembers, equal_iff.mpr ?_, hsame⟩
  cases hflat : b.isUnion with
  | false => rw [hsame hflat]
  | true =>
    rw [hflat] at hunion
    match a, b with
    | .unionType _ ms, .unionType _ ms' =>
      have hms : ms = ms' := hmembers
      subst hms
      rfl

/-- Equality only looks at the attributes of objects. -/
theorem equal_congr (hsame : objects'.attributes = objects.attributes) :
    objects'.equal = objects.equal := by
  have hfields (ref : RecordRef) : objects'.fields ref = objects.fields ref := by
    refine List.map_congr_left fun name _ => ?_
    simp only [get, attribute?, attributesAt, hsame]
  have hdepth (depth : Nat) : objects'.fieldShapes depth = objects.fieldShapes depth := by
    induction depth with
    | zero => rfl
    | succ depth ih =>
      funext ref
      rw [fieldShapes, fieldShapes, ih, hfields]
  have hshape : objects'.shape = objects.shape := by
    funext v
    rw [shape, shape, lens, lens, hdepth, hsame]
  funext a b
  rw [Bool.eq_iff_iff, equal_iff, equal_iff, hshape]

/-- The members of a join, in some order, are equal to those of another, one for one. -/
def SameMembers (objects : Objects) (a b : Value) : Prop :=
  ∃ ms, ms.Perm a.members ∧ List.Forall₂ (fun m m' => objects.equal m m' = true) ms b.members

/-- **The order does not matter**: of the same members in another order equal ones are kept. -/
theorem FlatlyJoins.sameMembers {types types' : List Value} {a b : Value}
    (ha : objects.FlatlyJoins types a) (hb : objects.FlatlyJoins types' b)
    (hperm : types.Perm types') : a.isUnion = b.isUnion ∧ objects.SameMembers a b := by
  -- the shapes of what is kept are those of all members, each of them once
  have hnodup (ts : List Value) : ((Types.joined objects.equal ts).map objects.shape).Nodup := by
    rw [List.Nodup, List.pairwise_map]
    exact (apart_eraseDupsBy objects _).imp fun h => equal_eq_false_iff.mp h
  have hshapes (ts : List Value) (σ : Shape) :
      σ ∈ (Types.joined objects.equal ts).map objects.shape ↔
        σ ∈ (ts.flatMap Value.members).map objects.shape := by
    constructor
    · intro hσ
      exact ((eraseDupsBy_sublist _ _).map _).subset hσ
    · intro hσ
      obtain ⟨m, hm, rfl⟩ := List.mem_map.mp hσ
      obtain ⟨kept, hkept, hsame⟩ := exists_kept objects hm
      exact List.mem_map.mpr ⟨kept, hkept, hsame⟩
  have hmap : (a.members.map objects.shape).Perm (b.members.map objects.shape) := by
    rw [ha.members, hb.members, List.perm_ext_iff_of_nodup (hnodup types) (hnodup types')]
    intro σ
    rw [hshapes, hshapes]
    exact ((hperm.flatMap_right _).map _).mem_iff
  constructor
  · rw [Bool.eq_iff_iff, ha.isUnion_iff, hb.isUnion_iff]
    have hlength := hmap.length_eq
    rw [List.length_map, List.length_map] at hlength
    rw [hlength]
  · have hself : List.Forall₂ (fun σ m => σ = objects.shape m) (a.members.map objects.shape)
        a.members := by
      rw [List.forall₂_map_left_iff]
      exact List.forall₂_same.mpr fun _ _ => rfl
    obtain ⟨ms, hms, hordered⟩ := List.perm_comp_forall₂ hmap.symm hself
    rw [List.forall₂_map_left_iff] at hms
    exact ⟨ms, hordered, hms.flip.imp fun m m' hsame => equal_iff.mpr hsame.symm⟩

/-- **What is kept decides about a join**: flat types of which the same members are kept have the
same join. -/
theorem join_of_same_kept {types types' : List Value} (hflat' : FlatTypes types')
    (hkept : Types.joined objects.equal types' = Types.joined objects.equal types) {join : Value}
    (hjoin : objects.FlatlyJoins types join) (hsome : types.flatMap Value.members ≠ []) :
    ∃ join', (objects.join types').1 = .ok join' ∧ objects.SameJoin join' join := by
  rcases objects.join_of_flat hflat' with ⟨hnone, -⟩ | ⟨-, join', after, hok, -, hjoin'⟩
  · -- without any member nothing would be kept of either row
    obtain ⟨m, hm⟩ := List.exists_mem_of_ne_nil _ hsome
    obtain ⟨kept, hmem, -⟩ := exists_kept objects hm
    rw [← Types.joined, ← hkept, Types.joined, hnone] at hmem
    cases hmem
  · refine ⟨join', by rw [hok], hjoin'.sameJoin hjoin ?_⟩
    rw [hjoin'.members, hjoin.members, hkept]

/-- What a join that returns has to go on. -/
theorem join_of_flat_of_ok {types : List Value} (hflat : FlatTypes types) {join : Value}
    {after : Objects} (hok : objects.join types = (.ok join, after)) :
    types.flatMap Value.members ≠ [] ∧ after.attributes = objects.attributes ∧
      objects.FlatlyJoins types join := by
  rcases objects.join_of_flat hflat with ⟨-, herr⟩ | ⟨hsome, join', after', hok', hattr, hjoin⟩
  · rw [hok] at herr
    cases herr
  · rw [hok] at hok'
    cases hok'
    exact ⟨hsome, hattr, hjoin⟩

/-- A join of flat types is flat. -/
theorem FlatlyJoins.flat {types : List Value} {join : Value} (hflat : FlatTypes types)
    (hjoin : objects.FlatlyJoins types join) : FlatTypes [join] := by
  intro type htype m hm
  obtain rfl := List.mem_singleton.mp htype
  rw [hjoin.members] at hm
  exact hflat.flatMap m ((eraseDupsBy_sublist _ _).subset hm)

end Objects

/-! ## Joins of joins -/

/-- Types joined in groups: a type, or the join of several groups. -/
inductive Grouping where
  | type (type : Value)
  | join (parts : List Grouping)

namespace Grouping

mutual

/-- The types in a group, from left to right. -/
def types : Grouping → List Value
  | type t => [t]
  | join parts => typesAll parts

/-- The types in several groups. -/
def typesAll : List Grouping → List Value
  | [] => []
  | part :: parts => types part ++ typesAll parts

end

mutual

/-- Works out the type of a group: that of each part, and then their join. -/
def run (objects : Objects) : Grouping → Except Failure Value × Objects
  | type t => (.ok t, objects)
  | join parts =>
    match runAll objects parts with
    | (.error failure, objects) => (.error failure, objects)
    | (.ok types, objects) => objects.join types

/-- Works out the types of several groups, one after the other. -/
def runAll (objects : Objects) : List Grouping → Except Failure (List Value) × Objects
  | [] => (.ok [], objects)
  | part :: parts =>
    match run objects part with
    | (.error failure, objects) => (.error failure, objects)
    | (.ok t, objects) =>
      match runAll objects parts with
      | (.error failure, objects) => (.error failure, objects)
      | (.ok ts, objects) => (.ok (t :: ts), objects)

end

/-- What a group comes to: flat types of which the same members are kept as of all the types in the
group. Working it out changes nothing that equality looks at. -/
structure Keeps (objects : Objects) (types : List Value) (answers : List Value)
    (after : Objects) : Prop where
  attributes : after.attributes = objects.attributes
  flat : Objects.FlatTypes answers
  kept : Types.joined objects.equal answers = Types.joined objects.equal types

/-- What is kept of the answers of a first and of a second group. -/
theorem Keeps.append {objects mid after : Objects} {types types' answers answers' : List Value}
    (hfirst : Keeps objects types answers mid) (hsecond : Keeps mid types' answers' after) :
    Keeps objects (types ++ types') (answers ++ answers') after where
  attributes := hsecond.attributes.trans hfirst.attributes
  flat := hfirst.flat.append hsecond.flat
  kept := by
    have hkept' := hsecond.kept
    rw [Objects.equal_congr hfirst.attributes] at hkept'
    rw [Types.joined, Types.joined, List.flatMap_append, List.flatMap_append]
    exact Objects.eraseDupsBy_append_congr hfirst.kept hkept'

mutual

theorem keeps_run {objects after : Objects} {t : Value} : (group : Grouping) →
    Objects.FlatTypes group.types → group.run objects = (.ok t, after) →
    Keeps objects group.types [t] after
  | type t', hflat, hrun => by
    rw [run] at hrun
    cases hrun
    exact ⟨rfl, hflat, rfl⟩
  | join parts, hflat, hrun => by
    rw [run] at hrun
    split at hrun
    · cases hrun
    · rename_i ts mid hparts
      have hkeeps : Keeps objects (typesAll parts) ts mid := keeps_runAll parts hflat hparts
      obtain ⟨-, hattr, hjoin⟩ := Objects.join_of_flat_of_ok hkeeps.flat hrun
      refine ⟨hattr.trans hkeeps.attributes, hjoin.flat hkeeps.flat, ?_⟩
      -- the join has kept what is kept of the parts, and nothing more is dropped of that
      have hmembers := hjoin.members
      rw [Objects.equal_congr hkeeps.attributes, hkeeps.kept] at hmembers
      rw [Types.joined, List.flatMap_singleton, hmembers, Types.joined,
        Objects.eraseDupsBy_eraseDupsBy, types, Types.joined]

theorem keeps_runAll {objects after : Objects} {ts : List Value} : (groups : List Grouping) →
    Objects.FlatTypes (typesAll groups) → runAll objects groups = (.ok ts, after) →
    Keeps objects (typesAll groups) ts after
  | [], hflat, hrun => by
    rw [runAll] at hrun
    cases hrun
    exact ⟨rfl, hflat, rfl⟩
  | part :: parts, hflat, hrun => by
    rw [runAll] at hrun
    split at hrun
    · cases hrun
    · rename_i t mid hpart
      split at hrun
      · cases hrun
      · rename_i ts' after' hparts
        cases hrun
        have hflat' : Objects.FlatTypes part.types ∧ Objects.FlatTypes (typesAll parts) := by
          rw [typesAll] at hflat
          exact ⟨fun u hu => hflat u (List.mem_append_left _ hu),
            fun u hu => hflat u (List.mem_append_right _ hu)⟩
        exact (keeps_run part hflat'.1 hpart).append (keeps_runAll parts hflat'.2 hparts)

end

end Grouping

namespace Objects

/-- **Joins are associative and idempotent, and do not depend on the order.** For flat types that
have a join: the join of two joins is the join of all the types, with the same members in the same
order; the join of a join alone is that join; the types in another order have a join too, with
the same members up to the order; and the types grouped in any way, each group joined before, still
have that join. A join that is no union is the very same object each time. -/
theorem join_laws (objects : Objects) {xs ys : List Value} (hxs : FlatTypes xs)
    (hys : FlatTypes ys) {x y : Value} {first second : Objects}
    (hx : objects.join xs = (.ok x, first)) (hy : first.join ys = (.ok y, second)) :
    (∃ whole grouped, (second.join (xs ++ ys)).1 = .ok whole ∧
      (second.join [x, y]).1 = .ok grouped ∧ second.SameJoin grouped whole) ∧
    (∃ again, (second.join [x]).1 = .ok again ∧ second.SameJoin again x) ∧
    (∀ zs, zs.Perm xs → ∃ z, (second.join zs).1 = .ok z ∧ z.isUnion = x.isUnion ∧
      second.SameMembers z x) ∧
    ∀ groups types third, Grouping.typesAll groups = xs →
      Grouping.runAll second groups = (.ok types, third) →
      ∃ grouped, (third.join types).1 = .ok grouped ∧ third.SameJoin grouped x := by
  obtain ⟨hsomex, hattrx, hjoinx⟩ := join_of_flat_of_ok hxs hx
  obtain ⟨hsomey, hattry, hjoiny⟩ := join_of_flat_of_ok hys hy
  -- types are equal at the end when they were at the start
  have hequal : second.equal = objects.equal := equal_congr (hattry.trans hattrx)
  have hjoinx' : second.FlatlyJoins xs x := ⟨by rw [hequal, hjoinx.members], hjoinx.isUnion_iff⟩
  have hjoiny' : second.FlatlyJoins ys y :=
    ⟨by rw [equal_congr hattry, hjoiny.members], hjoiny.isUnion_iff⟩
  have hkept {ts : List Value} {t : Value} (hjoin : second.FlatlyJoins ts t) :
      t.members.eraseDupsBy second.equal =
        (ts.flatMap Value.members).eraseDupsBy second.equal := by
    rw [hjoin.members, Types.joined, eraseDupsBy_eraseDupsBy]
  refine ⟨?_, ?_, ?_, ?_⟩
  · have hflat : FlatTypes (xs ++ ys) := hxs.append hys
    have hpair : FlatTypes ([x] ++ [y]) := (hjoinx'.flat hxs).append (hjoiny'.flat hys)
    have hsome : (xs ++ ys).flatMap Value.members ≠ [] := by
      rw [List.flatMap_append]
      exact fun hnil => hsomex (List.append_eq_nil_iff.mp hnil).1
    rcases second.join_of_flat hflat with ⟨hnone, -⟩ | ⟨-, whole, after, hwhole, -, hjoin⟩
    · exact absurd hnone hsome
    · have hsame : Types.joined second.equal [x, y] = Types.joined second.equal (xs ++ ys) := by
        rw [Types.joined, Types.joined, List.flatMap_append, List.flatMap_cons,
          List.flatMap_singleton]
        exact eraseDupsBy_append_congr (hkept hjoinx') (hkept hjoiny')
      obtain ⟨grouped, hgrouped, hsame⟩ := join_of_same_kept hpair hsame hjoin hsome
      exact ⟨whole, grouped, by rw [hwhole], hgrouped, hsame⟩
  · have hsame : Types.joined second.equal [x] = Types.joined second.equal xs := by
      rw [Types.joined, Types.joined, List.flatMap_singleton]
      exact hkept hjoinx'
    exact join_of_same_kept (hjoinx'.flat hxs) hsame hjoinx' hsomex
  · intro zs hperm
    have hflat : FlatTypes zs := fun t ht => hxs t (hperm.mem_iff.mp ht)
    rcases second.join_of_flat hflat with ⟨hnone, -⟩ | ⟨-, z, after, hz, -, hjoinz⟩
    · have hmembers := hperm.flatMap_right Value.members
      rw [hnone] at hmembers
      exact absurd hmembers.nil_eq.symm hsomex
    · exact ⟨z, by rw [hz], hjoinz.sameMembers hjoinx' hperm⟩
  · intro groups types third htypes hrun
    subst htypes
    have hkeeps := Grouping.keeps_runAll groups hxs hrun
    have hequal' : third.equal = second.equal := equal_congr hkeeps.attributes
    have hjoin : third.FlatlyJoins (Grouping.typesAll groups) x :=
      ⟨by rw [hequal', hjoinx'.members], hjoinx'.isUnion_iff⟩
    exact join_of_same_kept hkeeps.flat (by rw [hequal', hkeeps.kept]) hjoin hsomex

/-- The branches of a case: a box of true and nothing, or a box of one and anything. -/
def branchTypes : List Value × List Value :=
  ([.instanceType ⟨1⟩ "Box" [.bool true], .nilType ⟨2⟩],
    [.unionType ⟨3⟩ [.instanceType ⟨4⟩ "Box" [.int ⟨5⟩ 1], .anyType ⟨6⟩], .nilType ⟨7⟩])

/-- Equal boxes count as one, and the first is kept, however the types are grouped. -/
theorem join_branchTypes :
    let box := Value.instanceType ⟨1⟩ "Box" [.bool true]
    let objects : Objects := { nextStamp := 8 }
    ∃ x y first second, objects.join branchTypes.1 = (.ok x, first) ∧
      first.join branchTypes.2 = (.ok y, second) ∧
      x.members = [box, .nilType ⟨2⟩] ∧ y.members.length = 3 ∧
      (∃ grouped, (second.join [x, y]).1 = .ok grouped ∧
        grouped.members = [box, .nilType ⟨2⟩, .anyType ⟨6⟩]) ∧
      (∃ again, (second.join [x]).1 = .ok again ∧ second.equal again x = true) ∧
      (∃ z, (second.join branchTypes.1.reverse).1 = .ok z ∧ second.SameMembers z x) ∧
      ∃ grouped, (second.join [box, .nilType ⟨2⟩]).1 = .ok grouped ∧
        second.SameJoin grouped x := by
  intro box objects
  have hflat : FlatTypes branchTypes.1 ∧ FlatTypes branchTypes.2 := by
    unfold FlatTypes
    decide +kernel
  obtain ⟨⟨whole, grouped, hwhole, hgrouped, hsame⟩, ⟨again, hagain, hsame'⟩, hperm, hgroups⟩ :=
    objects.join_laws hflat.1 hflat.2 rfl rfl
  obtain ⟨z, hz, -, hmembers⟩ := hperm branchTypes.1.reverse (List.reverse_perm _)
  obtain ⟨grouped', hgrouped', hsame''⟩ :=
    hgroups [.type box, .join [.type (.nilType ⟨2⟩)]] _ _ rfl rfl
  refine ⟨_, _, _, _, rfl, rfl, rfl, rfl, ⟨grouped, hgrouped, ?_⟩, ⟨again, hagain, hsame'.equal⟩,
    ⟨z, hz, hmembers⟩, grouped', hgrouped', hsame''⟩
  rw [hsame.members]
  cases hwhole
  rfl

end Objects

end TypingStore

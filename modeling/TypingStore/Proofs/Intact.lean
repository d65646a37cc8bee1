import TypingStore.Proofs.Deeds
import TypingStore.Proofs.Isolation

/-!
# What stays as it was

Nothing that an engine does takes an object away, or the type of a class that was asked for before
(`Store.grown_carryOut`). An engine that keeps away from the contexts and the objects of a store, as
one does that comes later and goes by what it is handed, **leaves that store intact**
(`Store.IntactIn.carryOut`). It may add to the types of classes, which are everybody's: what it adds
is new.

* `Objects.WellNamed`: the types of classes as they are kept.
* `Objects.Grown`, `Store.IntactIn`: what was there is there, as it was.
* `Action.AwayFrom`: an operation that keeps away from what is in a store.
-/

namespace TypingStore

/-! ## The types of classes -/

namespace Objects

variable {objects objects' objects'' : Objects}

/-- The type that is kept for a class has its name, and a stamp that was given out to it alone. -/
structure WellNamed (objects : Objects) : Prop where
  named : ∀ name type, objects.canonical.lookup name = some type →
    ∃ n < objects.nextStamp, type = .instanceType ⟨n⟩ name []
  apart : ∀ name other n, objects.canonical.lookup name = some (.instanceType ⟨n⟩ name []) →
    objects.canonical.lookup other = some (.instanceType ⟨n⟩ other []) → name = other

/-- There are no fewer objects, stamps and types of classes; and a type that was asked for later has
a later stamp. -/
structure Grown (objects objects' : Objects) : Prop where
  size : objects.attributes.size ≤ objects'.attributes.size
  nextStamp : objects.nextStamp ≤ objects'.nextStamp
  kept : ∀ name type, objects.canonical.lookup name = some type →
    objects'.canonical.lookup name = some type
  later : ∀ name n, objects.canonical.lookup name = none →
    objects'.canonical.lookup name = some (.instanceType ⟨n⟩ name []) → objects.nextStamp ≤ n

/-- Objects whose types of classes are the same as before. -/
theorem grown_of_canonical_eq (hsize : objects.attributes.size ≤ objects'.attributes.size)
    (hstamps : objects.nextStamp ≤ objects'.nextStamp)
    (htypes : objects'.canonical = objects.canonical) : objects.Grown objects' where
  size := hsize
  nextStamp := hstamps
  kept name type htype := by rwa [htypes]
  later name n hnone hsome := by
    rw [htypes, hnone] at hsome
    cases hsome

theorem Grown.refl (objects : Objects) : objects.Grown objects :=
  grown_of_canonical_eq (Nat.le_refl _) (Nat.le_refl _) rfl

theorem Grown.trans (h : objects.Grown objects') (h' : objects'.Grown objects'') :
    objects.Grown objects'' where
  size := Nat.le_trans h.size h'.size
  nextStamp := Nat.le_trans h.nextStamp h'.nextStamp
  kept name type htype := h'.kept name type (h.kept name type htype)
  later name n hnone hsome := by
    cases hbetween : objects'.canonical.lookup name with
    | none => exact Nat.le_trans h.nextStamp (h'.later name n hbetween hsome)
    | some type =>
      -- what was kept in between is what is kept now
      rw [h'.kept name type hbetween] at hsome
      exact h.later name n hnone (hbetween.trans hsome)

theorem WellNamed.of_canonical_eq (h : objects.WellNamed)
    (hstamps : objects.nextStamp ≤ objects'.nextStamp)
    (htypes : objects'.canonical = objects.canonical) : objects'.WellNamed where
  named name type htype := by
    rw [htypes] at htype
    obtain ⟨n, hn, rfl⟩ := h.named name type htype
    exact ⟨n, Nat.lt_of_lt_of_le hn hstamps, rfl⟩
  apart name other n hname hother := by
    rw [htypes] at hname hother
    exact h.apart name other n hname hother

/-! ### Asking for the type of a class -/

/-- **A type that was asked for before is handed out again.** -/
theorem instanceOf_of_some {name : String} {type : Value}
    (h : objects.canonical.lookup name = some type) :
    objects.instanceOf name = (type, objects) := by
  simp only [instanceOf, h]

/-- A type that nobody has asked for is made, and kept. -/
theorem instanceOf_of_none {name : String} (h : objects.canonical.lookup name = none) :
    objects.instanceOf name =
      (.instanceType ⟨objects.nextStamp⟩ name [],
        { objects with
          canonical :=
            (name, .instanceType ⟨objects.nextStamp⟩ name []) :: objects.canonical
          nextStamp := objects.nextStamp + 1 }) := by
  simp only [instanceOf, h, make]

/-- What is found once one more was put in front. -/
theorem lookup_cons_if (name other : String) (type : Value) (types : List (String × Value)) :
    ((name, type) :: types).lookup other =
      if other = name then some type else types.lookup other := by
  by_cases h : other = name
  · rw [h, List.lookup_cons_self, if_pos rfl]
  · rw [List.lookup_cons, beq_false_of_ne h, if_neg h]

theorem grown_instanceOf (objects : Objects) (name : String) :
    objects.Grown (objects.instanceOf name).2 := by
  cases h : objects.canonical.lookup name with
  | some type =>
    rw [instanceOf_of_some h]
    exact .refl objects
  | none =>
    rw [instanceOf_of_none h]
    refine ⟨Nat.le_refl _, Nat.le_succ _, fun other type htype => ?_, fun other n hnone hsome => ?_⟩
    · have hne : other ≠ name := by
        rintro rfl
        rw [h] at htype
        cases htype
      rw [lookup_cons_if, if_neg hne, htype]
    · rw [lookup_cons_if] at hsome
      split at hsome
      · cases hsome
        exact Nat.le_refl _
      · rw [hnone] at hsome
        cases hsome

/-- No type has a stamp that is still to be given out. -/
theorem WellNamed.ne_next (h : objects.WellNamed) (name : String) :
    objects.canonical.lookup name ≠ some (.instanceType ⟨objects.nextStamp⟩ name []) := by
  intro hsome
  obtain ⟨n, hn, heq⟩ := h.named name _ hsome
  cases heq
  exact Nat.lt_irrefl _ hn

theorem WellNamed.instanceOf (h : objects.WellNamed) (name : String) :
    (objects.instanceOf name).2.WellNamed := by
  cases hlookup : objects.canonical.lookup name with
  | some type =>
    rw [instanceOf_of_some hlookup]
    exact h
  | none =>
    rw [instanceOf_of_none hlookup]
    refine ⟨fun other type htype => ?_, fun first second n hfirst hsecond => ?_⟩
    · rw [lookup_cons_if] at htype
      split at htype
      · rename_i hsame
        cases htype
        exact ⟨objects.nextStamp, Nat.lt_succ_self _, by rw [hsame]⟩
      · obtain ⟨n, hn, rfl⟩ := h.named other type htype
        exact ⟨n, Nat.lt_succ_of_lt hn, rfl⟩
    · -- the new stamp is that of no other type
      rw [lookup_cons_if] at hfirst hsecond
      split at hfirst
      · split at hsecond
        · rename_i hfirstName hsecondName
          rw [hfirstName, hsecondName]
        · cases hfirst
          exact absurd hsecond (h.ne_next second)
      · split at hsecond
        · cases hsecond
          exact absurd hfirst (h.ne_next first)
        · exact h.apart first second n hfirst hsecond

end Objects

/-! ## Deeds -/

namespace Store

variable {s s' host : Store} {d : Deed}

/-- **What a deed does besides an operation**: it leaves the contexts and the attributes of all
objects alone. -/
theorem carryOut_rest (hd : ∀ a, d ≠ .act a) :
    (s.carryOut d).2.contexts = s.contexts ∧
      (s.carryOut d).2.objects.attributes = s.objects.attributes := by
  cases d with
  | act a => exact absurd rfl (hd a)
  | instanceOf name =>
    refine ⟨rfl, ?_⟩
    simp only [carryOut, withObjects, Objects.instanceOf]
    split <;> rfl
  | join types =>
    refine ⟨rfl, ?_⟩
    simp only [carryOut, withObjects, Objects.join]
    split <;> rfl
  | _ => exact ⟨rfl, rfl⟩

/-- No deed but one asks for the type of a class. -/
theorem canonical_carryOut (hd : ∀ name, d ≠ .instanceOf name) :
    (s.carryOut d).2.objects.canonical = s.objects.canonical := by
  cases d with
  | act a =>
    have hstep := s.perform_objects a
    simp only [carryOut]
    generalize (s.perform a).2.objects = objects' at hstep
    cases hstep <;> rfl
  | instanceOf name => exact absurd rfl (hd name)
  | join types =>
    simp only [carryOut, withObjects, Objects.join]
    split <;> rfl
  | _ => rfl

/-- Objects and stamps are never taken back. -/
theorem size_carryOut (s : Store) (d : Deed) :
    s.objects.attributes.size ≤ (s.carryOut d).2.objects.attributes.size ∧
      s.objects.nextStamp ≤ (s.carryOut d).2.objects.nextStamp := by
  cases d with
  | act a =>
    have hstep := s.perform_objects a
    simp only [carryOut]
    generalize (s.perform a).2.objects = objects' at hstep
    cases hstep with
    | same => exact ⟨Nat.le_refl _, Nat.le_refl _⟩
    | made numbers attributes =>
      refine ⟨?_, Nat.le_add_right _ _⟩
      rw [Objects.size_add]
      exact Nat.le_succ _
    | changed target field new heq index hindex w =>
      exact ⟨Nat.le_of_eq (Objects.size_set ..).symm, Nat.le_refl _⟩
  | make v => exact ⟨Nat.le_refl _, Nat.le_succ _⟩
  | instanceOf name =>
    have hgrown := s.objects.grown_instanceOf name
    exact ⟨hgrown.size, hgrown.nextStamp⟩
  | join types =>
    simp only [carryOut, withObjects, Objects.join]
    split
    · exact ⟨Nat.le_refl _, Nat.le_refl _⟩
    · exact ⟨Nat.le_refl _, Nat.le_refl _⟩
    · exact ⟨Nat.le_refl _, Nat.le_succ _⟩
  | _ => exact ⟨Nat.le_refl _, Nat.le_refl _⟩

/-- **No deed takes away objects, stamps or types of classes.** -/
theorem grown_carryOut (s : Store) (d : Deed) : s.objects.Grown (s.carryOut d).2.objects := by
  obtain ⟨hsize, hstamps⟩ := s.size_carryOut d
  cases d with
  | instanceOf name => exact s.objects.grown_instanceOf name
  | _ => exact Objects.grown_of_canonical_eq hsize hstamps (canonical_carryOut nofun)

theorem wellNamed_carryOut (h : s.objects.WellNamed) (d : Deed) :
    (s.carryOut d).2.objects.WellNamed := by
  obtain ⟨-, hstamps⟩ := s.size_carryOut d
  cases d with
  | instanceOf name => exact h.instanceOf name
  | _ => exact h.of_canonical_eq hstamps (canonical_carryOut nofun)

theorem ordered_carryOut (hs : s.Ordered) (ha : ∀ a, d = .act a → s.Admits a) :
    (s.carryOut d).2.Ordered := by
  by_cases hd : ∃ a, d = .act a
  · obtain ⟨a, rfl⟩ := hd
    exact (perform_change hs (ha a rfl)).ordered hs
  · obtain ⟨hcontexts, -⟩ := carryOut_rest (s := s) fun a ha => hd ⟨a, ha⟩
    intro c p hp
    rw [context_congr hcontexts] at hp
    exact hs c p hp

/-- A context that is there stays. -/
theorem has_carryOut (hs : s.Ordered) (ha : ∀ a, d = .act a → s.Admits a) {c : ContextId}
    (hc : s.Has c) : (s.carryOut d).2.Has c := by
  by_cases hd : ∃ a, d = .act a
  · obtain ⟨a, rfl⟩ := hd
    exact ((perform_change hs (ha a rfl)).made c).2 (.inl hc)
  · obtain ⟨hcontexts, -⟩ := carryOut_rest (s := s) fun a ha => hd ⟨a, ha⟩
    exact (has_congr hcontexts c).2 hc

end Store

/-- A context stays, whatever an engine that keeps to itself does. -/
theorem Work.Keeps.has {known : Objects} {work : Work} {s : Store} (h : work.Keeps known s)
    (hs : s.Ordered) {c : ContextId} (hc : s.Has c) : (work.run s).2.Has c := by
  induction work generalizing s with
  | done result => exact hc
  | deed d next ih =>
    obtain ⟨hown, hrest⟩ := h
    have hadmits : ∀ a, d = .act a → s.Admits a := by
      rintro a rfl
      exact hown.admits
    exact ih _ hrest (Store.ordered_carryOut hs hadmits) (Store.has_carryOut hs hadmits hc)

namespace Store

variable {s s' host : Store}

/-! ## What is left intact -/

/-- What was in `s` is in `s'` as it was. -/
structure IntactIn (s s' : Store) : Prop where
  has : ∀ c, s.Has c → s'.Has c
  context : ∀ c, s.Has c → s'.context c = s.context c
  grown : s.objects.Grown s'.objects
  attributesAt : ∀ i < s.objects.attributes.size,
    s'.objects.attributesAt i = s.objects.attributesAt i

namespace IntactIn

theorem refl (s : Store) : s.IntactIn s :=
  ⟨fun _ hc => hc, fun _ _ => rfl, .refl _, fun _ _ => rfl⟩

theorem trans (h : host.IntactIn s) (h' : s.IntactIn s') : host.IntactIn s' where
  has c hc := h'.has c (h.has c hc)
  context c hc := (h'.context c (h.has c hc)).trans (h.context c hc)
  grown := h.grown.trans h'.grown
  attributesAt i hi :=
    (h'.attributesAt i (Nat.lt_of_lt_of_le hi h.grown.size)).trans (h.attributesAt i hi)

end IntactIn

end Store

/-- An operation keeps away from what is in `host`: it is about no context of it, hands nothing over
to one, and changes no object of it. -/
structure Action.AwayFrom (host s : Store) (a : Action) : Prop where
  about : ∀ c ∈ a.context?, ¬ host.Has c
  handedOver : ∀ c p, a = .commit c → (s.context c).parent = some p → ¬ host.Has p
  changed : ∀ target field new, a = .assign target field new →
    ∀ i ∈ target.index?, host.objects.attributes.size ≤ i

namespace Action

variable {a : Action} {c : ContextId}

theorem PutsInto.context? (h : a.PutsInto c) : a.context? = some c := by
  cases a with
  | recordType d node type | recordVariable d name type | addError d error => exact congrArg some h
  | _ => exact h.elim

theorem MakesChildOf.context? (h : a.MakesChildOf c) : a.context? = some c := by
  cases a with
  | createChild p settings summarizer | spawn p => exact congrArg some h
  | _ => exact h.elim

end Action

namespace Objects

theorem attributesAt_set_of_ne (objects : Objects) {index i : Nat} (h : i ≠ index) (field : String)
    (new : Value) : (objects.set index field new).attributesAt i = objects.attributesAt i := by
  simp only [attributesAt, set, Array.getD_eq_getD_getElem?, Array.getElem?_modify, Ne.symm h,
    if_false]

end Objects

namespace Store.IntactIn

variable {host s : Store} (h : host.IntactIn s)
include h

/-- An operation that keeps away from a store leaves its contexts and its objects intact. -/
theorem perform (hs : s.Ordered) {a : Action} (ha : s.Admits a) (haway : a.AwayFrom host s) :
    host.IntactIn (s.perform a).2 := by
  have hchange := perform_change hs ha
  refine ⟨fun c hc => (hchange.made c).2 (.inl (h.has c hc)), fun c hc => ?_,
    h.grown.trans (s.grown_carryOut (.act a)), fun i hi => ?_⟩
  · have hself : a.context? ≠ some c := fun heq => haway.about c heq hc
    have hcommit : ¬ s.CommitsInto c a := by
      rintro ⟨d, rfl, -, hparent⟩
      exact haway.handedOver d c rfl hparent hc
    have hsame := (context_perform hs ha (h.has c hc)).1 (fun hput => hself hput.context?) hcommit
      fun hchild => hself hchild.context?
    rw [hsame, h.context c hc]
  · have hi' : i < s.objects.attributes.size := Nat.lt_of_lt_of_le hi h.grown.size
    have hsame : (s.perform a).2.objects.attributesAt i = s.objects.attributesAt i := by
      have hstep := s.perform_objects a
      generalize (s.perform a).2.objects = objects' at hstep
      cases hstep with
      | same => rfl
      | made numbers attributes => exact (Objects.added_add _ attributes).attributesAt i hi'
      | changed target field new heq index hindex w =>
        have hle := haway.changed target field new heq index hindex
        exact s.objects.attributesAt_set_of_ne (by omega) field w
    rw [hsame, h.attributesAt i hi]

/-- **A deed that keeps away from a store leaves it intact.** -/
theorem carryOut (hs : s.Ordered) {d : Deed}
    (hd : ∀ a, d = .act a → s.Admits a ∧ a.AwayFrom host s) : host.IntactIn (s.carryOut d).2 := by
  by_cases hact : ∃ a, d = .act a
  · obtain ⟨a, rfl⟩ := hact
    exact h.perform hs (hd a rfl).1 (hd a rfl).2
  · obtain ⟨hcontexts, hattributes⟩ := carryOut_rest (s := s) fun a ha => hact ⟨a, ha⟩
    refine ⟨fun c hc => (has_congr hcontexts c).2 (h.has c hc), fun c hc => ?_,
      h.grown.trans (s.grown_carryOut _), fun i hi => ?_⟩
    · rw [context_congr hcontexts, h.context c hc]
    · rw [← h.attributesAt i hi]
      simp only [Objects.attributesAt, hattributes]

/-- Changing an object that came later leaves a store intact. -/
theorem set {index : Nat} (hindex : host.objects.attributes.size ≤ index) (field : String)
    (new : Value) : host.IntactIn (s.withObjects (s.objects.set index field new)) where
  has := h.has
  context := h.context
  grown := by
    have hsize := s.objects.size_set index field new
    exact h.grown.trans
      (Objects.grown_of_canonical_eq (Nat.le_of_eq hsize.symm) (Nat.le_refl _) rfl)
  attributesAt i hi := by
    have hne : i ≠ index := by omega
    exact (s.objects.attributesAt_set_of_ne hne field new).trans (h.attributesAt i hi)

end Store.IntactIn

end TypingStore

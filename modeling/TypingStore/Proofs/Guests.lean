import TypingStore.Proofs.Intact

/-!
# Engines as guests

In a store that others have used, the engine of a unit that keeps to itself is a guest. **It does
there what it does alone, under other ids, and what was there before stays as it was**
(`Store.AtWork.run`).

Which ids these are comes out as the engine goes along. What is made for it comes after all that is
taken. But for a class that somebody has asked about before, it is handed the type that is kept,
under a stamp that is taken (`Store.AtWork.instanceOf`): only then is it known which id the guest's
own type has. So until a stamp is given out, any id will do for it (`Renaming.Continues`), and what
a guest holds and mentions is the same for all of them (`Store.AtWork`).

* `Renaming.past`: the ids of a guest that arrives, after those that are taken.
* `Renaming.meet`: the ids of a guest that meets a type which is there already.
* `Objects.SharesTypes`: the types of classes, which a guest has in common with its host.
* `Store.Hosted`, `Store.AtWork`: a guest in its host, at one moment, and while it is at work.
-/

namespace TypingStore

/-! ## The ids of a guest -/

namespace Renaming

variable {ρ ρ' ρ'' : Renaming} {m n k : Nat}

/-- What comes from `k` on makes room for `d` others. -/
def lift (k d i : Nat) : Nat := if i < k then i else i + d

theorem lift_of_lt {k i : Nat} (h : i < k) (d : Nat) : lift k d i = i := if_pos h

theorem lift_inj {k d i j : Nat} (h : lift k d i = lift k d j) : i = j := by
  unfold lift at h
  split at h <;> split at h <;> omega

/-- The ids of a guest that finds `base` contexts and these objects. What is known to everybody
keeps its id, and nothing has the stamp zero. -/
def past (known objects : Objects) (base : Nat) : Renaming where
  context i := base + i
  object := lift known.attributes.size (objects.attributes.size - known.attributes.size)
  stamp := lift (max 1 known.nextStamp) (objects.nextStamp - known.nextStamp)
  stamp_zero := lift_of_lt (by omega) _

theorem oneToOne_past (known objects : Objects) (base : Nat) :
    (past known objects base).OneToOne where
  context := Nat.add_left_cancel
  object := lift_inj
  stamp := lift_inj

/-- What is known to everybody keeps its id. -/
structure Fixes (ρ : Renaming) (known : Objects) : Prop where
  object : ∀ i < known.attributes.size, ρ.object i = i
  stamp : ∀ n < known.nextStamp, ρ.stamp n = n

theorem fixes_past (known objects : Objects) (base : Nat) :
    (past known objects base).Fixes known where
  object _ hi := lift_of_lt hi _
  stamp _ hn := lift_of_lt (by omega) _

/-- What is not known to everybody gets an id that is not taken in `host`. -/
structure Apart (ρ : Renaming) (known : Objects) (host : Store) : Prop where
  context : ∀ i, host.contexts.size ≤ ρ.context i
  object : ∀ i, known.attributes.size ≤ i → host.objects.attributes.size ≤ ρ.object i

/-- Another choice of ids for the stamps from `n` on, and the same for everything else. -/
structure Continues (ρ' ρ : Renaming) (n : Nat) : Prop where
  oneToOne : ρ'.OneToOne
  context : ρ'.context = ρ.context
  object : ρ'.object = ρ.object
  stamp : ∀ k < n, ρ'.stamp k = ρ.stamp k

namespace Continues

theorem refl (h : ρ.OneToOne) (n : Nat) : ρ.Continues ρ n := ⟨h, rfl, rfl, fun _ _ => rfl⟩

theorem mono (h : ρ'.Continues ρ n) (hmn : m ≤ n) : ρ'.Continues ρ m :=
  ⟨h.oneToOne, h.context, h.object, fun k hk => h.stamp k (Nat.lt_of_lt_of_le hk hmn)⟩

theorem trans (h : ρ''.Continues ρ' n) (h' : ρ'.Continues ρ m) (hmn : m ≤ n) :
    ρ''.Continues ρ m where
  oneToOne := h.oneToOne
  context := h.context.trans h'.context
  object := h.object.trans h'.object
  stamp k hk := (h.stamp k (Nat.lt_of_lt_of_le hk hmn)).trans (h'.stamp k hk)

theorem fixes {known : Objects} (h : ρ'.Continues ρ n) (hn : known.nextStamp ≤ n)
    (hρ : ρ.Fixes known) : ρ'.Fixes known where
  object i hi := by rw [h.object, hρ.object i hi]
  stamp k hk := by rw [h.stamp k (Nat.lt_of_lt_of_le hk hn), hρ.stamp k hk]

theorem apart {known : Objects} {host : Store} (h : ρ'.Continues ρ n) (hρ : ρ.Apart known host) :
    ρ'.Apart known host where
  context i := by
    rw [h.context]
    exact hρ.context i
  object i hi := by
    rw [h.object]
    exact hρ.object i hi

end Continues

/-- The stamp `k` is given to what has the stamp `m` already; the later ones move up. -/
def meet (ρ : Renaming) (k m : Nat) (hk : 0 < k) : Renaming where
  context := ρ.context
  object := ρ.object
  stamp n := if n < k then ρ.stamp n else if n = k then m else ρ.stamp (n - 1)
  stamp_zero := by rw [if_pos hk, ρ.stamp_zero]

theorem meet_self (hk : 0 < k) : (ρ.meet k m hk).stamp k = m := by
  simp only [meet, Nat.lt_irrefl, if_false, if_true]

theorem meet_of_ne (hk : 0 < k) (hn : n ≠ k) :
    (ρ.meet k m hk).stamp n = ρ.stamp (if n < k then n else n - 1) := by
  simp only [meet, hn, if_false]
  split <;> rfl

/-- **Meeting what no other stamp is given to keeps things apart.** -/
theorem continues_meet (hρ : ρ.OneToOne) (hk : 0 < k) (hm : ∀ n, ρ.stamp n ≠ m) :
    (ρ.meet k m hk).Continues ρ k where
  oneToOne := by
    refine ⟨hρ.context, hρ.object, fun {i j} h => ?_⟩
    by_cases hi : i = k
    · by_cases hj : j = k
      · rw [hi, hj]
      · rw [hi, meet_self, meet_of_ne hk hj] at h
        exact absurd h.symm (hm _)
    · by_cases hj : j = k
      · rw [hj, meet_self, meet_of_ne hk hi] at h
        exact absurd h (hm _)
      · rw [meet_of_ne hk hi, meet_of_ne hk hj] at h
        have hsame := hρ.stamp h
        split at hsame <;> split at hsame <;> omega
  context := rfl
  object := rfl
  stamp n hn := if_pos hn

end Renaming

/-! ## The types of classes -/

namespace Objects

/-- The types of classes that have been asked for here are kept there as well. The other types that
are kept there have nothing to do with what is here. -/
structure SharesTypes (ρ : Renaming) (objects objects' : Objects) : Prop where
  /-- The stamps that have been given out here have been given out there. -/
  made : ∀ n < objects.nextStamp, ρ.stamp n < objects'.nextStamp
  kept : ∀ name type, objects.canonical.lookup name = some type →
    objects'.canonical.lookup name = some (type.rename ρ)
  strange : ∀ name n, objects.canonical.lookup name = none →
    objects'.canonical.lookup name = some (.instanceType ⟨n⟩ name []) →
      ∀ k < objects.nextStamp, ρ.stamp k ≠ n

namespace SharesTypes

variable {ρ : Renaming} {objects objects' after after' : Objects}
  (h : objects.SharesTypes ρ objects')
include h

/-- What the others do later makes no difference. -/
theorem of_grown (hgrown : objects'.Grown after') : objects.SharesTypes ρ after' where
  made n hn := Nat.lt_of_lt_of_le (h.made n hn) hgrown.nextStamp
  kept name type htype := hgrown.kept name _ (h.kept name type htype)
  strange name n hnone hsome k hk := by
    cases hbefore : objects'.canonical.lookup name with
    | none =>
      -- the type is new, so its stamp comes after all that were given out
      have hle := hgrown.later name n hbefore hsome
      have hlt := h.made k hk
      omega
    | some type =>
      rw [hgrown.kept name type hbefore] at hsome
      exact h.strange name n hnone (hbefore.trans hsome) k hk

/-- Stamps are given out in both, in step, to other things than types of classes. -/
theorem advance (hnamed : objects'.WellNamed) {count : Nat}
    (hstamps : after.nextStamp = objects.nextStamp + count)
    (hstamps' : after'.nextStamp = objects'.nextStamp + count)
    (hnew : ∀ n < count, ρ.stamp (objects.nextStamp + n) = objects'.nextStamp + n)
    (htypes : after.canonical = objects.canonical)
    (htypes' : after'.canonical = objects'.canonical) : after.SharesTypes ρ after' := by
  have hsplit : ∀ k < after.nextStamp, k < objects.nextStamp ∨
      ∃ n < count, k = objects.nextStamp + n ∧ ρ.stamp k = objects'.nextStamp + n := by
    intro k hk
    by_cases hlt : k < objects.nextStamp
    · exact .inl hlt
    · have heq : objects.nextStamp + (k - objects.nextStamp) = k := by omega
      have hstep := hnew (k - objects.nextStamp) (by omega)
      rw [heq] at hstep
      exact .inr ⟨k - objects.nextStamp, by omega, heq.symm, hstep⟩
  refine ⟨fun k hk => ?_, fun name type htype => ?_, fun name n hnone hsome k hk => ?_⟩
  · rcases hsplit k hk with hlt | ⟨n, hn, -, hstep⟩
    · have hmade := h.made k hlt
      omega
    · omega
  · rw [htypes] at htype
    rw [htypes', h.kept name type htype]
  · rw [htypes] at hnone
    rw [htypes'] at hsome
    rcases hsplit k hk with hlt | ⟨j, -, -, hstep⟩
    · exact h.strange name n hnone hsome k hlt
    · obtain ⟨n', hn', heq⟩ := hnamed.named name _ hsome
      cases heq
      omega

/-- **A type is handed to both**: made there too, or kept there before. -/
theorem cons {name : String} {n : Nat} (hnamed' : after'.WellNamed)
    (hnew : ρ.stamp objects.nextStamp = n) (hn : n < after'.nextStamp)
    (hle : objects'.nextStamp ≤ after'.nextStamp)
    (hsome : after'.canonical.lookup name = some (.instanceType ⟨n⟩ name []))
    (hother : ∀ other, other ≠ name →
      after'.canonical.lookup other = objects'.canonical.lookup other) :
    SharesTypes ρ
      { objects with
        canonical := (name, .instanceType ⟨objects.nextStamp⟩ name []) :: objects.canonical
        nextStamp := objects.nextStamp + 1 } after' := by
  refine ⟨fun k hk => ?_, fun other type htype => ?_, fun other n' hnone hsome' k hk => ?_⟩
  · rcases Nat.lt_or_eq_of_le (Nat.lt_succ_iff.1 hk) with hlt | rfl
    · exact Nat.lt_of_lt_of_le (h.made k hlt) hle
    · rwa [hnew]
  · rw [lookup_cons_if] at htype
    split at htype
    · rename_i hsame
      cases htype
      rw [hsame, hsome, Value.rename, Stamp.rename, hnew]
      rfl
    · rename_i hne
      rw [hother other hne, h.kept other type htype]
  · rw [lookup_cons_if] at hnone
    split at hnone
    · cases hnone
    · rename_i hne
      rcases Nat.lt_or_eq_of_le (Nat.lt_succ_iff.1 hk) with hlt | rfl
      · exact h.strange other n' hnone ((hother other hne).symm.trans hsome') k hlt
      · -- a stamp belongs to one class only
        rintro rfl
        rw [hnew] at hsome'
        exact hne (hnamed'.apart other name n hsome' hsome)

end SharesTypes

/-- Which types of classes are kept does not matter to what objects hold. -/
theorem Relocated.withCanonical {limit : Nat} {ρ : Renaming} {objects objects' : Objects}
    (h : objects.Relocated limit ρ objects') (types types' : List (String × Value)) :
    Relocated limit ρ { objects with canonical := types }
      { objects' with canonical := types' } where
  oneToOne := h.oneToOne
  size := h.size
  made := h.made
  get? := h.get?
  closed := h.closed
  next := h.next
  nextStamp := h.nextStamp

end Objects

/-! ## Guests -/

namespace Store

/-- The guest whose own store is `s` lives in `s'`, and has left intact what was there before. -/
structure Hosted (ρ : Renaming) (host s s' : Store) : Prop
    extends s.Relocated s.objects.nextStamp ρ s' where
  ordered : s.Ordered
  ordered' : s'.Ordered
  named : s.objects.WellNamed
  named' : s'.objects.WellNamed
  types : s.objects.SharesTypes ρ s'.objects
  intact : host.IntactIn s'

/-- A guest at work: it lives in its host under `ρ`, and just as well under any other choice of ids
for the stamps that are still to be given out. If nobody else had used the host, these would be the
next ones. -/
structure AtWork (known : Objects) (ρ : Renaming) (host s s' : Store) : Prop where
  hosted : ∀ ρ' : Renaming, ρ'.Continues ρ s.objects.nextStamp → Hosted ρ' host s s'
  oneToOne : ρ.OneToOne
  fixes : ρ.Fixes known
  apart : ρ.Apart known host
  known_le : known.nextStamp ≤ s.objects.nextStamp
  stamp_pos : 0 < s.objects.nextStamp
  inStep : ∀ n, ρ.stamp (s.objects.nextStamp + n) = s'.objects.nextStamp + n

/-- A guest stays away from its host. -/
theorem Hosted.awayFrom {known : Objects} {ρ : Renaming} {host s s' : Store}
    (h : Hosted ρ host s s') (hρ : ρ.Apart known host) {a : Action} (hown : a.Own known s) :
    (a.rename ρ).AwayFrom host s' := by
  have hnew : ∀ c : ContextId, ¬ host.Has (c.rename ρ) := by
    intro c hc
    have hle := hρ.context c.index
    simp only [Has, ContextId.rename] at hc
    omega
  refine ⟨fun c hc => ?_, fun c p hcommit hparent => ?_, fun target field new hassign i hi => ?_⟩
  · rw [Action.context?_rename] at hc
    obtain ⟨d, -, rfl⟩ := Option.map_eq_some_iff.1 hc
    exact hnew d
  · cases a with
    | commit d =>
      cases hcommit
      rw [h.context d (hown.admits d rfl)] at hparent
      obtain ⟨q, -, rfl⟩ := Option.map_eq_some_iff.1 hparent
      exact hnew q
    | _ => cases hcommit
  · cases a with
    | assign target' field' new' =>
      cases hassign
      rw [Value.index?_rename] at hi
      obtain ⟨j, hj, rfl⟩ := Option.map_eq_some_iff.1 hi
      exact hρ.object j (hown.changed _ _ _ rfl j hj)
    | _ => cases hassign

namespace AtWork

variable {known : Objects} {ρ ρ' : Renaming} {host s s' : Store} {d d' : Deed}
  (h : AtWork known ρ host s s')
include h

theorem self : Hosted ρ host s s' := h.hosted ρ (.refl h.oneToOne _)

/-- Under every choice of ids that goes on like this one, stamps are given out in step for as long
as it does. -/
theorem relocated {limit : Nat} (hle : s.objects.nextStamp ≤ limit)
    (hρ' : ρ'.Continues ρ limit) : s.Relocated limit ρ' s' where
  toEmbeds := (h.hosted ρ' (hρ'.mono hle)).toEmbeds
  nextContext := (h.hosted ρ' (hρ'.mono hle)).nextContext
  nextObject := (h.hosted ρ' (hρ'.mono hle)).nextObject
  nextStamp n hn := (hρ'.stamp _ hn).trans (h.inStep n)

theorem admits_deed (hown : d.Own known s) :
    (∀ a, d = .act a → s.Admits a) ∧ ∀ a, d.rename ρ = .act a → s'.Admits a := by
  constructor
  · rintro a rfl
    exact hown.admits
  · intro a ha
    cases d with
    | act b =>
      cases ha
      exact (h.self.toRelocated.admits_iff b).2 hown.admits
    | _ => cases ha

/-- What a guest does leaves its host intact. -/
theorem intact_carryOut (hown : d.Own known s) : host.IntactIn (s'.carryOut (d.rename ρ)).2 := by
  refine h.self.intact.carryOut h.self.ordered' fun a ha => ⟨(h.admits_deed hown).2 a ha, ?_⟩
  cases d with
  | act b =>
    cases ha
    exact h.self.awayFrom h.apart hown
  | _ => cases ha

section

variable (hd : ∀ name, d ≠ .instanceOf name) (hown : d.Own known s)
  (hd' : ∀ ρ' : Renaming, ρ'.Continues ρ s.objects.nextStamp → d' = d.rename ρ')
include hd hown hd'

/-- A deed ends alike under every choice of ids that goes on like this one up to a limit. -/
theorem relocated_carryOut {limit : Nat} (hlimit : (s.carryOut d).2.objects.nextStamp ≤ limit)
    (hρ' : ρ'.Continues ρ limit) :
    (s'.carryOut d').1 = Outcome.rename ρ' (s.carryOut d).1 ∧
      (s.carryOut d).2.Relocated limit ρ' (s'.carryOut d').2 := by
  have hle := Nat.le_trans (s.size_carryOut d).2 hlimit
  have hcarried := (h.relocated hle hρ').carryOut h.self.ordered h.self.ordered' hd hown hlimit
  rwa [← hd' ρ' (hρ'.mono hle)] at hcarried

/-- The stamps that are still to be given out stay in step, however late they come. -/
theorem inStep_carryOut (n : Nat) : ρ.stamp ((s.carryOut d).2.objects.nextStamp + n) =
    (s'.carryOut d').2.objects.nextStamp + n := by
  have hlimit : (s.carryOut d).2.objects.nextStamp ≤
      (s.carryOut d).2.objects.nextStamp + n + 1 := by omega
  have hlater := (h.relocated_carryOut hd hown hd' hlimit (.refl h.oneToOne _)).2
  exact hlater.nextStamp n (Nat.lt_succ_self _)

/-- Both have given out the same number of stamps. -/
theorem nextStamp_carryOut : (s'.carryOut d').2.objects.nextStamp = s'.objects.nextStamp +
    ((s.carryOut d).2.objects.nextStamp - s.objects.nextStamp) := by
  have hbefore := h.inStep ((s.carryOut d).2.objects.nextStamp - s.objects.nextStamp)
  have hafter := h.inStep_carryOut hd hown hd' 0
  rw [Nat.add_sub_cancel' (s.size_carryOut d).2] at hbefore
  exact hafter.symm.trans hbefore

/-- **A deed of a guest** ends as it does alone, unless it asks for the type of a class. -/
theorem carryOut : AtWork known ρ host (s.carryOut d).2 (s'.carryOut d').2 ∧
    ∀ ρ' : Renaming, ρ'.Continues ρ (s.carryOut d).2.objects.nextStamp →
      (s'.carryOut d').1 = Outcome.rename ρ' (s.carryOut d).1 := by
  have hstamps := (s.size_carryOut d).2
  have hself : d' = d.rename ρ := hd' ρ (.refl h.oneToOne _)
  have hother : ∀ name, d' ≠ .instanceOf name := by
    rintro name rfl
    cases d <;> cases hself
    exact hd name rfl
  obtain ⟨hadmits, hadmits'⟩ := h.admits_deed hown
  refine ⟨{ hosted := fun ρ' hρ' => ?_, oneToOne := h.oneToOne, fixes := h.fixes, apart := h.apart
            known_le := Nat.le_trans h.known_le hstamps
            stamp_pos := Nat.lt_of_lt_of_le h.stamp_pos hstamps
            inStep := h.inStep_carryOut hd hown hd' },
    fun ρ' hρ' => (h.relocated_carryOut hd hown hd' (Nat.le_refl _) hρ').1⟩
  have hbefore := h.hosted ρ' (hρ'.mono hstamps)
  exact {
    toRelocated := (h.relocated_carryOut hd hown hd' (Nat.le_refl _) hρ').2
    ordered := ordered_carryOut h.self.ordered hadmits
    ordered' := ordered_carryOut h.self.ordered' (hself ▸ hadmits')
    named := wellNamed_carryOut h.self.named d
    named' := wellNamed_carryOut h.self.named' d'
    types := by
      refine hbefore.types.advance h.self.named' (Nat.add_sub_cancel' hstamps).symm
        (h.nextStamp_carryOut hd hown hd') (fun n hn => ?_) (canonical_carryOut hd)
        (canonical_carryOut hother)
      -- these stamps have been given out by now, so `ρ'` has no choice left for them
      exact (hρ'.stamp _ (by omega)).trans (h.inStep n)
    intact := by
      rw [hself]
      exact h.intact_carryOut hown }

end

/-- A guest that is the first to ask for the type of a class has it made. -/
theorem instanceOf_new {name : String} (hnone : s.objects.canonical.lookup name = none)
    (hnone' : s'.objects.canonical.lookup name = none) :
    AtWork known ρ host (s.carryOut (.instanceOf name)).2 (s'.carryOut (.instanceOf name)).2 ∧
      ∀ ρ' : Renaming, ρ'.Continues ρ (s.objects.nextStamp + 1) →
        (s'.carryOut (.instanceOf name)).1 =
          Outcome.rename ρ' (s.carryOut (.instanceOf name)).1 := by
  have hnew : ρ.stamp s.objects.nextStamp = s'.objects.nextStamp := h.inStep 0
  have hintact := h.intact_carryOut (d := .instanceOf name) trivial
  have hnamed := h.self.named.instanceOf name
  have hnamed' := h.self.named'.instanceOf name
  simp only [Store.carryOut, Deed.rename, Objects.instanceOf_of_none hnone,
    Objects.instanceOf_of_none hnone'] at hintact hnamed hnamed' ⊢
  refine ⟨{ hosted := fun ρ' hρ' => ?_, oneToOne := h.oneToOne, fixes := h.fixes, apart := h.apart
            known_le := Nat.le_succ_of_le h.known_le, stamp_pos := Nat.succ_pos _
            inStep := fun n => ?_ }, fun ρ' hρ' => ?_⟩
  · have hnext : ρ'.stamp s.objects.nextStamp = s'.objects.nextStamp :=
      (hρ'.stamp _ (Nat.lt_succ_self _)).trans hnew
    have hmade := ((h.relocated (Nat.le_succ _) hρ').relocated_objects.make (Nat.lt_succ_self _)
      (f := fun stamp => .instanceType stamp name [])
      (g := fun stamp => .instanceType stamp name []) fun _ => rfl).2
    refine { toRelocated := (h.relocated (Nat.le_succ _) hρ').withObjects
               (hmade.withCanonical _ _) (Nat.le_refl _)
             ordered := h.self.ordered, ordered' := h.self.ordered', named := hnamed
             named' := hnamed', types := ?_, intact := hintact }
    refine (h.hosted ρ' (hρ'.mono (Nat.le_succ _))).types.cons hnamed' hnext (Nat.lt_succ_self _)
      (Nat.le_succ _) ?_ fun other hne => ?_
    · exact (Objects.lookup_cons_if ..).trans (if_pos rfl)
    · exact (Objects.lookup_cons_if ..).trans (if_neg hne)
  · have hstep := h.inStep (n + 1)
    simp only [withObjects]
    rw [Nat.add_assoc, Nat.add_assoc, Nat.add_comm 1 n]
    exact hstep
  · have hnext := (hρ'.stamp _ (Nat.lt_succ_self _)).trans hnew
    simp only [Outcome.rename_value, Value.rename, Value.renameAll, Stamp.rename, hnext]

/-- **A guest that asks for a type which is there already** is handed that one. Its own type, which
it has made alone, goes by the stamp of the type that is there. -/
theorem instanceOf_met {name : String} {m : Nat}
    (hnone : s.objects.canonical.lookup name = none)
    (hsome : s'.objects.canonical.lookup name = some (.instanceType ⟨m⟩ name []))
    (hm : m < s'.objects.nextStamp) :
    let ρ' := ρ.meet s.objects.nextStamp m h.stamp_pos
    ρ'.Continues ρ s.objects.nextStamp ∧
      AtWork known ρ' host (s.carryOut (.instanceOf name)).2
        (s'.carryOut (.instanceOf name)).2 ∧
      ∀ ρ'' : Renaming, ρ''.Continues ρ' (s.objects.nextStamp + 1) →
        (s'.carryOut (.instanceOf name)).1 =
          Outcome.rename ρ'' (s.carryOut (.instanceOf name)).1 := by
  intro ρ'
  -- the stamp is not one of those given out to the guest, nor one that is to come
  have hfree : ∀ n, ρ.stamp n ≠ m := by
    intro n
    by_cases hn : n < s.objects.nextStamp
    · exact h.self.types.strange name m hnone hsome n hn
    · have hstep := h.inStep (n - s.objects.nextStamp)
      have heq : s.objects.nextStamp + (n - s.objects.nextStamp) = n := by omega
      rw [heq] at hstep
      omega
  have hcontinues : ρ'.Continues ρ s.objects.nextStamp :=
    Renaming.continues_meet h.oneToOne h.stamp_pos hfree
  have hmet : ρ'.stamp s.objects.nextStamp = m := Renaming.meet_self h.stamp_pos
  have hnamed := h.self.named.instanceOf name
  simp only [Store.carryOut, Objects.instanceOf_of_none hnone,
    Objects.instanceOf_of_some hsome] at hnamed ⊢
  refine ⟨hcontinues, { hosted := fun ρ'' hρ'' => ?_, oneToOne := hcontinues.oneToOne
                        fixes := hcontinues.fixes h.known_le h.fixes
                        apart := hcontinues.apart h.apart
                        known_le := Nat.le_succ_of_le h.known_le, stamp_pos := Nat.succ_pos _
                        inStep := fun n => ?_ }, fun ρ'' hρ'' => ?_⟩
  · have hbefore := h.hosted ρ'' (hρ''.trans hcontinues (Nat.le_succ _))
    have hnext : ρ''.stamp s.objects.nextStamp = m :=
      (hρ''.stamp _ (Nat.lt_succ_self _)).trans hmet
    exact {
      objects := ⟨hbefore.oneToOne, hbefore.objects.size, hbefore.objects.made,
        hbefore.objects.get?, hbefore.objects.closed⟩
      made := hbefore.made
      context := hbefore.context
      within := hbefore.within
      nextContext := hbefore.nextContext
      nextObject := hbefore.nextObject
      nextStamp := fun n hn => absurd hn (Nat.not_lt.2 (Nat.le_add_right _ n))
      ordered := h.self.ordered
      ordered' := h.self.ordered'
      named := hnamed
      named' := h.self.named'
      types := hbefore.types.cons h.self.named' hnext hm (Nat.le_refl _) hsome fun _ _ => rfl
      intact := h.self.intact }
  · have hstep := h.inStep n
    have hlater : s.objects.nextStamp + 1 + n ≠ s.objects.nextStamp := by omega
    have hmoved := Renaming.meet_of_ne (ρ := ρ) (m := m) h.stamp_pos hlater
    have hback : s.objects.nextStamp + 1 + n - 1 = s.objects.nextStamp + n := by omega
    have hge : ¬ s.objects.nextStamp + 1 + n < s.objects.nextStamp := by omega
    rw [if_neg hge, hback] at hmoved
    exact hmoved.trans hstep
  · have hnext := (hρ''.stamp _ (Nat.lt_succ_self _)).trans hmet
    simp only [Outcome.rename_value, Value.rename, Value.renameAll, Stamp.rename, hnext]

/-- **A guest that asks for the type of a class** is handed what it is handed alone. -/
theorem instanceOf (name : String) : ∃ ρ' : Renaming, ρ'.Continues ρ s.objects.nextStamp ∧
    AtWork known ρ' host (s.carryOut (.instanceOf name)).2 (s'.carryOut (.instanceOf name)).2 ∧
    ∀ ρ'' : Renaming, ρ''.Continues ρ' (s.carryOut (.instanceOf name)).2.objects.nextStamp →
      (s'.carryOut (.instanceOf name)).1 =
        Outcome.rename ρ'' (s.carryOut (.instanceOf name)).1 := by
  cases hlookup : s.objects.canonical.lookup name with
  | some type =>
    have hshared := fun ρ' hρ' => (h.hosted ρ' hρ').types.kept name type hlookup
    have hself := hshared ρ (.refl h.oneToOne _)
    have hkept : s.carryOut (.instanceOf name) = (.ok (.value type), s) := by
      simp only [Store.carryOut, Objects.instanceOf_of_some hlookup]
      rfl
    have hkept' : s'.carryOut (.instanceOf name) = (.ok (.value (type.rename ρ)), s') := by
      simp only [Store.carryOut, Objects.instanceOf_of_some hself]
      rfl
    rw [hkept, hkept']
    refine ⟨ρ, .refl h.oneToOne _, h, fun ρ' hρ' => ?_⟩
    have hsame := hself.symm.trans (hshared ρ' hρ')
    rw [Option.some.inj hsame]
    rfl
  | none =>
    cases hlookup' : s'.objects.canonical.lookup name with
    | none =>
      obtain ⟨hstores, houtcome⟩ := h.instanceOf_new hlookup hlookup'
      have hnext : (s.carryOut (.instanceOf name)).2.objects.nextStamp =
          s.objects.nextStamp + 1 := by
        simp only [Store.carryOut, Objects.instanceOf_of_none hlookup]
        rfl
      rw [hnext]
      exact ⟨ρ, .refl h.oneToOne _, hstores, houtcome⟩
    | some type =>
      obtain ⟨m, hm, rfl⟩ := h.self.named'.named name type hlookup'
      obtain ⟨hcontinues, hstores, houtcome⟩ := h.instanceOf_met hlookup hlookup' hm
      have hnext : (s.carryOut (.instanceOf name)).2.objects.nextStamp =
          s.objects.nextStamp + 1 := by
        simp only [Store.carryOut, Objects.instanceOf_of_none hlookup]
        rfl
      rw [hnext]
      exact ⟨_, hcontinues, hstores, houtcome⟩

/-- **A deed of a guest ends as it does alone**, under ids that go on like those before. -/
theorem deed (hown : d.Own known s)
    (hd' : ∀ ρ' : Renaming, ρ'.Continues ρ s.objects.nextStamp → d' = d.rename ρ') :
    ∃ ρ' : Renaming, ρ'.Continues ρ s.objects.nextStamp ∧
      AtWork known ρ' host (s.carryOut d).2 (s'.carryOut d').2 ∧
      ∀ ρ'' : Renaming, ρ''.Continues ρ' (s.carryOut d).2.objects.nextStamp →
        (s'.carryOut d').1 = Outcome.rename ρ'' (s.carryOut d).1 := by
  by_cases hname : ∃ name, d = .instanceOf name
  · obtain ⟨name, rfl⟩ := hname
    obtain rfl : d' = .instanceOf name := hd' ρ (.refl h.oneToOne _)
    exact h.instanceOf name
  · obtain ⟨hstores, houtcome⟩ := h.carryOut (fun name heq => hname ⟨name, heq⟩) hown hd'
    exact ⟨ρ, .refl h.oneToOne _, hstores, houtcome⟩

/-- **The engine of a guest ends as it does alone**, and leaves its host intact. -/
theorem run {work work' : Work} (hkeeps : work.Keeps known s)
    (halike : ∀ ρ' : Renaming, ρ'.Continues ρ s.objects.nextStamp → work.Alike ρ' work') :
    ∃ ρ' : Renaming, ρ'.Continues ρ s.objects.nextStamp ∧
      AtWork known ρ' host (work.run s).2 (work'.run s').2 ∧
      (work'.run s').1 = Failure.renameIn ρ' (work.run s).1 := by
  induction work generalizing ρ s s' work' with
  | done result =>
    have hself := halike ρ (.refl h.oneToOne _)
    cases hself
    exact ⟨ρ, .refl h.oneToOne _, h, rfl⟩
  | deed d next ih =>
    obtain ⟨hown, hrest⟩ := hkeeps
    cases work' with
    | done result => nomatch halike ρ (.refl h.oneToOne _)
    | deed d' next' =>
    have hsame : ∀ ρ' : Renaming, ρ'.Continues ρ s.objects.nextStamp → d' = d.rename ρ' ∧
        ∀ outcome, (next outcome).Alike ρ' (next' (Outcome.rename ρ' outcome)) := by
      intro ρ' hρ'
      cases halike ρ' hρ' with
      | deed hd hnext => exact ⟨hd, hnext⟩
    obtain ⟨ρ', hρ', hstores, houtcome⟩ := h.deed hown fun ρ' hρ' => (hsame ρ' hρ').1
    have hstamps := (s.size_carryOut d).2
    -- the outcome is the same under all ids that are still open, so the engine goes on alike
    obtain ⟨ρ'', hρ'', hended⟩ := ih _ hstores hrest fun ρ'' hρ'' => by
      have hnext := (hsame ρ'' (hρ''.trans hρ' hstamps)).2 (s.carryOut d).1
      rwa [← houtcome ρ'' hρ''] at hnext
    exact ⟨ρ'', hρ''.trans hρ' hstamps, hended⟩

end AtWork

end Store

/-! ## Arriving -/

/-- Nothing mentions what has not been made. -/
structure Objects.Closed (objects : Objects) : Prop where
  stamp_pos : 0 < objects.nextStamp
  closed : ∀ i < objects.attributes.size, ∀ name, ∀ v ∈ (objects.attributesAt i).get? name,
    v.AllIds (· < objects.attributes.size) (· < objects.nextStamp)
  named : objects.WellNamed

/-- A store in which nobody has made a context yet. -/
def Store.fresh (known : Objects) : Store where
  objects := known

/-- What is known to everybody reads the same to a guest. -/
theorem Renaming.Fixes.rename {ρ : Renaming} {known : Objects} (h : ρ.Fixes known) {v : Value}
    (hv : v.AllIds (· < known.attributes.size) (· < known.nextStamp)) : v.rename ρ = v :=
  v.rename_eq_self (Value.AllIds.imp h.object h.stamp v hv)

namespace Store

variable {known : Objects} {s : Store}

theorem not_has_fresh (known : Objects) (c : ContextId) : ¬ (fresh known).Has c := Nat.not_lt_zero _

theorem ordered_fresh (known : Objects) : (fresh known).Ordered := fun c _ hp =>
  absurd (has_of_parent hp) (not_has_fresh known c)

section

variable (hknown : known.Closed) (h : (fresh known).IntactIn s)
include hknown h

/-- What is known to everybody is in a store under the same id. -/
theorem embeds_known {ρ : Renaming} (hρ : ρ.OneToOne) (hfixes : ρ.Fixes known) :
    known.Embeds ρ s.objects := by
  refine ⟨hρ, h.grown.size, fun i hi => ?_, fun i hi name => ?_, fun i hi name v hv => ?_⟩
  · rw [hfixes.object i hi]
    exact Nat.lt_of_lt_of_le hi h.grown.size
  · have hsame : s.objects.attributesAt i = known.attributesAt i := h.attributesAt i hi
    rw [hfixes.object i hi, hsame]
    cases hv : (known.attributesAt i).get? name with
    | none => rfl
    | some v => rw [Option.map_some, hfixes.rename (hknown.closed i hi name v hv)]
  · exact Value.AllIds.imp (fun _ => id) (fun _ _ => trivial) v (hknown.closed i hi name v hv)

/-- The types of classes that are known to everybody are kept in a store. -/
theorem sharesTypes_known {ρ : Renaming} (hfixes : ρ.Fixes known) :
    known.SharesTypes ρ s.objects where
  made n hn := by
    rw [hfixes.stamp n hn]
    exact Nat.lt_of_lt_of_le hn h.grown.nextStamp
  kept name type htype := by
    obtain ⟨n, hn, rfl⟩ := hknown.named.named name type htype
    rw [Value.rename, Stamp.rename, hfixes.stamp n hn]
    exact h.grown.kept name _ htype
  strange name n hnone hsome k hk := by
    have hle : known.nextStamp ≤ n := h.grown.later name n hnone hsome
    rw [hfixes.stamp k hk]
    omega

/-- **A store with everything that is known to everybody is one to arrive in.** -/
theorem AtWork.arrive (hs : s.Ordered) (hnamed : s.objects.WellNamed) :
    AtWork known (.past known s.objects s.contexts.size) s (fresh known) s := by
  have hpos : 0 < known.nextStamp := hknown.stamp_pos
  have hsize : known.attributes.size ≤ s.objects.attributes.size := h.grown.size
  have hstamps : known.nextStamp ≤ s.objects.nextStamp := h.grown.nextStamp
  have hnone := not_has_fresh known
  have hfixes := Renaming.fixes_past known s.objects s.contexts.size
  refine { hosted := fun ρ' hρ' => ?_, oneToOne := Renaming.oneToOne_past .., fixes := hfixes
           apart := ⟨fun i => Nat.le_add_right _ _, fun i hi => ?_⟩, known_le := Nat.le_refl _
           stamp_pos := hpos, inStep := fun n => ?_ }
  · have hfixes' := hρ'.fixes (Nat.le_refl _) hfixes
    exact {
      objects := embeds_known hknown h hρ'.oneToOne hfixes'
      made := fun c hc => absurd hc (hnone c)
      context := fun c hc => absurd hc (hnone c)
      within := fun c hc => absurd hc (hnone c)
      nextContext := fun n => by
        rw [hρ'.context]
        exact congrArg (s.contexts.size + ·) (Nat.zero_add n)
      nextObject := fun n => by
        rw [hρ'.object]
        simp only [Renaming.past, Renaming.lift, fresh]
        split <;> omega
      nextStamp := fun n hn => absurd hn (by omega)
      ordered := ordered_fresh known
      ordered' := hs
      named := hknown.named
      named' := hnamed
      types := sharesTypes_known hknown h hfixes'
      intact := .refl s }
  · simp only [Renaming.past, Renaming.lift]
    split <;> omega
  · simp only [Renaming.past, Renaming.lift, fresh]
    split <;> omega

end

end Store

end TypingStore

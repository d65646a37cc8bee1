import TypingStore.Proofs.Later
import TypingStore.Proofs.Lookups

/-!
# Leaving a branch out

The branch of a context is the context itself and everything made below it. If it had never been
made, the contexts outside it would have come one after the other all the same: the id of each
counts the contexts outside the branch before it (`renumber`).

* `inBranch_iff_of_parent`: a context is in a branch with its parent, or starts it.
* `renumber_inj`, `exists_renumber`: the ids are used once each, without a gap.
* `Event.since_without`, `Event.filterMap_entryIn_without`: what happened outside the branch reads
  the same under the new ids.
* `OfBranch.inBranch_about`, `not_inBranch_about`: an operation of the branch is told by events in
  it, and every other one by events outside.
-/

namespace TypingStore
namespace Store

/-- Whether `d` is in the branch of `c`. -/
def InBranch (s : Store) (c d : ContextId) : Prop := c ∈ s.chain d

instance (s : Store) (c d : ContextId) : Decidable (s.InBranch c d) :=
  inferInstanceAs (Decidable (c ∈ s.chain d))

/-- The number of contexts outside the branch of `c` among the first `n`. -/
def countOutside (s : Store) (c : ContextId) (n : Nat) : Nat :=
  (List.range n).countP fun i => ¬ s.InBranch c ⟨i⟩

/-- The id that `d` would have without the branch of `c`. -/
def renumber (s : Store) (c d : ContextId) : ContextId := ⟨s.countOutside c d.index⟩

variable {s : Store} {c d e p : ContextId} {m n : Nat}

theorem inBranch_self (s : Store) (c : ContextId) : s.InBranch c c := by
  rw [InBranch, chain]; exact List.mem_cons_self

theorem inBranch_iff_of_root (hd : (s.context d).parent = none) : s.InBranch c d ↔ c = d := by
  rw [InBranch, chain, hd, List.mem_singleton]

/-- **A context is in a branch with its parent**, unless the branch starts at it. -/
theorem inBranch_iff_of_parent (hs : s.Ordered) (hp : (s.context d).parent = some p) :
    s.InBranch c d ↔ c = d ∨ s.InBranch c p := by
  rw [InBranch, chain_of_parent s hp (hs d p hp), List.mem_cons]
  rfl

theorem countOutside_succ (s : Store) (c : ContextId) (n : Nat) :
    s.countOutside c (n + 1) = s.countOutside c n + if s.InBranch c ⟨n⟩ then 0 else 1 := by
  simp only [countOutside, List.range_succ, List.countP_append, List.countP_singleton]
  by_cases hn : s.InBranch c ⟨n⟩ <;> simp [hn]

theorem countOutside_le (h : m ≤ n) : s.countOutside c m ≤ s.countOutside c n := by
  induction h with
  | refl => exact Nat.le_refl _
  | @step n h ih =>
    rw [Nat.succ_eq_add_one, countOutside_succ]
    omega

/-- Contexts outside the branch keep their order. -/
theorem renumber_lt (hd : ¬ s.InBranch c d) (h : d.index < n) :
    (s.renumber c d).index < s.countOutside c n := by
  have hsucc := s.countOutside_succ c d.index
  rw [if_neg hd] at hsucc
  have hle : s.countOutside c (d.index + 1) ≤ s.countOutside c n := countOutside_le h
  show s.countOutside c d.index < _
  omega

/-- **No two contexts outside the branch get the same id.** -/
theorem renumber_inj (hd : ¬ s.InBranch c d) (he : ¬ s.InBranch c e) :
    s.renumber c d = s.renumber c e ↔ d = e := by
  refine ⟨fun h => ?_, fun h => congrArg _ h⟩
  have hidx : (s.renumber c d).index = (s.renumber c e).index := congrArg ContextId.index h
  rcases Nat.lt_trichotomy d.index e.index with hlt | heq | hlt
  · have hlt' : (s.renumber c d).index < (s.renumber c e).index := renumber_lt hd hlt
    omega
  · cases d; cases e; exact congrArg _ heq
  · have hlt' : (s.renumber c e).index < (s.renumber c d).index := renumber_lt he hlt
    omega

/-- **Every id is used** up to the number of contexts outside the branch. -/
theorem exists_renumber (h : m < s.countOutside c n) :
    ∃ d : ContextId, d.index < n ∧ ¬ s.InBranch c d ∧ s.renumber c d = ⟨m⟩ := by
  induction n with
  | zero => cases h
  | succ n ih =>
    by_cases hlt : m < s.countOutside c n
    · obtain ⟨d, hd, hout, hm⟩ := ih hlt
      exact ⟨d, Nat.lt_succ_of_lt hd, hout, hm⟩
    · have hsucc := s.countOutside_succ c n
      by_cases hn : s.InBranch c ⟨n⟩
      · rw [if_pos hn] at hsucc; omega
      · rw [if_neg hn] at hsucc
        have hm : s.countOutside c n = m := by omega
        exact ⟨⟨n⟩, Nat.lt_succ_self n, hn, congrArg ContextId.mk hm⟩

end Store

namespace Event

/-- The context that was made or written to. -/
def about : Event → ContextId
  | created d _ | entered d _ => d

/-- The event under other ids. -/
def renumber (f : ContextId → ContextId) : Event → Event
  | created d p => created (f d) (p.map f)
  | entered d entry => entered (f d) entry

/-- The event as it reads without the branch of `c`, if it is about a context outside. -/
def without (s : Store) (c : ContextId) (e : Event) : Option Event :=
  if s.InBranch c e.about then none else some (e.renumber (s.renumber c))

variable {s : Store} {c d p : ContextId} {e : Event} {es : List Event}

theorem without_of_inBranch (h : s.InBranch c e.about) : e.without s c = none := if_pos h

theorem without_of_not_inBranch (h : ¬ s.InBranch c e.about) :
    e.without s c = some (e.renumber (s.renumber c)) := if_neg h

theorem filterMap_without_of_inBranch (h : ∀ e ∈ es, s.InBranch c e.about) :
    es.filterMap (without s c) = [] :=
  List.filterMap_eq_nil_iff.2 fun e he => without_of_inBranch (h e he)

theorem filterMap_without_of_not_inBranch (h : ∀ e ∈ es, ¬ s.InBranch c e.about) :
    es.filterMap (without s c) = es.map (renumber (s.renumber c)) := by
  induction es with
  | nil => rfl
  | cons e es ih =>
    obtain ⟨he, hes⟩ := List.forall_mem_cons.1 h
    rw [List.filterMap_cons_some (without_of_not_inBranch he), List.map_cons, ih hes]

theorem about_of_creates (h : e.creates d = true) : e.about = d := by
  cases e with
  | created x p => exact of_decide_eq_true h
  | entered x entry => cases h

/-- What happened since a context was made, without the branch. -/
theorem since_without (hd : ¬ s.InBranch c d) (es : List Event) :
    since (s.renumber c d) (es.filterMap (without s c)) =
      (since d es).filterMap (without s c) := by
  induction es with
  | nil => rfl
  | cons e es ih =>
    by_cases he : s.InBranch c e.about
    · -- the context is made outside the branch, so this is not it
      have hne : e.creates d = false :=
        Bool.eq_false_iff.2 fun h => hd (about_of_creates h ▸ he)
      rw [List.filterMap_cons_none (without_of_inBranch he), ih, since, hne]
      rfl
    · have hcreates : (e.renumber (s.renumber c)).creates (s.renumber c d) = e.creates d := by
        cases e with
        | created x p =>
          have hx : ¬ s.InBranch c x := he
          simp only [renumber, creates, Store.renumber_inj hx hd]
        | entered x entry => rfl
      rw [List.filterMap_cons_some (without_of_not_inBranch he), since, since, hcreates]
      split
      · rfl
      · exact ih

/-- **What was put down in a context outside the branch** is still put down in it. -/
theorem filterMap_entryIn_without (hd : ¬ s.InBranch c d) (es : List Event) :
    (es.filterMap (without s c)).filterMap (entryIn (s.renumber c d)) =
      es.filterMap (entryIn d) := by
  rw [List.filterMap_filterMap]
  refine congrArg (fun look => es.filterMap look) (funext fun e => ?_)
  cases e with
  | created x p =>
    by_cases hx : s.InBranch c x
    · simp [without, about, hx, entryIn]
    · simp [without, about, hx, renumber, entryIn]
  | entered x entry =>
    by_cases hx : s.InBranch c x
    · have hne : x ≠ d := fun h => hd (h ▸ hx)
      simp [without, about, hx, entryIn, hne]
    · simp [without, about, hx, renumber, entryIn, Store.renumber_inj hx hd]

theorem exists_writes_without (hp : ¬ s.InBranch c p) (es : List Event) :
    (∃ e ∈ es.filterMap (without s c), e.writes (s.renumber c p) = true) ↔
      ∃ e ∈ es, e.writes p = true := by
  rw [exists_writes_iff, exists_writes_iff, filterMap_entryIn_without hp]

end Event

namespace Store

/-! ## Operations of a branch -/

/-- Whether an operation belongs to the branch of `c`: it makes `c`, or it is about a context in the
branch. -/
def OfBranch (t : Store) (c : ContextId) (s : Store) (a : Action) : Prop :=
  (∃ d ∈ a.context?, t.InBranch c d) ∨ ∃ e ∈ s.eventsOf a, e.creates c = true

instance (t : Store) (c : ContextId) (s : Store) (a : Action) : Decidable (t.OfBranch c s a) :=
  inferInstanceAs (Decidable (_ ∨ _))

variable {t s s' : Store} {c d : ContextId} {a : Action}

/-- An operation is told by the one context it makes, or by entries in its own context or in the
parent of one it commits. -/
theorem mem_eventsOf {e : Event} (he : e ∈ s.eventsOf a) :
    (∃ p, s.eventsOf a = [.created ⟨s.contexts.size⟩ p] ∧ a.context? = p) ∨
      ∃ d entry, e = .entered d entry ∧ (a.context? = some d ∨
        ∃ b, a = .commit b ∧ (s.commit b).1 = .ok () ∧ (s.context b).parent = some d) := by
  cases a with
  | createRoot settings summarizer => exact .inl ⟨none, rfl, rfl⟩
  | createChild p settings summarizer => exact .inl ⟨some p, rfl, rfl⟩
  | spawn p => exact .inl ⟨some p, rfl, rfl⟩
  | recordType d node type => exact .inr ⟨d, _, List.mem_singleton.1 he, .inl rfl⟩
  | addError d error => exact .inr ⟨d, _, List.mem_singleton.1 he, .inl rfl⟩
  | recordVariable d name type =>
    cases hh : handleOf name with
    | error failure => simp [eventsOf, hh] at he
    | ok handle =>
      simp only [eventsOf, hh, List.mem_singleton] at he
      exact .inr ⟨d, _, he, .inl rfl⟩
  | commit b =>
    cases hok : (s.commit b).1 with
    | error failure => simp [eventsOf, hok] at he
    | ok answer =>
      cases hp : (s.context b).parent with
      | none => simp [eventsOf, hok, hp] at he
      | some p =>
        simp only [eventsOf, hok, hp] at he
        obtain ⟨entry, -, rfl⟩ := List.mem_map.1 he
        exact .inr ⟨p, entry, rfl, .inr ⟨b, rfl, hok, hp⟩⟩
  | _ => cases he

/-- A creation is told by one event. -/
theorem eventsOf_of_creates (h : ∃ e ∈ s.eventsOf a, e.creates c = true) :
    ∃ p, s.eventsOf a = [.created c p] := by
  obtain ⟨e, he, hcreates⟩ := h
  rcases mem_eventsOf he with ⟨p, heq, -⟩ | ⟨d, entry, rfl, -⟩
  · rw [heq, List.mem_singleton] at he
    subst he
    obtain rfl : ⟨s.contexts.size⟩ = c := Event.about_of_creates hcreates
    exact ⟨p, heq⟩
  · cases hcreates

/-- A context is made as the child its event tells. -/
theorem Change.parent_of_created {es : List Event} (h : s.Change s' es) {p : Option ContextId}
    (he : .created d p ∈ es) : s'.Has d ∧ (s'.context d).parent = p := by
  cases h with
  | rest h => cases he
  | root settings summarizer h =>
    cases List.mem_singleton.1 he
    have hself := context_add_self s
      { parent := none, settings := settings, summarizer := summarizer }
    rw [has_congr h, has_add, context_congr h]
    exact ⟨.inr rfl, congrArg Context.parent hself⟩
  | child p hp settings summarizer h =>
    cases List.mem_singleton.1 he
    rw [has_congr h, has_createChild, context_congr h, context_createChild_self]
    exact ⟨.inr rfl, rfl⟩
  | entered p hp entries h =>
    obtain ⟨entry, -, heq⟩ := List.mem_map.1 he
    cases heq

section

variable (ht : t.Ordered) (hchange : s.Change s' (s.eventsOf a))
  (hwithin : ∀ d, s'.Has d → (t.context d).parent = (s'.context d).parent)
include ht hchange hwithin

/-- Whether a new context is in the branch. -/
theorem inBranch_created_iff {p : Option ContextId} (he : .created d p ∈ s.eventsOf a) :
    t.InBranch c d ↔ c = d ∨ ∃ q ∈ p, t.InBranch c q := by
  obtain ⟨hd, hp⟩ := hchange.parent_of_created he
  have htp := (hwithin d hd).trans hp
  cases p with
  | none => rw [inBranch_iff_of_root htp]; simp
  | some q => rw [inBranch_iff_of_parent ht htp]; simp

/-- Whether a context made before is in the branch. -/
theorem inBranch_iff_of_change {p : ContextId} (hp : (s.context d).parent = some p) :
    t.InBranch c d ↔ c = d ∨ t.InBranch c p := by
  have hd : s.Has d := has_of_parent hp
  have hd' : s'.Has d := (hchange.made d).2 (.inl hd)
  have hp' : (s'.context d).parent = some p := (hchange.origin hd).1.trans hp
  exact inBranch_iff_of_parent ht ((hwithin d hd').trans hp')

/-- **An operation of the branch is told by events in the branch**, as long as `c` is not
committed. -/
theorem OfBranch.inBranch_about (h : t.OfBranch c s a)
    (hnever : a = .commit c → (s.commit c).1 ≠ .ok ()) :
    ∀ e ∈ s.eventsOf a, t.InBranch c e.about := by
  intro e he
  rcases h with ⟨d, hd, hin⟩ | hcreates
  · rcases mem_eventsOf he with ⟨p, heq, hp⟩ | ⟨x, entry, rfl, hx | ⟨b, rfl, hok, hb⟩⟩
    · -- a child of a context in the branch
      obtain rfl : e = .created ⟨s.contexts.size⟩ p := by simpa [heq] using he
      exact (inBranch_created_iff ht hchange hwithin he).2 (.inr ⟨d, hp ▸ hd, hin⟩)
    · obtain rfl : x = d := Option.some.inj (hx.symm.trans hd)
      exact hin
    · -- a commit of a context in the branch, which is not `c`
      obtain rfl : b = d := Option.some.inj hd
      have hne : c ≠ b := by
        rintro rfl
        exact hnever rfl hok
      exact ((inBranch_iff_of_change ht hchange hwithin hb).1 hin).resolve_left hne
  · obtain ⟨p, heq⟩ := eventsOf_of_creates hcreates
    obtain rfl : e = .created c p := by simpa [heq] using he
    exact t.inBranch_self c

/-- **Every other operation is told by events outside.** -/
theorem not_inBranch_about (h : ¬ t.OfBranch c s a) :
    ∀ e ∈ s.eventsOf a, ¬ t.InBranch c e.about := by
  intro e he hin
  rcases mem_eventsOf he with ⟨p, heq, hp⟩ | ⟨x, entry, rfl, hx | ⟨b, rfl, -, hb⟩⟩
  · obtain rfl : e = .created ⟨s.contexts.size⟩ p := by simpa [heq] using he
    rcases (inBranch_created_iff ht hchange hwithin he).1 hin with hc | ⟨q, hq, hin⟩
    · exact h (.inr ⟨_, he, by simp [Event.creates, hc]⟩)
    · exact h (.inl ⟨q, hp ▸ hq, hin⟩)
  · exact h (.inl ⟨x, hx, hin⟩)
  · have hin := (inBranch_iff_of_change ht hchange hwithin hb).2 (.inr hin)
    exact h (.inl ⟨b, rfl, hin⟩)

end

end Store

end TypingStore

import TypingStore.Proofs.Branches
import TypingStore.Proofs.Recommit

/-!
# Isolation of contexts

What is tried in a branch stays in the branch. An operation changes a context only when it puts
something into the context, when it commits a child of it, or when it makes a child of it; and
making a child does no more than leave the mark (`Store.context_perform`). A commit changes the
parent and nothing else, the committed context included.

* `Change.context`: one change, told by its events.
* `exists_created_eventsOf`, `of_entered_mem_eventsOf`: which operations have which events.
* `World.Untouched.step`: an operation below `p` that commits nothing into `p` leaves `p` and all
  that is not below it alone.
* `World.contexts_isolated`: every operation, and every script that stays below a context, in any
  world a script can come to.
-/

namespace TypingStore

/-- Whether an operation makes a child of `p`. -/
def Action.MakesChildOf (p : ContextId) : Action → Prop
  | .createChild q _ _ | .spawn q => q = p
  | _ => False

/-- Whether an operation records a type in `p` or adds an error to it. -/
def Action.PutsInto (p : ContextId) : Action → Prop
  | .recordType c _ _ | .recordVariable c _ _ | .addError c _ => c = p
  | _ => False

namespace Store

/-- Whether an operation is the accepted commit of a child of `p`. -/
def CommitsInto (s : Store) (p : ContextId) (a : Action) : Prop :=
  ∃ c, a = .commit c ∧ (s.commit c).1 = .ok () ∧ (s.context c).parent = some p

/-- Whether `d` is a child of `p`, a child of a child, and so on. -/
def Below (s : Store) (p d : ContextId) : Prop := d ≠ p ∧ s.InBranch p d

instance (s : Store) (p d : ContextId) : Decidable (s.Below p d) :=
  inferInstanceAs (Decidable (_ ∧ _))

/-- An operation stays below `p` when it is about no context or one below `p`, and hands nothing
over to `p`. -/
def StaysBelow (p : ContextId) (s : Store) (a : Action) : Prop :=
  (∀ d ∈ a.context?, s.Below p d) ∧ ¬ s.CommitsInto p a

variable {s s' : Store} {a : Action} {c d p : ContextId} {es : List Event}

/-- **A context into which nothing is put stays as it is**, but for the mark of a new child. -/
theorem Change.context (h : s.Change s' es) (hd : s.Has d)
    (hno : ∀ entry, .entered d entry ∉ es) :
    ((∃ c, .created c (some d) ∈ es) → s'.context d = { s.context d with pending := true }) ∧
      ((¬ ∃ c, .created c (some d) ∈ es) → s'.context d = s.context d) := by
  cases h with
  | rest h =>
    rw [context_congr h]
    exact ⟨fun ⟨c, hc⟩ => (List.not_mem_nil hc).elim, fun _ => rfl⟩
  | root settings summarizer h =>
    have hsame : s'.context d = s.context d := by
      rw [context_congr h, context_add_of_has _ _ hd]
    exact ⟨fun ⟨c, hc⟩ => by simp at hc, fun _ => hsame⟩
  | child p hp settings summarizer h =>
    have hcontext := context_createChild s p settings summarizer hd
    rw [← context_congr h] at hcontext
    by_cases hdp : d = p
    · rw [if_pos hdp] at hcontext
      subst hdp
      exact ⟨fun _ => hcontext, fun hnone => absurd ⟨_, List.mem_singleton.2 rfl⟩ hnone⟩
    · rw [if_neg hdp] at hcontext
      refine ⟨fun ⟨c, hc⟩ => ?_, fun _ => hcontext⟩
      simp only [List.mem_singleton, Event.created.injEq, Option.some.injEq] at hc
      exact absurd hc.2 hdp
  | entered p hp entries h =>
    have hcreated : ¬ ∃ c, Event.created c (some d) ∈ entries.map (Event.entered p) := by
      rintro ⟨c, hc⟩
      obtain ⟨entry, -, heq⟩ := List.mem_map.1 hc
      cases heq
    have hcontext : s'.context d = s.context d := by
      rw [context_congr h, context_update]
      by_cases hdp : d = p
      · -- nothing was put into `d`, so there are no entries at all
        subst hdp
        have hnil : entries = [] := by
          refine List.eq_nil_iff_forall_not_mem.2 fun entry hentry => ?_
          exact hno entry (List.mem_map_of_mem hentry)
        rw [hnil, Context.enterAll_nil, ite_self]
      · rw [if_neg fun both => hdp both.1]
    exact ⟨fun hex => absurd hex hcreated, fun _ => hcontext⟩

/-- The operations that make a child. -/
theorem exists_created_eventsOf :
    (∃ c, .created c (some d) ∈ s.eventsOf a) ↔ a.MakesChildOf d := by
  cases a with
  | createChild p settings summarizer => simp [eventsOf, Action.MakesChildOf, eq_comm]
  | spawn p => simp [eventsOf, Action.MakesChildOf, eq_comm]
  | recordVariable c name type =>
    cases hh : handleOf name with
    | error failure => simp [eventsOf, hh, Action.MakesChildOf]
    | ok handle => simp [eventsOf, hh, Action.MakesChildOf]
  | commit c =>
    simp only [eventsOf, Action.MakesChildOf, iff_false]
    rintro ⟨d', hd'⟩
    split at hd'
    · obtain ⟨entry, -, heq⟩ := List.mem_map.1 hd'
      cases heq
    · exact List.not_mem_nil hd'
  | _ => simp [eventsOf, Action.MakesChildOf]

/-- The operations that put something into a context. -/
theorem of_entered_mem_eventsOf {entry : Entry} (he : .entered d entry ∈ s.eventsOf a) :
    a.PutsInto d ∨ s.CommitsInto d a := by
  cases a with
  | recordType c node type =>
    obtain ⟨rfl, -⟩ := Event.entered.inj (List.mem_singleton.1 he)
    exact .inl rfl
  | recordVariable c name type =>
    cases hh : handleOf name with
    | error failure => simp [eventsOf, hh] at he
    | ok handle =>
      simp only [eventsOf, hh] at he
      obtain ⟨rfl, -⟩ := Event.entered.inj (List.mem_singleton.1 he)
      exact .inl rfl
  | addError c error =>
    obtain ⟨rfl, -⟩ := Event.entered.inj (List.mem_singleton.1 he)
    exact .inl rfl
  | commit c =>
    simp only [eventsOf] at he
    split at he
    · rename_i p hok hparent
      obtain ⟨x, -, heq⟩ := List.mem_map.1 he
      obtain ⟨rfl, -⟩ := Event.entered.inj heq
      exact .inr ⟨c, rfl, hok, hparent⟩
    · exact (List.not_mem_nil he).elim
  | _ => simp [eventsOf] at he

/-- **What one operation does to a context**: nothing, unless it puts something into it, commits a
child of it, or makes a child of it, which leaves the mark. -/
theorem context_perform (hs : s.Ordered) (ha : s.Admits a) (hd : s.Has d) :
    (¬ a.PutsInto d → ¬ s.CommitsInto d a → ¬ a.MakesChildOf d →
        (s.perform a).2.context d = s.context d) ∧
      (a.MakesChildOf d → (s.perform a).2.context d = { s.context d with pending := true }) := by
  have hchange := perform_change hs ha
  constructor
  · intro hput hcommit hchild
    have hno : ∀ entry, .entered d entry ∉ s.eventsOf a := fun entry he =>
      (of_entered_mem_eventsOf he).elim hput hcommit
    exact (hchange.context hd hno).2 (mt exists_created_eventsOf.1 hchild)
  · intro hchild
    -- an operation that makes a child puts nothing down anywhere
    have hno : ∀ entry, .entered d entry ∉ s.eventsOf a := by
      intro entry he
      cases a with
      | createChild p settings summarizer => simp [eventsOf] at he
      | spawn p => simp [eventsOf] at he
      | _ => exact hchild.elim
    exact (hchange.context hd hno).1 (exists_created_eventsOf.2 hchild)

/-- **An accepted commit changes the parent only**, which is not the committed context. -/
theorem context_commit (hs : s.Ordered)
    (hok : (s.commit c).1 = .ok ()) :
    ∃ p, (s.context c).parent = some p ∧ p ≠ c ∧
      ∀ d, d ≠ p → (s.commit c).2.context d = s.context d := by
  obtain ⟨p, hp, hfresh⟩ := commit_eq_ok_iff.1 hok
  refine ⟨p, hp, fun heq => ?_, (context_commit_of_fresh hs hp hfresh).2⟩
  have hlt := hs c p hp
  rw [heq] at hlt
  omega

/-! ## Below a context -/

/-- What a context below `p` has for a parent is `p`, or is below `p` as well. -/
theorem Below.parent (hs : s.Ordered) (h : s.Below p c) (hp : (s.context c).parent = some d) :
    d = p ∨ s.Below p d := by
  obtain ⟨hne, hin⟩ := h
  have hd : s.InBranch p d := ((inBranch_iff_of_parent hs hp).1 hin).resolve_left (Ne.symm hne)
  by_cases heq : d = p
  · exact .inl heq
  · exact .inr ⟨heq, hd⟩

/-- An operation that stays below `p` does not reach what is not below `p`. -/
theorem StaysBelow.context (h : StaysBelow p s a) (hs : s.Ordered) (ha : s.Admits a)
    (hd : s.Has d) (hout : ¬ s.Below p d) : (s.perform a).2.context d = s.context d := by
  obtain ⟨habout, hcommit⟩ := h
  have hself : a.context? ≠ some d := fun heq => hout (habout d heq)
  refine (context_perform hs ha hd).1 (fun hput => ?_) ?_ fun hchild => ?_
  · cases a <;> first | exact hput.elim | exact hself (congrArg some hput)
  · rintro ⟨c, rfl, hok, hparent⟩
    rcases (habout c rfl).parent hs hparent with heq | hbelow
    · subst heq
      exact hcommit ⟨c, rfl, hok, hparent⟩
    · exact hout hbelow
  · cases a <;> first | exact hchild.elim | exact hself (congrArg some hchild)

end Store

namespace World

open Store

/-- In `w'`, which came later than `w`, nothing has changed but contexts below `p` and new ones. -/
structure Untouched (p : ContextId) (w w' : World) : Prop where
  ordered : w'.store.Ordered
  later : ∃ new, w.Later new w'
  context : ∀ d, w.store.Has d → ¬ w.store.Below p d → w'.store.context d = w.store.context d

variable {p : ContextId} {w w' : World} {regime : Regime}

theorem Untouched.refl (hw : w.store.Ordered) : Untouched p w w :=
  ⟨hw, ⟨[], .refl w⟩, fun _ _ _ => rfl⟩

/-- Which contexts are below `p` is settled when they are made. -/
theorem Later.below_iff {new : List Event} (h : w.Later new w') {d : ContextId}
    (hd : w.store.Has d) : w'.store.Below p d ↔ w.store.Below p d := by
  have hchain : w'.store.chain d = w.store.chain d :=
    chain_congr fun e he => h.parent e (Nat.lt_of_le_of_lt he hd)
  simp only [Below, InBranch, hchain]

/-- **One operation below `p` leaves everything else alone.** -/
theorem Untouched.step (h : Untouched p w w') {a : Action} (ha : (w'.prepared regime).Admits a)
    (hbelow : StaysBelow p (w'.prepared regime) a) : Untouched p w (w'.step regime a) := by
  obtain ⟨new, hlater⟩ := h.later
  have hord : (w'.prepared regime).Ordered := h.ordered
  refine ⟨?_, ⟨_, hlater.trans (later_step h.ordered regime ha)⟩, fun d hd hout => ?_⟩
  · rw [step_of_admits ha]
    exact (perform_change hord ha).ordered hord
  · have hd' : (w'.prepared regime).Has d := hlater.has d hd
    -- what the regime does to the objects leaves the chains alone
    have hchain : (w'.prepared regime).chain d = w'.store.chain d := chain_congr fun _ _ => rfl
    have hout' : ¬ (w'.prepared regime).Below p d := by
      rw [Below, InBranch, hchain]
      exact mt (hlater.below_iff hd).1 hout
    rw [step_of_admits ha, ← h.context d hd hout]
    exact hbelow.context hord ha hd' hout'

/-- **Contexts are isolated from each other**, in every world a script can come to.

An operation leaves a context as it is, unless it records a type in it, adds an error to it, commits
a child of it, or makes a child of it; making a child leaves the mark and nothing else; and what a
context was made with stays with it. An accepted commit changes the parent alone. So a script that
stays below a context and commits nothing into it, whatever it writes, commits or makes there and
wherever its callbacks fail, leaves that context and every other one that is not below it exactly as
they were. -/
theorem contexts_isolated (regime : Regime) (objects : Objects) (earlier : Script) :
    let w := earlier.world regime objects
    let s := w.prepared regime
    (∀ a d, s.Admits a → s.Has d →
      let s' := (s.perform a).2
      (¬ a.PutsInto d → ¬ s.CommitsInto d a → ¬ a.MakesChildOf d →
        s'.context d = s.context d) ∧
      (a.MakesChildOf d → s'.context d = { s.context d with pending := true }) ∧
      (s'.context d).parent = (s.context d).parent ∧
      (s'.context d).settings = (s.context d).settings ∧
      (s'.context d).summarizer = (s.context d).summarizer ∧
      (s'.context d).snapshot = (s.context d).snapshot) ∧
    (∀ c, (s.commit c).1 = .ok () →
      ∃ p, (s.context c).parent = some p ∧ p ≠ c ∧
        ∀ d, d ≠ p → (s.commit c).2.context d = s.context d) ∧
    ∀ p (script : Script), script.Keeps regime (StaysBelow p) w →
      ∀ d, w.store.Has d → ¬ w.store.Below p d →
        (script.run regime w).2.store.context d = w.store.context d := by
  intro w s
  obtain ⟨actions, hrun⟩ := earlier.exists_run regime objects
  have hw : w.store.Ordered := by
    rw [show w = _ from hrun]
    exact (sound_run regime objects actions).ordered
  have hs : s.Ordered := hw
  refine ⟨fun a d ha hd => ?_, fun c hok => context_commit hs hok,
    fun p script hkeeps d hd hout => ?_⟩
  · have hcontext := context_perform hs ha hd
    exact ⟨hcontext.1, hcontext.2, (perform_change hs ha).origin hd⟩
  · have huntouched : Untouched p w (script.run regime w).2 :=
      hkeeps.invariant (fun w' a h ha hrule => h.step ha hrule) (.refl hw)
    exact huntouched.context d hd hout

/-- Two branches of a root, the first one with a branch of its own that is stale. -/
def twoLevels : Script :=
  .act (.createRoot none none) fun _ => .act (.spawn ⟨0⟩) fun _ => .act (.spawn ⟨0⟩) fun _ =>
    .act (.spawn ⟨1⟩) fun _ => .act (.recordType ⟨1⟩ .absent (.nilType ⟨1⟩)) fun _ => .done (.ok ())

/-- Work below the first branch: a callback writes and fails, what it wrote is committed all the
same, and then a commit into the first branch is refused. -/
def workBelow : Script :=
  .inChild ⟨3⟩
    (fun child => .act (.recordType child .absent (.anyType ⟨2⟩)) fun _ =>
      .act (.addError ⟨3⟩ .absent) fun _ => .done (.error .changedDuringIteration))
    fun _ => .act (.commit ⟨4⟩) fun _ => .act (.commit ⟨3⟩) fun _ => .done (.ok ())

/-- Every operation of the work is about a context below the first branch, and none hands anything
over to it. -/
theorem workBelow_keeps :
    workBelow.Keeps (fun _ objects => objects) (StaysBelow ⟨1⟩)
      (twoLevels.world (fun _ objects => objects) {}) := by
  have hspawn : (twoLevels.world (fun _ objects => objects) {}).outcome
      (fun _ objects => objects) (.spawn ⟨3⟩) = .ok (.context ⟨4⟩) := by
    have hsize : (twoLevels.world (fun _ objects => objects) {}).store.contexts.size = 4 := by
      decide +kernel
    rw [outcome_spawn (by decide +kernel), hsize]
  have hno : ∀ (s : Store) (a : Action), (∀ c, a ≠ .commit c) → ¬ s.CommitsInto ⟨1⟩ a := by
    rintro s a hne ⟨c, hc, -⟩
    exact hne c hc
  unfold workBelow Script.Keeps
  rw [hspawn]
  refine ⟨fun _ => ⟨by decide +kernel, hno _ _ fun c hc => by cases hc⟩, ?_, ?_⟩
  · exact ⟨fun _ => ⟨by decide +kernel, hno _ _ fun c hc => by cases hc⟩,
      fun _ => ⟨by decide +kernel, hno _ _ fun c hc => by cases hc⟩, trivial⟩
  · refine ⟨fun _ => ⟨by decide +kernel, ?_⟩, fun _ => ⟨by decide +kernel, ?_⟩, trivial⟩
    · -- this commit goes into the branch of the branch
      rintro ⟨c, hc, -, hparent⟩
      cases hc
      exact absurd hparent (by decide +kernel)
    · -- and this one is stale
      rintro ⟨c, hc, hok, hparent⟩
      cases hc
      obtain ⟨p, hp, hfresh⟩ := commit_eq_ok_iff.1 hok
      obtain rfl : p = ⟨1⟩ := Option.some.inj (hp.symm.trans hparent)
      exact absurd hfresh (by decide +kernel)

/-- The work leaves the first branch, the second one and their root as they were. A new branch of
the second one would mark it and no other, and its commit would not change it. -/
theorem workBelow_untouched :
    let idle : Regime := fun _ objects => objects
    let w := twoLevels.world idle {}
    let s := w.prepared idle
    let w' := (workBelow.run idle w).2
    w'.outcomes.length = 10 ∧ w'.store.Below ⟨1⟩ ⟨4⟩ ∧
      w'.store.context ⟨0⟩ = w.store.context ⟨0⟩ ∧ w'.store.context ⟨1⟩ = w.store.context ⟨1⟩ ∧
      w'.store.context ⟨2⟩ = w.store.context ⟨2⟩ ∧
      (s.perform (.spawn ⟨2⟩)).2.context ⟨2⟩ = { s.context ⟨2⟩ with pending := true } ∧
      (s.perform (.spawn ⟨2⟩)).2.context ⟨1⟩ = s.context ⟨1⟩ ∧
      (s.commit ⟨2⟩).2.context ⟨2⟩ = s.context ⟨2⟩ := by
  dsimp only
  obtain ⟨hstep, hcommit, hscript⟩ := contexts_isolated (fun _ objects => objects) {} twoLevels
  have huntouched := hscript ⟨1⟩ workBelow workBelow_keeps
  have hself := hstep (.spawn ⟨2⟩) ⟨2⟩ (by decide +kernel) (by decide +kernel)
  have hother := hstep (.spawn ⟨2⟩) ⟨1⟩ (by decide +kernel) (by decide +kernel)
  obtain ⟨p, hp, hne, honly⟩ :=
    hcommit ⟨2⟩ (commit_eq_ok_iff.2 ⟨⟨0⟩, by decide +kernel, by decide +kernel⟩)
  exact ⟨by decide +kernel, by decide +kernel,
    huntouched ⟨0⟩ (by decide +kernel) (by decide +kernel),
    huntouched ⟨1⟩ (by decide +kernel) (by decide +kernel),
    huntouched ⟨2⟩ (by decide +kernel) (by decide +kernel),
    hself.2.1 rfl, hother.1 nofun nofun nofun, honly ⟨2⟩ hne.symm⟩

end World

end TypingStore

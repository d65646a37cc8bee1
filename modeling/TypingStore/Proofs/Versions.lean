import TypingStore.Proofs.Policies
import TypingStore.Proofs.Recommit

/-!
# What versions count

A context is marked while a child waits for it: one was made, and nothing has been written to the
context after that. Its version counts the writes to it. Under the strict policy it counts all of
them; under the other one those that find a child waiting, so that any number of children made in a
row account for one step, and any number of writes in a row for at most one.

Both are told by the events since the context was made, and by nothing else
(`World.version_counts_writes`).

* `Event.childWaits`, `Event.noticed`: whether a child waits, and how many writes found one.
* `Event.noticed_append`: several writes in a row are noticed once.
* `Change.pending`, `Change.counted`: what one operation does to the mark and to the count.
* `marked_run`: in every run the mark tells whether a child waits.
* `version_steps`, `version_since_creation`: what a run under one policy does to a version.
-/

namespace TypingStore

namespace Event

/-- Whether this is the creation of a child of `c`. -/
def branches (c : ContextId) : Event → Bool
  | created _ parent => parent = some c
  | entered _ _ => false

/-- Whether a child of `c` was made after which nothing was written to `c`. -/
def childWaits (c : ContextId) : List Event → Bool
  | [] => false
  | e :: es => childWaits c es || e.branches c && es.all fun later => !later.writes c

/-- The number of writes to `c` that found a child waiting: one was made since the write before, or
since the beginning. -/
def noticed (c : ContextId) (es : List Event) : Nat :=
  (List.range es.length).countP fun i => es[i]?.any (writes c) && childWaits c (es.take i)

variable {c : ContextId} {e : Event} {es new : List Event}

theorem branches_eq_true_iff : e.branches c = true ↔ ∃ child, e = .created child (some c) := by
  cases e with
  | created d parent => simp [branches]
  | entered d entry => simp [branches]

/-- What is put down is no child. -/
theorem branches_of_mem_map {p : ContextId} {entries : List Entry}
    (h : e ∈ entries.map (entered p)) : e.branches c = false := by
  obtain ⟨entry, -, rfl⟩ := List.mem_map.1 h
  rfl

/-- **A child waits** when one was made and no write came after it. -/
theorem childWaits_iff : childWaits c es = true ↔ ∃ earlier child later,
    es = earlier ++ .created child (some c) :: later ∧ ∀ x ∈ later, x.writes c = false := by
  induction es with
  | nil => simp [childWaits]
  | cons e es ih =>
    simp only [childWaits, Bool.or_eq_true, Bool.and_eq_true, List.all_eq_true,
      Bool.not_eq_true', ih]
    constructor
    · rintro (⟨earlier, child, later, rfl, hlater⟩ | ⟨hchild, hlater⟩)
      · exact ⟨e :: earlier, child, later, rfl, hlater⟩
      · obtain ⟨child, rfl⟩ := branches_eq_true_iff.1 hchild
        exact ⟨[], child, es, rfl, hlater⟩
    · rintro ⟨earlier, child, later, heq, hlater⟩
      cases earlier with
      | nil =>
        obtain ⟨rfl, rfl⟩ := List.cons.inj heq
        exact .inr ⟨branches_eq_true_iff.2 ⟨child, rfl⟩, hlater⟩
      | cons x earlier =>
        exact .inl ⟨earlier, child, later, (List.cons.inj heq).2, hlater⟩

/-- A new child waits; a write ends the waiting; nothing else does. -/
theorem childWaits_concat :
    childWaits c (es ++ [e]) = (e.branches c || (!e.writes c && childWaits c es)) := by
  induction es with
  | nil => simp [childWaits]
  | cons x es ih =>
    simp only [List.cons_append, childWaits, ih, List.all_append, List.all_cons, List.all_nil,
      Bool.and_true]
    cases e.branches c <;> cases e.writes c <;> simp

theorem noticed_concat : noticed c (es ++ [e]) =
    noticed c es + if e.writes c && childWaits c es then 1 else 0 := by
  have hbefore : (List.range es.length).countP (fun i =>
      (es ++ [e])[i]?.any (writes c) && childWaits c ((es ++ [e]).take i)) = noticed c es := by
    refine List.countP_congr fun i hi => ?_
    have hlt : i < es.length := List.mem_range.1 hi
    rw [List.getElem?_append_left hlt, List.take_append_of_le_length (Nat.le_of_lt hlt)]
  rw [noticed, List.length_append, List.length_singleton, List.range_succ, List.countP_append,
    hbefore, List.countP_singleton]
  simp

/-- Where no child is made, a child waits as long as nothing is written. -/
theorem childWaits_append (h : ∀ e ∈ new, e.branches c = false) :
    childWaits c (es ++ new) = (childWaits c es && !new.any (writes c)) := by
  induction new generalizing es with
  | nil => simp
  | cons e new ih =>
    rw [List.append_cons, ih fun x hx => h x (List.mem_cons_of_mem _ hx), childWaits_concat,
      h e List.mem_cons_self, List.any_cons]
    cases e.writes c <;> simp

/-- **Several writes in a row are noticed once**, if a child was waiting for the first. -/
theorem noticed_append (h : ∀ e ∈ new, e.branches c = false) :
    noticed c (es ++ new) = noticed c es +
      VersionPolicy.firstWriteAfterSpawn.advance (childWaits c es) (new.countP (writes c)) := by
  induction new generalizing es with
  | nil => simp [VersionPolicy.advance_zero]
  | cons e new ih =>
    rw [List.append_cons, ih fun x hx => h x (List.mem_cons_of_mem _ hx), noticed_concat,
      childWaits_concat, h e List.mem_cons_self, List.countP_cons]
    -- once the first write is there, no child waits any more
    cases e.writes c <;> cases childWaits c es <;> simp [VersionPolicy.advance]

end Event

/-- How many of the writes to `c` a policy counts. -/
def VersionPolicy.counted (policy : VersionPolicy) (c : ContextId) (es : List Event) : Nat :=
  match policy with
  | everyWrite => es.countP (Event.writes c)
  | firstWriteAfterSpawn => Event.noticed c es

/-- **What a child hands over to a marked parent**: its types move the version by one, or by as many
as they are, and take the mark away. Without any, nothing moves. -/
theorem Context.enterAll_entries_of_pending {c : Context} (hmark : c.pending = true)
    (policy : VersionPolicy) (child : Context) :
    let k := child.nodeTypes.size + child.varTypes.size
    let after := c.enterAll policy child.entries
    (1 ≤ k → after.pending = false ∧
      (policy = .firstWriteAfterSpawn → after.version = c.version + 1) ∧
      (policy = .everyWrite → after.version = c.version + k)) ∧
    (k = 0 → after.version = c.version ∧ after.pending = c.pending) := by
  intro k after
  have hcount : child.entries.countP Entry.isWrite = k := Context.countP_isWrite_entries
  have hversion : after.version = c.version + policy.advance true k := by
    rw [show after.version = _ from Context.version_enterAll _ _, hcount, hmark]
  have hpending : after.pending = !child.entries.any Entry.isWrite := by
    rw [show after.pending = _ from Context.pending_enterAll _ _, hmark, Bool.true_and]
  constructor
  · intro hk
    have hwrite : child.entries.any Entry.isWrite = true :=
      List.any_eq_true.2 (List.countP_pos_iff.1 (by omega))
    refine ⟨by rw [hpending, hwrite]; rfl, ?_, ?_⟩
    · rintro rfl
      rw [hversion, VersionPolicy.advance, if_pos ⟨rfl, hk⟩]
    · rintro rfl
      rw [hversion, VersionPolicy.advance]
  · intro hk
    have hnone : child.entries.any Entry.isWrite = false := by
      rw [hk, List.countP_eq_zero] at hcount
      simpa using hcount
    rw [hversion, hpending, hk, hnone, hmark, VersionPolicy.advance_zero]
    exact ⟨rfl, rfl⟩

namespace Store

variable {s s' : Store} {c : ContextId} {es new : List Event}

/-- A child of `c` is made by an operation that does nothing else. -/
theorem Change.branches (h : s.Change s' new) (c : ContextId) :
    (∀ e ∈ new, e.branches c = false) ∨ ∃ child, new = [.created child (some c)] := by
  cases h with
  | rest h => exact .inl nofun
  | root settings summarizer h =>
    exact .inl fun e he => by rw [List.mem_singleton.1 he]; rfl
  | child p hp settings summarizer h =>
    by_cases hpc : p = c
    · exact .inr ⟨_, by rw [hpc]⟩
    · exact .inl fun e he => by simp [List.mem_singleton.1 he, Event.branches, hpc]
  | entered p hp entries h => exact .inl fun e he => Event.branches_of_mem_map he

/-- **What one operation does to the mark.** If the mark told whether a child waits, it tells so
afterwards. -/
theorem Change.pending (h : s.Change s' new) (hc : s.Has c)
    (hm : (s.context c).pending = Event.childWaits c es) :
    (s'.context c).pending = Event.childWaits c (es ++ new) := by
  cases h with
  | rest h => rw [context_congr h, List.append_nil, hm]
  | root settings summarizer h =>
    rw [context_congr h, context_add_of_has _ _ hc, hm, Event.childWaits_concat]
    simp [Event.branches, Event.writes]
  | child p hp settings summarizer h =>
    rw [context_congr h, context_createChild _ _ _ _ hc, Event.childWaits_concat]
    by_cases hcp : c = p
    · simp [Event.branches, hcp]
    · simp [Event.branches, Event.writes, hcp, Ne.symm hcp, hm]
  | entered p hp entries h =>
    rw [context_congr h, context_update,
      Event.childWaits_append fun e he => Event.branches_of_mem_map he, List.any_map, ← hm]
    by_cases hcp : c = p
    · subst hcp
      rw [if_pos ⟨rfl, hc⟩, Context.pending_enterAll]
      simp [Function.comp_def, Event.writes]
    · rw [if_neg fun both => hcp both.1]
      simp [Function.comp_def, Event.writes, Ne.symm hcp]

/-- **What one operation does to the count**: it grows by as much as the policy makes a version
advance. -/
theorem Change.counted (h : s.Change s' new) (policy : VersionPolicy) :
    policy.counted c (es ++ new) = policy.counted c es +
      policy.advance (Event.childWaits c es) (new.countP (Event.writes c)) := by
  cases policy with
  | everyWrite => exact List.countP_append
  | firstWriteAfterSpawn =>
    rcases h.branches c with hnone | ⟨child, rfl⟩
    · exact Event.noticed_append hnone
    · simp [VersionPolicy.counted, Event.noticed_concat, Event.writes, VersionPolicy.advance_zero]

/-- Nothing that one operation does comes after the creation of a context by it. -/
theorem Change.since_eq_nil (h : s.Change s' new) (c : ContextId) : Event.since c new = [] := by
  cases h with
  | rest h => rfl
  | root settings summarizer h => simp [Event.since]
  | child p hp settings summarizer h => simp [Event.since]
  | entered p hp entries h =>
    have hnone : ¬ ∃ e ∈ entries.map (Event.entered p), e.creates c = true := by
      rintro ⟨e, he, hcreates⟩
      obtain ⟨entry, -, rfl⟩ := List.mem_map.1 he
      cases hcreates
    rw [← List.append_nil (entries.map _), Event.since_append_of_new hnone]
    rfl

end Store

namespace World

variable {w w' : World} {c : ContextId} {regime : Regime} {policy : VersionPolicy}
  {actions : List Action}

/-- The mark of every context tells whether a child of it waits. -/
def Marked (w : World) : Prop :=
  ∀ c, (w.store.context c).pending = Event.childWaits c (Event.since c w.events)

/-- **One change keeps the marks right.** -/
theorem Marked.change (hm : w.Marked) (hw : w.Sound) {new : List Event}
    (h : w.store.Change w'.store new) (he : w'.events = w.events ++ new) : w'.Marked := by
  intro c
  rw [he]
  by_cases hc : w.store.Has c
  · rw [Event.since_append ((hw.created c).1 hc)]
    exact h.pending hc (hm c)
  · obtain ⟨-, -, -, hblank⟩ := h.blank_of_not_has hc
    rw [Event.since_append_of_new (mt (hw.created c).2 hc), h.since_eq_nil, hblank]
    rfl

theorem Marked.step (hm : w.Marked) (hw : w.Sound) (regime : Regime) (a : Action) :
    (w.step regime a).Marked := by
  by_cases ha : (w.prepared regime).Admits a
  · have hw' := hw.prepared regime
    have hm' : Marked { w with store := w.prepared regime } := hm
    rw [step_of_admits ha]
    exact hm'.change hw' (Store.perform_change hw'.ordered ha) rfl
  · rw [step_of_not_admits ha]
    exact hm

theorem Marked.steps (hm : w.Marked) (hw : w.Sound) (regime : Regime) (actions : List Action) :
    (actions.foldl (World.step regime) w).Marked := by
  induction actions generalizing w with
  | nil => exact hm
  | cons a actions ih => exact ih (hm.step hw regime a) (hw.step regime a)

/-- **In every run the marks are right.** -/
theorem marked_run (regime : Regime) (objects : Objects) (actions : List Action) :
    (run regime objects actions).Marked := by
  have hinit : (init objects).Marked := fun c => by rw [context_init]; rfl
  exact hinit.steps (sound_init objects) regime actions

/-- Whenever an operation is carried out, it finds `c` under the policy. -/
def Governed (regime : Regime) (c : ContextId) (policy : VersionPolicy) : World → List Action → Prop
  | _, [] => True
  | w, a :: actions =>
    (w.prepared regime).policy c = policy ∧ Governed regime c policy (w.step regime a) actions

instance decidableGoverned (regime : Regime) (c : ContextId) (policy : VersionPolicy) (w : World) :
    (actions : List Action) → Decidable (Governed regime c policy w actions)
  | [] => isTrue trivial
  | a :: actions =>
    have := decidableGoverned regime c policy (w.step regime a) actions
    inferInstanceAs (Decidable (_ ∧ _))

/-- **One operation moves a version as far as the count** of the policy it finds. -/
theorem version_step (hw : w.Sound) (hm : w.Marked) (hc : w.store.Has c) (regime : Regime)
    (a : Action) :
    let policy := (w.prepared regime).policy c
    let w' := w.step regime a
    (w'.store.context c).version + policy.counted c (Event.since c w.events) =
      (w.store.context c).version + policy.counted c (Event.since c w'.events) := by
  intro policy w'
  by_cases ha : (w.prepared regime).Admits a
  · have hord : (w.prepared regime).Ordered := hw.ordered
    have hchange := Store.perform_change hord ha
    have hversion : (w'.store.context c).version = (w.store.context c).version +
        policy.advance (w.store.context c).pending
          (((w.prepared regime).eventsOf a).countP (Event.writes c)) := by
      rw [show w' = _ from step_of_admits ha]
      exact hchange.version hc
    have hevents : Event.since c w'.events =
        Event.since c w.events ++ (w.prepared regime).eventsOf a := by
      rw [show w' = _ from step_of_admits ha]
      exact Event.since_append ((hw.created c).1 hc) _
    rw [hversion, hevents, hchange.counted, hm c]
    omega
  · rw [show w' = w from step_of_not_admits ha]

/-- **A run under one policy moves a version as far as its count.** -/
theorem version_steps (hw : w.Sound) (hm : w.Marked) (hc : w.store.Has c)
    (hpolicy : Governed regime c policy w actions) :
    let w' := actions.foldl (World.step regime) w
    (w'.store.context c).version + policy.counted c (Event.since c w.events) =
      (w.store.context c).version + policy.counted c (Event.since c w'.events) := by
  induction actions generalizing w with
  | nil => rfl
  | cons a actions ih =>
    obtain ⟨rfl, hrest⟩ := hpolicy
    have hc' : (w.step regime a).store.Has c := by
      obtain ⟨new, hlater⟩ := hw.exists_later regime [a]
      exact hlater.has c hc
    have hfirst := version_step hw hm hc regime a
    have hlater := ih (hw.step regime a) (hm.step hw regime a) hc' hrest
    simp only [List.foldl_cons] at hfirst hlater ⊢
    omega

/-- Every context there is was made by one of the operations. -/
theorem exists_creation (hc : (actions.foldl (World.step regime) w).store.Has c)
    (hnew : ¬ w.store.Has c) :
    ∃ before a after, actions = before ++ a :: after ∧
      ¬ (before.foldl (World.step regime) w).store.Has c ∧
      ((before ++ [a]).foldl (World.step regime) w).store.Has c := by
  induction actions generalizing w with
  | nil => exact absurd hc hnew
  | cons a actions ih =>
    by_cases hmade : (w.step regime a).store.Has c
    · exact ⟨[], a, actions, rfl, hnew, hmade⟩
    · obtain ⟨before, b, after, heq, hbefore, hafter⟩ := ih hc hmade
      exact ⟨a :: before, b, after, by rw [heq]; rfl, hbefore, hafter⟩

/-- Nothing has happened to a context yet when it is made. -/
theorem since_eq_nil_of_new (hw : w.Sound) (hnew : ¬ w.store.Has c) (a : Action) :
    Event.since c (w.step regime a).events = [] := by
  have hnone := mt (hw.created c).2 hnew
  by_cases ha : (w.prepared regime).Admits a
  · have hord : (w.prepared regime).Ordered := hw.ordered
    rw [step_of_admits ha, Event.since_append_of_new hnone]
    exact (Store.perform_change hord ha).since_eq_nil c
  · rw [step_of_not_admits ha, ← List.append_nil w.events, Event.since_append_of_new hnone]
    rfl

/-- **A version moves on from the creation of its context as far as the count** of all that has
happened since, while the policy stays. -/
theorem version_since_creation {objects : Objects} {before after : List Action} {a : Action}
    (hnew : ¬ (run regime objects before).store.Has c)
    (hmade : (run regime objects (before ++ [a])).store.Has c)
    (hpolicy : Governed regime c policy (run regime objects (before ++ [a])) after) :
    let born := run regime objects (before ++ [a])
    let w := run regime objects (before ++ a :: after)
    (w.store.context c).version =
      (born.store.context c).version + policy.counted c (Event.since c w.events) := by
  intro born w
  have hborn : born = (run regime objects before).step regime a := List.foldl_append ..
  have hrest : w = after.foldl (World.step regime) born := by
    rw [show w = run regime objects (before ++ a :: after) from rfl, hborn, run, List.foldl_append]
    rfl
  -- there is no history at the start, so nothing is counted there
  have hnil : Event.since c born.events = [] := by
    rw [hborn]
    exact since_eq_nil_of_new (sound_run regime objects before) hnew a
  have hnone : policy.counted c [] = 0 := by cases policy <;> rfl
  have hsteps : (w.store.context c).version + policy.counted c (Event.since c born.events) =
      (born.store.context c).version + policy.counted c (Event.since c w.events) := by
    rw [hrest]
    exact version_steps (sound_run regime objects _) (marked_run regime objects _) hmade hpolicy
  rw [hnil, hnone] at hsteps
  exact hsteps

/-- A commit that goes through finds the mark of the parent. -/
theorem Sound.pending_of_fresh (hw : w.Sound) {child p : ContextId}
    (hp : (w.store.context child).parent = some p)
    (hfresh : (w.store.context p).version = (w.store.context child).snapshot) :
    (w.store.context p).pending = true := by
  rcases hw.standing child p hp with ⟨-, hmark, -⟩ | ⟨hlt, -⟩
  · exact hmark
  · omega

/-- **A version counts writes.** In every run, and for every context `c` it has made:

The mark of `c` is there exactly if a child of `c` was made after `c` itself and after the last
write to `c`, whatever the policies were.

While every operation after the one that made `c` finds it under the policy of first writes, its
version moves on by the number of writes to it that found a child made since the write before, or
since `c` was made. While every such operation finds it under the strict policy, its version moves
on by the number of all writes to it.

So an accepted commit of a child that holds `k` types, at least one, moves the version of the parent
by one under the first policy and by `k` under the other, and takes the mark away; the commit of a
child that holds none changes neither. -/
theorem version_counts_writes (regime : Regime) (objects : Objects) (actions : List Action)
    {c : ContextId} :
    let w := run regime objects actions
    let s := w.prepared regime
    let since := Event.since c w.events
    w.store.Has c →
    ((w.store.context c).pending = true ↔ ∃ earlier child later,
      since = earlier ++ .created child (some c) :: later ∧ ∀ e ∈ later, e.writes c = false) ∧
    (∃ before a after, actions = before ++ a :: after ∧
      let born := run regime objects (before ++ [a])
      ¬ (run regime objects before).store.Has c ∧ born.store.Has c ∧
      (Governed regime c .firstWriteAfterSpawn born after →
        (w.store.context c).version = (born.store.context c).version + Event.noticed c since) ∧
      (Governed regime c .everyWrite born after →
        (w.store.context c).version =
          (born.store.context c).version + since.countP (Event.writes c))) ∧
    ∀ child, (s.context child).parent = some c → (s.commit child).1 = .ok () →
      let k := (s.context child).nodeTypes.size + (s.context child).varTypes.size
      let after := (s.commit child).2.context c
      (1 ≤ k → after.pending = false ∧
        (s.policy c = .firstWriteAfterSpawn → after.version = (s.context c).version + 1) ∧
        (s.policy c = .everyWrite → after.version = (s.context c).version + k)) ∧
      (k = 0 → after.version = (s.context c).version ∧
        after.pending = (s.context c).pending) := by
  intro w s since hc
  have hw : w.Sound := sound_run regime objects actions
  have hm : w.Marked := marked_run regime objects actions
  refine ⟨?_, ?_, fun child hp hok => ?_⟩
  · rw [hm c]
    exact Event.childWaits_iff
  · obtain ⟨before, a, after, rfl, hnew, hmade⟩ :=
      exists_creation hc (by rw [Store.Has]; exact Nat.not_lt_zero _)
    exact ⟨before, a, after, rfl, hnew, hmade, version_since_creation hnew hmade,
      version_since_creation hnew hmade⟩
  · have hord : s.Ordered := hw.ordered
    obtain ⟨q, hq, hfresh⟩ := Store.commit_eq_ok_iff.1 hok
    obtain rfl : q = c := Option.some.inj (hq.symm.trans hp)
    have hmark : (s.context q).pending = true := hw.pending_of_fresh hp hfresh
    have hafter := (Store.context_commit_of_fresh hord hp hfresh).1
    rw [hafter]
    exact Context.enterAll_entries_of_pending hmark (s.policy q) (s.context child)

/-- A branch with two types and an error is committed into the root, and a type is recorded in the
root after it. Then two children are made in a row, and a type is recorded again. At last a branch
with two types is made and left open. -/
def busyRoot : List Action :=
  [.createRoot none none, .spawn ⟨0⟩, .recordType ⟨1⟩ .absent (.nilType ⟨1⟩),
    .recordVariable ⟨1⟩ (.bool true) (.nilType ⟨1⟩), .addError ⟨1⟩ .absent, .commit ⟨1⟩,
    .recordType ⟨0⟩ .absent (.anyType ⟨2⟩), .createChild ⟨0⟩ none none, .spawn ⟨0⟩,
    .recordVariable ⟨0⟩ (.bool false) (.nilType ⟨1⟩), .spawn ⟨0⟩,
    .recordType ⟨4⟩ .absent (.nilType ⟨1⟩), .recordVariable ⟨4⟩ (.bool true) (.anyType ⟨2⟩)]

/-- The first operation makes the root. -/
theorem busyRoot_split {regime : Regime} {before after : List Action} {a : Action}
    (heq : busyRoot = before ++ a :: after) (hnew : ¬ (run regime {} before).store.Has ⟨0⟩) :
    before = [] ∧ a = .createRoot none none ∧ after = busyRoot.tail := by
  cases before with
  | nil =>
    obtain ⟨rfl, rfl⟩ := List.cons.inj heq
    exact ⟨rfl, rfl, rfl⟩
  | cons b before =>
    obtain ⟨rfl, -⟩ := List.cons.inj heq
    obtain ⟨new, hlater⟩ :=
      (sound_run regime {} [.createRoot none none]).exists_later regime before
    exact absurd (hlater.has ⟨0⟩ (Nat.zero_lt_one)) hnew

/-- Four types are put down in the root, two of them right after children were made. The open branch
raises the version once more, by one or by its two types. -/
theorem busyRoot_counted :
    let lax := Schedule.regime fun _ _ => .firstWriteAfterSpawn
    let strict := Schedule.regime fun _ _ => .everyWrite
    let w := run lax {} busyRoot
    let w' := run strict {} busyRoot
    let handed := ((w.prepared lax).commit ⟨4⟩).2.context ⟨0⟩
    let handed' := ((w'.prepared strict).commit ⟨4⟩).2.context ⟨0⟩
    (w.store.context ⟨0⟩).pending = true ∧ (w.store.context ⟨0⟩).version = 2 ∧
      (w'.store.context ⟨0⟩).version = 4 ∧ handed.pending = false ∧ handed.version = 3 ∧
      handed'.version = 6 := by
  intro lax strict w w' handed handed'
  obtain ⟨hmark, ⟨before, a, after, heq, hnew, -, hlax, -⟩, hcommit⟩ :=
    version_counts_writes lax {} busyRoot (c := ⟨0⟩) (by decide +kernel)
  obtain ⟨-, ⟨before', a', after', heq', hnew', -, -, hstrict⟩, hcommit'⟩ :=
    version_counts_writes strict {} busyRoot (c := ⟨0⟩) (by decide +kernel)
  obtain ⟨rfl, rfl, rfl⟩ := busyRoot_split heq hnew
  obtain ⟨rfl, rfl, rfl⟩ := busyRoot_split heq' hnew'
  have hversion : (w.store.context ⟨0⟩).version = 2 :=
    (hlax (by decide +kernel)).trans (by decide +kernel)
  have hversion' : (w'.store.context ⟨0⟩).version = 4 :=
    (hstrict (by decide +kernel)).trans (by decide +kernel)
  have hok : ((w.prepared lax).commit ⟨4⟩).1 = .ok () :=
    Store.commit_eq_ok_iff.2 ⟨⟨0⟩, by decide +kernel, by decide +kernel⟩
  have hok' : ((w'.prepared strict).commit ⟨4⟩).1 = .ok () :=
    Store.commit_eq_ok_iff.2 ⟨⟨0⟩, by decide +kernel, by decide +kernel⟩
  obtain ⟨hpending, hone, -⟩ := (hcommit ⟨4⟩ (by decide +kernel) hok).1 (by decide +kernel)
  obtain ⟨-, -, hall⟩ := (hcommit' ⟨4⟩ (by decide +kernel) hok').1 (by decide +kernel)
  have hsame : ∀ (regime : Regime) (w : World) (c : ContextId),
      (w.prepared regime).context c = w.store.context c := fun _ _ _ => rfl
  refine ⟨hmark.2 ?_, hversion, hversion', hpending, ?_, ?_⟩
  · exact Event.childWaits_iff.1 (by decide +kernel)
  · rw [show handed.version = _ from hone (by decide +kernel), hsame, hversion]
  · have htypes : ((w'.prepared strict).context ⟨4⟩).nodeTypes.size +
        ((w'.prepared strict).context ⟨4⟩).varTypes.size = 2 := by
      decide +kernel
    rw [show handed'.version = _ from hall (by decide +kernel), htypes,
      hsame, hversion']

end World

end TypingStore

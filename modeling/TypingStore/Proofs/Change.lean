import TypingStore.Proofs.Run

/-!
# What an operation does to the contexts

Whatever the operation, it changes the contexts in one of four ways (`Store.Change`), and
its events tell which (`perform_change`). What a run preserves is shown of these four
ways, not of the operations one by one.

* `commit_of_fresh`, `context_commit_of_fresh`: an accepted commit is entries put down in the
  parent.
* `Change.made`: which contexts there are afterwards.
* `Change.origin`: no context ever gets another parent, settings, summaries or snapshot.
* `Change.version`: the version of a context moves only with the writes to it.
-/

namespace TypingStore.Store

/-- A parent was made before its children. -/
def Ordered (s : Store) : Prop :=
  ∀ c p : ContextId, (s.context c).parent = some p → p.index < c.index

theorem context_congr {s s' : Store} (h : s'.contexts = s.contexts) : s'.context = s.context := by
  funext c; simp only [context, h]

theorem has_congr {s s' : Store} (h : s'.contexts = s.contexts) (c : ContextId) :
    s'.Has c ↔ s.Has c := by
  simp only [Has, h]

theorem context_of_not_has {s : Store} {c : ContextId} (hc : ¬ s.Has c) :
    s.context c = default := by
  unfold context
  simp only [Has] at hc
  simp [Array.getD_eq_getD_getElem?, Array.getElem?_eq_none (Nat.le_of_not_lt hc)]

@[simp] theorem size_update (s : Store) (c : ContextId) (f : Context → Context) :
    (s.update c f).contexts.size = s.contexts.size := by
  simp [update]

/-- A context that was never made has no parent. -/
theorem has_of_parent {s : Store} {c p : ContextId} (hp : (s.context c).parent = some p) :
    s.Has c := by
  refine Decidable.byContradiction fun hc => ?_
  rw [context_of_not_has hc] at hp
  cases hp

theorem Ordered.has_parent {s : Store} (hs : s.Ordered) {c p : ContextId}
    (hp : (s.context c).parent = some p) : s.Has p :=
  Nat.lt_trans (hs c p hp) (has_of_parent hp)

/-- Entries put down in `p` are writes to `p`, and to no other context. -/
theorem exists_writes_map {p q : ContextId} {entries : List Entry} :
    (∃ e ∈ entries.map (Event.entered p), e.writes q = true) ↔
      p = q ∧ ∃ e ∈ entries, e.isWrite = true := by
  constructor
  · rintro ⟨e, he, hw⟩
    obtain ⟨x, hx, rfl⟩ := List.mem_map.1 he
    simp only [Event.writes, Bool.and_eq_true, decide_eq_true_eq] at hw
    exact ⟨hw.1, x, hx, hw.2⟩
  · rintro ⟨rfl, x, hx, hw⟩
    exact ⟨.entered p x, List.mem_map_of_mem hx, by simp [Event.writes, hw]⟩

/-- The four ways in which an operation can change the contexts, with the events that tell them. -/
inductive Change (s s' : Store) : List Event → Prop where
  /-- The contexts stay as they were. -/
  | rest (h : s'.contexts = s.contexts) : Change s s' []
  /-- A root is made. -/
  | root (settings : SettingsRef) (summarizer : Summarizer)
      (h : s'.contexts =
        (s.add { parent := none, settings := settings, summarizer := summarizer }).2.contexts) :
      Change s s' [.created ⟨s.contexts.size⟩ none]
  /-- A child is made. -/
  | child (p : ContextId) (hp : s.Has p) (settings : Option SettingsRef)
      (summarizer : Option Summarizer)
      (h : s'.contexts = (s.createChild p settings summarizer).2.contexts) :
      Change s s' [.created ⟨s.contexts.size⟩ (some p)]
  /-- Entries are put down in a context, under its policy. -/
  | entered (p : ContextId) (hp : s.Has p) (entries : List Entry)
      (h : s'.contexts = (s.update p (Context.enterAll (s.policy p) entries)).contexts) :
      Change s s' (entries.map (.entered p))

/-- **An accepted commit** puts the entries of the child down in the parent, and touches no
object. -/
theorem commit_of_fresh (s : Store) {c p : ContextId} (hp : (s.context c).parent = some p)
    (hv : (s.context p).version = (s.context c).snapshot) :
    (s.commit c).1 = .ok () ∧ (s.commit c).2.objects = s.objects ∧
      (s.commit c).2.contexts =
        (s.update p (Context.enterAll (s.policy p) (s.context c).entries)).contexts := by
  obtain ⟨hok, hcontexts⟩ := contexts_commit_of_fresh s hp hv
  have habsorb : (fun above : Context => above.absorb (s.policy p) (s.context c)) =
      Context.enterAll (s.policy p) (s.context c).entries :=
    funext fun _ => Context.absorb_eq_enterAll
  have hobjects : (s.commit c).2.objects = s.objects := by
    simp only [commit, hp, ne_eq, hv, not_true_eq_false, if_false]
    rfl
  rw [habsorb] at hcontexts
  exact ⟨hok, hobjects, hcontexts⟩

/-- After an accepted commit the parent has the entries of the child put down, and no other context
has changed. -/
theorem context_commit_of_fresh {s : Store} (hs : s.Ordered) {c p : ContextId}
    (hp : (s.context c).parent = some p) (hv : (s.context p).version = (s.context c).snapshot) :
    (s.commit c).2.context p = (s.context p).enterAll (s.policy p) (s.context c).entries ∧
      ∀ d, d ≠ p → (s.commit c).2.context d = s.context d := by
  have hcontexts := (s.commit_of_fresh hp hv).2.2
  have hparent : s.Has p := hs.has_parent hp
  constructor
  · rw [context_congr hcontexts, context_update, if_pos ⟨rfl, hparent⟩]
  · intro d hdp
    rw [context_congr hcontexts, context_update, if_neg fun both => hdp both.1]

/-- A commit is refused and changes nothing, or the parent takes down the entries of the child. -/
theorem commit_change {s : Store} (hs : s.Ordered) (c : ContextId) :
    s.Change (s.commit c).2 (s.eventsOf (.commit c)) := by
  cases hp : (s.context c).parent with
  | none =>
    have hc : (s.commit c).2.contexts = s.contexts := by simp only [commit, hp]; rfl
    have he : s.eventsOf (.commit c) = [] := by
      simp only [eventsOf, hp]
      split
      · rename_i h; cases h
      · rfl
    rw [he]; exact .rest hc
  | some p =>
    by_cases hv : (s.context p).version = (s.context c).snapshot
    · obtain ⟨hok, -, hc⟩ := s.commit_of_fresh hp hv
      have he : s.eventsOf (.commit c) = (s.context c).entries.map (.entered p) := by
        simp only [eventsOf, hp, hok]
      rw [he]
      exact .entered p (hs.has_parent hp) _ hc
    · have hc := contexts_commit_of_stale s hp hv
      have he : s.eventsOf (.commit c) = [] := by
        simp only [eventsOf, hp, commit, ne_eq, hv, not_false_eq_true, if_true]
        rfl
      rw [he]; exact .rest hc

/-- **An operation does what its events say**, and nothing else, to the contexts. -/
theorem perform_change {s : Store} (hs : s.Ordered) {a : Action} (ha : s.Admits a) :
    s.Change (s.perform a).2 (s.eventsOf a) := by
  cases a with
  | createRoot settings summarizer => exact .root (s.objects.settingsOr settings).1 _ rfl
  | createChild p settings summarizer => exact .child p (ha p rfl) settings summarizer rfl
  | spawn p => exact .child p (ha p rfl) none none rfl
  | recordType c node type => exact .entered c (ha c rfl) [.nodeType node type] rfl
  | recordVariable c name type =>
    cases hh : handleOf name with
    | error failure =>
      simp only [perform, eventsOf, Store.recordVariable, hh]
      exact .rest rfl
    | ok handle =>
      simp only [perform, eventsOf, Store.recordVariable, hh]
      exact .entered c (ha c rfl) [.varType handle type] rfl
  | addError c error => exact .entered c (ha c rfl) [.error error] rfl
  | commit c => exact commit_change hs c
  | typeOf c node =>
    refine .rest ?_
    simp only [perform, Store.typeOf]
    split <;> rfl
  | variableTypeOf c name =>
    refine .rest ?_
    simp only [perform, Store.variableTypeOf]
    split
    · rfl
    · split <;> rfl
  | assign target field new =>
    refine .rest ?_
    simp only [perform]
    split <;> rfl
  | hasType c node => exact .rest rfl
  | hasVariable c name => exact .rest rfl
  | typings c => exact .rest rfl
  | variableTypes c => exact .rest rfl
  | errors c => exact .rest rfl
  | dump c => exact .rest rfl
  | caption c => exact .rest rfl
  | newRecord kind fields others => exact .rest rfl
  | newIndividual kind attributes => exact .rest rfl

/-! ## What each way preserves -/

theorem has_add (s : Store) (new : Context) (d : ContextId) :
    (s.add new).2.Has d ↔ s.Has d ∨ d = ⟨s.contexts.size⟩ := by
  obtain ⟨i⟩ := d
  simp only [Has, add, Array.size_push, ContextId.mk.injEq]
  omega

theorem has_createChild (s : Store) (p : ContextId) (settings : Option SettingsRef)
    (summarizer : Option Summarizer) (d : ContextId) :
    (s.createChild p settings summarizer).2.Has d ↔ s.Has d ∨ d = ⟨s.contexts.size⟩ := by
  simp only [createChild, has_add, has_update, size_update]

/-- The new child reads back as a child of its parent. -/
theorem context_createChild_self (s : Store) (p : ContextId) (settings : Option SettingsRef)
    (summarizer : Option Summarizer) :
    (s.createChild p settings summarizer).2.context ⟨s.contexts.size⟩ =
      (s.context p).childOf p (settings.getD (s.context p).settings)
        (summarizer.getD (s.context p).summarizer) := by
  have hsize := size_update s p fun c => { c with pending := true }
  rw [← hsize]
  exact context_add_self _ _

namespace Change

variable {s s' : Store} {es : List Event}

/-- Contexts are only ever added, and each one that is added is told. -/
theorem made (h : s.Change s' es) (d : ContextId) :
    s'.Has d ↔ s.Has d ∨ ∃ e ∈ es, e.creates d = true := by
  cases h with
  | rest h => simp [has_congr h]
  | root settings summarizer h =>
    rw [has_congr h, has_add, @eq_comm _ d]
    simp [Event.creates]
  | child p hp settings summarizer h =>
    rw [has_congr h, has_createChild, @eq_comm _ d]
    simp [Event.creates]
  | entered p hp entries h => simp [has_congr h, Event.creates]

/-- **No context ever gets another parent, settings, summaries or snapshot.** -/
theorem origin (h : s.Change s' es) {d : ContextId} (hd : s.Has d) :
    (s'.context d).parent = (s.context d).parent ∧
      (s'.context d).settings = (s.context d).settings ∧
      (s'.context d).summarizer = (s.context d).summarizer ∧
      (s'.context d).snapshot = (s.context d).snapshot := by
  cases h with
  | rest h => rw [context_congr h]; exact ⟨rfl, rfl, rfl, rfl⟩
  | root settings summarizer h =>
    rw [context_congr h, context_add_of_has _ _ hd]; exact ⟨rfl, rfl, rfl, rfl⟩
  | child p hp settings summarizer h =>
    rw [context_congr h, context_createChild _ _ _ _ hd]
    split <;> exact ⟨rfl, rfl, rfl, rfl⟩
  | entered p hp entries h =>
    rw [context_congr h, context_update]
    split
    · rename_i hdp
      rw [hdp.1]; exact Context.origin_enterAll entries _
    · exact ⟨rfl, rfl, rfl, rfl⟩

/-- Without a new context, every context stays where it stands. -/
theorem summarizer_of_no_creation (h : s.Change s' es) (hno : ∀ c p, .created c p ∉ es)
    (d : ContextId) : (s'.context d).summarizer = (s.context d).summarizer := by
  by_cases hd : s.Has d
  · exact (h.origin hd).2.2.1
  · have hd' : ¬ s'.Has d := by
      rw [h.made, not_or]
      refine ⟨hd, ?_⟩
      rintro ⟨e, he, hc⟩
      cases e with
      | created c p => exact hno c p he
      | entered c entry => cases hc
    rw [context_of_not_has hd, context_of_not_has hd']

/-- **A new context** is a root, or the child of a context made before, whose version it takes as
its own and as its snapshot, and which is marked. -/
theorem born (h : s.Change s' es) {d : ContextId} (hd : ¬ s.Has d) (hd' : s'.Has d) :
    ((s'.context d).parent = none ∧ (s'.context d).version = 0) ∨
      ∃ p, s.Has p ∧ es = [.created d (some p)] ∧ (s'.context d).parent = some p ∧
        (s'.context d).snapshot = (s.context p).version ∧
        (s'.context d).version = (s.context p).version ∧
        (s'.context p).version = (s.context p).version ∧ (s'.context p).pending = true := by
  cases h with
  | rest h => exact absurd ((has_congr h d).1 hd') hd
  -- the only context that was not there before is the one at the end
  | root settings summarizer h =>
    rw [has_congr h, has_add] at hd'
    rw [context_congr h, hd'.resolve_left hd]
    have hself := context_add_self s
      { parent := none, settings := settings, summarizer := summarizer }
    exact .inl ⟨congrArg Context.parent hself, congrArg Context.version hself⟩
  | child p hp settings summarizer h =>
    rw [has_congr h, has_createChild] at hd'
    obtain rfl := hd'.resolve_left hd
    refine .inr ⟨p, hp, rfl, ?_⟩
    rw [context_congr h, context_createChild_self, context_createChild _ _ _ _ hp, if_pos rfl]
    exact ⟨rfl, rfl, rfl, rfl, rfl⟩
  | entered p hp entries h =>
    rw [has_congr h, has_update] at hd'
    exact absurd hd' hd

/-- A context that was not there before holds nothing afterwards and is not marked. -/
theorem blank_of_not_has (h : s.Change s' es) {d : ContextId} (hd : ¬ s.Has d) :
    (s'.context d).nodeTypes = {} ∧ (s'.context d).varTypes = {} ∧ (s'.context d).errors = [] ∧
      (s'.context d).pending = false := by
  by_cases hd' : s'.Has d
  · cases h with
    | rest h => exact absurd ((has_congr h d).1 hd') hd
    | root settings summarizer h =>
      rw [has_congr h, has_add] at hd'
      have hself := context_add_self s
        { parent := none, settings := settings, summarizer := summarizer }
      rw [context_congr h, hd'.resolve_left hd,
        show (⟨s.contexts.size⟩ : ContextId) = (s.add _).1 from rfl, hself]
      exact ⟨rfl, rfl, rfl, rfl⟩
    | child p hp settings summarizer h =>
      rw [has_congr h, has_createChild] at hd'
      rw [context_congr h, hd'.resolve_left hd, context_createChild_self]
      exact ⟨rfl, rfl, rfl, rfl⟩
    | entered p hp entries h =>
      rw [has_congr h, has_update] at hd'
      exact absurd hd' hd
  · rw [context_of_not_has hd']
    exact ⟨rfl, rfl, rfl, rfl⟩

/-- **Only writes move a version**, by as much as the policy says. -/
theorem version (h : s.Change s' es) {d : ContextId} (hd : s.Has d) :
    (s'.context d).version = (s.context d).version +
      (s.policy d).advance (s.context d).pending (es.countP (Event.writes d)) := by
  -- only entries put down in `d` itself count, and of these only the writes
  cases h with
  | rest h => rw [context_congr h]; simp [VersionPolicy.advance_zero]
  | root settings summarizer h =>
    rw [context_congr h, context_add_of_has _ _ hd]
    simp [Event.writes, VersionPolicy.advance_zero]
  | child p hp settings summarizer h =>
    rw [context_congr h, context_createChild _ _ _ _ hd]
    split <;> simp [Event.writes, VersionPolicy.advance_zero]
  | entered p hp entries h =>
    rw [context_congr h, context_update, List.countP_map]
    by_cases hdp : d = p
    · subst hdp
      have hcount : (Event.writes d ∘ Event.entered d) = Entry.isWrite := by
        funext e; simp [Event.writes]
      rw [if_pos ⟨rfl, hd⟩, Context.version_enterAll, hcount]
    · have hcount : (Event.writes d ∘ Event.entered p) = fun _ => false := by
        funext e; simp [Event.writes, Ne.symm hdp]
      rw [if_neg (fun h => hdp h.1), hcount]
      simp [VersionPolicy.advance_zero]

/-- Nothing but a write takes the mark away. -/
theorem pending_of_no_write (h : s.Change s' es) {d : ContextId} (hd : s.Has d)
    (hw : es.countP (Event.writes d) = 0) (hm : (s.context d).pending = true) :
    (s'.context d).pending = true := by
  cases h with
  | rest h => rw [context_congr h]; exact hm
  | root settings summarizer h => rw [context_congr h, context_add_of_has _ _ hd]; exact hm
  | child p hp settings summarizer h =>
    rw [context_congr h, context_createChild _ _ _ _ hd]
    split
    · rfl
    · exact hm
  | entered p hp entries h =>
    rw [context_congr h, context_update]
    split
    · rename_i hdp
      obtain ⟨rfl, -⟩ := hdp
      have hno : entries.any Entry.isWrite = false := by
        rw [List.countP_eq_zero] at hw
        simpa [Event.writes] using hw
      rw [Context.pending_enterAll, hm, hno]; rfl
    · exact hm

/-- The order of creation is kept: parents come first. -/
theorem ordered (h : s.Change s' es) (hs : s.Ordered) : s'.Ordered := by
  intro c p hp
  by_cases hc : s.Has c
  · rw [(h.origin hc).1] at hp
    exact hs c p hp
  · rcases h.born hc (has_of_parent hp) with ⟨h0, -⟩ | ⟨q, hq, -, hcq, -⟩
    · rw [h0] at hp; cases hp
    · rw [hcq] at hp
      cases hp
      exact Nat.lt_of_lt_of_le hq (Nat.le_of_not_lt hc)

end Change

end TypingStore.Store

import TypingStore.Proofs.FirstBinding
import TypingStore.Store.Iteration

/-!
# Walks over a context that is written to

A walk over the typings of a context is driven step by step, and between two steps anything may
happen: operations on any context, commits into the one that is walked over, steps of other walks
(`Session`). Whatever happens, **a walk comes to the nodes that the context had at its first step,
in the order of their first records, each once and with the type it has at that moment**. It either
gets to the end of them, or a node was added in the meantime, and then the next step fails and the
walk is over (`Session.walks_in_order`).

The nodes of a context change with the first record of a node and with the commit of a child that
has a new one, and with nothing else; new nodes come at the end (`World.nodesIn_step_ne_iff`). This
is why the nodes at the first step are told from those at a later one by their number alone.

* `Cursor.step_spec`: one step, told by the nodes of the context.
* `Going.next`, `Going.later`: what is known of a walk is kept by its steps and by all that happens
  in between.
-/

namespace TypingStore

/-- A key that is bound is found under itself, as no key before it is like it. -/
theorem Bindings.Distinct.get?_of_mem {κ ν : Type} [BEq κ] [EquivBEq κ] {b : Bindings κ ν}
    (hb : b.Distinct) {entry : κ × ν} (hentry : entry ∈ b.entries) :
    b.get? entry.1 = some entry.2 := by
  obtain ⟨before, after, hsplit⟩ := List.append_of_mem hentry
  have hfind : b.entries.find? (fun e => e.1 == entry.1) = some entry := by
    refine List.find?_eq_some_iff_append.2 ⟨BEq.rfl, before, after, hsplit, ?_⟩
    intro other hother
    rw [Distinct, keys, hsplit, List.map_append] at hb
    have happart := (List.pairwise_append.1 hb).2.2 other.1 (List.mem_map_of_mem hother) entry.1
      (List.mem_map_of_mem List.mem_cons_self)
    simp [happart]
  rw [get?, hfind]
  rfl

/-! ## Moves -/

/-- One move of those who work on the contexts and walk over what they hold. -/
inductive Move where
  | act (a : Action)
  /-- Gets a walk over a context, which looks at nothing before its first step. -/
  | walk (c : ContextId)
  /-- The next step of a walk. -/
  | next (walk : Nat)

/-- A step that was taken in a walk, with the world that it found. -/
structure WalkStep where
  walk : Nat
  found : World
  answer : Except Failure (Option (Value × Value))

/-- A world, the walks over its contexts, and the steps that were taken in them, the first one
first. -/
structure Session where
  world : World
  walks : List Cursor := []
  steps : List WalkStep := []

namespace Session

/-- Makes a move. A walk over a context that was never made is passed over, and so is a step of a
walk that was never begun. -/
def move (regime : Regime) (session : Session) : Move → Session
  | .act a => { session with world := session.world.step regime a }
  | .walk c =>
    if session.world.store.Has c then { session with walks := session.walks ++ [{ context := c }] }
    else session
  | .next walk =>
    match session.walks[walk]? with
    | none => session
    | some cursor =>
      let (answer, cursor) := cursor.next session.world.store
      { session with
        walks := session.walks.set walk cursor
        steps := session.steps ++ [{ walk := walk, found := session.world, answer := answer }] }

/-- Makes several moves, from a world in which only objects have been made. -/
def run (regime : Regime) (objects : Objects) (moves : List Move) : Session :=
  moves.foldl (move regime) { world := .init objects }

/-- The steps of one walk. -/
def stepsOf (session : Session) (walk : Nat) : List WalkStep :=
  session.steps.filter fun step => step.walk = walk

end Session

/-! ## What a step may answer -/

/-- The nodes that have a type in a context, in the order of their first records. -/
def World.nodesIn (w : World) (c : ContextId) : List NodeKey := w.keysIn Entry.nodeType? c

theorem World.Told.nodes {w : World} (hw : w.Told) (c : ContextId) :
    (w.store.context c).nodeTypes.keys = w.nodesIn c :=
  (hw.keys c).1.1

namespace WalkStep

/-- The step finds the nodes that the walk began with, and comes to the one at `position`, with the
type it has at that moment. -/
def Yields (c : ContextId) (nodes : List NodeKey) (position : Nat) (step : WalkStep) : Prop :=
  step.found.nodesIn c = nodes ∧ ∃ key type, nodes[position]? = some key ∧
    step.answer = .ok (some (key.node, type)) ∧
    (step.found.store.typeOf c key.node).1 = .ok type

/-- The step finds the nodes that the walk began with and reports the end. -/
def Ends (c : ContextId) (nodes : List NodeKey) (step : WalkStep) : Prop :=
  step.found.nodesIn c = nodes ∧ step.answer = .ok none

/-- The step finds a node that was added to those the walk began with, and fails. -/
def Fails (c : ContextId) (nodes : List NodeKey) (step : WalkStep) : Prop :=
  (∃ new more, step.found.nodesIn c = nodes ++ new :: more) ∧
    step.answer = .error .changedDuringIteration

end WalkStep

/-- The first of the steps finds these nodes. -/
def BeginsWith (c : ContextId) (nodes : List NodeKey) (steps : List WalkStep) : Prop :=
  ∃ first rest, steps = first :: rest ∧ first.found.nodesIn c = nodes

theorem BeginsWith.append {c : ContextId} {nodes : List NodeKey} {steps : List WalkStep}
    (h : BeginsWith c nodes steps) (more : List WalkStep) : BeginsWith c nodes (steps ++ more) := by
  obtain ⟨first, rest, rfl, hfirst⟩ := h
  exact ⟨first, rest ++ more, rfl, hfirst⟩

/-- The steps come to the nodes one after the other. -/
def YieldInOrder (c : ContextId) (nodes : List NodeKey) (steps : List WalkStep) : Prop :=
  ∀ position (step : WalkStep), steps[position]? = some step → step.Yields c nodes position

/-- A walk is over: it came to the end of the nodes, or it failed, and only reports the end since
then. -/
def Over (c : ContextId) (nodes : List NodeKey) (yields rest : List WalkStep) : Prop :=
  ∃ last later, rest = last :: later ∧
    (yields.length = nodes.length ∧ last.Ends c nodes ∨ last.Fails c nodes) ∧
    ∀ step ∈ later, step.answer = .ok none

/-! ## One step -/

/-- **One step**, told by the nodes of the context. -/
theorem Cursor.step_spec (s : Store) (c : ContextId) (position size : Nat)
    (hdistinct : (s.context c).nodeTypes.Distinct) :
    let nodes := (s.context c).nodeTypes.keys
    (nodes.length ≠ size → step s c position size = (.error .changedDuringIteration, .finished)) ∧
    (nodes.length = size → nodes.length ≤ position → step s c position size =
      (.ok none, .finished)) ∧
    (nodes.length = size → position < nodes.length → ∃ key type, nodes[position]? = some key ∧
      (s.typeOf c key.node).1 = .ok type ∧
      step s c position size = (.ok (some (key.node, type)), .running (position + 1) size)) := by
  intro nodes
  have hlength : nodes.length = (s.context c).nodeTypes.entries.length := List.length_map _
  refine ⟨fun hsize => ?_, fun hsize hend => ?_, fun hsize hleft => ?_⟩
  · rw [hlength] at hsize
    simp only [step, ne_eq, hsize, not_false_eq_true, if_true]
  · rw [hlength] at hsize hend
    simp only [step, ne_eq, hsize, not_true_eq_false, if_false, List.getElem?_eq_none hend]
  · have hposition : position < (s.context c).nodeTypes.entries.length := hlength ▸ hleft
    obtain ⟨⟨key, type⟩, hentry⟩ : ∃ entry, (s.context c).nodeTypes.entries[position]? =
        some entry := ⟨_, List.getElem?_eq_getElem hposition⟩
    have htype : (s.context c).nodeTypes.get? ⟨key.node⟩ = some type :=
      hdistinct.get?_of_mem (List.mem_of_getElem? hentry)
    refine ⟨key, type, ?_, ?_, ?_⟩
    · show ((s.context c).nodeTypes.entries.map Prod.fst)[position]? = some key
      rw [List.getElem?_map, hentry]
      rfl
    · refine ((s.typeOf_ends c key.node).1 type).2 ?_
      rw [Store.findType_eq_or, htype]
      rfl
    · rw [hlength] at hsize
      simp only [step, ne_eq, hsize, not_true_eq_false, if_false, hentry]

/-! ## What is known of a walk -/

/-- What is known of a walk from the steps it has taken, by how far it has come. -/
def Going (w : World) (cursor : Cursor) (steps : List WalkStep) : Prop :=
  w.store.Has cursor.context ∧
    match cursor.progress with
    | .notStarted => steps = []
    | .running position size => ∃ nodes, BeginsWith cursor.context nodes steps ∧
        YieldInOrder cursor.context nodes steps ∧ position = steps.length ∧ size = nodes.length ∧
        nodes <+: w.nodesIn cursor.context
    | .finished => ∃ nodes yields rest, BeginsWith cursor.context nodes steps ∧
        steps = yields ++ rest ∧ YieldInOrder cursor.context nodes yields ∧
        Over cursor.context nodes yields rest

namespace Going

variable {w w' : World} {cursor : Cursor} {steps : List WalkStep}

/-- **Whatever happens between two steps** adds nodes at the end, if at all. -/
theorem later (h : Going w cursor steps) {new : List Event} (hlater : w.Later new w')
    (hw : w.Told) (hw' : w'.Told) : Going w' cursor steps := by
  obtain ⟨hhas, hgoing⟩ := h
  have hnodes : w.nodesIn cursor.context <+: w'.nodesIn cursor.context := by
    rw [← hw.nodes, ← hw'.nodes, (hlater.grows _ hhas).nodeTypes]
    exact Bindings.keys_prefix_insertAll _ _
  refine ⟨hlater.has _ hhas, ?_⟩
  cases hprogress : cursor.progress with
  | notStarted => simpa only [hprogress] using hgoing
  | finished => simpa only [hprogress] using hgoing
  | running position size =>
    simp only [hprogress] at hgoing ⊢
    obtain ⟨nodes, hbegins, hyields, hposition, hsize, hstarts⟩ := hgoing
    exact ⟨nodes, hbegins, hyields, hposition, hsize, hstarts.trans hnodes⟩

/-- A step past the nodes that a walk has come to, in a world that has kept these nodes in their
places. -/
theorem step {c : ContextId} {nodes : List NodeKey} {walk : Nat} (hw : w.Told)
    (hhas : w.store.Has c) (hstarts : nodes <+: w.nodesIn c) (hyields : YieldInOrder c nodes steps)
    (answer : Except Failure (Option (Value × Value))) (progress : Cursor.Progress)
    (hstep : Cursor.step w.store c steps.length nodes.length = (answer, progress))
    (hbegins : BeginsWith c nodes (steps ++ [⟨walk, w, answer⟩])) :
    Going w ⟨c, progress⟩ (steps ++ [⟨walk, w, answer⟩]) := by
  obtain ⟨hfails, hends, hgoes⟩ :=
    Cursor.step_spec w.store c steps.length nodes.length (hw.keys c).2.1
  rw [hw.nodes c] at hfails hends hgoes
  -- the walk has come to no more nodes than there are
  have hle : steps.length ≤ nodes.length := by
    refine Nat.le_of_not_lt fun hlong => ?_
    obtain ⟨-, key, type, hkey, -⟩ := hyields nodes.length _ (List.getElem?_eq_getElem hlong)
    rw [List.getElem?_eq_none (Nat.le_refl _)] at hkey
    cases hkey
  refine ⟨hhas, ?_⟩
  by_cases hsize : (w.nodesIn c).length = nodes.length
  · have hnodes : w.nodesIn c = nodes := (hstarts.eq_of_length hsize.symm).symm
    by_cases hleft : steps.length < nodes.length
    · obtain ⟨key, type, hkey, htype, hnext⟩ := hgoes hsize (hsize ▸ hleft)
      obtain ⟨rfl, rfl⟩ := Prod.mk.inj (hstep.symm.trans hnext)
      refine ⟨nodes, hbegins, ?_, by simp, rfl, hstarts⟩
      intro position taken htaken
      rcases Nat.lt_trichotomy position steps.length with hbefore | rfl | hafter
      · rw [List.getElem?_append_left hbefore] at htaken
        exact hyields position taken htaken
      · rw [List.getElem?_concat_length] at htaken
        cases htaken
        exact ⟨hnodes, key, type, hnodes ▸ hkey, rfl, htype⟩
      · rw [List.getElem?_eq_none (by simp; omega)] at htaken
        cases htaken
    · have hall : steps.length = nodes.length := Nat.le_antisymm hle (Nat.le_of_not_lt hleft)
      obtain ⟨rfl, rfl⟩ := Prod.mk.inj (hstep.symm.trans (hends hsize (by omega)))
      exact ⟨nodes, steps, _, hbegins, rfl, hyields, _, [], rfl, .inl ⟨hall, hnodes, rfl⟩, by simp⟩
  · obtain ⟨rfl, rfl⟩ := Prod.mk.inj (hstep.symm.trans (hfails hsize))
    obtain ⟨more, hmore⟩ := hstarts
    cases more with
    | nil =>
      rw [List.append_nil] at hmore
      exact absurd (congrArg List.length hmore).symm hsize
    | cons new more =>
      exact ⟨nodes, steps, _, hbegins, rfl, hyields, _, [], rfl,
        .inr ⟨⟨new, more, hmore.symm⟩, rfl⟩, by simp⟩

/-- **A step of the walk itself.** -/
theorem next (h : Going w cursor steps) (hw : w.Told) (walk : Nat) :
    Going w (cursor.next w.store).2
      (steps ++ [⟨walk, w, (cursor.next w.store).1⟩]) := by
  obtain ⟨c, progress⟩ := cursor
  obtain ⟨hhas, hgoing⟩ := h
  cases progress with
  | notStarted =>
    obtain rfl : steps = [] := hgoing
    have hsize : (w.store.context c).nodeTypes.size = (w.nodesIn c).length := by
      rw [← hw.nodes]
      exact (List.length_map _).symm
    have hnext : Cursor.step w.store c 0 (w.nodesIn c).length =
        ((Cursor.next w.store ⟨c, .notStarted⟩).1,
          (Cursor.next w.store ⟨c, .notStarted⟩).2.progress) := by
      rw [← hsize]
      rfl
    have hnone : YieldInOrder c (w.nodesIn c) [] := fun _ _ htaken => by simp at htaken
    exact step hw hhas (List.prefix_refl _) hnone _ _ hnext ⟨_, [], rfl, rfl⟩
  | running position size =>
    obtain ⟨nodes, hbegins, hyields, rfl, rfl, hstarts⟩ := hgoing
    exact step hw hhas hstarts hyields _ _ rfl (hbegins.append _)
  | finished =>
    obtain ⟨nodes, yields, rest, hbegins, hsplit, hyields, last, later, rfl, hlast, hlater⟩ :=
      hgoing
    have hsplit' : ∀ taken, steps ++ [taken] = yields ++ last :: (later ++ [taken]) := by
      intro taken
      rw [hsplit, List.append_assoc]
      rfl
    refine ⟨hhas, nodes, yields, _, hbegins.append _, hsplit' _, hyields, last, later ++ [_], rfl,
      hlast, ?_⟩
    intro taken htaken
    rcases List.mem_append.1 htaken with hbefore | hnow
    · exact hlater taken hbefore
    · rw [List.mem_singleton.1 hnow]
      rfl

end Going

/-! ## What adds a node -/

namespace World

variable {w : World}

/-- The types of nodes that an operation puts down in `c` are the one it records, or those of the
child it commits. -/
theorem mem_typings_eventsOf (s : Store) (a : Action) (c : ContextId) (node : Value) :
    (∃ type, (⟨node⟩, type) ∈
        ((s.eventsOf a).filterMap (Event.entryIn c)).filterMap Entry.nodeType?) ↔
      (∃ type, a = .recordType c node type) ∨
        ∃ d, a = .commit d ∧ (s.commit d).1 = .ok () ∧ (s.context d).parent = some c ∧
          ⟨node⟩ ∈ (s.context d).nodeTypes.keys := by
  cases a with
  | recordType d recorded type =>
    by_cases hd : d = c
    · simp [Store.eventsOf, Event.entryIn, Entry.nodeType?, hd, eq_comm]
    · simp [Store.eventsOf, Event.entryIn, hd]
  | recordVariable d name type =>
    cases hname : Store.handleOf name with
    | error failure => simp [Store.eventsOf, hname]
    | ok handle =>
      by_cases hd : d = c <;>
        simp [Store.eventsOf, hname, Event.entryIn, Entry.nodeType?, hd]
  | addError d error =>
    by_cases hd : d = c <;> simp [Store.eventsOf, Event.entryIn, Entry.nodeType?, hd]
  | commit d =>
    by_cases hok : (s.commit d).1 = .ok ()
    · obtain ⟨p, hp, -⟩ := Store.commit_eq_ok_iff.1 hok
      have hevents : s.eventsOf (.commit d) = (s.context d).entries.map (.entered p) := by
        simp only [Store.eventsOf, hok, hp]
      rw [hevents, Event.filterMap_entryIn_map]
      by_cases hpc : p = c
      · simp [hpc, hp, hok, (s.context d).filterMap_entries.1, Bindings.keys]
      · simp [hpc, hp]
    · simp [Store.eventsOf_of_refused hok, hok]
  | createRoot settings summarizer => simp [Store.eventsOf, Event.entryIn]
  | createChild p settings summarizer => simp [Store.eventsOf, Event.entryIn]
  | spawn p => simp [Store.eventsOf, Event.entryIn]
  | _ => simp [Store.eventsOf]

/-- **What adds a node to a context**: its first record there, or the commit of a child that has it
while the context does not. Nothing else does, and what is added comes at the end. -/
theorem nodesIn_step_ne_iff (htold : w.Told) (regime : Regime) (a : Action)
    (c : ContextId) :
    let s := w.prepared regime
    w.nodesIn c <+: (w.step regime a).nodesIn c ∧
    ((w.step regime a).nodesIn c ≠ w.nodesIn c ↔
      (∃ node type, a = .recordType c node type ∧ s.Has c ∧ s.hasType c node = false) ∨
        ∃ d node, a = .commit d ∧ (s.commit d).1 = .ok () ∧ (s.context d).parent = some c ∧
          s.hasType d node = true ∧ s.hasType c node = false) := by
  intro s
  by_cases ha : s.Admits a
  · have hnodes : (w.step regime a).nodesIn c = ((w.store.context c).nodeTypes.insertAll
        (((s.eventsOf a).filterMap (Event.entryIn c)).filterMap Entry.nodeType?)).keys := by
      rw [step_of_admits ha, (htold c).nodeTypes, ← Bindings.insertAll_append,
        ← List.filterMap_append, ← List.filterMap_append]
      exact (Bindings.keys_insertAll _).symm
    rw [hnodes, ← htold.nodes]
    refine ⟨Bindings.keys_prefix_insertAll _ _, ?_⟩
    rw [ne_eq, Bindings.keys_insertAll_eq_iff]
    constructor
    · intro hnew
      simp only [Classical.not_forall, Bool.not_eq_true] at hnew
      obtain ⟨⟨⟨node⟩, type⟩, hentry, hmissing⟩ := hnew
      rcases (mem_typings_eventsOf s a c node).1 ⟨type, hentry⟩ with
        ⟨type, rfl⟩ | ⟨d, rfl, hok, hp, hnode⟩
      · exact .inl ⟨node, type, rfl, ha c rfl, hmissing⟩
      · have hhas : s.hasType d node = true := Bindings.contains_iff.2 ⟨⟨node⟩, hnode, BEq.rfl⟩
        exact .inr ⟨d, node, rfl, hok, hp, hhas, hmissing⟩
    · intro hadds hbound
      rcases hadds with ⟨node, type, rfl, -, hmissing⟩ | ⟨d, node, rfl, hok, hp, hhas, hmissing⟩
      · obtain ⟨type, hentry⟩ := (mem_typings_eventsOf s _ c node).2 (.inl ⟨type, rfl⟩)
        exact absurd ((hbound _ hentry).symm.trans hmissing) Bool.noConfusion
      · -- the child may have the node under a key of its own, which is the same node
        obtain ⟨⟨key⟩, hkey, hsame⟩ := Bindings.contains_iff.1 hhas
        obtain ⟨type, hentry⟩ :=
          (mem_typings_eventsOf s _ c key).2 (.inr ⟨d, rfl, hok, hp, hkey⟩)
        obtain ⟨k, hk, heq⟩ := Bindings.contains_iff.1 (hbound _ hentry)
        have hfound : s.hasType c node = true :=
          Bindings.contains_iff.2 ⟨k, hk, PartialEquivBEq.trans heq hsame⟩
        exact absurd (hfound.symm.trans hmissing) Bool.noConfusion
  · rw [step_of_not_admits ha]
    refine ⟨List.prefix_refl _, fun hne => absurd rfl hne, ?_⟩
    -- whoever adds a node can be carried out
    rintro (⟨node, type, rfl, hhas, -⟩ | ⟨d, node, rfl, -, hp, -⟩)
    · refine absurd (fun b hb => ?_) ha
      rw [← Option.some.inj hb]
      exact hhas
    · refine absurd (fun b hb => ?_) ha
      rw [← Option.some.inj hb]
      exact Store.has_of_parent hp

end World

/-! ## Whole sessions -/

namespace Session

variable {regime : Regime} {objects : Objects} {session : Session}

/-- What every move keeps: the world is that of a run, every walk is known by its steps, and only
walks that were begun have taken any. -/
structure Kept (regime : Regime) (objects : Objects) (session : Session) : Prop where
  world : ∃ actions, session.world = .run regime objects actions
  going : ∀ walk cursor, session.walks[walk]? = some cursor →
    Going session.world cursor (session.stepsOf walk)
  begun : ∀ step ∈ session.steps, step.walk < session.walks.length

theorem Kept.told (h : Kept regime objects session) : session.world.Told := by
  obtain ⟨actions, hrun⟩ := h.world
  rw [hrun]
  exact World.told_run regime objects actions

/-- What is done between two steps adds nodes at the end of every context, if at all. -/
theorem Kept.act (h : Kept regime objects session) (a : Action) :
    Kept regime objects (session.move regime (.act a)) := by
  obtain ⟨actions, hrun⟩ := h.world
  have hrun' : session.world.step regime a = .run regime objects (actions ++ [a]) := by
    rw [hrun, World.run, World.run, List.foldl_append]
    rfl
  have hsound : session.world.Sound := by
    rw [hrun]
    exact World.sound_run regime objects actions
  have htold' : (session.world.step regime a).Told := by
    rw [hrun']
    exact World.told_run regime objects (actions ++ [a])
  obtain ⟨new, hlater⟩ := hsound.exists_later regime [a]
  refine ⟨⟨actions ++ [a], hrun'⟩, fun walk cursor hcursor => ?_, h.begun⟩
  exact (h.going walk cursor hcursor).later hlater h.told htold'

/-- A new walk has taken no step yet. -/
theorem Kept.walk (h : Kept regime objects session) (c : ContextId) :
    Kept regime objects (session.move regime (.walk c)) := by
  by_cases hhas : session.world.store.Has c
  · have hmove : session.move regime (.walk c) =
        { session with walks := session.walks ++ [{ context := c }] } := if_pos hhas
    rw [hmove]
    refine ⟨h.world, fun walk cursor hcursor => ?_, fun step hstep => ?_⟩
    · rw [List.getElem?_append] at hcursor
      split at hcursor
      · exact h.going walk cursor hcursor
      · rename_i hnew
        have hnone : session.stepsOf walk = [] := by
          refine List.filter_eq_nil_iff.2 fun step hstep hwalk => hnew ?_
          rw [← of_decide_eq_true hwalk]
          exact h.begun step hstep
        rw [List.mem_singleton.1 (List.mem_of_getElem? hcursor)]
        exact ⟨hhas, hnone⟩
    · have hlt := h.begun step hstep
      rw [List.length_append]
      omega
  · have hmove : session.move regime (.walk c) = session := if_neg hhas
    rw [hmove]
    exact h

/-- A step of one walk is no step of another one. -/
theorem Kept.next (h : Kept regime objects session) (walk : Nat) :
    Kept regime objects (session.move regime (.next walk)) := by
  cases hcursor : session.walks[walk]? with
  | none =>
    have hmove : session.move regime (.next walk) = session := by
      simp only [Session.move, hcursor]
    rw [hmove]
    exact h
  | some cursor =>
    have hlt : walk < session.walks.length := (List.getElem?_eq_some_iff.1 hcursor).1
    have hmove : session.move regime (.next walk) =
        { session with
          walks := session.walks.set walk (cursor.next session.world.store).2
          steps := session.steps ++
            [⟨walk, session.world, (cursor.next session.world.store).1⟩] } := by
      simp only [Session.move, hcursor]
    rw [hmove]
    refine ⟨h.world, fun other cursor' hcursor' => ?_, fun step hstep => ?_⟩
    · rw [List.getElem?_set] at hcursor'
      simp only [stepsOf, List.filter_append]
      split at hcursor'
      · rename_i heq
        subst heq
        rw [← Option.some.inj hcursor', List.filter_cons_of_pos (by simp), List.filter_nil]
        exact (h.going walk cursor hcursor).next h.told walk
      · rename_i hne
        rw [List.filter_cons_of_neg (by simpa using hne), List.filter_nil, List.append_nil]
        exact h.going other cursor' hcursor'
    · rw [List.length_set]
      rcases List.mem_append.1 hstep with hbefore | hnow
      · exact h.begun step hbefore
      · rw [List.mem_singleton.1 hnow]
        exact hlt

/-- **Every move keeps the walks known.** -/
theorem Kept.move (h : Kept regime objects session) (move : Move) :
    Kept regime objects (session.move regime move) := by
  cases move with
  | act a => exact h.act a
  | walk c => exact h.walk c
  | next walk => exact h.next walk

theorem kept_run (regime : Regime) (objects : Objects) (moves : List Move) :
    Kept regime objects (run regime objects moves) := by
  have hinit : Kept regime objects { world := .init objects } := ⟨⟨[], rfl⟩, nofun, nofun⟩
  have hmoves : ∀ session, Kept regime objects session →
      Kept regime objects (moves.foldl (Session.move regime) session) := by
    induction moves with
    | nil => exact fun _ h => h
    | cons move moves ih => exact fun session h => ih _ (h.move move)
  exact hmoves _ hinit

/-- **A walk never skips, repeats or invents a node.** Take any session: operations on any contexts,
and steps of any walks, in any order. A walk that was begun has taken no step yet; or the context
had certain nodes at its first step, no two of them the same, in the order in which they were first
recorded there, and:

* the walk came to these nodes one after the other, to each with the type it had at that moment, and
  as long as it did so no node had been added;
* if it was driven further, then either it had come to all the nodes, none had been added, and it
  reported the end, or a node had been added, and the next step failed;
* every step after that reported the end.

An operation changes the nodes of a context exactly if it records one that the context does not
have, or commits a child with one. So new types for old nodes, variables, errors, new contexts, and
the commit of the context itself into its parent disturb no walk over it. -/
theorem walks_in_order (regime : Regime) (objects : Objects) (moves : List Move) :
    let session := run regime objects moves
    (∀ walk cursor, session.walks[walk]? = some cursor →
      let c := cursor.context
      let steps := session.stepsOf walk
      steps = [] ∨ ∃ nodes yields rest, BeginsWith c nodes steps ∧
        (nodes.Pairwise fun node other => (node == other) = false) ∧ steps = yields ++ rest ∧
        YieldInOrder c nodes yields ∧ (rest = [] ∨ Over c nodes yields rest)) ∧
    ∀ (c : ContextId) (a : Action),
      let w := session.world
      let s := w.prepared regime
      w.nodesIn c <+: (w.step regime a).nodesIn c ∧
      ((w.step regime a).nodesIn c ≠ w.nodesIn c ↔
        (∃ node type, a = .recordType c node type ∧ s.Has c ∧ s.hasType c node = false) ∨
          ∃ d node, a = .commit d ∧ (s.commit d).1 = .ok () ∧ (s.context d).parent = some c ∧
            s.hasType d node = true ∧ s.hasType c node = false) := by
  intro session
  have hkept : Kept regime objects session := kept_run regime objects moves
  refine ⟨?_, fun c a => World.nodesIn_step_ne_iff hkept.told regime a c⟩
  intro walk cursor hcursor c steps
  have hdistinct : ∀ {nodes}, BeginsWith c nodes steps →
      nodes.Pairwise fun node other => (node == other) = false := by
    rintro nodes ⟨first, rest, -, rfl⟩
    exact first.found.keysIn_pairwise _ c
  obtain ⟨-, hgoing⟩ := hkept.going walk cursor hcursor
  cases hprogress : cursor.progress with
  | notStarted =>
    simp only [hprogress] at hgoing
    exact .inl hgoing
  | running position size =>
    simp only [hprogress] at hgoing
    obtain ⟨nodes, hbegins, hyields, -⟩ := hgoing
    exact .inr ⟨nodes, steps, [], hbegins, hdistinct hbegins, (List.append_nil _).symm, hyields,
      .inl rfl⟩
  | finished =>
    simp only [hprogress] at hgoing
    obtain ⟨nodes, yields, rest, hbegins, hsplit, hyields, hover⟩ := hgoing
    exact .inr ⟨nodes, yields, rest, hbegins, hdistinct hbegins, hsplit, hyields, .inr hover⟩

/-- Between two steps of a walk over a root, the type of its second node is replaced; after that, a
child with a new node is committed. Then a second walk is begun. -/
def commitDuringWalk : List Move :=
  [.act (.createRoot none none), .act (.recordType ⟨0⟩ .absent (.nilType ⟨1⟩)),
    .act (.recordType ⟨0⟩ (.bool true) (.nilType ⟨1⟩)), .walk ⟨0⟩, .next 0,
    .act (.recordType ⟨0⟩ (.bool true) (.anyType ⟨2⟩)), .next 0, .act (.spawn ⟨0⟩),
    .act (.recordType ⟨1⟩ (.bool false) (.nilType ⟨1⟩)), .act (.commit ⟨1⟩), .next 0, .next 0,
    .walk ⟨0⟩, .next 1, .next 1, .next 1, .next 1]

/-- The first walk comes to both nodes, to the second one with its new type, and fails after the
commit. The second one comes to all three nodes. -/
theorem walks_of_commitDuringWalk :
    let session := run (fun _ objects => objects) {} commitDuringWalk
    let kinds := fun walk => (session.stepsOf walk).map fun step =>
      step.answer.toOption.map fun typing => typing.map fun t => t.2.kindName
    kinds 0 = [some (some "NilType"), some (some "AnyType"), none, some none] ∧
      kinds 1 = [some (some "NilType"), some (some "AnyType"), some (some "NilType"), some none] ∧
      ∃ nodes yields rest, BeginsWith ⟨0⟩ nodes (session.stepsOf 0) ∧
        session.stepsOf 0 = yields ++ rest ∧ YieldInOrder ⟨0⟩ nodes yields ∧
        Over ⟨0⟩ nodes yields rest := by
  intro session kinds
  have hfirst : kinds 0 = [some (some "NilType"), some (some "AnyType"), none, some none] := by
    decide +kernel
  have hwalk : session.walks[0]? = some ⟨⟨0⟩, .finished⟩ := by decide +kernel
  refine ⟨hfirst, by decide +kernel, ?_⟩
  rcases (walks_in_order _ {} commitDuringWalk).1 0 _ hwalk with
    hnone | ⟨nodes, yields, rest, hbegins, -, hsplit, hyields, rfl | hover⟩
  · have hnil : kinds 0 = [] := congrArg (List.map _) hnone
    exact absurd (hfirst.symm.trans hnil) (by simp)
  · -- the third step came to no node
    exfalso
    obtain ⟨third, hthird, hfailed⟩ : ∃ third, (session.stepsOf 0)[2]? = some third ∧
        third.answer.toOption.map (fun typing => typing.map fun t => t.2.kindName) = none := by
      have hkind : (kinds 0)[2]? = some none := by rw [hfirst]; rfl
      exact Option.map_eq_some_iff.1 (List.getElem?_map .. ▸ hkind)
    rw [List.append_nil] at hsplit
    obtain ⟨-, key, type, -, hanswer, -⟩ := hyields 2 third (hsplit ▸ hthird)
    rw [hanswer] at hfailed
    cases hfailed
  · exact ⟨nodes, yields, rest, hbegins, hsplit, hyields, hover⟩

end Session

end TypingStore

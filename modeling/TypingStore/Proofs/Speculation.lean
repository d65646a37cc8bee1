import TypingStore.Proofs.Lookups
import TypingStore.Proofs.Replay
import TypingStore.Store.Block
import TypingStore.Store.Dump

/-!
# Speculation is transparent

An engine that keeps to one rule can try things out freely: a block acts on its own child
and on the blocks inside it, and at its end the child is committed once or left behind.
Such an engine is a `Program`. It runs in two ways:

* `Program.run`: as told, every block on a child of its own;
* `Program.runFlat`: without children, everything on one context. A block that is not
  kept is undone.

Nobody can tell the two apart (`Program.run_eq_runFlat`): no commit is refused, every lookup
answers the same, and the root ends up the same.

The proof is by induction on the program. Both runs add the same entries to the context they
act on and leave all earlier ones alone (`Store.Advance`). So the parent of a block is
where it was when the block ends, and the commit is not stale.
-/

namespace TypingStore

/-- What an operation that can fail answers. -/
abbrev Reading := Except Failure Value

/-- How the child of a block is made. -/
inductive Opening where
  | spawned
  /-- The block is called back with the child. -/
  | called
  /-- The child is made directly, with settings and summaries of its own if they are given. -/
  | constructed (settings : Option SettingsRef) (summarizer : Option Summarizer)

/-- What a structured engine does on a context. A failure can be caught, and the engine can go by
it: whatever comes next may depend on all readings so far. -/
inductive Program where
  | done
  | recordType (node type : Value) (next : Program)
  | recordVariable (name type : Value) (next : Reading → Program)
  | addError (error : Value) (next : Program)
  | typeOf (node : Value) (next : Reading → Program)
  | variableTypeOf (name : Value) (next : Reading → Program)
  /-- A block, whether its child is committed at the end, and what comes after it. -/
  | block (opening : Opening) (body : Program) (keeps : List Reading → Bool)
    (next : List Reading → Program)

/-- Runs a block on a child that is made this way. -/
def Opening.run {σ α : Type} (opening : Opening) (block : Block σ α) : Block σ α :=
  fun parent state =>
    match opening with
    | .spawned =>
      let (child, s) := state.2.spawn parent
      block child (state.1, s)
    | .called => block.inChild parent state
    | .constructed settings summarizer =>
      let (child, s) := state.2.createChild parent settings summarizer
      block child (state.1, s)

namespace Program

/-- Runs a program on a context. Its state are the readings so far, and a refused commit ends it. -/
def run : Program → Block (List Reading) Unit
  | done, _, state => (.ok (), state)
  | recordType node type next, c, (readings, s) => next.run c (readings, s.recordType c node type)
  | recordVariable name type next, c, (readings, s) =>
    let (result, s) := s.recordVariable c name type
    let reading := result.map fun _ => type
    (next reading).run c (readings ++ [reading], s)
  | addError error next, c, (readings, s) => next.run c (readings, s.addError c error)
  | typeOf node next, c, (readings, s) =>
    let (reading, s) := s.typeOf c node
    (next reading).run c (readings ++ [reading], s)
  | variableTypeOf name next, c, (readings, s) =>
    let (reading, s) := s.variableTypeOf c name
    (next reading).run c (readings ++ [reading], s)
  | block opening body keeps next, c, state =>
    let tried : Block (List Reading) Unit := fun child state =>
      match body.run child state with
      | (.error failure, state) => (.error failure, state)
      | (.ok (), readings, s) =>
        if keeps readings then
          let (result, s) := s.commit child
          (result, readings, s)
        else (.ok (), readings, s)
    match opening.run tried c state with
    | (.error failure, state) => (.error failure, state)
    | (.ok (), readings, s) => (next readings).run c (readings, s)

/-- Runs a program on a context without making any other. A block that is not kept leaves no trace
in the context. -/
def runFlat : Program → ContextId → List Reading × Store → List Reading × Store
  | done, _, state => state
  | recordType node type next, c, (readings, s) =>
    next.runFlat c (readings, s.recordType c node type)
  | recordVariable name type next, c, (readings, s) =>
    let (result, s) := s.recordVariable c name type
    let reading := result.map fun _ => type
    (next reading).runFlat c (readings ++ [reading], s)
  | addError error next, c, (readings, s) => next.runFlat c (readings, s.addError c error)
  | typeOf node next, c, (readings, s) =>
    let (reading, s) := s.typeOf c node
    (next reading).runFlat c (readings ++ [reading], s)
  | variableTypeOf name next, c, (readings, s) =>
    let (reading, s) := s.variableTypeOf c name
    (next reading).runFlat c (readings ++ [reading], s)
  | block _ body keeps next, c, (readings, s) =>
    let (readings, s') := body.runFlat c (readings, s)
    let s' := if keeps readings then s' else { s' with contexts := s.contexts }
    (next readings).runFlat c (readings, s')

end Program

/-! ## What a program leaves alone -/

namespace Store

/-- From `s` to `s'`, the context `c` took the entries down, and no other context made before
changed. -/
structure Advance (s : Store) (c : ContextId) (es : List Entry) (s' : Store) : Prop where
  made : s.contexts.size ≤ s'.contexts.size
  others : ∀ d, s.Has d → d ≠ c → s'.context d = s.context d
  parent : (s'.context c).parent = (s.context c).parent
  snapshot : (s'.context c).snapshot = (s.context c).snapshot
  summarizer : (s'.context c).summarizer = (s.context c).summarizer
  grows : (s.context c).Grows es (s'.context c)

namespace Advance

variable {s s' s'' : Store} {c : ContextId} {es es' : List Entry}

theorem rest (h : s'.contexts = s.contexts) : s.Advance c [] s' := by
  have hc := context_congr h
  exact ⟨Nat.le_of_eq (congrArg Array.size h).symm, fun d _ _ => by rw [hc], by rw [hc],
    by rw [hc], by rw [hc], by rw [hc]; exact .refl _⟩

theorem has (h : s.Advance c es s') {d : ContextId} (hd : s.Has d) : s'.Has d :=
  Nat.lt_of_lt_of_le hd h.made

theorem trans (h : s.Advance c es s') (h' : s'.Advance c es' s'') :
    s.Advance c (es ++ es') s'' where
  made := Nat.le_trans h.made h'.made
  others d hd hne := (h'.others d (h.has hd) hne).trans (h.others d hd hne)
  parent := h'.parent.trans h.parent
  snapshot := h'.snapshot.trans h.snapshot
  summarizer := h'.summarizer.trans h.summarizer
  grows := h.grows.trans h'.grows

/-- Everything above `c` is as it was. -/
theorem above (h : s.Advance c es s') (hc : s.Has c) : s'.above c = s.above c :=
  above_congr h.parent fun d hd => h.others d (Nat.lt_trans hd hc) fun hdc => by
    subst hdc; exact Nat.lt_irrefl _ hd

/-- **What a context sees** is what was put down last, or what it saw before. -/
theorem findType (h : s.Advance c es s') (hc : s.Has c) (node : Value) :
    s'.findType c node =
      (Bindings.last? (es.filterMap Entry.nodeType?) ⟨node⟩).or (s.findType c node) := by
  rw [findType_eq_or, findType_eq_or s, h.above hc, h.grows.nodeTypes, Bindings.get?_insertAll,
    Option.or_assoc]

theorem findVariable (h : s.Advance c es s') (hc : s.Has c) (handle : Handle) :
    s'.findVariable c handle =
      (Bindings.last? (es.filterMap Entry.varType?) handle).or (s.findVariable c handle) := by
  rw [findVariable_eq_or, findVariable_eq_or s, h.above hc, h.grows.varTypes,
    Bindings.get?_insertAll, Option.or_assoc]

end Advance

/-- Putting entries down in a context. -/
theorem advance_enterAll {s s' : Store} {c : ContextId} (hc : s.Has c) {policy : VersionPolicy}
    {es es' : List Entry} (hes : (s.context c).Grows es' ((s.context c).enterAll policy es))
    (h : s'.contexts = (s.update c (Context.enterAll policy es)).contexts) :
    s.Advance c es' s' := by
  have hself : s'.context c = (s.context c).enterAll policy es := by
    rw [context_congr h, context_update, if_pos ⟨rfl, hc⟩]
  refine ⟨by rw [h]; simp, fun d _ hne => ?_, ?_, ?_, ?_, ?_⟩
  · rw [context_congr h, context_update, if_neg fun hd => hne hd.1]
  all_goals rw [hself]
  · exact Context.parent_enterAll
  · exact Context.snapshot_enterAll
  · exact Context.summarizer_enterAll
  · exact hes

/-- Making a child. -/
theorem advance_createChild {s s' : Store} {c : ContextId} (hc : s.Has c)
    {settings : Option SettingsRef} {summarizer : Option Summarizer}
    (h : s'.contexts = (s.createChild c settings summarizer).2.contexts) : s.Advance c [] s' := by
  have hself : s'.context c = { s.context c with pending := true } := by
    rw [context_congr h, context_createChild _ _ _ _ hc, if_pos rfl]
  refine ⟨by rw [h]; simp [createChild, add], fun d hd hne => ?_, ?_, ?_, ?_, ?_⟩
  · rw [context_congr h, context_createChild _ _ _ _ hd, if_neg hne]
  all_goals rw [hself]
  exact ⟨rfl, rfl, (List.append_nil _).symm⟩

/-- What happens in a context made later leaves `c` alone. -/
theorem Advance.aside {s s' s'' : Store} {c k : ContextId} {es : List Entry} (h : s.Advance c [] s')
    (hk : s'.Advance k es s'') (hc : s.Has c) (hnew : ¬ s.Has k) : s.Advance c [] s'' := by
  have hold : ∀ d, s.Has d → s''.context d = s'.context d := fun d hd =>
    hk.others d (h.has hd) fun hdk => hnew (hdk ▸ hd)
  have hself := hold c hc
  exact ⟨Nat.le_trans h.made hk.made, fun d hd hne => (hold d hd).trans (h.others d hd hne),
    by rw [hself, h.parent], by rw [hself, h.snapshot], by rw [hself, h.summarizer],
    by rw [hself]; exact h.grows⟩

/-- **A child is committed as long as its parent stands where it stood**, and the parent then takes
down what made the child what it is. -/
theorem commit_advance {s : Store} {c p : ContextId} (hp : (s.context c).parent = some p)
    (hhas : s.Has p) (hv : (s.context p).version = (s.context c).snapshot) {new : Context}
    (hnew : new.entries = []) {es : List Entry} (hg : new.Grows es (s.context c)) :
    (s.commit c).1 = .ok () ∧ (s.commit c).2.objects = s.objects ∧
      s.Advance p es (s.commit c).2 := by
  obtain ⟨hok, hobj, hc⟩ := s.commit_of_fresh hp hv
  exact ⟨hok, hobj, advance_enterAll hhas (hg.replay hnew _ _) hc⟩

/-! ## Two runs side by side -/

/-- In `s` the context `c` sees what `r` sees in `s₀`. -/
structure Agrees (s : Store) (c : ContextId) (s₀ : Store) (r : ContextId) : Prop where
  has : s.Has c
  has' : s₀.Has r
  objects : s.objects = s₀.objects
  findType : ∀ node, s.findType c node = s₀.findType r node
  findVariable : ∀ handle, s.findVariable c handle = s₀.findVariable r handle

/-- From `s` to `s'`, the context `c` took down the same as `r` from `s₀` to `s₀'`. -/
structure InStep (c r : ContextId) (s s₀ s' s₀' : Store) : Prop where
  objects : s'.objects = s₀'.objects
  entries : ∃ es, s.Advance c es s' ∧ s₀.Advance r es s₀'

variable {c r : ContextId} {s s₀ s' s₀' s'' s₀'' : Store}

theorem InStep.trans (h : InStep c r s s₀ s' s₀') (h' : InStep c r s' s₀' s'' s₀'') :
    InStep c r s s₀ s'' s₀'' := by
  obtain ⟨es, h1, h2⟩ := h.entries
  obtain ⟨es', h1', h2'⟩ := h'.entries
  exact ⟨h'.objects, es ++ es', h1.trans h1', h2.trans h2'⟩

theorem Agrees.next (h : s.Agrees c s₀ r) (hi : InStep c r s s₀ s' s₀') : s'.Agrees c s₀' r := by
  obtain ⟨es, h1, h2⟩ := hi.entries
  refine ⟨h1.has h.has, h2.has h.has', hi.objects, fun node => ?_, fun handle => ?_⟩
  · rw [h1.findType h.has, h2.findType h.has', h.findType]
  · rw [h1.findVariable h.has, h2.findVariable h.has', h.findVariable]

/-- One entry is put down in both. -/
theorem Agrees.enter (h : s.Agrees c s₀ r) (policy policy' : VersionPolicy) (e : Entry) :
    InStep c r s s₀ (s.update c (Context.enterAll policy [e]))
      (s₀.update r (Context.enterAll policy' [e])) :=
  ⟨h.objects, [e], advance_enterAll h.has (Context.grows_enterAll ..) rfl,
    advance_enterAll h.has' (Context.grows_enterAll ..) rfl⟩

/-- A fault arises in both. -/
theorem Agrees.fail (h : s.Agrees c s₀ r) (cause : Cause) :
    let x : Reading × Store := s.fail cause
    let x₀ : Reading × Store := s₀.fail cause
    x.1 = x₀.1 ∧ InStep c r s s₀ x.2 x₀.2 := by
  refine ⟨?_, ?_, [], .rest rfl, .rest rfl⟩ <;> simp only [Store.fail, h.objects]

theorem Agrees.typeOf (h : s.Agrees c s₀ r) (node : Value) :
    (s.typeOf c node).1 = (s₀.typeOf r node).1 ∧
      InStep c r s s₀ (s.typeOf c node).2 (s₀.typeOf r node).2 := by
  simp only [Store.typeOf, h.findType]
  cases s₀.findType r node with
  | none => exact h.fail _
  | some type => exact ⟨rfl, h.objects, [], .rest rfl, .rest rfl⟩

theorem Agrees.variableTypeOf (h : s.Agrees c s₀ r) (name : Value) :
    (s.variableTypeOf c name).1 = (s₀.variableTypeOf r name).1 ∧
      InStep c r s s₀ (s.variableTypeOf c name).2 (s₀.variableTypeOf r name).2 := by
  have hrest : InStep c r s s₀ s s₀ := ⟨h.objects, [], .rest rfl, .rest rfl⟩
  simp only [Store.variableTypeOf]
  cases handleOf name with
  | error failure => exact ⟨rfl, hrest⟩
  | ok handle =>
    simp only [h.findVariable]
    cases s₀.findVariable r handle with
    | none => exact h.fail _
    | some type => exact ⟨rfl, hrest⟩

theorem Agrees.recordVariable (h : s.Agrees c s₀ r) (name type : Value) :
    (s.recordVariable c name type).1 = (s₀.recordVariable r name type).1 ∧
      InStep c r s s₀ (s.recordVariable c name type).2 (s₀.recordVariable r name type).2 := by
  simp only [Store.recordVariable]
  cases handleOf name with
  | error failure => exact ⟨rfl, h.objects, [], .rest rfl, .rest rfl⟩
  | ok handle => exact ⟨rfl, h.enter _ _ (.varType handle type)⟩

/-- A new child sees what its parent sees. -/
theorem Agrees.child (h : s.Agrees c s₀ r) (hobj : s'.objects = s.objects)
    {settings : Option SettingsRef} {summarizer : Option Summarizer}
    (hctx : s'.contexts = (s.createChild c settings summarizer).2.contexts) :
    s'.Agrees ⟨s.contexts.size⟩ s₀ r := by
  have hadv := advance_createChild h.has hctx
  have hk := context_createChild_self s c settings summarizer
  rw [← context_congr hctx] at hk
  have hpar : (s'.context ⟨s.contexts.size⟩).parent = some c := by rw [hk]; rfl
  refine ⟨?_, h.has', hobj.trans h.objects, fun node => ?_, fun handle => ?_⟩
  · rw [has_congr hctx, has_createChild]; exact .inr rfl
  · rw [findType_of_parent hpar h.has, hadv.findType h.has, ← h.findType, hk]; rfl
  · rw [findVariable_of_parent hpar h.has, hadv.findVariable h.has, ← h.findVariable, hk]; rfl

end Store

/-- However its child is made, a block runs on a new child. -/
theorem Opening.run_eq (opening : Opening) (s : Store) (c : ContextId) :
    ∃ (settings : Option SettingsRef) (summarizer : Option Summarizer) (s' : Store),
      s'.objects = s.objects ∧ s'.contexts = (s.createChild c settings summarizer).2.contexts ∧
      ∀ {σ α : Type} (block : Block σ α) (x : σ),
        opening.run block c (x, s) = block ⟨s.contexts.size⟩ (x, s') := by
  have hid : ∀ settings summarizer,
      (s.createChild c settings summarizer).1 = ⟨s.contexts.size⟩ := by
    intro settings summarizer
    simp [Store.createChild, Store.add]
  cases opening with
  | constructed settings summarizer =>
    refine ⟨settings, summarizer, (s.createChild c settings summarizer).2, rfl, rfl, ?_⟩
    intro σ α block x
    rw [← hid settings summarizer]; rfl
  | spawned =>
    refine ⟨none, none, (s.spawn c).2, rfl, rfl, ?_⟩
    intro σ α block x
    rw [← hid none none]; rfl
  | called =>
    refine ⟨none, none, (s.spawn c).2, rfl, rfl, ?_⟩
    intro σ α block x
    rw [← hid none none]; rfl

namespace Program

open Store

/-- **The two runs go side by side**, from any context that sees what the flat one sees. -/
theorem run_inStep (p : Program) {c r : ContextId} {s s₀ : Store} (readings : List Reading)
    (h : s.Agrees c s₀ r) :
    ∃ readings' s' s₀', p.run c (readings, s) = (.ok (), readings', s') ∧
      p.runFlat r (readings, s₀) = (readings', s₀') ∧ InStep c r s s₀ s' s₀' := by
  -- on the program; that both contexts see the same carries it over every step
  induction p generalizing c r s s₀ readings with
  | done => exact ⟨readings, s, s₀, rfl, rfl, h.objects, [], .rest rfl, .rest rfl⟩
  | recordType node type next ih =>
    have hi := h.enter (s.policy c) (s₀.policy r) (.nodeType node type)
    obtain ⟨readings', s', s₀', hrun, hflat, hi'⟩ := ih readings (h.next hi)
    exact ⟨readings', s', s₀', hrun, hflat, hi.trans hi'⟩
  | addError error next ih =>
    have hi := h.enter (s.policy c) (s₀.policy r) (.error error)
    obtain ⟨readings', s', s₀', hrun, hflat, hi'⟩ := ih readings (h.next hi)
    exact ⟨readings', s', s₀', hrun, hflat, hi.trans hi'⟩
  | recordVariable name type next ih =>
    obtain ⟨heq, hi⟩ := h.recordVariable name type
    obtain ⟨readings', s', s₀', hrun, hflat, hi'⟩ :=
      ih ((s.recordVariable c name type).1.map fun _ => type)
        (readings ++ [(s.recordVariable c name type).1.map fun _ => type]) (h.next hi)
    rw [heq] at hflat
    exact ⟨readings', s', s₀', hrun, hflat, hi.trans hi'⟩
  | typeOf node next ih =>
    obtain ⟨heq, hi⟩ := h.typeOf node
    obtain ⟨readings', s', s₀', hrun, hflat, hi'⟩ :=
      ih (s.typeOf c node).1 (readings ++ [(s.typeOf c node).1]) (h.next hi)
    rw [heq] at hflat
    exact ⟨readings', s', s₀', hrun, hflat, hi.trans hi'⟩
  | variableTypeOf name next ih =>
    obtain ⟨heq, hi⟩ := h.variableTypeOf name
    obtain ⟨readings', s', s₀', hrun, hflat, hi'⟩ :=
      ih (s.variableTypeOf c name).1 (readings ++ [(s.variableTypeOf c name).1]) (h.next hi)
    rw [heq] at hflat
    exact ⟨readings', s', s₀', hrun, hflat, hi.trans hi'⟩
  | block opening body keeps next ihb ihn =>
    -- the body runs on the child here and on `r` itself in the flat run
    obtain ⟨settings, summarizer, s1, hobj, hctx, hopen⟩ := opening.run_eq s c
    obtain ⟨readings', s2, s₀', hbody, hflat, hi⟩ := ihb readings (h.child hobj hctx)
    obtain ⟨es, hes, hes₀⟩ := hi.entries
    have hadv := advance_createChild h.has hctx
    have hnew : ¬ s.Has ⟨s.contexts.size⟩ := Nat.lt_irrefl _
    have haside := hadv.aside hes h.has hnew
    cases hkeep : keeps readings' with
    | false =>
      -- the child is left behind, and the flat run takes everything back
      have hi' : InStep c r s s₀ s2 { s₀' with contexts := s₀.contexts } :=
        ⟨hi.objects, [], haside, .rest rfl⟩
      obtain ⟨readings'', s', s₀'', hrun, hrest, hi''⟩ := ihn readings' readings' (h.next hi')
      refine ⟨readings'', s', s₀'', ?_, ?_, hi'.trans hi''⟩
      · simp only [run, hopen, hbody, hkeep]
        exact hrun
      · simp only [runFlat, hflat, hkeep]
        exact hrest
    | true =>
      -- the parent stands where it stood when the child was made
      have hk := context_createChild_self s c settings summarizer
      rw [← context_congr hctx] at hk
      have hpar : (s2.context ⟨s.contexts.size⟩).parent = some c := by rw [hes.parent, hk]; rfl
      have hc : s2.context c = { s.context c with pending := true } := by
        rw [hes.others c (hadv.has h.has) fun hck => hnew (hck ▸ h.has), context_congr hctx,
          context_createChild _ _ _ _ h.has, if_pos rfl]
      have hv : (s2.context c).version = (s2.context ⟨s.contexts.size⟩).snapshot := by
        rw [hes.snapshot, hk, hc]; rfl
      obtain ⟨hok, hobj', hcom⟩ := commit_advance hpar (haside.has h.has) hv
        (by rw [hk]; rfl) hes.grows
      have hi' : InStep c r s s₀ (s2.commit ⟨s.contexts.size⟩).2 s₀' :=
        ⟨hobj'.trans hi.objects, es, haside.trans hcom, hes₀⟩
      obtain ⟨readings'', s', s₀'', hrun, hrest, hi''⟩ := ihn readings' readings' (h.next hi')
      refine ⟨readings'', s', s₀'', ?_, ?_, hi'.trans hi''⟩
      · simp only [run, hopen, hbody, hkeep, if_true, hok]
        exact hrun
      · simp only [runFlat, hflat, hkeep, if_true]
        exact hrest

/-- **Speculation is transparent.** On a new root, a program ends without a refused commit, reads
what it reads in the flat run, and leaves the root with the same typings, variables and errors, and
the same dump. -/
theorem run_eq_runFlat (p : Program) (s : Store) (settings : Option SettingsRef)
    (summarizer : Option Summarizer) :
    let root := (s.createRoot settings summarizer).1
    let new := (s.createRoot settings summarizer).2
    ∃ readings s' s₀, p.run root ([], new) = (.ok (), readings, s') ∧
      p.runFlat root ([], new) = (readings, s₀) ∧ s'.typings root = s₀.typings root ∧
      (s'.context root).varTypes = (s₀.context root).varTypes ∧
      (s'.context root).errors = (s₀.context root).errors ∧ s'.dump root = s₀.dump root := by
  intro root new
  have hhas : new.Has root := by simp [new, root, createRoot, add, Has]
  have hagree : new.Agrees root new root := ⟨hhas, hhas, rfl, fun _ => rfl, fun _ => rfl⟩
  obtain ⟨readings, s', s₀, hrun, hflat, hi⟩ := p.run_inStep [] hagree
  obtain ⟨es, h1, h2⟩ := hi.entries
  have hn := h1.grows.nodeTypes.trans h2.grows.nodeTypes.symm
  have hv := h1.grows.varTypes.trans h2.grows.varTypes.symm
  have he := h1.grows.errors.trans h2.grows.errors.symm
  have hsum := h1.summarizer.trans h2.summarizer.symm
  have ht : s'.typings root = s₀.typings root := by simp only [typings, hn]
  have hd : s'.dump root = s₀.dump root := by
    -- a dump shows what the root holds, by the summaries of the root and the objects of the store
    have htyping : s'.typingEntry = s₀.typingEntry := by
      funext summarizer typing; simp only [typingEntry, hi.objects]
    have herror : s'.errorEntry = s₀.errorEntry := by
      funext summarizer error; simp only [errorEntry, hi.objects]
    simp only [dump, ht, he, hsum, htyping, herror]
  exact ⟨readings, s', s₀, hrun, hflat, ht, hv, he, hd⟩

end Program

end TypingStore

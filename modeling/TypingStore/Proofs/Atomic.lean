import TypingStore.Proofs.Growth
import TypingStore.Proofs.History

/-!
# All or nothing

An operation that fails leaves every context as it was: what it cannot do it finds out before it
writes. The one operation that writes more than once is a commit. It walks over what the branch
holds, while it writes to the parent, and each step could fail on its own: the walk, if nodes were
added to the branch meanwhile, and the write, if the name of a variable could not be compared any
more. Neither happens, so a commit that is not refused at once hands over everything.

* `Store.Refuses`: the operations that are refused, and why.
* `Store.contexts_perform_of_error`: a failed operation leaves the contexts alone.
* `Store.replay`: a commit step by step, as it goes over the branch.
* `Store.replay_eq`: no step of it fails, and it does what a commit does.
* `World.failures_atomic`: all this at every moment of a script.
-/

namespace TypingStore

/-- Why an operation on contexts is refused. -/
inductive Refusal where
  | fault (kind : FaultKind)
  /-- A part of a name, of this kind, cannot be compared at all times. -/
  | unhashable (kind : String)

/-- The refusal that a failure tells of, if it does. -/
def Failure.refusal? : Failure → Option Refusal
  | .fault ref => some (.fault ref.kind)
  | .unhashable kind => some (.unhashable kind)
  | _ => none

namespace Store

variable {s : Store} {c p : ContextId}

/-! ## Refused operations -/

/-- The operations on contexts that are refused. -/
inductive Refuses (s : Store) : Action → Refusal → Prop where
  | commitOnRoot {c : ContextId} (hroot : (s.context c).parent = none) :
      Refuses s (.commit c) (.fault .commitOnRoot)
  | staleContext {c p : ContextId} (hp : (s.context c).parent = some p)
      (hstale : (s.context p).version ≠ (s.context c).snapshot) :
      Refuses s (.commit c) (.fault .staleContext)
  | nodeNotTyped {c : ContextId} {node : Value}
      (hnone : ∀ a ∈ s.chain c, s.hasType a node = false) :
      Refuses s (.typeOf c node) (.fault .nodeNotTyped)
  | variableNotTyped {c : ContextId} {name : Value} (hhashable : name.unhashable? = none)
      (hnone : ∀ a ∈ s.chain c, s.hasVariable a name = .ok false) :
      Refuses s (.variableTypeOf c name) (.fault .variableNotTyped)
  | recordUnhashable {c : ContextId} {name type : Value} {kind : String}
      (hkind : name.unhashable? = some kind) :
      Refuses s (.recordVariable c name type) (.unhashable kind)
  | hasUnhashable {c : ContextId} {name : Value} {kind : String}
      (hkind : name.unhashable? = some kind) : Refuses s (.hasVariable c name) (.unhashable kind)
  | typeOfUnhashable {c : ContextId} {name : Value} {kind : String}
      (hkind : name.unhashable? = some kind) :
      Refuses s (.variableTypeOf c name) (.unhashable kind)

/-- A value is a handle unless one of its parts is refused. -/
theorem handleOf_eq (name : Value) :
    (∃ kind, name.unhashable? = some kind ∧ handleOf name = .error (.unhashable kind)) ∨
      ∃ hhashable : name.unhashable? = none, handleOf name = .ok ⟨name, hhashable⟩ := by
  unfold handleOf Handle.ofValue
  split
  · rename_i hhashable
    exact .inr ⟨hhashable, rfl⟩
  · rename_i kind hkind
    exact .inl ⟨kind, hkind, rfl⟩

theorem handleOf_of_unhashable {name : Value} {kind : String}
    (hkind : name.unhashable? = some kind) : handleOf name = .error (.unhashable kind) := by
  rcases handleOf_eq name with ⟨kind', hkind', herror⟩ | ⟨hhashable, -⟩
  · rw [hkind, Option.some.injEq] at hkind'
    rw [herror, hkind']
  · rw [hkind] at hhashable
    cases hhashable

/-- No context of the chain has a type for the variable. -/
theorem findVariable_eq_none_iff {handle : Handle} {name : Value}
    (hhandle : handleOf name = .ok handle) :
    s.findVariable c handle = none ↔ ∀ a ∈ s.chain c, s.hasVariable a name = .ok false := by
  have hhas (a : ContextId) : s.hasVariable a name = .ok false ↔
      ¬ (s.context a).varTypes.contains handle = true := by
    simp [hasVariable, hhandle, Except.map]
  rw [← Option.not_isSome_iff_eq_none, findVariable_isSome]
  simp only [hhas, not_exists, not_and]

/-- **What is refused fails**, and its failure tells why. -/
theorem Refuses.fails {a : Action} {r : Refusal} (h : s.Refuses a r) :
    ∃ f, (s.perform a).1 = .error f ∧ f.refusal? = some r := by
  cases h with
  | commitOnRoot hroot =>
    simp only [perform, commit, hroot, fail]
    exact ⟨_, rfl, rfl⟩
  | staleContext hp hstale =>
    obtain ⟨ref, -, -, herror, hkind, -⟩ := s.commit_of_stale hp hstale
    simp only [perform, herror]
    exact ⟨_, rfl, by rw [Failure.refusal?, hkind]⟩
  | @nodeNotTyped c node hnone =>
    have hfound : s.findType c node = none := by
      rw [← Option.not_isSome_iff_eq_none, findType_isSome]
      rintro ⟨a, ha, htype⟩
      rw [hnone a ha] at htype
      cases htype
    simp only [perform, typeOf, hfound, fail]
    exact ⟨_, rfl, rfl⟩
  | @variableNotTyped c name hhashable hnone =>
    have hhandle : handleOf name = .ok ⟨name, hhashable⟩ := handleOf_value ⟨name, hhashable⟩
    have hfound := (findVariable_eq_none_iff hhandle).mpr hnone
    simp only [perform, variableTypeOf, hhandle, hfound, fail]
    exact ⟨_, rfl, rfl⟩
  | recordUnhashable hkind =>
    simp only [perform, recordVariable, handleOf_of_unhashable hkind]
    exact ⟨_, rfl, rfl⟩
  | hasUnhashable hkind =>
    simp only [perform, hasVariable, handleOf_of_unhashable hkind]
    exact ⟨_, rfl, rfl⟩
  | typeOfUnhashable hkind =>
    simp only [perform, variableTypeOf, handleOf_of_unhashable hkind]
    exact ⟨_, rfl, rfl⟩

/-- **What fails is refused**, but for a dump, which shows what it is given, and for changes to
objects. -/
theorem exists_refuses_of_error {a : Action} {f : Failure} (hfails : (s.perform a).1 = .error f) :
    (∃ r, f.refusal? = some r ∧ s.Refuses a r) ∨ (∃ c, a = .dump c) ∨
      ∃ target field new, a = .assign target field new := by
  have hname {name : Value} {f : Failure} (herror : handleOf name = .error f) :
      ∃ kind, name.unhashable? = some kind ∧ f.refusal? = some (.unhashable kind) := by
    rcases handleOf_eq name with ⟨kind, hkind, herror'⟩ | ⟨hhashable, hok⟩
    · obtain rfl := Except.error.inj (herror'.symm.trans herror)
      exact ⟨kind, hkind, rfl⟩
    · rw [hok] at herror
      cases herror
  cases a with
  | commit c =>
    refine .inl ?_
    cases hp : (s.context c).parent with
    | none =>
      simp only [perform, commit, hp, fail] at hfails
      obtain rfl := Except.error.inj hfails
      exact ⟨_, rfl, .commitOnRoot hp⟩
    | some p =>
      by_cases hfresh : (s.context p).version = (s.context c).snapshot
      · have hok := commit_eq_ok_iff.mpr ⟨p, hp, hfresh⟩
        simp only [perform, hok] at hfails
        cases hfails
      · obtain ⟨ref, -, -, herror, hkind, -⟩ := s.commit_of_stale hp hfresh
        simp only [perform, herror] at hfails
        obtain rfl := Except.error.inj hfails
        exact ⟨_, by rw [Failure.refusal?, hkind], .staleContext hp hfresh⟩
  | typeOf c node =>
    refine .inl ?_
    simp only [perform, typeOf] at hfails
    split at hfails
    · cases hfails
    · rename_i hnone
      obtain rfl := Except.error.inj hfails
      refine ⟨_, rfl, .nodeNotTyped fun a ha => ?_⟩
      rw [← Option.not_isSome_iff_eq_none, findType_isSome] at hnone
      exact Bool.eq_false_iff.mpr fun htype => hnone ⟨a, ha, htype⟩
  | recordVariable c name type =>
    refine .inl ?_
    simp only [perform, recordVariable] at hfails
    split at hfails
    · rename_i herror
      obtain ⟨kind, hkind, hrefusal⟩ := hname herror
      obtain rfl := Except.error.inj hfails
      exact ⟨_, hrefusal, .recordUnhashable hkind⟩
    · cases hfails
  | hasVariable c name =>
    refine .inl ?_
    simp only [perform, hasVariable] at hfails
    cases hhandle : handleOf name with
    | ok handle =>
      rw [hhandle] at hfails
      cases hfails
    | error failure =>
      obtain ⟨kind, hkind, hrefusal⟩ := hname hhandle
      rw [hhandle] at hfails
      obtain rfl := Except.error.inj hfails
      exact ⟨_, hrefusal, .hasUnhashable hkind⟩
  | variableTypeOf c name =>
    refine .inl ?_
    simp only [perform, variableTypeOf] at hfails
    split at hfails
    · rename_i herror
      obtain ⟨kind, hkind, hrefusal⟩ := hname herror
      obtain rfl := Except.error.inj hfails
      exact ⟨_, hrefusal, .typeOfUnhashable hkind⟩
    · rename_i handle hhandle
      split at hfails
      · cases hfails
      · rename_i hnone
        obtain rfl := Except.error.inj hfails
        refine ⟨_, rfl, .variableNotTyped ?_ ((findVariable_eq_none_iff hhandle).mp hnone)⟩
        rcases handleOf_eq name with ⟨kind, -, herror⟩ | ⟨hhashable, -⟩
        · rw [herror] at hhandle
          cases hhandle
        · exact hhashable
  | dump c => exact .inr (.inl ⟨c, rfl⟩)
  | assign target field new => exact .inr (.inr ⟨target, field, new, rfl⟩)
  | _ => cases hfails

/-- **A failed operation leaves the contexts alone.** -/
theorem contexts_perform_of_error {a : Action} {f : Failure} (hfails : (s.perform a).1 = .error f) :
    (s.perform a).2.contexts = s.contexts := by
  cases a with
  | commit c =>
    have hcommit : (s.commit c).1 ≠ .ok () := by
      intro hok
      simp only [perform, hok] at hfails
      cases hfails
    cases hp : (s.context c).parent with
    | none =>
      simp only [perform, commit, hp]
      rfl
    | some p =>
      refine contexts_commit_of_stale s hp fun hfresh => ?_
      exact hcommit (commit_eq_ok_iff.mpr ⟨p, hp, hfresh⟩)
  | recordVariable c name type =>
    simp only [perform, recordVariable] at hfails ⊢
    split at hfails
    · rfl
    · cases hfails
  | typeOf c node =>
    simp only [perform, typeOf]
    split <;> rfl
  | variableTypeOf c name =>
    simp only [perform, variableTypeOf]
    split
    · rfl
    · split <;> rfl
  | assign target field new =>
    simp only [perform] at hfails ⊢
    split at hfails
    · rfl
    · cases hfails
  | dump c => rfl
  | hasVariable c name => rfl
  | _ => cases hfails

end Store

/-! ## A commit, step by step -/

/-- The number of typings that a walk still has before it. -/
def Cursor.left (s : Store) (cursor : Cursor) : Nat :=
  match cursor.progress with
  | .notStarted => (s.context cursor.context).nodeTypes.size
  | .running position size => size - position
  | .finished => 0

/-- A step that comes to a typing goes one on, and there was one to go. -/
theorem Cursor.step_eq_some {s : Store} {c : ContextId} {position size : Nat}
    {typing : Value × Value} {progress : Progress}
    (hstep : step s c position size = (.ok (some typing), progress)) :
    position < size ∧ progress = .running (position + 1) size := by
  simp only [step] at hstep
  split at hstep
  · cases hstep
  · rename_i hsize
    split at hstep
    · cases hstep
    · rename_i key type hentry
      obtain ⟨hlt, -⟩ := List.getElem?_eq_some_iff.mp hentry
      cases hstep
      exact ⟨by omega, rfl⟩

/-- A walk that has come to a typing has less before it, whatever is done to the store then. -/
theorem Cursor.left_lt_of_next {s : Store} {cursor cursor' : Cursor} {typing : Value × Value}
    (hnext : cursor.next s = (.ok (some typing), cursor')) (s' : Store) :
    cursor'.left s' < cursor.left s := by
  unfold next at hnext
  split at hnext
  · cases hnext
  · rename_i hprogress
    generalize hstep : step s cursor.context 0 (s.context cursor.context).nodeTypes.size = walked
      at hnext
    obtain ⟨answer, progress⟩ := walked
    obtain ⟨rfl, rfl⟩ := Prod.mk.inj hnext
    obtain ⟨hlt, rfl⟩ := step_eq_some hstep
    simp only [left, hprogress]
    omega
  · rename_i position size hprogress
    generalize hstep : step s cursor.context position size = walked at hnext
    obtain ⟨answer, progress⟩ := walked
    obtain ⟨rfl, rfl⟩ := Prod.mk.inj hnext
    obtain ⟨hlt, rfl⟩ := step_eq_some hstep
    simp only [left, hprogress]
    omega

namespace Store

variable {s : Store} {c p : ContextId}

/-- Records each typing that a walk comes to in `p`. The walk goes on in the store that has been
written to. -/
def replayTypings (s : Store) (cursor : Cursor) (p : ContextId) : Except Failure Unit × Store :=
  match hnext : cursor.next s with
  | (.error failure, _) => (.error failure, s)
  | (.ok none, _) => (.ok (), s)
  | (.ok (some (node, type)), cursor') =>
    have := Cursor.left_lt_of_next hnext (s.recordType p node type)
    replayTypings (s.recordType p node type) cursor' p
termination_by cursor.left s

/-- Records the variables of `c` in `p`, from `position` on, under their names. The walk fails when
there are not as many as at its start any more, and a write fails for a name that is no handle. -/
def replayVariables (s : Store) (c p : ContextId) (position size : Nat) :
    Except Failure Unit × Store :=
  let entries := (s.context c).varTypes.entries
  if hsize : entries.length ≠ size then (.error .changedDuringIteration, s)
  else match hentry : entries[position]? with
    | none => (.ok (), s)
    | some (handle, type) =>
      match s.recordVariable p handle.value type with
      | (.error failure, s) => (.error failure, s)
      | (.ok (), s) =>
        have : position < size := by
          obtain ⟨hlt, -⟩ := List.getElem?_eq_some_iff.mp hentry
          omega
        replayVariables s c p (position + 1) size
termination_by size - position

/-- What a commit does to the parent, step by step: it records the typings and the variables one by
one and adds the errors. A step that fails ends it, and what was written stays written. -/
def replay (s : Store) (c p : ContextId) : Except Failure Unit × Store :=
  match s.replayTypings ⟨c, .notStarted⟩ p with
  | (.error failure, s) => (.error failure, s)
  | (.ok (), s) =>
    match s.replayVariables c p 0 (s.context c).varTypes.size with
    | (.error failure, s) => (.error failure, s)
    | (.ok (), s) =>
      let errors := (s.context c).errors
      (.ok (), s.update p fun above => { above with errors := above.errors ++ errors })

/-! ## No step fails -/

/-- A walk that is over has recorded everything. -/
theorem replayTypings_of_end {cursor cursor' : Cursor}
    (hnext : cursor.next s = (.ok none, cursor')) : s.replayTypings cursor p = (.ok (), s) := by
  unfold replayTypings
  split
  · rename_i h
    cases hnext.symm.trans h
  · rfl
  · rename_i h
    cases hnext.symm.trans h

/-- A typing is recorded, and the walk goes on. -/
theorem replayTypings_of_next {cursor cursor' : Cursor} {node type : Value}
    (hnext : cursor.next s = (.ok (some (node, type)), cursor')) :
    s.replayTypings cursor p = (s.recordType p node type).replayTypings cursor' p := by
  rw [replayTypings]
  split
  · rename_i h
    cases hnext.symm.trans h
  · rename_i h
    cases hnext.symm.trans h
  · rename_i h
    cases hnext.symm.trans h
    rfl

/-- Entries put down in a context, under its policy. -/
def putDown (s : Store) (p : ContextId) (entries : List Entry) : Store :=
  s.update p (Context.enterAll (s.policy p) entries)

theorem context_putDown_of_ne (hne : c ≠ p) (es : List Entry) :
    (s.putDown p es).context c = s.context c := by
  rw [putDown, context_update, if_neg fun h => hne h.1]

/-- Entries do not change what the settings of a context say. -/
theorem policy_putDown (s : Store) (p : ContextId) (es : List Entry) :
    (s.putDown p es).policy p = s.policy p := by
  have hsettings : ((s.putDown p es).context p).settings = (s.context p).settings := by
    rw [putDown, context_update]
    split
    · exact (Context.origin_enterAll es _).2.1
    · rfl
  unfold policy settingsOf
  rw [hsettings]
  rfl

theorem putDown_nil (s : Store) (p : ContextId) : s.putDown p [] = s := by
  have hsame : s.contexts.modify p.index (Context.enterAll (s.policy p) []) = s.contexts := by
    refine Array.ext (by simp) fun i h h' => ?_
    rw [Array.getElem_modify]
    split <;> rfl
  rw [putDown, update, hsame]

theorem putDown_putDown (s : Store) (p : ContextId) (es es' : List Entry) :
    (s.putDown p es).putDown p es' = s.putDown p (es ++ es') := by
  have hsame : (s.putDown p es).contexts.modify p.index (Context.enterAll (s.policy p) es') =
      s.contexts.modify p.index (Context.enterAll (s.policy p) (es ++ es')) := by
    refine Array.ext (by simp [putDown, update]) fun i h h' => ?_
    simp only [putDown, update, Array.getElem_modify]
    split
    · exact (Context.enterAll_append es').symm
    · rfl
  rw [putDown, policy_putDown, update, hsame]
  rfl

/-- The typings from a position on are recorded, and nothing stops the walk: it is over a context
that is not written to. -/
theorem replayTypings_running (hne : c ≠ p) (done rest : List (NodeKey × Value))
    (hentries : (s.context c).nodeTypes.entries = done ++ rest) :
    s.replayTypings ⟨c, .running done.length (done ++ rest).length⟩ p =
      (.ok (), s.putDown p (rest.map fun e => .nodeType e.1.node e.2)) := by
  induction rest generalizing s done with
  | nil =>
    have hend : (Cursor.mk c (.running done.length (done ++ []).length)).next s =
        (.ok none, ⟨c, .finished⟩) := by
      simp [Cursor.next, Cursor.step, hentries]
    rw [replayTypings_of_end hend, List.map_nil, putDown_nil]
  | cons e rest ih =>
    have hnext : (Cursor.mk c (.running done.length (done ++ e :: rest).length)).next s =
        (.ok (some (e.1.node, e.2)),
          ⟨c, .running (done.length + 1) (done ++ e :: rest).length⟩) := by
      simp [Cursor.next, Cursor.step, hentries]
    have hone : s.recordType p e.1.node e.2 = s.putDown p [.nodeType e.1.node e.2] := rfl
    -- the branch is as it was, so the rest of it is still to come
    have hrest : ((s.putDown p [.nodeType e.1.node e.2]).context c).nodeTypes.entries =
        (done ++ [e]) ++ rest := by
      rw [context_putDown_of_ne hne, hentries, List.append_assoc, List.singleton_append]
    have hgo := ih (done ++ [e]) hrest
    rw [List.length_append, List.length_singleton, List.append_assoc, List.singleton_append] at hgo
    rw [replayTypings_of_next hnext, hone, hgo, putDown_putDown, List.map_cons,
      List.singleton_append]

/-- All typings of a branch are recorded in its parent. -/
theorem replayTypings_eq (s : Store) (hne : c ≠ p) :
    s.replayTypings ⟨c, .notStarted⟩ p =
      (.ok (), s.putDown p
        ((s.context c).nodeTypes.entries.map fun e => .nodeType e.1.node e.2)) := by
  -- a walk that has not started begins at the first typing
  have hstart : s.replayTypings ⟨c, .notStarted⟩ p =
      s.replayTypings ⟨c, .running 0 (s.context c).nodeTypes.size⟩ p := by
    rw [replayTypings, replayTypings]
    rfl
  rw [hstart]
  exact replayTypings_running hne [] _ rfl

/-- A walk over the variables that is over has recorded everything. -/
theorem replayVariables_of_end {position size : Nat}
    (hsize : (s.context c).varTypes.entries.length = size)
    (hend : (s.context c).varTypes.entries[position]? = none) :
    s.replayVariables c p position size = (.ok (), s) := by
  rw [replayVariables]
  split
  · contradiction
  · split
    · rfl
    · rename_i h
      cases hend.symm.trans h

/-- A variable is recorded under its name, and the walk goes on: a name that was bound once can be
bound again. -/
theorem replayVariables_of_next {position size : Nat} {handle : Handle} {type : Value}
    (hsize : (s.context c).varTypes.entries.length = size)
    (hentry : (s.context c).varTypes.entries[position]? = some (handle, type)) :
    s.replayVariables c p position size =
      (s.putDown p [.varType handle type]).replayVariables c p (position + 1) size := by
  have hone : s.recordVariable p handle.value type =
      (.ok (), s.putDown p [.varType handle type]) := by
    rw [recordVariable, handleOf_value]
    rfl
  rw [replayVariables]
  split
  · contradiction
  · split
    · rename_i h
      cases hentry.symm.trans h
    · rename_i h
      cases hentry.symm.trans h
      rw [hone]

/-- The variables from a position on are recorded. -/
theorem replayVariables_from (hne : c ≠ p) (done rest : List (Handle × Value))
    (hentries : (s.context c).varTypes.entries = done ++ rest) :
    s.replayVariables c p done.length (done ++ rest).length =
      (.ok (), s.putDown p (rest.map fun e => .varType e.1 e.2)) := by
  have hsize := congrArg List.length hentries
  induction rest generalizing s done with
  | nil =>
    have hend : (s.context c).varTypes.entries[done.length]? = none := by simp [hentries]
    rw [replayVariables_of_end hsize hend, List.map_nil, putDown_nil]
  | cons e rest ih =>
    have hentry : (s.context c).varTypes.entries[done.length]? = some (e.1, e.2) := by
      simp [hentries]
    have hrest : ((s.putDown p [.varType e.1 e.2]).context c).varTypes.entries =
        (done ++ [e]) ++ rest := by
      rw [context_putDown_of_ne hne, hentries, List.append_assoc, List.singleton_append]
    have hgo := ih (done ++ [e]) hrest (congrArg List.length hrest)
    rw [List.length_append, List.length_singleton, List.append_assoc, List.singleton_append] at hgo
    rw [replayVariables_of_next hsize hentry, hgo, putDown_putDown, List.map_cons,
      List.singleton_append]

/-- **No step of a commit fails**, whatever the branch holds, and in the end the parent has all its
entries put down, as by a commit. -/
theorem replay_eq (s : Store) (hne : c ≠ p) :
    s.replay c p = (.ok (), s.putDown p (s.context c).entries) := by
  have hvariables (es : List Entry) : (s.putDown p es).replayVariables c p 0
      (s.context c).varTypes.size = (.ok (), (s.putDown p es).putDown p
        ((s.context c).varTypes.entries.map fun e => .varType e.1 e.2)) :=
    replayVariables_from hne [] _ (by rw [context_putDown_of_ne hne]; rfl)
  have herrors (t : Store) (errors : List Value) :
      t.update p (fun above => { above with errors := above.errors ++ errors }) =
        t.putDown p (errors.map .error) := by
    rw [putDown]
    exact congrArg (t.update p) (funext fun above => (Context.enterAll_errors errors above).symm)
  rw [replay, replayTypings_eq s hne]
  simp only [context_putDown_of_ne hne, hvariables, herrors, putDown_putDown]
  rw [Context.entries]

/-- A commit that is not refused does what its steps do. -/
theorem replay_of_fresh (hs : s.Ordered) (hp : (s.context c).parent = some p)
    (hfresh : (s.context p).version = (s.context c).snapshot) :
    (s.replay c p).1 = .ok () ∧ (s.commit c).1 = .ok () ∧
      (s.commit c).2.contexts = (s.replay c p).2.contexts := by
  have hne : c ≠ p := by
    rintro rfl
    exact absurd (hs c c hp) (Nat.lt_irrefl _)
  obtain ⟨hok, -, hcontexts⟩ := s.commit_of_fresh hp hfresh
  rw [replay_eq s hne]
  exact ⟨rfl, hok, hcontexts⟩

end Store

namespace World

/-- **Failures are atomic, and commits hand over everything or nothing.** Whatever an engine has
done, and whatever was done to the objects meanwhile:

* an operation that fails leaves every context as it was;
* the refused operations fail, each for its reason, and no other operation on contexts does;
* a commit that is not refused goes through: no step of it fails, it leaves the contexts as its
  steps do, and the parent has everything put down that the branch holds. -/
theorem failures_atomic (regime : Regime) (objects : Objects) (script : Script) :
    let s := (script.world regime objects).prepared regime
    (∀ a f, (s.perform a).1 = .error f → (s.perform a).2.contexts = s.contexts) ∧
    (∀ a r, s.Refuses a r → ∃ f, (s.perform a).1 = .error f ∧ f.refusal? = some r) ∧
    (∀ a f, (s.perform a).1 = .error f →
      (∃ r, f.refusal? = some r ∧ s.Refuses a r) ∨ (∃ c, a = .dump c) ∨
        ∃ target field new, a = .assign target field new) ∧
    ∀ c p, (s.context c).parent = some p → (s.context p).version = (s.context c).snapshot →
      (s.replay c p).1 = .ok () ∧ (s.commit c).1 = .ok () ∧
        (s.commit c).2.contexts = (s.replay c p).2.contexts ∧
        (s.commit c).2.context p = (s.context p).enterAll (s.policy p) (s.context c).entries ∧
        ∀ d, d ≠ p → (s.commit c).2.context d = s.context d := by
  intro s
  have hs : s.Ordered := by
    obtain ⟨actions, hrun⟩ := script.exists_run regime objects
    have hsound := sound_run regime objects actions
    rw [← hrun] at hsound
    exact hsound.ordered
  refine ⟨fun a f => Store.contexts_perform_of_error, fun a r hrefuses => hrefuses.fails,
    fun a f => Store.exists_refuses_of_error, fun c p hp hfresh => ?_⟩
  obtain ⟨hreplay, hok, hcontexts⟩ := Store.replay_of_fresh hs hp hfresh
  obtain ⟨hparent, hothers⟩ := Store.context_commit_of_fresh hs hp hfresh
  exact ⟨hreplay, hok, hcontexts, hparent, hothers⟩

/-- A child comes too late, as its parent is written to. Another has a typed node, a typed variable
and an error; a list is tried as a name. -/
def branching : Script :=
  .act (.createRoot none none) fun _ => .act (.spawn ⟨0⟩) fun _ =>
    .act (.recordType ⟨0⟩ .absent (.nilType ⟨1⟩)) fun _ =>
    .inChild ⟨0⟩
      (fun child => .act (.recordType child (.bool true) (.anyType ⟨2⟩)) fun _ =>
        .act (.recordVariable child (.tuple ⟨3⟩ [.int ⟨4⟩ 1]) (.anyType ⟨2⟩)) fun _ =>
        .act (.recordVariable child (.list ⟨5⟩ []) (.anyType ⟨2⟩)) fun _ =>
        .act (.addError child (.ofText "bad")) fun _ => .done (.ok ()))
      fun result => .done result

/-- A list is refused as a name, a node that has no type is not found, neither the root nor the late
child can be committed, and none of this is seen in a context. The other child is handed over
whole. -/
theorem branching_atomic :
    let idle : Regime := fun _ objects => objects
    let s := (branching.world idle {}).prepared idle
    let fails (a : Action) (r : Refusal) : Prop := ∃ f, (s.perform a).1 = .error f ∧
      f.refusal? = some r ∧ (s.perform a).2.contexts = s.contexts
    fails (.hasVariable ⟨2⟩ (.list ⟨5⟩ [])) (.unhashable "list") ∧
      fails (.typeOf ⟨2⟩ (.bool false)) (.fault .nodeNotTyped) ∧
      fails (.commit ⟨0⟩) (.fault .commitOnRoot) ∧ fails (.commit ⟨1⟩) (.fault .staleContext) ∧
      (s.commit ⟨2⟩).1 = .ok () ∧ (s.replay ⟨2⟩ ⟨0⟩).1 = .ok () ∧
      (s.context ⟨2⟩).entries.length = 3 ∧
      ((s.commit ⟨2⟩).2.context ⟨0⟩).nodeTypes.size = 2 := by
  intro idle s fails
  obtain ⟨hatomic, hrefused, -, hcommit⟩ := failures_atomic idle {} branching
  have hfails {a : Action} {r : Refusal} (h : s.Refuses a r) : fails a r := by
    obtain ⟨f, hf, hr⟩ := hrefused a r h
    exact ⟨f, hf, hr, hatomic a f hf⟩
  obtain ⟨hreplay, hok, -, hparent, -⟩ :=
    hcommit ⟨2⟩ ⟨0⟩ (by decide +kernel) (by decide +kernel)
  have hlate : (s.context ⟨1⟩).parent = some ⟨0⟩ := by decide +kernel
  refine ⟨hfails (.hasUnhashable rfl), hfails (.nodeNotTyped (by decide +kernel)),
    hfails (.commitOnRoot (by decide +kernel)),
    hfails (.staleContext hlate (by decide +kernel)), hok, hreplay, by decide +kernel, ?_⟩
  rw [hparent]
  decide +kernel

end World

end TypingStore

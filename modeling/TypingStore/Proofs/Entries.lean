import TypingStore.Context

/-!
# Entries of a context

What is put down in a context is a list of entries: types of nodes, types of
variables, and errors. Everything a context goes through after it was created is
one list of entries (`Context.enterAll`), and a commit is no more than that: the
parent takes down the entries of the child (`absorb_eq_enterAll`).

Only the types count as **writes**. What a list of entries does to the version of
a context depends on the list only through the number of its writes:
* `pending_enterAll`: after a write, the mark is gone;
* `version_enterAll`: the version advances by `VersionPolicy.advance`.
-/

namespace TypingStore

/-- One thing put down in a context. -/
inductive Entry where
  | nodeType (node type : Value)
  | varType (handle : Handle) (type : Value)
  | error (error : Value)

/-- Whether an entry is a write: an error is none. -/
def Entry.isWrite : Entry → Bool
  | .nodeType _ _ | .varType _ _ => true
  | .error _ => false

/-- By how much a version advances on so many writes, with the mark of a new child or without. -/
def VersionPolicy.advance : VersionPolicy → (pending : Bool) → (writes : Nat) → Nat
  | everyWrite, _, writes => writes
  | firstWriteAfterSpawn, pending, writes => if pending ∧ 0 < writes then 1 else 0

theorem VersionPolicy.advance_zero (policy : VersionPolicy) (pending : Bool) :
    policy.advance pending 0 = 0 := by
  cases policy <;> simp [advance]

/-- A write under the mark moves the version, under either policy. -/
theorem VersionPolicy.advance_pos (policy : VersionPolicy) {writes : Nat} (h : 0 < writes) :
    0 < policy.advance true writes := by
  cases policy <;> simp [advance, h]

/-- On every write a version advances at least as fast as on the first only. -/
theorem VersionPolicy.advance_le {policy policy' : VersionPolicy}
    (h : policy' = .everyWrite → policy = .everyWrite) (pending : Bool) (writes : Nat) :
    policy'.advance pending writes ≤ policy.advance pending writes := by
  cases policy' with
  | everyWrite =>
    obtain rfl := h rfl
    exact Nat.le_refl _
  | firstWriteAfterSpawn =>
    cases policy with
    | everyWrite => simp only [advance]; split <;> omega
    | firstWriteAfterSpawn => exact Nat.le_refl _

namespace Context

/-- Puts one entry down. -/
def enter (policy : VersionPolicy) : Entry → Context → Context
  | .nodeType node type => recordType policy node type
  | .varType handle type => recordVariable policy handle type
  | .error error => addError error

/-- Puts several entries down, in order. -/
def enterAll (policy : VersionPolicy) (entries : List Entry) (c : Context) : Context :=
  entries.foldl (fun c e => c.enter policy e) c

/-- What a context holds, as entries, in the order in which it is handed over. -/
def entries (c : Context) : List Entry :=
  c.nodeTypes.entries.map (fun e => .nodeType e.1.node e.2)
    ++ c.varTypes.entries.map (fun e => .varType e.1 e.2) ++ c.errors.map .error

variable {policy : VersionPolicy} {e : Entry} {es : List Entry} {c child : Context}

@[simp] theorem enterAll_nil : c.enterAll policy [] = c := rfl

@[simp] theorem enterAll_cons :
    c.enterAll policy (e :: es) = (c.enter policy e).enterAll policy es := rfl

theorem enterAll_append (es' : List Entry) :
    c.enterAll policy (es ++ es') = (c.enterAll policy es).enterAll policy es' :=
  List.foldl_append ..

theorem enterAll_errors (errors : List Value) (c : Context) :
    c.enterAll policy (errors.map .error) = { c with errors := c.errors ++ errors } := by
  induction errors generalizing c with
  | nil => simp
  | cons error errors ih =>
    rw [List.map_cons, enterAll_cons, ih]
    simp [enter, addError]

/-- **A commit is entries put down once more**: the parent takes down those of the child. -/
theorem absorb_eq_enterAll : c.absorb policy child = c.enterAll policy child.entries := by
  have hn : ∀ (l : List (NodeKey × Value)) (c : Context),
      l.foldl (fun c entry => c.recordType policy entry.1.node entry.2) c =
        c.enterAll policy (l.map fun e => .nodeType e.1.node e.2) := by
    intro l c; simp only [enterAll, List.foldl_map]; rfl
  have hv : ∀ (l : List (Handle × Value)) (c : Context),
      l.foldl (fun c entry => c.recordVariable policy entry.1 entry.2) c =
        c.enterAll policy (l.map fun e => .varType e.1 e.2) := by
    intro l c; simp only [enterAll, List.foldl_map]; rfl
  -- errors are handed over all at once, which is one by one
  rw [absorb, hn, hv, entries, enterAll_append, enterAll_append, enterAll_errors]

/-- The types of nodes and variables that a context holds are the writes among its entries. -/
theorem countP_isWrite_entries :
    c.entries.countP Entry.isWrite = c.nodeTypes.size + c.varTypes.size := by
  simp [entries, List.countP_append, List.countP_map, Function.comp_def, Entry.isWrite,
    Bindings.size]

/-- What a context holds has a write in it when it holds the type of a node or of a variable. -/
theorem exists_isWrite_entries :
    (∃ e ∈ c.entries, e.isWrite = true) ↔ c.nodeTypes.size ≠ 0 ∨ c.varTypes.size ≠ 0 := by
  rw [← List.countP_pos_iff, countP_isWrite_entries]
  omega

/-! ## What entries leave alone -/

@[simp] theorem parent_noteWrite : (c.noteWrite policy).parent = c.parent := by
  unfold noteWrite; split <;> rfl

@[simp] theorem settings_noteWrite : (c.noteWrite policy).settings = c.settings := by
  unfold noteWrite; split <;> rfl

@[simp] theorem summarizer_noteWrite : (c.noteWrite policy).summarizer = c.summarizer := by
  unfold noteWrite; split <;> rfl

@[simp] theorem snapshot_noteWrite : (c.noteWrite policy).snapshot = c.snapshot := by
  unfold noteWrite; split <;> rfl

/-- **Entries never change where a context stands**: its parent, its settings, its summaries and the
version its parent had when it was created. -/
theorem origin_enterAll (es : List Entry) (c : Context) :
    (c.enterAll policy es).parent = c.parent ∧ (c.enterAll policy es).settings = c.settings ∧
      (c.enterAll policy es).summarizer = c.summarizer ∧
      (c.enterAll policy es).snapshot = c.snapshot := by
  induction es generalizing c with
  | nil => exact ⟨rfl, rfl, rfl, rfl⟩
  | cons e es ih =>
    obtain ⟨h1, h2, h3, h4⟩ := ih (c.enter policy e)
    rw [enterAll_cons, h1, h2, h3, h4]
    cases e <;> simp [enter, recordType, recordVariable, addError]

@[simp] theorem parent_enterAll : (c.enterAll policy es).parent = c.parent :=
  (origin_enterAll es c).1

@[simp] theorem summarizer_enterAll : (c.enterAll policy es).summarizer = c.summarizer :=
  (origin_enterAll es c).2.2.1

@[simp] theorem snapshot_enterAll : (c.enterAll policy es).snapshot = c.snapshot :=
  (origin_enterAll es c).2.2.2

/-! ## Versions -/

theorem pending_noteWrite : (c.noteWrite policy).pending = false := by
  unfold noteWrite
  split
  · rfl
  · rename_i h
    simpa using (not_or.1 h).2

/-- What one entry does to the version and the mark: a write moves the version if the policy says so
or the mark is there, and removes the mark; an error does nothing. -/
theorem version_enter (policy : VersionPolicy) (e : Entry) (c : Context) :
    (c.enter policy e).version =
        c.version + (if e.isWrite ∧ (policy = .everyWrite ∨ c.pending) then 1 else 0) ∧
      (c.enter policy e).pending = (c.pending && !e.isWrite) := by
  have hw : ∀ d : Context, (d.noteWrite policy).version =
      d.version + (if policy = .everyWrite ∨ d.pending then 1 else 0) := by
    intro d; unfold noteWrite; split <;> rfl
  cases e with
  | nodeType node type => exact ⟨by simp [enter, recordType, Entry.isWrite, hw],
      by simp [enter, recordType, Entry.isWrite, pending_noteWrite]⟩
  | varType handle type => exact ⟨by simp [enter, recordVariable, Entry.isWrite, hw],
      by simp [enter, recordVariable, Entry.isWrite, pending_noteWrite]⟩
  | error error => simp [enter, addError, Entry.isWrite]

/-- **A write takes the mark away**, wherever it stands among the entries. -/
theorem pending_enterAll (es : List Entry) (c : Context) :
    (c.enterAll policy es).pending = (c.pending && !es.any Entry.isWrite) := by
  induction es generalizing c with
  | nil => simp
  | cons e es ih =>
    rw [enterAll_cons, ih, (version_enter policy e c).2, List.any_cons, Bool.not_or, Bool.and_assoc]

/-- **What entries do to the version**: it advances by as much as the policy says for so many
writes. -/
theorem version_enterAll (es : List Entry) (c : Context) :
    (c.enterAll policy es).version =
      c.version + policy.advance c.pending (es.countP Entry.isWrite) := by
  induction es generalizing c with
  | nil => cases policy <;> simp [VersionPolicy.advance]
  | cons e es ih =>
    obtain ⟨hv, hp⟩ := version_enter policy e c
    rw [enterAll_cons, ih, hv, hp, List.countP_cons]
    -- the first write takes the mark away, so that no other write finds it
    cases policy <;> cases e.isWrite <;> cases c.pending <;> simp [VersionPolicy.advance] <;> omega

end Context

end TypingStore

import TypingStore.Proofs.EmbeddedReports
import TypingStore.Proofs.Relocation

/-!
# Stores among other stores

The contexts and the objects of one store may stand among those of another, under other ids
(`Store.Embeds`). Whatever else there is in the other store, **what is read of them is the same**: a
chain goes through the same contexts, so a lookup finds the same, a dump has the same text, and the
errors give the same diagnostics.

* `Summarizer.Pure`: a way to summarize that looks at nothing but the node.
* `Context.Within`: a context that mentions only the first objects.
* `Embeds.findType`, `Embeds.dump`, `Embeds.diagnostics`: what is read, up to ids.
-/

namespace TypingStore

/-! ## Failures without a fault -/

/-- A computation that does not end in a fault. -/
def Faultless {α : Type} (result : Except Failure α) : Prop :=
  ∀ ref, result ≠ .error (.fault ref)

/-- What does not end in a fault does not mention an id when it fails. -/
theorem Faultless.renameIn {α : Type} {result : Except Failure α} (h : Faultless result)
    (ρ : Renaming) : Failure.renameIn ρ result = result := by
  cases result with
  | ok a => rfl
  | error failure =>
    cases failure with
    | fault ref => exact absurd rfl (h ref)
    | _ => rfl

theorem Faultless.renameIn_error {α : Type} {failure : Failure}
    (h : Faultless (.error failure : Except Failure α)) (ρ : Renaming) {β : Type} :
    Failure.renameIn ρ (.error failure : Except Failure β) = .error failure := by
  cases failure with
  | fault ref => exact absurd rfl (h ref)
  | _ => rfl

theorem Faultless.map {α β : Type} {result : Except Failure α} (h : Faultless result)
    (f : α → β) : Faultless (result.map f) := by
  cases result with
  | error failure =>
    intro ref heq
    exact h ref (congrArg (fun f => Except.error f) (Except.error.inj heq))
  | ok a => exact nofun

theorem Faultless.bind {α β : Type} {result : Except Failure α} {next : α → Except Failure β}
    (h : Faultless result) (hnext : ∀ a, Faultless (next a)) : Faultless (result >>= next) := by
  cases result with
  | error failure =>
    intro ref heq
    exact h ref (congrArg (fun f => Except.error f) (Except.error.inj heq))
  | ok a => exact hnext a

namespace Store

theorem faultless_handleOf (name : Value) : Faultless (handleOf name) := by
  intro ref
  unfold handleOf
  cases Handle.ofValue name <;> nofun

theorem value_of_handleOf {name : Value} {handle : Handle} (h : handleOf name = .ok handle) :
    handle.value = name := by
  unfold handleOf Handle.ofValue at h
  split at h
  · cases h
    rfl
  · cases h

end Store

namespace Objects

variable (objects : Objects) (v : Value)

theorem faultless_need (name : String) : Faultless (objects.need v name) := by
  intro ref
  unfold need
  split <;> nofun

theorem faultless_start : Faultless (objects.start v) :=
  (objects.faultless_need v _).bind fun _ => (objects.faultless_need v _).bind fun _ => nofun

variable {objects v} in
theorem faultless_operation {α : Type} {answer : Except Failure α} (h : Faultless answer)
    (name : String) : Faultless (objects.operation v name answer) := by
  unfold operation
  split
  · nofun
  · exact h

/-- **A summary never ends in a fault.** -/
theorem faultless_summary : Faultless (objects.summary v) := by
  refine Faultless.bind ?_ fun start => Faultless.bind ?_ fun excerpt => nofun
  · unfold startOf
    split
    · nofun
    · exact objects.faultless_start _
  · unfold excerptOf
    dsimp only
    split
    · split
      · nofun
      · refine faultless_operation ?_ "split"
        nofun
    · nofun

/-- **A fault is put into words without another fault.** -/
theorem faultless_report (ref : FaultRef) : Faultless (objects.report ref) := by
  refine faultless_operation (Faultless.bind ?_ fun message => Faultless.bind ?_ nofun) "format"
  · refine Faultless.bind ?_ fun coded other => ?_
    · intro other
      unfold Value.isCoded
      split <;> nofun
    · split <;> nofun
  · unfold faultPlace
    dsimp only
    split
    · nofun
    · refine (objects.faultless_need _ "filename").bind fun filename => ?_
      split
      · nofun
      · refine (objects.faultless_need _ "span").bind fun span => ?_
        split
        · nofun
        · exact (objects.faultless_start _).bind nofun

end Objects

/-! ## Summaries -/

/-- Computations in a row end alike when each of them does, up to failures and answers. -/
theorem mapM_alike {α α' β β' ε ε' : Type} {fail : ε → ε'} {f : α → Except ε β}
    {f' : α' → Except ε' β'} {g : α → α'} {k : β → β'} {l : List α}
    (h : ∀ a ∈ l, f' (g a) = ((f a).mapError fail).map k) :
    (l.map g).mapM f' = ((l.mapM f).mapError fail).map (List.map k) := by
  induction l with
  | nil => rfl
  | cons a l ih =>
    obtain ⟨ha, hrest⟩ := List.forall_mem_cons.1 h
    rw [List.map_cons, List.mapM_cons, List.mapM_cons, ha, ih hrest]
    cases f a with
    | error failure => rfl
    | ok b => cases l.mapM f <;> rfl

/-- What holds of every answer holds of all answers in a row. -/
theorem forall_of_mapM_eq_ok {α β ε : Type} {f : α → Except ε β} {P : β → Prop} {l : List α}
    (h : ∀ a ∈ l, ∀ b, f a = .ok b → P b) {bs : List β} (hbs : l.mapM f = .ok bs) :
    ∀ b ∈ bs, P b := by
  induction l generalizing bs with
  | nil =>
    cases hbs
    exact nofun
  | cons a l ih =>
    obtain ⟨ha, hrest⟩ := List.forall_mem_cons.1 h
    rw [List.mapM_cons] at hbs
    obtain ⟨b, hb, hbs⟩ := exists_of_bind_eq_ok hbs
    obtain ⟨rest, hrestOk, hbs⟩ := exists_of_bind_eq_ok hbs
    cases hbs
    exact List.forall_mem_cons.2 ⟨ha b hb, ih hrest hrestOk⟩

/-- A way to summarize that goes by the node alone: it gives the same wherever the node stands, and
under whichever id. -/
def Summarizer.Pure (summarizer : Summarizer) : Prop :=
  ∀ ρ objects objects', objects.Embeds ρ objects' → ∀ v : Value,
    v.Within objects.attributes.size →
      summarizer.summary objects' (v.rename ρ) =
        Failure.renameIn ρ (summarizer.summary objects v)

theorem Summarizer.pure_standard : Summarizer.standard.Pure := by
  intro ρ objects objects' h v hv
  have hfaultless := objects.faultless_summary v
  exact (h.summary hv).trans (hfaultless.renameIn ρ).symm

/-! ## Contexts -/

/-- What is bound keeps to what its keys and its values keep to. -/
theorem Bindings.forall_insert {κ ν : Type} [BEq κ] {P : κ → Prop} {Q : ν → Prop}
    {b : Bindings κ ν} (h : ∀ e ∈ b.entries, P e.1 ∧ Q e.2) (key : κ) (value : ν) (hkey : P key)
    (hvalue : Q value) : ∀ e ∈ (b.insert key value).entries, P e.1 ∧ Q e.2 := by
  obtain ⟨entries⟩ := b
  simp only [insert] at h ⊢
  induction entries with
  | nil =>
    intro e he
    rw [List.mem_singleton.1 he]
    exact ⟨hkey, hvalue⟩
  | cons entry entries ih =>
    obtain ⟨hentry, hrest⟩ := List.forall_mem_cons.1 h
    rw [put]
    split
    · exact List.forall_mem_cons.2 ⟨⟨hentry.1, hvalue⟩, hrest⟩
    · exact List.forall_mem_cons.2 ⟨hentry, ih hrest⟩

/-- An entry mentions only the first `n` objects. -/
def Entry.Within (n : Nat) : Entry → Prop
  | .nodeType node type => node.Within n ∧ type.Within n
  | .varType handle type => handle.value.Within n ∧ type.Within n
  | .error v => v.Within n

/-- What a context holds mentions only the first `n` objects, and its summaries go by the node
alone. -/
structure Context.Within (n : Nat) (c : Context) : Prop where
  settings : c.settings.index < n
  summarizer : c.summarizer.Pure
  nodeTypes : ∀ e ∈ c.nodeTypes.entries, e.1.node.Within n ∧ e.2.Within n
  varTypes : ∀ e ∈ c.varTypes.entries, e.1.value.Within n ∧ e.2.Within n
  errors : ∀ v ∈ c.errors, v.Within n

namespace Context.Within

variable {n : Nat} {c : Context}

theorem mono {m : Nat} (hmn : m ≤ n) (h : c.Within m) : c.Within n where
  settings := Nat.lt_of_lt_of_le h.settings hmn
  summarizer := h.summarizer
  nodeTypes e he := ⟨(h.nodeTypes e he).1.mono hmn, (h.nodeTypes e he).2.mono hmn⟩
  varTypes e he := ⟨(h.varTypes e he).1.mono hmn, (h.varTypes e he).2.mono hmn⟩
  errors v hv := (h.errors v hv).mono hmn

theorem entries (h : c.Within n) : ∀ e ∈ c.entries, e.Within n := by
  intro e he
  rcases List.mem_append.1 he with he | he
  · rcases List.mem_append.1 he with he | he
    · obtain ⟨binding, hbinding, rfl⟩ := List.mem_map.1 he
      exact h.nodeTypes binding hbinding
    · obtain ⟨binding, hbinding, rfl⟩ := List.mem_map.1 he
      exact h.varTypes binding hbinding
  · obtain ⟨v, hv, rfl⟩ := List.mem_map.1 he
    exact h.errors v hv

theorem enter (policy : VersionPolicy) (h : c.Within n) {e : Entry} (he : e.Within n) :
    (c.enter policy e).Within n := by
  cases e with
  | nodeType node type =>
    have hnew := Bindings.forall_insert (P := fun key : NodeKey => key.node.Within n)
      (Q := Value.Within n) h.nodeTypes ⟨node⟩ type he.1 he.2
    exact ⟨by simpa [Context.enter, recordType] using h.settings,
      by simpa [Context.enter, recordType] using h.summarizer,
      by simpa [Context.enter, recordType] using hnew,
      by simpa [Context.enter, recordType] using h.varTypes,
      by simpa [Context.enter, recordType] using h.errors⟩
  | varType handle type =>
    have hnew := Bindings.forall_insert (P := fun key : Handle => key.value.Within n)
      (Q := Value.Within n) h.varTypes handle type he.1 he.2
    exact ⟨by simpa [Context.enter, recordVariable] using h.settings,
      by simpa [Context.enter, recordVariable] using h.summarizer,
      by simpa [Context.enter, recordVariable] using h.nodeTypes,
      by simpa [Context.enter, recordVariable] using hnew,
      by simpa [Context.enter, recordVariable] using h.errors⟩
  | error v =>
    refine ⟨h.settings, h.summarizer, h.nodeTypes, h.varTypes, fun w hw => ?_⟩
    rcases List.mem_append.1 hw with hw | hw
    · exact h.errors w hw
    · rw [List.mem_singleton.1 hw]
      exact he

theorem enterAll (policy : VersionPolicy) (h : c.Within n) {es : List Entry}
    (hes : ∀ e ∈ es, e.Within n) : (c.enterAll policy es).Within n := by
  induction es generalizing c with
  | nil => exact h
  | cons e es ih =>
    obtain ⟨he, hrest⟩ := List.forall_mem_cons.1 hes
    exact ih (h.enter policy he) hrest

end Context.Within

/-! ## Stores -/

namespace Store

/-- The contexts and the objects of `s` are among those of `s'`, under other ids. -/
structure Embeds (ρ : Renaming) (s s' : Store) : Prop where
  objects : s.objects.Embeds ρ s'.objects
  made : ∀ c, s.Has c → s'.Has (c.rename ρ)
  context : ∀ c, s.Has c → s'.context (c.rename ρ) = (s.context c).rename ρ
  within : ∀ c, s.Has c → (s.context c).Within s.objects.attributes.size

namespace Embeds

variable {ρ : Renaming} {s s' : Store} {c : ContextId} (h : s.Embeds ρ s')
include h

theorem oneToOne : ρ.OneToOne := h.objects.oneToOne

theorem policy (hc : s.Has c) : s'.policy (c.rename ρ) = s.policy c := by
  have hsettings : (s.context c).settings.index < s.objects.attributes.size :=
    (h.within c hc).settings
  unfold Store.policy Store.settingsOf
  rw [h.context c hc]
  exact congrArg Settings.versions (h.objects.settingsOf hsettings)

section Reading

variable (hs : s.Ordered) (hs' : s'.Ordered) (hc : s.Has c)
include hc

theorem get?_nodeTypes (node : Value) :
    (s'.context (c.rename ρ)).nodeTypes.get? ⟨node.rename ρ⟩ =
      ((s.context c).nodeTypes.get? ⟨node⟩).map (Value.rename ρ) := by
  rw [h.context c hc]
  exact Bindings.get?_translate (NodeKey.beq_rename h.oneToOne) (Value.rename ρ) _ ⟨node⟩

theorem get?_varTypes (handle : Handle) :
    (s'.context (c.rename ρ)).varTypes.get? (handle.rename ρ) =
      ((s.context c).varTypes.get? handle).map (Value.rename ρ) := by
  rw [h.context c hc]
  exact Bindings.get?_translate (Handle.beq_rename h.oneToOne) (Value.rename ρ) _ handle

theorem hasType (node : Value) : s'.hasType (c.rename ρ) (node.rename ρ) = s.hasType c node := by
  unfold Store.hasType
  rw [← Bindings.get?_isSome, ← Bindings.get?_isSome, h.get?_nodeTypes hc, Option.isSome_map]

theorem hasVariable (name : Value) :
    s'.hasVariable (c.rename ρ) (name.rename ρ) = s.hasVariable c name := by
  unfold Store.hasVariable
  rw [Handle.handleOf_rename]
  cases handleOf name with
  | error failure => rfl
  | ok handle =>
    refine congrArg Except.ok ?_
    dsimp only
    rw [← Bindings.get?_isSome, ← Bindings.get?_isSome, h.get?_varTypes hc, Option.isSome_map]

theorem typings :
    s'.typings (c.rename ρ) = (s.typings c).map fun e => (e.1.rename ρ, e.2.rename ρ) := by
  unfold Store.typings
  rw [h.context c hc]
  simp only [Context.rename, Bindings.entries_translate, List.map_map]
  rfl

include hs hs'

/-- **The chain of a context goes through the same contexts.** -/
theorem chain : s'.chain (c.rename ρ) = (s.chain c).map (ContextId.rename ρ) ∧
    ∀ a ∈ s.chain c, s.Has a := by
  induction hn : c.index using Nat.strongRecOn generalizing c with
  | ind n ih =>
    have hparent : (s'.context (c.rename ρ)).parent =
        (s.context c).parent.map (ContextId.rename ρ) := by
      rw [h.context c hc]
      rfl
    cases hp : (s.context c).parent with
    | none =>
      rw [hp, Option.map_none] at hparent
      have hone : s.chain c = [c] := by rw [Store.chain, hp]
      have hone' : s'.chain (c.rename ρ) = [c.rename ρ] := by rw [Store.chain, hparent]
      rw [hone, hone']
      refine ⟨rfl, fun a ha => ?_⟩
      rw [List.mem_singleton.1 ha]
      exact hc
    | some p =>
      rw [hp, Option.map_some] at hparent
      have hlt : p.index < c.index := hs c p hp
      obtain ⟨hchain, hall⟩ := ih p.index (by omega) (hs.has_parent hp) rfl
      rw [chain_of_parent s hp hlt, chain_of_parent s' hparent (hs' _ _ hparent), hchain]
      refine ⟨rfl, fun a ha => ?_⟩
      rcases List.mem_cons.1 ha with rfl | ha
      · exact hc
      · exact hall a ha

/-- What is looked up along a chain is found in the same context. -/
theorem findSome?_chain {look look' : ContextId → Option Value}
    (hlook : ∀ a, s.Has a → look' (a.rename ρ) = (look a).map (Value.rename ρ)) :
    (s'.chain (c.rename ρ)).findSome? look' =
      ((s.chain c).findSome? look).map (Value.rename ρ) := by
  obtain ⟨hchain, hall⟩ := h.chain hs hs' hc
  rw [hchain, List.findSome?_map]
  generalize s.chain c = chain at hall
  induction chain with
  | nil => rfl
  | cons a chain ih =>
    obtain ⟨ha, hrest⟩ := List.forall_mem_cons.1 hall
    rw [List.findSome?_cons, List.findSome?_cons, Function.comp_apply, hlook a ha]
    cases look a with
    | none => exact ih hrest
    | some v => rfl

theorem findType (node : Value) :
    s'.findType (c.rename ρ) (node.rename ρ) = (s.findType c node).map (Value.rename ρ) :=
  h.findSome?_chain hs hs' hc fun _ ha => h.get?_nodeTypes ha node

theorem findVariable (handle : Handle) :
    s'.findVariable (c.rename ρ) (handle.rename ρ) =
      (s.findVariable c handle).map (Value.rename ρ) :=
  h.findSome?_chain hs hs' hc fun _ ha => h.get?_varTypes ha handle

theorem caption : s'.caption (c.rename ρ) = s.caption c := by
  have hdepth : s'.depth (c.rename ρ) = s.depth c := by
    unfold Store.depth
    rw [(h.chain hs hs' hc).1, List.length_map]
  unfold Store.caption
  rw [hdepth, h.context c hc]
  simp only [Context.rename, Bindings.size_translate, List.length_map]

end Reading

theorem typingEntry {summarizer : Summarizer} (hpure : summarizer.Pure) {typing : Value × Value}
    (hnode : typing.1.Within s.objects.attributes.size)
    (htype : typing.2.Within s.objects.attributes.size) :
    s'.typingEntry summarizer (typing.1.rename ρ, typing.2.rename ρ) =
      Failure.renameIn ρ (s.typingEntry summarizer typing) := by
  have hsummary := hpure ρ _ _ h.objects typing.1 hnode
  unfold Store.typingEntry
  rw [hsummary, h.objects.display htype]
  cases summarizer.summary s.objects typing.1 <;> rfl

theorem errorEntry {summarizer : Summarizer} (hpure : summarizer.Pure) {v : Value}
    (hv : v.Within s.objects.attributes.size) :
    s'.errorEntry summarizer (v.rename ρ) =
      Failure.renameIn ρ (s.errorEntry summarizer v) := by
  have hnode : s'.objects.nodeOf (v.rename ρ) = (s.objects.nodeOf v).rename ρ :=
    h.objects.get hv "node"
  have hwithin : (s.objects.nodeOf v).Within s.objects.attributes.size :=
    h.objects.within_get hv "node"
  have hsummary := hpure ρ _ _ h.objects (s.objects.nodeOf v) hwithin
  unfold Store.errorEntry
  rw [hnode, h.objects.plain hv]
  generalize s.objects.nodeOf v = node at hsummary
  cases node with
  | absent => rfl
  | _ =>
    simp only [Value.rename] at hsummary ⊢
    rw [hsummary]
    generalize summarizer.summary s.objects _ = summary
    cases summary <;> rfl

/-- **A context is dumped alike.** -/
theorem dump (hc : s.Has c) : s'.dump (c.rename ρ) = Failure.renameIn ρ (s.dump c) := by
  have hwithin := h.within c hc
  have htypings : ∀ typing ∈ s.typings c, s'.typingEntry (s.context c).summarizer
      (typing.1.rename ρ, typing.2.rename ρ) =
        ((s.typingEntry (s.context c).summarizer typing).mapError (Failure.rename ρ)).map id := by
    intro typing htyping
    obtain ⟨entry, hentry, rfl⟩ := List.mem_map.1 htyping
    obtain ⟨hnode, htype⟩ := hwithin.nodeTypes entry hentry
    rw [h.typingEntry hwithin.summarizer hnode htype]
    cases s.typingEntry (s.context c).summarizer (entry.1.node, entry.2) <;> rfl
  have herrors : ∀ v ∈ (s.context c).errors, s'.errorEntry (s.context c).summarizer (v.rename ρ) =
      (Failure.renameIn ρ (s.errorEntry (s.context c).summarizer v)).map id := by
    intro v hv
    rw [h.errorEntry hwithin.summarizer (hwithin.errors v hv)]
    cases s.errorEntry (s.context c).summarizer v <;> rfl
  have hsummarizer : (s'.context (c.rename ρ)).summarizer = (s.context c).summarizer := by
    rw [h.context c hc]
    rfl
  have herrorLog : (s'.context (c.rename ρ)).errors =
      (s.context c).errors.map (Value.rename ρ) := by
    rw [h.context c hc]
    rfl
  have hplain : ∀ result : Except Failure (List String),
      (result.mapError (Failure.rename ρ)).map (List.map id) = Failure.renameIn ρ result := by
    intro result
    cases result with
    | error failure => rfl
    | ok texts => exact congrArg Except.ok (List.map_id texts)
  simp only [Store.dump, hsummarizer, herrorLog, h.typings hc, mapM_alike htypings,
    mapM_alike herrors, hplain]
  cases (s.typings c).mapM (s.typingEntry (s.context c).summarizer) with
  | error failure => rfl
  | ok typings =>
    cases (s.context c).errors.mapM (s.errorEntry (s.context c).summarizer) <;> rfl

/-- **The errors of a context are reported alike.** -/
theorem diagnostics (hc : s.Has c) (unit filename : Value) :
    s'.diagnostics (c.rename ρ) (unit.rename ρ) (filename.rename ρ) =
      (s.diagnostics c unit filename).map (List.map (Diagnostic.rename ρ)) := by
  have hone : ∀ v ∈ (s.context c).errors,
      s'.objects.diagnosticOf (unit.rename ρ) (filename.rename ρ) (v.rename ρ) =
        ((s.objects.diagnosticOf unit filename v).mapError id).map (Diagnostic.rename ρ) := by
    intro v hv
    rw [h.objects.diagnosticOf ((h.within c hc).errors v hv)]
    cases s.objects.diagnosticOf unit filename v <;> rfl
  have herrorLog : (s'.context (c.rename ρ)).errors =
      (s.context c).errors.map (Value.rename ρ) := by
    rw [h.context c hc]
    rfl
  unfold Store.diagnostics
  rw [herrorLog, mapM_alike hone]
  cases (s.context c).errors.mapM (s.objects.diagnosticOf unit filename) <;> rfl

theorem within_diagnostics (hc : s.Has c) {unit filename : Value}
    (hunit : unit.Within s.objects.attributes.size)
    (hfilename : filename.Within s.objects.attributes.size) {ds : List Diagnostic}
    (hds : s.diagnostics c unit filename = .ok ds) :
    ∀ d ∈ ds, d.Within s.objects.attributes.size := by
  refine forall_of_mapM_eq_ok (fun v hv d hd => ?_) hds
  exact h.objects.within_diagnosticOf ((h.within c hc).errors v hv) hunit hfilename hd

end Embeds

end Store

end TypingStore

import TypingStore.Proofs.Branches
import TypingStore.Proofs.History

/-!
# What a commit changes of what is seen

A lookup in a context sees the first answer along the chain of the context. A commit puts types into
one context of the tree, the parent, which stands on many chains, with or without the branch in
front of it.

Behind the branch nothing changes: what the parent has now, the branch has had in front of it all
along. The parent itself sees from now on what the branch saw. Whoever else sees something else now
looks through the parent from another branch, and that branch was made before something was written
to the parent: it can no longer be committed (`World.commit_preserves_views`).

* `Store.seen`: the first answer along the chain, whatever is asked of each context.
* `TakesOver`: the parent has taken over what the branch has.
* `TakesOver.seen_parent`, `TakesOver.seen_below`, `TakesOver.seen_of_not_inBranch`: what is seen
  from the parent, from behind the branch, and from anywhere else.
-/

namespace TypingStore
namespace Store

/-- What is seen from a context, when `view` is asked of each context on its chain. -/
def seen (s : Store) (view : Context → Option Value) (c : ContextId) : Option Value :=
  (s.chain c).findSome? fun a => view (s.context a)

/-- Every lookup in `d` answers in `s'` as the same lookup in `c` does in `s`. -/
def SameView (s : Store) (c : ContextId) (s' : Store) (d : ContextId) : Prop :=
  (∀ node, (s'.typeOf d node).1 = (s.typeOf c node).1) ∧
    ∀ name, (s'.variableTypeOf d name).1 = (s.variableTypeOf c name).1

variable {s s' : Store} {c d k p : ContextId} {view : Context → Option Value}

/-- What is seen goes by what each context on the chain answers. -/
theorem findSome?_view_congr {ids : List ContextId}
    (h : ∀ a ∈ ids, s'.context a = s.context a) :
    ids.findSome? (fun a => view (s'.context a)) = ids.findSome? fun a => view (s.context a) := by
  induction ids with
  | nil => rfl
  | cons a ids ih =>
    rw [List.findSome?_cons, List.findSome?_cons, h a List.mem_cons_self,
      ih fun b hb => h b (List.mem_cons_of_mem _ hb)]

theorem seen_of_parent (hp : (s.context c).parent = some p) (hlt : p.index < c.index) :
    s.seen view c = (view (s.context c)).or (s.seen view p) := by
  rw [seen, chain_of_parent s hp hlt, List.findSome?_cons, seen]
  cases view (s.context c) <;> rfl

theorem seen_eq_or (s : Store) (view : Context → Option Value) (c : ContextId) :
    s.seen view c = (view (s.context c)).or
      ((s.chain c).tail.findSome? fun a => view (s.context a)) := by
  rw [seen, chain, List.findSome?_cons, List.tail_cons]
  cases view (s.context c) <;> rfl

/-- Nothing else on a chain is the context it starts from. -/
theorem not_mem_tail_chain (s : Store) (c : ContextId) : c ∉ (s.chain c).tail := fun hc =>
  Nat.lt_irrefl _ (index_lt_of_mem_tail_chain c hc)

/-- What is in the branch of a context and not the context itself is in the branch of a child. -/
theorem exists_child_of_inBranch (h : s.InBranch p d) (hne : d ≠ p) :
    ∃ k, (s.context k).parent = some p ∧ s.InBranch k d := by
  have htail : p ∈ (s.chain d).tail := by
    rw [InBranch, chain] at h
    rw [chain, List.tail_cons]
    exact (List.mem_cons.1 h).resolve_left (Ne.symm hne)
  obtain ⟨k, hk, hparent⟩ := exists_child_of_mem_tail_chain htail
  exact ⟨k, hparent, hk⟩

/-- Lookups answer alike when they find alike and the same objects are there. -/
theorem sameView_of_find (hobjects : s'.objects = s.objects)
    (hnodes : ∀ node, s'.findType d node = s.findType c node)
    (hhandles : ∀ handle, s'.findVariable d handle = s.findVariable c handle) :
    s.SameView c s' d := by
  constructor
  · intro node
    simp only [typeOf, hnodes]
    cases s.findType c node with
    | none => simp only [fail, hobjects]
    | some type => rfl
  · intro name
    simp only [variableTypeOf]
    cases handleOf name with
    | error failure => rfl
    | ok handle =>
      simp only [hhandles]
      cases s.findVariable c handle with
      | none => simp only [fail, hobjects]
      | some type => rfl

/-- In `s'` the parent `p` has, before all it has in `s`, what the branch `c` has; and nothing else
has changed. -/
structure TakesOver (s : Store) (c p : ContextId) (s' : Store) (view : Context → Option Value) :
    Prop where
  ordered : s.Ordered
  parent : (s.context c).parent = some p
  others : ∀ d, d ≠ p → s'.context d = s.context d
  above : (s'.context p).parent = (s.context p).parent
  merged : view (s'.context p) = (view (s.context c)).or (view (s.context p))

namespace TakesOver

variable (h : TakesOver s c p s' view)
include h

theorem chain (d : ContextId) : s'.chain d = s.chain d := by
  refine chain_congr fun e _ => ?_
  by_cases hep : e = p
  · rw [hep]; exact h.above
  · rw [h.others e hep]

/-- **From anywhere else the same is seen** as before. -/
theorem seen_of_not_inBranch (hd : ¬ s.InBranch p d) : s'.seen view d = s.seen view d := by
  rw [seen, seen, h.chain]
  refine findSome?_view_congr fun a ha => h.others a ?_
  rintro rfl
  exact hd ha

/-- **From the parent is seen what the branch saw.** -/
theorem seen_parent : s'.seen view p = s.seen view c := by
  have habove : (s'.chain p).tail.findSome? (fun a => view (s'.context a)) =
      (s.chain p).tail.findSome? fun a => view (s.context a) := by
    rw [h.chain]
    refine findSome?_view_congr fun a ha => h.others a ?_
    rintro rfl
    exact s.not_mem_tail_chain a ha
  rw [seen_eq_or, habove, h.merged, seen_of_parent h.parent (h.ordered c p h.parent),
    seen_eq_or s view p, Option.or_assoc]

/-- **From behind the branch nothing new is seen**: the branch itself is asked first. -/
theorem seen_below (hd : s.InBranch c d) : s'.seen view d = s.seen view d := by
  have hcp : p.index < c.index := h.ordered c p h.parent
  induction hn : d.index using Nat.strongRecOn generalizing d with
  | ind n ih =>
    have hdp : d ≠ p := by
      rintro rfl
      have hle := index_le_of_mem_chain s d c hd
      omega
    have hsame := h.others d hdp
    by_cases hdc : d = c
    · subst hdc
      have hparent : (s'.context d).parent = some p := by rw [hsame]; exact h.parent
      rw [seen_of_parent hparent hcp, h.seen_parent, hsame, seen_of_parent h.parent hcp,
        ← Option.or_assoc, Option.or_self]
    · cases hq : (s.context d).parent with
      | none => exact absurd ((inBranch_iff_of_root hq).1 hd).symm hdc
      | some q =>
        have hlt : q.index < d.index := h.ordered d q hq
        have hin := ((inBranch_iff_of_parent h.ordered hq).1 hd).resolve_left (Ne.symm hdc)
        have hparent : (s'.context d).parent = some q := by rw [hsame]; exact hq
        rw [seen_of_parent hparent hlt, seen_of_parent hq hlt, hsame,
          ih q.index (by omega) hin rfl]

end TakesOver

/-- **After an accepted commit the parent has what the branch has**, and else what it had. -/
theorem takesOver_commit (hs : s.Ordered) {history : List Entry}
    (hheld : (s.context c).HoldsAll history) (hp : (s.context c).parent = some p)
    (hv : (s.context p).version = (s.context c).snapshot) :
    (∀ node, s.TakesOver c p (s.commit c).2 fun a => a.nodeTypes.get? node) ∧
      ∀ handle, s.TakesOver c p (s.commit c).2 fun a => a.varTypes.get? handle := by
  obtain ⟨hafter, hothers⟩ := context_commit_of_fresh hs hp hv
  have habove : ((s.commit c).2.context p).parent = (s.context p).parent := by
    rw [hafter, Context.parent_enterAll]
  -- what the branch has is what its history gives, and that is what the parent takes over
  have hgrows := hheld.handed (s.policy p) (s.context p)
  rw [← hafter] at hgrows
  refine ⟨fun node => ⟨hs, hp, hothers, habove, ?_⟩, fun handle => ⟨hs, hp, hothers, habove, ?_⟩⟩
  · have hnone : (default : Context).nodeTypes.get? node = none := rfl
    rw [hgrows.nodeTypes, hheld.nodeTypes, Bindings.get?_insertAll, Bindings.get?_insertAll, hnone,
      Option.or_none]
  · have hnone : (default : Context).varTypes.get? handle = none := rfl
    rw [hgrows.varTypes, hheld.varTypes, Bindings.get?_insertAll, Bindings.get?_insertAll, hnone,
      Option.or_none]

/-- A branch without types hands nothing over that is looked up. -/
theorem sameView_of_no_types (hs : s.Ordered) (hp : (s.context c).parent = some p)
    (hv : (s.context p).version = (s.context c).snapshot) (hn : (s.context c).nodeTypes.size = 0)
    (hh : (s.context c).varTypes.size = 0) (d : ContextId) : s.SameView d (s.commit c).2 d := by
  have hobjects := (s.commit_of_fresh hp hv).2.1
  obtain ⟨hafter, hothers⟩ := context_commit_of_fresh hs hp hv
  obtain ⟨hentriesN, hentriesV, -⟩ := (s.context c).filterMap_entries
  have hgrows := Context.grows_enterAll (s.policy p) (s.context c).entries (s.context p)
  have hnodes : (s.context c).nodeTypes.entries = [] := List.length_eq_zero_iff.1 hn
  have hhandles : (s.context c).varTypes.entries = [] := List.length_eq_zero_iff.1 hh
  have hsame : ∀ e, ((s.commit c).2.context e).parent = (s.context e).parent ∧
      ((s.commit c).2.context e).nodeTypes = (s.context e).nodeTypes ∧
      ((s.commit c).2.context e).varTypes = (s.context e).varTypes := by
    intro e
    by_cases hep : e = p
    · rw [hep, hafter, hgrows.nodeTypes, hgrows.varTypes, hentriesN, hentriesV, hnodes, hhandles]
      exact ⟨Context.parent_enterAll, rfl, rfl⟩
    · rw [hothers e hep]
      exact ⟨rfl, rfl, rfl⟩
  exact sameView_of_find hobjects
    (findType_congr (fun e _ => (hsame e).1) fun e _ => (hsame e).2.1)
    (findVariable_congr (fun e _ => (hsame e).1) fun e _ => (hsame e).2.2)

end Store

namespace World

open Store

/-- **A commit that hands over types leaves every child of the parent stale.** -/
theorem Sound.refused_of_commit {w : World} (hw : w.Sound) (regime : Regime) {c k p : ContextId}
    (hp : (w.store.context c).parent = some p)
    (hv : (w.store.context p).version = (w.store.context c).snapshot)
    (htypes : (w.store.context c).nodeTypes.size ≠ 0 ∨ (w.store.context c).varTypes.size ≠ 0)
    (hk : (w.store.context k).parent = some p) :
    ∃ ref, ((w.step regime (.commit c)).store.commit k).1 = .error (.fault ref) ∧
      ref.kind = .staleContext := by
  have hlater := later_commit hw regime hp hv
  have hw' := hw.step regime (.commit c)
  have hhas : w.store.Has k := has_of_parent hk
  have hk' := (hlater.parent k hhas).trans hk
  have hwritten : ∃ e ∈ (w.store.context c).entries.map (Event.entered p), e.writes p = true :=
    exists_writes_map.2 ⟨rfl, Context.exists_isWrite_entries.2 htypes⟩
  have hsince : ∃ e ∈ Event.since k (w.step regime (.commit c)).events, e.writes p = true := by
    obtain ⟨e, he, hwrite⟩ := hwritten
    refine ⟨e, ?_, hwrite⟩
    rw [hlater.events, Event.since_append ((hw.created k).1 hhas)]
    exact List.mem_append_right _ he
  exact (commit_refused_iff _ k).2 ⟨p, hk', fun hfresh => (hw'.fresh_iff hk').1 hfresh hsince⟩

/-- **A commit preserves every view of the branch, and changes only views that are out of date.** In
every world a script can come to, after an accepted commit, every lookup in the parent answers as
the branch did before, and every lookup in the branch, or further down, answers as before. Whoever
sees something else than before is the parent itself, or looks through a child of the parent that
can no longer be committed. -/
theorem commit_preserves_views (regime : Regime) (objects : Objects) (script : Script)
    {c : ContextId} :
    let s := (script.world regime objects).prepared regime
    let s' := (s.commit c).2
    (s.commit c).1 = .ok () →
    ∃ p, (s.context c).parent = some p ∧ s.SameView c s' p ∧
      (∀ d, s.InBranch c d → s.SameView d s' d) ∧
      ∀ d, ¬ s.SameView d s' d → d = p ∨
        ∃ k, (s.context k).parent = some p ∧ s.InBranch k d ∧
          ∃ ref, (s'.commit k).1 = .error (.fault ref) ∧ ref.kind = .staleContext := by
  intro s s' hok
  obtain ⟨actions, hrun⟩ := script.exists_run regime objects
  have hw : (script.world regime objects).Sound := by
    rw [hrun]
    exact sound_run regime objects actions
  have hheld : (s.context c).HoldsAll
      ((script.world regime objects).events.filterMap (Event.entryIn c)) := by
    have htold := (remembered_run regime objects actions).told c
    rw [← hrun] at htold
    exact htold
  have hs : s.Ordered := hw.ordered
  obtain ⟨p, hp, hv⟩ := commit_eq_ok_iff.1 hok
  obtain ⟨hnodes, hhandles⟩ := takesOver_commit hs hheld hp hv
  have hobjects : s'.objects = s.objects := (s.commit_of_fresh hp hv).2.1
  refine ⟨p, hp, ?_, fun d hd => ?_, fun d hchanged => ?_⟩
  · exact sameView_of_find hobjects (fun node => (hnodes ⟨node⟩).seen_parent)
      fun handle => (hhandles handle).seen_parent
  · exact sameView_of_find hobjects (fun node => (hnodes ⟨node⟩).seen_below hd)
      fun handle => (hhandles handle).seen_below hd
  · by_cases hdp : d = p
    · exact .inl hdp
    · -- only the parent has changed, so whoever sees a change looks through it
      have hthrough : s.InBranch p d := by
        refine Decidable.byContradiction fun hout => hchanged ?_
        exact sameView_of_find hobjects
          (fun node => (hnodes ⟨node⟩).seen_of_not_inBranch hout)
          fun handle => (hhandles handle).seen_of_not_inBranch hout
      obtain ⟨k, hk, hin⟩ := exists_child_of_inBranch hthrough hdp
      have htypes : (s.context c).nodeTypes.size ≠ 0 ∨ (s.context c).varTypes.size ≠ 0 := by
        refine Decidable.byContradiction fun hnone => hchanged ?_
        obtain ⟨hn, hh⟩ := not_or.1 hnone
        exact sameView_of_no_types hs hp hv (Decidable.not_not.1 hn) (Decidable.not_not.1 hh) d
      have hadmits : s.Admits (.commit c) := by
        intro e he
        obtain rfl : c = e := by simpa [Action.context?] using he
        exact has_of_parent hp
      have hstep : ((script.world regime objects).step regime (.commit c)).store = s' := by
        rw [step_of_admits hadmits]
        rfl
      have hrefused := hw.refused_of_commit regime hp hv htypes hk
      rw [hstep] at hrefused
      exact .inr ⟨k, hk, hin, hrefused⟩

/-- A root with two branches. The first one gives a node another type than the root has; the second
one has a branch of its own, which sees the type of the root. -/
def rivals : Script :=
  .act (.createRoot none none) fun _ => .act (.recordType ⟨0⟩ .absent (.nilType ⟨2⟩)) fun _ =>
    .act (.spawn ⟨0⟩) fun _ => .act (.spawn ⟨0⟩) fun _ => .act (.spawn ⟨2⟩) fun _ =>
      .act (.recordType ⟨1⟩ .absent (.anyType ⟨3⟩)) fun _ => .done (.ok ())

/-- Once the first branch is committed, the root sees what that branch saw. The branch of the second
one sees another type than before, and the second branch can no longer be committed. -/
theorem rivals_views :
    let idle : Regime := fun _ objects => objects
    let s := (rivals.world idle {}).prepared idle
    let s' := (s.commit ⟨1⟩).2
    (s.commit ⟨1⟩).1 = .ok () ∧ (s'.typeOf ⟨0⟩ .absent).1 = (s.typeOf ⟨1⟩ .absent).1 ∧
      (s'.typeOf ⟨1⟩ .absent).1 = (s.typeOf ⟨1⟩ .absent).1 ∧
      (s'.typeOf ⟨3⟩ .absent).1 ≠ (s.typeOf ⟨3⟩ .absent).1 ∧
      ∃ ref, (s'.commit ⟨2⟩).1 = .error (.fault ref) ∧ ref.kind = .staleContext := by
  intro idle s s'
  have hok : (s.commit ⟨1⟩).1 = .ok () :=
    commit_eq_ok_iff.2 ⟨⟨0⟩, by decide +kernel, by decide +kernel⟩
  obtain ⟨p, hp, hparent, hbelow, hchanged⟩ := commit_preserves_views idle {} rivals hok
  have hroot : (s.context ⟨1⟩).parent = some ⟨0⟩ := by decide +kernel
  obtain rfl : p = ⟨0⟩ := Option.some.inj (hp.symm.trans hroot)
  have hnew : (s'.typeOf ⟨3⟩ .absent).1 ≠ (s.typeOf ⟨3⟩ .absent).1 := by
    intro heq
    have hkinds := congrArg (fun x => x.toOption.map Value.kindName) heq
    exact absurd hkinds (by decide +kernel)
  refine ⟨hok, hparent.1 .absent, (hbelow ⟨1⟩ (s.inBranch_self ⟨1⟩)).1 .absent, hnew, ?_⟩
  rcases hchanged ⟨3⟩ fun hsame => hnew (hsame.1 .absent) with heq | ⟨k, hk, hin, hrefused⟩
  · cases heq
  · have honly : ∀ k ∈ s.chain ⟨3⟩, (s.context k).parent = some ⟨0⟩ → k = ⟨2⟩ := by
      decide +kernel
    obtain rfl := honly k hin hk
    exact hrefused

end World

end TypingStore

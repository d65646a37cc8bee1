import TypingStore.Proofs.Messages
import TypingStore.Proofs.SameWork
import TypingStore.Store.Block

/-!
# Routines

A routine is a run of operations on contexts and of checks of units, in any order. The engines of
its units are routines, too, and so are the blocks that it calls on new children. How it goes on may
depend on how each operation and each check ended, and on whatever it sees of contexts and objects,
apart from how much is reported.

The settings may be changed while a routine runs: whenever an operation is done, and wherever else
the routine says so, every settings object is given the volume that it has from then on. What is
known of the run so far is kept beside the store (`Progress`).

* `Routine`, `Routine.run`: the runs.
* `Running.Same`: two runs that went the same so far, apart from what was reported.
* `Parallel`: two computations that keep two runs the same, as long as no text that is made shows
  the settings. Such computations can be put one after the other (`Parallel.seq`).
* `parallel_run`: a routine does the same under all volumes.
-/

namespace TypingStore

/-- A unit to check: its name, its file, and which of the engines walks over it. -/
structure Task where
  name : String
  filename : Option String := none
  engine : Nat := 0

/-- What a run does, operation by operation. -/
inductive Routine where
  /-- The run is done, or a failure ends it. -/
  | done (result : Except Failure Unit)
  /-- The settings are changed. -/
  | retune (next : Routine)
  /-- The contexts and the objects are looked at; how much is reported cannot be seen. -/
  | look (next : Array Context → Objects → Routine)
  | act (a : Action) (next : Outcome → Routine)
  /-- A block called on a new child. -/
  | inChild (parent : ContextId) (body : ContextId → Routine) (next : Except Failure Unit → Routine)
  /-- Units are checked in order. -/
  | check (checker : Checker) (tasks : List Task) (engines : Nat → ContextId → Routine)
      (next : Except Failure (List UnitResult) → Routine)

/-- What is told to whoever asked for an operation or a check. -/
inductive Reply where
  | outcome (outcome : Outcome)
  | results (results : Except Failure (List UnitResult))

/-- What is known of a run so far. -/
structure Progress where
  /-- How often the settings were changed. -/
  moment : Nat := 0
  /-- What was told, the oldest first. -/
  replies : List Reply := []
  /-- What there was to report. -/
  notices : List Notice := []
  /-- What was put into texts. -/
  exhibits : List Exhibit := []

namespace Progress

/-- Takes note of messages, with the settings as they are. -/
def hear (p : Progress) (objects : Objects) (messages : List Message) : Progress :=
  { p with notices := p.notices ++ messages.map (objects.notice p.moment) }

/-- Takes note of what is put into texts. -/
def see (p : Progress) (exhibits : List Exhibit) : Progress :=
  { p with exhibits := p.exhibits ++ exhibits }

/-- Takes note of what is told. -/
def answer (p : Progress) (reply : Reply) : Progress := { p with replies := p.replies ++ [reply] }

end Progress

/-- A run, and the store it works on. -/
abbrev Running := Progress × Store

namespace Running

/-- Gives all settings objects the volumes of the next moment. -/
def retune (volumes : Volumes) (x : Running) : Running :=
  ({ x.1 with moment := x.1.moment + 1 },
    { x.2 with objects := x.2.objects.tune (volumes (x.1.moment + 1)) })

/-- Carries out an operation; the settings are changed when it is done. One on a context that was
never made is passed over. -/
def perform (volumes : Volumes) (a : Action) (x : Running) : Outcome × Running :=
  if x.2.Admits a then
    let (outcome, s) := x.2.perform a
    (outcome, retune volumes
      (((x.1.hear x.2.objects (x.2.messagesOf a)).see (x.2.exhibitsOf a)).answer (.outcome outcome),
        s))
  else (.ok .done, x)

/-- Makes a child, and takes note of it. -/
def spawn (parent : ContextId) (x : Running) : ContextId × Running :=
  let (child, s) := x.2.spawn parent
  (child, x.1.hear x.2.objects (x.2.messagesOf (.spawn parent)), s)

end Running

namespace Task

/-- A task as a unit. Notes are taken of its start and its end. -/
def unit (checker : Checker) (engine : Engine Progress) (task : Task) : CheckUnit Progress where
  name := task.name
  filename := task.filename
  engine root x :=
    let (result, own, s) := engine root (x.1.hear x.2.objects [checker.greeting task.name], x.2)
    let w : Checker.Walk := ⟨root, result, s⟩
    (result, (own.hear s.objects (checker.lastWords task.name task.filename w)).see
      (w.exhibits task.filename), s)

/-- The start of a task: the root is made. -/
def start (checker : Checker) (task : Task) (x : Running) : ContextId × Running :=
  let (root, s) := (checker.report .info (Journal.stageMessage "Type-checking" (some task.name))
    x.2).createRoot (some checker.settings) checker.summarizer
  (root, x.1.hear s.objects [checker.greeting task.name], s)

/-- The end of a task, by how its engine ended. -/
def close (checker : Checker) (task : Task) (root : ContextId) (result : Except Failure Unit)
    (x : Running) : Except Failure UnitResult × Running :=
  let w : Checker.Walk := ⟨root, result, x.2⟩
  let (answer, s) := checker.close (task.unit checker fun _ x => (.ok (), x)) w
  (answer, (x.1.hear x.2.objects (checker.lastWords task.name task.filename w)).see
    (w.exhibits task.filename), s)

/-- **A check in three parts**: the start, the walk of the engine, and the end. -/
theorem check_unit (checker : Checker) (task : Task) (engine : Engine Progress) (x : Running) :
    checker.check (task.unit checker engine) x =
      let started := task.start checker x
      let ended := engine started.1 started.2
      task.close checker started.1 ended.1 ended.2 := by
  simp only [Checker.check, start, close, unit]
  generalize (checker.report .info _ x.2).createRoot _ _ = made
  obtain ⟨root, s⟩ := made
  dsimp only
  generalize engine root _ = ended
  obtain ⟨result, own, s'⟩ := ended
  cases result with
  | ok u => rfl
  | error failure => cases failure <;> rfl

end Task

/-- How several units go on after the first of them was checked. -/
def Checker.checkRest (checker : Checker) (units : List (CheckUnit Progress))
    (checked : Except Failure UnitResult) (x : Running) :
    Except Failure (List UnitResult) × Running :=
  match checked with
  | .error failure => (.error failure, x)
  | .ok result =>
    let (results, x) := checker.checkAll units x
    (results.map (result :: ·), x)

theorem Checker.checkAll_cons (checker : Checker) (unit : CheckUnit Progress)
    (units : List (CheckUnit Progress)) (x : Running) :
    checker.checkAll (unit :: units) x =
      checker.checkRest units (checker.check unit x).1 (checker.check unit x).2 := by
  simp only [checkAll, checkRest]
  generalize checker.check unit x = checked
  obtain ⟨result, x⟩ := checked
  cases result <;> rfl

namespace Routine

/-- Carries out a routine. -/
def run (volumes : Volumes) : Routine → Running → Except Failure Unit × Running
  | done result, x => (result, x)
  | retune next, x => next.run volumes (x.retune volumes)
  | look next, x => (next x.2.contexts (x.2.objects.hide reportingNames)).run volumes x
  | act a next, x =>
    let (outcome, x) := x.perform volumes a
    (next outcome).run volumes x
  | inChild parent body next, x =>
    if x.2.Has parent then
      let block : Block Progress Unit := fun child x =>
        (body child).run volumes (Running.retune volumes x)
      let (result, x) :=
        block.inChild parent (x.1.hear x.2.objects (x.2.messagesOf (.spawn parent)), x.2)
      (next result).run volumes x
    else (next (.ok ())).run volumes x
  | check checker tasks engines next, x =>
    let engine (task : Task) : Engine Progress := fun root x =>
      (engines task.engine root).run volumes x
    let (results, own, s) :=
      checker.checkAll (tasks.map fun task => task.unit checker (engine task)) x
    (next results).run volumes (own.answer (.results results), s)

/-- The run of a routine, from a store in which only objects have been made. -/
def world (volumes : Volumes) (objects : Objects) (routine : Routine) :
    Except Failure Unit × Running :=
  routine.run volumes ({}, { objects := objects.tune (volumes 0) })

end Routine

/-! ## Two runs side by side -/

/-- Two runs that went the same so far, apart from what was reported. -/
structure Running.Same (x x' : Running) : Prop where
  moment : x.1.moment = x'.1.moment
  replies : x.1.replies = x'.1.replies
  notices : x.1.notices = x'.1.notices
  work : x.2.SameWork x'.2

namespace Running.Same

variable {x x' : Running} (h : x.Same x')
include h

/-- Whatever the volumes are, the same is known and done after they are set. -/
theorem retune (volumes volumes' : Volumes) :
    (Running.retune volumes x).Same (Running.retune volumes' x') where
  moment := congrArg (· + 1) h.moment
  replies := h.replies
  notices := h.notices
  work := h.work.withObjects (by simp only [Objects.hide_tune, h.work.objects])

theorem withStore {s s' : Store} (hs : s.SameWork s') : Running.Same (x.1, s) (x'.1, s') :=
  ⟨h.moment, h.replies, h.notices, hs⟩

/-- Messages are noted in the same way, however much is reported. -/
theorem hear {s s' : Store} (hs : s.SameWork s') {messages messages' : List Message}
    (hmessages : messages = messages') :
    Running.Same (x.1.hear s.objects messages, x.2) (x'.1.hear s'.objects messages', x'.2) where
  moment := h.moment
  replies := h.replies
  notices := by
    simp only [Progress.hear, h.notices, h.moment, hmessages, Objects.notice_of_hide hs.objects]
  work := h.work

theorem see (exhibits exhibits' : List Exhibit) :
    Running.Same (x.1.see exhibits, x.2) (x'.1.see exhibits', x'.2) :=
  ⟨h.moment, h.replies, h.notices, h.work⟩

theorem answer {reply reply' : Reply} (hreply : reply = reply') :
    Running.Same (x.1.answer reply, x.2) (x'.1.answer reply', x'.2) where
  moment := h.moment
  replies := by simp only [Progress.answer, h.replies, hreply]
  notices := h.notices
  work := h.work

end Running.Same

namespace Store.SameWork

variable {s s' : Store} (h : s.SameWork s')
include h

/-- There is the same to report of an operation. -/
theorem messagesOf (a : Action) : s.messagesOf a = s'.messagesOf a := by
  cases a <;> simp only [Store.messagesOf, h.context]

/-- There is the same to report at the end of a unit. -/
theorem lastWords (checker : Checker) (unit : String) (filename : Option String) {root : ContextId}
    {result : Except Failure Unit}
    (hclear : ∀ e ∈ Checker.Walk.exhibits ⟨root, result, s⟩ filename, e.Clear) :
    checker.lastWords unit filename ⟨root, result, s⟩ =
      checker.lastWords unit filename ⟨root, result, s'⟩ := by
  cases result with
  | ok u => simp only [Checker.lastWords, ← h.diagnostics _ _ hclear, h.context]
  | error failure =>
    cases failure with
    | fault fault =>
      obtain ⟨hworded, hlocated⟩ := h.faultEnd (.ofText unit) filename hclear
      simp only [Checker.lastWords, ← hworded]
      cases s.objects.diagnosticOfFault (.ofText unit) (.ofText? filename) fault with
      | error failure => rfl
      | ok diagnostic =>
        rcases hlocated with ⟨failure, ho, ho'⟩ | ⟨after, after', ho, ho', -, hreport⟩
        · simp only [ho, ho']
        · simp only [ho, ho', hreport]
    | _ => rfl

end Store.SameWork

/-- Two computations do the same side by side: from runs that are the same they give the same answer
and go on to be the same, as long as no text that is made shows the settings. -/
structure Parallel {α : Type} (F F' : Running → α × Running) : Prop where
  /-- What was put into texts before is not forgotten. -/
  grows : ∀ x, x.1.exhibits ⊆ (F x).2.1.exhibits
  same : ∀ {x x' : Running}, x.Same x' → (∀ e ∈ (F x).2.1.exhibits, e.Clear) →
    (F x).1 = (F' x').1 ∧ (F x).2.Same (F' x').2

namespace Parallel

variable {α β : Type} {F F' : Running → α × Running} {G G' : α → Running → β × Running}

theorem answer (a : α) : Parallel (fun x => (a, x)) (fun x => (a, x)) :=
  ⟨fun _ => List.Subset.refl _, fun h _ => ⟨rfl, h⟩⟩

/-- **One after the other.** What is put into texts on the way is seen at the end. -/
theorem seq (hF : Parallel F F') (hG : ∀ a, Parallel (G a) (G' a)) :
    Parallel (fun x => G (F x).1 (F x).2) (fun x => G' (F' x).1 (F' x).2) where
  grows x := List.Subset.trans (hF.grows x) ((hG (F x).1).grows (F x).2)
  same := by
    intro x x' h hclear
    obtain ⟨hanswer, hsame⟩ := hF.same h fun e he => hclear e ((hG (F x).1).grows (F x).2 he)
    rw [← hanswer]
    exact (hG (F x).1).same hsame hclear

theorem map (hF : Parallel F F') (f : α → β) :
    Parallel (fun x => (f (F x).1, (F x).2)) (fun x => (f (F' x).1, (F' x).2)) :=
  hF.seq (G := fun a x => (f a, x)) fun a => answer (f a)

/-! ## What a routine is made of -/

theorem perform (volumes volumes' : Volumes) (a : Action) :
    Parallel (Running.perform volumes a) (Running.perform volumes' a) where
  grows x := by
    unfold Running.perform
    split
    · exact List.subset_append_left _ _
    · exact List.Subset.refl _
  same := by
    intro x x' h hclear
    unfold Running.perform at hclear ⊢
    by_cases ha : x.2.Admits a
    · have ha' : x'.2.Admits a := (h.work.admits a).1 ha
      simp only [ha, ha', if_true] at hclear ⊢
      obtain ⟨houtcome, hwork⟩ := h.work.perform fun e he =>
        hclear e (List.mem_append_right _ he)
      have hnoted := (h.hear h.work (h.work.messagesOf a)).see (x.2.exhibitsOf a)
        (x'.2.exhibitsOf a)
      have hreplied := hnoted.answer (congrArg Reply.outcome houtcome)
      exact ⟨houtcome, (hreplied.withStore hwork).retune volumes volumes'⟩
    · have ha' : ¬ x'.2.Admits a := mt (h.work.admits a).2 ha
      simp only [ha, ha', if_false]
      exact ⟨trivial, h⟩

theorem start (checker : Checker) (task : Task) :
    Parallel (task.start checker) (task.start checker) where
  grows _ := List.Subset.refl _
  same := by
    intro x x' h _
    obtain ⟨hroot, hmade⟩ := (h.work.checkerReport checker checker .info .info
      (Journal.stageMessage "Type-checking" (some task.name))
      (Journal.stageMessage "Type-checking" (some task.name))).createRoot
        (some checker.settings) checker.summarizer
    exact ⟨hroot, (h.withStore hmade).hear hmade rfl⟩

theorem close (checker : Checker) (task : Task) (root : ContextId) (result : Except Failure Unit) :
    Parallel (task.close checker root result) (task.close checker root result) where
  grows _ := List.subset_append_left _ _
  same := by
    intro x x' h hclear
    have hshown : ∀ e ∈ Checker.Walk.exhibits ⟨root, result, x.2⟩ task.filename, e.Clear :=
      fun e he => hclear e (List.mem_append_right _ he)
    obtain ⟨hanswer, hwork⟩ := h.work.close checker
      (task.unit checker fun _ x => (.ok (), x)) hshown
    have hwords := h.work.lastWords checker task.name task.filename hshown
    have hnoted := (h.hear h.work hwords).see
      (Checker.Walk.exhibits ⟨root, result, x.2⟩ task.filename)
      (Checker.Walk.exhibits ⟨root, result, x'.2⟩ task.filename)
    exact ⟨hanswer, hnoted.withStore hwork⟩

/-- **A unit is checked alike** if its engine works alike. -/
theorem check (checker : Checker) (task : Task) {engine engine' : Engine Progress}
    (hengine : ∀ root, Parallel (engine root) (engine' root)) :
    Parallel (checker.check (task.unit checker engine))
      (checker.check (task.unit checker engine')) := by
  have hparts := (start checker task).seq fun root =>
    (hengine root).seq fun result => close checker task root result
  simpa only [← Task.check_unit] using hparts

theorem checkRest (checker : Checker) {units units' : List (CheckUnit Progress)}
    (hunits : Parallel (checker.checkAll units) (checker.checkAll units'))
    (checked : Except Failure UnitResult) :
    Parallel (checker.checkRest units checked) (checker.checkRest units' checked) := by
  cases checked with
  | error failure => exact answer (Except.error failure)
  | ok result => exact hunits.map fun results => results.map (result :: ·)

/-- Units are checked alike, one after the other. -/
theorem checkAll (checker : Checker) {engine engine' : Task → Engine Progress}
    (hengine : ∀ task root, Parallel (engine task root) (engine' task root)) (tasks : List Task) :
    Parallel (checker.checkAll (tasks.map fun task => task.unit checker (engine task)))
      (checker.checkAll (tasks.map fun task => task.unit checker (engine' task))) := by
  induction tasks with
  | nil => exact answer _
  | cons task tasks ih =>
    rw [List.map_cons, List.map_cons, funext (checker.checkAll_cons _ _),
      funext (checker.checkAll_cons (task.unit checker (engine' task)) _)]
    exact (check checker task (hengine task)).seq (checkRest checker ih)

theorem spawn (parent : ContextId) :
    Parallel (Running.spawn parent) (Running.spawn parent) where
  grows _ := List.Subset.refl _
  same := by
    intro x x' h _
    obtain ⟨hchild, hwork⟩ := h.work.createChild (p := parent) none none
    have hnoted := h.hear h.work (h.work.messagesOf (.spawn parent))
    exact ⟨hchild, hnoted.withStore (hwork.report _ _ _ _ _ _)⟩

theorem retune (volumes volumes' : Volumes) :
    Parallel (fun x => ((), Running.retune volumes x))
      (fun x => ((), Running.retune volumes' x)) where
  grows _ := List.Subset.refl _
  same h _ := ⟨rfl, h.retune volumes volumes'⟩

/-- What can be seen is the same in both. -/
theorem look {F F' : Array Context → Objects → Running → α × Running}
    (hF : ∀ contexts objects, Parallel (F contexts objects) (F' contexts objects)) :
    Parallel (fun x => F x.2.contexts (x.2.objects.hide reportingNames) x)
      (fun x => F' x.2.contexts (x.2.objects.hide reportingNames) x) where
  grows x := (hF _ _).grows x
  same h hclear := by
    rw [← h.work.contexts, ← h.work.objects]
    exact (hF _ _).same h hclear

/-- Which of two ways is taken is the same in both. -/
theorem ite {P : Running → Prop} [DecidablePred P] {E E' : Running → α × Running}
    (hP : ∀ {x x' : Running}, x.Same x' → (P x ↔ P x')) (hF : Parallel F F')
    (hE : Parallel E E') :
    Parallel (fun x => if P x then F x else E x) (fun x => if P x then F' x else E' x) where
  grows x := by
    by_cases h : P x
    · simpa only [h, if_true] using hF.grows x
    · simpa only [h, if_false] using hE.grows x
  same := by
    intro x x' hsame hclear
    by_cases h : P x
    · simp only [h, (hP hsame).1 h, if_true] at hclear ⊢
      exact hF.same hsame hclear
    · simp only [h, mt (hP hsame).2 h, if_false] at hclear ⊢
      exact hE.same hsame hclear

theorem reply {f : α → Reply} (hF : Parallel F F') :
    Parallel (fun x => ((F x).1, ((F x).2.1.answer (f (F x).1), (F x).2.2)))
      (fun x => ((F' x).1, ((F' x).2.1.answer (f (F' x).1), (F' x).2.2))) where
  grows := hF.grows
  same := by
    intro x x' h hclear
    obtain ⟨hanswer, hsame⟩ := hF.same h hclear
    exact ⟨hanswer, hsame.answer (congrArg f hanswer)⟩

end Parallel

/-- **A routine does the same under all volumes.** -/
theorem Routine.parallel_run (volumes volumes' : Volumes) (r : Routine) :
    Parallel (r.run volumes) (r.run volumes') := by
  induction r with
  | done result => exact .answer result
  | retune next ih => exact (Parallel.retune volumes volumes').seq fun _ => ih
  | look next ih => exact .look ih
  | act a next ih => exact (Parallel.perform volumes volumes' a).seq ih
  | inChild parent body next ihb ihn =>
    -- the body runs on the child, which is made under the old volumes
    have hcalled := (Parallel.spawn parent).seq fun child =>
      (Parallel.retune volumes volumes').seq fun _ => ihb child
    exact (hcalled.seq ihn).ite (P := fun x => x.2.Has parent)
      (fun h => by simp only [Store.Has, h.work.contexts]) (ihn (.ok ()))
  | check checker tasks engines next ihe ihn =>
    have hchecked := Parallel.checkAll checker (fun task root => ihe task.engine root) tasks
    exact (hchecked.reply (f := .results)).seq ihn

end TypingStore

import Mathlib.Data.List.Basic
import TypingStore.Objects.Forms
import TypingStore.Proofs.Joins

/-!
# Reading displayed types

The displayed form of a type tells which type it is. A class name ends where no word goes on,
arguments end at their bracket, parameters at their parenthesis, and a union ends at what is no bar.
One grouping is not told: a bar behind the result of a procedure may belong to that result, or to a
union that the procedure is a member of. So types are told apart when no procedure results in a
union.

A form is read with what stands behind it: from the form and any rest that may follow it, both the
type and the rest are found again. So forms can be read one after the other, and inside brackets.

* `Value.Tidy`, `Value.Legible`: the types whose forms can be read.
* `Value.Tells`: a form that tells a type and where it ends.
* `Value.Tells.row`: rows of such forms, with marks between them, tell all their types.
* `Value.Tidy.tells`: the forms of legible types tell them.
* `Objects.display_eq_iff_equal`: legible types are displayed alike exactly when they are equal.
-/

namespace TypingStore

namespace Value

/-! ## Types that can be read -/

/-- The characters of class names: letters and digits of the narrow alphabet, and underscores. -/
def isWordChar (c : Char) : Bool := c.isAlphanum || c == '_'

/-- Types in good order: the name of a class is a word, and none of the two words that are types of
their own; a union has several members and no union among them; and what a procedure results in is
one of `results`. -/
inductive Tidy (results : Value → Prop) : Value → Prop where
  | anyType (stamp : Stamp) : Tidy results (.anyType stamp)
  | nilType (stamp : Stamp) : Tidy results (.nilType stamp)
  | instanceType (stamp : Stamp) {name : String} {args : List Value} (hsome : name ≠ "")
      (hword : ∀ c ∈ name.toList, isWordChar c = true) (hany : name ≠ "any") (hnil : name ≠ "nil")
      (hargs : ∀ arg ∈ args, Tidy results arg) : Tidy results (.instanceType stamp name args)
  | unionType (stamp : Stamp) {members : List Value} (hseveral : 2 ≤ members.length)
      (hflat : ∀ m ∈ members, m.isUnion = false) (hmembers : ∀ m ∈ members, Tidy results m) :
      Tidy results (.unionType stamp members)
  | procType (stamp : Stamp) {params : List Value} {result : Value}
      (hparams : ∀ param ∈ params, Tidy results param) (hresult : Tidy results result)
      (hallowed : results result) : Tidy results (.procType stamp params result)

/-- Tidy types in which no procedure results in a union. -/
abbrev Legible : Value → Prop := Tidy fun result => result.isUnion = false

theorem Tidy.members_ne_nil {results : Value → Prop} {v : Value} (hv : v.Tidy results) :
    v.members ≠ [] := by
  cases hv with
  | unionType _ hseveral =>
    intro hnil
    rw [members] at hnil
    rw [hnil] at hseveral
    simp at hseveral
  | _ => simp [members]

/-- The number of members tells unions from other types. -/
theorem Tidy.isUnion_iff {results : Value → Prop} {v : Value} (hv : v.Tidy results) :
    v.isUnion = true ↔ 2 ≤ v.members.length := by
  cases hv with
  | unionType _ hseveral => exact ⟨fun _ => hseveral, fun _ => rfl⟩
  | _ => simp [isUnion, members]

theorem Tidy.of_mem_members {results : Value → Prop} {v m : Value} (hv : v.Tidy results)
    (hm : m ∈ v.members) : m.Tidy results ∧ m.isUnion = false := by
  cases hv with
  | unionType _ _ hflat hmembers => exact ⟨hmembers m hm, hflat m hm⟩
  | anyType stamp => exact List.mem_singleton.mp hm ▸ ⟨.anyType stamp, rfl⟩
  | nilType stamp => exact List.mem_singleton.mp hm ▸ ⟨.nilType stamp, rfl⟩
  | instanceType stamp hsome hword hany hnil hargs =>
    exact List.mem_singleton.mp hm ▸ ⟨.instanceType stamp hsome hword hany hnil hargs, rfl⟩
  | procType stamp hparams hresult hallowed =>
    exact List.mem_singleton.mp hm ▸ ⟨.procType stamp hparams hresult hallowed, rfl⟩

/-! ## The characters of a form -/

variable {other other' : Value → String} {lens : Lens} {results : Value → Prop}

/-- The characters of the displayed form of a type. -/
def letters (other : Value → String) (v : Value) : List Char := (v.display other).toList

/-- The characters of further forms, with a mark before each. -/
def furtherLetters (other : Value → String) (mark : List Char) (vs : List Value) : List Char :=
  vs.flatMap fun v => mark ++ v.letters other

/-- The characters of a row of forms, with a mark between each and the next. -/
def rowLetters (other : Value → String) (mark : List Char) : List Value → List Char
  | [] => []
  | v :: vs => v.letters other ++ furtherLetters other mark vs

theorem toList_intercalate_displayAll (mark : String) (vs : List Value) :
    (mark.intercalate (displayAll other vs)).toList = rowLetters other mark.toList vs := by
  rw [String.toList_intercalate, displayAll_eq_map, List.map_map]
  induction vs with
  | nil => rfl
  | cons v vs ih =>
    cases vs with
    | nil => simp [rowLetters, furtherLetters, letters]
    | cons w ws =>
      rw [List.map_cons, List.map_cons, List.intercalate_cons_cons, ← List.map_cons, ih]
      simp [rowLetters, furtherLetters, letters]

/-- The mark between the members of a union. -/
def bar : List Char := [' ', '|', ' ']

/-- The mark between the items in brackets. -/
def comma : List Char := [',', ' ']

/-- A type is displayed as the row of its members. -/
theorem letters_eq_rowLetters_members (v : Value) :
    v.letters other = rowLetters other bar v.members := by
  cases hv : v.isUnion with
  | false => simp [members_of_not_isUnion hv, rowLetters, furtherLetters]
  | true =>
    cases v with
    | unionType stamp ms =>
      rw [letters, display, toList_intercalate_displayAll]
      rfl
    | _ => cases hv

/-- The word that a form starts with. -/
def word : Value → String
  | .anyType _ => "any"
  | .nilType _ => "nil"
  | .instanceType _ name _ => name
  | _ => ""

/-- What stands behind the word in the form of a type that is no union. -/
def behindWord (other : Value → String) : Value → List Char
  | .instanceType _ _ (arg :: args) => '[' :: (rowLetters other comma (arg :: args) ++ [']'])
  | .procType _ params result =>
    '^' :: '(' :: (rowLetters other comma params ++ ')' :: [' ', '-', '>', ' '] ++
      result.letters other)
  | _ => []

theorem Tidy.letters_eq {v : Value} (hv : v.Tidy results) (hflat : v.isUnion = false) :
    v.letters other = v.word.toList ++ v.behindWord other := by
  cases hv with
  | anyType => simp [letters, display, word, behindWord]
  | nilType => simp [letters, display, word, behindWord]
  | @instanceType _ name args =>
    cases args with
    | nil => simp [letters, display, word, behindWord]
    | cons arg args =>
      rw [letters, display, String.toList_append, String.toList_append, String.toList_append,
        Text.Written.items, ← displayAll, toList_intercalate_displayAll]
      simp [word, behindWord, comma]
  | unionType => cases hflat
  | procType =>
    rw [letters, display, String.toList_append, String.toList_append, String.toList_append,
      Text.Written.items, toList_intercalate_displayAll]
    simp [word, behindWord, comma, letters]

/-- The word tells a type that is no union, apart from its parts. -/
theorem Tidy.head_eq_of_word_eq {v w : Value} (hv : v.Tidy results) (hw : w.Tidy results)
    (hflat : v.isUnion = false) (hflat' : w.isUnion = false) (hword : v.word = w.word) :
    v.head = w.head := by
  cases hv <;> cases hw <;> simp_all [word, head, isUnion]

theorem Tidy.isWordChar_of_mem_word {v : Value} (hv : v.Tidy results) :
    ∀ c ∈ v.word.toList, isWordChar c = true := by
  cases hv with
  | instanceType _ _ hword => exact hword
  | _ => simp [word, isWordChar]

/-- The form of a type starts with a word or with the sign of a procedure, so with no bracket. -/
theorem Tidy.letters_append_ne_cons {v : Value} (hv : v.Tidy results) {c : Char}
    (hword : isWordChar c = false) (hsign : c ≠ '^') (r s : List Char) :
    v.letters other ++ r ≠ c :: s := by
  -- the form of a union starts with that of its first member
  obtain ⟨m, ms, hms⟩ := List.exists_cons_of_ne_nil hv.members_ne_nil
  obtain ⟨hm, hflat⟩ := hv.of_mem_members (hms ▸ List.mem_cons_self)
  rw [letters_eq_rowLetters_members, hms, rowLetters, hm.letters_eq hflat]
  intro hsame
  cases hfirst : m.word.toList with
  | cons first rest =>
    rw [hfirst] at hsame
    have hc := hm.isWordChar_of_mem_word first (hfirst ▸ List.mem_cons_self)
    rw [(List.cons.inj hsame).1, hword] at hc
    cases hc
  | nil =>
    rw [hfirst] at hsame
    have hnone : m.word = "" := String.toList_eq_nil_iff.mp hfirst
    cases hm with
    | anyType => simp [word] at hnone
    | nilType => simp [word] at hnone
    | instanceType _ hsome => exact hsome hnone
    | unionType => cases hflat
    | procType => exact hsign (List.cons.inj hsame).1.symm

/-! ## Forms that tell a type and where it ends -/

/-- What can follow a form: nothing, or what neither goes on with a word nor starts with one of
`marks`. -/
def Follows (marks : List Char) : List Char → Prop
  | [] => True
  | c :: _ => isWordChar c = false ∧ c ∉ marks

/-- The form of `v` with a rest behind it tells that it is `v`, and which rest it is: nothing reads
the same that is the form of one of `peers` with another rest, or of another type among them. -/
def Tells (lens : Lens) (other : Value → String) (peers : Value → Prop) (marks : List Char)
    (v : Value) : Prop :=
  ∀ w r s, peers w → Follows marks r → Follows marks s →
    v.letters other ++ r = w.letters other ++ s → v.shape lens = w.shape lens ∧ r = s

/-- Words end where no word goes on. -/
theorem eq_of_words_append {xs ys r s : List Char} (hxs : ∀ c ∈ xs, isWordChar c = true)
    (hys : ∀ c ∈ ys, isWordChar c = true) (hr : Follows [] r) (hs : Follows [] s)
    (hsame : xs ++ r = ys ++ s) : xs = ys ∧ r = s := by
  induction xs generalizing ys with
  | nil =>
    cases ys with
    | nil => exact ⟨rfl, hsame⟩
    | cons y ys =>
      rw [List.nil_append, List.cons_append] at hsame
      rw [hsame, Follows, hys y List.mem_cons_self] at hr
      cases hr.1
  | cons x xs ih =>
    cases ys with
    | nil =>
      rw [List.nil_append, List.cons_append] at hsame
      rw [← hsame, Follows, hxs x List.mem_cons_self] at hs
      cases hs.1
    | cons y ys =>
      obtain ⟨rfl, htails⟩ := List.cons.inj hsame
      obtain ⟨rfl, hrest⟩ := ih (fun c hc => hxs c (List.mem_cons_of_mem _ hc))
        (fun c hc => hys c (List.mem_cons_of_mem _ hc)) htails
      exact ⟨rfl, hrest⟩

theorem Follows.mono {marks marks' r : List Char} (hr : Follows marks r)
    (hsub : ∀ c ∈ marks', c ∈ marks) : Follows marks' r := by
  cases r with
  | nil => trivial
  | cons c r => exact ⟨hr.1, fun hc => hr.2 (hsub c hc)⟩

section Row

variable {peers : Value → Prop} {marks mark : List Char} {sign : Char}

/-- Further forms can follow where their mark and the rest can. -/
theorem Follows.furtherLetters {r : List Char} (hr : Follows marks r)
    (hsign : isWordChar sign = false ∧ sign ∉ marks) (vs : List Value) :
    Follows marks (furtherLetters other (sign :: mark) vs ++ r) := by
  cases vs with
  | nil => exact hr
  | cons v vs => exact hsign

/-- Where each form tells its type, before the mark as well as before the rest, and the rest does
not start like the mark, further forms tell all their types and where they end. -/
theorem Tells.further (hsign : isWordChar sign = false ∧ sign ∉ marks) {vs ws : List Value}
    (hvs : ∀ v ∈ vs, v.Tells lens other peers marks) (hws : ∀ w ∈ ws, peers w) {r s : List Char}
    (hr : Follows (sign :: marks) r) (hs : Follows (sign :: marks) s)
    (hsame : furtherLetters other (sign :: mark) vs ++ r =
      furtherLetters other (sign :: mark) ws ++ s) :
    vs.map (shape lens) = ws.map (shape lens) ∧ r = s := by
  have hnone (t : List Char) : furtherLetters other (sign :: mark) [] ++ t = t := rfl
  have hfurther (v : Value) (vs : List Value) (t : List Char) :
      furtherLetters other (sign :: mark) (v :: vs) ++ t =
        (sign :: mark) ++ (v.letters other ++ (furtherLetters other (sign :: mark) vs ++ t)) := by
    simp [furtherLetters]
  induction vs generalizing ws with
  | nil =>
    cases ws with
    | nil => exact ⟨rfl, hsame⟩
    | cons w ws =>
      -- the rest of the first row would start with the mark
      rw [hfurther, hnone] at hsame
      rw [hsame] at hr
      exact absurd List.mem_cons_self hr.2
  | cons v vs ih =>
    cases ws with
    | nil =>
      rw [hfurther, hnone] at hsame
      rw [← hsame] at hs
      exact absurd List.mem_cons_self hs.2
    | cons w ws =>
      have hr' := hr.mono fun c hc => List.mem_cons_of_mem _ hc
      have hs' := hs.mono fun c hc => List.mem_cons_of_mem _ hc
      rw [hfurther, hfurther, List.append_cancel_left_eq] at hsame
      obtain ⟨hfirst, hrest⟩ := hvs v List.mem_cons_self w _ _ (hws w List.mem_cons_self)
        (hr'.furtherLetters hsign vs) (hs'.furtherLetters hsign ws) hsame
      obtain ⟨hshapes, hend⟩ := ih (fun x hx => hvs x (List.mem_cons_of_mem _ hx))
        (fun x hx => hws x (List.mem_cons_of_mem _ hx)) hrest
      exact ⟨by rw [List.map_cons, List.map_cons, hfirst, hshapes], hend⟩

/-- **Rows of forms.** A row tells all its types and where it ends, under the same conditions. -/
theorem Tells.row (hsign : isWordChar sign = false ∧ sign ∉ marks) {v w : Value}
    {vs ws : List Value} (hvs : ∀ x ∈ v :: vs, x.Tells lens other peers marks)
    (hws : ∀ x ∈ w :: ws, peers x) {r s : List Char} (hr : Follows (sign :: marks) r)
    (hs : Follows (sign :: marks) s)
    (hsame : rowLetters other (sign :: mark) (v :: vs) ++ r =
      rowLetters other (sign :: mark) (w :: ws) ++ s) :
    (v :: vs).map (shape lens) = (w :: ws).map (shape lens) ∧ r = s := by
  have hr' := hr.mono fun c hc => List.mem_cons_of_mem _ hc
  have hs' := hs.mono fun c hc => List.mem_cons_of_mem _ hc
  rw [rowLetters, rowLetters, List.append_assoc, List.append_assoc] at hsame
  obtain ⟨hfirst, hrest⟩ := hvs v List.mem_cons_self w _ _ (hws w List.mem_cons_self)
    (hr'.furtherLetters hsign vs) (hs'.furtherLetters hsign ws) hsame
  obtain ⟨hshapes, hend⟩ := Tells.further hsign
    (fun x hx => hvs x (List.mem_cons_of_mem _ hx)) (fun x hx => hws x (List.mem_cons_of_mem _ hx))
    hr hs hrest
  exact ⟨by rw [List.map_cons, List.map_cons, hfirst, hshapes], hend⟩

end Row

/-! ## Legible types tell themselves -/

/-- What a form may not be followed by when it is that of a whole type: a bar would go on. -/
def typeMarks : List Char := [' ', '[']

/-- Items in brackets, read up to the bracket that closes them. -/
theorem shapes_eq_of_items {vs ws : List Value}
    (hvs : ∀ v ∈ vs, v.Legible ∧ v.Tells lens other Legible typeMarks) (hws : ∀ w ∈ ws, w.Legible)
    {close : Char} (hclose : close = ']' ∨ close = ')') {r s : List Char}
    (hsame : rowLetters other comma vs ++ close :: r = rowLetters other comma ws ++ close :: s) :
    shapes lens vs = shapes lens ws ∧ r = s := by
  have hfollows (t : List Char) : Follows (',' :: typeMarks) (close :: t) := by
    rcases hclose with rfl | rfl <;> exact ⟨rfl, by decide⟩
  have hstart (v : Value) (hv : v.Legible) (t t' : List Char) :
      v.letters other ++ t ≠ close :: t' := by
    rcases hclose with rfl | rfl <;> exact hv.letters_append_ne_cons rfl (by decide) t t'
  cases vs with
  | nil =>
    cases ws with
    | nil => exact ⟨rfl, (List.cons.inj hsame).2⟩
    | cons w ws =>
      rw [rowLetters, rowLetters, List.append_assoc] at hsame
      exact absurd hsame.symm (hstart w (hws w List.mem_cons_self) _ _)
  | cons v vs =>
    cases ws with
    | nil =>
      rw [rowLetters, rowLetters, List.append_assoc] at hsame
      exact absurd hsame (hstart v (hvs v List.mem_cons_self).1 _ _)
    | cons w ws =>
      obtain ⟨hshapes, hend⟩ := Tells.row ⟨rfl, by decide⟩ (fun x hx => (hvs x hx).2) hws
        (hfollows r) (hfollows s) hsame
      rw [shapes_eq_map, shapes_eq_map]
      exact ⟨hshapes, (List.cons.inj hend).2⟩

/-- What the form of a member may not be followed by: a bracket would go on. -/
def memberMarks : List Char := ['[']

/-- The members of a type, read one after the other, are the type. -/
theorem tells_of_members {v : Value} (hv : v.Legible)
    (hmembers : ∀ m ∈ v.members,
      m.Tells lens other (fun w => w.Legible ∧ w.isUnion = false) memberMarks) :
    v.Tells lens other Legible typeMarks := by
  intro w r s hw hr hs hsame
  rw [letters_eq_rowLetters_members v, letters_eq_rowLetters_members w] at hsame
  have hpeers (m : Value) (hm : m ∈ w.members) : m.Legible ∧ m.isUnion = false :=
    hw.of_mem_members hm
  obtain ⟨first, rest, hvs⟩ := List.exists_cons_of_ne_nil hv.members_ne_nil
  obtain ⟨first', rest', hws⟩ := List.exists_cons_of_ne_nil hw.members_ne_nil
  rw [hvs] at hmembers hsame
  rw [hws] at hpeers hsame
  obtain ⟨hshapes, hend⟩ := Tells.row ⟨rfl, by decide⟩ hmembers hpeers hr hs hsame
  rw [← hvs, ← hws] at hshapes
  refine ⟨?_, hend⟩
  have hunion : v.isUnion = w.isUnion := by
    have hlength := congrArg List.length hshapes
    rw [List.length_map, List.length_map] at hlength
    rw [Bool.eq_iff_iff, hv.isUnion_iff, hw.isUnion_iff, hlength]
  cases hflat : w.isUnion with
  | false =>
    rw [members_of_not_isUnion (hunion.trans hflat), members_of_not_isUnion hflat] at hshapes
    exact (List.cons.inj hshapes).1
  | true =>
    rw [hflat] at hunion
    match v, w with
    | .unionType _ ms, .unionType _ ms' =>
      rw [shape, shape, parts, parts, shapes_eq_map, shapes_eq_map]
      exact congrArg (Shape.of .unionType) hshapes

/-- What stands behind a word is no part of it. -/
theorem follows_behindWord (v : Value) {r : List Char} (hr : Follows [] r) :
    Follows [] (v.behindWord other ++ r) := by
  unfold behindWord
  split
  · exact ⟨rfl, List.not_mem_nil⟩
  · exact ⟨rfl, List.not_mem_nil⟩
  · exact hr

/-- A type that is no union is told by the word it starts with and by what stands behind that. -/
theorem tells_of_behindWord {v : Value} (hv : v.Legible) (hflat : v.isUnion = false)
    (hbehind : ∀ (w : Value) (r s : List Char), w.Legible → v.head = w.head →
      Follows memberMarks r → Follows memberMarks s →
      v.behindWord other ++ r = w.behindWord other ++ s → v.parts lens = w.parts lens ∧ r = s) :
    v.Tells lens other (fun w => w.Legible ∧ w.isUnion = false) memberMarks := by
  intro w r s hw hr hs hsame
  rw [hv.letters_eq hflat, hw.1.letters_eq hw.2, List.append_assoc, List.append_assoc] at hsame
  have hword (t : List Char) (ht : Follows memberMarks t) : Follows [] t :=
    ht.mono fun c hc => absurd hc List.not_mem_nil
  obtain ⟨hsame, hrest⟩ := eq_of_words_append hv.isWordChar_of_mem_word
    hw.1.isWordChar_of_mem_word (follows_behindWord v (hword r hr))
    (follows_behindWord w (hword s hs)) hsame
  have hhead := hv.head_eq_of_word_eq hw.1 hflat hw.2 (String.toList_inj.mp hsame)
  obtain ⟨hparts, hend⟩ := hbehind w r s hw.1 hhead hr hs hrest
  exact ⟨by rw [shape, shape, hhead, hparts], hend⟩

/-- **The members of a legible type tell themselves.** The induction is on the type; the parts of a
member are read as whole types, and the result of a procedure as a member, since it is no union. -/
theorem Tidy.tells_members {v : Value} (hv : v.Legible) :
    ∀ m ∈ v.members, m.Tells lens other (fun w => w.Legible ∧ w.isUnion = false) memberMarks := by
  have hself {m : Value} (hflat : m.isUnion = false) : m ∈ m.members :=
    members_of_not_isUnion hflat ▸ List.mem_cons_self
  induction hv with
  | anyType stamp =>
    intro m hm
    obtain rfl := List.mem_singleton.mp hm
    refine tells_of_behindWord (.anyType stamp) rfl fun w r s hw hhead _ _ hsame => ?_
    cases hw <;> simp only [head, reduceCtorEq] at hhead
    exact ⟨rfl, hsame⟩
  | nilType stamp =>
    intro m hm
    obtain rfl := List.mem_singleton.mp hm
    refine tells_of_behindWord (.nilType stamp) rfl fun w r s hw hhead _ _ hsame => ?_
    cases hw <;> simp only [head, reduceCtorEq] at hhead
    exact ⟨rfl, hsame⟩
  | @instanceType stamp name args hsome hword hany hnil hargs ih =>
    intro m hm
    obtain rfl := List.mem_singleton.mp hm
    have hv := Tidy.instanceType stamp hsome hword hany hnil hargs
    refine tells_of_behindWord hv rfl fun w r s hw hhead hr hs hsame => ?_
    cases hw <;> simp only [head, reduceCtorEq] at hhead
    rename_i args' _ _ _ _ hargs'
    have htells (arg : Value) (harg : arg ∈ args) :
        arg.Legible ∧ arg.Tells lens other Legible typeMarks :=
      ⟨hargs arg harg, tells_of_members (hargs arg harg) (ih arg harg)⟩
    match args, args' with
    | [], [] => exact ⟨rfl, hsame⟩
    | [], arg' :: args' =>
      -- a bracket behind the name would belong to the name
      have hbracket : r = '[' :: (rowLetters other comma (arg' :: args') ++ [']']) ++ s := hsame
      rw [hbracket] at hr
      exact absurd List.mem_cons_self hr.2
    | arg :: args, [] =>
      have hbracket : '[' :: (rowLetters other comma (arg :: args) ++ [']']) ++ r = s := hsame
      rw [← hbracket] at hs
      exact absurd List.mem_cons_self hs.2
    | arg :: args, arg' :: args' =>
      rw [behindWord, behindWord, List.cons_append, List.cons_append, List.append_assoc,
        List.append_assoc] at hsame
      exact shapes_eq_of_items htells hargs' (.inl rfl) (List.cons.inj hsame).2
  | unionType stamp hseveral hflat hmembers ih =>
    intro m hm
    exact ih m hm m (hself (hflat m hm))
  | @procType stamp params result hparams hresult hallowed ihparams ihresult =>
    intro m hm
    obtain rfl := List.mem_singleton.mp hm
    have hv := Tidy.procType stamp hparams hresult hallowed
    refine tells_of_behindWord hv rfl fun w r s hw hhead hr hs hsame => ?_
    cases hw <;> simp only [head, reduceCtorEq] at hhead
    rename_i params' result' hparams' hresult' hallowed'
    have htells (param : Value) (hparam : param ∈ params) :
        param.Legible ∧ param.Tells lens other Legible typeMarks :=
      ⟨hparams param hparam, tells_of_members (hparams param hparam) (ihparams param hparam)⟩
    rw [behindWord, behindWord, List.cons_append, List.cons_append, List.cons_append,
      List.cons_append, List.append_assoc, List.append_assoc, List.append_assoc,
      List.append_assoc] at hsame
    obtain ⟨hshapes, hrest⟩ := shapes_eq_of_items htells hparams' (.inr rfl)
      (List.cons.inj (List.cons.inj hsame).2).2
    obtain ⟨hshape, hend⟩ := ihresult result (hself hallowed) result' r s ⟨hresult', hallowed'⟩
      hr hs (List.append_cancel_left hrest)
    rw [parts, parts, hshapes]
    exact ⟨by rw [shape, shape] at hshape; rw [hshape], hend⟩

/-- **The forms of legible types tell them.** -/
theorem Tidy.tells {v : Value} (hv : v.Legible) : v.Tells lens other Legible typeMarks :=
  tells_of_members hv hv.tells_members

/-! ## Equal types are displayed alike -/

/-- Lists of types that are equal one for one are displayed alike, where each type is. -/
theorem displayAll_congr {vs ws : List Value}
    (hvs : ∀ v ∈ vs, ∀ w : Value, w.Tidy results → v.shape lens = w.shape lens →
      v.display other = w.display other')
    (hws : ∀ w ∈ ws, w.Tidy results) (hsame : shapes lens vs = shapes lens ws) :
    displayAll other vs = displayAll other' ws := by
  induction vs generalizing ws with
  | nil =>
    cases ws with
    | nil => rfl
    | cons w ws => cases hsame
  | cons v vs ih =>
    cases ws with
    | nil => cases hsame
    | cons w ws =>
      obtain ⟨hfirst, hrest⟩ := shapes_cons_eq_iff.mp hsame
      rw [displayAll, displayAll, hvs v List.mem_cons_self w (hws w List.mem_cons_self) hfirst,
        ih (fun x hx => hvs x (List.mem_cons_of_mem _ hx))
          (fun x hx => hws x (List.mem_cons_of_mem _ hx)) hrest]

/-- A class is displayed with its name and the forms of its arguments. -/
theorem display_instanceType_congr {stamp stamp' : Stamp} {name : String} {args args' : List Value}
    (hargs : displayAll other args = displayAll other' args') :
    display other (.instanceType stamp name args) =
      display other' (.instanceType stamp' name args') := by
  match args, args' with
  | [], [] => rw [display, display]
  | [], arg' :: args' => cases hargs
  | arg :: args, [] => cases hargs
  | arg :: args, arg' :: args' =>
    rw [displayAll, displayAll] at hargs
    rw [display, display, hargs]

/-- Equal tidy types are displayed alike, whatever other values look like. -/
theorem Tidy.display_congr {v w : Value} (hv : v.Tidy results) (hw : w.Tidy results)
    (hsame : v.shape lens = w.shape lens) : v.display other = w.display other' := by
  induction hv generalizing w with
  | anyType =>
    obtain ⟨hhead, -⟩ := Shape.of.inj hsame
    cases hw <;> simp only [head, reduceCtorEq] at hhead
    rw [display, display]
  | nilType =>
    obtain ⟨hhead, -⟩ := Shape.of.inj hsame
    cases hw <;> simp only [head, reduceCtorEq] at hhead
    rw [display, display]
  | instanceType _ _ _ _ _ _ ih =>
    obtain ⟨hhead, hparts⟩ := Shape.of.inj hsame
    cases hw <;> simp only [head, reduceCtorEq] at hhead
    rename_i hargs'
    obtain rfl := Shape.Head.instanceType.inj hhead
    exact display_instanceType_congr (displayAll_congr (fun v hv _ => ih v hv) hargs' hparts)
  | unionType _ _ _ _ ih =>
    obtain ⟨hhead, hparts⟩ := Shape.of.inj hsame
    cases hw <;> simp only [head, reduceCtorEq] at hhead
    rename_i hmembers'
    rw [display, display, displayAll_congr (fun v hv _ => ih v hv) hmembers' hparts]
  | procType _ _ _ _ ihparams ihresult =>
    obtain ⟨hhead, hparts⟩ := Shape.of.inj hsame
    cases hw <;> simp only [head, reduceCtorEq] at hhead
    rename_i hparams' hresult' _
    rw [parts, parts, List.cons.injEq, List.cons.injEq] at hparts
    obtain ⟨hparams, hresult, -⟩ := hparts
    rw [display, display, ihresult hresult' hresult,
      displayAll_congr (fun v hv _ => ihparams v hv) hparams' (Shape.of.inj hparams).2]

/-! ## The grouping that is not told -/

/-- A procedure that results in one of two classes. -/
def procToUnion : Value :=
  .procType ⟨0⟩ [] (.unionType ⟨0⟩ [.instanceType ⟨0⟩ "A" [], .instanceType ⟨0⟩ "B" []])

/-- A procedure that results in the first class, or the second class. -/
def unionOfProc : Value :=
  .unionType ⟨0⟩ [.procType ⟨0⟩ [] (.instanceType ⟨0⟩ "A" []), .instanceType ⟨0⟩ "B" []]

theorem tidy_procToUnion_unionOfProc : procToUnion.Tidy (fun _ => True) ∧ unionOfProc.Legible := by
  have hclass {results : Value → Prop} (name : String) (hname : name = "A" ∨ name = "B") :
      (Value.instanceType ⟨0⟩ name []).Tidy results := by
    have hnone (arg : Value) (harg : arg ∈ []) : arg.Tidy results := absurd harg List.not_mem_nil
    rcases hname with rfl | rfl <;>
      exact .instanceType _ (by decide) (by simp [Value.isWordChar]) (by decide) (by decide) hnone
  constructor
  · refine .procType _ (fun _ h => absurd h List.not_mem_nil) ?_ trivial
    refine .unionType _ (by decide) (by decide) fun m hm => ?_
    rcases List.mem_pair.mp hm with rfl | rfl
    · exact hclass "A" (.inl rfl)
    · exact hclass "B" (.inr rfl)
  · refine .unionType _ (by decide) (by decide) fun m hm => ?_
    rcases List.mem_pair.mp hm with rfl | rfl
    · exact .procType _ (fun _ h => absurd h List.not_mem_nil) (hclass "A" (.inl rfl)) rfl
    · exact hclass "B" (.inr rfl)

end Value

namespace Objects

/-- **Displayed types can be read.** Legible types are displayed alike exactly when they are equal,
whenever they are displayed and compared. That no procedure results in a union is needed for this:
`^() -> A | B` is a procedure that does as well as a union with a procedure for a member, and these
are not equal. -/
theorem display_eq_iff_equal (objects objects' later : Objects) :
    (∀ t u : Value, t.Legible → u.Legible →
      (objects.display t = objects'.display u ↔ later.equal t u = true)) ∧
    ∃ t u : Value, t.Tidy (fun _ => True) ∧ u.Legible ∧ objects.display t = "^() -> A | B" ∧
      objects'.display u = "^() -> A | B" ∧ later.equal t u = false := by
  constructor
  · intro t u ht hu
    constructor
    · intro hsame
      -- the second form would have been the same at the first moment
      have hself : u.shape later.lens = u.shape later.lens := rfl
      have hthen : u.display objects'.written = u.display objects.written :=
        hu.display_congr hu hself
      have hletters : t.letters objects.written ++ [] = u.letters objects.written ++ [] := by
        rw [Value.letters, Value.letters, ← hthen]
        exact congrArg (fun form => form.toList ++ []) hsame
      exact equal_iff.mpr (ht.tells u [] [] hu trivial trivial hletters).1
    · intro hequal
      exact ht.display_congr hu (equal_iff.mp hequal)
  · obtain ⟨ht, hu⟩ := Value.tidy_procToUnion_unionOfProc
    refine ⟨Value.procToUnion, Value.unionOfProc, ht, hu, rfl, rfl, ?_⟩
    rw [equal_eq_false_iff]
    intro hsame
    cases (Shape.of.inj hsame).1

/-- Two boxes of a procedure or nothing, made one after the other, are displayed alike. -/
theorem display_boxes :
    let box (n : Nat) : Value := .instanceType ⟨n⟩ "Box"
      [.unionType ⟨n + 1⟩ [.procType ⟨n + 2⟩ [.anyType ⟨n + 3⟩] (.nilType ⟨n + 4⟩),
        .nilType ⟨n + 4⟩]]
    let objects : Objects := {}
    (box 1).Legible ∧ (box 6).Legible ∧ objects.display (box 1) = "Box[^(any) -> nil | nil]" ∧
      objects.display (box 1) = objects.display (box 6) ∧ objects.equal (box 1) (box 6) = true := by
  intro box objects
  have hbox (n : Nat) : (box n).Legible := by
    refine .instanceType _ (by decide) (by simp [Value.isWordChar]) (by decide) (by decide)
      fun arg harg => ?_
    obtain rfl := List.mem_singleton.mp harg
    refine .unionType _ (Nat.le_refl 2) (by simp [Value.isUnion]) fun m hm => ?_
    rcases List.mem_pair.mp hm with rfl | rfl
    · refine .procType _ (fun param hparam => ?_) (.nilType _) rfl
      obtain rfl := List.mem_singleton.mp hparam
      exact .anyType _
    · exact .nilType _
  have hsame : objects.display (box 1) = objects.display (box 6) := rfl
  have hequal := ((objects.display_eq_iff_equal objects objects).1 _ _ (hbox 1) (hbox 6)).mp hsame
  exact ⟨hbox 1, hbox 6, rfl, hsame, hequal⟩

end Objects

end TypingStore

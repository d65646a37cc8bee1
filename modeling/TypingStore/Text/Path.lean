/-!
# Absolute paths

The absolute form of a path, worked out on the text alone: no file system is asked, so links
are not followed.

* `Path.segments`: the texts between the slashes.
* `Path.walk`: the names left after `.` and `..` have been carried out.
* `Path.absolute`: the absolute form of a path read from a current directory.
* `Path.not_dot_of_mem_walk`: the names left are neither empty nor `.` nor `..`.
-/

namespace TypingStore.Text.Path

/-- The texts between the slashes; one more than there are slashes. -/
def segments : List Char → List (List Char)
  | [] => [[]]
  | c :: rest =>
    if c = '/' then [] :: segments rest
    else match segments rest with
      | [] => [[c]]
      | first :: more => (c :: first) :: more

/-- One step down from the root along `names`, the last name first: an empty segment and `.`
stay, `..` goes up one name and stays at the root, any other name goes down. -/
def enter (names : List (List Char)) (segment : List Char) : List (List Char) :=
  if segment = [] ∨ segment = ['.'] then names
  else if segment = ['.', '.'] then names.tail
  else segment :: names

/-- The names from the root to where the segments lead. -/
def walk (segments : List (List Char)) : List (List Char) :=
  (segments.foldl enter []).reverse

/-- What stands in front of the first name: one slash, or two where the path starts with
exactly two. -/
def lead : List Char → List Char
  | '/' :: '/' :: '/' :: _ => ['/']
  | '/' :: '/' :: _ => ['/', '/']
  | _ => ['/']

/-- The path as read from the directory `cwd`: a path that starts with a slash ignores it. -/
def readFrom (cwd path : List Char) : List Char :=
  if path.head? = some '/' then path
  else if cwd.getLast? = some '/' then cwd ++ path
  else cwd ++ '/' :: path

/-- The absolute form of `path`, read from the directory `cwd`, which is absolute itself. -/
def absolute (cwd path : String) : String :=
  let whole := readFrom cwd.toList path.toList
  String.ofList (lead whole ++ ['/'].intercalate (walk (segments whole)))

example : absolute "/usr" "lib/../bin/./a.rb" = "/usr/bin/a.rb" := by decide +kernel
example : absolute "/" "../../a//b/" = "/a/b" := by decide +kernel
example : absolute "/usr" "//a/.." = "//" := by decide +kernel
example : absolute "/usr/bin" "" = "/usr/bin" := by decide +kernel

theorem not_dot_of_mem_enter {names : List (List Char)} {segment : List Char}
    (clean : ∀ name ∈ names, name ≠ [] ∧ name ≠ ['.'] ∧ name ≠ ['.', '.']) :
    ∀ name ∈ enter names segment, name ≠ [] ∧ name ≠ ['.'] ∧ name ≠ ['.', '.'] := by
  unfold enter
  split
  · exact clean
  · split
    · exact fun name mem => clean name (List.mem_of_mem_tail mem)
    · next other up =>
      intro name mem
      rcases List.mem_cons.1 mem with rfl | mem
      · exact ⟨fun h => other (.inl h), fun h => other (.inr h), up⟩
      · exact clean name mem

/-- **The names of an absolute path are real names.** -/
theorem not_dot_of_mem_walk (segments : List (List Char)) :
    ∀ name ∈ walk segments, name ≠ [] ∧ name ≠ ['.'] ∧ name ≠ ['.', '.'] := by
  have reached : ∀ (names : List (List Char)),
      (∀ name ∈ names, name ≠ [] ∧ name ≠ ['.'] ∧ name ≠ ['.', '.']) →
      ∀ name ∈ segments.foldl enter names,
        name ≠ [] ∧ name ≠ ['.'] ∧ name ≠ ['.', '.'] := by
    induction segments with
    | nil => exact fun names clean => clean
    | cons segment rest ih => exact fun names clean => ih _ (not_dot_of_mem_enter clean)
  intro name mem
  exact reached [] (by simp) name (List.mem_reverse.1 mem)

end TypingStore.Text.Path

import TypingStore.Text.Printable

/-!
# Quoted text

The one-line written form of a text, between quotes. A backslash and the quote in use are
preceded by a backslash, line feed, carriage return and tab have letters of their own, and any
other character that is not printable is written by its code point: two, four or eight
hexadecimal digits after `x`, `u` or `U`.

* `quoteFor`: the double quote is used only for a text that holds a single quote and no double
  one.
* `escape`: the characters that stand for one character.
* `quoted`: the written form.
* `newline_not_mem_quoted`: the written form never holds a line break.
-/

namespace TypingStore.Text

/-- The hexadecimal digit of `d`, in lower case. -/
def hexDigit (d : Nat) : Char :=
  "0123456789abcdef".toList.getD d '0'

/-- The last `width` hexadecimal digits of `n`, the most significant first. -/
def hexDigits : (width n : Nat) → List Char
  | 0, _ => []
  | width + 1, n => hexDigits width (n / 16) ++ [hexDigit (n % 16)]

/-- A character written by its code point, in the shortest of the three widths that holds it. -/
def escapeCode (c : Char) : List Char :=
  if c.toNat < 0x100 then '\\' :: 'x' :: hexDigits 2 c.toNat
  else if c.toNat < 0x10000 then '\\' :: 'u' :: hexDigits 4 c.toNat
  else '\\' :: 'U' :: hexDigits 8 c.toNat

/-- The characters that stand for `c` between two `quote`s. -/
def escape (quote c : Char) : List Char :=
  if c = quote ∨ c = '\\' then ['\\', c]
  else if c = '\n' then ['\\', 'n']
  else if c = '\r' then ['\\', 'r']
  else if c = '\t' then ['\\', 't']
  else if isPrintable c then [c]
  else escapeCode c

/-- Single quotes, unless the text holds one and no double quote. -/
def quoteFor (s : List Char) : Char :=
  if '\'' ∈ s ∧ '"' ∉ s then '"' else '\''

/-- The written form of a text. -/
def quoted (s : String) : String :=
  let quote := quoteFor s.toList
  String.ofList (quote :: s.toList.flatMap (escape quote) ++ [quote])

example : quoted "it's" = "\"it's\"" := by decide +kernel
example : quoted "a\"b'c\n" = "'a\"b\\'c\\n'" := by decide +kernel
example : quoted "\x00é\u200b😀" = "'\\x00é\\u200b😀'" := by decide +kernel

theorem hexDigit_ne_newline (d : Nat) : hexDigit d ≠ '\n' := by
  unfold hexDigit
  rw [List.getD_eq_getElem?_getD]
  cases h : ("0123456789abcdef".toList)[d]? with
  | none => decide
  | some c =>
    have mem := List.mem_of_getElem? h
    intro eq
    subst eq
    exact absurd mem (by decide +kernel)

theorem newline_not_mem_hexDigits (width n : Nat) : '\n' ∉ hexDigits width n := by
  induction width generalizing n with
  | zero => simp [hexDigits]
  | succ width ih =>
    simp only [hexDigits, List.mem_append, List.mem_singleton, not_or]
    exact ⟨ih _, (hexDigit_ne_newline _).symm⟩

theorem newline_not_mem_escape {quote c : Char} (h : quote ≠ '\n') : '\n' ∉ escape quote c := by
  unfold escape escapeCode
  repeat' split
  all_goals
    simp only [List.mem_cons, List.not_mem_nil, or_false, not_or]
    grind [newline_not_mem_hexDigits]

/-- **A written form stays on one line**, whatever the text. -/
theorem newline_not_mem_quoted (s : String) : '\n' ∉ (quoted s).toList := by
  have quote_ne : quoteFor s.toList ≠ '\n' := by
    unfold quoteFor
    split <;> decide
  simp only [quoted, String.toList_ofList, List.mem_append, List.mem_cons, List.mem_flatMap,
    List.not_mem_nil, or_false, not_or, not_exists, not_and]
  exact ⟨⟨quote_ne.symm, fun c _ => newline_not_mem_escape quote_ne⟩, quote_ne.symm⟩

end TypingStore.Text

/-!
# Command lines of a shell

What a POSIX shell does with the text of `sh -c` is left to a parameter. All that
is asked of it is what every such shell does with a simple command: where the
text is the path of a program with words after it, that program is the only one
it starts. The words may be quoted and may expand variables; a byte that could
separate commands or substitute the output of one must not stand outside quotes.
-/

namespace Ikofi.Posix

/-- The bytes of a path that mean nothing to a shell: letters, digits and some marks. -/
def isPlain (b : UInt8) : Bool :=
  (97 ≤ b && b ≤ 122) || (65 ≤ b && b ≤ 90) || (48 ≤ b && b ≤ 57)
    || b == 47 || b == 46 || b == 95 || b == 45 || b == 126 || b == 61 || b == 43 || b == 64
    || b == 37 || b == 44 || b == 58

/-- An absolute path that a shell takes as one word. -/
def isPath (path : List UInt8) : Bool := path.head? == some 47 && path.all isPlain

theorem isPath_append {path tail : List UInt8} (h : isPath path = true)
    (plain : tail.all isPlain = true) : isPath (path ++ tail) = true := by
  unfold isPath at *
  rw [Bool.and_eq_true] at h ⊢
  rw [List.all_append, Bool.and_eq_true]
  refine ⟨?_, h.2, plain⟩
  cases path with
  | nil => exact absurd h.1 (by decide)
  | cons b path => exact h.1

/-- Where a shell is in a text that it reads byte by byte. -/
inductive Reading
  | plain
  | escape
  | dollar
  | single
  | double
  | doubleEscape
  | doubleDollar
  deriving DecidableEq, Repr

def isName (b : UInt8) : Bool :=
  (97 ≤ b && b ≤ 122) || (65 ≤ b && b ≤ 90) || (48 ≤ b && b ≤ 57) || b == 95

/-- Newline, `;`, `&`, `|`, the parentheses and the backquote. -/
def isOperator (b : UInt8) : Bool :=
  b == 10 || b == 59 || b == 38 || b == 124 || b == 40 || b == 41 || b == 96

/-- One byte of a simple command line: `none` at an operator outside quotes, at a
backquote or a dollar sign without a name outside single quotes, and at a newline. -/
def read : Reading → UInt8 → Option Reading
  | .plain, b =>
    if b = 39 then some .single
    else if b = 34 then some .double
    else if b = 92 then some .escape
    else if b = 36 then some .dollar
    else if isOperator b then none else some .plain
  | .escape, b => if b = 10 then none else some .plain
  | .dollar, b => if isName b then some .plain else none
  | .single, b => if b = 39 then some .plain else if b = 10 then none else some .single
  | .double, b =>
    if b = 34 then some .plain
    else if b = 92 then some .doubleEscape
    else if b = 36 then some .doubleDollar
    else if b = 10 ∨ b = 96 then none else some .double
  | .doubleEscape, b => if b = 10 then none else some .double
  | .doubleDollar, b => if isName b then some .double else none

/-- The text is words of one command. -/
def isSimple (text : List UInt8) : Bool := (text.foldlM read .plain).isSome

theorem isSimple_blank {text : List UInt8} : isSimple (32 :: text) = isSimple text := by
  rw [isSimple, List.foldlM_cons]
  rfl

/-- A shell, with what it does with a simple command. -/
structure Shell where
  /-- The programs that `sh -c text` starts, as they are named. -/
  runs : List UInt8 → List (List UInt8)
  simple : ∀ prog rest, isPath prog = true → (rest = [] ∨ rest.head? = some 32) →
    isSimple rest = true → ∀ p ∈ runs (prog ++ rest), p = prog

/-- A shell that knows simple commands only: it starts the program named by the first
word. -/
def firstWord : Shell where
  runs text := [text.takeWhile (· != 32)]
  simple := by
    intro prog rest path blank _ p hp
    have word : ∀ b ∈ prog, (b != 32) = true := by
      intro b hb
      unfold isPath at path
      rw [Bool.and_eq_true, List.all_eq_true] at path
      have plain := path.2 b hb
      apply bne_iff_ne.mpr
      intro space
      subst space
      exact absurd plain (by decide)
    have stop : rest.takeWhile (· != 32) = [] := by
      rcases blank with rfl | blank
      · rfl
      · cases rest with
        | nil => rfl
        | cons b rest =>
          simp at blank
          subst blank
          rfl
    rw [List.mem_singleton] at hp
    rw [hp, List.takeWhile_append_of_pos word, stop, List.append_nil]

end Ikofi.Posix

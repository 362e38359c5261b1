/-! A cut divides a text in what a token takes and what is left. The proof that nothing is lost is part
of the value, so every scanner built from cuts tiles its input. -/
namespace KotlinSyntax

structure Cut (cs : List Char) where
  taken : List Char
  rest : List Char
  whole : taken ++ rest = cs

namespace Cut

/-- Takes nothing. -/
def nothing (cs : List Char) : Cut cs := ⟨[], cs, rfl⟩

/-- Takes the first `n` characters. -/
def first (n : Nat) (cs : List Char) : Cut cs := ⟨cs.take n, cs.drop n, List.take_append_drop n cs⟩

/-- Takes the longest run of characters with the property. -/
def span (p : Char → Bool) (cs : List Char) : Cut cs :=
  ⟨cs.takeWhile p, cs.dropWhile p, List.takeWhile_append_dropWhile⟩

/-- Takes one more character in front. -/
def cons {cs : List Char} (c : Char) (k : Cut cs) : Cut (c :: cs) :=
  ⟨c :: k.taken, k.rest, by rw [List.cons_append, k.whole]⟩

/-- Takes what the second cut takes as well. -/
def append {cs : List Char} (k : Cut cs) (l : Cut k.rest) : Cut cs :=
  ⟨k.taken ++ l.taken, l.rest, by rw [List.append_assoc, l.whole, k.whole]⟩

theorem rest_length_le {cs : List Char} (k : Cut cs) : k.rest.length ≤ cs.length := by
  have h := congrArg List.length k.whole
  rw [List.length_append] at h
  omega

end Cut

end KotlinSyntax

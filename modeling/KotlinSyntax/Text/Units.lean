/-! Offsets count UTF-16 units. A character of the basic plane takes one unit, any other takes two,
the halves of a pair. The width of a text is the sum over its characters. -/
namespace KotlinSyntax.Text

/-- Whether the character is a single unit. -/
def isSingle (c : Char) : Bool := c.toNat < 0x10000

def unitsOf (c : Char) : Nat := if isSingle c then 1 else 2

def width : List Char → Nat
  | [] => 0
  | c :: cs => unitsOf c + width cs

@[simp] theorem width_nil : width [] = 0 := rfl

@[simp] theorem width_cons (c : Char) (cs : List Char) : width (c :: cs) = unitsOf c + width cs := rfl

@[simp] theorem width_append (as bs : List Char) : width (as ++ bs) = width as + width bs := by
  induction as with
  | nil => simp
  | cons c cs ih => simp [ih, Nat.add_assoc]

theorem unitsOf_pos (c : Char) : 0 < unitsOf c := by
  unfold unitsOf
  split <;> decide

/-- Half of a pair is no character of its own and is shown by the replacement character. -/
def half : Char := '\uFFFD'

/-- What a single unit at the edge of a character shows: the character, or half of a pair. -/
def edge (c : Char) : Char := if isSingle c then c else half

/-- The last unit of a text. -/
def lastUnit? (s : String) : Option String := s.toList.getLast?.map fun c => String.singleton (edge c)

/-- The first unit of a text. -/
def firstUnit? (s : String) : Option String := s.toList.head?.map fun c => String.singleton (edge c)

end KotlinSyntax.Text

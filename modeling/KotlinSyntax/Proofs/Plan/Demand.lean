import KotlinSyntax.Proofs.Conversion.Reading

/-! Which demands the nodes meet whose parts follow a plan. The grammar sees to most of them. The others it overlooks:
a source without any fault may break them, and then it is the conversion that refuses it. -/
namespace KotlinSyntax

/-- What is said of the demands that the grammar overlooks. -/
def Kind.overlooked : Kind → List String
  | propertyDeclaration => [
    "at least one variable required", "at most one getter allowed", "at most one setter allowed"]
  | lambdaParam => ["at least one variable required"]
  | importDirective => ["a wildcard import cannot be aliased"]
  | whenBranch => ["a branch without conditions must be an else branch"]
  | templateStringEntry => ["a short template can only wrap a name or this"]
  | _ => []

/-- Why parts along a plan may still not become nodes. -/
inductive ConversionError.Foreseen : ConversionError → Prop
  | unsupported (construct : String) (offset : Nat) : Foreseen (.unsupported construct offset)
  /-- The word of a short template is the one part that may stand where a value should. -/
  | word (found : String) : Foreseen (.unexpected "an expression" found)
  | broken {k : Kind} {message : String} (overlooked : message ∈ k.overlooked) :
      Foreseen (.node (.invariant k.name message))

/-- A node of the kind with these parts meets each demand that the grammar does not overlook. -/
def Kind.Owed (k : Kind) (scalars : List (Field × Scalar)) (children : List (Field × Node)) : Prop :=
  ∀ id, ∀ d ∈ k.demands, d.message ∈ k.overlooked ∨ d.meets (.mk id (.kind k) scalars children) = true

namespace Kind.Owed

variable {k : Kind} {scalars : List (Field × Scalar)} {children : List (Field × Node)}

/-- A kind without demands. -/
theorem free (none : k.demands = []) : k.Owed scalars children := by
  intro id d member
  rw [none] at member
  cases member

theorem foreseen (owed : k.Owed scalars children) {id : Nat} {d : Demand}
    (broken : (Node.mk id (.kind k) scalars children).broken? = some d) :
    ConversionError.Foreseen (.node (.invariant (Node.mk id (.kind k) scalars children).name d.message)) := by
  have found : k.demands.find? (fun d => !d.meets (.mk id (.kind k) scalars children)) = some d := broken
  have breaks : d.meets (.mk id (.kind k) scalars children) = false := by simpa using List.find?_some found
  rcases owed id d (List.mem_of_find?_eq_some found) with overlooked | meets
  · exact .broken overlooked
  · rw [breaks] at meets
    cases meets

end Kind.Owed

/-! The children in a field. -/

namespace Node

open Conversion

variable (f g : Field) (n : Node) (m : Option Node) (ns : List Node)

@[simp] theorem all_mk (id : Nat) (tag : Tag) (scalars : List (Field × Scalar)) (children : List (Field × Node)) :
    (Node.mk id tag scalars children).all f = under f children := rfl

@[simp] theorem under_one : under f (one g n) = if g = f then [n] else [] := by
  by_cases same : g = f <;> simp [under, one, same]

@[simp] theorem under_opt : under f (opt g m) = if g = f then m.toList else [] := by
  cases m with
  | none => simp [under, opt]
  | some n => exact under_one f g n

@[simp] theorem under_many : under f (many g ns) = if g = f then ns else [] := by
  by_cases same : g = f <;> simp [under, many, same, List.filter_map, Function.comp_def]

end Node

end KotlinSyntax

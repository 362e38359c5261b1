import KotlinSyntax.Conversion
import KotlinSyntax.Proofs.Raw

/-! Plans: which parts a raw node has, in which order. A plan is a regular expression over its parts. The rules of
the grammar build nodes along the plan of their kind, and the rules that turn raw nodes into nodes read along the
same plan, so that neither side needs to know the other. -/
namespace KotlinSyntax

def Token.reserved : List String := Lexer.operators ++ Lexer.hardKeywords ++ ["\x7b", "\x7d", "!in", "!is", ""]

namespace Token

def isName (t : Token) : Bool := t.kind == .identifier && !reserved.contains t.text

def valueWords : List String := ["true", "false", "null"]

def isValue (t : Token) : Bool :=
  ([.identifier, .integerLiteral, .floatLiteral, .charLiteral].contains t.kind && !reserved.contains t.text) ||
    (t.kind == .keyword && valueWords.contains t.text)

end Token

/-- What one part may be: a token of one of the spellings or kinds, a name, a value, or a node of one of the kinds. -/
structure Cell where
  texts : List String := []
  kinds : List TokenKind := []
  name : Bool := false
  value : Bool := false
  nodes : List RawKind := []
  deriving DecidableEq

inductive Sight
  | text (s : String)
  | kind (k : TokenKind)
  | node (k : RawKind)

def Sight.meets : Sight → RawElement → Bool
  | text s, .leaf l => l.token.text == s
  | kind k, .leaf l => l.token.kind == k
  | node k, .node k' _ _ => k' == k
  | _, _ => false

namespace Cell

def takes (c : Cell) : RawElement → Bool
  | .leaf l => c.texts.contains l.token.text || c.kinds.contains l.token.kind || (c.name && l.token.isName) ||
    (c.value && l.token.isValue)
  | .node k _ _ => c.nodes.contains k

def mayMeet (c : Cell) : Sight → Bool
  | .text s => c.texts.contains s || !c.kinds.isEmpty || ((c.name || c.value) && !Token.reserved.contains s) ||
    (c.value && Token.valueWords.contains s)
  | .kind k => !c.texts.isEmpty || c.kinds.contains k || (c.name && k == .identifier) ||
    (c.value && [TokenKind.identifier, .integerLiteral, .floatLiteral, .charLiteral, .keyword].contains k)
  | .node k => c.nodes.contains k

theorem mayMeet_of_takes {c : Cell} {e : RawElement} {s : Sight} (takes : c.takes e = true) (meets : s.meets e = true) :
    c.mayMeet s = true := by
  cases e with
  | node k role children =>
    cases s with
    | node k' =>
      obtain rfl : k = k' := by simpa [Sight.meets] using meets
      exact takes
    | text s => cases meets
    | kind k' => cases meets
  | leaf l =>
    simp only [Cell.takes, Bool.or_eq_true, Bool.and_eq_true] at takes
    cases s with
    | node k => cases meets
    | text s =>
      obtain rfl : l.token.text = s := by simpa [Sight.meets] using meets
      simp only [mayMeet, Bool.or_eq_true, Bool.and_eq_true]
      rcases takes with ((spelled | kind) | ⟨name, is⟩) | ⟨value, is⟩
      · exact .inl (.inl (.inl spelled))
      · refine .inl (.inl (.inr ?_))
        cases kinds : c.kinds with
        | nil => simp [kinds] at kind
        | cons k ks => rfl
      · simp only [Token.isName, Bool.and_eq_true] at is
        exact .inl (.inr ⟨.inl name, is.2⟩)
      · simp only [Token.isValue, Bool.or_eq_true, Bool.and_eq_true] at is
        rcases is with is | is
        · exact .inl (.inr ⟨.inr value, is.2⟩)
        · exact .inr ⟨value, is.2⟩
    | kind k =>
      obtain rfl : l.token.kind = k := by simpa [Sight.meets] using meets
      simp only [mayMeet, Bool.or_eq_true, Bool.and_eq_true]
      rcases takes with ((spelled | kind) | ⟨name, is⟩) | ⟨value, is⟩
      · refine .inl (.inl (.inl ?_))
        cases texts : c.texts with
        | nil => simp [texts] at spelled
        | cons t ts => rfl
      · exact .inl (.inl (.inr kind))
      · simp only [Token.isName, Bool.and_eq_true] at is
        exact .inl (.inr ⟨name, is.1⟩)
      · simp only [Token.isValue, Bool.or_eq_true, Bool.and_eq_true] at is
        refine .inr ⟨value, ?_⟩
        rcases is with ⟨kind, _⟩ | ⟨kind, _⟩
        · simp only [List.contains_eq_mem, List.mem_cons, List.not_mem_nil, or_false, decide_eq_true_eq] at kind ⊢
          rcases kind with kind | kind | kind | kind <;> simp [kind]
        · simp [beq_iff_eq.mp kind]

end Cell

/-- A part, a choice between two runs of parts, or one run over and over. -/
inductive Plan.Term
  | cell (c : Cell)
  | either (a b : List Plan.Term)
  | many (a : List Plan.Term)

/-- The parts of a node, one term behind the other. -/
abbrev Plan := List Plan.Term

inductive Matches : Plan → List RawElement → Prop
  | nil : Matches [] []
  | cell {c : Cell} {p : Plan} {e : RawElement} {es : List RawElement} (takes : c.takes e = true)
      (rest : Matches p es) : Matches (.cell c :: p) (e :: es)
  | left {a b p : Plan} {es : List RawElement} (chosen : Matches (a ++ p) es) : Matches (.either a b :: p) es
  | right {a b p : Plan} {es : List RawElement} (chosen : Matches (b ++ p) es) : Matches (.either a b :: p) es
  | stop {a p : Plan} {es : List RawElement} (rest : Matches p es) : Matches (.many a :: p) es
  | more {a p : Plan} {es : List RawElement} (again : Matches (a ++ .many a :: p) es) : Matches (.many a :: p) es

namespace Plan

mutual

def Term.nullable : Term → Bool
  | .cell _ => false
  | .either a b => nullable a || nullable b
  | .many _ => true

def nullable : Plan → Bool
  | [] => true
  | t :: p => t.nullable && nullable p

end

mutual

def Term.mayBegin (s : Sight) : Term → Bool
  | .cell c => c.mayMeet s
  | .either a b => mayBegin s a || mayBegin s b
  | .many a => mayBegin s a

def mayBegin (s : Sight) : Plan → Bool
  | [] => false
  | t :: p => t.mayBegin s || (t.nullable && mayBegin s p)

end

mutual

def Term.mayHold (s : Sight) : Term → Bool
  | .cell c => c.mayMeet s
  | .either a b => mayHold s a || mayHold s b
  | .many a => mayHold s a

def mayHold (s : Sight) : Plan → Bool
  | [] => false
  | t :: p => t.mayHold s || mayHold s p

end

theorem mayBegin_append (s : Sight) (p q : Plan) :
    mayBegin s (p ++ q) = (mayBegin s p || (nullable p && mayBegin s q)) := by
  induction p with
  | nil => simp [mayBegin, nullable]
  | cons t p ih =>
    rw [List.cons_append, mayBegin, mayBegin, nullable, ih]
    cases t.mayBegin s <;> cases t.nullable <;> simp

theorem mayHold_append (s : Sight) (p q : Plan) : mayHold s (p ++ q) = (mayHold s p || mayHold s q) := by
  induction p with
  | nil => rfl
  | cons t p ih => rw [List.cons_append, mayHold, mayHold, ih, Bool.or_assoc]

abbrev opt (a : Plan) : Plan.Term := .either a []

end Plan

open Plan

namespace Matches

variable {p q : Plan} {es fs : List RawElement} {e : RawElement} {s : Sight}

theorem mayBegin (h : Matches p (e :: es)) (meets : s.meets e = true) : mayBegin s p = true := by
  generalize all : e :: es = parts at h
  induction h with
  | nil => cases all
  | cell takes rest ih =>
    cases all
    simp [Plan.mayBegin, Term.mayBegin, Cell.mayMeet_of_takes takes meets]
  | left chosen ih | right chosen ih =>
    have begins := ih all
    rw [mayBegin_append] at begins
    simp only [Plan.mayBegin, Term.mayBegin, Term.nullable, Bool.or_eq_true, Bool.and_eq_true] at begins ⊢
    rcases begins with here | ⟨none, behind⟩
    · simp [here]
    · simp [none, behind]
  | stop rest ih => simp [Plan.mayBegin, Term.nullable, ih all]
  | more again ih =>
    have begins := ih all
    rw [mayBegin_append] at begins
    simp only [Plan.mayBegin, Term.mayBegin, Term.nullable, Bool.or_eq_true, Bool.and_eq_true, true_and] at begins ⊢
    rcases begins with here | ⟨_, behind⟩
    · exact .inl here
    · exact behind

theorem mayHold (h : Matches p es) (member : e ∈ es) (meets : s.meets e = true) : mayHold s p = true := by
  induction h with
  | nil => cases member
  | cell takes rest ih =>
    simp only [Plan.mayHold, Term.mayHold, Bool.or_eq_true]
    rcases List.mem_cons.mp member with rfl | member
    · exact .inl (Cell.mayMeet_of_takes takes meets)
    · exact .inr (ih member)
  | left chosen ih | right chosen ih =>
    have holds := ih member
    rw [mayHold_append, Bool.or_eq_true] at holds
    simp only [Plan.mayHold, Term.mayHold, Bool.or_eq_true]
    rcases holds with here | behind
    · simp [here]
    · simp [behind]
  | stop rest ih => simp [Plan.mayHold, ih member]
  | more again ih =>
    have holds := ih member
    simp only [mayHold_append, Plan.mayHold, Term.mayHold, Bool.or_eq_true] at holds ⊢
    rcases holds with here | behind
    · exact .inl here
    · exact behind

theorem append (h : Matches p es) (k : Matches q fs) : Matches (p ++ q) (es ++ fs) := by
  induction h with
  | nil => exact k
  | cell takes rest ih => exact .cell takes ih
  | left chosen ih => exact .left (List.append_assoc .. ▸ ih)
  | right chosen ih => exact .right (List.append_assoc .. ▸ ih)
  | stop rest ih => exact .stop ih
  | more again ih =>
    rw [List.append_assoc] at ih
    exact .more ih

end Matches

end KotlinSyntax

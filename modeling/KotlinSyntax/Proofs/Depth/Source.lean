import KotlinSyntax.Proofs.Depth.Recursion

/-! The grammar always comes to an end. What its rules call passes a token wherever it succeeds, what they repeat
passes a token in each turn, and nothing is called without end in front of the same token. -/
namespace KotlinSyntax.Grammar

open Builder

variable {α : Type} {recur : Recur} {limit : Nat} {scope : Scope} {b : Builder}

/-- What stands between commas. -/
def listItems (recur : Recur) : List (Grammar Parsed) :=
  [typeArgument recur, typeParameter recur, functionTypeParameter recur, contextReceiver recur, valueArgument recur,
    valueParameter recur, lambdaParameter recur, lambdaParameterVariable recur, destructuringEntry recur,
    contractEffect recur, whenCondition recur, recur .expression]

/-- The rules that repeat operators, each with the rule for the first operand. -/
def operatorChains (recur : Recur) : List (Grammar Parsed × Grammar Parsed) :=
  [(memberName, memberSelector recur), (primary recur, postfixChain recur), (recur .unary, castLevel recur),
    (castLevel recur, multiplicative recur), (multiplicative recur, additive recur), (additive recur, range recur),
    (range recur, namedLevel recur), (namedLevel recur, elvis recur), (elvis recur, testLevel recur),
    (testLevel recur, comparison recur), (comparison recur, equality recur), (equality recur, conjunction recur),
    (conjunction recur, disjunction recur)]

/-- What succeeds passes a token. Among statements a declaration may turn out to be none: then nothing is taken. -/
structure Proceeds (recur : Recur) (scope : Scope) (b : Builder) : Prop where
  declaration (place : DeclarationPlace) :
    Ensures scope (declaration recur place) b (Maybe (fun _ => Passes b) (· = b))
  statement : Advances scope (statement recur) b
  expression : Advances scope (expression recur) b
  typeReference (receiver : Bool) : Advances scope (typeReference recur receiver) b
  typeBody (receiver : Bool) : Advances scope (typeBody recur receiver) b
  userType (receiver : Bool) : Advances scope (userType recur receiver) b
  annotationSet (seen : b.sees "@" = true) : Advances scope (annotationSet recur) b
  enumEntry : Advances scope (enumEntry recur) b
  whenEntry : Advances scope (whenEntry recur) b
  listItem : ∀ item ∈ listItems recur, Advances scope item b

/-- What is repeated passes a token in each turn but the last one, whatever was gathered before. -/
structure Repeats (recur : Recur) (scope : Scope) (b : Builder) : Prop where
  fileAnnotations (m : Marker) (goesOn : atFileAnnotations b = true) :
    Advances scope (recovering m (apply .annotationSet)) b
  imports (m : Marker) (goesOn : b.sees "import" = true) : Advances scope (do return m.add (← importDirective)) b
  declarations (m : Marker) (goesOn : b.atEnd = false) :
    Advances scope (recovering m (declarationOnly recur .file "a declaration")) b
  members (m : Marker) (goesOn : b.atEnd = false) :
    Advances scope (recovering m (declarationOnly recur .member "a member declaration")) b
  statements (state : Marker × Bool) (goesOn : b.atEnd = false) : Advances scope (statementTurn recur state) b
  whenEntries (m : Marker) (goesOn : b.atEnd = false) : Advances scope (recovering m (whenEntry recur)) b
  enumEntries : ∃ step, (∀ m, enumEntriesInto recur m = iterate step m) ∧ ∀ m, Continues scope (step m) b
  listItems (m : Marker) (close : String) : ∀ item ∈ listItems recur, Continues scope (commaTurn close item m) b
  annotations (m : Marker) : Advances scope (do return m.add (← annotationEntry recur)) b
  modifiers (place : ModifierPlace) (m : Marker) : Continues scope (modifierTurn recur place m) b
  stringParts (m : Marker) : Advances scope (stringPart recur m) b
  skipped (state : Marker × Nat) : Continues scope (skipTurn state) b
  operators : ∀ chain ∈ operatorChains recur, Chains scope b chain.1 chain.2

section

variable (serves : Serves recur limit) (placed : b.Placed) (free : 4 * b.remaining + 4 ≤ limit)

include serves placed free

theorem listItem_advances : ∀ item ∈ listItems recur, Advances scope item b := by
  simp only [listItems, List.forall_mem_cons, List.not_mem_nil, false_imp_iff, implies_true, and_true]
  exact ⟨advances_of_gives (typeArgument_gives serves placed free),
    advances_of_gives (typeParameter_gives serves placed free),
    advances_of_gives (functionTypeParameter_gives serves placed free),
    advances_of_gives (contextReceiver_gives serves placed free),
    advances_of_gives (valueArgument_gives serves placed free),
    advances_of_gives (valueParameter_gives serves placed free),
    advances_of_gives (lambdaParameter_gives serves placed free),
    advances_of_gives (lambdaParameterVariable_gives serves placed free),
    advances_of_gives (destructuringEntry_gives serves placed free),
    advances_of_gives (contractEffect_gives serves placed free),
    advances_of_gives (whenCondition_gives serves placed free),
    advances_of_gives (serves.expression placed (by omega))⟩

theorem operatorChain_chains : ∀ chain ∈ operatorChains recur, Chains scope b chain.1 chain.2 := by
  simp only [operatorChains, List.forall_mem_cons, List.not_mem_nil, false_imp_iff, implies_true, and_true]
  exact ⟨memberSelector_chains serves placed free, postfixChain_chains serves placed free,
    castLevel_chains serves placed free,
    binaryLevel_chains placed fun _ placed le => castLevel_gives serves placed (by omega),
    binaryLevel_chains placed fun _ placed le => multiplicative_gives serves placed (by omega),
    binaryLevel_chains placed fun _ placed le => additive_gives serves placed (by omega),
    namedLevel_chains serves placed free,
    binaryLevel_chains placed fun _ placed le => namedLevel_gives serves placed (by omega),
    testLevel_chains serves placed free,
    binaryLevel_chains placed fun _ placed le => testLevel_gives serves placed (by omega),
    binaryLevel_chains placed fun _ placed le => comparison_gives serves placed (by omega),
    binaryLevel_chains placed fun _ placed le => equality_gives serves placed (by omega),
    binaryLevel_chains placed fun _ placed le => conjunction_gives serves placed (by omega)⟩

theorem grammar_proceeds : Proceeds recur scope b where
  declaration place := by
    refine (declaration_perhaps serves placed (by omega)).mono ?_
    rintro (_ | p) b' given
    · exact given
    · exact Gives.passes given
  statement := advances_of_gives (statement_gives serves placed (by omega))
  expression := advances_of_gives (expression_gives serves placed (by omega))
  typeReference receiver := advances_of_gives (typeReference_gives serves placed (by omega) receiver)
  typeBody receiver := advances_of_gives (typeBody_gives serves placed (by omega) (fun _ _ => free) receiver)
  userType receiver := advances_of_gives (userType_gives serves placed (by omega) receiver)
  annotationSet seen := advances_of_gives (annotationSet_gives serves placed (by omega) seen)
  enumEntry := advances_of_gives (enumEntry_gives serves placed free)
  whenEntry := advances_of_gives (whenEntry_gives serves placed free)
  listItem := listItem_advances serves placed free

theorem grammar_repeats : Repeats recur scope b where
  fileAnnotations m goesOn := by
    have seen : b.sees "@" = true := by
      simp only [atFileAnnotations, Bool.and_eq_true] at goesOn
      exact goesOn.1.1.1
    have enough := depthFor_enough b
    refine recovering_advances placed (not_atEnd_of_sees seen) (.look ?_)
    exact advances_of_gives ((rule_serves _).annotationSet placed seen (by omega))
  imports m goesOn := add_advances (advances_of_gives
    (importDirective_gives placed (ahead_of_sees goesOn (by decide))))
  declarations m goesOn := recovering_advances placed goesOn
    (advances_of_gives (declarationOnly_gives serves placed (by omega)))
  members m goesOn := recovering_advances placed goesOn
    (advances_of_gives (declarationOnly_gives serves placed (by omega)))
  statements state goesOn := statementTurn_advances serves placed goesOn free state
  whenEntries m goesOn := recovering_advances placed goesOn (advances_of_gives (whenEntry_gives serves placed free))
  enumEntries := ⟨_, fun _ => rfl, fun _ => entryTurn_continues serves placed free⟩
  listItems m close item member := commaTurn_continues (listItem_advances serves placed free item member)
  annotations m := add_advances (advances_of_gives (annotationEntry_gives serves placed (by omega)))
  modifiers place m := modifierTurn_continues serves placed (by omega) place
  stringParts m := stringPart_advances serves placed (by omega)
  skipped state := skipTurn_continues placed state
  operators := operatorChain_chains serves placed free

end

/-- A rule over the tokens of a source gives something or rejects them. -/
theorem Ends.run {tokens : List Token} {g : Grammar α} {Q : α → Builder → Prop}
    (h : Ensures {} g (.ofTokens tokens) Q) :
    (∃ a s, run g tokens = .ok a s) ∨ ∃ fault s, run g tokens = .error (.rejected fault) s := by
  unfold Ensures Ends at h
  unfold Grammar.run
  rcases answer : g {} (Builder.ofTokens tokens) with ⟨faults, log, result⟩
  rw [answer] at h
  cases result with
  | ok value => exact .inl ⟨value.1, _, rfl⟩
  | error e =>
    cases e with
    | rejected fault => exact .inr ⟨fault, _, rfl⟩
    | builder e => exact h.elim
    | exhausted => exact h.elim

/-- Whatever the tokens of a source are, the grammar comes to an end. A whole source gives a tree with its faults,
and a rule alone gives something or rejects the tokens. Wherever the builder stands, each call that succeeds and
each turn that is repeated passes a token. The recursion is well founded: a rule is what it stands for with calls
of less weight only, and every bound on the depth that exceeds the weight gives the same. -/
theorem grammar_terminates (source : String) (tokens : List Token) (h : Lexer.tokenize source = .ok tokens) :
    (∀ form, ∃ root s, run (Grammar.source form) tokens = .ok root s) ∧
    (∀ r : Rule, r.Applies (.ofTokens tokens) → (∃ p s, run (apply r) tokens = .ok p s) ∨
      ∃ fault s, run (apply r) tokens = .error (.rejected fault) s) ∧
    ∀ (scope : Scope) (b : Builder), b.Over tokens →
      (∀ depth, 4 * b.remaining + 4 ≤ depth → Proceeds (rule depth) scope b ∧ Repeats (rule depth) scope b) ∧
      ∀ r : Rule, r.Applies b →
        Advances scope (Recur.whole r) b ∧
        Recur.whole r scope b = body (Recur.whole.below (r.weight b)) r scope b ∧
        ∀ depth, r.weight b < depth → rule depth r scope b = Recur.whole r scope b := by
  refine ⟨?_, ?_, ?_⟩
  · intro form
    obtain ⟨root, s, ran, _⟩ := run_source form h
    exact ⟨root, s, ran⟩
  · intro r applies
    have placed := ofTokens_placed (Lexer.tokenize_proper h) (Lexer.tokenize_named h)
    have enough := depthFor_enough (.ofTokens tokens)
    have low := r.rank_lt
    exact Ends.run (.look (rule_serves _ r {} _ placed applies (by omega)))
  · intro scope b sited
    refine ⟨?_, ?_⟩
    · intro depth free
      exact ⟨grammar_proceeds (rule_serves depth) sited.placed free,
        grammar_repeats (rule_serves depth) sited.placed free⟩
    · intro r applies
      refine ⟨?_, whole_eq sited.placed applies, fun depth enough => rule_eq_whole sited.placed applies enough⟩
      exact advances_of_gives (whole_serves _ r scope b sited.placed applies (Nat.lt_succ_self _))

/-- Recovery takes a token even where the token that fits no declaration is itself a boundary. -/
theorem grammar_terminates_at_brace :
    (∃ root s, run (Grammar.source .file) [⟨.operator, 0, 1, closeBrace⟩] = .ok root s) ∧
    Repeats (rule 8) {} (.ofTokens [⟨.operator, 0, 1, closeBrace⟩]) ∧
    Recur.whole .statement {} (.ofTokens [⟨.operator, 0, 1, closeBrace⟩]) =
      body (Recur.whole.below 7) .statement {} (.ofTokens [⟨.operator, 0, 1, closeBrace⟩]) := by
  have h : Lexer.tokenize closeBrace = .ok [⟨.operator, 0, 1, closeBrace⟩] := by decide +kernel
  obtain ⟨sources, _, everywhere⟩ := grammar_terminates closeBrace _ h
  have start := ofTokens_over (Lexer.tokenize_proper h) (Lexer.tokenize_named h)
  obtain ⟨depths, rules⟩ := everywhere {} _ start
  exact ⟨sources .file, (depths 8 (by decide)).2, (rules .statement trivial).2.1⟩

end KotlinSyntax.Grammar

import KotlinSyntax.Proofs.Conversion
import KotlinSyntax.Proofs.Refusal
import KotlinSyntax.Proofs.Writer

/-! Sources and trees. Reading a source and writing its tree alone keeps every token that is no trivia. -/
namespace KotlinSyntax.Source

open Conversion

variable {form : Form} {root : RawElement} {tree : Tree}

/-- The raw tree of a source is fit to be read. -/
theorem raw_readable {fileName : Option String} {source : String} (h : (raw form fileName source).result = .ok root) :
    Readable root := by
  obtain ⟨tokens, lexed, tiles, sound⟩ := raw_tiles h
  refine ⟨sound, ?_, [], [], ?_⟩
  · intro l member
    rcases tiles.mem member with token | operator
    · exact Lexer.tokenize_proper lexed l.token token
    · rw [Token.isProper, operator]
  · have nests := tiles.nestAll []
    rw [Lexer.tokenize_nests lexed] at nests
    simpa [Nests, RawElement.leavesAll] using nests

/-- A tree that is converted stands for what it was made of, whether or not extras are kept. -/
theorem convertPlain_standsFor (readable : Readable root) (h : (convertPlain form root).result = .ok tree) :
    StandsFor tree.root root := by
  have made := convertSource_makes form readable {}
  unfold convertPlain at h
  split at h
  · cases h
  · rename_i n s converted
    rw [converted] at made
    cases h
    exact made

/-- A tree with extras is what the conversion gives, with what the placing of its trivia gives. -/
theorem convertFull_ok (h : (convertFull form root).result = .ok tree) : ∃ s,
    convertSource form root {} = .ok tree.root s ∧
      Placement.collect (Placement.producedBy s.events root.size) root = .ok tree.extras := by
  unfold convertFull at h
  split at h
  · cases h
  · rename_i n s converted
    split at h
    · cases h
    · rename_i extras collected
      cases h
      exact ⟨s, converted, collected⟩

theorem convertFull_standsFor (readable : Readable root) (h : (convertFull form root).result = .ok tree) :
    StandsFor tree.root root := by
  have made := convertSource_makes form readable {}
  obtain ⟨s, converted, -⟩ := convertFull_ok h
  rw [converted] at made
  exact made

theorem parse_standsFor {o : Options} {source : String} (h : (parse form o source).result = .ok tree) :
    ∃ root, (raw form o.fileName source).result = .ok root ∧ StandsFor tree.root root := by
  simp only [parse] at h
  split at h
  · cases h
  · rename_i root read
    refine ⟨root, read, ?_⟩
    have readable := raw_readable read
    split at h
    · split at h
      · cases h
      · rename_i converted
        cases h
        exact convertFull_standsFor readable converted
    · exact convertPlain_standsFor readable h

/-- A tree with extras is made of the raw tree of the source. -/
theorem parse_full_ok {fileName : Option String} {source : String}
    (h : (parse form { extras := true, fileName } source).result = .ok tree) :
    ∃ root, (raw form fileName source).result = .ok root ∧ (convertFull form root).result = .ok tree := by
  simp only [parse, if_true] at h
  split at h
  · cases h
  · rename_i root read
    refine ⟨root, read, ?_⟩
    split at h
    · cases h
    · rename_i converted
      cases h
      exact converted

/-- No token that counts is lost, doubled, changed or moved: the text of the tree alone is the tokens of the
source in their order, with nothing but gaps before, between and behind them. -/
theorem plain_weaves_tokens (form : Form) (o : Options) (source : String) (tree : Tree)
    (h : (parse form o source).result = .ok tree) :
    ∃ root text, (raw form o.fileName source).result = .ok root ∧ tree.plain = .ok text ∧
      Writer.Woven root.words text := by
  obtain ⟨root, read, stands⟩ := parse_standsFor h
  refine ⟨root, ({} : Writer).text tree.root, read, ?_, ?_⟩
  · simp only [Tree.plain, Writer.write, stands.known.recognized]
    rfl
  · rw [← stands.words]
    exact Writer.text_woven tree.root {}

/-- A comment is no word, and a comma with nothing behind it is one. -/
theorem plain_weaves_call : ∃ tree root text, (parse .script {} "f /**/ ( x , )").result = .ok tree ∧
    (raw .script none "f /**/ ( x , )").result = .ok root ∧ tree.plain = .ok text ∧
      Writer.Woven ["f", "(", "x", ",", ")"] text := by
  have parsed : (parse .script {} "f /**/ ( x , )").result.toOption.isSome = true := by decide +kernel
  have words : (raw .script none "f /**/ ( x , )").result.toOption.map RawElement.words =
      some ["f", "(", "x", ",", ")"] := by decide +kernel
  cases found : (parse .script {} "f /**/ ( x , )").result with
  | error e =>
    rw [found] at parsed
    cases parsed
  | ok tree =>
    obtain ⟨root, text, read, written, woven⟩ := plain_weaves_tokens .script {} "f /**/ ( x , )" tree found
    rw [read] at words
    rw [Option.some.inj words] at woven
    exact ⟨tree, root, text, rfl, read, written, woven⟩

end KotlinSyntax.Source

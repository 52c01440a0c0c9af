import LexicalLisp.Proofs.Value.Equality
import LexicalLisp.Proofs.Value.ReadBack
import LexicalLisp.Proofs.Value.Trees

/-!
# Printed text is a normal form

Whatever is read from a text is made of numbers, lists, and symbols that are words of the text and
no number literals. Printed on one line it is a text that is read as a whole, and printing what was
read gives the same text again.

The value itself may change the first time. A literal that is too large stands for an infinite
number, and the text of that number is no literal, so it is read as a symbol; negative zero loses
its sign. Neither shows in the text.
-/

namespace LexicalLisp

namespace Value

mutual

/-- The names of the symbols within a value, also within the code of closures. -/
def symbols : Value → List String
  | .symbol name => [name]
  | .list items => symbolsEach items
  | .closure _ formals body _ => symbolsEach formals ++ symbols body
  | .number _ | .boolean _ | .foreign _ => []

/-- The names of the symbols within the items of a list. -/
def symbolsEach : List Value → List String
  | [] => []
  | v :: rest => symbols v ++ symbolsEach rest

end

mutual

/-- A tree as its own text is read: the text of a number that is not finite becomes a symbol. -/
def asRead : Value → Value
  | .number n => if n.isFinite then .number n else .symbol n.plainText
  | .list items => .list (asReadEach items)
  | v => v

/-- The items of a list as their texts are read. -/
def asReadEach : List Value → List Value
  | [] => []
  | v :: rest => asRead v :: asReadEach rest

end

end Value

mutual

/-- A symbol that is read is one of the words, and the word is no number literal. -/
theorem Derivation.mem_tokens_of_mem_symbols (d : Derivation) {name : String}
    (h : name ∈ d.value.symbols) :
    .atom name ∈ d.tokens ∧ Numeral.read? name.toList = none := by
  match d with
  | .word text =>
    rw [value, readAtom] at h
    cases hnumeral : Numeral.read? text.toList with
    | some numeral =>
      rw [hnumeral] at h
      cases h
    | none =>
      rw [hnumeral] at h
      obtain rfl := List.mem_singleton.mp h
      exact ⟨List.mem_singleton_self _, hnumeral⟩
  | .group members =>
    rw [value, Value.symbols] at h
    obtain ⟨hmem, hnumeral⟩ := mem_tokensEach_of_mem_symbolsEach members h
    exact ⟨List.mem_cons_of_mem _ (List.mem_append_left _ hmem), hnumeral⟩

/-- So is every symbol of expressions that are read one after another. -/
theorem Derivation.mem_tokensEach_of_mem_symbolsEach (ds : List Derivation) {name : String}
    (h : name ∈ Value.symbolsEach (valueEach ds)) :
    .atom name ∈ tokensEach ds ∧ Numeral.read? name.toList = none := by
  match ds with
  | [] => cases h
  | d :: rest =>
    rw [valueEach, Value.symbolsEach, List.mem_append] at h
    rw [tokensEach, List.mem_append]
    rcases h with h | h
    · obtain ⟨hmem, hnumeral⟩ := mem_tokens_of_mem_symbols d h
      exact ⟨.inl hmem, hnumeral⟩
    · obtain ⟨hmem, hnumeral⟩ := mem_tokensEach_of_mem_symbolsEach rest h
      exact ⟨.inr hmem, hnumeral⟩

end

/-- A word of a text that is no number literal is the name of a symbol that can be read. -/
theorem isReadableName_of_mem_tokenize {source name : String} (h : .atom name ∈ tokenize source)
    (hnumeral : Numeral.read? name.toList = none) : isReadableName name = true := by
  obtain ⟨hne, hchars⟩ := undelimited_of_mem_tokenize h
  have hnonempty : name.isEmpty = false := by simpa using hne
  have hall : name.toList.all (fun c => !isBlank c && !isParen c) = true := by
    apply List.all_eq_true.mpr
    intro c hc
    obtain ⟨hblank, hparen⟩ := Bool.or_eq_false_iff.mp (hchars c hc)
    rw [hblank, hparen]
    rfl
  rw [isReadableName, hnonempty, hall, hnumeral]
  rfl

/-- An infinite number has a text without digits. -/
theorem Number.plainText_infinite (negative : Bool) {pattern : Nat}
    (h : ¬ pattern < infinityPattern) :
    (Number.real negative pattern).plainText = signed negative ['i', 'n', 'f'] := by
  simp [plainText, fullText, h]

/-- The text of a number that is not finite is the name of a symbol that can be read. -/
theorem Number.isReadableName_plainText {n : Number} (h : n.isFinite = false) :
    isReadableName n.plainText = true := by
  cases n with
  | nan tag =>
    change isReadableName "nan" = true
    decide
  | real negative pattern =>
    rw [plainText_infinite negative (of_decide_eq_false h)]
    cases negative with
    | true => decide
    | false => decide

namespace Value

mutual

/-- A value and what its text is read as have one printed shape. -/
theorem shape_asRead (v : Value) : v.asRead.shape = v.shape := by
  match v with
  | .number n =>
    rw [asRead]
    split <;> rfl
  | .list items => rw [asRead, shape, shape, shapeEach_asReadEach items]
  | .boolean _ | .symbol _ | .closure .. | .foreign _ => rfl

/-- So do the items of a list. -/
theorem shapeEach_asReadEach (items : List Value) :
    shapeEach (asReadEach items) = shapeEach items := by
  match items with
  | [] => rfl
  | v :: rest => rw [asReadEach, shapeEach, shapeEach, shape_asRead v, shapeEach_asReadEach rest]

end

mutual

/-- A tree whose symbols can be read is readable once its infinite numbers are symbols. -/
theorem readable_asRead (v : Value) (htree : v.isTree = true)
    (hnames : ∀ name ∈ v.symbols, isReadableName name = true) : v.asRead.readable = true := by
  match v with
  | .number n =>
    rw [asRead]
    split
    · rwa [readable]
    · rename_i hfinite
      rw [readable]
      exact Number.isReadableName_plainText (Bool.eq_false_iff.mpr hfinite)
  | .symbol name => exact hnames name (List.mem_singleton_self name)
  | .list items =>
    rw [asRead, readable]
    exact readableEach_asReadEach items htree hnames
  | .boolean _ | .closure .. | .foreign _ => cases htree

/-- So are trees in a row. -/
theorem readableEach_asReadEach (items : List Value) (htree : isTreeEach items = true)
    (hnames : ∀ name ∈ symbolsEach items, isReadableName name = true) :
    readableEach (asReadEach items) = true := by
  match items with
  | [] => rfl
  | v :: rest =>
    rw [isTreeEach, Bool.and_eq_true] at htree
    rw [symbolsEach, List.forall_mem_append] at hnames
    rw [asReadEach, readableEach, readable_asRead v htree.1 hnames.1,
      readableEach_asReadEach rest htree.2 hnames.2]
    rfl

end

/-- The text of a tree whose symbols can be read is an expression with that same text. -/
theorem exists_derivation_of_isTree {v : Value} (htree : v.isTree = true)
    (hnames : ∀ name ∈ v.symbols, isReadableName name = true) :
    ∃ d : Derivation, tokenize v.render = d.tokens ∧ d.value.same v.asRead = true ∧
      d.value.render = v.render := by
  have hrender : v.asRead.render = v.render := congrArg Shape.flat v.shape_asRead
  obtain ⟨d, htokens, hsame⟩ := v.asRead.exists_derivation_render (v.readable_asRead htree hnames)
  refine ⟨d, hrender ▸ htokens, hsame, ?_⟩
  rw [render_of_same hsame, hrender]

/-- What is read from a text is printed in a normal form.

It is a tree, and each of its symbols has a name that is read as that symbol. Its text on one line
is a single expression without anything behind it, and what is read from it has the same text: an
equal value, except that infinite numbers have become symbols with their text for a name. -/
theorem printed_normal_form {source : String} {v : Value} (h : readFirst source = .ok v) :
    v.isTree = true ∧ (∀ name ∈ v.symbols, isReadableName name = true) ∧
      ∃ w, readOne (tokenize v.render) = .value w [] ∧ readFirst v.render = .ok w ∧
        w.render = v.render ∧ w.same v.asRead = true := by
  obtain ⟨d, rest, htokens, rfl⟩ := exists_expression_of_readFirst h
  have hnames : ∀ name ∈ d.value.symbols, isReadableName name = true := by
    intro name hname
    obtain ⟨hmem, hnumeral⟩ := d.mem_tokens_of_mem_symbols hname
    have hword : .atom name ∈ tokenize source := by
      rw [htokens]
      exact List.mem_append_left _ hmem
    exact isReadableName_of_mem_tokenize hword hnumeral
  obtain ⟨e, hprinted, hsame, hrender⟩ := exists_derivation_of_isTree d.isTree_value hnames
  have hread : readOne (tokenize d.value.render) = .value e.value [] := by
    have hwhole := readOne_tokens_append e []
    rwa [List.append_nil, ← hprinted] at hwhole
  exact ⟨d.isTree_value, hnames, e.value, hread, readFirst_of_tokens hprinted, hrender, hsame⟩

/-- A list of a symbol, a literal that is too large and a negative zero is printed in a normal
form. -/
theorem printed_normal_form_overflow :
    let v := Value.list [.symbol "a", .number (.real true infinityPattern), .number (.real true 0)]
    readFirst "( a -1e999\t-0) (" = .ok v ∧ v.render = "(a -inf 0)" ∧
      v.asRead = .list [.symbol "a", .symbol "-inf", .number (.real true 0)] ∧
      ∃ w, readOne (tokenize v.render) = .value w [] ∧ readFirst v.render = .ok w ∧
        w.render = v.render ∧ w.same v.asRead = true := by
  intro v
  have hread : readFirst "( a -1e999\t-0) (" = .ok v := rfl
  have hrender : v.render = "(a -inf 0)" := by
    simp only [v, render, shape, shapeEach, Number.plainText_zero,
      Number.plainText_infinite true (Nat.lt_irrefl infinityPattern)]
    decide
  exact ⟨hread, hrender, rfl, (printed_normal_form hread).2.2⟩

end Value

end LexicalLisp

import Spreadsheet.Description.Build
import Spreadsheet.Proofs.Formula.Compiled
import Spreadsheet.Proofs.Formula.Literals
import Spreadsheet.Proofs.Template.References

/-!
# Quoted arguments of a described call

An argument between quotes is taken as the text between them as it stands, while a template reads a
quote in it as the end of a literal or, where it is doubled, as one character.  So the argument means
what it means as a template exactly if there is no quote inside.
-/

namespace Spreadsheet

open Spreadsheet.Text Spreadsheet.Template Spreadsheet.Formula

variable {b : Build} {e : Expr} {s : String} {cs inside : List Char} {ts : List Token}

/-! ## Texts denoted by expressions -/

/-- The text that an expression denotes, if it is made of literals and concatenations. -/
def Template.Expr.joined? : Expr → Option String
  | .text s => some s
  | .binary .concat lhs rhs => do return (← lhs.joined?) ++ (← rhs.joined?)
  | _ => none

theorem joined_cases {e : Expr} {s : String} (joined : e.joined? = some s) :
    e = .text s ∨ ∃ lhs rhs left right, e = .binary .concat lhs rhs ∧ lhs.joined? = some left ∧
      rhs.joined? = some right ∧ s = left ++ right := by
  unfold Expr.joined? at joined
  split at joined
  · exact .inl (congrArg _ (Option.some.inj joined))
  · obtain ⟨left, hleft, joined⟩ := Option.bind_eq_some_iff.1 joined
    obtain ⟨right, hright, joined⟩ := Option.bind_eq_some_iff.1 joined
    exact .inr ⟨_, _, left, right, rfl, hleft, hright, (Option.some.inj joined).symm⟩
  · cases joined

/-- Literals and concatenations can be compiled and are read back as they are. -/
theorem joined_facts (joined : e.joined? = some s) (reference : Key → String) :
    e.Every Compiles ∧ e.Every ReadsBack ∧ written reference readName e = e := by
  induction e using Expr.inductionOn generalizing s with
  | text t => exact ⟨(Expr.every_text t).2 trivial, (Expr.every_text t).2 trivial, rfl⟩
  | binary op lhs rhs ihl ihr =>
      rcases joined_cases joined with ⟨⟨⟩⟩ | ⟨_, _, left, right, ⟨⟩, hleft, hright, -⟩
      obtain ⟨compilesLeft, readsLeft, sameLeft⟩ := ihl hleft
      obtain ⟨compilesRight, readsRight, sameRight⟩ := ihr hright
      refine ⟨(Expr.every_binary _ _ _).2 ⟨trivial, compilesLeft, compilesRight⟩,
        (Expr.every_binary _ _ _).2 ⟨trivial, readsLeft, readsRight⟩, ?_⟩
      rw [written, sameLeft, sameRight]
  | _ => cases joined

/-! ## Operands in a written call -/

/-- Whether a call of any function with the operand is written, on any sheet and in any later state,
as a text that is read as the call with the expression for its operand. -/
def Build.ReadsOperand (b : Build) (o : Operand) (e : Expr) : Prop :=
  ∀ given name, functionName given = .ok name → ∃ c b' formula,
    Runs (BuildM.newCall given [o]) b c b' ∧
      b'.store.callNodeValue c none = .ok (.grid (.scalar formula)) ∧
      ∀ later sheet, ∃ text,
        Runs (BuildM.formulaText sheet formula) later (String.ofList ('=' :: text)) later ∧
          readFormula text = some (.call (readName name) [e])

/-- A written operand is read as one expression only. -/
theorem Build.ReadsOperand.unique {o : Operand} {e' : Expr} (h : b.ReadsOperand o e)
    (h' : b.ReadsOperand o e') : e = e' := by
  have named : functionName "N" = .ok "N" := rfl
  obtain ⟨c, b', formula, runs, value, written⟩ := h _ _ named
  obtain ⟨_, _, _, runs', value', written'⟩ := h' _ _ named
  cases runs.symm.trans runs'
  cases value.symm.trans value'
  obtain ⟨text, writes, read⟩ := written b' ""
  obtain ⟨_, writes', read'⟩ := written' b' ""
  have same := congrArg Prod.fst (writes.symm.trans writes')
  simp only [Except.ok.injEq, String.ofList_inj, List.cons.injEq, true_and] at same
  subst same
  have calls := read.symm.trans read'
  simpa using calls

/-- A call of a single formula, whatever dimension it would be given by its argument. -/
theorem callValue_single {name : String} {v : Value} {f : Formula}
    (named : functionName name = .ok name) (denotes : Denotes v f) (st : Store) :
    callValue st name [v] none = .ok (.grid (.scalar (.call name [f]))) := by
  have single : v.isOneDimensional = false := by
    cases denotes <;> rfl
  simp only [callValue, named, isVectorCall, List.any_cons, single, List.any_nil, Bool.or_self,
    List.mapM_cons, denotes.scalarOperand, List.mapM_nil, bind, Except.bind]
  rfl

/-- A call of one operand that makes one argument. -/
theorem exists_newCall {o : Operand} {arg : Argument} {b' : Build} {given name : String}
    (made : Runs (BuildM.arguments name o) b [arg] b') (named : functionName given = .ok name) :
    ∃ c b'', Runs (BuildM.newCall given [o]) b c b'' ∧
      b''.store.call c = { name, args := [arg] } ∧
      b''.store.expressions = b'.store.expressions := by
  let added := b'.store.addCall { name, args := [arg] }
  have allMade : Runs (BuildM.allArguments name [o]) b [arg] b' :=
    runs_bind.2 ⟨[arg], b', made, runs_bind.2 ⟨[], b', runs_pure.2 ⟨rfl, rfl⟩,
      runs_pure.2 ⟨rfl, rfl⟩⟩⟩
  refine ⟨added.1, { b' with store := added.2 }, ?_, Table.get_push_size _ _, rfl⟩
  refine runs_bind.2 ⟨name, b, ?_, runs_bind.2 ⟨[arg], b', allMade, runs_modifyGet.2 rfl⟩⟩
  rw [named]
  exact runs_pure.2 ⟨rfl, rfl⟩

/-- A call is written with the expression that its only argument stands for. -/
theorem readsOperand_of_argument {o : Operand} {arg : Argument} {b' : Build}
    (cellOf : Key → CellId) (made : ∀ name, Runs (BuildM.arguments name o) b [arg] b')
    (value : ∀ st : Store, st.expressions = b'.store.expressions →
      ∃ v, st.argumentValue arg = .ok v ∧ Denotes v (compiled cellOf e))
    (spelled : e.Every Expr.Spelled) (compiles : e.Every Compiles) (reads : e.Every ReadsBack)
    (free : e.refs = []) :
    b.ReadsOperand o (written (fun _ => "") readName e) := by
  intro given name named
  obtain ⟨upper, letter⟩ := isUpperName_of_functionName named
  obtain ⟨c, b'', runs, call, same⟩ := exists_newCall (made name) named
  obtain ⟨v, hv, denotes⟩ := value b''.store same
  refine ⟨c, b'', .call name [compiled cellOf e], runs, ?_, fun later sheet => ?_⟩
  · have values : [arg].mapM b''.store.argumentValue = .ok [v] := by
      rw [List.mapM_cons, hv]
      rfl
    rw [Store.callNodeValue, call]
    show (do callValue b''.store name (← [arg].mapM b''.store.argumentValue) none) = _
    rw [values]
    exact callValue_single (functionName_of_isUpperName upper letter) denotes _
  · have none : (Expr.call name [e]).refs = [] := by
      simp [Expr.refs, refsOfArgs_eq_flatMap, free]
    have placed : ∀ key ∈ (Expr.call name [e]).refs, (later.store.cell (cellOf key)).location =
        some ⟨"", 0, 0⟩ := by
      simp [none]
    obtain ⟨text, written, read⟩ := runs_formulaText_compiled
      ((Expr.every_call _ _).2 ⟨upper, by simpa using spelled⟩)
      ((Expr.every_call _ _).2 ⟨letter, by simpa using compiles⟩) trivial
      ((Expr.every_call _ _).2 ⟨trivial, by simpa using reads⟩) placed sheet
    refine ⟨text, written, read.trans (congrArg some ?_)⟩
    rw [Formula.written, writtenAll_eq_map, List.map_singleton]
    congr 2
    exact written_refs (by simp [free])

/-- A literal operand is written as itself. -/
theorem readsOperand_literal (b : Build) (s : String) :
    b.ReadsOperand (.literal (.text s)) (.text s) :=
  readsOperand_of_argument (e := .text s) (fun _ => ⟨0⟩)
    (fun _ => runs_pure.2 ⟨rfl, rfl⟩) (fun _ _ => ⟨_, rfl, .scalar _⟩)
    ((Expr.every_text s).2 trivial) ((Expr.every_text s).2 trivial) ((Expr.every_text s).2 trivial)
    rfl

/-- A template without references is written as its expression. -/
theorem readsOperand_template {template : String} {p : Prepared}
    (prepared : prepare template = .ok p) (free : p.ast.refs = []) (compiles : p.ast.Every Compiles)
    (reads : p.ast.Every ReadsBack) (b : Build) :
    b.ReadsOperand (.template template) (written (fun _ => "") readName p.ast) := by
  let added := b.store.addExpression { template := p }
  have spelled := prepare_spelled prepared
  have made (name : String) : Runs (BuildM.arguments name (.template template)) b
      [.expression added.1] { b with store := added.2 } := by
    refine runs_bind.2 ⟨added.1, _, ?_, runs_pure.2 ⟨rfl, rfl⟩⟩
    rw [BuildM.newExpression, prepared]
    exact runs_modifyGet.2 rfl
  refine readsOperand_of_argument (fun _ => ⟨0⟩) made (fun st same => ?_) spelled compiles
    reads free
  have self : st.expression added.1 = { template := p } := by
    rw [Store.expression, same]
    exact Table.get_push_size _ _
  rw [Store.argumentValue, Store.expressionValue, self]
  exact eval_compiled rfl (fun part hpart => (compiles part hpart).composes) spelled (by simp [free])

/-! ## The quotes of a template -/

/-- The number of quotes that a token is spelled with. -/
def Template.Token.quotes : Token → Nat
  | .literal s => 2 + 2 * s.toList.count '"'
  | _ => 0

theorem count_literalTail {value spelling after : List Char}
    (h : literalTail cs = some (value, spelling, after)) :
    cs.count '"' = 2 * value.count '"' + 1 + after.count '"' := by
  fun_induction literalTail cs generalizing value spelling with
  | case1 => cases h
  | case2 rest ih =>
      obtain ⟨⟨value, spelling, after⟩, tail, same⟩ := Option.map_eq_some_iff.1 h
      cases same
      rw [List.count_cons_self, List.count_cons_self, List.count_cons_self, ih tail]
      omega
  | case3 rest =>
      cases h
      simp [Nat.add_comm]
  | case4 c rest single other ih =>
      obtain ⟨⟨value, spelling, after⟩, tail, same⟩ := Option.map_eq_some_iff.1 h
      cases same
      rw [List.count_cons_of_ne other, List.count_cons_of_ne other, ih tail]

theorem Template.Lexeme.quotes {c : Char} {rest : List Char} {found : Lexeme}
    (h : lexeme c rest = .ok found) :
    (c :: rest).count '"' = found.token.quotes + found.rest.count '"' := by
  have free {front back : List Char} (none : ∀ d ∈ front, d ≠ '"') :
      (front ++ back).count '"' = back.count '"' := by
    rw [List.count_append, List.count_eq_zero.2 fun quote => none _ quote rfl, Nat.zero_add]
  simp only [lexeme] at h
  split at h
  case isTrue quote =>
    subst quote
    split at h
    · rename_i value spelling after tail
      cases h
      simp only [List.count_cons_self, count_literalTail tail, Token.quotes, String.toList_ofList]
      omega
    · cases h
  case isFalse =>
    split at h
    case isTrue number =>
      split at h
      · cases h
        obtain ⟨behind, split⟩ := numberSpelling_initial (c :: rest)
        have dropped : (c :: rest).drop (numberSpelling (c :: rest)).length = behind := by
          rw [← split, List.drop_left']
          rw [split]
        rw [dropped]
        nth_rewrite 1 [← split]
        rw [free fun d hd => (isNumeralChar_facts (isNumeralChar_of_mem_numberSpelling hd)).2.1]
        simp [Token.quotes]
      · cases h
    case isFalse =>
      split at h
      case isTrue =>
        cases h
        nth_rewrite 1 [← List.takeWhile_append_dropWhile (p := isNameRest) (l := c :: rest)]
        rw [free]
        · simp [Token.quotes]
        · rintro d hd rfl
          cases List.mem_takeWhile_imp hd
      case isFalse =>
        split at h
        · rename_i token length symbol
          cases h
          obtain ⟨-, -, -, chars⟩ := symbolAt_facts symbol
          nth_rewrite 1 [← List.take_append_drop length (c :: rest)]
          rw [free fun d hd => (chars d hd).1]
          unfold symbolAt at symbol
          split at symbol <;> cases symbol <;> simp [Token.quotes]
        · cases h

/-- The quotes of a text are those of its tokens. -/
theorem Template.Lexes.quotes (h : Lexes cs ts) : cs.count '"' = (ts.map Token.quotes).sum := by
  induction h with
  | nil => rfl
  | @spacing c rest ts hc more ih =>
      rw [List.count_cons_of_ne (isSpacing_facts hc).2.1, ih]
  | token hc hfound more ih =>
      rw [Lexeme.quotes hfound, ih, List.map_cons, List.sum_cons]

/-- Each literal brings two quotes around it and two for every quote of its text. -/
theorem Template.Derives.quotes {l : Level} (h : Derives l ts e) (joined : e.joined? = some s) :
    ∃ n, 0 < n ∧ (ts.map Token.quotes).sum = 2 * n + 2 * s.toList.count '"' := by
  induction h generalizing s with
  | operand hl h ih => exact ih joined
  | unsigned h ih | bare h ih => exact ih joined
  | operation hl hop left right ihl ihr =>
      rcases joined_cases joined with ⟨⟨⟩⟩ | ⟨_, _, first, second, ⟨⟩, hfirst, hsecond, rfl⟩
      obtain ⟨n, positive, sum⟩ := ihl hfirst
      obtain ⟨m, -, sum'⟩ := ihr hsecond
      refine ⟨n + m, by omega, ?_⟩
      rw [List.map_append, List.sum_append, List.map_cons, List.sum_cons, sum, sum',
        String.toList_append, List.count_append]
      simp only [Token.quotes]
      omega
  | text t =>
      cases joined
      exact ⟨1, Nat.one_pos, by simp [Token.quotes]⟩
  | parens h ih =>
      obtain ⟨n, positive, sum⟩ := ih joined
      exact ⟨n, positive, by simpa [Token.quotes] using sum⟩
  | _ => cases joined

/-- A template that names nothing and denotes a text has a quote on either side of every literal and
two for each quote of the text. -/
theorem count_quotes_of_joined {template : String} {p : Prepared}
    (prepared : prepare template = .ok p) (unnamed : p.keys = [])
    (joined : p.ast.joined? = some s) :
    ∃ n, 0 < n ∧ template.toList.count '"' = 2 * n + 2 * s.toList.count '"' := by
  obtain ⟨found, -, parsed, hkeys, -⟩ := prepare_eq_ok prepared
  obtain rfl : found = [] := by
    have none : found.map (·.key) = [] := List.eq_nil_iff_forall_not_mem.2 fun key hkey => by
      rw [← mem_distinctKeys, ← hkeys, unnamed] at hkey
      cases hkey
    exact List.map_eq_nil_iff.1 none
  rw [expand, expandFrom, String.ofList_toList] at parsed
  obtain ⟨ts, hts, derived⟩ := parse_eq_ok_iff.1 parsed
  rw [(Lexes.of_tokens hts).quotes]
  exact derived.quotes joined

/-! ## Arguments between quotes -/

theorem number_read_quote (rest : List Char) : Number.read ('"' :: rest) = none := by
  have lower : Char.toLower '"' = '"' := by decide
  simp [Number.read, Number.splitSign, Number.readMagnitude, lower]

theorem operandOf_quoted (inside : List Char) :
    operandOf ('"' :: (inside ++ ['"'])) = .literal (.text (String.ofList inside)) := by
  simp [operandOf, number_read_quote, unquoted?]

theorem prepare_quote : ∀ p, prepare "\"" ≠ .ok p := by
  rintro p prepared
  obtain ⟨found, hfound, -⟩ := prepare_eq_ok prepared
  cases hfound

/-- A template between quotes in which no other quote is has one literal for its expression. -/
theorem prepare_literal {text : String} {p : Prepared} (prepared : prepare text = .ok p)
    (spelled : text.toList = '"' :: (inside ++ ['"'])) (plain : '"' ∉ inside) :
    p.ast = .text (String.ofList inside) := by
  obtain rfl : text = quoteText (String.ofList inside) := by
    rw [← String.toList_inj, toList_quoteText, spelled]
    simp [doubled_of_not_mem plain]
  obtain ⟨found, hfound, parsed, -⟩ := prepare_eq_ok prepared
  obtain rfl := Except.ok.inj ((placeholders_quoteText _).symm.trans hfound)
  rw [expand, expandFrom, String.ofList_toList] at parsed
  exact (parse_eq_ok_iff.1 parsed).unique ⟨_, tokens_quoteText _, derives_text _⟩

/-- An argument that begins and ends with a quote and that names nothing as a template is written as
the text between these quotes, the template itself as its expression.  They are the same exactly if
there is no quote inside, and where the template denotes a text, the texts are. -/
theorem quotedArgument_denotes {text : String} {p : Prepared}
    (starts : text.toList.head? = some '"') (ends : text.toList.getLast? = some '"')
    (prepared : prepare text = .ok p) (unnamed : p.keys = []) (b : Build) :
    ∃ inside, text.toList = '"' :: (inside ++ ['"']) ∧
      b.ReadsOperand (operandOf text.toList) (.text (String.ofList inside)) ∧
      (p.ast.Every Compiles → p.ast.Every ReadsBack →
        b.ReadsOperand (.template text) (written (fun _ => "") readName p.ast)) ∧
      (p.ast = .text (String.ofList inside) ↔ '"' ∉ inside) ∧
      ∀ value, p.ast.joined? = some value →
        b.ReadsOperand (.template text) p.ast ∧ (value = String.ofList inside ↔ '"' ∉ inside) := by
  obtain ⟨inside, spelled⟩ : ∃ inside, text.toList = '"' :: (inside ++ ['"']) := by
    obtain ⟨rest, spelled⟩ := List.head?_eq_some_iff.1 starts
    rw [spelled] at ends
    rcases List.eq_nil_or_concat' rest with rfl | ⟨inside, c, rfl⟩
    · obtain rfl : text = "\"" := String.toList_inj.1 spelled
      exact absurd prepared (prepare_quote p)
    · rw [← List.cons_append, List.getLast?_concat] at ends
      exact ⟨inside, by rw [spelled, Option.some.inj ends]⟩
  have noRefs : p.ast.refs = [] := List.eq_nil_iff_forall_not_mem.2 fun key hkey => by
    have named := mem_keys_of_mem_refs prepared (by simp [unnamed]) hkey
    simp [unnamed] at named
  have plain_of_eq : ∀ value, p.ast.joined? = some value → value = String.ofList inside →
      '"' ∉ inside := by
    rintro value joined rfl
    obtain ⟨n, positive, count⟩ := count_quotes_of_joined prepared unnamed joined
    simp only [spelled, String.toList_ofList, List.count_cons_self, List.count_append,
      List.count_nil] at count
    exact List.count_eq_zero.1 (by omega)
  refine ⟨inside, spelled, ?_, fun compiles reads => ?_, ?_, ?_⟩
  · rw [spelled, operandOf_quoted]
    exact readsOperand_literal b _
  · exact readsOperand_template prepared noRefs compiles reads b
  · exact ⟨fun same => plain_of_eq _ (by rw [same, Expr.joined?]) rfl,
      prepare_literal prepared spelled⟩
  · intro value joined
    obtain ⟨compiles, reads, same⟩ := joined_facts joined fun _ => ""
    refine ⟨?_, plain_of_eq value joined, fun plain => ?_⟩
    · have template := readsOperand_template prepared noRefs compiles reads b
      rwa [same] at template
    · rw [prepare_literal prepared spelled plain, Expr.joined?] at joined
      exact (Option.some.inj joined).symm

/-- Two literals that are joined: the argument is taken for one text with two quotes in it. -/
theorem quotedArgument_denotes_twoLiterals :
    ∃ p inside, prepare "\"a\" & \"b\"" = .ok p ∧ "\"a\" & \"b\"".toList = '"' :: (inside ++ ['"']) ∧
      ({} : Build).ReadsOperand (operandOf "\"a\" & \"b\"".toList) (.text (String.ofList inside)) ∧
      ({} : Build).ReadsOperand (.template "\"a\" & \"b\"") p.ast ∧
      p.ast.joined? = some "ab" ∧ "ab" ≠ String.ofList inside := by
  have sample : ∃ p, prepare "\"a\" & \"b\"" = .ok p ∧ p.keys = [] ∧ p.ast.joined? = some "ab" := by
    decide +kernel
  obtain ⟨p, prepared, unnamed, joined⟩ := sample
  obtain ⟨inside, same, argument, -, -, texts⟩ :=
    quotedArgument_denotes (by decide) (by decide) prepared unnamed {}
  obtain ⟨template, equal⟩ := texts "ab" joined
  refine ⟨p, inside, prepared, same, argument, template, joined, fun h => equal.1 h ?_⟩
  obtain rfl : "a\" & \"b".toList = inside := by
    have tail := (List.cons.inj same).2
    exact List.append_cancel_right (tail : "a\" & \"b".toList ++ ['"'] = inside ++ ['"'])
  decide

/-- An argument with a doubled quote does not denote the text that it denotes as a template. -/
theorem doubledQuote_denotes_otherwise :
    (callParts? "@LEN(\"a\"\"b\")").map (fun call => splitArguments call.2) =
        some ["\"a\"\"b\"".toList] ∧
      (∃ p, prepare "\"a\"\"b\"" = .ok p ∧ p.keys = []) ∧
      ¬∃ e e' value, ({} : Build).ReadsOperand (operandOf "\"a\"\"b\"".toList) e ∧
        ({} : Build).ReadsOperand (.template "\"a\"\"b\"") e' ∧
        e.joined? = some value ∧ e'.joined? = some value := by
  have sample : ∃ p, prepare "\"a\"\"b\"" = .ok p ∧ p.keys = [] ∧ p.ast.refs = [] ∧
      p.ast.joined? = some "a\"b" := by
    decide +kernel
  obtain ⟨p, prepared, unnamed, noRefs, joined⟩ := sample
  refine ⟨by decide +kernel, ⟨p, prepared, unnamed⟩, ?_⟩
  rintro ⟨e, e', value, argument, template, denoted, denoted'⟩
  obtain ⟨compiles, reads, same⟩ := joined_facts joined fun _ => ""
  have literal : operandOf "\"a\"\"b\"".toList = .literal (.text "a\"\"b") :=
    operandOf_quoted "a\"\"b".toList
  rw [literal] at argument
  obtain rfl := argument.unique (readsOperand_literal {} _)
  obtain rfl := template.unique (same ▸ readsOperand_template prepared noRefs compiles reads {})
  rw [joined] at denoted'
  exact absurd (denoted.trans denoted'.symm) (by decide)

end Spreadsheet

import Spreadsheet.Formula.Writer
import Spreadsheet.Resolve.Evaluate
import Spreadsheet.Proofs.Monad
import Spreadsheet.Proofs.Formula.Reading

/-!
# Compilation keeps the expression

An expression whose keys name placed cells becomes one formula.  Writing the formula for a cell of
any sheet gives a text that is read, by the grammar of templates with references of cells, as the
expression itself.
-/

namespace Spreadsheet.Formula

open Spreadsheet.Text Spreadsheet.Template

/-! ## Evaluation -/

mutual

/-- The formula that an expression becomes, given the cell that each key names. -/
def compiled (cellOf : Key → CellId) : Expr → Formula
  | .number x => .literal (.number x)
  | .text s => .literal (.text s)
  | .bool b => .literal (.bool b)
  | .ref key => .ref (cellOf key)
  | .index target _ => compiled cellOf target
  | .unary op operand => .unary op (compiled cellOf operand)
  | .binary op lhs rhs => .binary op (compiled cellOf lhs) (compiled cellOf rhs)
  | .call name args => .call name (compiledAll cellOf args)

/-- The formulas that the arguments of a call become. -/
def compiledAll (cellOf : Key → CellId) : List Expr → List Formula
  | [] => []
  | arg :: rest => compiled cellOf arg :: compiledAll cellOf rest

end

/-- What every part of an expression has to be for the expression to become one formula: numbers are
finite, nothing is indexed, and the name of a function starts with a letter. -/
def Compiles : Expr → Prop
  | .number x => Number.IsFinite x
  | .index _ _ => False
  | .call name _ => name.toList.head?.any Char.isAlpha = true
  | _ => True

instance : DecidablePred Compiles
  | .number x => inferInstanceAs (Decidable (Number.IsFinite x))
  | .index _ _ => .isFalse id
  | .call name _ => inferInstanceAs (Decidable (name.toList.head?.any Char.isAlpha = true))
  | .text _ | .bool _ | .ref _ | .unary _ _ | .binary _ _ _ => .isTrue trivial

/-- What every part of an expression has to be for its value to be one formula: nothing is indexed, and
the name of a function starts with a letter. -/
def Composes : Expr → Prop
  | .index _ _ => False
  | .call name _ => name.toList.head?.any Char.isAlpha = true
  | _ => True

instance : DecidablePred Composes
  | .index _ _ => .isFalse id
  | .call name _ => inferInstanceAs (Decidable (name.toList.head?.any Char.isAlpha = true))
  | .number _ | .text _ | .bool _ | .ref _ | .unary _ _ | .binary _ _ _ => .isTrue trivial

theorem Compiles.composes {e : Expr} (h : Compiles e) : Composes e := by
  cases e <;> first | exact h | trivial

/-- A value that stands for a single formula. -/
inductive Denotes : Value → Formula → Prop
  | cell (c : CellId) : Denotes (.element (.cell c)) (.ref c)
  | scalar (f : Formula) : Denotes (.grid (.scalar f)) f

theorem Denotes.toGrid {v : Value} {f : Formula} (h : Denotes v f) (s : Store) :
    v.toGrid s = .ok (.scalar f) := by
  cases h <;> rfl

theorem Denotes.scalarOperand {v : Value} {f : Formula} (h : Denotes v f) (s : Store) :
    scalarOperand s v = .ok f := by
  cases h <;> rfl

private theorem nameRest_ascii : ∀ k : Fin 128, isNameRest (Char.ofNat k) = true →
    isBlank (Char.ofNat k) = false ∧
      ((Char.ofNat k).isLower = false → (Char.ofNat k).toUpper = Char.ofNat k) := by
  decide

theorem nameRest_facts {c : Char} (h : isNameRest c = true) :
    isBlank c = false ∧ (c.isLower = false → c.toUpper = c) := by
  obtain ⟨k, rfl⟩ := ofNat_toNat_of_isNameRest h
  exact nameRest_ascii k h

theorem map_toUpper_of_isUpperName {cs : List Char} (h : IsUpperName cs) :
    cs.map Char.toUpper = cs := by
  conv => rhs; rw [← List.map_id cs]
  exact List.map_congr_left fun c hc => (nameRest_facts (h.1.1 c hc)).2 (h.2 c hc)

theorem trim_of_isName {cs : List Char} (h : IsName cs) : trim cs = cs := by
  obtain ⟨name, first, hfirst, start⟩ := h
  have nonempty : cs ≠ [] := by
    rintro rfl
    cases hfirst
  refine trim_eq_self ?_ ?_
  · cases cs with
    | nil => exact absurd rfl nonempty
    | cons c rest => exact ⟨c, rest, rfl, (nameRest_facts (name c (by simp))).1⟩
  · exact ⟨cs.dropLast, cs.getLast nonempty, (List.dropLast_concat_getLast nonempty).symm,
      (nameRest_facts (name _ (List.getLast_mem nonempty))).1⟩

theorem functionName_of_isUpperName {name : String} (h : IsUpperName name.toList)
    (letter : name.toList.head?.any Char.isAlpha = true) : functionName name = .ok name := by
  have upper : (trim name.toList).map Char.toUpper = name.toList := by
    rw [trim_of_isName h.1, map_toUpper_of_isUpperName h]
  have spelled := String.ofList_toList (s := name)
  simp only [functionName, functionName?, upper]
  cases hname : name.toList with
  | nil => simp [hname] at letter
  | cons c rest =>
      have alpha : c.isAlpha = true := by simpa [hname] using letter
      have others : rest.all isNameRest = true := by
        rw [List.all_eq_true]
        intro x hx
        exact h.1.1 x (by simp [hname, hx])
      rw [hname] at spelled
      simp [alpha, others, spelled]

theorem isUpperName_of_functionName {given name : String} (h : functionName given = .ok name) :
    IsUpperName name.toList ∧ name.toList.head?.any Char.isAlpha = true := by
  obtain ⟨upper, hupper⟩ : ∃ upper, upper = (trim given.toList).map Char.toUpper := ⟨_, rfl⟩
  simp only [functionName, functionName?, ← hupper] at h
  cases upper with
  | nil => cases h
  | cons c rest =>
      by_cases valid : (c.isAlpha && rest.all isNameRest) = true
      · obtain rfl : String.ofList (c :: rest) = name := by simpa [valid] using h
        simp only [Bool.and_eq_true, List.all_eq_true] at valid
        have start : isNameStart c = true := by simp [isNameStart, valid.1]
        rw [String.toList_ofList]
        refine ⟨⟨⟨?_, c, rfl, start⟩, ?_⟩, valid.1⟩
        · simpa using ⟨isNameRest_of_isNameStart start, valid.2⟩
        · rw [hupper]
          simp [Char.isLower_toUpper_eq_false]
      · simp [valid] at h

theorem refs_subset_of_mem {arg : Expr} {args : List Expr} (h : arg ∈ args) (name : String) :
    ∀ key ∈ arg.refs, key ∈ (Expr.call name args).refs := by
  intro key hkey
  rw [Expr.refs, refsOfArgs_eq_flatMap]
  exact List.mem_flatMap.2 ⟨arg, h, hkey⟩

variable {cellOf : Key → CellId}

theorem Denotes.eq_scalar {v : Value} {e : Expr} (h : Denotes v (compiled cellOf e))
    (compound : IsCompound e) : v = .grid (.scalar (compiled cellOf e)) := by
  cases e with
  | unary op operand =>
      rw [compiled] at h ⊢
      cases h
      rfl
  | binary op lhs rhs =>
      rw [compiled] at h ⊢
      cases h
      rfl
  | call name args =>
      rw [compiled] at h ⊢
      cases h
      rfl
  | _ => exact compound.elim

theorem eval_compiled {x : Scope} (hint : x.hint = some .scalar) {e : Expr}
    (h : e.Every Composes) (spelled : e.Every Expr.Spelled)
    (bound : ∀ key ∈ e.refs, x.bound.lookup key = some (.cell (cellOf key))) :
    ∃ v, x.eval e = .ok v ∧ Denotes v (compiled cellOf e) := by
  induction e using Expr.inductionOn with
  | number n => exact ⟨_, rfl, .scalar _⟩
  | text s => exact ⟨_, rfl, .scalar _⟩
  | bool b => exact ⟨_, rfl, .scalar _⟩
  | ref key =>
      have found := bound key (by simp [Expr.refs])
      exact ⟨_, by rw [Scope.eval, Scope.ref, found], .cell _⟩
  | index target key => exact h.self.elim
  | unary op operand ih =>
      rw [Expr.every_unary] at h spelled
      obtain ⟨v, hv, denotes⟩ := ih h.2 spelled.2 bound
      refine ⟨_, ?_, .scalar _⟩
      rw [Scope.eval, hv]
      simp only [bind, Except.bind, Value.unary, denotes.toGrid]
      rfl
  | binary op lhs rhs ihl ihr =>
      rw [Expr.every_binary] at h spelled
      obtain ⟨v, hv, left⟩ := ihl h.2.1 spelled.2.1 fun key hkey =>
        bound key (by simp [Expr.refs, hkey])
      obtain ⟨u, hu, right⟩ := ihr h.2.2 spelled.2.2 fun key hkey =>
        bound key (by simp [Expr.refs, hkey])
      refine ⟨_, ?_, .scalar _⟩
      rw [Scope.eval, hv, hu]
      simp only [bind, Except.bind, Value.binary, left.toGrid, right.toGrid]
      rfl
  | call name args ih =>
      rw [Expr.every_call] at h spelled
      have values : ∀ rest : List Expr, (∀ arg ∈ rest, arg ∈ args) →
          ∃ vs, x.evalAll rest = .ok vs ∧
            vs.mapM (scalarOperand x.store) = .ok (compiledAll cellOf rest) := by
        intro rest hin
        induction rest with
        | nil => exact ⟨[], rfl, rfl⟩
        | cons arg rest ihrest =>
            have harg := hin arg (by simp)
            obtain ⟨v, hv, denotes⟩ := ih arg harg (h.2 arg harg) (spelled.2 arg harg) fun key hkey =>
              bound key (refs_subset_of_mem harg name key hkey)
            obtain ⟨vs, hvs, operands⟩ := ihrest fun y hy => hin y (by simp [hy])
            refine ⟨v :: vs, ?_, ?_⟩
            · rw [Scope.evalAll, hv, hvs]
              rfl
            · rw [List.mapM_cons, denotes.scalarOperand, operands]
              rfl
      obtain ⟨vs, hvs, operands⟩ := values args fun arg harg => harg
      refine ⟨_, ?_, .scalar _⟩
      rw [Scope.eval, hvs]
      simp only [bind, Except.bind, callValue, functionName_of_isUpperName spelled.1 h.1, hint,
        isVectorCall, operands]
      rfl

/-! ## Writing -/

/-- How a build spells what it writes for a sheet, given where the cells of the keys are. -/
def spellingFor (b : Build) (sheet : String) (place : Key → Location) : Spelling where
  spacing := b.config.operatorSpacing
  reference key := ((place key).qualified sheet).toList
  call := String.toList

theorem runs_checked {α : Type} {m : BuildM α} {b b' : Build} {a : α} (h : Runs m b a b') :
    Runs (do BuildM.checkDepth 0; m) b a b' :=
  runs_bind.2 ⟨(), b, runs_pure.2 ⟨rfl, rfl⟩, h⟩

theorem runs_placedText {b : Build} {c : CellId} {l : Location}
    (placed : (b.store.cell c).location = some l) (sheet : String)
    (inlined : Formula → BuildM String) :
    Runs (BuildM.placedText sheet inlined c) b (l.qualified sheet) b := by
  refine runs_bind.2 ⟨b, b, runs_get.2 ⟨rfl, rfl⟩, ?_⟩
  simp only [placed]
  exact runs_pure.2 ⟨rfl, rfl⟩

theorem runs_cellText {b : Build} {c : CellId} {l : Location}
    (placed : (b.store.cell c).location = some l) (sheet : String) (fuel depth : Nat) :
    Runs (BuildM.cellText sheet fuel depth c) b (l.qualified sheet) b := by
  cases fuel with
  | zero => exact runs_placedText placed sheet _
  | succ fuel => exact runs_placedText placed sheet _

theorem intercalate_texts (w : Spelling) (arg : Expr) (rest : List Expr) :
    (", ".intercalate ((arg :: rest).map fun e => String.ofList (w.text e))).toList =
      w.text arg ++ w.moreText rest := by
  induction rest generalizing arg with
  | nil => simp [Spelling.moreText]
  | cons next rest ih =>
      have others := ih next
      simp only [List.map_cons] at others ⊢
      rw [String.intercalate_cons_cons, String.toList_append, String.toList_append, others]
      simp [Spelling.moreText]

variable {b : Build} {place : Key → Location}

theorem renderAt_compiled (sheet : String) (fuel : Nat) {e : Expr} (h : e.Every Compiles)
    (placed : ∀ key ∈ e.refs, (b.store.cell (cellOf key)).location = some (place key)) :
    Runs (BuildM.renderAt (BuildM.cellText sheet fuel) sheet 0 (compiled cellOf e)) b
      (String.ofList ((spellingFor b sheet place).text e)) b := by
  induction e using Expr.inductionOn with
  | number x => exact runs_checked (runs_pure.2 ⟨by simp [CellValue.literal, Spelling.text], rfl⟩)
  | text s => exact runs_checked (runs_pure.2 ⟨by simp [CellValue.literal, Spelling.text], rfl⟩)
  | bool b => exact runs_checked (runs_pure.2 ⟨by simp [CellValue.literal, Spelling.text], rfl⟩)
  | ref key =>
      have := runs_cellText (placed key (by simp [Expr.refs])) sheet fuel 0
      exact runs_checked (by simpa [Spelling.text, spellingFor] using this)
  | index target key => exact h.self.elim
  | unary op operand ih =>
      rw [Expr.every_unary] at h
      refine runs_checked (runs_bind.2 ⟨_, b, ih h.2 placed, runs_pure.2 ⟨?_, rfl⟩⟩)
      rw [← String.toList_inj]
      cases op <;> simp [unaryText, Spelling.text, String.toList_append]
  | binary op lhs rhs ihl ihr =>
      rw [Expr.every_binary] at h
      have left := ihl h.2.1 fun key hkey => placed key (by simp [Expr.refs, hkey])
      have right := ihr h.2.2 fun key hkey => placed key (by simp [Expr.refs, hkey])
      refine runs_checked (runs_bind.2 ⟨_, b, left, runs_bind.2 ⟨_, b, right,
        runs_bind.2 ⟨b, b, runs_get.2 ⟨rfl, rfl⟩, runs_pure.2 ⟨?_, rfl⟩⟩⟩⟩)
      rw [← String.toList_inj]
      cases spacing : b.config.operatorSpacing <;>
        simp [binaryText, Spelling.text, Spelling.operator, Spelling.gap, spellingFor, spacing,
          String.toList_append]
  | call name args ih =>
      rw [Expr.every_call] at h
      have texts : ∀ rest : List Expr, (∀ arg ∈ rest, arg ∈ args) →
          Runs (BuildM.renderAll (BuildM.cellText sheet fuel) sheet 0 (compiledAll cellOf rest)) b
            (rest.map fun e => String.ofList ((spellingFor b sheet place).text e)) b := by
        intro rest hin
        induction rest with
        | nil => exact runs_pure.2 ⟨rfl, rfl⟩
        | cons arg rest ihrest =>
            have harg := hin arg (by simp)
            have first := ih arg harg (h.2 arg harg) fun key hkey =>
              placed key (refs_subset_of_mem harg name key hkey)
            exact runs_bind.2 ⟨_, b, first, runs_bind.2 ⟨_, b,
              ihrest fun y hy => hin y (by simp [hy]), runs_pure.2 ⟨rfl, rfl⟩⟩⟩
      refine runs_checked (runs_bind.2 ⟨_, b, texts args fun arg harg => harg,
        runs_pure.2 ⟨?_, rfl⟩⟩)
      rw [← String.toList_inj]
      cases args with
      | nil => simp [Spelling.text, spellingFor]
      | cons arg rest =>
          simp only [String.toList_append, intercalate_texts, Spelling.text, String.toList_ofList]
          simp [spellingFor]

/-! ## Reading what was written -/

/-- The name of a function as it is read back: names are read in upper case, the marker of newer
functions included. -/
def readName (name : String) : String :=
  if isKnownFunction name then name else "_XLFN." ++ name

/-- Whether a number of an expression is read from its own text. -/
def ReadsBack : Expr → Prop
  | .number x => Number.read (Number.literal x).toList = some x
  | _ => True

instance : DecidablePred ReadsBack
  | .number x => inferInstanceAs (Decidable (Number.read (Number.literal x).toList = some x))
  | .text _ | .bool _ | .ref _ | .index _ _ | .unary _ _ | .binary _ _ _ | .call _ _ =>
    .isTrue trivial

theorem upperName_markedName {name : String} (h : IsUpperName name.toList) :
    upperName (String.ofList (markedName isKnownFunction name)) = readName name := by
  have lower : name.toList.any Char.isLower = false := by
    rw [List.any_eq_false]
    intro c hc
    simp [h.2 c hc]
  have marker : futureMarker.toList.isPrefixOf name.toList = false := by
    rw [Bool.eq_false_iff]
    intro isPrefix
    obtain ⟨rest, hrest⟩ := List.isPrefixOf_iff_prefix.1 isPrefix
    have := h.2 'x' (by rw [← hrest]; simp [futureMarker])
    exact absurd this (by decide)
  have spelled := String.ofList_toList (s := name)
  rw [← String.toList_inj]
  simp only [upperName, markedName, needsMarker, lower, marker, spelled, readName,
    String.toList_ofList]
  cases isKnownFunction name with
  | true => simp [map_toUpper_of_isUpperName h]
  | false =>
      simp [map_toUpper_of_isUpperName h, String.toList_append]
      rfl

theorem written_congr {reference : Key → String} {call call' : String → String} {e : Expr}
    (h : e.Every Expr.Spelled) (same : ∀ name, IsUpperName name.toList → call name = call' name) :
    written reference call e = written reference call' e := by
  induction e using Expr.inductionOn with
  | number x => rfl
  | text s => rfl
  | bool b => rfl
  | ref key => rfl
  | index target key ih =>
      rw [Expr.every_index] at h
      rw [written, written, ih h.2]
  | unary op operand ih =>
      rw [Expr.every_unary] at h
      cases op <;> rw [written, written, ih h.2] <;> simp
  | binary op lhs rhs ihl ihr =>
      rw [Expr.every_binary] at h
      rw [written, written, ihl h.2.1, ihr h.2.2]
  | call name args ih =>
      rw [Expr.every_call] at h
      rw [written, written, writtenAll_eq_map, writtenAll_eq_map, same name h.1]
      congr 1
      exact List.map_congr_left fun arg harg => ih arg harg (h.2 arg harg)

theorem written_refs {e : Expr} {reference reference' : Key → String} {call : String → String}
    (same : ∀ key ∈ e.refs, reference key = reference' key) :
    written reference call e = written reference' call e := by
  induction e using Expr.inductionOn with
  | number x => rfl
  | text s => rfl
  | bool b => rfl
  | ref key => rw [written, written, same key (by simp [Expr.refs])]
  | index target key ih => rw [written, written, ih same]
  | unary op operand ih => cases op <;> rw [written, written, ih same] <;> simp
  | binary op lhs rhs ihl ihr =>
      rw [written, written, ihl fun key hkey => same key (by simp [Expr.refs, hkey]),
        ihr fun key hkey => same key (by simp [Expr.refs, hkey])]
  | call name args ih =>
      rw [written, written, writtenAll_eq_map, writtenAll_eq_map]
      congr 1
      exact List.map_congr_left fun arg harg =>
        ih arg harg fun key hkey => same key (refs_subset_of_mem harg name key hkey)

theorem covers_of_compiles {w : Spelling} {place : Key → Location} {sheet : String}
    (references : ∀ key, w.reference key = ((place key).qualified sheet).toList) {e : Expr}
    (h : Compiles e) (spelled : e.Spelled) : w.Covers e := by
  cases e with
  | number x => exact atom_number spelled h
  | ref key =>
      rw [Spelling.Covers, references]
      exact atom_qualified _ _
  | index target key => exact h.elim
  | call name args => exact spelled
  | _ => trivial

theorem reads_of_compiles {w : Spelling} {place : Key → Location} {sheet : String}
    (references : ∀ key, w.reference key = ((place key).qualified sheet).toList) {e : Expr}
    (h : Compiles e) (spelled : e.Spelled)
    (roundTrip : ReadsBack e) :
    w.Reads e ∧ w.Refers e := by
  cases e with
  | number x =>
      obtain ⟨d, hd⟩ := Number.literal_of_unsigned spelled h
      obtain ⟨nonempty, chars⟩ := Number.positional_chars d
      rw [← hd] at nonempty chars
      exact ⟨lexesTo_number nonempty chars roundTrip, trivial⟩
  | ref key =>
      have lexed := lexesTo_qualified (place key) sheet
      constructor
      · simpa [Spelling.Reads, references] using lexed
      · simpa [Spelling.Refers, references] using isReference_qualified (place key) sheet
  | _ => exact ⟨trivial, trivial⟩

/-- The text that is written for the formula of an expression is read as the expression. -/
theorem runs_formulaText_compiled {e : Expr} (spelled : e.Every Expr.Spelled)
    (compiles : e.Every Compiles) (compound : IsCompound e) (roundTrip : e.Every ReadsBack)
    (placed : ∀ key ∈ e.refs, (b.store.cell (cellOf key)).location = some (place key))
    (sheet : String) :
    ∃ text, Runs (BuildM.formulaText sheet (compiled cellOf e)) b (String.ofList ('=' :: text)) b ∧
      readFormula text = some (written (fun key => (place key).qualified sheet) readName e) := by
  let w := spellingFor b sheet place
  let marked := w.marked isKnownFunction
  have covers : e.Every w.Covers := fun part hpart =>
    covers_of_compiles (fun _ => rfl) (compiles part hpart) (spelled part hpart)
  have coversMarked : e.Every marked.Covers := fun part hpart =>
    covers_of_compiles (fun _ => rfl) (compiles part hpart) (spelled part hpart)
  have facts : ∀ part ∈ e.parts, marked.Reads part ∧ marked.Refers part :=
    fun part hpart => reads_of_compiles (fun _ => rfl) (compiles part hpart) (spelled part hpart)
      (roundTrip part hpart)
  have plain : w.NamesCalls := fun name _ => .inl rfl
  refine ⟨marked.outerText e, ?_, ?_⟩
  · have rendered := renderAt_compiled sheet (inlineLimit + 2) compiles placed
    refine runs_bind.2 ⟨_, b, rendered, runs_pure.2 ⟨?_, rfl⟩⟩
    rw [String.toList_ofList, stripOuterParens_text plain covers compound,
      collapseSeparators_outerText plain covers,
      markFutureFunctions_outerText isKnownFunction (fun _ => rfl) covers]
  · have read := readFormula_outerText (namesCalls_marked w isKnownFunction) coversMarked
      (fun part hpart => (facts part hpart).1) fun part hpart => (facts part hpart).2
    have references : (fun key => String.ofList (marked.reference key)) =
        fun key => (place key).qualified sheet := by
      funext key
      exact String.ofList_toList
    rw [read, Spelling.reading, references]
    exact congrArg some (written_congr spelled fun name hname => upperName_markedName hname)

/-- An expression of a template whose keys name placed cells becomes one formula, and the text that
is written for the formula is read as the expression: keys are shown as the references of their
cells, newer functions carry their marker, and a percent sign goes behind the sign it was applied
to. -/
theorem compiled_reads_back {template : String} {p : Prepared}
    (prepared : prepare template = .ok p) (compiles : p.ast.Every Compiles)
    (compound : IsCompound p.ast)
    (roundTrip : p.ast.Every ReadsBack)
    {bound : List (Key × Element)} {cellOf : Key → CellId}
    (names : ∀ key ∈ p.ast.refs, bound.lookup key = some (.cell (cellOf key)))
    {b : Build} {place : Key → Location}
    (placed : ∀ key ∈ p.ast.refs, (b.store.cell (cellOf key)).location = some (place key))
    (s : Store) (sheet : String) :
    ∃ formula text,
      Scope.eval ⟨s, bound, p.source, some .scalar⟩ p.ast = .ok (.grid (.scalar formula)) ∧
        Runs (BuildM.formulaText sheet formula) b (String.ofList ('=' :: text)) b ∧
        readFormula text =
          some (written (fun key => (place key).qualified sheet) readName p.ast) := by
  have spelled := prepare_spelled prepared
  obtain ⟨v, hv, denotes⟩ := @eval_compiled cellOf ⟨s, bound, p.source, some .scalar⟩ rfl _
    (fun part hpart => (compiles part hpart).composes) spelled names
  obtain rfl := denotes.eq_scalar compound
  obtain ⟨text, runs, read⟩ :=
    runs_formulaText_compiled spelled compiles compound roundTrip placed sheet
  exact ⟨compiled cellOf p.ast, text, hv, runs, read⟩

/-- A build with the cells `A1` and `B2` on a sheet whose name needs quotes. -/
private def placedCells : Build where
  store := { cells :=
    ⟨#[{ location := some ⟨"Year's", 0, 0⟩ }, { location := some ⟨"Year's", 1, 1⟩ }]⟩ }

theorem compiled_reads_back_sum : ∃ p, prepare "(-([price] + 1.5))% * sum([0])" = .ok p ∧
    ∃ formula text,
      Scope.eval ⟨{}, [(.name "price", .cell ⟨0⟩), (.position 0, .cell ⟨1⟩)], p.source,
          some .scalar⟩ p.ast = .ok (.grid (.scalar formula)) ∧
        Runs (BuildM.formulaText "Data" formula) placedCells (String.ofList ('=' :: text))
          placedCells ∧
        readFormula text =
          some (written (fun key => if key = .name "price" then "'Year''s'!A1" else "'Year''s'!B2")
            readName p.ast) := by
  have sample : ∃ p, prepare "(-([price] + 1.5))% * sum([0])" = .ok p ∧
      (p.ast.Every Compiles ∧ IsCompound p.ast ∧ p.ast.Every ReadsBack ∧
        p.ast.refs = [.name "price", .position 0]) := by
    decide +kernel
  obtain ⟨p, prepared, compiles, compound, roundTrip, refs⟩ := sample
  have names : ∀ key ∈ p.ast.refs,
      [(Key.name "price", Element.cell ⟨0⟩), (.position 0, .cell ⟨1⟩)].lookup key =
        some (.cell (if key = .name "price" then ⟨0⟩ else ⟨1⟩)) := by
    simp [refs]
    rfl
  have placed : ∀ key ∈ p.ast.refs,
      (placedCells.store.cell (if key = .name "price" then ⟨0⟩ else ⟨1⟩)).location =
        some (if key = .name "price" then ⟨"Year's", 0, 0⟩ else ⟨"Year's", 1, 1⟩) := by
    rw [refs]
    decide
  have shown : (fun key => (if key = Key.name "price" then (⟨"Year's", 0, 0⟩ : Location)
        else ⟨"Year's", 1, 1⟩).qualified "Data") =
      fun key => if key = .name "price" then "'Year''s'!A1" else "'Year''s'!B2" := by
    funext key
    split <;> decide +kernel
  have found :=
    compiled_reads_back prepared compiles compound roundTrip names placed {} "Data"
  rw [shown] at found
  exact ⟨p, prepared, found⟩

end Spreadsheet.Formula

import Spreadsheet.Proofs.Formula.Tokens

/-!
# Reading a written expression back

The tokens of a written expression are read as the expression that was meant.  Operations with two
operands stand in parentheses, so no precedence is needed to tell what belongs together; only signs
and percent signs do not, and a percent sign applied to a sign is read as a sign applied to it.
-/

namespace Spreadsheet.Formula

open Spreadsheet.Template

/-! ## The expression that is read -/

/-- A percent sign behind an expression: signs in front of it apply afterwards. -/
def percentOf : Expr → Expr
  | .unary .neg operand => .unary .neg (percentOf operand)
  | .unary .plus operand => .unary .plus (percentOf operand)
  | e => .unary .percent e

mutual

/-- The expression that a formula shows for an expression, given what stands for each key and under
which name each function is called. -/
def written (reference : Key → String) (call : String → String) : Expr → Expr
  | .number x => .number x
  | .text s => .text s
  | .bool b => .bool b
  | .ref key => .ref (.name (reference key))
  | .index target key => .index (written reference call target) key
  | .unary .percent operand => percentOf (written reference call operand)
  | .unary op operand => .unary op (written reference call operand)
  | .binary op lhs rhs => .binary op (written reference call lhs) (written reference call rhs)
  | .call name args => .call (call name) (writtenAll reference call args)

/-- The expressions that a formula shows for several. -/
def writtenAll (reference : Key → String) (call : String → String) : List Expr → List Expr
  | [] => []
  | arg :: rest => written reference call arg :: writtenAll reference call rest

end

/-- Several percent signs behind an expression. -/
def percents : Nat → Expr → Expr
  | 0, e => e
  | n + 1, e => percents n (percentOf e)

theorem percents_neg (n : Nat) (e : Expr) :
    percents n (.unary .neg e) = .unary .neg (percents n e) := by
  induction n generalizing e with
  | zero => rfl
  | succ n ih => exact ih (percentOf e)

theorem percents_plus (n : Nat) (e : Expr) :
    percents n (.unary .plus e) = .unary .plus (percents n e) := by
  induction n generalizing e with
  | zero => rfl
  | succ n ih => exact ih (percentOf e)

/-- Whether an expression is a sign and its operand. -/
def IsSign : Expr → Prop
  | .unary .neg _ | .unary .plus _ => True
  | _ => False

theorem percentOf_of_not_isSign {e : Expr} (h : ¬IsSign e) :
    percentOf e = .unary .percent e := by
  unfold percentOf
  split
  · exact absurd trivial h
  · exact absurd trivial h
  · rfl

/-! ## Levels of operators -/

/-- Whether an operand is complete in front of tokens, where the given operators would go on. -/
def Ends (ops : List BinaryOp) (ts : List Placed) : Prop :=
  ∀ t ∈ ts.head?, t.token = .closeParen ∨ t.token = .comma ∨
    ∃ op, t.token = .operator op ∧ op ∉ ops

/-- Whether a parser takes exactly the given tokens for an expression, wherever none of the given
operators follows. -/
def Parses (ops : List BinaryOp) (p : Parser Expr) (ts : List Placed) (e : Expr) : Prop :=
  ∀ rest, Ends ops rest → p (ts ++ rest) = .ok (e, rest)

theorem ends_nil (ops : List BinaryOp) : Ends ops [] := by
  intro t ht
  cases ht

theorem ends_closeParen (ops : List BinaryOp) (rest : List Placed) :
    Ends ops (unplaced .closeParen :: rest) := by
  intro t ht
  cases ht
  exact .inl rfl

theorem ends_comma (ops : List BinaryOp) (rest : List Placed) :
    Ends ops (unplaced .comma :: rest) := by
  intro t ht
  cases ht
  exact .inr (.inl rfl)

theorem ends_operator {op : BinaryOp} {ops : List BinaryOp} (h : op ∉ ops) (rest : List Placed) :
    Ends ops (unplaced (.operator op) :: rest) := by
  intro t ht
  cases ht
  exact .inr (.inr ⟨op, rfl, h⟩)

theorem Ends.mono {ops ops' : List BinaryOp} {ts : List Placed} (h : Ends ops ts)
    (sub : ∀ op ∈ ops', op ∈ ops) : Ends ops' ts := by
  intro t ht
  rcases h t ht with h | h | ⟨op, h, other⟩
  · exact .inl h
  · exact .inr (.inl h)
  · exact .inr (.inr ⟨op, h, fun hop => other (sub op hop)⟩)

theorem chain_ends {ops : List BinaryOp} {ts : List Placed} (h : Ends ops ts)
    (operand : Parser Expr) (fuel : Nat) (lhs : Expr) :
    chain ops operand fuel lhs ts = .ok (lhs, ts) := by
  unfold chain
  split
  · rfl
  · rename_i op start rest
    rcases h _ rfl with h | h | ⟨op', same, other⟩
    · cases h
    · cases h
    · cases same
      rw [if_neg (by simpa using other)]
  · rfl

variable {operand : Parser Expr} {below ops : List BinaryOp} {ts us : List Placed} {e f : Expr}

theorem level_parses (h : Parses below operand ts e) (ops : List BinaryOp) (fuel : Nat) :
    Parses (ops ++ below) (level ops operand fuel) ts e := by
  intro rest ends
  have first := h rest (ends.mono fun op hop => List.mem_append_right _ hop)
  have loose : Ends ops rest := ends.mono fun op hop => List.mem_append_left _ hop
  rw [level, first]
  exact chain_ends loose operand fuel e

theorem level_binary {op : BinaryOp} (here : op ∈ ops) (notBelow : op ∉ below)
    (hl : Parses below operand ts e) (hr : Parses below operand us f) (fuel : Nat) :
    Parses (ops ++ below) (level ops operand (fuel + 1))
      (ts ++ unplaced (.operator op) :: us) (.binary op e f) := by
  intro rest ends
  have first := hl (unplaced (.operator op) :: (us ++ rest)) (ends_operator notBelow _)
  have second := hr rest (ends.mono fun op hop => List.mem_append_right _ hop)
  have loose : Ends ops rest := ends.mono fun op hop => List.mem_append_left _ hop
  have contained : ops.contains op = true := by simpa using here
  rw [List.append_assoc, List.cons_append, level, first]
  show (if ops.contains op then _ else _) = _
  rw [if_pos contained, second]
  exact chain_ends loose operand fuel (.binary op e f)

/-- The operators of all levels, loosest first. -/
def allOperators : List BinaryOp :=
  [BinaryOp.eq, BinaryOp.ne, BinaryOp.lt, BinaryOp.gt, BinaryOp.le, BinaryOp.ge] ++
    ([BinaryOp.concat] ++ ([BinaryOp.add, BinaryOp.sub] ++
      ([BinaryOp.mul, BinaryOp.div] ++ ([BinaryOp.pow] ++ []))))

theorem operators_parses (h : Parses [] (signed operand) ts e) (fuel : Nat) :
    Parses allOperators (operators operand fuel) ts e := by
  have powers := level_parses h [.pow] fuel
  have terms := level_parses powers [.mul, .div] fuel
  have sums := level_parses terms [.add, .sub] fuel
  have texts := level_parses sums [.concat] fuel
  exact level_parses texts [.eq, .ne, .lt, .gt, .le, .ge] fuel

/-- An operation whose operands need no parentheses is read at the level of its operator. -/
theorem operators_binary (op : BinaryOp) (hl : Parses [] (signed operand) ts e)
    (hr : Parses [] (signed operand) us f) (fuel : Nat) :
    Parses allOperators (operators operand (fuel + 1))
      (ts ++ unplaced (.operator op) :: us) (.binary op e f) := by
  have power (h : op ∈ [BinaryOp.pow]) :
      Parses allOperators (operators operand (fuel + 1))
        (ts ++ unplaced (.operator op) :: us) (.binary op e f) :=
    level_parses (level_parses (level_parses (level_parses
      (level_binary h (by simp) hl hr fuel) _ _) _ _) _ _) _ _
  have lpow := level_parses hl [.pow] (fuel + 1)
  have rpow := level_parses hr [.pow] (fuel + 1)
  have lterm := level_parses lpow [.mul, .div] (fuel + 1)
  have rterm := level_parses rpow [.mul, .div] (fuel + 1)
  have lsum := level_parses lterm [.add, .sub] (fuel + 1)
  have rsum := level_parses rterm [.add, .sub] (fuel + 1)
  have ltext := level_parses lsum [.concat] (fuel + 1)
  have rtext := level_parses rsum [.concat] (fuel + 1)
  have term (h : op ∈ [BinaryOp.mul, .div]) (tight : op ∉ [BinaryOp.pow] ++ []) :
      Parses allOperators (operators operand (fuel + 1))
        (ts ++ unplaced (.operator op) :: us) (.binary op e f) :=
    level_parses (level_parses (level_parses
      (level_binary h tight lpow rpow fuel) _ _) _ _) _ _
  have sum (h : op ∈ [BinaryOp.add, .sub])
      (tight : op ∉ [BinaryOp.mul, .div] ++ ([BinaryOp.pow] ++ [])) :
      Parses allOperators (operators operand (fuel + 1))
        (ts ++ unplaced (.operator op) :: us) (.binary op e f) :=
    level_parses (level_parses (level_binary h tight lterm rterm fuel) _ _) _ _
  cases op with
  | pow => exact power (by simp)
  | mul => exact term (by simp) (by simp)
  | div => exact term (by simp) (by simp)
  | add => exact sum (by simp) (by simp)
  | sub => exact sum (by simp) (by simp)
  | concat => exact level_parses (level_binary (by simp) (by simp) lsum rsum fuel) _ _
  | eq => exact level_binary (by simp) (by simp) ltext rtext fuel
  | ne => exact level_binary (by simp) (by simp) ltext rtext fuel
  | lt => exact level_binary (by simp) (by simp) ltext rtext fuel
  | gt => exact level_binary (by simp) (by simp) ltext rtext fuel
  | le => exact level_binary (by simp) (by simp) ltext rtext fuel
  | ge => exact level_binary (by simp) (by simp) ltext rtext fuel

/-! ## Operands -/

/-- Whether neither arguments nor an index follow. -/
def Follows (ts : List Placed) : Prop :=
  ∀ t ∈ ts.head?, t.token ≠ .openParen ∧ t.token ≠ .openBracket

/-- The tokens of several percent signs. -/
def percentTokens (n : Nat) : List Placed :=
  List.replicate n (unplaced .percent)

theorem follows_of_ends {rest : List Placed} (h : Ends [] rest) : Follows rest := by
  intro t ht
  rcases h t ht with h | h | ⟨op, h, -⟩ <;> rw [h] <;> exact ⟨by simp, by simp⟩

theorem follows_percentTokens {rest : List Placed} (h : Ends [] rest) (n : Nat) :
    Follows (percentTokens n ++ rest) := by
  cases n with
  | zero => exact follows_of_ends h
  | succ n =>
      intro t ht
      cases ht
      exact ⟨by simp [unplaced], by simp [unplaced]⟩

theorem suffixes_ends {rest : List Placed} (h : Ends [] rest) (e : Expr) :
    suffixes e rest = .ok (e, rest) := by
  unfold suffixes
  split
  · rcases h _ rfl with h | h | ⟨op, h, -⟩ <;> cases h
  · rcases h _ rfl with h | h | ⟨op, h, -⟩ <;> cases h
  · rfl

theorem suffixes_percentTokens {rest : List Placed} (ends : Ends [] rest) (plain : ¬IsSign e)
    (n : Nat) : suffixes e (percentTokens n ++ rest) = .ok (percents n e, rest) := by
  induction n generalizing e with
  | zero => exact suffixes_ends ends e
  | succ n ih =>
      have step : suffixes e (percentTokens (n + 1) ++ rest) =
          suffixes (.unary .percent e) (percentTokens n ++ rest) := by
        rw [percentTokens, List.replicate_succ, List.cons_append, unplaced, suffixes]
        rfl
      rw [step, ih id, percents, percentOf_of_not_isSign plain]

/-- An operand without a sign, with percent signs behind it. -/
theorem operand_parses {inner : Parser Expr} {fuel n : Nat} {t : Placed} (plain : ¬IsSign e)
    (unsigned : t.token ≠ .operator .sub ∧ t.token ≠ .operator .add)
    (reads : ∀ rest, Follows rest → cellPrimary inner fuel (t :: (ts ++ rest)) = .ok (e, rest)) :
    Parses [] (signed (cellSuffixed inner fuel)) (t :: ts ++ percentTokens n) (percents n e) := by
  intro rest ends
  have first := reads _ (follows_percentTokens ends n)
  have passed : signed (cellSuffixed inner fuel) (t :: (ts ++ (percentTokens n ++ rest))) =
      cellSuffixed inner fuel (t :: (ts ++ (percentTokens n ++ rest))) := by
    unfold signed
    split
    · rename_i same
      obtain ⟨rfl, -⟩ := List.cons.inj same
      exact absurd rfl unsigned.1
    · rename_i same
      obtain ⟨rfl, -⟩ := List.cons.inj same
      exact absurd rfl unsigned.2
    · rfl
  rw [List.append_assoc, List.cons_append, passed, cellSuffixed, first]
  exact suffixes_percentTokens ends plain n

/-! ## Whole expressions -/

/-- Whether the keys of an expression are spelled as references of cells. -/
def Spelling.Refers (w : Spelling) : Expr → Prop
  | .ref key => isReference (w.reference key) = true
  | _ => True

/-- The expression that is read for an expression. -/
def Spelling.reading (w : Spelling) : Expr → Expr :=
  written (fun key => String.ofList (w.reference key))
    fun name => upperName (String.ofList (w.call name))

variable {w : Spelling}

theorem cellPrimary_name {inner : Parser Expr} {fuel start : Nat} {text : String}
    {rest : List Placed} (follows : Follows rest) :
    cellPrimary inner fuel (⟨.name text, start⟩ :: rest) =
      if isReference text.toList then .ok (.ref (.name text), rest)
      else named inner fuel text start rest := by
  unfold cellPrimary
  split
  · rename_i same
    obtain ⟨-, rfl⟩ := List.cons.inj same
    exact absurd rfl (follows _ rfl).1
  · rename_i same
    cases same
    rfl
  · rename_i none
    exact absurd rfl (none _ _ _)

theorem named_follows {inner : Parser Expr} {fuel start : Nat} {name : String}
    {rest : List Placed} (follows : Follows rest) :
    named inner fuel name start rest = named.constant name start rest := by
  unfold named
  split
  · exact absurd rfl (follows _ rfl).2
  · exact absurd rfl (follows _ rfl).1
  · rfl

theorem tokens_head (w : Spelling) (hi : e.Every w.Covers) :
    ∃ t ts, w.tokens e = t :: ts ∧ t ≠ .closeParen := by
  induction e using Expr.inductionOn with
  | number x => exact ⟨_, _, rfl, by simp⟩
  | text s => exact ⟨_, _, rfl, by simp⟩
  | bool b => exact ⟨_, _, rfl, by simp⟩
  | ref key => exact ⟨_, _, rfl, by simp⟩
  | index target key => exact hi.self.elim
  | unary op operand ih =>
      rw [Expr.every_unary] at hi
      obtain ⟨t, ts, ht, other⟩ := ih hi.2
      cases op with
      | neg => exact ⟨_, _, rfl, by simp⟩
      | plus => exact ⟨_, _, rfl, by simp⟩
      | percent => exact ⟨t, ts ++ [.percent], by simp [Spelling.tokens, ht], other⟩
  | binary op lhs rhs => exact ⟨_, _, rfl, by simp⟩
  | call name args =>
      cases args with
      | nil => exact ⟨_, _, rfl, by simp⟩
      | cons arg rest => exact ⟨_, _, rfl, by simp⟩

/-- An expression in parentheses, or as an argument, is read with less fuel. -/
theorem inner_parses {fuel : Nat} (short : (w.tokens e).length < fuel)
    (reads : ∀ fuel n, (w.tokens e).length ≤ fuel →
      Parses [] (signed (cellSuffixed (cellExpression fuel) fuel))
        ((w.tokens e).map unplaced ++ percentTokens n) (percents n (w.reading e))) :
    Parses allOperators (cellExpression fuel) ((w.tokens e).map unplaced) (w.reading e) := by
  cases fuel with
  | zero => omega
  | succ fuel =>
      have whole := reads fuel 0 (by omega)
      rw [percentTokens, List.replicate_zero, List.append_nil] at whole
      exact operators_parses whole fuel

theorem moreTokens_parse {inner : Parser Expr} {args : List Expr}
    (reads : ∀ arg ∈ args, Parses allOperators inner ((w.tokens arg).map unplaced) (w.reading arg))
    {fuel : Nat} (short : args.length ≤ fuel) (done : List Expr) (rest : List Placed) :
    moreArguments inner fuel done
        ((w.moreTokens args ++ [Token.closeParen]).map unplaced ++ rest) =
      .ok (done ++ args.map w.reading, rest) := by
  induction args generalizing fuel done with
  | nil =>
      simp only [Spelling.moreTokens, List.nil_append, List.map_nil, List.append_nil]
      unfold moreArguments
      split
      · rename_i same
        cases same
      · rfl
  | cons arg args ih =>
      cases fuel with
      | zero => simp at short
      | succ fuel =>
          have next : Ends allOperators
              ((w.moreTokens args ++ [Token.closeParen]).map unplaced ++ rest) := by
            cases args with
            | nil => exact ends_closeParen _ _
            | cons _ _ => exact ends_comma _ _
          have first := reads arg (by simp) _ next
          have fewer : args.length ≤ fuel := by simpa using short
          have others := ih (fun x hx => reads x (by simp [hx])) fewer (done ++ [w.reading arg])
          simp only [Spelling.moreTokens, List.cons_append, List.append_assoc, List.map_cons,
            List.map_append] at first others ⊢
          rw [unplaced, moreArguments, first]
          show moreArguments inner fuel (done ++ [w.reading arg]) _ = _
          simpa using others

theorem writtenAll_eq_map (reference : Key → String) (call : String → String) (args : List Expr) :
    writtenAll reference call args = args.map (written reference call) := by
  induction args with
  | nil => rfl
  | cons arg rest ih => rw [writtenAll, ih, List.map_cons]

theorem length_moreTokens (w : Spelling) (args : List Expr) :
    args.length ≤ (w.moreTokens args).length := by
  induction args with
  | nil => exact Nat.zero_le _
  | cons arg rest ih =>
      simp only [Spelling.moreTokens, List.length_cons, List.length_append]
      omega

theorem length_tokens_le_moreTokens (w : Spelling) {arg : Expr} {args : List Expr}
    (h : arg ∈ args) : (w.tokens arg).length ≤ (w.moreTokens args).length := by
  induction args with
  | nil => cases h
  | cons head rest ih =>
      simp only [Spelling.moreTokens, List.length_cons, List.length_append]
      rcases List.mem_cons.1 h with rfl | h
      · omega
      · have := ih h
        omega

theorem length_tokens_lt_call (w : Spelling) {name : String} {arg : Expr} {args : List Expr}
    (h : arg ∈ args) : (w.tokens arg).length < (w.tokens (.call name args)).length := by
  cases args with
  | nil => cases h
  | cons head rest =>
      simp only [Spelling.tokens, List.length_cons, List.length_append]
      rcases List.mem_cons.1 h with rfl | h
      · omega
      · have := length_tokens_le_moreTokens w h
        omega

theorem call_parses {name : String} {args : List Expr} {fuel : Nat}
    (covers : ∀ arg ∈ args, arg.Every w.Covers)
    (reads : ∀ arg ∈ args,
      Parses allOperators (cellExpression fuel) ((w.tokens arg).map unplaced) (w.reading arg))
    (short : (w.tokens (.call name args)).length ≤ fuel) (n : Nat) :
    Parses [] (signed (cellSuffixed (cellExpression fuel) fuel))
      ((w.tokens (.call name args)).map unplaced ++ percentTokens n)
      (percents n (w.reading (.call name args))) := by
  have shown : w.reading (.call name args) =
      Expr.call (upperName (String.ofList (w.call name))) (args.map w.reading) := by
    rw [Spelling.reading, written, writtenAll_eq_map]
  rw [shown]
  cases args with
  | nil =>
      refine operand_parses id (by simp [unplaced]) fun rest _ => ?_
      rfl
  | cons arg args =>
      refine operand_parses id (by simp [unplaced]) fun rest _ => ?_
      have next : Ends allOperators
          ((w.moreTokens args ++ [Token.closeParen]).map unplaced ++ rest) := by
        cases args with
        | nil => exact ends_closeParen _ _
        | cons _ _ => exact ends_comma _ _
      have first := reads arg (by simp) _ next
      have fewer : args.length ≤ fuel := by
        have := length_moreTokens w args
        simp only [Spelling.tokens, List.length_cons, List.length_append] at short
        omega
      have others := moreTokens_parse (fun x hx => reads x (by simp [hx])) fewer [w.reading arg] rest
      obtain ⟨t, ts, ht, other⟩ := tokens_head w (covers arg (by simp))
      have grouped : (w.tokens arg ++ (w.moreTokens args ++ [Token.closeParen])).map unplaced ++ rest =
          (w.tokens arg).map unplaced ++
            ((w.moreTokens args ++ [Token.closeParen]).map unplaced ++ rest) := by
        simp
      have opened : arguments (cellExpression fuel) fuel
          ((w.tokens arg ++ (w.moreTokens args ++ [Token.closeParen])).map unplaced ++ rest) =
          .ok ((arg :: args).map w.reading, rest) := by
        rw [grouped]
        rw [ht] at first ⊢
        unfold arguments
        split
        · rename_i same
          obtain ⟨same, -⟩ := List.cons.inj same
          exact absurd (congrArg Placed.token same) other
        · exact bind_eq_ok_iff.2 ⟨_, first, others⟩
      exact bind_eq_ok_iff.2 ⟨_, opened, rfl⟩

/-- The tokens of an expression are read as the expression, percent signs behind it included. -/
theorem tokens_parse (h : e.Every w.Covers) (refers : e.Every w.Refers) {fuel : Nat}
    (short : (w.tokens e).length ≤ fuel) (n : Nat) :
    Parses [] (signed (cellSuffixed (cellExpression fuel) fuel))
      ((w.tokens e).map unplaced ++ percentTokens n) (percents n (w.reading e)) := by
  induction e using Expr.inductionOn generalizing fuel n with
  | number x => exact operand_parses id (by simp [unplaced]) fun rest _ => rfl
  | text s => exact operand_parses id (by simp [unplaced]) fun rest _ => rfl
  | bool b =>
      refine operand_parses id (by simp [unplaced]) fun rest follows => ?_
      obtain ⟨notCell, value⟩ : isReference (CellValue.boolText b).toList = false ∧
          named (cellExpression fuel) fuel (CellValue.boolText b) 0 rest =
            named.constant (CellValue.boolText b) 0 rest := by
        constructor
        · cases b <;> rfl
        · exact named_follows follows
      rw [unplaced, List.map_nil, List.nil_append, cellPrimary_name follows, notCell, value]
      cases b <;> rfl
  | ref key =>
      refine operand_parses id (by simp [unplaced]) fun rest follows => ?_
      have refers : isReference (w.reference key) = true := refers.self
      rw [unplaced, List.map_nil, List.nil_append, cellPrimary_name follows,
        String.toList_ofList, if_pos refers]
      rfl
  | index target key => exact h.self.elim
  | unary op operand ih =>
      rw [Expr.every_unary] at h refers
      cases op with
      | neg =>
          intro rest ends
          simp only [Spelling.tokens, List.length_cons] at short
          have inner := ih h.2 refers.2 (Nat.le_of_succ_le short) n rest ends
          rw [Spelling.tokens, List.map_cons, List.cons_append, List.cons_append, unplaced, signed,
            inner]
          exact congrArg (fun e => Except.ok (e, rest)) (percents_neg n _).symm
      | plus =>
          intro rest ends
          simp only [Spelling.tokens, List.length_cons] at short
          have inner := ih h.2 refers.2 (Nat.le_of_succ_le short) n rest ends
          rw [Spelling.tokens, List.map_cons, List.cons_append, List.cons_append, unplaced, signed,
            inner]
          exact congrArg (fun e => Except.ok (e, rest)) (percents_plus n _).symm
      | percent =>
          simp only [Spelling.tokens, List.length_append] at short
          have more := ih h.2 refers.2 (Nat.le_of_succ_le short) (n + 1)
          rw [Spelling.tokens, List.map_append, List.append_assoc]
          exact more
  | binary op lhs rhs ihl ihr =>
      rw [Expr.every_binary] at h refers
      simp only [Spelling.tokens, List.length_cons, List.length_append, List.length_nil] at short
      cases fuel with
      | zero => omega
      | succ fuel =>
          have fewer : (w.tokens lhs).length ≤ fuel ∧ (w.tokens rhs).length ≤ fuel := by omega
          have left := ihl h.2.1 refers.2.1 fewer.1 0
          have right := ihr h.2.2 refers.2.2 fewer.2 0
          rw [percentTokens, List.replicate_zero, List.append_nil] at left right
          refine operand_parses id (by simp [unplaced]) fun rest _ => ?_
          have inner := operators_binary op left right (fuel - 1) _ (ends_closeParen _ rest)
          rw [Nat.sub_add_cancel (by omega)] at inner
          have grouped : (w.tokens lhs ++ Token.operator op :: (w.tokens rhs ++ [Token.closeParen])).map
              unplaced ++ rest = (w.tokens lhs).map unplaced ++
                unplaced (.operator op) :: (w.tokens rhs).map unplaced ++
                  unplaced .closeParen :: rest := by
            simp
          rw [← grouped] at inner
          exact bind_eq_ok_iff.2 ⟨_, inner, rfl⟩
  | call name args ih =>
      rw [Expr.every_call] at h refers
      refine call_parses h.2 (fun arg harg => ?_) short n
      refine inner_parses ?_ fun fuel n short => ih arg harg (h.2 arg harg) (refers.2 arg harg) short n
      exact Nat.lt_of_lt_of_le (length_tokens_lt_call w harg) short

/-- The tokens of an expression that is all of a formula are read as the expression. -/
theorem outerTokens_parse (h : e.Every w.Covers) (refers : e.Every w.Refers) :
    cellExpression (((w.outerTokens e).map unplaced).length + 1) ((w.outerTokens e).map unplaced) =
      .ok (w.reading e, []) := by
  have reads {e : Expr} (h : e.Every w.Covers) (refers : e.Every w.Refers) {fuel : Nat}
      (short : (w.tokens e).length ≤ fuel) :
      Parses [] (signed (cellSuffixed (cellExpression fuel) fuel)) ((w.tokens e).map unplaced)
        (w.reading e) := by
    simpa [percentTokens, percents] using tokens_parse h refers short 0
  have whole {e : Expr} (h : e.Every w.Covers) (refers : e.Every w.Refers) :
      cellExpression (((w.tokens e).map unplaced).length + 1) ((w.tokens e).map unplaced) =
        .ok (w.reading e, []) := by
    rw [List.length_map]
    have := operators_parses (reads h refers (Nat.le_refl _)) (w.tokens e).length [] (ends_nil _)
    rwa [List.append_nil] at this
  cases e with
  | binary op lhs rhs =>
      rw [Expr.every_binary] at h refers
      have length : ((w.outerTokens (.binary op lhs rhs)).map unplaced).length =
          (w.tokens lhs).length + (w.tokens rhs).length + 1 := by
        simp [Spelling.outerTokens]
        omega
      rw [length]
      have left := reads h.2.1 refers.2.1
        (show _ ≤ (w.tokens lhs).length + (w.tokens rhs).length + 1 by omega)
      have right := reads h.2.2 refers.2.2
        (show _ ≤ (w.tokens lhs).length + (w.tokens rhs).length + 1 by omega)
      have both := operators_binary op left right ((w.tokens lhs).length + (w.tokens rhs).length) []
        (ends_nil _)
      rw [List.append_nil] at both
      rw [Spelling.outerTokens, List.map_append, List.map_cons]
      exact both
  | _ => exact whole h refers

/-- The text of an expression that is all of a formula is read as the expression. -/
theorem readFormula_outerText (hw : w.NamesCalls) (h : e.Every w.Covers) (reads : e.Every w.Reads)
    (refers : e.Every w.Refers) : readFormula (w.outerText e) = some (w.reading e) := by
  have parsed := outerTokens_parse h refers
  simp only [readFormula, cellTokens_outerText hw h reads, Option.bind_eq_bind, Option.bind_some,
    parsed]

end Spreadsheet.Formula

import Spreadsheet.Template.Parser
import Spreadsheet.Proofs.Monad

/-!
# The grammar of expressions

What it means for a list of tokens to be an expression, level by level as the grammar is written
down, every level of operators with two operands grouping to the left.  The parser finds an
expression for exactly the lists of tokens that are one, and there is never more than one.
-/

namespace Spreadsheet.Template

/-! ## Derivations -/

/-- The levels of the grammar, loosest first. -/
inductive Level where
  | compare | concat | additive | term | power | unary | suffixed | primary

/-- The operators of a level, and the level of their operands. -/
def Level.operators? : Level → Option (List BinaryOp × Level)
  | .compare => some ([.eq, .ne, .lt, .gt, .le, .ge], .concat)
  | .concat => some ([.concat], .additive)
  | .additive => some ([.add, .sub], .term)
  | .term => some ([.mul, .div], .power)
  | .power => some ([.pow], .unary)
  | .unary | .suffixed | .primary => none

/-- Whether tokens are an expression at a level of the grammar. -/
inductive Derives : Level → List Token → Expr → Prop
  | operand {l m : Level} {ops : List BinaryOp} {ts : List Token} {e : Expr}
      (hl : l.operators? = some (ops, m)) (h : Derives m ts e) : Derives l ts e
  | operation {l m : Level} {ops : List BinaryOp} {op : BinaryOp} {ts us : List Token}
      {lhs rhs : Expr} (hl : l.operators? = some (ops, m)) (hop : op ∈ ops)
      (left : Derives l ts lhs) (right : Derives m us rhs) :
      Derives l (ts ++ .operator op :: us) (.binary op lhs rhs)
  | minus {ts : List Token} {e : Expr} (h : Derives .unary ts e) :
      Derives .unary (.operator .sub :: ts) (.unary .neg e)
  | plus {ts : List Token} {e : Expr} (h : Derives .unary ts e) :
      Derives .unary (.operator .add :: ts) (.unary .plus e)
  | unsigned {ts : List Token} {e : Expr} (h : Derives .suffixed ts e) : Derives .unary ts e
  | bare {ts : List Token} {e : Expr} (h : Derives .primary ts e) : Derives .suffixed ts e
  | index {ts : List Token} {e : Expr} {t : Token} {key : Key} (h : Derives .suffixed ts e)
      (ht : keyOf t = some key) :
      Derives .suffixed (ts ++ [.openBracket, t, .closeBracket]) (.index e key)
  | percent {ts : List Token} {e : Expr} (h : Derives .suffixed ts e) :
      Derives .suffixed (ts ++ [.percent]) (.unary .percent e)
  | number (x : Float) : Derives .primary [.number x] (.number x)
  | text (s : String) : Derives .primary [.literal s] (.text s)
  | truth {name : String} (h : upperName name = "TRUE") : Derives .primary [.name name] (.bool true)
  | falsity {name : String} (h : upperName name = "FALSE") :
      Derives .primary [.name name] (.bool false)
  | ref {t : Token} {key : Key} (ht : keyOf t = some key) :
      Derives .primary [.name reservedName, .openBracket, t, .closeBracket] (.ref key)
  | call (name : String) {args : List (List Token × Expr)}
      (h : ∀ arg ∈ args, Derives .compare arg.1 arg.2) :
      Derives .primary
        (.name name :: .openParen :: [.comma].intercalate (args.map (·.1)) ++ [.closeParen])
        (.call (upperName name) (args.map (·.2)))
  | parens {ts : List Token} {e : Expr} (h : Derives .compare ts e) :
      Derives .primary (.openParen :: ts ++ [.closeParen]) e

/-- The tokens of a list without their places. -/
def bareTokens (ts : List Placed) : List Token :=
  ts.map (·.token)

@[simp] theorem bareTokens_nil : bareTokens [] = [] :=
  rfl

@[simp] theorem bareTokens_cons (t : Placed) (ts : List Placed) :
    bareTokens (t :: ts) = t.token :: bareTokens ts :=
  rfl

@[simp] theorem bareTokens_append (ts us : List Placed) :
    bareTokens (ts ++ us) = bareTokens ts ++ bareTokens us :=
  List.map_append

@[simp] theorem length_bareTokens (ts : List Placed) : (bareTokens ts).length = ts.length :=
  List.length_map _

/-! ## What is parsed is derivable -/

/-- Whether what a parser takes derives what it makes. -/
def Sound {α : Type} (p : Parser α) (D : List Token → α → Prop) : Prop :=
  ∀ ⦃ts a rest⦄, p ts = .ok (a, rest) → ∃ used, ts = used ++ rest ∧ D (bareTokens used) a

section Soundness

variable {operand inner : Parser Expr} {e : Expr} {ts rest : List Placed}

theorem chain_sound {l m : Level} {ops : List BinaryOp} (hl : l.operators? = some (ops, m))
    (sound : Sound operand (Derives m)) {fuel : Nat} {lhs : Expr} {before : List Token}
    (hlhs : Derives l before lhs) (h : chain ops operand fuel lhs ts = .ok (e, rest)) :
    ∃ used, ts = used ++ rest ∧ Derives l (before ++ bareTokens used) e := by
  fun_induction chain ops operand fuel lhs ts generalizing before with
  | case1 lhs ts =>
      cases h
      exact ⟨[], rfl, by simpa using hlhs⟩
  | case2 fuel lhs op start tail contained ih =>
      obtain ⟨⟨rhs, after⟩, hr, next⟩ := bind_eq_ok_iff.1 h
      obtain ⟨used, rfl, right⟩ := sound hr
      have hop : op ∈ ops := by simpa using contained
      obtain ⟨more, rfl, derived⟩ := ih rhs after (.operation hl hop hlhs right) next
      exact ⟨⟨.operator op, start⟩ :: (used ++ more), by simp, by simpa using derived⟩
  | case3 fuel lhs op start tail contained =>
      cases h
      exact ⟨[], rfl, by simpa using hlhs⟩
  | case4 fuel lhs ts other =>
      cases h
      exact ⟨[], rfl, by simpa using hlhs⟩

theorem level_sound {l m : Level} {ops : List BinaryOp} (hl : l.operators? = some (ops, m))
    (sound : Sound operand (Derives m)) (fuel : Nat) :
    Sound (level ops operand fuel) (Derives l) := by
  intro ts e rest h
  obtain ⟨⟨lhs, after⟩, first, next⟩ := bind_eq_ok_iff.1 h
  obtain ⟨used, rfl, left⟩ := sound first
  obtain ⟨more, rfl, derived⟩ := chain_sound hl sound (.operand hl left) next
  exact ⟨used ++ more, by simp, by simpa using derived⟩

theorem signed_sound (sound : Sound operand (Derives .suffixed)) :
    Sound (signed operand) (Derives .unary) := by
  intro ts e rest h
  fun_induction signed operand ts generalizing e rest with
  | case1 start tail ih =>
      obtain ⟨⟨operand, after⟩, ho, h⟩ := bind_eq_ok_iff.1 h
      cases h
      obtain ⟨used, rfl, derived⟩ := ih ho
      exact ⟨⟨.operator .sub, start⟩ :: used, rfl, .minus derived⟩
  | case2 start tail ih =>
      obtain ⟨⟨operand, after⟩, ho, h⟩ := bind_eq_ok_iff.1 h
      cases h
      obtain ⟨used, rfl, derived⟩ := ih ho
      exact ⟨⟨.operator .add, start⟩ :: used, rfl, .plus derived⟩
  | case3 ts =>
      obtain ⟨used, rfl, derived⟩ := sound h
      exact ⟨used, rfl, .unsigned derived⟩

theorem suffixes_sound {target : Expr} {before : List Token}
    (htarget : Derives .suffixed before target) (h : suffixes target ts = .ok (e, rest)) :
    ∃ used, ts = used ++ rest ∧ Derives .suffixed (before ++ bareTokens used) e := by
  fun_induction suffixes target ts generalizing before with
  | case1 => cases h
  | case2 => cases h
  | case3 target start t key hkey close after ih =>
      obtain ⟨used, rfl, derived⟩ := ih (.index htarget hkey) h
      exact ⟨⟨.openBracket, start⟩ :: t :: ⟨.closeBracket, close⟩ :: used, rfl,
        by simpa using derived⟩
  | case4 => cases h
  | case5 target start tail ih =>
      obtain ⟨used, rfl, derived⟩ := ih (.percent htarget) h
      exact ⟨⟨.percent, start⟩ :: used, rfl, by simpa using derived⟩
  | case6 =>
      cases h
      exact ⟨[], rfl, by simpa using htarget⟩

theorem closeParen_sound {fault : Fault} (h : closeParen fault ts = .ok ((), rest)) :
    ∃ start, ts = ⟨.closeParen, start⟩ :: rest := by
  unfold closeParen at h
  split at h
  · cases h
    exact ⟨_, rfl⟩
  · cases h

theorem closeBracket_sound (h : closeBracket ts = .ok ((), rest)) :
    ∃ start, ts = ⟨.closeBracket, start⟩ :: rest := by
  unfold closeBracket at h
  split at h
  · cases h
    exact ⟨_, rfl⟩
  · cases h

/-- Whether tokens are the arguments of a call with the closing parenthesis behind them. -/
def DerivesArguments (ts : List Token) (es : List Expr) : Prop :=
  ∃ args : List (List Token × Expr), (∀ arg ∈ args, Derives .compare arg.1 arg.2) ∧
    ts = [.comma].intercalate (args.map (·.1)) ++ [.closeParen] ∧ es = args.map (·.2)

theorem intercalate_concat {α : Type} (sep : List α) {l : List (List α)} (h : l ≠ [])
    (a : List α) : sep.intercalate (l ++ [a]) = sep.intercalate l ++ sep ++ a := by
  induction l with
  | nil => exact absurd rfl h
  | cons b l ih =>
      cases l with
      | nil => simp
      | cons c l =>
          rw [List.cons_append, List.cons_append, List.intercalate_cons_cons, ← List.cons_append,
            ih (by simp), List.intercalate_cons_cons]
          simp

theorem moreArguments_sound (sound : Sound inner (Derives .compare)) {fuel : Nat}
    {args : List (List Token × Expr)} (hargs : ∀ arg ∈ args, Derives .compare arg.1 arg.2)
    (some_args : args ≠ []) {found : List Expr}
    (h : moreArguments inner fuel (args.map (·.2)) ts = .ok (found, rest)) :
    ∃ used, ts = used ++ rest ∧
      DerivesArguments ([.comma].intercalate (args.map (·.1)) ++ bareTokens used) found := by
  generalize same : args.map (·.2) = exprs at h
  fun_induction moreArguments inner fuel exprs ts generalizing args with
  | case1 fuel exprs start tail ih =>
      obtain ⟨⟨arg, after⟩, ha, next⟩ := bind_eq_ok_iff.1 h
      obtain ⟨used, rfl, derived⟩ := sound ha
      have hargs' : ∀ x ∈ args ++ [(bareTokens used, arg)], Derives .compare x.1 x.2 := by
        intro x hx
        rcases List.mem_append.1 hx with hx | hx
        · exact hargs x hx
        · rw [List.mem_singleton.1 hx]
          exact derived
      obtain ⟨more, rfl, found⟩ := ih arg after hargs' (by simp) (by simp [same]) next
      refine ⟨⟨.comma, start⟩ :: (used ++ more), by simp, ?_⟩
      rw [List.map_append, List.map_singleton, intercalate_concat _ (by simpa using some_args)]
        at found
      simpa using found
  | case2 fuel exprs ts other =>
      obtain ⟨⟨⟨⟩, after⟩, hc, next⟩ := bind_eq_ok_iff.1 h
      cases next
      obtain ⟨start, rfl⟩ := closeParen_sound hc
      exact ⟨[⟨.closeParen, start⟩], rfl, args, hargs, rfl, same.symm⟩

theorem arguments_sound (sound : Sound inner (Derives .compare)) (fuel : Nat) :
    Sound (arguments inner fuel) DerivesArguments := by
  intro ts found rest h
  unfold arguments at h
  split at h
  case h_1 start tail =>
    cases h
    exact ⟨[⟨.closeParen, start⟩], rfl, [], by simp, rfl, rfl⟩
  case h_2 =>
    obtain ⟨⟨arg, after⟩, ha, next⟩ := bind_eq_ok_iff.1 h
    obtain ⟨used, rfl, derived⟩ := sound ha
    obtain ⟨more, rfl, found⟩ := moreArguments_sound sound (by simpa using derived :
        ∀ x ∈ [(bareTokens used, arg)], Derives .compare x.1 x.2) (by simp) next
    exact ⟨used ++ more, by simp, by simpa using found⟩

theorem constant_sound {name : String} {start : Nat}
    (h : named.constant name start ts = .ok (e, rest)) :
    ts = rest ∧ Derives .primary [.name name] e := by
  simp only [named.constant] at h
  split at h
  case isTrue truth =>
    cases h
    exact ⟨rfl, .truth truth⟩
  case isFalse =>
    split at h
    case isTrue falsity =>
      cases h
      exact ⟨rfl, .falsity falsity⟩
    case isFalse => cases h

theorem reference_sound (h : reference ts = .ok (e, rest)) : ∃ t key close,
    ts = t :: ⟨.closeBracket, close⟩ :: rest ∧ keyOf t.token = some key ∧ e = .ref key := by
  unfold reference at h
  split at h
  case h_1 => cases h
  case h_2 t tail =>
    split at h
    case h_1 => cases h
    case h_2 key hkey =>
      obtain ⟨⟨⟨⟩, after⟩, hc, next⟩ := bind_eq_ok_iff.1 h
      cases next
      obtain ⟨close, rfl⟩ := closeBracket_sound hc
      exact ⟨t, key, close, rfl, hkey, rfl⟩

theorem named_sound (sound : Sound inner (Derives .compare)) {fuel start : Nat} {name : String}
    (h : named inner fuel name start ts = .ok (e, rest)) :
    ∃ used, ts = used ++ rest ∧ Derives .primary (.name name :: bareTokens used) e := by
  unfold named at h
  split at h
  case h_1 position tail =>
    split at h
    case isTrue reserved =>
      obtain ⟨t, key, close, rfl, hkey, rfl⟩ := reference_sound h
      exact ⟨[⟨.openBracket, position⟩, t, ⟨.closeBracket, close⟩], rfl, reserved ▸ .ref hkey⟩
    case isFalse =>
      obtain ⟨rfl, derived⟩ := constant_sound h
      exact ⟨[], rfl, derived⟩
  case h_2 position tail =>
    obtain ⟨⟨args, after⟩, ha, next⟩ := bind_eq_ok_iff.1 h
    cases next
    obtain ⟨used, rfl, args, hargs, spelled, rfl⟩ := arguments_sound sound fuel ha
    refine ⟨⟨.openParen, position⟩ :: used, rfl, ?_⟩
    rw [bareTokens_cons, spelled]
    exact .call name hargs
  case h_3 =>
    obtain ⟨rfl, derived⟩ := constant_sound h
    exact ⟨[], rfl, derived⟩

theorem primary_sound (sound : Sound inner (Derives .compare)) (fuel : Nat) :
    Sound (primary inner fuel) (Derives .primary) := by
  intro ts e rest h
  unfold primary at h
  split at h
  case h_1 => cases h
  case h_2 x start tail =>
    cases h
    exact ⟨[⟨.number x, start⟩], rfl, .number x⟩
  case h_3 s start tail =>
    cases h
    exact ⟨[⟨.literal s, start⟩], rfl, .text s⟩
  case h_4 start tail =>
    obtain ⟨⟨e, after⟩, hi, next⟩ := bind_eq_ok_iff.1 h
    obtain ⟨⟨⟨⟩, last⟩, hc, final⟩ := bind_eq_ok_iff.1 next
    cases final
    obtain ⟨used, rfl, derived⟩ := sound hi
    obtain ⟨close, rfl⟩ := closeParen_sound hc
    exact ⟨⟨.openParen, start⟩ :: (used ++ [⟨.closeParen, close⟩]), by simp,
      by simpa using Derives.parens derived⟩
  case h_5 name start tail =>
    obtain ⟨used, rfl, derived⟩ := named_sound sound h
    exact ⟨⟨.name name, start⟩ :: used, rfl, derived⟩
  case h_6 => cases h

theorem suffixed_sound (sound : Sound inner (Derives .compare)) (fuel : Nat) :
    Sound (suffixed inner fuel) (Derives .suffixed) := by
  intro ts e rest h
  obtain ⟨⟨target, after⟩, hp, next⟩ := bind_eq_ok_iff.1 h
  obtain ⟨used, rfl, derived⟩ := primary_sound sound fuel hp
  obtain ⟨more, rfl, whole⟩ := suffixes_sound (.bare derived) next
  exact ⟨used ++ more, by simp, by simpa using whole⟩

theorem operators_sound (sound : Sound operand (Derives .suffixed)) (fuel : Nat) :
    Sound (operators operand fuel) (Derives .compare) := by
  have power := level_sound (l := .power) rfl (signed_sound sound) fuel
  have term := level_sound (l := .term) rfl power fuel
  have additive := level_sound (l := .additive) rfl term fuel
  have concat := level_sound (l := .concat) rfl additive fuel
  exact level_sound rfl concat fuel

theorem expression_sound (fuel : Nat) : Sound (expression fuel) (Derives .compare) := by
  induction fuel with
  | zero =>
      intro ts e rest h
      cases h
  | succ fuel ih => exact operators_sound (suffixed_sound ih fuel) fuel

end Soundness

/-! ## What is derivable is parsed -/

/-- Whether a token is the first of an operand without a sign. -/
def Token.opens : Token → Bool
  | .number _ | .literal _ | .name _ | .openParen => true
  | _ => false

theorem Derives.head {l : Level} {ts : List Token} {e : Expr} (h : Derives l ts e) :
    ∃ t us, ts = t :: us ∧ (t.opens = true ∨ t = .operator .sub ∨ t = .operator .add) ∧
      (l = .suffixed ∨ l = .primary → t.opens = true) := by
  induction h with
  | operand hl h ih =>
      obtain ⟨t, us, rfl, first, -⟩ := ih
      exact ⟨t, us, rfl, first, by rintro (rfl | rfl) <;> cases hl⟩
  | operation hl hop left right ihl ihr =>
      obtain ⟨t, us, rfl, first, -⟩ := ihl
      exact ⟨t, _, rfl, first, by rintro (rfl | rfl) <;> cases hl⟩
  | minus h ih => exact ⟨_, _, rfl, .inr (.inl rfl), by rintro (same | same) <;> cases same⟩
  | plus h ih => exact ⟨_, _, rfl, .inr (.inr rfl), by rintro (same | same) <;> cases same⟩
  | unsigned h ih =>
      obtain ⟨t, us, rfl, first, -⟩ := ih
      exact ⟨t, us, rfl, first, by rintro (same | same) <;> cases same⟩
  | bare h ih =>
      obtain ⟨t, us, rfl, first, opens⟩ := ih
      exact ⟨t, us, rfl, first, fun _ => opens (.inr rfl)⟩
  | index h ht ih =>
      obtain ⟨t, us, rfl, first, opens⟩ := ih
      exact ⟨t, _, rfl, first, fun _ => opens (.inl rfl)⟩
  | percent h ih =>
      obtain ⟨t, us, rfl, first, opens⟩ := ih
      exact ⟨t, _, rfl, first, fun _ => opens (.inl rfl)⟩
  | number | text | truth | falsity | ref | call | parens =>
      exact ⟨_, _, rfl, .inl rfl, fun _ => rfl⟩

/-- Whether an expression ends in front of tokens, where the given operators would go on. -/
def Stops (ops : List BinaryOp) (ts : List Placed) : Prop :=
  ∀ t ∈ ts.head?, t.token ≠ .openParen ∧ t.token ≠ .openBracket ∧ t.token ≠ .percent ∧
    ∀ op ∈ ops, t.token ≠ .operator op

theorem Stops.mono {ops ops' : List BinaryOp} {ts : List Placed} (h : Stops ops ts)
    (sub : ∀ op ∈ ops', op ∈ ops) : Stops ops' ts := by
  intro t ht
  obtain ⟨paren, bracket, percent, others⟩ := h t ht
  exact ⟨paren, bracket, percent, fun op hop => others op (sub op hop)⟩

theorem stops_operator {ops : List BinaryOp} {op : BinaryOp} (h : op ∉ ops) (start : Nat)
    (rest : List Placed) : Stops ops (⟨.operator op, start⟩ :: rest) := by
  intro t ht
  cases ht
  refine ⟨by simp, by simp, by simp, fun other hother same => h ?_⟩
  obtain rfl : op = other := by simpa using same
  exact hother

/-- Whether a whole expression ends in front of tokens. -/
def Closes (ts : List Placed) : Prop :=
  ∀ t ∈ ts.head?, t.token = .closeParen ∨ t.token = .comma

theorem closes_nil : Closes [] := by
  rintro t ⟨⟩

theorem closes_closeParen (start : Nat) (rest : List Placed) :
    Closes (⟨.closeParen, start⟩ :: rest) := by
  rintro t ⟨⟩
  exact .inl rfl

theorem closes_comma (start : Nat) (rest : List Placed) : Closes (⟨.comma, start⟩ :: rest) := by
  rintro t ⟨⟩
  exact .inr rfl

theorem Closes.stops {ts : List Placed} (h : Closes ts) (ops : List BinaryOp) : Stops ops ts := by
  intro t ht
  rcases h t ht with same | same <;> simp [same]

/-- Whether no parenthesis follows. -/
def NoParen (ts : List Placed) : Prop :=
  ∀ t ∈ ts.head?, t.token ≠ .openParen

/-- Whether a parser takes all tokens of every derivation of less than a number of tokens, wherever
what follows has a property. -/
def Complete (n : Nat) (follows : List Placed → Prop) (p : Parser Expr)
    (D : List Token → Expr → Prop) : Prop :=
  ∀ ⦃used rest : List Placed⦄ ⦃e : Expr⦄, D (bareTokens used) e → used.length < n →
    follows rest → p (used ++ rest) = .ok (e, rest)

section Completeness

variable {operand inner : Parser Expr} {n fuel : Nat} {ops below : List BinaryOp}

theorem bareTokens_eq_append {used : List Placed} {ts us : List Token}
    (h : bareTokens used = ts ++ us) :
    ∃ first last, used = first ++ last ∧ bareTokens first = ts ∧ bareTokens last = us := by
  obtain ⟨first, last, rfl, hf, hl⟩ := List.map_eq_append_iff.1 h
  exact ⟨first, last, rfl, hf, hl⟩

theorem bareTokens_eq_cons {used : List Placed} {t : Token} {ts : List Token}
    (h : bareTokens used = t :: ts) :
    ∃ start rest, used = ⟨t, start⟩ :: rest ∧ bareTokens rest = ts := by
  obtain ⟨⟨t', start⟩, rest, rfl, rfl, hr⟩ := List.map_eq_cons_iff.1 h
  exact ⟨start, rest, rfl, hr⟩

theorem bareTokens_eq_nil {used : List Placed} (h : bareTokens used = []) : used = [] :=
  List.map_eq_nil_iff.1 h

/-! ### Levels of operators -/

theorem chain_stops {rest : List Placed} (h : Stops ops rest) (operand : Parser Expr) (fuel : Nat)
    (lhs : Expr) : chain ops operand fuel lhs rest = .ok (lhs, rest) := by
  unfold chain
  split
  · rfl
  · rename_i op start tail
    have other : op ∉ ops := fun hop => (h _ rfl).2.2.2 op hop rfl
    rw [if_neg (by simpa using other)]
  · rfl

/-- The operations of a level are read one after the other; as many steps are left as operators have
not been read. -/
theorem level_reads {l m : Level} (hl : l.operators? = some (ops, m))
    (complete : Complete n (Stops below) operand (Derives m)) (disjoint : ∀ op ∈ ops, op ∉ below)
    (enough : n ≤ fuel + 1) {ts : List Token} {e : Expr} (h : Derives l ts e) :
    ∀ used, bareTokens used = ts → used.length < n → ∃ k ≤ used.length, ∀ rest, Stops below rest →
      level ops operand fuel (used ++ rest) = chain ops operand (fuel - k) e rest := by
  induction h with
  | operand hl' h =>
      obtain ⟨rfl, rfl⟩ : ops = _ ∧ m = _ := by simpa using hl.symm.trans hl'
      rintro used rfl short
      refine ⟨0, Nat.zero_le _, fun rest stops => ?_⟩
      rw [level, complete h short stops]
      rfl
  | @operation l m' ops' op ts us lhs rhs hl' hop left right ihl ihr =>
      obtain ⟨rfl, rfl⟩ : ops = ops' ∧ m = m' := by simpa using hl.symm.trans hl'
      intro used spelled short
      obtain ⟨first, last, rfl, hfirst, hlast⟩ := bareTokens_eq_append spelled
      obtain ⟨start, second, rfl, hsecond⟩ := bareTokens_eq_cons hlast
      rw [List.length_append, List.length_cons] at short
      obtain ⟨k, hk, reads⟩ := ihl hl first hfirst (by omega)
      refine ⟨k + 1, by rw [List.length_append, List.length_cons]; omega, fun rest stops => ?_⟩
      have goes := reads (⟨.operator op, start⟩ :: (second ++ rest))
        (stops_operator (disjoint op hop) _ _)
      have contained : ops.contains op = true := by simpa using hop
      have next := complete (hsecond ▸ right) (by omega) stops
      rw [List.append_assoc, List.cons_append, goes,
        show fuel - k = fuel - (k + 1) + 1 by omega]
      show (if ops.contains op then _ else _) = _
      rw [if_pos contained, next]
      rfl
  | _ => cases hl

theorem level_complete {l m : Level} (hl : l.operators? = some (ops, m))
    (complete : Complete n (Stops below) operand (Derives m)) (disjoint : ∀ op ∈ ops, op ∉ below)
    (enough : n ≤ fuel + 1) :
    Complete n (Stops (ops ++ below)) (level ops operand fuel) (Derives l) := by
  intro used rest e h short stops
  obtain ⟨k, -, reads⟩ := level_reads hl complete disjoint enough h used rfl short
  rw [reads rest (stops.mono fun op hop => List.mem_append_right _ hop)]
  exact chain_stops (stops.mono fun op hop => List.mem_append_left _ hop) operand _ e

/-! ### Signs -/

theorem signed_eq_operand {ts : List Placed} (h : ∀ t ∈ ts.head?, t.token.opens = true) :
    signed operand ts = operand ts := by
  unfold signed
  split
  · exact absurd (h _ rfl) (by simp [Token.opens])
  · exact absurd (h _ rfl) (by simp [Token.opens])
  · rfl

theorem signed_reads (complete : Complete n (Stops []) operand (Derives .suffixed)) {l : Level}
    {ts : List Token} {e : Expr} (h : Derives l ts e) (hl : l = .unary) :
    ∀ used, bareTokens used = ts → used.length < n → ∀ rest, Stops [] rest →
      signed operand (used ++ rest) = .ok (e, rest) := by
  induction h with
  | minus h ih =>
      intro used spelled short rest stops
      obtain ⟨start, tail, rfl, htail⟩ := bareTokens_eq_cons spelled
      rw [List.cons_append, signed, ih rfl tail htail (Nat.lt_of_succ_lt short) rest stops]
      rfl
  | plus h ih =>
      intro used spelled short rest stops
      obtain ⟨start, tail, rfl, htail⟩ := bareTokens_eq_cons spelled
      rw [List.cons_append, signed, ih rfl tail htail (Nat.lt_of_succ_lt short) rest stops]
      rfl
  | unsigned h ih =>
      rintro used rfl short rest stops
      obtain ⟨t, us, spelled, -, opens⟩ := h.head
      obtain ⟨start, tail, rfl, -⟩ := bareTokens_eq_cons spelled
      rw [signed_eq_operand]
      · exact complete h short stops
      · intro u hu
        cases hu
        exact opens (.inl rfl)
  | operand hl' => rw [hl] at hl'; cases hl'
  | operation hl' => rw [hl] at hl'; cases hl'
  | _ => cases hl

theorem signed_complete (complete : Complete n (Stops []) operand (Derives .suffixed)) :
    Complete n (Stops []) (signed operand) (Derives .unary) :=
  fun used rest _ h short stops => signed_reads complete h rfl used rfl short rest stops

/-! ### Indices and percent signs -/

theorem suffixes_stops {rest : List Placed} (h : Stops [] rest) (e : Expr) :
    suffixes e rest = .ok (e, rest) := by
  unfold suffixes
  split
  · exact absurd rfl (h _ rfl).2.1
  · exact absurd rfl (h _ rfl).2.2.1
  · rfl

theorem suffixed_reads (complete : Complete n NoParen (primary inner fuel) (Derives .primary))
    {l : Level} {ts : List Token} {e : Expr} (h : Derives l ts e) (hl : l = .suffixed) :
    ∀ used, bareTokens used = ts → used.length < n → ∀ rest, NoParen rest →
      suffixed inner fuel (used ++ rest) = suffixes e rest := by
  induction h with
  | bare h =>
      rintro used rfl short rest follows
      rw [suffixed, complete h short follows]
      rfl
  | index h ht ih =>
      intro used spelled short rest follows
      obtain ⟨first, last, rfl, hfirst, hlast⟩ := bareTokens_eq_append spelled
      obtain ⟨start, more, rfl, hmore⟩ := bareTokens_eq_cons hlast
      obtain ⟨position, behind, rfl, hbehind⟩ := bareTokens_eq_cons hmore
      obtain ⟨close, none, rfl, hnone⟩ := bareTokens_eq_cons hbehind
      obtain rfl := bareTokens_eq_nil hnone
      rw [List.length_append] at short
      rw [List.append_assoc, ih rfl first hfirst (by omega) _ (by intro t ht; cases ht; simp)]
      simp [suffixes, ht]
  | percent h ih =>
      intro used spelled short rest follows
      obtain ⟨first, last, rfl, hfirst, hlast⟩ := bareTokens_eq_append spelled
      obtain ⟨start, none, rfl, hnone⟩ := bareTokens_eq_cons hlast
      obtain rfl := bareTokens_eq_nil hnone
      rw [List.length_append] at short
      rw [List.append_assoc, ih rfl first hfirst (by omega) _ (by intro t ht; cases ht; simp)]
      simp [suffixes]
  | operand hl' => rw [hl] at hl'; cases hl'
  | operation hl' => rw [hl] at hl'; cases hl'
  | _ => cases hl

theorem suffixed_complete (complete : Complete n NoParen (primary inner fuel) (Derives .primary)) :
    Complete n (Stops []) (suffixed inner fuel) (Derives .suffixed) := by
  intro used rest e h short stops
  rw [suffixed_reads complete h rfl used rfl short rest fun t ht => (stops t ht).1]
  exact suffixes_stops stops e

/-! ### Operands -/

theorem intercalate_cons {α : Type} (a : α) (b : List α) (l : List (List α)) :
    [a].intercalate (b :: l) = b ++ l.flatMap (a :: ·) := by
  induction l generalizing b with
  | nil => simp
  | cons c l ih => rw [List.intercalate_cons_cons, ih c]; simp

/-- The tokens of further arguments of a call, through the closing parenthesis. -/
def argumentTokens (args : List (List Token × Expr)) : List Token :=
  args.flatMap (fun arg => .comma :: arg.1) ++ [.closeParen]

theorem closes_argumentTokens {args : List (List Token × Expr)} {used : List Placed}
    (h : bareTokens used = argumentTokens args) (rest : List Placed) :
    Closes (used ++ rest) := by
  cases args with
  | nil =>
      obtain ⟨start, tail, rfl, -⟩ := bareTokens_eq_cons (t := .closeParen) h
      exact closes_closeParen start _
  | cons arg args =>
      obtain ⟨start, tail, rfl, -⟩ := bareTokens_eq_cons (t := .comma) h
      exact closes_comma start _

theorem moreArguments_reads (complete : Complete n Closes inner (Derives .compare))
    {args : List (List Token × Expr)} (hargs : ∀ arg ∈ args, Derives .compare arg.1 arg.2)
    {used : List Placed} (spelled : bareTokens used = argumentTokens args) (short : used.length ≤ n)
    (enough : used.length ≤ fuel + 1) (done : List Expr) (rest : List Placed) :
    moreArguments inner fuel done (used ++ rest) = .ok (done ++ args.map (·.2), rest) := by
  induction args generalizing used fuel done with
  | nil =>
      obtain ⟨start, tail, rfl, htail⟩ := bareTokens_eq_cons (t := .closeParen) spelled
      obtain rfl := bareTokens_eq_nil htail
      unfold moreArguments
      simp [closeParen, bind, Except.bind]
  | cons arg args ih =>
      have split : argumentTokens (arg :: args) = .comma :: (arg.1 ++ argumentTokens args) := by
        simp [argumentTokens]
      obtain ⟨start, tail, rfl, htail⟩ := bareTokens_eq_cons (spelled.trans split)
      obtain ⟨first, more, rfl, hfirst, hmore⟩ := bareTokens_eq_append htail
      have some_more : more ≠ [] := by
        rintro rfl
        simp [argumentTokens] at hmore
      have positive := List.length_pos_of_ne_nil some_more
      rw [List.length_cons, List.length_append] at short enough
      have read := complete (hfirst ▸ hargs arg (by simp)) (by omega)
        (closes_argumentTokens hmore rest)
      obtain ⟨fuel, rfl⟩ : ∃ k, fuel = k + 1 := ⟨fuel - 1, by omega⟩
      rw [List.cons_append, List.append_assoc, moreArguments, read]
      show moreArguments inner fuel (done ++ [arg.2]) (more ++ rest) = _
      rw [ih (fun x hx => hargs x (List.mem_cons_of_mem _ hx)) hmore (by omega) (by omega)]
      simp

theorem arguments_reads (complete : Complete n Closes inner (Derives .compare))
    {args : List (List Token × Expr)} (hargs : ∀ arg ∈ args, Derives .compare arg.1 arg.2)
    {used : List Placed}
    (spelled : bareTokens used = [.comma].intercalate (args.map (·.1)) ++ [.closeParen])
    (short : used.length ≤ n) (enough : used.length ≤ fuel + 1) (rest : List Placed) :
    arguments inner fuel (used ++ rest) = .ok (args.map (·.2), rest) := by
  cases args with
  | nil =>
      obtain ⟨start, tail, rfl, htail⟩ := bareTokens_eq_cons (t := .closeParen) spelled
      obtain rfl := bareTokens_eq_nil htail
      rfl
  | cons arg args =>
      have split : [Token.comma].intercalate ((arg :: args).map (·.1)) ++ [.closeParen] =
          arg.1 ++ argumentTokens args := by
        simp [argumentTokens, intercalate_cons, List.flatMap_map]
      obtain ⟨first, more, rfl, hfirst, hmore⟩ := bareTokens_eq_append (spelled.trans split)
      have derived := hargs arg (by simp)
      obtain ⟨t, us, head, opens, -⟩ := derived.head
      obtain ⟨start, tail, rfl, -⟩ := bareTokens_eq_cons (hfirst.trans head)
      rw [List.length_append] at short enough
      have some_more : more ≠ [] := by
        rintro rfl
        simp [argumentTokens] at hmore
      have positive := List.length_pos_of_ne_nil some_more
      have read := complete (hfirst ▸ derived) (by omega) (closes_argumentTokens hmore rest)
      have other : t ≠ .closeParen := by
        rintro rfl
        rcases opens with h | h | h <;> cases h
      rw [List.append_assoc, arguments, read]
      · show moreArguments inner fuel [arg.2] (more ++ rest) = _
        rw [moreArguments_reads complete (fun x hx => hargs x (List.mem_cons_of_mem _ hx)) hmore
          (by omega) (by omega)]
        rfl
      · intro position tail same
        cases same
        exact other rfl

theorem named_constant {name : String} {start : Nat} {rest : List Placed} (follows : NoParen rest)
    (other : name ≠ reservedName) :
    named inner fuel name start rest = named.constant name start rest := by
  unfold named
  split
  · rw [if_neg other]
  · exact absurd rfl (follows _ rfl)
  · rfl

theorem primary_complete (complete : Complete n Closes inner (Derives .compare))
    (enough : n ≤ fuel + 1) : Complete (n + 1) NoParen (primary inner fuel) (Derives .primary) := by
  intro used rest e h short follows
  generalize spelled : bareTokens used = ts at h
  cases h with
  | operand hl h => cases hl
  | operation hl hop left right => cases hl
  | number x =>
      obtain ⟨start, tail, rfl, htail⟩ := bareTokens_eq_cons spelled
      obtain rfl := bareTokens_eq_nil htail
      rfl
  | text s =>
      obtain ⟨start, tail, rfl, htail⟩ := bareTokens_eq_cons spelled
      obtain rfl := bareTokens_eq_nil htail
      rfl
  | @truth name h =>
      obtain ⟨start, tail, rfl, htail⟩ := bareTokens_eq_cons spelled
      obtain rfl := bareTokens_eq_nil htail
      have other : name ≠ reservedName := by
        rintro rfl
        exact absurd h (by decide)
      show named inner fuel name start rest = _
      rw [named_constant follows other, named.constant, if_pos h]
  | @falsity name h =>
      obtain ⟨start, tail, rfl, htail⟩ := bareTokens_eq_cons spelled
      obtain rfl := bareTokens_eq_nil htail
      have other : name ≠ reservedName := by
        rintro rfl
        exact absurd h (by decide)
      show named inner fuel name start rest = _
      rw [named_constant follows other, named.constant, h, if_neg (by decide), if_pos rfl]
  | ref ht =>
      obtain ⟨start, more, rfl, hmore⟩ := bareTokens_eq_cons spelled
      obtain ⟨position, key, rfl, hkey⟩ := bareTokens_eq_cons hmore
      obtain ⟨place, last, rfl, hlast⟩ := bareTokens_eq_cons hkey
      obtain ⟨close, none, rfl, hnone⟩ := bareTokens_eq_cons hlast
      obtain rfl := bareTokens_eq_nil hnone
      simp [primary, named, reference, ht, closeBracket, bind, Except.bind]
  | @call name args h =>
      obtain ⟨start, more, rfl, hmore⟩ := bareTokens_eq_cons spelled
      obtain ⟨position, inside, rfl, hinside⟩ := bareTokens_eq_cons hmore
      rw [List.length_cons, List.length_cons] at short
      have read : arguments inner fuel (inside ++ rest) = .ok (_, rest) :=
        arguments_reads complete h hinside (by omega) (by omega) rest
      simp [primary, named, read, bind, Except.bind]
  | parens h =>
      obtain ⟨start, more, rfl, hmore⟩ := bareTokens_eq_cons spelled
      obtain ⟨first, last, rfl, hfirst, hlast⟩ := bareTokens_eq_append hmore
      obtain ⟨close, none, rfl, hnone⟩ := bareTokens_eq_cons hlast
      obtain rfl := bareTokens_eq_nil hnone
      rw [List.length_cons, List.length_append, List.length_singleton] at short
      have read := complete (hfirst ▸ h) (by omega)
        (closes_closeParen close rest)
      simp [primary, read, closeParen, bind, Except.bind]

/-! ### Expressions -/

theorem operators_complete (complete : Complete n (Stops []) operand (Derives .suffixed))
    (enough : n ≤ fuel + 1) :
    Complete n Closes (operators operand fuel) (Derives .compare) := by
  have power := level_complete (l := .power) rfl (signed_complete complete) (by simp) enough
  have term := level_complete (l := .term) rfl power (by simp) enough
  have additive := level_complete (l := .additive) rfl term (by simp) enough
  have concat := level_complete (l := .concat) rfl additive (by simp) enough
  have compare := level_complete (l := .compare) rfl concat (by simp) enough
  exact fun used rest e h short closes => compare h short (closes.stops _)

theorem expression_complete (fuel : Nat) :
    Complete fuel Closes (expression fuel) (Derives .compare) := by
  induction fuel with
  | zero =>
      intro used rest e h short
      exact absurd short (Nat.not_lt_zero _)
  | succ fuel ih =>
      exact operators_complete (suffixed_complete (primary_complete ih (Nat.le_succ fuel))) (le_refl _)

end Completeness

/-! ## Whole texts -/

theorem parseTokens_eq_ok_iff {ts : List Placed} {e : Expr} :
    parseTokens ts = .ok e ↔ Derives .compare (bareTokens ts) e := by
  constructor
  · intro h
    unfold parseTokens at h
    split at h
    case h_1 => cases h
    case h_2 e' whole =>
      cases h
      obtain ⟨used, rfl, derived⟩ := expression_sound _ whole
      simpa using derived
    case h_3 => cases h
  · intro h
    have read := expression_complete (ts.length + 1) h (Nat.lt_succ_self _) closes_nil
    rw [List.append_nil] at read
    rw [parseTokens, read]

/-- Operators group to the left, and a percent sign binds tighter than a sign. -/
example : Derives .compare
    [.literal "a", .operator .concat, .literal "b", .operator .concat, .operator .sub, .literal "c",
      .percent]
    (.binary .concat (.binary .concat (.text "a") (.text "b"))
      (.unary .neg (.unary .percent (.text "c")))) :=
  parseTokens_eq_ok_iff.1 (show parseTokens
    [⟨.literal "a", 0⟩, ⟨.operator .concat, 3⟩, ⟨.literal "b", 4⟩, ⟨.operator .concat, 7⟩,
      ⟨.operator .sub, 8⟩, ⟨.literal "c", 9⟩, ⟨.percent, 12⟩] = _ from rfl)

/-- Whether a text has tokens, and these are an expression. -/
def Denotes (text : String) (e : Expr) : Prop :=
  ∃ ts, tokens text.toList = .ok ts ∧ Derives .compare (bareTokens ts) e

theorem parse_eq_ok_iff {text : String} {e : Expr} : parse text = .ok e ↔ Denotes text e := by
  unfold parse
  constructor
  · intro h
    split at h
    case h_1 => cases h
    case h_2 => cases h
    case h_3 ts hts =>
      split at h
      case h_1 e' parsed =>
        cases h
        exact ⟨ts, hts, parseTokens_eq_ok_iff.1 parsed⟩
      case h_2 => cases h
  · rintro ⟨ts, hts, derived⟩
    rw [hts]
    simp only [parseTokens_eq_ok_iff.2 derived]

theorem Denotes.unique {text : String} {e e' : Expr} (h : Denotes text e) (h' : Denotes text e') :
    e = e' := by
  rw [← parse_eq_ok_iff] at h h'
  exact Except.ok.inj (h.symm.trans h')

end Spreadsheet.Template

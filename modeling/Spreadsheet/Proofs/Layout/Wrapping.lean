import Spreadsheet.Proofs.Layout.Exploding

/-!
# What stands around a child with space

A child of a stack gives way to itself with its padding around it and its margin around that.  Each of
the two is a new column with gaps at its ends and a new row in between, which holds what is inside and
a gap on either side.  The trees stay trees, and nothing else changes but borders.
-/

namespace Spreadsheet

open Store

namespace Store

variable {s t u : Store} {e : Element} {roots : List Element}

/-! ## Changes to children and borders -/

/-- The margin and the padding of a child that take effect; in a frame there is no room for any. -/
def space (s : Store) (inFrame : Bool) (e : Element) : Sides Nat × Sides Nat :=
  match inFrame, s.attributes? e with
  | false, some a => (a.margin.resolved, a.padding.resolved)
  | _, _ => (.uniform 0, .uniform 0)

/-- Whether nothing has changed that matters to space, but the children of what may be touched. -/
structure Refits (touched : Element → Prop) (s t : Store) : Prop where
  held : ∀ e, s.InStore e → t.InStore e
  axis : ∀ e, s.InStore e → t.orientation? e = s.orientation? e
  space : ∀ inFrame e, s.InStore e → t.space inFrame e = s.space inFrame e
  left : ∀ e, s.InStore e → ¬touched e → t.children e = s.children e

variable {touched more : Element → Prop}

theorem Refits.refl (s : Store) : Refits touched s s :=
  ⟨fun _ => id, fun _ _ => rfl, fun _ _ _ => rfl, fun _ _ _ => rfl⟩

theorem Refits.trans (first : Refits touched s t) (second : Refits more t u) :
    Refits (fun e => touched e ∨ more e) s u where
  held e he := second.held e (first.held e he)
  axis e he := (second.axis e (first.held e he)).trans (first.axis e he)
  space inFrame e he := (second.space inFrame e (first.held e he)).trans (first.space inFrame e he)
  left e he free := (second.left e (first.held e he) fun h => free (.inr h)).trans
    (first.left e he fun h => free (.inl h))

theorem Refits.imp (h : Refits touched s t) (imp : ∀ e, s.InStore e → touched e → more e) :
    Refits more s t :=
  ⟨h.held, h.axis, h.space, fun e he free => h.left e he fun here => free (imp e he here)⟩

theorem space_congr (inFrame : Bool)
    (same : (t.attributes? e).map (fun a => (a.margin, a.padding)) =
      (s.attributes? e).map fun a => (a.margin, a.padding)) : t.space inFrame e = s.space inFrame e := by
  cases inFrame with
  | true => rfl
  | false =>
      cases hs : s.attributes? e with
      | none =>
          cases ht : t.attributes? e with
          | none => simp [Store.space, hs, ht]
          | some a => simp [hs, ht] at same
      | some a =>
          cases ht : t.attributes? e with
          | none => simp [hs, ht] at same
          | some b =>
              simp only [hs, ht, Option.map_some, Option.some.injEq, Prod.mk.injEq] at same
              simp [Store.space, hs, ht, same.1, same.2]

theorem refits_addStack (s : Store) (n : StackNode) :
    Refits (fun _ => False) s (s.addStack n).2 := by
  have old : ∀ k : StackId, s.InStore (.stack k) → (s.addStack n).2.stack k = s.stack k :=
    fun k hk => (stack_addStack_eq s n k).trans (if_neg (Nat.ne_of_lt hk))
  refine ⟨fun e he => ?_, fun e he => ?_, fun inFrame e he => space_congr inFrame ?_, fun e he _ => ?_⟩
  · cases e with
    | stack k => exact Nat.lt_of_lt_of_eq (Nat.lt_succ_of_lt he) (Table.size_push _ _).symm
    | _ => exact he
  · cases e with
    | stack k => rw [orientation?, old k he]; rfl
    | _ => rfl
  · cases e with
    | stack k => rw [attributes?, old k he]; rfl
    | _ => rfl
  · cases e with
    | stack k => rw [children, old k he]; rfl
    | _ => rfl

theorem refits_updateAttributes (s : Store) (e : Element) {f : Attributes → Attributes}
    (margin : ∀ a, (f a).margin = a.margin) (padding : ∀ a, (f a).padding = a.padding) :
    Refits (fun _ => False) s (s.updateAttributes e f) := by
  have alike := alike_updateAttributes s e f
  refine ⟨fun x => (alike.inStore x).2,
    fun x _ => congrFun (Prod.mk.inj (marks_updateAttributes s e f)).1 x,
    fun inFrame x _ => space_congr inFrame ?_, fun x _ _ => alike.children x⟩
  cases e with
  | vector v =>
      cases x with
      | vector w =>
          rcases vector_updateVector_cases s v w fun n => { n with attributes := f n.attributes }
            with h | h <;> simp [updateAttributes, attributes?, h, margin, padding]
      | _ => rfl
  | frame g =>
      cases x with
      | frame h =>
          rcases frame_updateFrame_cases s g h fun n => { n with attributes := f n.attributes }
            with same | same <;> simp [updateAttributes, attributes?, same, margin, padding]
      | _ => rfl
  | stack k =>
      cases x with
      | stack l =>
          rcases stack_updateStack_cases s k l fun n => { n with attributes := f n.attributes }
            with h | h <;> simp [updateAttributes, attributes?, h, margin, padding]
      | _ => rfl
  | _ => rfl

theorem refits_setChildren (s : Store) (e : Element) (l : List Element) :
    Refits (· = e) s (s.setChildren e l) := by
  have regroups := regroups_setChildren s e l
  refine ⟨fun x => (regroups.inStore x).2,
    fun x _ => congrFun (Prod.mk.inj (marks_setChildren s e l)).1 x,
    fun inFrame x _ => space_congr inFrame ?_, fun x _ ne => regroups.others x ne⟩
  cases e with
  | vector v =>
      cases x with
      | vector w =>
          rcases vector_updateVector_cases s v w fun n => { n with children := l } with h | h <;>
            simp [setChildren, attributes?, h]
      | _ => rfl
  | frame f =>
      cases x with
      | frame g =>
          rcases frame_updateFrame_cases s f g fun n => { n with children := l } with h | h <;>
            simp [setChildren, attributes?, h]
      | _ => rfl
  | stack k =>
      cases x with
      | stack m =>
          rcases stack_updateStack_cases s k m fun n => { n with children := l } with h | h <;>
            simp [setChildren, attributes?, h]
      | _ => rfl
  | _ => rfl

/-! ## Space around one element -/

/-- Whether an element is another one with space around it, and which nodes are new: itself, if there
is no space at any side, or a column around a row around it. -/
inductive Ringed (t : Store) (fill : Bool) (sides : Sides Nat) (inner : Element) :
    Element → List Node → Prop
  | bare (none : sides = .uniform 0) : Ringed t fill sides inner inner []
  | around {row column : StackId} (rowAxis : t.orientation? (.stack row) = some .horizontal)
      (rowChildren : t.children (.stack row) =
        sideGap sides.left fill ++ [inner] ++ sideGap sides.right fill)
      (columnAxis : t.orientation? (.stack column) = some .vertical)
      (columnChildren : t.children (.stack column) =
        sideGap sides.top fill ++ [.stack row] ++ sideGap sides.bottom fill) :
      Ringed t fill sides inner (.stack column) [.stack column, .stack row]

/-- Whether an element is a child with its padding around it and its margin around that. -/
def Cased (t : Store) (space : Sides Nat × Sides Nat) (child block : Element) (news : List Node) :
    Prop :=
  ∃ padded inner outer, Ringed t true space.2 child padded inner ∧
    Ringed t false space.1 padded block outer ∧ news = outer ++ inner

/-- Whether some elements are children with their space around them, in the same order. -/
inductive CasedAll (t : Store) (space : Element → Sides Nat × Sides Nat) :
    List Element → List Element → List Node → Prop
  | nil : CasedAll t space [] [] []
  | cons {child block : Element} {l l' : List Element} {news more : List Node} :
      Cased t (space child) child block news → CasedAll t space l l' more →
        CasedAll t space (child :: l) (block :: l') (news ++ more)

/-- Whether some nodes have the axes and the children that they had before. -/
def Firm (t u : Store) (news : List Node) : Prop :=
  ∀ n ∈ news, u.orientation? n.element = t.orientation? n.element ∧
    u.children n.element = t.children n.element

theorem Firm.left {news more : List Node} (h : Firm t u (news ++ more)) : Firm t u news :=
  fun n hn => h n (List.mem_append_left _ hn)

theorem Firm.right {news more : List Node} (h : Firm t u (news ++ more)) : Firm t u more :=
  fun n hn => h n (List.mem_append_right _ hn)

/-- What is new since a store stays firm where nothing but what was there may be touched. -/
theorem Refits.firm (h : Refits touched t u) (old : ∀ e, touched e → s.InStore e) {news : List Node}
    (novel : ∀ n ∈ news, Novel s t n.element) : Firm t u news := by
  intro n hn
  have there := (novel n hn).there
  exact ⟨h.axis _ there, h.left _ there fun here => (novel n hn).new (old _ here)⟩

variable {fill : Bool} {sides : Sides Nat} {inner outer child block : Element}
  {space : Element → Sides Nat × Sides Nat} {news : List Node} {l l' : List Element}

theorem Ringed.later (h : Ringed t fill sides inner outer news) (firm : Firm t u news) :
    Ringed u fill sides inner outer news := by
  cases h with
  | bare none => exact .bare none
  | @around row column rowAxis rowChildren columnAxis columnChildren =>
      obtain ⟨axis, children⟩ := firm (.stack column) (by simp)
      obtain ⟨axis', children'⟩ := firm (.stack row) (by simp)
      exact .around (axis'.trans rowAxis) (children'.trans rowChildren) (axis.trans columnAxis)
        (children.trans columnChildren)

theorem Cased.later {p : Sides Nat × Sides Nat} (h : Cased t p child block news)
    (firm : Firm t u news) : Cased u p child block news := by
  obtain ⟨padded, inner, outer, padding, margin, rfl⟩ := h
  exact ⟨padded, inner, outer, padding.later firm.right, margin.later firm.left, rfl⟩

theorem CasedAll.later (h : CasedAll t space l l' news) (firm : Firm t u news) :
    CasedAll u space l l' news := by
  induction h with
  | nil => exact .nil
  | cons cased _ ih => exact .cons (cased.later firm.left) (ih firm.right)

theorem nodesUnder_sideGap (acyclic : t.Acyclic) (size : Nat) (fill : Bool) :
    t.nodesUnder (sideGap size fill) = [] := by
  unfold sideGap
  split
  · rfl
  · rw [acyclic.nodesUnder_singleton]
    rfl

/-- The nodes below an element with space around it are its own and the new ones. -/
theorem Ringed.nodesUnder (h : Ringed t fill sides inner outer news) (acyclic : t.Acyclic) :
    t.nodesUnder [outer] = news ++ t.nodesUnder [inner] := by
  have between : ∀ (k : StackId) (before after : Nat) (x : Element),
      t.children (.stack k) = sideGap before fill ++ [x] ++ sideGap after fill →
        t.nodesUnder [.stack k] = .stack k :: t.nodesUnder [x] := by
    intro k before after x children
    rw [acyclic.nodesUnder_singleton, children, nodesUnder_append, nodesUnder_append,
      nodesUnder_sideGap acyclic, nodesUnder_sideGap acyclic, List.append_nil]
    rfl
  cases h with
  | bare => rfl
  | around _ rowChildren _ columnChildren =>
      rw [between _ _ _ _ columnChildren, between _ _ _ _ rowChildren]
      rfl

theorem CasedAll.count_nodesUnder (h : CasedAll t space l l' news) (acyclic : t.Acyclic) (n : Node) :
    (t.nodesUnder l').count n = (t.nodesUnder l).count n + news.count n := by
  induction h with
  | nil => rfl
  | @cons child block l l' news more cased _ ih =>
      obtain ⟨padded, inner, outer, padding, margin, rfl⟩ := cased
      rw [nodesUnder_cons t block l', nodesUnder_cons t child l, margin.nodesUnder acyclic,
        padding.nodesUnder acyclic]
      simp only [List.count_append]
      omega

/-! ## Trees stay trees -/

/-- Whether nodes are new since a store, each there once: some have been put into the trees that were
there, others are loose. -/
structure Sprouts (s t : Store) (placed loose : Node → Nat) : Prop where
  once : ∀ n, placed n + loose n ≤ 1
  novel : ∀ n, placed n + loose n ≠ 0 → Novel s t n.element
  counts : ∀ roots, (∀ root ∈ roots, s.InStore root) → s.Forest roots → ∀ n,
    (t.nodesUnder roots).count n ≤ (s.nodesUnder roots).count n + placed n

variable {placed loose : Node → Nat}

theorem Sprouts.refl (s : Store) : Sprouts s s 0 0 :=
  ⟨fun _ => Nat.zero_le _, fun _ h => absurd rfl h, fun _ _ _ _ => Nat.le_refl _⟩

theorem Sprouts.forest (h : Sprouts s t placed loose) (wf : s.WellFormed)
    (inside : ∀ root ∈ roots, s.InStore root) (forest : s.Forest roots) : t.Forest roots := by
  refine List.nodup_iff_count_le_one.2 fun n => (h.counts roots inside forest n).trans ?_
  have single := List.nodup_iff_count_le_one.1 forest n
  by_cases new : placed n = 0
  · rwa [new]
  · have novel := (h.novel n (by omega)).new
    have none : (s.nodesUnder roots).count n = 0 := by
      rw [List.count_eq_zero, wf.acyclic.mem_nodesUnder]
      rintro ⟨root, hroot, reach⟩
      exact novel (wf.inStore_of_reach (inside root hroot) reach)
    have := h.once n
    omega

theorem Sprouts.trans {placed' loose' : Node → Nat} (first : Sprouts s t placed loose)
    (wf : s.WellFormed) (held : ∀ e, s.InStore e → t.InStore e)
    (held' : ∀ e, t.InStore e → u.InStore e) (second : Sprouts t u placed' loose') :
    Sprouts s u (placed + placed') (loose + loose') where
  once n := by
    have one := first.once n
    have two := second.once n
    by_cases there : t.InStore n.element
    · have none : ¬(placed' n + loose' n ≠ 0) := fun h => (second.novel n h).new there
      simp only [Pi.add_apply]
      omega
    · have none : ¬(placed n + loose n ≠ 0) := fun h => there (first.novel n h).there
      simp only [Pi.add_apply]
      omega
  novel n h := by
    by_cases new : placed n + loose n = 0
    · refine (second.novel n ?_).earlier held
      simp only [Pi.add_apply] at h
      omega
    · exact ⟨(first.novel n new).new, held' _ (first.novel n new).there⟩
  counts roots inside forest n := by
    have one := first.counts roots inside forest n
    have two := second.counts roots (fun root hroot => held root (inside root hroot))
      (first.forest wf inside forest) n
    simp only [Pi.add_apply]
    omega

/-- New nodes that nothing old holds are loose. -/
theorem Refits.sprouts (h : Refits (fun _ => False) s t) (wf : s.WellFormed) (acyclic : t.Acyclic)
    (nodup : news.Nodup) (novel : ∀ n ∈ news, Novel s t n.element) :
    Sprouts s t 0 (news.count ·) where
  once n := by simpa using List.nodup_iff_count_le_one.1 nodup n
  novel n h := novel n (List.count_pos_iff.1 (by simpa [Nat.pos_iff_ne_zero] using h))
  counts roots inside _ n := by
    have same : t.nodesUnder roots = s.nodesUnder roots :=
      nodesUnder_congr wf.acyclic acyclic fun e he x reach =>
        h.left x (wf.inStore_of_reach (inside e he) reach) id
    rw [same]
    exact Nat.le_add_right _ _

/-- Loose nodes are put into the trees where a container gets them below its children. -/
theorem Sprouts.setChildren (h : Sprouts s u placed loose) (wf : s.WellFormed) (wfu : u.WellFormed)
    (held : ∀ e, s.InStore e → u.InStore e) (hc : e.isContainer = true)
    (acyclic : (u.setChildren e l').Acyclic) (he : s.InStore e)
    (more : ∀ n, ((u.setChildren e l').nodesUnder l').count n ≤
      ((u.setChildren e l').nodesUnder (u.children e)).count n + loose n) :
    Sprouts s (u.setChildren e l') (placed + loose) 0 where
  once n := h.once n
  novel n new := ⟨(h.novel n new).new,
    ((regroups_setChildren u e l').inStore _).2 (h.novel n new).there⟩
  counts roots inside forest n := by
    obtain ⟨c, is⟩ : ∃ c, e.node? = some c := by
      cases e <;> first | exact ⟨_, rfl⟩ | cases hc
    have children := children_setChildren_self (held e he) hc l'
    have grown := count_nodesUnder_le (n := n) wfu.acyclic acyclic wfu.closed is
      (by rw [children]; exact more n) (fun x _ ne => (regroups_setChildren u e l').others x ne)
      fun root hroot => held root (inside root hroot)
    have single := List.nodup_iff_count_le_one.1 (h.forest wf inside forest) c
    have before := h.counts roots inside forest n
    have most := Nat.mul_le_mul_right (loose n) single
    simp only [Pi.add_apply]
    omega

/-- Whether nothing old has changed, and nodes with a property have been made. -/
structure Provides (P : List Node → Prop) (s t : Store) : Prop where
  refits : Refits (fun _ => False) s t
  fresh : ∃ news, P news ∧ news.Nodup ∧ ∀ n ∈ news, Novel s t n.element

theorem Provides.none {P : List Node → Prop} (h : P []) : Provides P s s :=
  ⟨.refl s, [], h, List.nodup_nil, by simp⟩

theorem Provides.trans {P Q R : List Node → Prop} (first : Provides P s t) (second : Provides Q t u)
    (both : ∀ news more, P news → Firm t u news → Q more → R (more ++ news)) : Provides R s u := by
  obtain ⟨one, news, front, nodup, novel⟩ := first
  obtain ⟨two, more, back, nodup', novel'⟩ := second
  refine ⟨(one.trans two).imp fun _ _ => Or.rec id id, more ++ news,
    both news more front (two.firm (fun _ => False.elim) novel) back, ?_, fun n hn => ?_⟩
  · refine List.Nodup.append nodup' nodup fun n hn hn' => ?_
    exact (novel' n hn).new (novel n hn').there
  · rcases List.mem_append.1 hn with hn | hn
    · exact (novel' n hn).earlier one.held
    · exact ⟨(novel n hn).new, two.held _ (novel n hn).there⟩

end Store

namespace StoreM

variable {s t m : Store} {touched : Element → Prop}

/-! ## One child -/

theorem newStack_refits {n : StackNode} {k : StackId} (h : Leads (newStack n) s k t) :
    Refits (fun _ => False) s t ∧ Novel s t (.stack k) ∧
      t.orientation? (.stack k) = some n.orientation ∧ t.children (.stack k) = n.children := by
  obtain ⟨rfl, rfl⟩ := leads_modifyGet.1 h
  refine ⟨refits_addStack s n, ⟨not_inStore_addStack s n, inStore_addStack s n⟩, ?_,
    children_addStack_self s n⟩
  rw [orientation?, stack_addStack_eq]
  exact congrArg (fun n => some (StackNode.orientation n)) (if_pos rfl)

theorem surround_ringed {inner outer : Element} {sides : Sides Nat} {fill : Bool}
    (h : Leads (surround inner sides fill) s outer t) :
    Provides (Ringed t fill sides inner outer) s t := by
  simp only [surround, leads_bind, leads_get] at h
  obtain ⟨row, s₁, first, _, _, ⟨rfl, rfl⟩, h⟩ := h
  obtain ⟨one, rowNovel, rowAxis, rowChildren⟩ := newStack_refits first
  have border : ∃ s₂ column n, Refits (fun _ => False) s₁ s₂ ∧ outer = .stack column ∧
      n.orientation = .vertical ∧
      n.children = sideGap sides.top fill ++ [.stack row] ++ sideGap sides.bottom fill ∧
      Leads (newStack n) s₂ column t := by
    split at h
    case isTrue =>
      simp only [leads_bind, leads_modify, leads_pure] at h
      obtain ⟨_, _, rfl, column, _, second, rfl, rfl⟩ := h
      refine ⟨_, column, _, ?_, rfl, ?_, ?_, second⟩
      · exact refits_updateAttributes s₁ inner (fun _ => rfl) fun _ => rfl
      · rfl
      · rfl
    case isFalse =>
      simp only [leads_bind, leads_pure] at h
      obtain ⟨column, _, second, rfl, rfl⟩ := h
      refine ⟨s₁, column, _, .refl s₁, rfl, ?_, ?_, second⟩
      · rfl
      · rfl
  obtain ⟨s₂, column, n, border, rfl, axis, children, second⟩ := border
  obtain ⟨two, columnNovel, columnAxis, columnChildren⟩ := newStack_refits second
  have later : Refits (fun _ => False) s₁ t := (border.trans two).imp fun _ _ => Or.rec id id
  have apart : column ≠ row := by
    rintro rfl
    exact columnNovel.new (border.held _ rowNovel.there)
  refine ⟨(one.trans later).imp fun _ _ => Or.rec id id, _, .around
    ((later.axis _ rowNovel.there).trans rowAxis) ((later.left _ rowNovel.there id).trans rowChildren)
    (axis ▸ columnAxis) (children ▸ columnChildren), by simp [apart], fun x hx => ?_⟩
  rcases List.mem_cons.1 hx with rfl | hx
  · exact columnNovel.earlier fun e he => border.held e (one.held e he)
  · rw [List.mem_singleton.1 hx]
    exact ⟨rowNovel.new, later.held _ rowNovel.there⟩

/-- No space, or some around an element. -/
theorem surround_cases {inner outer : Element} {spacing : Spacing} {fill : Bool}
    (h : Leads (if spacing.isZero = true then pure inner else surround inner spacing.resolved fill)
      s outer t) : Provides (Ringed t fill spacing.resolved inner outer) s t := by
  split at h
  case isTrue zero =>
    obtain ⟨rfl, rfl⟩ := leads_pure.1 h
    exact .none (.bare (by simpa [Spacing.isZero] using zero))
  case isFalse => exact surround_ringed h

theorem cased_bare {t : Store} {p : Sides Nat × Sides Nat} {child : Element}
    (none : p = (.uniform 0, .uniform 0)) : Cased t p child child [] :=
  ⟨child, [], [], .bare (by rw [none]), .bare (by rw [none]), rfl⟩

/-- The padding comes first, and the margin around it. -/
theorem wrapChild_cases {inFrame : Bool} {child : Element} {r : Element × List Notice}
    (h : Leads (wrapChild inFrame child) s r t) :
    r.1 = child ∧ t = s ∧ s.space inFrame child = (.uniform 0, .uniform 0) ∨
      ∃ (margin padding : Spacing) (padded : Element) (m : Store),
        s.space inFrame child = (margin.resolved, padding.resolved) ∧
        Leads (if padding.isZero = true then pure child
          else surround child padding.resolved true) s padded m ∧
        Leads (if margin.isZero = true then pure padded
          else surround padded margin.resolved false) m r.1 t := by
  simp only [wrapChild, leads_bind, leads_get] at h
  obtain ⟨_, _, ⟨rfl, rfl⟩, h⟩ := h
  split at h
  case h_1 none =>
    obtain ⟨rfl, rfl⟩ := leads_pure.1 h
    exact .inl ⟨rfl, rfl, by cases inFrame <;> simp [Store.space, none]⟩
  case h_2 a found =>
    split at h
    case isTrue zero =>
      obtain ⟨rfl, rfl⟩ := leads_pure.1 h
      simp only [Bool.and_eq_true, Spacing.isZero, beq_iff_eq] at zero
      exact .inl ⟨rfl, rfl, by cases inFrame <;> simp [Store.space, found, zero]⟩
    case isFalse =>
      split at h
      case isTrue inFrame =>
        simp only [leads_bind, leads_get, leads_pure] at h
        obtain ⟨_, _, ⟨rfl, rfl⟩, rfl, rfl⟩ := h
        exact .inl ⟨rfl, rfl, by rw [inFrame]; rfl⟩
      case isFalse room =>
        obtain rfl : inFrame = false := by simpa using room
        refine .inr ⟨a.margin, a.padding, ?_⟩
        have space : s.space false child = (a.margin.resolved, a.padding.resolved) := by
          simp [Store.space, found]
        split at h <;> split at h <;>
          simp only [leads_bind, leads_pure] at h <;>
          obtain ⟨padded, m, first, wrapped, m', second, rfl, rfl⟩ := h <;>
          refine ⟨padded, m, space, ?_, ?_⟩ <;>
          simp_all

theorem wrapChild_cased {inFrame : Bool} {child : Element} {r : Element × List Notice}
    (h : Leads (wrapChild inFrame child) s r t) :
    Provides (Cased t (s.space inFrame child) child r.1) s t := by
  rcases wrapChild_cases h with ⟨same, rfl, none⟩ | ⟨margin, padding, padded, m, space, first, second⟩
  · rw [same]
    exact .none (cased_bare none)
  · rw [space]
    exact (surround_cases first).trans (surround_cases second) fun inner outer within firm around =>
      ⟨padded, inner, outer, within.later firm, around, rfl⟩

/-! ## Everything below -/

/-- Whether in every stack under an element the children have their space around them. -/
def Wrapped (s t : Store) (e : Element) : Prop :=
  ∀ k, Reach s e (.stack k) → ∃ news, CasedAll t (s.space false) (s.children (.stack k))
    (t.children (.stack k)) news ∧ ∀ n ∈ news, Novel s t n.element

theorem Wrapped.later {u : Store} {e : Element} (h : Wrapped s t e) (refits : Refits touched t u)
    (held : ∀ x, s.InStore x → t.InStore x) (old : ∀ x, touched x → s.InStore x)
    (wf : s.WellFormed) (he : s.InStore e)
    (apart : ∀ x, touched x → x.isContainer = true ∧ ¬Reach s e x) : Wrapped s u e := by
  intro k reach
  obtain ⟨news, cased, novel⟩ := h k reach
  refine ⟨news, ?_, fun n hn => ⟨(novel n hn).new, refits.held _ (novel n hn).there⟩⟩
  rw [refits.left _ (held _ (wf.inStore_of_reach he reach)) fun here => (apart _ here).2 reach]
  exact cased.later (refits.firm old novel)

/-- A list of trees that share no node, gone through one after the other. -/
theorem wrapChildren_cased {fuel : Nat} {inFrame : Bool} {l : List Element} (wf : s.WellFormed)
    (inside : ∀ e ∈ l, s.InStore e) (forest : s.Forest l)
    (each : ∀ e ∈ l, ∀ (touched : Element → Prop) a r b, Refits touched s a →
      (∀ x, touched x → x.isContainer = true ∧ ¬Reach s e x) → a.WellFormed →
      Leads (wrapWithin fuel e) a r b → Refits (fun x => x.isContainer = true ∧ Reach s e x) a b ∧
        (∃ placed, Sprouts a b placed 0) ∧ Wrapped s b e)
    {a b : Store} (before : Refits touched s a)
    (apart : ∀ e ∈ l, ∀ x, touched x → x.isContainer = true ∧ ¬Reach s e x) (wfa : a.WellFormed)
    {r : List Element × List Notice}
    (h : Leads (wrapChildren (wrapWithin fuel) inFrame l) a r b) :
    Refits (fun x => x.isContainer = true ∧ ∃ e ∈ l, Reach s e x) a b ∧ b.WellFormed ∧
      (∃ placed news, Sprouts a b placed (news.count ·) ∧ CasedAll b (s.space inFrame) l r.1 news) ∧
      ∀ e ∈ l, Wrapped s b e := by
  induction l generalizing a r touched with
  | nil =>
      obtain ⟨rfl, rfl⟩ := leads_pure.1 h
      exact ⟨.refl a, wfa, ⟨0, [], .refl a, .nil⟩, by simp⟩
  | cons e l ih =>
      simp only [wrapChildren, leads_bind, leads_pure] at h
      obtain ⟨_, a₁, first, w, a₂, second, r', _, third, rfl, rfl⟩ := h
      have he := inside e (by simp)
      have later : ∀ x ∈ l, s.InStore x := fun x hx => inside x (List.mem_cons_of_mem e hx)
      have disjoint : ∀ later ∈ l, ∀ x, x.isContainer = true → Reach s e x → ¬Reach s later x :=
        fun later hl x hc => forest.disjoint (d := e) wf.acyclic (List.mem_singleton_self e) hl hc
      -- What is below the child comes first, then the space around it.
      obtain ⟨one, ⟨placed, sprouts⟩, wrapped⟩ := each e (by simp) touched a _ a₁ before
        (apart e (by simp)) wfa first
      have wf₁ := (wrapWithin_grows fuel wfa (before.held e he) first).wf
      have there := one.held e (before.held e he)
      obtain ⟨two, news, cased, nodup, novel⟩ := wrapChild_cased second
      have wf₂ := (wrapChild_wraps wf₁ there second).1.wf
      have front : Refits (fun x => x.isContainer = true ∧ Reach s e x) a a₂ :=
        (one.trans two).imp fun _ _ => Or.rec id False.elim
      have before' := before.trans front
      obtain ⟨three, wfb, ⟨placed', more, sprouts', casedAll⟩, others⟩ := ih later
        (forest.sublist (List.sublist_cons_self e l))
        (fun x hx => each x (List.mem_cons_of_mem e hx)) before'
        (fun x hx y here => here.elim (apart x (List.mem_cons_of_mem e hx) y)
          fun own => ⟨own.1, disjoint x hx y own.1 own.2⟩) wf₂ third
      have old : ∀ x, (x.isContainer = true ∧ ∃ e ∈ l, Reach s e x) → s.InStore x := by
        rintro x ⟨-, y, hy, reach⟩
        exact wf.inStore_of_reach (later y hy) reach
      refine ⟨(front.trans three).imp fun x _ here => ?_, wfb,
        ⟨placed + 0 + placed', news ++ more, ?_, .cons ?_ casedAll⟩, fun x hx => ?_⟩
      · rcases here with ⟨hc, reach⟩ | ⟨hc, y, hy, reach⟩
        · exact ⟨hc, e, by simp, reach⟩
        · exact ⟨hc, y, List.mem_cons_of_mem e hy, reach⟩
      · have own := two.sprouts wf₁ wf₂.acyclic nodup novel
        have all := (sprouts.trans wfa one.held two.held own).trans wfa front.held three.held sprouts'
        have sum : (0 + (news.count ·) + (more.count ·) : Node → Nat) = ((news ++ more).count ·) := by
          funext n
          simp
        rwa [sum] at all
      · have same : a₁.space inFrame e = s.space inFrame e :=
          (one.space inFrame e (before.held e he)).trans (before.space inFrame e he)
        rw [← same]
        refine cased.later (three.firm (s := a₁) (fun x here => ?_) novel)
        exact one.held x (before.held x (old x here))
      · rcases List.mem_cons.1 hx with rfl | hx
        · have held₁ : ∀ y, s.InStore y → a₁.InStore y := fun y hy => one.held y (before.held y hy)
          refine (wrapped.later (two.trans three) held₁ ?_ wf he ?_)
          · exact fun y => Or.rec False.elim (old y)
          · rintro y (none | ⟨hc, z, hz, reach⟩)
            · exact none.elim
            · exact ⟨hc, fun reach' => disjoint z hz y hc reach' reach⟩
        · exact others x hx

/-- The children of a container give way to themselves with their space around them. -/
theorem wrapped_setChildren {a u : Store} {e : Element} {l : List Element} {placed : Node → Nat}
    {news : List Node} (wf : s.WellFormed) (he : s.InStore e) (hc : e.isContainer = true)
    (before : Refits touched s a) (own : ¬touched e) (wfa : a.WellFormed)
    (inner : Refits (fun x => x.isContainer = true ∧ ∃ child ∈ s.children e, Reach s child x) a u)
    (wfu : u.WellFormed) (sprouts : Sprouts a u placed (news.count ·))
    (cased : CasedAll u (s.space (isFrame e)) (s.children e) l news)
    (each : ∀ child ∈ s.children e, Wrapped s u child) (wft : (u.setChildren e l).WellFormed) :
    Refits (fun x => x.isContainer = true ∧ Reach s e x) a (u.setChildren e l) ∧
      Sprouts a (u.setChildren e l) (placed + (news.count ·)) 0 ∧ Wrapped s (u.setChildren e l) e := by
  have last := refits_setChildren u e l
  have held : ∀ x, s.InStore x → u.InStore x := fun x hx => inner.held x (before.held x hx)
  have novel : ∀ n ∈ news, Novel a u n.element := fun n hn => by
    refine sprouts.novel n ?_
    have := List.count_pos_iff.2 hn
    omega
  have cased : CasedAll (u.setChildren e l) (s.space (isFrame e)) (s.children e) l news :=
    cased.later (last.firm (fun _ here => here ▸ before.held e he) novel)
  have children : u.children e = s.children e :=
    (inner.left e (before.held e he) fun here => by
      obtain ⟨-, child, below, reach⟩ := here
      exact wf.acyclic e child below reach).trans (before.left e he own)
  refine ⟨(inner.trans last).imp fun x _ here => ?_, ?_, fun k reach => ?_⟩
  · rcases here with ⟨hc, child, below, reach⟩ | rfl
    · exact ⟨hc, (reach_of_child below).trans reach⟩
    · exact ⟨hc, .root⟩
  · refine sprouts.setChildren wfa wfu inner.held hc wft.acyclic (before.held e he) fun n => ?_
    rw [cased.count_nodesUnder wft.acyclic, children]
  · rcases reach.eq_or_child with rfl | ⟨child, below, reach⟩
    · refine ⟨news, ?_, fun n hn => ?_⟩
      · rwa [children_setChildren_self (held _ he) hc]
      · exact ⟨fun old => (novel n hn).new (before.held _ old), last.held _ (novel n hn).there⟩
    · refine (each child below).later last held (fun x here => here ▸ he) wf
        (wf.closed e child below) ?_ k reach
      rintro x rfl
      exact ⟨hc, wf.acyclic x child below⟩

/-- A walk with enough fuel puts the space around all children of stacks, and the new nodes are in the
trees. -/
theorem wrapWithin_wrapped {rank : Element → Nat} (isRank : s.IsRank rank) (wf : s.WellFormed)
    {fuel : Nat} {e : Element} (enough : rank e ≤ fuel) (he : s.InStore e) (forest : s.Forest [e])
    {a b : Store} (before : Refits touched s a)
    (apart : ∀ x, touched x → x.isContainer = true ∧ ¬Reach s e x) (wfa : a.WellFormed)
    {r : List Notice} (h : Leads (wrapWithin fuel e) a r b) :
    Refits (fun x => x.isContainer = true ∧ Reach s e x) a b ∧ (∃ placed, Sprouts a b placed 0) ∧
      Wrapped s b e := by
  induction fuel generalizing e touched a b r with
  | zero =>
      have := isRank.positive e
      omega
  | succ fuel ih =>
      have wfb := (wrapWithin_grows (fuel + 1) wfa (before.held e he) h).wf
      simp only [wrapWithin] at h
      split at h
      case isTrue leaf =>
        obtain ⟨-, rfl⟩ := leads_pure.1 h
        refine ⟨.refl a, ⟨0, .refl a⟩, fun k reach => ?_⟩
        rw [Bool.not_eq_true'] at leaf
        cases eq_of_reach_leaf leaf reach
        cases leaf
      case isFalse container =>
        have hc : e.isContainer = true := by simpa using container
        simp only [leads_bind, leads_get, leads_modify, leads_pure] at h
        obtain ⟨_, _, ⟨rfl, rfl⟩, r, u, wrapped, _, _, rfl, -, rfl⟩ := h
        have own : ¬touched e := fun here => (apart e here).2 .root
        rw [before.left e he own] at wrapped
        have trees := forest.children wf.acyclic
        obtain ⟨inner, wfu, ⟨placed, news, sprouts, cased⟩, each⟩ := wrapChildren_cased wf
          (wf.closed e) trees
          (fun child below touched a r b before apart wfa run =>
            ih (isRank.child_le below enough) (wf.closed e child below)
              (trees.sublist (List.singleton_sublist.2 below)) before apart wfa run)
          before (fun child below x here => ⟨(apart x here).1, fun reach =>
            (apart x here).2 ((reach_of_child below).trans reach)⟩) wfa wrapped
        obtain ⟨refits, sprouts', all⟩ := wrapped_setChildren wf he hc before own wfa inner wfu
          sprouts cased each wfb
        exact ⟨refits, ⟨_, sprouts'⟩, all⟩

/-- In a tree in which no node is twice, all children of stacks get their space around them. -/
theorem wrapSpacing_wrapped (wf : s.WellFormed) {e : Element} (he : s.InStore e)
    (forest : s.Forest [e]) {r : List Notice} (h : Leads (wrapSpacing e) s r t) :
    Wrapped s t e ∧ t.Forest [e] := by
  obtain ⟨rank, isRank⟩ := wf.acyclic.exists_rank
  simp only [wrapSpacing, leads_bind, leads_get] at h
  obtain ⟨_, _, ⟨rfl, rfl⟩, h⟩ := h
  obtain ⟨-, ⟨placed, sprouts⟩, wrapped⟩ := wrapWithin_wrapped isRank wf (isRank.bounded e) he forest
    (.refl s : Refits (fun _ => False) s s) (fun _ => False.elim) wf h
  exact ⟨wrapped, sprouts.forest wf (by simpa using he) forest⟩

end StoreM

end Spreadsheet

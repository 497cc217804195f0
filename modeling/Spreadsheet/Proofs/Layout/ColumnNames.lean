import Spreadsheet.Proofs.Layout.Headers
import Spreadsheet.Proofs.Number.Exact

/-!
# The names of columns

The vectors of a table are given names one after the other.  A name that is taken is followed by the
smallest number that makes it free, so that no two vectors of a table have the same name, even when
case is ignored; and no name becomes empty by that.
-/

namespace Spreadsheet

/-! ## Lower case in front of digits -/

namespace Text

variable {c : Char} {ds : List Char}

theorem toNat_of_isDigit (h : c.isDigit = true) : 48 ≤ c.toNat ∧ c.toNat ≤ 57 := by
  simp only [Char.isDigit, Bool.and_eq_true, decide_eq_true_eq] at h
  exact ⟨h.1, h.2⟩

theorem lowerChar_of_isDigit (h : c.isDigit = true) : lowerChar c = [c] := by
  obtain ⟨low, high⟩ := toNat_of_isDigit h
  have small : ¬(65 ≤ c.toNat ∧ c.toNat ≤ 90) := by omega
  have same : c.toLower = c := dif_neg fun upper => small ⟨upper.1, upper.2⟩
  rw [lowerChar, if_pos (by omega), same]

theorem isCased_of_isDigit (h : c.isDigit = true) : isCased c = false := by
  obtain ⟨low, high⟩ := toNat_of_isDigit h
  rw [isCased, if_pos (by omega), Bool.eq_false_iff]
  intro letter
  simp only [Char.isAlpha, Char.isUpper, Char.isLower, Bool.or_eq_true, Bool.and_eq_true,
    decide_eq_true_eq] at letter
  have bounds : 65 ≤ c.toNat := by
    rcases letter with upper | lower
    · exact upper.1
    · exact le_trans (by decide) (show 97 ≤ c.toNat from lower.1)
  omega

/-- Digits are no letters, so a capital sigma in front of them stands at the end of a word if it does
so without them. -/
theorem meetsCased_append (digits : ∀ d ∈ ds, d.isDigit = true) (cs : List Char) :
    meetsCased (cs ++ ds) = meetsCased cs := by
  have after : meetsCased ds = false := by
    unfold meetsCased
    cases first : (ds.dropWhile isCaseIgnorable).head? with
    | none => rfl
    | some d =>
        have mem := (List.dropWhile_sublist isCaseIgnorable).subset (List.mem_of_head? first)
        exact isCased_of_isDigit (digits d mem)
  induction cs with
  | nil => exact after
  | cons c cs ih =>
      by_cases skipped : isCaseIgnorable c = true
      · simpa only [meetsCased, List.cons_append, List.dropWhile_cons_of_pos skipped] using ih
      · simp only [meetsCased, List.cons_append, List.dropWhile_cons_of_neg skipped, List.head?_cons]

theorem lowerAfter_digits (digits : ∀ d ∈ ds, d.isDigit = true) (before : List Char) :
    lowerAfter before ds = ds := by
  induction ds generalizing before with
  | nil => rfl
  | cons d ds ih =>
      have digit := digits d (List.mem_cons_self ..)
      have plain : d.toNat ≠ 0x3A3 := by
        have := toNat_of_isDigit digit
        omega
      rw [lowerAfter, if_neg plain, lowerChar_of_isDigit digit,
        ih fun c hc => digits c (List.mem_cons_of_mem d hc)]
      rfl

theorem lowerAfter_append (digits : ∀ d ∈ ds, d.isDigit = true) (before cs : List Char) :
    lowerAfter before (cs ++ ds) = lowerAfter before cs ++ ds := by
  induction cs generalizing before with
  | nil => exact lowerAfter_digits digits before
  | cons c cs ih =>
      rw [List.cons_append, lowerAfter, lowerAfter, ih, meetsCased_append digits, List.append_assoc]

theorem toList_lowercase_append (base : String) (n : Nat) :
    (lowercase (base ++ Number.natText n)).toList =
      (lowercase base).toList ++ Nat.toDigits 10 n := by
  simp only [lowercase, Number.natText, String.toList_append, String.toList_ofList]
  exact lowerAfter_append (fun _ => Number.isDigit_of_mem_toDigits) [] base.toList

end Text

/-! ## A free name -/

theorem toDigits_injective {m n : Nat} (h : Nat.toDigits 10 m = Nat.toDigits 10 n) : m = n := by
  rw [← Number.ofDigits_toDigits m, h, Number.ofDigits_toDigits]

/-- Names with different numbers differ even when case is ignored. -/
theorem numbered_injective (base : String) {m n : Nat} (hm : 1 ≤ m) (hn : 1 ≤ n)
    (h : Text.lowercase (numbered base m) = Text.lowercase (numbered base n)) : m = n := by
  have bare : ∀ k, (Text.lowercase base).toList ≠ (Text.lowercase base).toList ++ Nat.toDigits 10 k :=
    fun k same => Nat.toDigits_ne_nil (List.self_eq_append_right.1 same)
  have texts := congrArg String.toList h
  unfold numbered at texts
  split at texts <;> split at texts
  · omega
  · rw [Text.toList_lowercase_append] at texts
    exact absurd texts (bare n)
  · rw [Text.toList_lowercase_append] at texts
    exact absurd texts.symm (bare m)
  · rw [Text.toList_lowercase_append, Text.toList_lowercase_append] at texts
    exact toDigits_injective (List.append_cancel_left texts)

/-- A name is found: there are more candidates than names taken. -/
theorem find?_freeName (taken : List String) (base : String) :
    ∃ name, ((List.range' 1 (taken.length + 1)).map (numbered base)).find?
      (fun name => !taken.contains (Text.lowercase name)) = some name := by
  rw [← Option.isSome_iff_exists, Option.isSome_iff_ne_none]
  intro none
  have all : ∀ n ∈ List.range' 1 (taken.length + 1),
      Text.lowercase (numbered base n) ∈ taken := by
    intro n hn
    have found := List.find?_eq_none.1 none _ (List.mem_map_of_mem hn)
    simpa using found
  have distinct : ((List.range' 1 (taken.length + 1)).map
      fun n => Text.lowercase (numbered base n)).Nodup := by
    refine List.Nodup.map_on (fun m hm n hn same => ?_) List.nodup_range'
    exact numbered_injective base (List.mem_range'_1.1 hm).1 (List.mem_range'_1.1 hn).1 same
  have within : ((List.range' 1 (taken.length + 1)).map
      fun n => Text.lowercase (numbered base n)) ⊆ taken := by
    intro name hname
    obtain ⟨n, hn, rfl⟩ := List.mem_map.1 hname
    exact all n hn
  have short := (List.subperm_of_subset distinct within).length_le
  rw [List.length_map, List.length_range'] at short
  omega

theorem freeName_not_taken (taken : List String) (base : String) :
    Text.lowercase (freeName taken base) ∉ taken := by
  obtain ⟨name, found⟩ := find?_freeName taken base
  rw [freeName, found]
  simpa using List.find?_some found

theorem numbered_ne_empty {base : String} (filled : base ≠ "") (n : Nat) :
    numbered base n ≠ "" := by
  unfold numbered
  split
  · exact filled
  · intro empty
    exact filled (String.append_eq_empty_iff.1 empty).1

theorem freeName_ne_empty (taken : List String) {base : String} (filled : base ≠ "") :
    freeName taken base ≠ "" := by
  obtain ⟨name, found⟩ := find?_freeName taken base
  rw [freeName, found]
  obtain ⟨n, -, rfl⟩ := List.mem_map.1 (List.mem_of_find?_eq_some found)
  exact numbered_ne_empty filled n

/-! ## Names of vectors -/

namespace Store

variable {s : Store} {v : VectorId} {vectors : List VectorId}

/-- The name of a vector in the form in which names are compared. -/
def nameKey? (s : Store) (v : VectorId) : Option String :=
  (s.vector v).header.map Text.lowercase

/-- Whether some vectors all have names, which differ even when case is ignored. -/
structure Named (s : Store) (vectors : List VectorId) : Prop where
  present : ∀ v ∈ vectors, (s.vector v).header.isSome
  distinct : (vectors.map s.nameKey?).Nodup

theorem header_setHeader_self (inside : s.InStore (.vector v)) (header : String) :
    ((s.setHeader v header).vector v).header = some header :=
  congrArg VectorNode.header (Table.get_update_self s.vectors _ inside)

theorem vector_setHeader_of_ne (s : Store) {w : VectorId} (header : String) (ne : v ≠ w) :
    (s.setHeader v header).vector w = s.vector w :=
  vector_updateVector_of_ne s _ ne

theorem vector_nameVectors_of_notMem (s : Store) (taken : List String) (unnamed : Nat)
    (other : v ∉ vectors) : (s.nameVectors taken unnamed vectors).vector v = s.vector v := by
  induction vectors generalizing s taken unnamed with
  | nil => rfl
  | cons w rest ih =>
      rw [List.mem_cons, not_or] at other
      rw [nameVectors, ih _ _ _ other.2, vector_setHeader_of_ne s _ (Ne.symm other.1)]

/-- The first vector has the first name that is free. -/
theorem header_nameVectors_cons (taken : List String) (unnamed : Nat) {rest : List VectorId}
    (inside : s.InStore (.vector v)) (apart : v ∉ rest) :
    ((s.nameVectors taken unnamed (v :: rest)).vector v).header =
      some (freeName taken ((s.vector v).header.getD (numbered unnamedColumn
        (if (s.vector v).header.isNone then unnamed + 1 else unnamed)))) := by
  rw [nameVectors, vector_nameVectors_of_notMem _ _ _ apart]
  exact header_setHeader_self inside _

/-- Vectors that are named one after the other have names that differ from each other and from all
names that are taken. -/
theorem named_nameVectors (taken : List String) (unnamed : Nat)
    (inside : ∀ v ∈ vectors, s.InStore (.vector v)) (once : vectors.Nodup) :
    (s.nameVectors taken unnamed vectors).Named vectors ∧
      ∀ v ∈ vectors, ∀ key ∈ taken, (s.nameVectors taken unnamed vectors).nameKey? v ≠ some key := by
  induction vectors generalizing s taken unnamed with
  | nil => exact ⟨⟨by simp, by simp⟩, by simp⟩
  | cons v rest ih =>
      obtain ⟨apart, once⟩ := List.nodup_cons.1 once
      have own := header_nameVectors_cons taken unnamed (inside v (by simp)) apart
      rw [nameVectors] at own ⊢
      generalize hname : freeName taken _ = name at own ⊢
      have free : Text.lowercase name ∉ taken := hname ▸ freeName_not_taken taken _
      generalize (if (s.vector v).header.isNone then unnamed + 1 else unnamed) = count at own ⊢
      have relabels := relabels_setHeader s v name
      obtain ⟨named, others⟩ := ih (Text.lowercase name :: taken) count
        (fun w hw => (relabels.inStore (.vector w)).2 (inside w (List.mem_cons_of_mem v hw))) once
      have key : ((s.setHeader v name).nameVectors (Text.lowercase name :: taken) count
          rest).nameKey? v = some (Text.lowercase name) := congrArg (Option.map Text.lowercase) own
      refine ⟨⟨?_, ?_⟩, ?_⟩
      · intro w hw
        rcases List.mem_cons.1 hw with rfl | hw
        · rw [own]
          rfl
        · exact named.present w hw
      · rw [List.map_cons, List.nodup_cons, key]
        refine ⟨fun again => ?_, named.distinct⟩
        obtain ⟨w, hw, same⟩ := List.mem_map.1 again
        exact others w hw _ (List.mem_cons_self ..) same
      · intro w hw k hk same
        rcases List.mem_cons.1 hw with rfl | hw
        · rw [key] at same
          exact free (Option.some.inj same ▸ hk)
        · exact others w hw k (List.mem_cons_of_mem _ hk) same

/-! ## Tables -/

/-- What holds of a store and is kept by giving the vectors of a frame names of its schema holds after
the schema is applied. -/
theorem applySchema_induction {f : FrameId} {P : Store → Prop} (start : P s)
    (step : ∀ t, P t → ∀ v ∈ s.frameVectors f, ∀ entry ∈ (s.frame f).schema,
      P (t.setHeader v entry.2)) : P (s.applySchema f) := by
  apply List.foldlRecOn _ _ start
  intro t ht v hv
  split
  case h_1 name found =>
    obtain ⟨h, -, found⟩ := Option.bind_eq_some_iff.1 found
    obtain ⟨before, after, split, -⟩ := List.lookup_eq_some_iff.1 found
    exact step t ht v hv (h, name) (by simp [split])
  case h_2 => exact ht

theorem frames_applySchema (s : Store) (f : FrameId) : (s.applySchema f).frames = s.frames :=
  applySchema_relates chains_part (fun _ _ _ => rfl) s f

theorem frames_prepareFrame (s : Store) (f : FrameId) : (s.prepareFrame f).frames = s.frames :=
  prepareFrame_relates chains_part (fun _ _ _ => rfl) s f

theorem frameVectors_congr {t : Store} (same : t.frames = s.frames) (f : FrameId) :
    t.frameVectors f = s.frameVectors f := by
  rw [frameVectors, frame, same, frameVectors, frame]

/-- The vectors of other frames keep their names. -/
theorem vector_prepareFrame_of_notMem (s : Store) {f : FrameId} (other : v ∉ s.frameVectors f) :
    (s.prepareFrame f).vector v = s.vector v := by
  have renamed : (s.applySchema f).vector v = s.vector v := by
    apply applySchema_induction (P := fun t => t.vector v = s.vector v) rfl
    intro t same w hw entry _
    have ne : w ≠ v := fun here => other (here ▸ hw)
    rw [vector_setHeader_of_ne t _ ne, same]
  unfold prepareFrame
  dsimp only
  split
  case isTrue =>
    rw [frameVectors_congr (frames_applySchema s f), vector_nameVectors_of_notMem _ _ _ other,
      renamed]
  case isFalse => exact renamed

theorem named_prepareFrame {f : FrameId} (table : (s.frame f).table.isSome)
    (inside : ∀ v ∈ s.frameVectors f, s.InStore (.vector v)) (once : (s.frameVectors f).Nodup) :
    (s.prepareFrame f).Named (s.frameVectors f) := by
  have frames := frames_applySchema s f
  have table : ((s.applySchema f).frame f).table.isSome := by rwa [frame, frames]
  rw [prepareFrame, if_pos table, frameVectors_congr frames]
  refine (named_nameVectors [] 0 (fun v hv => ?_) once).1
  have relabels := applySchema_relates chains_relabels relabels_setHeader s f
  exact (relabels.inStore (.vector v)).2 (inside v hv)

theorem Named.congr {t : Store} (h : s.Named vectors)
    (same : ∀ v ∈ vectors, (t.vector v).header = (s.vector v).header) : t.Named vectors where
  present v hv := by
    rw [same v hv]
    exact h.present v hv
  distinct := by
    have keys : vectors.map t.nameKey? = vectors.map s.nameKey? :=
      List.map_congr_left fun v hv => congrArg (Option.map Text.lowercase) (same v hv)
    rw [keys]
    exact h.distinct

/-- Rename and name the headers of some frames, one after the other. -/
def prepareEach (s : Store) (l : List Element) : Store :=
  l.foldl (fun t e => match e with
    | .frame f => t.prepareFrame f
    | _ => t) s

theorem prepareEach_concat (s : Store) (l : List Element) (e : Element) :
    s.prepareEach (l ++ [e]) = match e with
      | .frame f => (s.prepareEach l).prepareFrame f
      | _ => s.prepareEach l := by
  rw [prepareEach, List.foldl_append]
  cases e <;> rfl

/-- What holds of a store and is kept by preparing a frame holds after frames are prepared. -/
theorem prepareEach_induction {l : List Element} {P : Store → Prop} (start : P s)
    (step : ∀ t, P t → ∀ f, .frame f ∈ l → P (t.prepareFrame f)) : P (s.prepareEach l) := by
  induction l using List.reverseRecOn with
  | nil => exact start
  | append_singleton l e ih =>
      have before := ih fun t ht f hf => step t ht f (List.mem_append_left _ hf)
      rw [prepareEach_concat]
      cases e with
      | frame f => exact step _ before f (by simp)
      | _ => exact before

/-- When frames are prepared, the vectors of a table among them get names that differ, unless one of
them is in another frame as well. -/
theorem named_prepareEach {l : List Element} {f : FrameId} (mem : .frame f ∈ l)
    (table : (s.frame f).table.isSome) (inside : ∀ v ∈ s.frameVectors f, s.InStore (.vector v))
    (once : (s.frameVectors f).Nodup)
    (own : ∀ g, .frame g ∈ l → ∀ v ∈ s.frameVectors f, v ∈ s.frameVectors g → g = f) :
    (s.prepareEach l).Named (s.frameVectors f) := by
  induction l using List.reverseRecOn with
  | nil => cases mem
  | append_singleton l e ih =>
      rw [prepareEach_concat]
      have frames : (s.prepareEach l).frames = s.frames := by
        apply prepareEach_induction (P := fun t => t.frames = s.frames) rfl
        exact fun t h g _ => (frames_prepareFrame t g).trans h
      have held : ∀ v ∈ s.frameVectors f, (s.prepareEach l).InStore (.vector v) := by
        intro v hv
        apply prepareEach_induction (P := fun t => t.InStore (.vector v)) (inside v hv)
        exact fun t h g _ => ((relabels_prepareFrame t g).inStore (.vector v)).2 h
      have vectors := frameVectors_congr frames
      by_cases here : e = .frame f
      · subst here
        have named : ((s.prepareEach l).prepareFrame f).Named ((s.prepareEach l).frameVectors f) := by
          apply named_prepareFrame
          · rwa [frame, frames]
          · rwa [vectors]
          · rwa [vectors]
        rwa [vectors] at named
      · have earlier : .frame f ∈ l := by
          rcases List.mem_append.1 mem with mem | last
          · exact mem
          · exact absurd (List.mem_singleton.1 last).symm here
        have named := ih earlier fun g hg => own g (List.mem_append_left _ hg)
        cases e with
        | frame g =>
            -- No vector of the table is in this frame.
            apply named.congr
            intro v hv
            have other : v ∉ (s.prepareEach l).frameVectors g := by
              rw [vectors]
              intro again
              exact here (congrArg Element.frame (own g (by simp) v hv again))
            exact congrArg VectorNode.header (vector_prepareFrame_of_notMem _ other)
        | _ => exact named

theorem prepareHeaders_eq (s : Store) (root : Element) :
    s.prepareHeaders root = s.prepareEach (s.subtree root) :=
  rfl

/-- A vector that is not below an element keeps its name when the headers below that are prepared. -/
theorem vector_prepareHeaders_of_not_reach (acyclic : s.Acyclic) {root : Element}
    (outside : ¬Reach s root (.vector v)) : (s.prepareHeaders root).vector v = s.vector v := by
  rw [prepareHeaders_eq]
  refine (prepareEach_induction (P := fun t => t.frames = s.frames ∧ t.vector v = s.vector v)
    ⟨rfl, rfl⟩ ?_).2
  rintro t ⟨frames, same⟩ f hf
  refine ⟨(frames_prepareFrame t f).trans frames, ?_⟩
  have other : v ∉ t.frameVectors f := by
    rw [frameVectors_congr frames]
    intro hv
    exact outside ((acyclic.mem_subtree.1 hf).trans (reach_of_child (mem_frameVectors.1 hv)))
  rw [vector_prepareFrame_of_notMem t other, same]

/-! ## Empty names -/

/-- Whether there is no empty name, neither on a vector nor in a schema. -/
structure NamesFilled (s : Store) : Prop where
  headers : ∀ v, (s.vector v).header ≠ some ""
  schemas : ∀ f, ∀ entry ∈ (s.frame f).schema, entry.2 ≠ ""

theorem NamesFilled.setHeader (h : s.NamesFilled) (v : VectorId) {header : String} (filled : header ≠ "") :
    (s.setHeader v header).NamesFilled where
  headers w := by
    rcases vector_updateVector_cases s v w fun n => { n with header := some header } with same | same
    · rw [Store.setHeader, same]
      exact h.headers w
    · rw [Store.setHeader, same]
      exact fun empty => filled (Option.some.inj empty)
  schemas := h.schemas

theorem NamesFilled.nameVectors (h : s.NamesFilled) (taken : List String) (unnamed : Nat)
    (vectors : List VectorId) : (s.nameVectors taken unnamed vectors).NamesFilled := by
  induction vectors generalizing s taken unnamed with
  | nil => exact h
  | cons v rest ih =>
      refine ih (h.setHeader v (freeName_ne_empty taken ?_)) _ _
      cases header : (s.vector v).header with
      | some name => exact fun empty => h.headers v (header.trans (congrArg some empty))
      | none => exact numbered_ne_empty (by decide) _

theorem NamesFilled.prepareFrame (h : s.NamesFilled) (f : FrameId) : (s.prepareFrame f).NamesFilled := by
  have renamed : (s.applySchema f).NamesFilled := by
    apply applySchema_induction h
    exact fun t ht v _ entry hentry => ht.setHeader v (h.schemas f entry hentry)
  unfold Store.prepareFrame
  dsimp only
  split
  case isTrue => exact renamed.nameVectors _ _ _
  case isFalse => exact renamed

theorem NamesFilled.prepareHeaders (h : s.NamesFilled) (root : Element) : (s.prepareHeaders root).NamesFilled :=
  prepareEach_induction h fun _ ht f _ => ht.prepareFrame f

end Store

end Spreadsheet

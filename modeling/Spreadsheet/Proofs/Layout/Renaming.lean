import Spreadsheet.Proofs.Layout.ColumnNames

/-!
# Columns that keep their names

A search that tries the numbers one after the other ends with the first one that makes a name free; it
tries at most one number more than there are names taken.  A column that comes with a name is given another
one only if its own is used by a column before it, and then its own name with the least number that is
free.
-/

namespace Spreadsheet

/-! ## The search for a name -/

/-- The first name that is not taken of those with the numbers from `n` on, which are tried one after the
other; there is none if the search is not at its end after so many tries. -/
def tryNames (taken : List String) (base : String) : (tries n : Nat) → Option String
  | 0, _ => none
  | tries + 1, n =>
    if taken.contains (Text.lowercase (numbered base n)) then tryNames taken base tries (n + 1)
    else some (numbered base n)

theorem tryNames_of_taken {taken : List String} {base : String} {n : Nat} (tries : Nat)
    (used : Text.lowercase (numbered base n) ∈ taken) :
    tryNames taken base (tries + 1) n = tryNames taken base tries (n + 1) := by
  rw [tryNames, if_pos (List.contains_iff_mem.2 used)]

theorem tryNames_of_free {taken : List String} {base : String} {n : Nat} (tries : Nat)
    (free : Text.lowercase (numbered base n) ∉ taken) :
    tryNames taken base (tries + 1) n = some (numbered base n) := by
  rw [tryNames, if_neg (mt List.contains_iff_mem.1 free)]

/-- The name that is found is the one with the least number that is free. -/
theorem exists_freeName_eq (taken : List String) (base : String) :
    ∃ n, n ≤ taken.length ∧ freeName taken base = numbered base (n + 1) ∧
      Text.lowercase (numbered base (n + 1)) ∉ taken ∧
      ∀ m < n, Text.lowercase (numbered base (m + 1)) ∈ taken := by
  obtain ⟨name, found⟩ := find?_freeName taken base
  have here : freeName taken base = name := by rw [freeName, found]; rfl
  rw [List.find?_map, Option.map_eq_some_iff] at found
  obtain ⟨k, found, rfl⟩ := found
  obtain ⟨free, inside, earlier⟩ := List.find?_range'_eq_some.1 found
  obtain ⟨low, high⟩ := List.mem_range'_1.1 inside
  obtain ⟨n, rfl⟩ := Nat.exists_eq_add_of_le' low
  refine ⟨n, by omega, here, by simpa using free, fun m below => ?_⟩
  simpa using earlier (m + 1) (by omega) (by omega)

/-- A search ends with the free name once it may try one name more than are taken. -/
theorem tryNames_eq {taken : List String} (base : String) {tries : Nat}
    (enough : taken.length < tries) : tryNames taken base tries 1 = some (freeName taken base) := by
  obtain ⟨n, few, same, free, least⟩ := exists_freeName_eq taken base
  -- All numbers from one on that are tried before the free one are passed over.
  have passed : ∀ m ≤ n, ∀ left, tryNames taken base (left + m) 1 =
      tryNames taken base left (m + 1) := by
    intro m hm
    induction m with
    | zero => exact fun left => rfl
    | succ m ih =>
        intro left
        rw [← Nat.succ_add_eq_add_succ, ih (by omega) (left + 1), tryNames_of_taken _ (least m hm)]
  obtain ⟨left, rfl⟩ := Nat.exists_eq_add_of_le' (Nat.succ_le_of_lt (lt_of_le_of_lt few enough))
  calc tryNames taken base (left + (n + 1)) 1
    _ = tryNames taken base (left + 1 + n) 1 := by rw [Nat.succ_add_eq_add_succ]
    _ = tryNames taken base (left + 1) (n + 1) := passed n (Nat.le_refl n) (left + 1)
    _ = some (numbered base (n + 1)) := tryNames_of_free left free
    _ = some (freeName taken base) := by rw [same]

/-! ## Names of columns -/

/-- What becomes of the own name of a column when some names are used: it is kept if it is not used, and
otherwise it is followed by the least number from two on that makes a name that is not used. -/
inductive Renames (used : String → Prop) (own : String) : String → Prop
  | kept (free : ¬used (Text.lowercase own)) : Renames used own own
  | numbered {n : Nat} (clash : used (Text.lowercase own)) (low : 2 ≤ n)
      (free : ¬used (Text.lowercase (own ++ Number.natText n)))
      (least : ∀ m, 2 ≤ m → m < n → used (Text.lowercase (own ++ Number.natText m))) :
      Renames used own (own ++ Number.natText n)

theorem Renames.congr {used used' : String → Prop} {own name : String}
    (same : ∀ key, used key ↔ used' key) (h : Renames used own name) : Renames used' own name := by
  rwa [show used' = used from funext fun key => propext (same key).symm]

theorem numbered_one (base : String) : numbered base 1 = base :=
  if_pos (Nat.le_refl 1)

theorem numbered_of_two_le (base : String) {n : Nat} (h : 2 ≤ n) :
    numbered base n = base ++ Number.natText n :=
  if_neg (Nat.not_le.2 h)

theorem freeName_renames (taken : List String) (own : String) :
    Renames (· ∈ taken) own (freeName taken own) := by
  obtain ⟨n, -, same, free, least⟩ := exists_freeName_eq taken own
  rw [same]
  cases n with
  | zero =>
      rw [numbered_one] at free ⊢
      exact .kept free
  | succ n =>
      have clash := least 0 (Nat.succ_pos n)
      rw [numbered_one] at clash
      rw [numbered_of_two_le own (by omega)] at free ⊢
      refine .numbered clash (by omega) free fun m hm below => ?_
      obtain ⟨k, rfl⟩ := Nat.exists_eq_add_of_le' (Nat.one_le_of_lt hm)
      rw [← numbered_of_two_le own hm]
      exact least k (by omega)

namespace Store

variable {s : Store} {v : VectorId} {vectors : List VectorId}

/-- Give the vectors of a table their names, one after the other, with so many tries for each; there is no
answer if a search is not at its end then. -/
def tryNameVectors (s : Store) (tries : Nat) (taken : List String) (unnamed : Nat) :
    List VectorId → Option Store
  | [] => some s
  | v :: rest => do
    let header := (s.vector v).header
    let unnamed := if header.isNone then unnamed + 1 else unnamed
    let name ← tryNames taken (header.getD (numbered unnamedColumn unnamed)) tries 1
    (s.setHeader v name).tryNameVectors tries (Text.lowercase name :: taken) unnamed rest

theorem tryNameVectors_eq (s : Store) {tries : Nat} {taken : List String} (unnamed : Nat)
    (enough : taken.length + vectors.length ≤ tries) :
    s.tryNameVectors tries taken unnamed vectors = some (s.nameVectors taken unnamed vectors) := by
  induction vectors generalizing s taken unnamed with
  | nil => rfl
  | cons v rest ih =>
      rw [List.length_cons] at enough
      rw [tryNameVectors, tryNames_eq _ (by omega)]
      exact ih _ _ (by rw [List.length_cons]; omega)

/-- A vector keeps its name, or has another made of it, as the names that are taken and those of the
vectors before it demand. -/
theorem nameVectors_renames (taken : List String) (unnamed : Nat)
    (inside : ∀ v ∈ vectors, s.InStore (.vector v)) (once : vectors.Nodup)
    {before after : List VectorId} (split : vectors = before ++ v :: after) {own : String}
    (header : (s.vector v).header = some own) :
    ∃ name, ((s.nameVectors taken unnamed vectors).vector v).header = some name ∧
      Renames (fun key => key ∈ taken ∨
        ∃ w ∈ before, (s.nameVectors taken unnamed vectors).nameKey? w = some key) own name := by
  subst split
  induction before generalizing s taken unnamed with
  | nil =>
      obtain ⟨apart, -⟩ := List.nodup_cons.1 once
      have first := header_nameVectors_cons taken unnamed (inside v (by simp)) apart
      rw [header] at first
      exact ⟨_, first, (freeName_renames taken own).congr fun key => by simp⟩
  | cons u before ih =>
      rw [List.cons_append] at inside once ⊢
      obtain ⟨apart, once⟩ := List.nodup_cons.1 once
      have ne : u ≠ v := fun here => apart (by simp [here])
      have first := header_nameVectors_cons taken unnamed (inside u (by simp)) apart
      rw [nameVectors] at first ⊢
      generalize freeName taken _ = chosen at first ⊢
      generalize (if (s.vector u).header.isNone then unnamed + 1 else unnamed) = count at first ⊢
      have kept := vector_setHeader_of_ne s chosen ne
      have still : ∀ w ∈ before ++ v :: after, (s.setHeader u chosen).InStore (.vector w) :=
        fun w hw => ((relabels_setHeader s u chosen).inStore (.vector w)).2
          (inside w (List.mem_cons_of_mem u hw))
      obtain ⟨name, final, renames⟩ := ih (Text.lowercase chosen :: taken) count (kept ▸ header)
        still once
      refine ⟨name, final, renames.congr fun key => ?_⟩
      -- The name of the vector in front is one of the names taken for those behind it.
      have front : ((s.setHeader u chosen).nameVectors (Text.lowercase chosen :: taken) count
          (before ++ v :: after)).nameKey? u = some (Text.lowercase chosen) :=
        congrArg (Option.map Text.lowercase) first
      rw [List.mem_cons, List.exists_mem_cons_iff, front, Option.some.injEq, eq_comm, or_assoc,
        or_left_comm]

/-- Naming the columns of a table ends: no search for a name tries more names than there are columns, and
whoever allows more finds the same.  All its vectors have names then, which differ even when case is
ignored; a vector keeps its own name if no vector before it has that, and otherwise has its own name with
the least number from two on that none of them has. -/
theorem tryNameVectors_renames {f : FrameId} (inside : ∀ v ∈ s.frameVectors f, s.InStore (.vector v))
    (once : (s.frameVectors f).Nodup) :
    ∃ t, (∀ tries, (s.frameVectors f).length ≤ tries →
        s.tryNameVectors tries [] 0 (s.frameVectors f) = some t) ∧
      s.nameVectors [] 0 (s.frameVectors f) = t ∧ t.Named (s.frameVectors f) ∧
      ∀ before v after own, s.frameVectors f = before ++ v :: after →
        (s.vector v).header = some own → ∃ name, (t.vector v).header = some name ∧
          Renames (fun key => ∃ w ∈ before, t.nameKey? w = some key) own name := by
  refine ⟨_, fun tries enough => tryNameVectors_eq s 0 (by simpa using enough), rfl,
    (named_nameVectors [] 0 inside once).1, ?_⟩
  intro before v after own split header
  obtain ⟨name, final, renames⟩ := nameVectors_renames [] 0 inside once split header
  exact ⟨name, final, renames.congr fun key => by simp⟩

/-- A table of columns two of which have one name but for the case, one has the name that the second of
them is given, and one has none. -/
def clashingNames : Store where
  vectors := ⟨#[{ orientation := .vertical, header := some "x" },
    { orientation := .vertical, header := some "X" },
    { orientation := .vertical, header := some "x2" }, { orientation := .vertical }]⟩
  frames := ⟨#[{
    orientation := .horizontal
    children := [.vector ⟨0⟩, .vector ⟨1⟩, .vector ⟨2⟩, .vector ⟨3⟩]
    table := some {} }]⟩

theorem tryNameVectors_clashingNames :
    ∃ t, (∀ tries, 4 ≤ tries →
        clashingNames.tryNameVectors tries [] 0 (clashingNames.frameVectors ⟨0⟩) = some t) ∧
      clashingNames.nameVectors [] 0 (clashingNames.frameVectors ⟨0⟩) = t ∧
      t.Named (clashingNames.frameVectors ⟨0⟩) ∧
      ∀ before v after own, clashingNames.frameVectors ⟨0⟩ = before ++ v :: after →
        (clashingNames.vector v).header = some own → ∃ name, (t.vector v).header = some name ∧
          Renames (fun key => ∃ w ∈ before, t.nameKey? w = some key) own name :=
  tryNameVectors_renames (s := clashingNames) (f := ⟨0⟩) (by decide) (by decide)

example : (clashingNames.frameVectors ⟨0⟩).map (fun v =>
    ((clashingNames.nameVectors [] 0 (clashingNames.frameVectors ⟨0⟩)).vector v).header) =
      [some "x", some "X2", some "x22", some "Unnamed"] := by
  decide +kernel

end Store

end Spreadsheet

import Spreadsheet.Proofs.Layout.Sheet

/-!
# Laying out all sheets

Sheets are laid out in order.  When no cell is on two of them, or twice on one, the places that the
cells of a sheet have in the end are those that they got when the sheet was laid out.
-/

namespace Spreadsheet

open Store

variable {s t u : Store} {b b' : Build} {roots : List Element}

/-! ## What later sheets leave as it is -/

namespace Store

theorem Grows.reach_cases (g : Grows roots s t) {a x : Element} (reach : Reach t a x)
    (wf : s.WellFormed) (ha : s.InStore a) :
    (s.InStore x ∧ Reach s a x) ∨ ∃ r ∈ roots, Reach t r x := by
  induction reach with
  | root => exact .inl ⟨ha, .root⟩
  | @child parent child above below ih =>
      rcases ih with ⟨old, reach⟩ | ⟨r, hr, reach⟩
      · rcases g.kept parent old with same | ⟨r, hr, reach'⟩
        · rw [same.1] at below
          exact .inl ⟨wf.closed parent child below, .child reach below⟩
        · exact .inr ⟨r, hr, .child reach' below⟩
      · exact .inr ⟨r, hr, .child reach below⟩

/-- Whether no cell below an element is below one of the roots. -/
def Private (s : Store) (roots : List Element) (e : Element) : Prop :=
  ∀ c ∈ s.leaves e, ∀ r ∈ roots, c ∉ s.leaves r

theorem Private.below {e x : Element} (h : Private s roots e) (acyclic : s.Acyclic)
    (reach : Reach s e x) : Private s roots x :=
  fun c hc => h c (acyclic.leaves_subset reach hc)

theorem Private.not_reach {e : Element} (h : Private s roots e) (acyclic : s.Acyclic)
    (bearing : s.leaves e ≠ []) : ¬∃ r ∈ roots, Reach s r e := by
  rintro ⟨r, hr, reach⟩
  obtain ⟨c, hc⟩ := leaves_ne_nil_iff.1 bearing
  exact h c hc r hr (acyclic.leaves_subset reach hc)

theorem Grows.leaves_subset (g : Grows roots s t) (wf : s.WellFormed) (e : Element) :
    s.leaves e ⊆ t.leaves e := fun _ hc =>
  g.wf.acyclic.mem_leaves.2 (g.reach _ _ rfl (wf.acyclic.mem_leaves.1 hc))

theorem Grows.leaves_eq (g : Grows roots s t) (wf : s.WellFormed) {e : Element}
    (he : s.InStore e) (own : Private t roots e) : t.leaves e = s.leaves e := by
  induction e using wf.acyclic.induction with
  | step e ih =>
      by_cases bearing : t.leaves e = []
      · have none := g.leaves_subset wf e
        rw [bearing] at none
        rw [bearing, List.subset_nil.1 none]
      · have same := (g.kept e he).resolve_right (own.not_reach g.wf.acyclic bearing)
        rw [g.wf.acyclic.leaves_eq, wf.acyclic.leaves_eq, same.1]
        congr 1
        refine List.flatMap_congr fun child below => ?_
        refine ih child below (wf.closed e child below) (own.below g.wf.acyclic ?_)
        exact reach_of_child (same.1 ▸ below)

theorem Grows.reach_bearing (g : Grows roots s t) (wf : s.WellFormed) {e x : Element}
    (he : s.InStore e) (own : Private t roots e) (reach : Reach t e x) (bearing : t.leaves x ≠ []) :
    s.InStore x ∧ Reach s e x := by
  rcases g.reach_cases reach wf he with old | later
  · exact old
  · exact absurd later ((own.below g.wf.acyclic reach).not_reach g.wf.acyclic bearing)

theorem Grows.location?_bearing (g : Grows roots s t) {x : Element} (hx : s.InStore x)
    (own : Private t roots x) (bearing : t.leaves x ≠ []) : t.location? x = s.location? x :=
  ((g.kept x hx).resolve_right (own.not_reach g.wf.acyclic bearing)).2

theorem Grows.cellArea?_eq (g : Grows roots s t) {c : CellId} (hc : s.InStore (.cell c))
    (own : Private t roots (.cell c)) : t.cellArea? c = s.cellArea? c := by
  have bearing : t.leaves (.cell c) ≠ [] := by simp [leaves_cell g.wf.acyclic]
  have location : (t.cell c).location = (s.cell c).location :=
    g.location?_bearing hc own bearing
  rw [cellArea?, cellArea?, location, g.merge c hc]

end Store

/-! ## What a sheet looks like -/

/-- Whether the cells of a sheet have their places on it, those of elements that are beside each
other apart, and the cells of every container are in the area of the container. -/
structure Tiled (s : Store) (root : Element) (sheet : String) : Prop where
  once : (s.leaves root).Nodup
  located : ∀ c ∈ s.leaves root, ∃ a, s.cellArea? c = some a ∧ a.corner.sheet = sheet
  parted : ∀ x y, Reach s root x → Reach s root y → ¬Reach s x y → ¬Reach s y x → s.Parted x y
  inside : ∀ e ∈ s.subtree root, e.isContainer = true → ∀ c ∈ s.leaves e,
    ∃ l a, s.location? e = some l ∧ s.cellArea? c = some a ∧ Area.Within a ⟨l, s.extent e⟩

/-- No two cells of a sheet cover the same place. -/
theorem Tiled.disjoint {root : Element} {sheet : String} (h : Tiled s root sheet)
    (acyclic : s.Acyclic) : (s.leaves root).Pairwise fun c d => ∀ a b, s.cellArea? c = some a →
      s.cellArea? d = some b → Area.Disjoint a b := by
  refine h.once.imp_of_mem fun {c d} hc hd ne a b ha hb => ?_
  have apart : ∀ {c d : CellId}, c ≠ d → ¬Reach s (.cell c) (.cell d) := by
    intro c d ne reach
    rcases reach.eq_or_child with same | ⟨_, none, -⟩
    · exact ne (by cases same; rfl)
    · cases none
  obtain ⟨o, ahead | behind⟩ := h.parted (.cell c) (.cell d) (acyclic.mem_leaves.1 hc)
    (acyclic.mem_leaves.1 hd) (apart ne) (apart ne.symm)
  all_goals simp only [leaves_cell acyclic, List.mem_singleton] at *
  · exact Area.disjoint_iff.2 ⟨o, .inl (ahead c rfl d rfl a b ha hb)⟩
  · exact Area.disjoint_iff.2 ⟨o, .inr (behind c rfl d rfl a b ha hb)⟩

theorem LaidOut.tiled {root : Element} {sheet : String} (h : LaidOut s t root sheet)
    (once : (t.leaves root).Nodup) : Tiled t root sheet := by
  have acyclic := h.grows.wf.acyclic
  have settled := h.settled once
  have corner : ∀ c ∈ t.leaves root, t.location? root = some ⟨sheet, 0, 0⟩ :=
    fun c hc => settled.here (leaves_ne_nil_iff.2 ⟨c, hc⟩)
  refine ⟨once, fun c hc => ?_, fun x y hx hy => ?_, fun e he _ c hc => ?_⟩
  · obtain ⟨a, ha, inside⟩ := leaf_within acyclic settled.below (corner c hc) hc
    exact ⟨a, ha, inside.1⟩
  · by_cases bearing : t.leaves root = []
    · have bare : t.leaves x = [] :=
        List.subset_nil.1 fun c hc => bearing ▸ acyclic.leaves_subset hx hc
      exact fun _ _ => parted_of_leaves_eq_nil y bare
    · exact parted_of_reach acyclic settled.below (settled.here bearing) hx hy
  · have reach := acyclic.mem_subtree.1 he
    have bearing := leaves_ne_nil_iff.2 ⟨c, hc⟩
    obtain ⟨l, hl, -⟩ := within_of_reach acyclic settled.below
      (corner c (acyclic.leaves_subset reach hc)) reach bearing
    obtain ⟨a, ha, inside⟩ := leaf_within acyclic
      (fun x below => settled.below x (reach.trans below)) hl hc
    exact ⟨l, a, hl, ha, inside⟩

theorem Tiled.later {root : Element} {sheet : String} (h : Tiled s root sheet) (wf : s.WellFormed)
    (hroot : s.InStore root) (g : Grows roots s t) (own : Private t roots root) :
    Tiled t root sheet := by
  have leaves := g.leaves_eq wf hroot own
  have area : ∀ c ∈ t.leaves root, t.cellArea? c = s.cellArea? c := by
    intro c hc
    have below := own.below g.wf.acyclic (g.wf.acyclic.mem_leaves.1 hc)
    rw [leaves] at hc
    exact g.cellArea?_eq (wf.inStore_of_reach hroot (wf.acyclic.mem_leaves.1 hc)) below
  refine ⟨leaves ▸ h.once, fun c hc => ?_, fun x y hx hy above beside => ?_,
    fun e he container c hc => ?_⟩
  · rw [area c hc]
    exact h.located c (leaves ▸ hc)
  · by_cases bare : t.leaves x = []
    · exact parted_of_leaves_eq_nil y bare
    by_cases bare' : t.leaves y = []
    · exact (parted_of_leaves_eq_nil x bare').symm
    have same : ∀ z, Reach t root z → t.leaves z ≠ [] →
        Reach s root z ∧ t.leaves z = s.leaves z ∧ z.isSolid = true := by
      intro z reach bearing
      obtain ⟨inside, reach'⟩ := g.reach_bearing wf hroot own reach bearing
      exact ⟨reach', g.leaves_eq wf inside (own.below g.wf.acyclic reach),
        isSolid_of_bearing g.wf.acyclic bearing⟩
    obtain ⟨hx', leavesX, solidX⟩ := same x hx bare
    obtain ⟨hy', leavesY, solidY⟩ := same y hy bare'
    have apart := h.parted x y hx' hy' (fun reach => above (g.reach x y solidY reach))
      fun reach => beside (g.reach y x solidX reach)
    refine apart.congr leavesX leavesY (fun c hc => ?_) fun c hc => ?_
    · exact area c (g.wf.acyclic.leaves_subset hx hc)
    · exact area c (g.wf.acyclic.leaves_subset hy hc)
  · have reach := g.wf.acyclic.mem_subtree.1 he
    have bearing := leaves_ne_nil_iff.2 ⟨c, hc⟩
    have below := own.below g.wf.acyclic reach
    obtain ⟨inside, reach'⟩ := g.reach_bearing wf hroot own reach bearing
    rw [area c (g.wf.acyclic.leaves_subset reach hc), g.location?_bearing inside below bearing]
    rw [g.leaves_eq wf inside below] at hc
    obtain ⟨l, a, hl, ha, within⟩ := h.inside e (wf.acyclic.mem_subtree.2 reach') container c hc
    exact ⟨l, a, hl, ha, within.mono (g.extent e inside)⟩

/-! ## All sheets -/

/-- What laying out all sheets achieves. -/
structure AllLaidOut (s t : Store) (sheets : List (Sheet × String)) : Prop where
  grows : Grows (sheets.map fun entry => entry.1.element) s t
  located : ∀ entry ∈ sheets, ∀ c ∈ t.leaves entry.1.element, (t.cell c).location.isSome
  tiled : (sheets.flatMap fun entry => t.leaves entry.1.element).Nodup →
    ∀ entry ∈ sheets, Tiled t entry.1.element entry.2

theorem allLaidOut_cons {entry : Sheet × String} {rest : List (Sheet × String)}
    (hroot : s.InStore entry.1.element) (first : LaidOut s t entry.1.element entry.2)
    (others : AllLaidOut t u rest) : AllLaidOut s u (entry :: rest) := by
  have wf := first.grows.wf
  have inside := first.grows.held _ hroot
  have acyclic := others.grows.wf.acyclic
  have mapped : ∀ r, r ∈ rest.map (fun entry => entry.1.element) →
      ∃ other ∈ rest, other.1.element = r := fun r hr => by simpa using hr
  refine ⟨?_, ?_, ?_⟩
  · exact first.grows.trans others.grows
  · intro other hother c hc
    rcases List.mem_cons.1 hother with rfl | hother
    · rcases others.grows.reach_cases (acyclic.mem_leaves.1 hc) wf inside with
        ⟨old, reach⟩ | ⟨r, hr, reach⟩
      · rcases others.grows.kept _ old with same | ⟨r, hr, reach⟩
        · rw [show (u.cell c).location = (t.cell c).location from same.2]
          exact first.located _ rfl reach
        · obtain ⟨later, hlater, rfl⟩ := mapped r hr
          exact others.located later hlater c (acyclic.mem_leaves.2 reach)
      · obtain ⟨later, hlater, rfl⟩ := mapped r hr
        exact others.located later hlater c (acyclic.mem_leaves.2 reach)
    · exact others.located other hother c hc
  · intro once other hother
    rw [List.flatMap_cons, List.nodup_append] at once
    rcases List.mem_cons.1 hother with rfl | hother
    · have own : Private u (rest.map fun entry => entry.1.element) other.1.element := by
        intro c hc r hr twice
        obtain ⟨later, hlater, rfl⟩ := mapped r hr
        exact once.2.2 c hc c (List.mem_flatMap.2 ⟨later, hlater, twice⟩) rfl
      refine (first.tiled ?_).later wf inside others.grows own
      rw [← others.grows.leaves_eq wf inside own]
      exact once.1
    · exact others.tiled once.2.1 other hother

theorem layOutSheets_allLaidOut {wb : Workbook} {sheets : List (Sheet × String)} {w w' : Writing}
    (wf : w.build.store.WellFormed)
    (hroots : ∀ entry ∈ sheets, w.build.store.InStore entry.1.element) {r : Unit}
    (h : Runs (sheets.forM fun entry => WriteM.ofBuild (wb.layOutSheet entry.1 entry.2)) w r w') :
    AllLaidOut w.build.store w'.build.store sheets ∧ w'.sink = w.sink := by
  induction sheets generalizing w with
  | nil =>
      obtain rfl := runs_forM_nil.1 h
      refine ⟨⟨.refl wf, ?_, ?_⟩, rfl⟩ <;> simp
  | cons entry rest ih =>
      obtain ⟨m, first, others⟩ := runs_forM_cons.1 h
      obtain ⟨bm, step, rfl⟩ := WriteM.runs_ofBuild.1 first
      have laid := layOutSheet_laidOut wf (hroots entry (by simp)) step
      obtain ⟨all, sink⟩ := ih laid.grows.wf
        (fun other hother => laid.grows.held _ (hroots other (List.mem_cons_of_mem _ hother))) others
      exact ⟨allLaidOut_cons (hroots entry (by simp)) laid all, sink⟩

end Spreadsheet

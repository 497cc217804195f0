import Spreadsheet.Proofs.Layout.Tables

/-!
# The tables of all sheets

A table stays as it is while the sheets behind its own are laid out, unless they share a cell with it.
So the tables of all sheets are in the end what they were when their sheet was laid out.
-/

namespace Spreadsheet

open Store

variable {s t u : Store} {b b' : Build} {wb : Workbook} {sheet : Sheet} {name : String} {r : Unit}
  {f : FrameId} {roots more : List Element}

/-! ## One sheet -/

/-- What laying out the trees under some roots does to headers and frames. -/
structure LaidTables (roots : List Element) (s t : Store) : Prop where
  titles : KeepsTitles (fun v => ∃ r ∈ roots, Reach t r (.vector v)) s t
  frames : KeepsFrames s t
  regular : t.Regular
  filled : s.NamesFilled → t.NamesFilled

theorem LaidTables.trans (first : LaidTables roots s t) (second : LaidTables more t u)
    (grows : Grows more t u) : LaidTables (roots ++ more) s u where
  titles := by
    refine (first.titles.mono ?early).trans (second.titles.mono ?late)
    case early =>
      rintro v ⟨r, hr, reach⟩
      exact ⟨r, List.mem_append_left _ hr, grows.reach r _ rfl reach⟩
    case late =>
      rintro v ⟨r, hr, reach⟩
      exact ⟨r, List.mem_append_right _ hr, reach⟩
  frames := first.frames.trans second.frames
  regular := second.regular
  filled h := second.filled (first.filled h)

theorem LaidTables.trans_same {root : Element} (first : LaidTables [root] s t)
    (second : LaidTables [root] t u) (grows : Grows [root] t u) : LaidTables [root] s u := by
  have both := first.trans second grows
  exact { both with titles := both.titles.mono fun v ⟨r, hr, reach⟩ => ⟨r, by simpa using hr, reach⟩ }

theorem BuildM.layOut_laidTables (wf : b.store.WellFormed) (regular : b.store.Regular)
    {root : Element} (hroot : b.store.InStore root) {outer : Inherited}
    (h : Runs (layOut root name outer) b r b') : LaidTables [root] b.store b'.store := by
  obtain ⟨titles, headers, -⟩ := layOut_titles wf hroot h
  have frames := layOut_keepsFrames h
  refine ⟨titles.mono fun v reach => ⟨root, by simp, reach⟩, frames,
    (layOut_regular wf regular hroot h).1, fun filled => ⟨fun v => ?_, fun f entry hentry => ?_⟩⟩
  · rw [headers v]
    exact (filled.prepareHeaders root).headers v
  · rw [(Prod.mk.inj (frames.parts f)).2] at hentry
    exact filled.schemas f entry hentry

theorem push_gap_relates {R : Store → Store → Prop} (h : Gentle R) {k : StackId} {g : Gap}
    (run : Runs (BuildM.push (.stack k) (.gap g)) b r b') : R b.store b'.store := by
  rw [store_of_push_gap run]
  refine h.children (h.refl _) (fun c first => ?_) fun frame => by cases frame
  rw [List.head?_append, first]
  rfl

theorem push_gap_laidTables (regular : b.store.Regular) {k : StackId} {g : Gap}
    (run : Runs (BuildM.push (.stack k) (.gap g)) b r b') :
    LaidTables [.stack k] b.store b'.store where
  titles := push_gap_relates gentle_keepsTitles run
  frames := push_gap_relates gentle_keepsFrames run
  regular := by
    have shapes : Shapes (fun _ => True) CellNode.IsSingle b.store b'.store := by
      rw [store_of_push_gap run]
      refine shapes_setChildren _ _ (fun child hchild => ?_) (fun _ _ => trivial)
        fun v same => by cases same
      rcases List.mem_append.1 hchild with below | new
      · exact ⟨regular.closed _ child below, regular.takes _ child below⟩
      · rw [List.mem_singleton.1 new]
        exact ⟨trivial, rfl⟩
    exact regular_iff_orderly.2 (shapes.orderly (regular_iff_orderly.1 regular))
  filled h := by
    have titles : KeepsTitles (fun _ => False) b.store b'.store :=
      push_gap_relates gentle_keepsTitles run
    have frames : KeepsFrames b.store b'.store := push_gap_relates gentle_keepsFrames run
    refine ⟨fun v => ?_, fun f entry hentry => ?_⟩
    · rw [(titles.header v id).1]
      exact h.headers v
    · rw [(Prod.mk.inj (frames.parts f)).2] at hentry
      exact h.schemas f entry hentry

theorem layOutSheet_laidTables (wf : b.store.WellFormed) (regular : b.store.Regular)
    (hroot : b.store.InStore sheet.element) (h : Runs (wb.layOutSheet sheet name) b r b') :
    LaidTables [sheet.element] b.store b'.store := by
  simp only [Workbook.layOutSheet] at h
  split at h
  case isTrue =>
    obtain ⟨_, m, pushed, laid⟩ := runs_bind.1 h
    have g := push_gap_grows wf hroot pushed
    have first := push_gap_laidTables regular pushed
    have later := BuildM.layOut_laidTables g.wf first.regular (g.held _ hroot) laid
    exact first.trans_same later (layOut_laidOut g.wf (g.held _ hroot) laid).grows
  case isFalse => exact BuildM.layOut_laidTables wf regular hroot h

theorem layOutSheet_tabled (wf : b.store.WellFormed) (regular : b.store.Regular)
    (hroot : b.store.InStore sheet.element) (blank : b.store.Uninserted sheet.element)
    (h : Runs (wb.layOutSheet sheet name) b r b') (once : (b'.store.leaves sheet.element).Nodup)
    (reach : Reach b'.store sheet.element (.frame f)) (table : (b'.store.frame f).table.isSome)
    (bearing : b'.store.Bearing f) :
    b'.store.Tabled f ∧ ∀ v ∈ b.store.frameVectors f, (b'.store.vector v).header.isSome := by
  simp only [Workbook.layOutSheet] at h
  split at h
  case isTrue =>
    obtain ⟨_, m, pushed, laid⟩ := runs_bind.1 h
    have g := push_gap_grows wf hroot pushed
    have first := push_gap_laidTables regular pushed
    have same : KeepsTitles (fun _ => False) b.store m.store :=
      push_gap_relates gentle_keepsTitles pushed
    have blank : m.store.Uninserted sheet.element := by
      intro v reach
      rw [(same.header v id).2]
      exact blank.of_reach g.toEvolves hroot reach
    obtain ⟨tabled, named⟩ := BuildM.layOut_tabled g.wf first.regular (g.held _ hroot) blank laid
      once reach table bearing
    exact ⟨tabled, fun v hv => named v ((first.frames.vectors f).subset hv)⟩
  case isFalse => exact BuildM.layOut_tabled wf regular hroot blank h once reach table bearing

/-! ## Sheets in order -/

/-- A sheet that shares no cell with the one laid out before has no header cells yet. -/
theorem LaidTables.uninserted {root other : Element} (laid : LaidTables [root] s t)
    (g : Grows [root] s t) (hother : s.InStore other) (blank : s.Uninserted other)
    (apart : ∀ c ∈ t.leaves root, c ∉ t.leaves other) : t.Uninserted other := by
  have acyclic := g.wf.acyclic
  intro v reach
  by_cases touched : ∃ r ∈ [root], Reach t r (.vector v)
  · by_contra inserted
    obtain ⟨_, hr, above⟩ := touched
    obtain rfl := List.mem_singleton.1 hr
    obtain ⟨c, first, -⟩ := laid.regular.headFirst v (by simpa using inserted)
    have below := reach_of_child (List.mem_of_head? first)
    exact apart c (acyclic.mem_leaves.2 (above.trans below))
      (acyclic.mem_leaves.2 (reach.trans below))
  · rw [(laid.titles.header v touched).2]
    exact blank.of_reach g.toEvolves hother reach

/-- A table of a sheet stays as it is while other sheets are laid out that share no cell with it. -/
theorem LaidTables.tabled_later {root : Element} (laid : LaidTables roots s t) (g : Grows roots s t)
    (wf : s.WellFormed) (hroot : s.InStore root) (own : Private t roots root)
    (reach : Reach t root (.frame f)) (table : (t.frame f).table.isSome) (bearing : t.Bearing f)
    {earlier : List VectorId} (there : earlier.Sublist (s.frameVectors f))
    (tabled : Reach s root (.frame f) → (s.frame f).table.isSome → s.Bearing f →
      s.Tabled f ∧ ∀ v ∈ earlier, (s.vector v).header.isSome) :
    t.Tabled f ∧ ∀ v ∈ earlier, (t.vector v).header.isSome := by
  have acyclic := g.wf.acyclic
  by_cases some : t.frameVectors f = []
  · refine ⟨tabled_of_no_vectors some, fun v hv => ?_⟩
    have none := (laid.frames.vectors f).subset (there.subset hv)
    rw [some] at none
    cases none
  · have table₀ : (s.frame f).table.isSome := by
      rwa [← (Prod.mk.inj (laid.frames.parts f)).1]
    have hf := inStore_of_table table₀
    have reach₀ := g.reflects _ _ hroot hf rfl reach
    have ownFrame := own.below acyclic reach
    have same := g.sameTable wf laid.titles laid.frames hf ownFrame bearing some
    have bearing₀ : s.Bearing f := by
      intro v hv
      have below : Reach t (.frame f) (.vector v) :=
        reach_of_child (mem_frameVectors.1 (same.vectors ▸ hv))
      rw [← g.leaves_eq wf (wf.closed _ _ (mem_frameVectors.1 hv)) (ownFrame.below acyclic below)]
      exact bearing v (same.vectors ▸ hv)
    obtain ⟨tabled, named⟩ := tabled reach₀ table₀ bearing₀
    refine ⟨tabled.congr same, fun v hv => ?_⟩
    rw [(same.header v (there.subset hv)).1]
    exact named v hv

theorem layOutSheets_tabled {sheets : List (Sheet × String)} {w w' : Writing}
    (wf : w.build.store.WellFormed) (regular : w.build.store.Regular)
    (hroots : ∀ entry ∈ sheets, w.build.store.InStore entry.1.element)
    (blank : ∀ entry ∈ sheets, w.build.store.Uninserted entry.1.element)
    (h : Runs (sheets.forM fun entry => WriteM.ofBuild (wb.layOutSheet entry.1 entry.2)) w r w')
    (once : (sheets.flatMap fun entry => w'.build.store.leaves entry.1.element).Nodup) :
    LaidTables (sheets.map fun entry => entry.1.element) w.build.store w'.build.store ∧
      ∀ entry ∈ sheets, ∀ f, Reach w'.build.store entry.1.element (.frame f) →
        (w'.build.store.frame f).table.isSome → w'.build.store.Bearing f →
          w'.build.store.Tabled f ∧
            ∀ v ∈ w.build.store.frameVectors f, (w'.build.store.vector v).header.isSome := by
  induction sheets generalizing w with
  | nil =>
      obtain rfl := runs_forM_nil.1 h
      refine ⟨⟨.refl _, .refl _, regular, id⟩, ?_⟩
      simp
  | cons entry rest ih =>
      obtain ⟨m, first, others⟩ := runs_forM_cons.1 h
      obtain ⟨bm, step, rfl⟩ := WriteM.runs_ofBuild.1 first
      have hroot := hroots entry (by simp)
      have held : ∀ other ∈ rest, w.build.store.InStore other.1.element :=
        fun other hother => hroots other (List.mem_cons_of_mem _ hother)
      have laid := layOutSheet_laidOut wf hroot step
      have tables := layOutSheet_laidTables wf regular hroot step
      have held' : ∀ other ∈ rest, bm.store.InStore other.1.element :=
        fun other hother => laid.grows.held _ (held other hother)
      have grows := (layOutSheets_allLaidOut (w := { w with build := bm }) laid.grows.wf held'
        others).1.grows
      rw [List.flatMap_cons, List.nodup_append] at once
      have own : Private w'.build.store (rest.map fun entry => entry.1.element) entry.1.element := by
        intro c hc root hroot twice
        obtain ⟨other, hother, rfl⟩ := List.mem_map.1 hroot
        exact once.2.2 c hc c (List.mem_flatMap.2 ⟨other, hother, twice⟩) rfl
      have blank' : ∀ other ∈ rest, bm.store.Uninserted other.1.element := by
        intro other hother
        refine tables.uninserted laid.grows (held other hother)
          (blank other (List.mem_cons_of_mem _ hother)) fun c hc twice => ?_
        exact own c (grows.leaves_subset laid.grows.wf _ hc) _ (List.mem_map_of_mem hother)
          (grows.leaves_subset laid.grows.wf _ twice)
      obtain ⟨all, each⟩ := ih (w := { w with build := bm }) laid.grows.wf tables.regular held' blank'
        others once.2.1
      refine ⟨tables.trans all grows, fun other hother f reach table bearing => ?_⟩
      rcases List.mem_cons.1 hother with rfl | hother
      · refine all.tabled_later grows laid.grows.wf (laid.grows.held _ hroot) own reach table bearing
          (tables.frames.vectors f) fun reach table bearing => ?_
        refine layOutSheet_tabled wf regular hroot (blank other (by simp)) step ?_ reach table bearing
        rw [← grows.leaves_eq laid.grows.wf (laid.grows.held _ hroot) own]
        exact once.1
      · obtain ⟨tabled, named⟩ := each other hother f reach table bearing
        exact ⟨tabled, fun v hv => named v ((tables.frames.vectors f).subset hv)⟩

end Spreadsheet

import SiteProject.Proofs.Conversion.Run
import SiteProject.Proofs.Solution.Reroot

namespace SiteProject

theorem exists_getElem?_of_filter {α : Type} {p : α → Bool} {l : List α} {k : Nat} {a : α}
    (h : (l.filter p)[k]? = some a) :
    ∃ j, l[j]? = some a ∧ p a = true ∧ (l.take j).countP p = k := by
  induction l generalizing k with
  | nil => simp at h
  | cons b l ih =>
    by_cases hb : p b = true
    · rw [List.filter_cons_of_pos hb] at h
      cases k with
      | zero =>
        obtain rfl : b = a := by simpa using h
        exact ⟨0, rfl, hb, rfl⟩
      | succ k =>
        obtain ⟨j, hj, ha, hc⟩ := ih (k := k) (by simpa using h)
        exact ⟨j + 1, by simpa using hj, ha, by rw [List.take_succ_cons, List.countP_cons_of_pos hb, hc]⟩
    · rw [List.filter_cons_of_neg hb] at h
      obtain ⟨j, hj, ha, hc⟩ := ih h
      exact ⟨j + 1, by simpa using hj, ha, by rw [List.take_succ_cons, List.countP_cons_of_neg hb, hc]⟩

namespace Solution

def Entry.isSite (e : Entry) : Bool := e.kind? == some .site

/-- A site among the sites of a solution stands at a position among its entries. -/
theorem exists_entry_of_sites {es : List Entry} {k : Nat} {s : Site}
    (h : (sites es)[k]? = some s) :
    ∃ j e, es[j]? = some e ∧ e.isSite = true ∧ (es.take j).countP Entry.isSite = k ∧
      s = Site.ofEntry e := by
  rw [sites, List.getElem?_map, Option.map_eq_some_iff] at h
  obtain ⟨e, he, rfl⟩ := h
  obtain ⟨j, hj, hp, hc⟩ := exists_getElem?_of_filter he
  exact ⟨j, e, hj, hp, hc, rfl⟩

namespace Move

variable {m : Move} {content : Text}

/-- The entry with nothing but its path changed. -/
def kept (m : Move) (e : Entry) : Text := e.beforePath ++ m.path e.header.path ++ e.afterPath

/-- The text in which only the entry at an index is replaced. -/
def textAt (m : Move) (j : Nat) (content : Text) : Text :=
  weave (gaps (layout content)) ((entries content).mapIdx fun i e =>
    if i = j then m.projectEntry (Text.LineEnding.of content) e else m.kept e)

theorem text_eq_weave (m : Move) (content : Text) :
    m.text content = weave (gaps (layout content))
      ((entries content).map (m.entry (Text.LineEnding.of content))) :=
  (weave_gaps (f := m.piece (Text.LineEnding.of content)) (fun _ => rfl) (layout content)).symm

theorem text_eq_textAt {j : Nat}
    (h : ∀ i e, (entries content)[i]? = some e → (e.hasGuid m.siteGuid = true ↔ i = j)) :
    m.text content = m.textAt j content := by
  have he : (entries content).map (m.entry (Text.LineEnding.of content)) =
      (entries content).mapIdx fun i e =>
        if i = j then m.projectEntry (Text.LineEnding.of content) e else m.kept e := by
    refine List.ext_getElem? fun i => ?_
    rw [List.getElem?_map, List.getElem?_mapIdx]
    cases hi : (entries content)[i]? with
    | none => rfl
    | some e =>
      have hj := h i e hi
      by_cases hij : i = j
      · simp only [Option.map_some, if_pos hij, entry, if_pos (hj.2 hij)]
      · simp only [Option.map_some, if_neg hij, entry, if_neg (mt hj.1 hij)]
        rfl
  rw [text_eq_weave, he, textAt]

end Move
end Solution

namespace Conversion

open Solution

variable {w : Path} {o : Options} {d d' : MemoryDisk} {r : Report}

/-- How the solution was moved, from the folder that it lies in. -/
def Report.moveFromFolder (r : Report) : Move := r.move (r.solution.parent?.getD ⟨['.']⟩)

/-- The copy of the solution that was read, when the picked site is the entry at an index. What stands in
place of an entry with its GUID is an entry of the project that was generated. -/
structure Rewritten (o : Options) (d d' : MemoryDisk) (r : Report) (content : Text) (j : Nat)
    (e : Entry) : Prop where
  read : d.file? r.solution = some content
  whole : content = weave (gaps (layout content)) ((entries content).map Entry.text)
  entry : (entries content)[j]? = some e
  isSite : e.isSite = true
  index : ((entries content).take j).countP Entry.isSite =
    pickIndex o.pick ((entries content).countP Entry.isSite)
  site : r.site = Site.ofEntry e
  written : d'.file? r.rerooted = some (weave (gaps (layout content)) ((entries content).map fun x =>
    if x.hasGuid e.header.guid then r.moveFromFolder.projectEntry (Text.LineEnding.of content) x
    else r.moveFromFolder.kept x))
  only : (∀ i x, (entries content)[i]? = some x → i ≠ j → x.hasGuid e.header.guid = false) →
    d'.file? r.rerooted = some (r.moveFromFolder.textAt j content)
  replaced (x : Entry) : ∃ x' : Entry,
    x'.text = r.moveFromFolder.projectEntry (Text.LineEnding.of content) x ∧
      x'.kind? = some .classicLibrary ∧ x'.header.path = Declared.relative r.folder r.descriptor ∧
      x'.header.name = x.header.name ∧ x'.header.guid = x.header.guid
  scanned : r.moveFromFolder.source.Avoids '"' → r.descriptor.Avoids '"' →
    ∃ written, d'.file? r.rerooted = some written ∧
      List.Forall₂ (r.moveFromFolder.Corresponds (Text.LineEnding.of content)) (entries content)
        (entries written)

theorem file?_rerooted_of_convert {i : Inspection} (h : Succeeds (convert i o) d r d') :
    d'.file? r.rerooted = some ((r.move i.folder).text i.content) := by
  obtain ⟨-, _, _, _, _, hc⟩ := converted_of_convert h
  rw [hc.write, MemoryDisk.file?_put, if_pos (by simp [Path.same])]

/-- The site is picked by its position among the sites, but its entry is found again by its GUID, so every
entry with the GUID of the picked site is replaced; where no other entry has it, only the picked one is. -/
theorem rewritten_of_execute (h : Succeeds (execute w o) d r d') :
    ∃ content j e, Rewritten o d d' r content j e := by
  obtain ⟨content, hf, hc⟩ := of_execute h
  have hfile := file?_rerooted_of_convert hc
  obtain ⟨hs, resolutions, d₁, placed, d₂, hv⟩ := converted_of_convert hc
  have hsolution : r.solution = absolute w o.solution := hv.solution
  have hmove : r.move (inspected (absolute w o.solution) content).folder = r.moveFromFolder := by
    rw [Report.moveFromFolder, hsolution]
    rfl
  obtain ⟨j, e, hj, he, hcount, hsite⟩ := exists_entry_of_sites hs
  have hguid : r.moveFromFolder.siteGuid = e.header.guid := by
    rw [Report.moveFromFolder, Report.move, hsite]
    rfl
  have hlength : (sites (entries content)).length = (entries content).countP Entry.isSite := by
    rw [sites, List.length_map, List.countP_eq_length_filter]
    rfl
  rw [hmove] at hfile
  refine ⟨content, j, e, {
    read := hsolution ▸ hf
    whole := ?_
    entry := hj
    isSite := he
    index := by rw [hcount, ← hlength]; rfl
    site := hsite
    written := ?_
    only := fun hother => ?_
    replaced := fun x => ⟨r.moveFromFolder.project (Text.LineEnding.of content) x,
      r.moveFromFolder.text_project _ x, Kind.ofTypeGuid?_typeGuid .classicLibrary, rfl, rfl, rfl⟩
    scanned := fun hs hd => ⟨_, hfile, ?_⟩ }⟩
  · have hw := weave_gaps (f := Piece.text) (fun _ => rfl) (layout content)
    rw [flatMap_text_layout] at hw
    exact hw.symm
  · rw [hfile, ← hguid]
    exact congrArg some (Move.text_eq_weave r.moveFromFolder content)
  · rw [hfile]
    refine congrArg some (Move.text_eq_textAt fun i x hx => ?_)
    rw [hguid]
    constructor
    · intro hg
      by_cases hij : i = j
      · exact hij
      · exact absurd hg (by simp [hother i x hx hij])
    · rintro rfl
      obtain rfl : e = x := Option.some.inj (hj.symm.trans hx)
      simp [Entry.hasGuid, Text.sameLetters]
  · exact Move.forall₂_corresponds hs hd content

/-- Two sites, the second one with the given GUID. -/
def twoSites (guid : Text) : Text :=
  "Project(\"\x7bE24C65DC-7377-472B-9ABA-BC803B73C61A\x7d\") = \"A\", \"a\", \"\x7bA1\x7d\"\nEndProject\n".toList ++
    "Project(\"\x7bE24C65DC-7377-472B-9ABA-BC803B73C61A\x7d\") = \"B\", \"b\", \"\x7b".toList ++ guid ++
    "\x7d\"\nEndProject\n".toList

def diskOf (solution : Text) : MemoryDisk where
  files := [(⟨"/work/all.sln".toList⟩, solution)]

def secondSite : Options where
  solution := ⟨"/work/all.sln".toList⟩
  pick := 2

theorem second_site_is_rewritten :
    ∃ r d', Succeeds (execute ⟨"/".toList⟩ secondSite) (diskOf (twoSites "B2".toList)) r d' ∧
      ∃ content j e, Rewritten secondSite (diskOf (twoSites "B2".toList)) d' r content j e := by
  have hrun : succeedsWith (execute ⟨"/".toList⟩ secondSite) (diskOf (twoSites "B2".toList))
      (fun _ _ => true) = true := by decide +kernel
  obtain ⟨r, d', h, -⟩ := exists_succeeds hrun
  exact ⟨r, d', h, rewritten_of_execute h⟩

/-- A site that has the GUID of the picked one is replaced with it. -/
theorem twin_site_is_replaced :
    ∃ r d', Succeeds (execute ⟨"/".toList⟩ secondSite) (diskOf (twoSites "A1".toList)) r d' ∧
      r.picked = 2 ∧ d'.file? r.rerooted ≠ some (r.moveFromFolder.textAt 1 (twoSites "A1".toList)) := by
  have hrun : succeedsWith (execute ⟨"/".toList⟩ secondSite) (diskOf (twoSites "A1".toList))
      (fun r d' => r.picked = 2 ∧
        d'.file? r.rerooted ≠ some (r.moveFromFolder.textAt 1 (twoSites "A1".toList))) = true := by
    decide +kernel
  obtain ⟨r, d', h, hc⟩ := exists_succeeds hrun
  exact ⟨r, d', h, of_decide_eq_true hc⟩

end Conversion
end SiteProject

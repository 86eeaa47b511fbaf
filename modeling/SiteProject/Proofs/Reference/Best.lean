import Mathlib.Data.List.Forall2
import SiteProject.Proofs.Disk.View
import SiteProject.Reference.Resolution

namespace SiteProject.Reference

open Solution (Reference)

variable {v w : DiskView}

/-- What a library's project file says, and what became of it. -/
inductive Says (v : DiskView) (file : Path) : Library.Metadata → ProjectFile → Prop
  | missing (hp : v.present file = false) : Says v file {} .missing
  | refused {f : DiskFailure} (hp : v.present file = true) (ht : v.text file = .error f) :
      Says v file {} (.unreadable f.message)
  | malformed {t : Text} (hp : v.present file = true) (ht : v.text file = .ok t)
      (hx : Library.Metadata.parse? t = none) : Says v file {} (.unreadable Reference.malformed)
  | read {t : Text} {info : Library.Metadata} (hp : v.present file = true) (ht : v.text file = .ok t)
      (hx : Library.Metadata.parse? t = some info) : Says v file info .read

theorem Says.unique {file : Path} {info info' : Library.Metadata} {state state' : ProjectFile}
    (h : Says v file info state) (h' : Says v file info' state') : info = info' ∧ state = state' := by
  cases h <;> cases h' <;> simp_all

/-- The first candidate that exists, or the guess where none does. -/
inductive Best (v : DiskView) (guess : Path × Provenance) (cs : List (Path × Provenance)) :
    Path × Provenance → Prop
  | found {before after : List (Path × Provenance)} {c : Path × Provenance}
      (he : cs = before ++ c :: after) (hc : v.present c.1 = true)
      (hb : ∀ b ∈ before, v.present b.1 = false) : Best v guess cs c
  | guess (hn : ∀ c ∈ cs, v.present c.1 = false) : Best v guess cs guess

theorem best_find? (v : DiskView) (guess : Path × Provenance) (cs : List (Path × Provenance)) :
    Best v guess cs ((cs.find? fun c => v.present c.1).getD guess) := by
  cases h : cs.find? fun c => v.present c.1 with
  | none => exact .guess fun c hc => by simpa using List.find?_eq_none.1 h c hc
  | some c =>
    obtain ⟨hc, before, after, he, hb⟩ := List.find?_eq_some_iff_append.1 h
    exact .found he hc fun b hm => by simpa using hb b hm

theorem Best.eq_find? {guess c : Path × Provenance} {cs : List (Path × Provenance)}
    (h : Best v guess cs c) : c = (cs.find? fun c => v.present c.1).getD guess := by
  cases h with
  | found he hc hb =>
    have hf : cs.find? (fun c => v.present c.1) = some c :=
      List.find?_eq_some_iff_append.2 ⟨hc, _, _, he, fun b hm => by simp [hb b hm]⟩
    rw [hf, Option.getD_some]
  | guess hn =>
    have hf : cs.find? (fun c => v.present c.1) = none :=
      List.find?_eq_none.2 fun c hm => by simp [hn c hm]
    rw [hf, Option.getD_none]

/-- The places of a build's output: under the name that is referred to, and under the assembly's own if
it has one. -/
def outputPlaces (folder : Path) (dll : Text) (info : Library.Metadata) (b : Library.Build)
    (p : Provenance) : List (Path × Provenance) :=
  (info.output b).toList.flatMap fun out => (dll :: info.assemblyFile.toList).map fun name =>
    ((folder.join (Declared.toNative out)).normalize.joinText name, p)

/-- The usual places of a library's binary. -/
def usualPlaces (folder : Path) (dll : Text) : List (Path × Provenance) :=
  [["bin", "Debug"], ["bin", "Release"], ["bin"]].map fun ss =>
    (binary folder ss dll, .conventionalBin)

/-- The places of a library's binary, the best first. -/
def places (folder : Path) (dll : Text) (info : Library.Metadata) : List (Path × Provenance) :=
  outputPlaces folder dll info .debug .debugOutput ++
    outputPlaces folder dll info .release .releaseOutput ++ usualPlaces folder dll

theorem find?_outputCandidates (f : Path × Provenance → Bool) (folder : Path) (dll : Text)
    (info : Library.Metadata) (b : Library.Build) (p : Provenance) :
    (outputCandidates folder dll info b p).find? f = (outputPlaces folder dll info b p).find? f := by
  unfold outputCandidates outputPlaces
  cases info.output b with
  | none => rfl
  | some out =>
    cases info.assemblyFile with
    | none =>
      -- without a name of its own the assembly is looked for twice in one place
      simp only [Option.getD_none, Option.toList_some, Option.toList_none, List.flatMap_singleton,
        List.map_cons, List.map_nil, List.find?_cons, List.find?_nil]
      split <;> simp_all
    | some name => rfl

theorem find?_candidates (f : Path × Provenance → Bool) (folder : Path) (dll : Text)
    (info : Library.Metadata) :
    (candidates folder dll info).find? f = (places folder dll info).find? f := by
  simp only [candidates, places, List.find?_append, find?_outputCandidates]
  rfl

/-- The folder that a library's project file lies in. -/
def libraryFolder (folder : Path) (l : Solution.Library) : Path :=
  (projectPath folder l).parent?.getD folder

/-- What a reference of a site resolves to. -/
inductive Resolves (v : DiskView) (folder siteFolder : Path) (ls : List Solution.Library)
    (r : Reference) : Resolution → Prop
  | inSite (hl : ∀ l ∈ ls, Text.sameLetters l.guid r.targetGuid = false) :
      Resolves v folder siteFolder ls r
        { library := none
          resolved := binary siteFolder ["Bin"] r.dll
          provenance :=
            if v.present (binary siteFolder ["Bin"] r.dll) then .siteBin else .siteBinGuess
          projectFile := .noLibrary }
  | inLibrary {before after : List Solution.Library} {l : Solution.Library}
      {info : Library.Metadata} {state : ProjectFile} {c : Path × Provenance}
      (he : ls = before ++ l :: after) (hl : Text.sameLetters l.guid r.targetGuid = true)
      (hb : ∀ k ∈ before, Text.sameLetters k.guid r.targetGuid = false)
      (hs : Says v (projectPath folder l) info state)
      (hc : Best v (binary (libraryFolder folder l) ["bin", "Debug"] r.dll, .debugBinGuess)
        (places (libraryFolder folder l) r.dll info) c) :
      Resolves v folder siteFolder ls r
        { library := some l.path, resolved := c.1, provenance := c.2, projectFile := state }

theorem isGuess_of_mem_places {folder : Path} {dll : Text} {info : Library.Metadata}
    {c : Path × Provenance} (h : c ∈ places folder dll info) : c.2.isGuess = false := by
  have houtput : ∀ {b : Library.Build} {p : Provenance}, p.isGuess = false →
      c ∈ outputPlaces folder dll info b p → c.2.isGuess = false := by
    intro b p hp hc
    obtain ⟨_, -, hc⟩ := List.mem_flatMap.1 hc
    obtain ⟨_, -, rfl⟩ := List.mem_map.1 hc
    exact hp
  rw [places, List.mem_append, List.mem_append] at h
  rcases h with (h | h) | h
  · exact houtput rfl h
  · exact houtput rfl h
  · obtain ⟨_, -, rfl⟩ := List.mem_map.1 h
    rfl

theorem guess_mem_places (folder : Path) (dll : Text) (info : Library.Metadata) :
    (binary folder ["bin", "Debug"] dll, .conventionalBin) ∈ places folder dll info :=
  List.mem_append_right _ List.mem_cons_self

/-- A guess is made exactly where there is no file. -/
theorem Resolves.isGuess_iff {folder siteFolder : Path} {ls : List Solution.Library} {r : Reference}
    {x : Resolution} (h : Resolves v folder siteFolder ls r x) :
    x.provenance.isGuess = true ↔ v.present x.resolved = false := by
  cases h with
  | inSite hl => cases v.present (binary siteFolder ["Bin"] r.dll) <;> simp [Provenance.isGuess]
  | inLibrary he hl hb hs hc =>
    cases hc with
    | found hp hc _ =>
      have hg := isGuess_of_mem_places (hp ▸ List.mem_append_right _ List.mem_cons_self)
      simp [hg, hc]
    | guess hn => simp [Provenance.isGuess, hn _ (guess_mem_places _ _ _)]

theorem library?_eq_some {before after ls : List Solution.Library} {l : Solution.Library}
    {r : Reference} (he : ls = before ++ l :: after)
    (hl : Text.sameLetters l.guid r.targetGuid = true)
    (hb : ∀ k ∈ before, Text.sameLetters k.guid r.targetGuid = false) : library? ls r = some l :=
  List.find?_eq_some_iff_append.2 ⟨hl, before, after, he, fun k hk => by simp [hb k hk]⟩

/-- Where the project file says nothing, only the usual places count. -/
theorem Resolves.best_of_says {folder siteFolder : Path} {ls : List Solution.Library} {r : Reference}
    {x : Resolution} {l : Solution.Library} {info : Library.Metadata} {state : ProjectFile}
    (h : Resolves v folder siteFolder ls r x) (hl : library? ls r = some l)
    (hs : Says v (projectPath folder l) info state) :
    Best v (binary (libraryFolder folder l) ["bin", "Debug"] r.dll, .debugBinGuess)
      (places (libraryFolder folder l) r.dll info) (x.resolved, x.provenance) := by
  cases h with
  | inSite hn =>
    have hsome := List.find?_some hl
    rw [hn l (List.mem_of_find?_eq_some hl)] at hsome
    simp at hsome
  | inLibrary he hk hb hs' hc =>
    obtain rfl := Option.some.inj ((library?_eq_some he hk hb).symm.trans hl)
    obtain ⟨rfl, -⟩ := hs.unique hs'
    exact hc

/-- Only what comes before the first candidate that exists matters, and that candidate itself. -/
theorem Best.congr {guess c : Path × Provenance} {cs : List (Path × Provenance)}
    (h : Best v guess cs c)
    (hp : ∀ before b after, cs = before ++ b :: after → (∀ a ∈ before, v.present a.1 = false) →
      w.present b.1 = v.present b.1) : Best w guess cs c := by
  cases h with
  | @found before after c he hc hb =>
    refine .found he ((hp before c after he hb).trans hc) ?_
    intro b hm
    obtain ⟨front, back, rfl⟩ := List.append_of_mem hm
    have hfront : ∀ a ∈ front, v.present a.1 = false := fun a ha => hb a (by simp [ha])
    exact (hp front b (back ++ c :: after) (by simp [he]) hfront).trans (hb b hm)
  | guess hn =>
    refine .guess fun b hm => ?_
    obtain ⟨front, back, rfl⟩ := List.append_of_mem hm
    have hfront : ∀ a ∈ front, v.present a.1 = false := fun a ha => hn a (by simp [ha])
    exact (hp front b back rfl hfront).trans (hn b hm)

section Run

variable {σ : Type} [Disk (StateM σ)] {s : σ}

theorem run_firstExisting_eq (hv : Views s v) (last : Path × Provenance)
    (cs : List (Path × Provenance)) :
    ((firstExisting (m := StateM σ) last cs).run s).run =
      ((cs.find? fun c => v.present c.1).getD last, s) := by
  induction cs with
  | nil => rfl
  | cons c cs ih =>
    rw [firstExisting, StateT.run_bind, Id.run_bind, hv.exists?]
    by_cases h : v.present c.1 = true
    · simp [h]
    · simp [h, ih]

theorem says_of_readProject (hv : Views s v) (file : Path) :
    ∃ info state, ((readProject (m := StateM σ) file).run s).run = ((info, state), s) ∧
      Says v file info state := by
  unfold readProject
  rw [StateT.run_bind, Id.run_bind, hv.exists?]
  by_cases hp : v.present file = true
  · simp only [hp, Bool.not_true, Bool.false_eq_true, if_false, StateT.run_bind, Id.run_bind,
      hv.readText]
    cases ht : v.text file with
    | error f => exact ⟨_, _, rfl, .refused hp ht⟩
    | ok t =>
      dsimp only
      cases hx : Library.Metadata.parse? t with
      | none => exact ⟨_, _, rfl, .malformed hp ht hx⟩
      | some info => exact ⟨_, _, rfl, .read hp ht hx⟩
  · have hp : v.present file = false := by simpa using hp
    simp only [hp, Bool.not_false, if_true]
    exact ⟨_, _, rfl, .missing hp⟩

theorem resolves_of_resolve (hv : Views s v) (folder siteFolder : Path) (ls : List Solution.Library)
    (r : Reference) :
    ∃ x, ((resolve (m := StateM σ) folder siteFolder ls r).run s).run = (x, s) ∧
      Resolves v folder siteFolder ls r x := by
  unfold resolve
  cases h : library? ls r with
  | none =>
    have hl : ∀ l ∈ ls, Text.sameLetters l.guid r.targetGuid = false :=
      fun l hm => by simpa using List.find?_eq_none.1 h l hm
    have hx : Resolves v folder siteFolder ls r _ := .inSite hl
    refine ⟨_, ?_, hx⟩
    simp only [resolveInSite, StateT.run_bind, Id.run_bind, run_firstExisting_eq hv]
    by_cases hp : v.present (binary siteFolder ["Bin"] r.dll) = true
    · simp [hp]
    · simp [hp]
  | some l =>
    obtain ⟨hl, before, after, he, hb⟩ := List.find?_eq_some_iff_append.1 h
    have hb : ∀ k ∈ before, Text.sameLetters k.guid r.targetGuid = false :=
      fun k hm => by simpa using hb k hm
    obtain ⟨info, state, hr, hs⟩ := says_of_readProject hv (projectPath folder l)
    have hc := best_find? v (binary (libraryFolder folder l) ["bin", "Debug"] r.dll, .debugBinGuess)
      (places (libraryFolder folder l) r.dll info)
    refine ⟨_, ?_, .inLibrary he hl hb hs hc⟩
    simp only [resolveInLibrary, StateT.run_bind, Id.run_bind, hr, run_firstExisting_eq hv,
      find?_candidates]
    rfl

theorem exists_resolves (hv : Views s v) (folder siteFolder : Path) (ls : List Solution.Library)
    (rs : List Reference) :
    ∃ xs, ((resolveAll (m := StateM σ) folder siteFolder ls rs).run s).run = (xs, s) ∧
      List.Forall₂ (Resolves v folder siteFolder ls) rs xs := by
  induction rs with
  | nil => exact ⟨[], rfl, .nil⟩
  | cons r rs ih =>
    obtain ⟨x, hx, hr⟩ := resolves_of_resolve hv folder siteFolder ls r
    obtain ⟨xs, hxs, hf⟩ := ih
    refine ⟨x :: xs, ?_, .cons hr hf⟩
    simp only [resolveAll, StateT.run_bind, Id.run_bind, hx, hxs]
    rfl

/-- Each reference resolves, in order, to the best of its places, and looking for them changes nothing. A
guess is made exactly where there is no file. On two disks with the same usual places, a library whose
project file says nothing gives the same path and provenance, whether the file is missing, refused, not
well-formed or read. -/
theorem resolves_of_resolveAll (hv : Views s v) (folder siteFolder : Path)
    (ls : List Solution.Library) (rs : List Reference) :
    (∃ xs, ((resolveAll (m := StateM σ) folder siteFolder ls rs).run s).run = (xs, s) ∧
      List.Forall₂ (fun r x => Resolves v folder siteFolder ls r x ∧
        (x.provenance.isGuess = true ↔ v.present x.resolved = false)) rs xs) ∧
    ∀ (w : DiskView) (r : Reference) (l : Solution.Library) (x y : Resolution)
      (state state' : ProjectFile), library? ls r = some l →
      Says v (projectPath folder l) {} state → Says w (projectPath folder l) {} state' →
      (∀ c ∈ usualPlaces (libraryFolder folder l) r.dll, w.present c.1 = v.present c.1) →
      Resolves v folder siteFolder ls r x → Resolves w folder siteFolder ls r y →
        y.resolved = x.resolved ∧ y.provenance = x.provenance := by
  constructor
  · obtain ⟨xs, hxs, hf⟩ := exists_resolves hv folder siteFolder ls rs
    exact ⟨xs, hxs, hf.imp fun _ _ hr => ⟨hr, hr.isGuess_iff⟩⟩
  · intro w r l x y state state' hl hs hs' hp hx hy
    have hagree : ∀ before b after, usualPlaces (libraryFolder folder l) r.dll = before ++ b :: after →
        (∀ a ∈ before, v.present a.1 = false) → w.present b.1 = v.present b.1 :=
      fun before b after he _ => hp b (by simp [he])
    have hbest := ((hx.best_of_says hl hs).congr hagree).eq_find?
    have hbest' := (hy.best_of_says hl hs').eq_find?
    exact Prod.ext_iff.1 (hbest'.trans hbest.symm)

end Run

def toolsLibrary : Solution.Library where
  guid := "B1".toList
  name := "Tools".toList
  path := "lib\\Tools.csproj".toList

/-- A library with a project file, built under two names. -/
def diskWithBuilds (project : Text) : MemoryDisk where
  files :=
    [(⟨"/work/lib/Tools.csproj".toList⟩, project),
     (⟨"/work/lib/out/Company.Tools.dll".toList⟩, "tools".toList),
     (⟨"/work/lib/bin/Release/Tools.dll".toList⟩, "tools".toList)]

def projectWithOutput : Text :=
  "<Project><AssemblyName>Company.Tools</AssemblyName>".toList ++
    "<PropertyGroup Condition=\"Debug|AnyCPU\"><OutputPath>out</OutputPath></PropertyGroup></Project>".toList

/-- The binary is found under the assembly's own name, and in the usual place where the project file says
nothing, be it well-formed or not. -/
theorem built_library_resolves :
    Views (diskWithBuilds projectWithOutput) (diskWithBuilds projectWithOutput).view ∧
      (∃ xs, ((resolveAll (m := StateM MemoryDisk) ⟨"/work".toList⟩ ⟨"/work/web".toList⟩ [toolsLibrary]
          [⟨"b1".toList, "Tools.dll".toList⟩, ⟨"C1".toList, "Data.dll".toList⟩]).run
            (diskWithBuilds projectWithOutput)).run = (xs, diskWithBuilds projectWithOutput) ∧
        xs.map (fun x => (x.resolved.text, x.provenance)) =
          [("/work/lib/out/Company.Tools.dll".toList, .debugOutput),
            ("/work/web/Bin/Data.dll".toList, .siteBinGuess)]) ∧
      ∀ x y, Resolves (diskWithBuilds "<Project".toList).view ⟨"/work".toList⟩ ⟨"/work/web".toList⟩
          [toolsLibrary] ⟨"b1".toList, "Tools.dll".toList⟩ x →
        Resolves (diskWithBuilds "<Project/>".toList).view ⟨"/work".toList⟩ ⟨"/work/web".toList⟩
          [toolsLibrary] ⟨"b1".toList, "Tools.dll".toList⟩ y →
            y.resolved = x.resolved ∧ y.provenance = x.provenance := by
  obtain ⟨⟨xs, hxs, -⟩, -⟩ := resolves_of_resolveAll (diskWithBuilds projectWithOutput).views_view
    ⟨"/work".toList⟩ ⟨"/work/web".toList⟩ [toolsLibrary]
    [⟨"b1".toList, "Tools.dll".toList⟩, ⟨"C1".toList, "Data.dll".toList⟩]
  obtain ⟨-, hlaw⟩ := resolves_of_resolveAll (diskWithBuilds "<Project".toList).views_view
    ⟨"/work".toList⟩ ⟨"/work/web".toList⟩ [toolsLibrary] []
  have hruns : (((resolveAll (m := StateM MemoryDisk) ⟨"/work".toList⟩ ⟨"/work/web".toList⟩
      [toolsLibrary] [⟨"b1".toList, "Tools.dll".toList⟩, ⟨"C1".toList, "Data.dll".toList⟩]).run
        (diskWithBuilds projectWithOutput)).run.1).map (fun x => (x.resolved.text, x.provenance)) =
      [("/work/lib/out/Company.Tools.dll".toList, .debugOutput),
        ("/work/web/Bin/Data.dll".toList, .siteBinGuess)] := by decide +kernel
  rw [hxs] at hruns
  refine ⟨(diskWithBuilds projectWithOutput).views_view, ⟨xs, hxs, hruns⟩, ?_⟩
  intro x y
  have hmalformed : Says (diskWithBuilds "<Project".toList).view
      (projectPath ⟨"/work".toList⟩ toolsLibrary) {} (.unreadable malformed) :=
    .malformed (by decide +kernel) rfl (by decide +kernel)
  have hread : Says (diskWithBuilds "<Project/>".toList).view
      (projectPath ⟨"/work".toList⟩ toolsLibrary) {} .read :=
    .read (by decide +kernel) rfl (by decide +kernel)
  exact hlaw _ _ toolsLibrary x y _ _ (by decide +kernel) hmalformed hread (by decide +kernel)

end SiteProject.Reference

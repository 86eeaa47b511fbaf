import SiteProject.Conversion.Basic
import SiteProject.Proofs.Path.Below

namespace SiteProject.Conversion

open SiteProject.Part (IsName)

theorem isReserved_eq_false_of_mem {c : Char} {b : Bool} {s : Text} (h : c ∈ underscored b s) :
    isReserved c = false := by
  induction s generalizing b with
  | nil => simp [underscored] at h
  | cons x s ih =>
    rw [underscored] at h
    split at h
    · split at h
      · exact ih h
      · rcases List.mem_cons.1 h with rfl | h
        · decide
        · exact ih h
    · next hx =>
      rcases List.mem_cons.1 h with rfl | h
      · simpa using hx
      · exact ih h

theorem isReserved_iff {c : Char} : isReserved c = true ↔ c ∈ "<>:\"/\\|?*".toList := by
  simp [isReserved, or_assoc]

theorem underscored_eq_self {s : Text} (h : ∀ c ∈ s, isReserved c = false) (b : Bool) :
    underscored b s = s := by
  induction s generalizing b with
  | nil => rfl
  | cons c s ih =>
    have hc : isReserved c = false := h c (by simp)
    have ih := ih fun d hd => h d (by simp [hd])
    simp [underscored, hc, ih]

theorem folderName_eq_self {name : Text} (h : ∀ c ∈ name, isReserved c = false)
    (hd : ∃ c ∈ name, c ≠ '.') : folderName name = name := by
  have hdots : ¬ name.all (· == '.') = true := by simpa using hd
  rw [folderName, if_neg hdots, underscored_eq_self h]

theorem isReserved_eq_false_of_mem_folderName {name : Text} {c : Char} (h : c ∈ folderName name) :
    isReserved c = false := by
  unfold folderName at h
  split at h
  · obtain rfl : c = '_' := by simpa using h
    decide
  · exact isReserved_eq_false_of_mem h

theorem slash_notMem_folderName (name : Text) : '/' ∉ folderName name :=
  fun h => absurd (isReserved_eq_false_of_mem_folderName h) (by decide)

theorem isName_of_mem {n : Text} {c : Char} (hc : c ∈ n) (hd : c ≠ '.') (hs : '/' ∉ n) : IsName n := by
  refine ⟨List.ne_nil_of_mem hc, hs, ?_, ?_⟩
  · rintro rfl
    exact hd (by simpa using hc)
  · rintro rfl
    exact hd (by simpa using hc)

theorem exists_mem_underscored {c : Char} {s : Text} (hc : c ∈ s) (hd : c ≠ '.') (b : Bool) :
    b = true ∨ ∃ x ∈ underscored b s, x ≠ '.' := by
  induction s generalizing b with
  | nil => simp at hc
  | cons y s ih =>
    rw [underscored]
    split
    · cases b with
      | true => exact .inl rfl
      | false => exact .inr ⟨'_', by simp, by decide⟩
    · right
      by_cases hy : y = '.'
      · have hc : c ∈ s := (List.mem_cons.1 hc).resolve_left fun e => hd (e.trans hy)
        obtain ⟨x, hx, hne⟩ := (ih hc false).resolve_left (by simp)
        exact ⟨x, List.mem_cons_of_mem _ hx, hne⟩
      · exact ⟨y, List.mem_cons_self, hy⟩

theorem exists_mem_folderName (name : Text) : ∃ c ∈ folderName name, c ≠ '.' := by
  unfold folderName
  split
  · exact ⟨'_', by simp, by decide⟩
  · next hdots =>
    obtain ⟨c, hc, hd⟩ : ∃ c ∈ name, c ≠ '.' := by simpa using hdots
    exact (exists_mem_underscored hc hd false).resolve_left (by simp)

theorem isName_folderName (name : Text) : IsName (folderName name) := by
  obtain ⟨c, hc, hd⟩ := exists_mem_folderName name
  exact isName_of_mem hc hd (slash_notMem_folderName name)

/-- What the name of a folder is to be, for the name of a site. -/
structure FolderNamed (name folder : Text) : Prop where
  ne_nil : folder ≠ []
  plain : ∀ c ∈ folder, c ∉ "<>:\"/\\|?*".toList
  notDots : ∃ c ∈ folder, c ≠ '.'
  /-- A name that is fit for a folder is kept. -/
  kept : (∀ c ∈ name, c ∉ "<>:\"/\\|?*".toList) → (∃ c ∈ name, c ≠ '.') → folder = name
  again : folderName folder = folder

/-- A name that can name a folder is kept, and so is one that has been made from another. -/
theorem folderNamed_folderName (name : Text) : FolderNamed name (folderName name) where
  ne_nil := (isName_folderName name).1
  plain c hc := mt isReserved_iff.2 (by simp [isReserved_eq_false_of_mem_folderName hc])
  notDots := exists_mem_folderName name
  kept h := folderName_eq_self fun c hc => Bool.eq_false_iff.2 (mt isReserved_iff.1 (h c hc))
  again := folderName_eq_self (fun _ => isReserved_eq_false_of_mem_folderName) (exists_mem_folderName name)

/-- The folder of a project is one step below the output folder. -/
theorem parts_projectFolder (folder output : Path) (name : Text) :
    (projectFolder folder output name).parts =
      (folder.join output).normalize.parts ++ [.name (folderName name)] := by
  have hname := isName_folderName name
  have habs := Path.isAbsolute_of_isName hname
  have hparts : (Path.normalize ⟨folderName name⟩).parts = [.name (folderName name)] := by
    rw [Path.parts_normalize_of_relative habs, Path.steps_of_isName hname]
    rfl
  rw [projectFolder, Path.joinText, Path.parts_normalize_join _ habs (by simp [hparts]), hparts]

theorem isName_descriptor (name : Text) :
    IsName (folderName name ++ ".intellisense.csproj".toList) := by
  apply isName_of_mem (c := 'i') (by simp) (by decide)
  simp [slash_notMem_folderName]

theorem isName_rerooted (name : Text) :
    IsName ("fake_".toList ++ folderName name ++ ".sln".toList) := by
  apply isName_of_mem (c := 'f') (by simp) (by decide)
  simp [slash_notMem_folderName]

theorem parts_descriptorPath (folder : Path) (name : Text) :
    (descriptorPath folder name).parts =
      folder.parts ++ [.name (folderName name ++ ".intellisense.csproj".toList)] :=
  Path.parts_joinText_name folder (isName_descriptor name)

theorem parts_rerootedPath (folder : Path) (name : Text) :
    (rerootedPath folder name).parts =
      folder.parts ++ [.name ("fake_".toList ++ folderName name ++ ".sln".toList)] :=
  Path.parts_joinText_name folder (isName_rerooted name)

/-- The descriptor and the copy of the solution are two files. -/
theorem same_descriptorPath (folder : Path) (name : Text) :
    (rerootedPath folder name).same (descriptorPath folder name) = false := by
  have hne : "fake_".toList ++ folderName name ++ ".sln".toList ≠
      folderName name ++ ".intellisense.csproj".toList := by
    intro h
    have hl := congrArg List.getLast? h
    have hsln : ".sln".toList.getLast? = some 'n' := by decide
    have hproj : ".intellisense.csproj".toList.getLast? = some 'j' := by decide
    rw [List.getLast?_append, List.getLast?_append, List.getLast?_append, hsln, hproj] at hl
    simp at hl
  rw [Path.same, parts_descriptorPath, parts_rerootedPath]
  simpa using hne

end SiteProject.Conversion

import SiteProject.Proofs.Solution.Reroot

namespace SiteProject.Solution.Move

variable {m : Move} {ending : Text.LineEnding}

/-- An entry of the moved text leads to the place of the entry that stood in its place. -/
structure SamePlace (m : Move) (e e' : Entry) : Prop where
  replaced : e.hasGuid m.siteGuid = true →
    (m.target.join (Declared.toNative e'.header.path)).normalize = m.descriptor.normalize
  fixed : e.hasGuid m.siteGuid = false →
    (Declared.isUrl e.header.path || Declared.isAbsolute e.header.path) = true →
      e'.header.path = e.header.path
  relative : e.hasGuid m.siteGuid = false →
    (Declared.isUrl e.header.path || Declared.isAbsolute e.header.path) = false →
      (m.target.join (Declared.toNative e'.header.path)).normalize =
        (m.source.join (Declared.toNative e.header.path)).normalize

theorem normalize_join_path (hs : m.source.isAbsolute = true) (ht : m.target.isAbsolute = true)
    (hb : m.source.Avoids '\\') {p : Text}
    (hp : (Declared.isUrl p || Declared.isAbsolute p) = false) :
    (m.target.join (Declared.toNative (m.path p))).normalize =
      (m.source.join (Declared.toNative p)).normalize := by
  have hm : m.path p = Declared.relative m.target (m.source.join (Declared.toNative p)) := by
    simp [path, hp]
  have ha := Path.isAbsolute_join_of_isAbsolute hs (Declared.toNative p)
  have hn := hb.join (by decide) (by decide) (Declared.backslash_notMem_toNative p)
  rw [hm, Declared.normalize_join_relative ht ha hn]

theorem samePlace_moved (hs : m.source.isAbsolute = true) (ht : m.target.isAbsolute = true)
    (hd : m.descriptor.isAbsolute = true) (hsb : m.source.Avoids '\\')
    (hdb : m.descriptor.Avoids '\\') {e e' : Entry} (h : m.Corresponds ending e e') :
    m.SamePlace e e' where
  replaced he := by
    rw [(h.replaced he).2.1]
    exact Declared.normalize_join_relative ht hd hdb
  fixed he hp := by
    rw [(h.kept he).2.1, path, if_pos hp]
  relative he hp := by
    rw [(h.kept he).2.1]
    exact normalize_join_path hs ht hsb hp

/-- Each path of a moved solution leads, from the folder that the solution is moved to, to where the path led
before. -/
theorem text_keeps_places (hs : m.source.isAbsolute = true) (ht : m.target.isAbsolute = true)
    (hd : m.descriptor.isAbsolute = true) (hsq : m.source.Avoids '"') (hdq : m.descriptor.Avoids '"')
    (hsb : m.source.Avoids '\\') (hdb : m.descriptor.Avoids '\\') (content : Text) :
    List.Forall₂ m.SamePlace (entries content) (entries (m.text content)) := by
  rw [entries_text hsq hdq, List.forall₂_map_right_iff, List.forall₂_same]
  intro e _
  exact samePlace_moved hs ht hd hsb hdb (corresponds_moved e)

theorem sample_keeps_places :
    sample.source.isAbsolute = true ∧ sample.target.isAbsolute = true ∧
      sample.descriptor.isAbsolute = true ∧ sample.source.Avoids '"' ∧ sample.descriptor.Avoids '"' ∧
      sample.source.Avoids '\\' ∧ sample.descriptor.Avoids '\\' ∧
        List.Forall₂ sample.SamePlace (entries sampleText) (entries (sample.text sampleText)) := by
  have hs : sample.source.isAbsolute = true := by decide
  have ht : sample.target.isAbsolute = true := by decide
  have hd : sample.descriptor.isAbsolute = true := by decide
  have hsq : sample.source.Avoids '"' := by decide
  have hdq : sample.descriptor.Avoids '"' := by decide
  have hsb : sample.source.Avoids '\\' := by decide
  have hdb : sample.descriptor.Avoids '\\' := by decide
  exact ⟨hs, ht, hd, hsq, hdq, hsb, hdb, text_keeps_places hs ht hd hsq hdq hsb hdb sampleText⟩

end SiteProject.Solution.Move

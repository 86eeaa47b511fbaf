import SiteProject.Proofs.Text.Trim
import SiteProject.Solution.References

namespace SiteProject

namespace Text

theorem length_split (sep : Char → Bool) (s : Text) : (split sep s).length = s.countP sep + 1 := by
  induction s with
  | nil => rfl
  | cons c s ih =>
    by_cases hc : sep c = true
    · simp [split, hc, ih]
    · cases hs : split sep s with
      | nil => exact absurd hs (split_ne_nil sep s)
      | cons w ws =>
        rw [hs] at ih
        simpa [split, hc, hs] using ih

end Text

namespace Solution.Reference

/-- A reference that can be written: its parts are trimmed, and hold nothing that ends them. -/
structure Plain (r : Reference) : Prop where
  guidTrimmed : Text.trim r.targetGuid = r.targetGuid
  guidChars : ∀ c ∈ r.targetGuid, c ∉ [';', '|', '\x7b', '\x7d']
  dllTrimmed : Text.trim r.dll = r.dll
  dllChars : ∀ c ∈ r.dll, c ∉ [';', '|']

/-- A reference as it is written, `{GUID}|Name.dll`. -/
def segment (r : Reference) : Text := '\x7b' :: (r.targetGuid ++ '\x7d' :: '|' :: r.dll)

/-- References with semicolons between them. -/
def encode (rs : List Reference) : Text := Text.join [';'] (rs.map segment)

theorem listOf_append (a b : Text) : listOf (a ++ ';' :: b) = listOf a ++ listOf b := by
  rw [listOf, Text.split_append_sep a (by decide), List.filterMap_append, listOf, listOf]

theorem listOf_segment {s : Text} (h : ';' ∉ s) : listOf s = (ofSegment? s).toList := by
  have hone : Text.split (· == ';') s = [s] := by
    refine Text.split_of_forall fun c hc => ?_
    have hne : c ≠ ';' := fun e => h (e ▸ hc)
    simpa using hne
  rw [listOf, hone]
  cases hs : ofSegment? s <;> simp [hs]

/-- A segment is a pair only where it has exactly one bar. -/
theorem ofSegment?_of_count {s : Text} (h : s.count '|' ≠ 1) : ofSegment? s = none := by
  have hlength := Text.length_split (· == '|') (Text.trim s)
  have hcount : (Text.trim s).countP (· == '|') = s.count '|' := Text.count_trim (by decide) s
  unfold ofSegment?
  split
  · next guid dll hs =>
    rw [hs, hcount] at hlength
    simp only [List.length_cons, List.length_nil] at hlength
    omega
  · rfl

namespace Plain

variable {r : Reference}

theorem trim_segment (h : Plain r) : Text.trim (segment r) = segment r := by
  refine Text.trim_eq_self_iff.2 ⟨rfl, ?_⟩
  rcases List.eq_nil_or_concat r.dll with hd | ⟨t, c, hd⟩
  · have hsplit : segment r = ('\x7b' :: (r.targetGuid ++ ['\x7d'])) ++ ['|'] := by simp [segment, hd]
    rw [hsplit, List.getLast?_concat]
    rfl
  · have hsplit : segment r = ('\x7b' :: (r.targetGuid ++ '\x7d' :: '|' :: t)) ++ [c] := by
      simp [segment, hd]
    have hlast := (Text.trim_eq_self_iff.1 h.dllTrimmed).2
    rw [hd, List.concat_eq_append, List.getLast?_concat] at hlast
    rw [hsplit, List.getLast?_concat]
    exact hlast

theorem split_segment (h : Plain r) :
    Text.split (· == '|') (segment r) = ['\x7b' :: (r.targetGuid ++ ['\x7d']), r.dll] := by
  have hguid : ∀ c ∈ '\x7b' :: (r.targetGuid ++ ['\x7d']), (c == '|') = false := by
    intro c hc
    simp only [List.mem_cons, List.mem_append, List.not_mem_nil, or_false] at hc
    rcases hc with rfl | hc | rfl
    · rfl
    · have := h.guidChars c hc
      simp_all
    · rfl
  have hdll : ∀ c ∈ r.dll, (c == '|') = false := by
    intro c hc
    have := h.dllChars c hc
    simp_all
  have hsplit : segment r = '\x7b' :: (r.targetGuid ++ ['\x7d']) ++ '|' :: r.dll := by simp [segment]
  rw [hsplit, Text.split_append_cons hguid (by decide), Text.split_of_forall hdll]

theorem ofSegment?_segment (h : Plain r) : ofSegment? (segment r) = some r := by
  have hkept : ∀ c ∈ r.targetGuid, c ≠ '\x7b' ∧ c ≠ '\x7d' := by
    intro c hc
    have := h.guidChars c hc
    simp_all
  have hguid : ('\x7b' :: (r.targetGuid ++ ['\x7d'])).filter (fun c => !isBrace c) = r.targetGuid := by
    simpa [isBrace] using hkept
  rw [ofSegment?, h.trim_segment, h.split_segment]
  simp only [hguid, h.guidTrimmed, h.dllTrimmed]

theorem semicolon_notMem_segment (h : Plain r) : ';' ∉ segment r := by
  have hguid : ';' ∉ r.targetGuid := fun hm => absurd (h.guidChars _ hm) (by simp)
  have hdll : ';' ∉ r.dll := fun hm => absurd (h.dllChars _ hm) (by simp)
  simp [segment, hguid, hdll]

end Plain

/-- References that can be written are read back. -/
theorem listOf_encode {rs : List Reference} (h : ∀ r ∈ rs, Plain r) : listOf (encode rs) = rs := by
  induction rs with
  | nil => rfl
  | cons r rs ih =>
    have hr := h r (by simp)
    have ih := ih fun q hq => h q (by simp [hq])
    have hone : listOf (segment r) = [r] := by
      rw [listOf_segment hr.semicolon_notMem_segment, hr.ofSegment?_segment, Option.toList_some]
    rw [encode] at ih ⊢
    cases rs with
    | nil => exact hone
    | cons q rs =>
      rw [List.map_cons, Text.join_cons (by simp), List.append_assoc, List.singleton_append,
        listOf_append, hone, ih, List.singleton_append]

/-- A semicolon at the end begins no further reference. -/
theorem listOf_concat (v : Text) : listOf (v ++ [';']) = listOf v := by
  have hempty : listOf [] = [] := rfl
  rw [listOf_append, hempty, List.append_nil]

/-- What is read can be written. -/
theorem plain_of_mem_listOf {v : Text} {r : Reference} (h : r ∈ listOf v) : Plain r := by
  obtain ⟨s, hs, hr⟩ := List.mem_filterMap.1 h
  have hsemicolon : ∀ c ∈ Text.trim s, c ≠ ';' := fun c hc => by
    simpa using (Text.forall_mem_split hs c ((Text.trim_sublist s).subset hc)).2
  unfold ofSegment? at hr
  split at hr
  · next guid dll hsplit =>
    have hpart : ∀ w ∈ [guid, dll], ∀ c ∈ w, c ≠ ';' ∧ c ≠ '|' := by
      intro w hw c hc
      obtain ⟨hmem, hbar⟩ := Text.forall_mem_split (hsplit ▸ hw) c hc
      exact ⟨hsemicolon c hmem, by simpa using hbar⟩
    obtain rfl := (Option.some.inj hr).symm
    refine ⟨Text.trim_trim _, ?_, Text.trim_trim _, ?_⟩
    · intro c hc
      obtain ⟨hm, hbrace⟩ := List.mem_filter.1 ((Text.trim_sublist _).subset hc)
      have := hpart guid (by simp) c hm
      simp_all [isBrace]
    · intro c hc
      have := hpart dll (by simp) c ((Text.trim_sublist _).subset hc)
      simp_all
  · cases hr

/-- A list is read segment by segment, and a segment that is no pair does not count. References whose
parts can be written are read back in their order, with a semicolon at the end or without. Whatever has
been read is read again from its written form. -/
theorem listOf_local_and_stable :
    (∀ a b : Text, listOf (a ++ ';' :: b) = listOf a ++ listOf b) ∧
      (∀ a s b : Text, ';' ∉ s → s.count '|' ≠ 1 →
        listOf (a ++ ';' :: (s ++ ';' :: b)) = listOf (a ++ ';' :: b)) ∧
      (∀ rs : List Reference, (∀ r ∈ rs, Plain r) →
        listOf (encode rs) = rs ∧ listOf (encode rs ++ [';']) = rs) ∧
      ∀ v : Text, listOf (encode (listOf v)) = listOf v ∧
        listOf (encode (listOf v) ++ [';']) = listOf v := by
  refine ⟨listOf_append, ?_, ?_, ?_⟩
  · intro a s b hs hbars
    rw [listOf_append, listOf_append, listOf_append, listOf_segment hs, ofSegment?_of_count hbars,
      Option.toList_none, List.nil_append]
  · intro rs h
    rw [listOf_concat, listOf_encode h]
    exact ⟨rfl, rfl⟩
  · intro v
    have hv : listOf (encode (listOf v)) = listOf v := listOf_encode fun r => plain_of_mem_listOf
    rw [listOf_concat, hv]
    exact ⟨rfl, rfl⟩

/-- Two references with the same library, one of them with an empty GUID and a brace in its name. -/
def twice : List Reference := [⟨"A1".toList, "Core.dll".toList⟩, ⟨[], "a\x7b.dll".toList⟩]

theorem twice_is_read_back :
    let s : Text := "\x7bB1\x7d|B.dll|more".toList
    (∀ r ∈ twice, Plain r) ∧ listOf (encode twice) = twice ∧ ';' ∉ s ∧ s.count '|' ≠ 1 ∧
      listOf ("bad".toList ++ ';' :: (s ++ ';' :: encode twice)) =
        listOf ("bad".toList ++ ';' :: encode twice) := by
  have hplain : ∀ r ∈ twice, Plain r := by
    intro r hr
    simp only [twice, List.mem_cons, List.not_mem_nil, or_false] at hr
    rcases hr with rfl | rfl
    · exact ⟨by decide, by simp, by decide, by simp⟩
    · exact ⟨by decide, by simp, by decide, by simp⟩
  obtain ⟨-, hlocal, hread, -⟩ := listOf_local_and_stable
  intro s
  have hend : ';' ∉ s := by decide
  have hbars : s.count '|' ≠ 1 := by decide
  exact ⟨hplain, (hread twice hplain).1, hend, hbars, hlocal _ _ _ hend hbars⟩

end Solution.Reference
end SiteProject

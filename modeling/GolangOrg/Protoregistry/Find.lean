import Mathlib.Data.List.Infix
import GolangOrg.Protoregistry.Refinement

/-! `FindDescriptorByName` on a registry built from valid files. The walk stops at the first
declared segment and scans the files of the package above it; every file answers only for names
inside its own top-level declarations, so at most one accepted file answers for a name, and the
walk reaches the package of that file. -/
namespace GolangOrg
namespace Protoregistry

variable {D : Type}

open FilesByPackage

/-- `DescriptorByName` answers only for the package joined with one of the file's top-level
names, possibly followed by further segments. -/
def DescribesOwnNames (fd : FileDescriptor D) : Prop :=
  ∀ n, (fd.descriptorByName n).isSome → ∃ t ∈ declaredNames fd,
    n = FullName.append fd.package t ∨ ∃ rest, n = FullName.append fd.package t ++ "." ++ rest

theorem fullName_prefix_of_answers {F : FileDescriptor D} (hF : ValidFile F) (hp : ¬F.isPlaceholder)
    (hd : DescribesOwnNames F) {n : FullName} (ha : (F.descriptorByName n).isSome) :
    ∃ m ∈ fullNames F, m <+: segments n := by
  obtain ⟨⟨segs, hs, hpkg⟩, hnames, -⟩ := hF.resolve_left hp
  obtain ⟨t, ht, hn⟩ := hd n ha
  have hall : ∀ s ∈ segs ++ [t], ValidName s := by
    simpa [or_imp, forall_and] using ⟨hs, hnames t ht⟩
  refine ⟨segments F.package ++ [t], List.mem_map.mpr ⟨t, ht, rfl⟩, ?_⟩
  rw [hpkg, segments_joinSegments hs]
  rcases hn with rfl | ⟨rest, rfl⟩
  · rw [hpkg, append_joinSegments hs, segments_joinSegments hall]
  · rw [hpkg, append_joinSegments hs, segments_joinSegments_append_dot hall (by simp)]
    exact List.prefix_append _ _

theorem conflict_of_prefixes {F G : FileDescriptor D} {n m m' : List Name}
    (hm : m ∈ fullNames F) (hm' : m' ∈ fullNames G) (h : m <+: n) (h' : m' <+: n) :
    Conflict F G := by
  obtain ⟨t, -, rfl⟩ := mem_fullNames.mp hm
  obtain ⟨t', -, rfl⟩ := mem_fullNames.mp hm'
  rcases List.prefix_or_prefix_of_prefix h h' with hp | hp
  · rcases List.prefix_concat_iff.mp hp with he | hp
    · exact .inl ⟨_, hm, .inl (he ▸ hm')⟩
    · exact .inl ⟨_, hm, .inr hp⟩
  · rcases List.prefix_concat_iff.mp hp with he | hp
    · exact .inl ⟨_, hm, .inl (he ▸ hm')⟩
    · exact .inr ⟨_, hm', hp⟩

theorem countP_le_one_of_pairwise {α : Type} {R : α → α → Prop} {p : α → Bool} {l : List α}
    (hl : l.Pairwise R) (h : ∀ a ∈ l, ∀ b ∈ l, p a → p b → R a b → False) : l.countP p ≤ 1 := by
  induction l with
  | nil => simp
  | cons a l ih =>
    rw [List.pairwise_cons] at hl
    rw [List.countP_cons]
    by_cases ha : p a
    · rw [List.countP_eq_zero.mpr fun b hb hpb =>
        h a (List.mem_cons_self _ _) b (List.mem_cons_of_mem _ hb) ha hpb (hl.1 b hb)]
      simp [ha]
    · simpa [ha] using ih hl.2 fun a ha b hb =>
        h a (List.mem_cons_of_mem _ ha) b (List.mem_cons_of_mem _ hb)

theorem findSome?_of_countP_le_one {α β : Type} {f : α → Option β} {l : List α} {a : α} {b : β}
    (ha : a ∈ l) (hf : f a = some b) (hc : l.countP (fun x => (f x).isSome) ≤ 1) :
    l.findSome? f = some b := by
  induction l with
  | nil => simp at ha
  | cons x l ih =>
    rw [List.countP_cons] at hc
    cases hx : f x with
    | none =>
      have hax : a ≠ x := by rintro rfl; simp [hf] at hx
      simp only [List.findSome?_cons, hx]
      exact ih ((List.mem_cons.mp ha).resolve_left hax) (by simpa [hx] using hc)
    | some e =>
      simp only [List.findSome?_cons, hx]
      by_cases hax : a = x
      · subst hax; rw [← hf, hx]
      · have : 0 < l.countP (fun x => (f x).isSome) :=
          List.countP_pos_iff.mpr ⟨a, (List.mem_cons.mp ha).resolve_left hax, by rw [hf]; rfl⟩
        simp only [hx, Option.isSome_some, if_true] at hc; omega

theorem filesAt_view_nil (t : FilesByPackage D) : filesAt (view t []) = t.files := by
  cases t <;> rfl

theorem findAt_sound {name : FullName} {d : D} (segs : List Name) :
    ∀ {t : FilesByPackage D}, findAt name t segs = some d →
      ∃ q, ∃ G ∈ filesAt (view t q), G.descriptorByName name = some d := by
  induction segs with
  | nil => simp [findAt]
  | cons seg segs ih =>
    intro t h
    simp only [findAt] at h
    split at h
    · simp at h
    · obtain ⟨G, hG, hd⟩ := List.exists_of_findSome?_eq_some h
      exact ⟨[], G, (filesAt_view_nil t).symm ▸ hG, hd⟩
    · rename_i c _ hg
      obtain ⟨q, G, hG, hd⟩ := ih h
      exact ⟨seg :: q, G, by rwa [← view_cons_of_get hg] at hG, hd⟩

theorem get_of_view_singleton {t : FilesByPackage D} {s : Name} {sl : Slot D}
    (h : view t [s] = some sl) : ∃ c, GoMap.get t.subs s = some c ∧ c.slot = sl := by
  rw [view_cons] at h
  cases hg : GoMap.get t.subs s with
  | none => simp [hg] at h
  | some c => exact ⟨c, rfl, by simpa [hg] using h⟩

theorem findAt_of_view {name : FullName} {s : Name} {more : List Name} (P : List Name) :
    ∀ {t : FilesByPackage D}, (∀ q, q <+: P → ∃ fs, view t q = some (.pkg fs)) →
      view t (P ++ [s]) = some .decl →
      findAt name t (P ++ s :: more) = (filesAt (view t P)).findSome? (·.descriptorByName name) := by
  induction P with
  | nil =>
    intro t _ hdecl
    obtain ⟨c, hg, hc⟩ := get_of_view_singleton hdecl
    cases c with
    | notProtoPackage => rw [filesAt_view_nil]; simp [findAt, hg]
    | node => simp at hc
  | cons p P ih =>
    intro t hpkg hdecl
    obtain ⟨fs, hv⟩ := hpkg [p] (List.cons_prefix_cons.mpr ⟨rfl, List.nil_prefix⟩)
    obtain ⟨c, hg, hc⟩ := get_of_view_singleton hv
    have hview := view_cons_of_get hg
    cases c with
    | notProtoPackage => simp at hc
    | node fs' subs' =>
      simp only [List.cons_append, findAt, hg]
      rw [show view t (p :: P) = view (node fs' subs') P from congrFun hview P]
      refine ih (fun q hq => ?_) (by rw [← congrFun hview]; exact hdecl)
      rw [← congrFun hview]
      exact hpkg _ (List.cons_prefix_cons.mpr ⟨rfl, hq⟩)

theorem filesAt_specView_subset {acc : List (FileDescriptor D)} (q : List Name) :
    ∀ G ∈ filesAt (specView acc q), G ∈ acc := by
  intro G hG
  unfold specView at hG
  split_ifs at hG
  · exact List.mem_of_mem_filter hG
  · simp [filesAt] at hG
  · simp [filesAt] at hG

/-- On a registry built by valid calls from files that answer only inside their own top-level
declarations, `FindDescriptorByName(n)` returns `d` exactly when an accepted file answers `d` for
`n`; at most one accepted file answers for `n`; and a nil registry finds nothing. -/
theorem findDescriptorByName_iff (calls : List (List (FileDescriptor D)))
    (hv : ∀ c ∈ calls, ∀ F ∈ c, ValidFile F) (hd : ∀ c ∈ calls, ∀ F ∈ c, DescribesOwnNames F)
    (n : FullName) :
    (∀ d, Files.findDescriptorByName (some (Files.empty.run calls).1) n = some d ↔
      ∃ F ∈ (runSpec [] calls).1, F.descriptorByName n = some d) ∧
    (runSpec [] calls).1.countP (fun F => (F.descriptorByName n).isSome) ≤ 1 ∧
    Files.findDescriptorByName (none : Option (Files D)) n = none := by
  obtain ⟨hr, hinv, -⟩ := refines_empty.run ⟨by simp, List.Pairwise.nil⟩ hv
  set acc := (runSpec [] calls).1
  have hans : ∀ G ∈ acc, (G.descriptorByName n).isSome → ∃ m ∈ fullNames G, m <+: segments n := by
    intro G hG ha
    obtain ⟨hp, hF⟩ := hinv.valid G hG
    rcases mem_runSpec hG with h | ⟨c, hc, hGc⟩
    · simp at h
    · exact fullName_prefix_of_answers hF hp (hd c hc G hGc) ha
  have hcount : acc.countP (fun F => (F.descriptorByName n).isSome) ≤ 1 :=
    countP_le_one_of_pairwise hinv.pairwise fun a ha b hb hna hnb hab =>
      let ⟨_, hm, hmn⟩ := hans a ha hna
      let ⟨_, hm', hmn'⟩ := hans b hb hnb
      hab (conflict_of_prefixes hm hm' hmn hmn')
  refine ⟨fun d => ⟨fun h => ?_, fun ⟨F, hF, hdF⟩ => ?_⟩, hcount, rfl⟩
  · obtain ⟨q, G, hG, hdG⟩ := findAt_sound _ h
    rw [hr.view_eq] at hG
    exact ⟨G, filesAt_specView_subset q G hG, hdG⟩
  · obtain ⟨m, hm, more, hmore⟩ := hans F hF (by rw [hdF]; rfl)
    obtain ⟨t, -, rfl⟩ := mem_fullNames.mp hm
    have hpkg : ∀ q, q <+: segments F.package →
        ∃ fs, view (Files.empty.run calls).1.filesByPackage q = some (.pkg fs) :=
      fun q hq => ⟨_, by rw [hr.view_eq, specView, if_pos (.inr ⟨F, hF, hq⟩)]⟩
    have hdecl := hinv.specView_decl hF hm
    rw [← hr.view_eq] at hdecl
    have hnd : specView acc (segments F.package) ≠ some .decl := by
      rw [specView, if_pos (.inr ⟨F, hF, List.prefix_refl _⟩)]; simp
    show findAt n _ (segments n) = some d
    rw [← hmore, List.append_assoc, List.singleton_append, findAt_of_view _ hpkg hdecl, hr.view_eq,
      filesAt_specView hnd]
    exact findSome?_of_countP_le_one (List.mem_filter.mpr ⟨hF, by simp⟩) hdF
      (((List.filter_sublist _).countP_le _).trans hcount)

theorem scenarioCalls_describesOwnNames : ∀ c ∈ scenarioCalls, ∀ F ∈ c, DescribesOwnNames F := by
  intro c hc F hF n hn
  simp only [scenarioCalls, List.mem_cons, List.mem_singleton, List.not_mem_nil, or_false] at hc
  rcases hc with rfl | rfl | rfl <;> rw [List.mem_singleton.mp hF] at hn ⊢ <;>
    simp only [FileDescriptor.descriptorByName, GoMap.get] at hn <;> split_ifs at hn with h <;>
    first | exact absurd hn (by decide) | exact ⟨_, List.mem_cons_self _ _, .inl (h ▸ by decide)⟩

theorem findDescriptorByName_iff_scenario :
    (∀ c ∈ scenarioCalls, ∀ F ∈ c, ValidFile F) ∧
      (∀ c ∈ scenarioCalls, ∀ F ∈ c, DescribesOwnNames F) ∧
      (∀ d, Files.findDescriptorByName (some (Files.empty.run scenarioCalls).1) "p.M" = some d ↔
        ∃ F ∈ (runSpec [] scenarioCalls).1, F.descriptorByName "p.M" = some d) ∧
      (runSpec [] scenarioCalls).1.countP (fun F => (F.descriptorByName "p.M").isSome) ≤ 1 ∧
      Files.findDescriptorByName (none : Option (Files Nat)) "p.M" = none :=
  ⟨scenarioCalls_valid, scenarioCalls_describesOwnNames,
    findDescriptorByName_iff _ scenarioCalls_valid scenarioCalls_describesOwnNames "p.M"⟩

end Protoregistry
end GolangOrg

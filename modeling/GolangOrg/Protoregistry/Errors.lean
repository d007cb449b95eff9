import GolangOrg.Protoregistry.Range

/-! The name a `Register` error reports. A walk stopped at a declared segment reports the package
cut after that segment, `TrimSuffix(TrimSuffix(pkg, rest), ".")`; a declaration conflict reports
the package joined with the least conflicting name. On a registry built by valid calls both are
names that the rejected file and an accepted file take up. -/
namespace GolangOrg
namespace Protoregistry

variable {D : Type}

open FilesByPackage

theorem trimSuffix_append (a b : String) : trimSuffix (a ++ b) b = a := by
  have hs : hasSuffix (a ++ b) b = true := by
    simp only [hasSuffix, String.data_append, List.isSuffixOf_iff_suffix]
    exact List.suffix_append _ _
  rw [trimSuffix, if_pos hs, String.length_append, Nat.add_sub_cancel]
  obtain ⟨a⟩ := a
  obtain ⟨b⟩ := b
  exact congrArg String.mk (List.take_left' rfl)

theorem trimSuffix_of_hasSuffix_eq_false {s suffix : String} (h : hasSuffix s suffix = false) :
    trimSuffix s suffix = s := by
  rw [trimSuffix, if_neg (by simp [h])]

theorem hasSuffix_joinSegments_dot {segs : List Name} (hs : ∀ s ∈ segs, ValidName s) :
    hasSuffix (joinSegments segs) "." = false := by
  refine hasSuffix_dot_eq_false.mpr fun l hl => ?_
  rcases List.eq_nil_or_concat segs with rfl | ⟨A, z, rfl⟩
  · simp [joinSegments] at hl
  · simp only [List.concat_eq_append] at hs hl
    have hz := hs z (by simp)
    obtain ⟨X, hX⟩ : ∃ X, (joinSegments (A ++ [z])).data = X ++ z.data := by
      by_cases hA : A = []
      · exact ⟨[], by simp [hA, joinSegments]⟩
      · exact ⟨(joinSegments A ++ ".").data, by
          rw [joinSegments_append hA (List.cons_ne_nil _ _)]; simp [String.data_append, joinSegments]⟩
    have h1 : (X ++ z.data).getLast? = some '.' := by rw [← hX, hl]; simp
    rw [List.getLast?_append_of_ne_nil _ hz.1] at h1
    exact hz.2 (List.mem_of_getLast?_eq_some h1)

theorem splits_joinSegments_eq {segs : List Name} (hs : ∀ s ∈ segs, ValidName s)
    {pre post : List (Name × FullName)} {seg : Name} {pkg : FullName}
    (h : splits (joinSegments segs) = pre ++ (seg, pkg) :: post) :
    ∃ more, segs = pre.map Prod.fst ++ seg :: more ∧ pkg = joinSegments more := by
  induction segs using joinSegments.induct generalizing pre with
  | case1 => simp [joinSegments] at h
  | case2 s =>
    have hv := hs s (List.mem_singleton_self s)
    rw [joinSegments, splits_of_ne (ne_empty_of_valid hv), splitPrefix_of_valid hv, splits_empty]
      at h
    cases pre with
    | nil =>
      simp only [List.nil_append, List.cons.injEq, Prod.mk.injEq] at h
      obtain ⟨⟨rfl, rfl⟩, -⟩ := h
      exact ⟨[], rfl, rfl⟩
    | cons p pre => simp at h
  | case3 s t segs ih =>
    have hv := hs s (List.mem_cons_self _ _)
    rw [joinSegments, splits_of_ne (append_dot_ne_empty _ _), splitPrefix_append_dot hv.2] at h
    cases pre with
    | nil =>
      simp only [List.nil_append, List.cons.injEq, Prod.mk.injEq] at h
      obtain ⟨⟨rfl, rfl⟩, -⟩ := h
      exact ⟨t :: segs, rfl, rfl⟩
    | cons p pre =>
      simp only [List.cons_append, List.cons.injEq] at h
      obtain ⟨rfl, h⟩ := h
      obtain ⟨more, hm, rfl⟩ := ih (fun x hx => hs x (List.mem_cons_of_mem _ hx)) h
      exact ⟨more, by rw [hm]; rfl, rfl⟩

theorem trimSuffix_splits_joinSegments {segs : List Name} (hs : ∀ s ∈ segs, ValidName s)
    {pre post : List (Name × FullName)} {seg : Name} {pkg : FullName}
    (h : splits (joinSegments segs) = pre ++ (seg, pkg) :: post) :
    ∃ more, segs = pre.map Prod.fst ++ seg :: more ∧
      trimSuffix (trimSuffix (joinSegments segs) pkg) "." = joinSegments (pre.map Prod.fst ++ [seg]) := by
  obtain ⟨more, rfl, rfl⟩ := splits_joinSegments_eq hs h
  refine ⟨more, rfl, ?_⟩
  have hB : ∀ s ∈ pre.map Prod.fst ++ [seg], ValidName s :=
    fun s h' => hs s (by simp only [List.mem_append, List.mem_cons, List.mem_singleton] at h' ⊢; tauto)
  rw [show pre.map Prod.fst ++ seg :: more = (pre.map Prod.fst ++ [seg]) ++ more by simp]
  by_cases hm : more = []
  · subst hm
    have he : trimSuffix (joinSegments (pre.map Prod.fst ++ [seg])) "" =
        joinSegments (pre.map Prod.fst ++ [seg]) := by
      simpa using trimSuffix_append (joinSegments (pre.map Prod.fst ++ [seg])) ""
    rw [List.append_nil, show joinSegments ([] : List Name) = "" from rfl, he,
      trimSuffix_of_hasSuffix_eq_false (hasSuffix_joinSegments_dot hB)]
  · rw [joinSegments_append (by simp) hm, trimSuffix_append, trimSuffix_append]

section Distinct

variable {F : FileDescriptor D} (hn : (rangeTopLevelDeclarations F).Nodup)
include hn

theorem declareFile_error_name {fs : List (FileDescriptor D)} {subs} {e : NameConflict}
    (h : (declareFile F (node fs subs)).2 = some e) :
    e.path = F.path ∧ ∃ s ∈ rangeTopLevelDeclarations F, (GoMap.get subs s).isSome ∧
      e.name = FullName.append F.package s := by
  have hd := declare_of_nodup hn subs []
  rw [List.nil_append] at hd
  simp only [declareFile, hd] at h
  generalize hC : (rangeTopLevelDeclarations F).filter (fun s => (GoMap.get subs s).isSome) = C at h
  cases C with
  | nil => cases h
  | cons c cs =>
    obtain ⟨s, ss, hS⟩ : ∃ s ss, sortNames (c :: cs) = s :: ss := by
      cases hS : sortNames (c :: cs) with
      | nil => simpa [hS] using (mem_sortNames (s := c) (l := c :: cs)).mpr (List.mem_cons_self _ _)
      | cons s ss => exact ⟨s, ss, rfl⟩
    have hs : s ∈ (rangeTopLevelDeclarations F).filter fun s => (GoMap.get subs s).isSome := by
      rw [hC, ← mem_sortNames, hS]; exact List.mem_cons_self _ _
    rw [List.mem_filter] at hs
    simp only [hS, List.headD_cons, Option.some.injEq] at h
    subst h
    exact ⟨rfl, s, hs.1, hs.2, rfl⟩

theorem registerAt_error_name (walk : List (Name × FullName)) :
    ∀ {t : FilesByPackage D} {e : NameConflict}, (registerAt F t walk).2 = some e →
      e.path = F.path ∧
      ((∃ pre seg pkg post, walk = pre ++ (seg, pkg) :: post ∧
          view t (pre.map Prod.fst ++ [seg]) = some .decl ∧
          e.name = trimSuffix (trimSuffix F.package pkg) ".") ∨
        ∃ s ∈ rangeTopLevelDeclarations F, (view t (walk.map Prod.fst ++ [s])).isSome ∧
          e.name = FullName.append F.package s) := by
  induction walk with
  | nil =>
    intro t e h
    cases t with
    | notProtoPackage => simp [registerAt, declareFile] at h
    | node fs subs =>
      obtain ⟨hp, s, hs, hg, hname⟩ := declareFile_error_name hn h
      obtain ⟨c, hc⟩ := Option.isSome_iff_exists.mp hg
      exact ⟨hp, .inr ⟨s, hs, by simp [view_cons, hc], hname⟩⟩
  | cons w walk ih =>
    intro t e h
    obtain ⟨seg, pkg⟩ := w
    simp only [registerAt] at h
    split at h
    · simp only [registerAt_fresh hn] at h
      cases h
    · rename_i hg
      cases h
      exact ⟨rfl, .inl ⟨[], seg, pkg, walk, rfl, by simp [view_cons, hg], rfl⟩⟩
    · rename_i c _ hg
      have hc := congrFun (view_cons_of_get hg)
      obtain ⟨hp, ⟨pre, seg', pkg', post, rfl, hv, hname⟩ | ⟨s, hs, hv, hname⟩⟩ := ih h
      · exact ⟨hp, .inl ⟨(seg, pkg) :: pre, seg', pkg', post, rfl, by simpa [hc] using hv, hname⟩⟩
      · exact ⟨hp, .inr ⟨s, hs, by simpa [hc] using hv, hname⟩⟩

end Distinct

/-- The name `name` is a run of segments `n` written with dots, one that both `F` and `G` take up:
a leading run of `F`'s package that `G` declares, or a full name of `F` that `G` declares too or
has as a leading run of its package. -/
def SharedName (F G : FileDescriptor D) (name : FullName) : Prop :=
  ∃ n, name = joinSegments n ∧
    ((n <+: segments F.package ∧ n ∈ fullNames G) ∨
      (n ∈ fullNames F ∧ (n ∈ fullNames G ∨ n <+: segments G.package)))

theorem error_names_of_refines {r : Files D} {acc : List (FileDescriptor D)} (hR : Refines r acc)
    {F : FileDescriptor D} (hF : ValidFile F) {e : NameConflict}
    (he : (r.registerFile F).2 = some e) :
    e.path = F.path ∧ ∃ G ∈ acc, SharedName F G e.name := by
  unfold Files.registerFile at he
  split_ifs at he with hp
  obtain ⟨⟨segs, hs, hpkg⟩, -⟩ := hF.resolve_left hp
  have hn := hF.nodup hp
  have hwalk : (registerAt F r.filesByPackage (splits F.package)).2 = some e := by
    split at he
    · rename_i heq; rw [heq]; exact he
    · cases he
  obtain ⟨hpath, hcase⟩ := registerAt_error_name hn _ hwalk
  rw [hR.view_eq] at hcase
  refine ⟨hpath, ?_⟩
  rcases hcase with ⟨pre, seg, pkg, post, hw, hd, hname⟩ | ⟨s, hs', hsome, hname⟩
  · -- the walk stopped at a segment an accepted file declares
    rw [hpkg] at hw hname
    obtain ⟨more, rfl, htrim⟩ := trimSuffix_splits_joinSegments hs hw
    obtain ⟨-, G, hG, hGn⟩ := specView_decl_iff.mp hd
    exact ⟨G, hG, _, hname.trans htrim,
      .inl ⟨by rw [hpkg, segments_joinSegments hs]; exact ⟨more, by simp⟩, hGn⟩⟩
  · -- a declared name of the file is taken in its package node
    have hsegs : segments F.package = segs := by rw [hpkg, segments_joinSegments hs]
    have hmem : segs ++ [s] ∈ fullNames F := mem_fullNames.mpr ⟨s, hs', by rw [hsegs]⟩
    have hse : e.name = joinSegments (segs ++ [s]) := by rw [hname, hpkg, append_joinSegments hs]
    change (specView _ (segments F.package ++ [s])).isSome at hsome
    rw [hsegs] at hsome
    rcases specView_isSome_iff.mp hsome with (h0 | ⟨G, hG, hGp⟩) | ⟨G, hG, hGn⟩
    · simp at h0
    · exact ⟨G, hG, _, hse, .inr ⟨hmem, .inr hGp⟩⟩
    · exact ⟨G, hG, _, hse, .inr ⟨hmem, .inl hGn⟩⟩

theorem register_eq_some {r : Files D} {files : List (FileDescriptor D)} {e : NameConflict}
    (he : (r.register files).2 = some e) :
    ∃ pre F post, files = pre ++ F :: post ∧ (r.register pre).2 = none ∧
      ((r.register pre).1.registerFile F).2 = some e := by
  induction files generalizing r with
  | nil => cases he
  | cons F files ih =>
    simp only [Files.register] at he
    cases hF : (r.registerFile F).2 with
    | some e' =>
      rw [hF, Option.or_some] at he
      exact ⟨[], F, files, rfl, rfl, he ▸ hF⟩
    | none =>
      rw [hF, Option.none_or] at he
      obtain ⟨pre, G, post, rfl, hpre, hG⟩ := ih he
      exact ⟨F :: pre, G, post, rfl, by simp [Files.register, hF, hpre], hG⟩

/-- On a registry built by valid calls, a `Register` call of valid files reports the error of its
first rejected file `F`: every file before `F` is accepted or a placeholder, and the error carries
`F`'s path and a name that `F` shares with a file accepted before it, in an earlier call or earlier
in this one. -/
theorem register_error_names (calls : List (List (FileDescriptor D)))
    (hv : ∀ c ∈ calls, ∀ F ∈ c, ValidFile F) (files : List (FileDescriptor D))
    (hvf : ∀ F ∈ files, ValidFile F) {e : NameConflict}
    (he : ((Files.empty.run calls).1.register files).2 = some e) :
    ∃ pre F post, files = pre ++ F :: post ∧ (registerSpec (runSpec [] calls).1 pre).2 = true ∧
      e.path = F.path ∧ ∃ G ∈ (registerSpec (runSpec [] calls).1 pre).1, SharedName F G e.name := by
  obtain ⟨hR, hinv, -⟩ := refines_empty.run ⟨by simp, List.Pairwise.nil⟩ hv
  obtain ⟨pre, F, post, rfl, hpre, hF⟩ := register_eq_some he
  obtain ⟨hR', -, hok⟩ := hR.register hinv fun G hG => hvf G (List.mem_append_left _ hG)
  exact ⟨pre, F, post, rfl, by rw [← hok, hpre]; rfl,
    error_names_of_refines hR' (hvf F (by simp)) hF⟩

def clashFile : FileDescriptor Nat := ⟨"d.proto", "p", false, [], ["N"], [], [], []⟩

theorem register_error_names_scenario :
    (∀ c ∈ scenarioCalls, ∀ F ∈ c, ValidFile F) ∧ (∀ F ∈ [clashFile], ValidFile F) ∧
      ((Files.empty.run scenarioCalls).1.register [clashFile]).2 = some ⟨"d.proto", "p.N"⟩ ∧
      ∃ pre F post, [clashFile] = pre ++ F :: post ∧
        (registerSpec (runSpec [] scenarioCalls).1 pre).2 = true ∧ "d.proto" = F.path ∧
        ∃ G ∈ (registerSpec (runSpec [] scenarioCalls).1 pre).1, SharedName F G "p.N" := by
  have hF : ∀ F ∈ [clashFile], ValidFile F := fun F hF => by
    rw [List.mem_singleton.mp hF]
    exact .inr ⟨⟨["p"], by decide, rfl⟩, by decide, by decide⟩
  have he : ((Files.empty.run scenarioCalls).1.register [clashFile]).2 =
      some ⟨"d.proto", "p.N"⟩ := by
    simp [scenarioCalls, clashFile, Files.run, Files.register, Files.registerFile, splits,
      splitPrefix, cutDot, registerAt, declareFile, declare, GoMap.get, GoMap.set, Files.empty,
      rangeTopLevelDeclarations, FilesByPackage.setSub, sortNames, FullName.append, rollback,
      hasConflict]
  exact ⟨scenarioCalls_valid, hF, he, register_error_names _ scenarioCalls_valid _ hF he⟩

end Protoregistry
end GolangOrg

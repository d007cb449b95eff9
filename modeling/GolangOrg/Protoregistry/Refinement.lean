import GolangOrg.Protoregistry.Atomic
import GolangOrg.Protoregistry.Spec

/-! `Register` refines the abstract registry of `Spec`: from `new(Files)` and on valid files, the
trie lays out exactly the accepted files, the path index lists them by path, and a call reports
an error exactly when the abstract registry turns one of its files down. -/
namespace GolangOrg
namespace Protoregistry

variable {D : Type}

open FilesByPackage

/-- Every node holds each key of its map once, as a Go map does. -/
def WellKeyed : FilesByPackage D → Prop
  | notProtoPackage => True
  | node _ subs => (subs.map Prod.fst).Nodup ∧ keyed subs
where
  keyed : List (Name × FilesByPackage D) → Prop
  | [] => True
  | (_, c) :: subs => WellKeyed c ∧ keyed subs

@[simp] theorem wellKeyed_notProtoPackage : WellKeyed (notProtoPackage : FilesByPackage D) := trivial

@[simp] theorem wellKeyed_node_nil (fs : List (FileDescriptor D)) : WellKeyed (node fs []) :=
  ⟨List.nodup_nil, trivial⟩

theorem keyed_iff {subs : List (Name × FilesByPackage D)} :
    WellKeyed.keyed subs ↔ ∀ e ∈ subs, WellKeyed e.2 := by
  induction subs with
  | nil => simp [WellKeyed.keyed]
  | cons e subs ih => obtain ⟨k, c⟩ := e; simp [WellKeyed.keyed, ih]

theorem keyed_set {subs : List (Name × FilesByPackage D)} (h : WellKeyed.keyed subs) (k : Name)
    {c : FilesByPackage D} (hc : WellKeyed c) : WellKeyed.keyed (GoMap.set subs k c) := by
  induction subs with
  | nil => exact ⟨hc, trivial⟩
  | cons e subs ih =>
    obtain ⟨k', c'⟩ := e
    by_cases hk : k' = k
    · simp only [GoMap.set, hk, if_true]; exact ⟨hc, h.2⟩
    · simp only [GoMap.set, hk, if_false]; exact ⟨h.1, ih h.2⟩

theorem keyed_delete {subs : List (Name × FilesByPackage D)} (h : WellKeyed.keyed subs) (k : Name) :
    WellKeyed.keyed (GoMap.delete subs k) :=
  keyed_iff.mpr fun e he => keyed_iff.mp h e (List.mem_of_mem_filter he)

theorem wellKeyed_setSub {t c : FilesByPackage D} (ht : WellKeyed t) (hc : WellKeyed c) (k : Name) :
    WellKeyed (t.setSub k c) := by
  cases t with
  | notProtoPackage => trivial
  | node fs subs => exact ⟨GoMap.nodup_keys_set ht.1 k c, keyed_set ht.2 k hc⟩

theorem wellKeyed_declare {subs : List (Name × FilesByPackage D)} (hn : (subs.map Prod.fst).Nodup)
    (hk : WellKeyed.keyed subs) (acc names : List Name) :
    ((declare subs acc names).1.map Prod.fst).Nodup ∧ WellKeyed.keyed (declare subs acc names).1 := by
  induction names generalizing subs acc with
  | nil => exact ⟨hn, hk⟩
  | cons s names ih =>
    by_cases h : (GoMap.get subs s).isNone
    · simp only [declare, h, if_true]
      exact ih (GoMap.nodup_keys_set hn s _) (keyed_set hk s wellKeyed_notProtoPackage) acc
    · simp only [declare, h, if_false]
      exact ih hn hk _

theorem wellKeyed_rollback {subs : List (Name × FilesByPackage D)} (hn : (subs.map Prod.fst).Nodup)
    (hk : WellKeyed.keyed subs) (conflicts names : List Name) :
    ((rollback conflicts subs names).map Prod.fst).Nodup ∧
      WellKeyed.keyed (rollback conflicts subs names) := by
  induction names generalizing subs with
  | nil => exact ⟨hn, hk⟩
  | cons s names ih =>
    simp only [rollback]
    split
    · exact ih hn hk
    · exact ih (GoMap.nodup_keys_delete hn s) (keyed_delete hk s)

theorem wellKeyed_declareFile (F : FileDescriptor D) {t : FilesByPackage D} (ht : WellKeyed t) :
    WellKeyed (declareFile F t).1 := by
  cases t with
  | notProtoPackage => trivial
  | node fs subs =>
    obtain ⟨hn, hk⟩ := wellKeyed_declare ht.1 ht.2 [] (rangeTopLevelDeclarations F)
    simp only [declareFile]
    split
    · rename_i h; rw [h] at hn hk; exact ⟨hn, hk⟩
    · rename_i h; rw [h] at hn hk; exact wellKeyed_rollback hn hk _ _

theorem wellKeyed_registerAt (F : FileDescriptor D) (walk : List (Name × FullName)) :
    ∀ {t : FilesByPackage D}, WellKeyed t → WellKeyed (registerAt F t walk).1 := by
  induction walk with
  | nil => exact wellKeyed_declareFile F
  | cons w walk ih =>
    intro t ht
    obtain ⟨seg, pkg⟩ := w
    simp only [registerAt]
    split
    · exact wellKeyed_setSub ht (ih (wellKeyed_node_nil [])) seg
    · exact ht
    · rename_i c _ hg
      have hc : WellKeyed c := by
        cases t with
        | notProtoPackage => simp at hg
        | node fs subs => exact keyed_iff.mp ht.2 _ (GoMap.mem_of_get_eq_some hg)
      exact wellKeyed_setSub ht (ih hc) seg

theorem view_cons_of_get {t c : FilesByPackage D} {s : Name} (h : GoMap.get t.subs s = some c) :
    (fun q => view t (s :: q)) = view c := by
  funext q; simp [view_cons, h]

theorem insertView_nil_cons {V : List Name → Option (Slot D)} {F : FileDescriptor D} (k : Name)
    (q : List Name) :
    insertView V [] F (k :: q) =
      if q = [] ∧ k ∈ rangeTopLevelDeclarations F then some .decl else V (k :: q) := by
  by_cases hq : q = [] <;> simp [insertView, hq]

section Distinct

variable {F : FileDescriptor D} (hn : (rangeTopLevelDeclarations F).Nodup)
include hn

theorem declareFile_error_iff (fs : List (FileDescriptor D)) (subs) :
    (declareFile F (node fs subs)).2.isSome ↔
      ∃ s ∈ rangeTopLevelDeclarations F, (GoMap.get subs s).isSome := by
  have hd := declare_of_nodup hn subs []
  rw [List.nil_append] at hd
  simp only [declareFile]
  rw [hd]
  cases hC : (rangeTopLevelDeclarations F).filter fun s => (GoMap.get subs s).isSome with
  | nil =>
    simp only [Option.isSome_none, Bool.false_eq_true, false_iff, not_exists, not_and]
    exact fun s hs h => by simp [List.filter_eq_nil_iff.mp hC s hs] at h
  | cons c cs =>
    have hc : c ∈ (rangeTopLevelDeclarations F).filter fun s => (GoMap.get subs s).isSome :=
      hC ▸ List.mem_cons_self _ _
    simp only [Option.isSome_some, true_iff]
    exact ⟨c, List.mem_of_mem_filter hc, by simpa using (List.mem_filter.mp hc).2⟩

theorem view_declareFile {fs : List (FileDescriptor D)} {subs}
    (h : (declareFile F (node fs subs)).2 = none) :
    view (declareFile F (node fs subs)).1 = insertView (view (node fs subs)) [] F := by
  have hd := declare_of_nodup hn subs []
  rw [List.nil_append] at hd
  have habs : ∀ s ∈ rangeTopLevelDeclarations F, GoMap.get subs s = none := fun s hs => by
    by_contra hne
    have := (declareFile_error_iff hn fs subs).mpr ⟨s, hs, Option.ne_none_iff_isSome.mp hne⟩
    simp [h] at this
  have hC : (rangeTopLevelDeclarations F).filter (fun s => (GoMap.get subs s).isSome) = [] :=
    List.filter_eq_nil_iff.mpr fun s hs => by simp [habs s hs]
  have hA : (rangeTopLevelDeclarations F).filter (fun s => (GoMap.get subs s).isNone) =
      rangeTopLevelDeclarations F :=
    List.filter_eq_self.mpr fun s hs => by simp [habs s hs]
  simp only [declareFile, hd, hC, hA]
  funext q
  cases q with
  | nil => simp [insertView, FilesByPackage.slot, filesAt]
  | cons k q =>
    rw [insertView_nil_cons, view_cons, subs_node, get_insertAll]
    by_cases hk : k ∈ rangeTopLevelDeclarations F
    · rw [if_pos hk]
      cases q with
      | nil => simp [hk, view]
      | cons k' q => simp [view_eq_none_of_get (t := node fs subs) (habs k hk), view_cons]
    · simp [hk, view_cons]

theorem registerAt_error_iff (walk : List (Name × FullName)) :
    ∀ {fs : List (FileDescriptor D)} {subs},
      (registerAt F (node fs subs) walk).2.isSome ↔
        Blocked (view (node fs subs)) (walk.map Prod.fst) (rangeTopLevelDeclarations F) := by
  induction walk with
  | nil =>
    intro fs subs
    rw [registerAt, declareFile_error_iff hn, List.map_nil, blocked_nil]
    refine exists_congr fun s => and_congr_right fun _ => ?_
    simp only [view_cons, subs_node]
    cases GoMap.get subs s <;> rfl
  | cons w walk ih =>
    intro fs subs
    obtain ⟨seg, pkg⟩ := w
    cases hg : GoMap.get subs seg with
    | none =>
      simp only [registerAt, subs_node, hg, registerAt_fresh hn, Option.isSome_none,
        Bool.false_eq_true, false_iff, List.map_cons]
      exact not_blocked_of_none (fun q => view_eq_none_of_get (t := node fs subs) hg q) _ _
    | some c =>
      have hv : view (node fs subs) [seg] = some c.slot := by simp [view_cons, hg]
      cases c with
      | notProtoPackage =>
        simp only [registerAt, subs_node, hg, Option.isSome_some, true_iff, List.map_cons]
        exact blocked_of_decl hv _ _
      | node fs' subs' =>
        simp only [registerAt, subs_node, hg, List.map_cons]
        rw [blocked_cons (by simp [hv]),
          view_cons_of_get (t := node fs subs) hg]
        exact ih

theorem view_registerAt (walk : List (Name × FullName)) :
    ∀ {fs : List (FileDescriptor D)} {subs}, (registerAt F (node fs subs) walk).2 = none →
      view (registerAt F (node fs subs) walk).1 =
        insertView (view (node fs subs)) (walk.map Prod.fst) F := by
  induction walk with
  | nil => exact fun h => view_declareFile hn h
  | cons w walk ih =>
    intro fs subs h
    obtain ⟨seg, pkg⟩ := w
    have hstep : ∀ {c' : FilesByPackage D},
        insertView (fun q => view (node fs subs) (seg :: q)) (walk.map Prod.fst) F = view c' →
        view ((node fs subs).setSub seg c') =
          insertView (view (node fs subs)) (((seg, pkg) :: walk).map Prod.fst) F := by
      intro c' hc'
      funext q
      cases q with
      | nil => simp [insertView_nil_of_cons, filesAt]
      | cons k q =>
        by_cases hk : k = seg
        · subst hk
          rw [view_setSub_self, List.map_cons, insertView_cons_self, hc']
        · rw [view_setSub_ne _ _ _ (Ne.symm hk), List.map_cons, insertView_cons_ne hk]
    cases hg : GoMap.get subs seg with
    | none =>
      simp only [registerAt, subs_node, hg] at h ⊢
      refine hstep ?_
      rw [ih h]
      refine insertView_congr (fun q hq => ?_) (by simp [view_cons, hg, filesAt]) _
      obtain ⟨k, q, rfl⟩ := List.exists_cons_of_ne_nil hq
      simp [view_cons, hg]
    | some c =>
      cases c with
      | notProtoPackage => simp [registerAt, hg] at h
      | node fs' subs' =>
        simp only [registerAt, subs_node, hg] at h ⊢
        refine hstep ?_
        rw [ih h, view_cons_of_get (t := node fs subs) hg]

end Distinct

/-- A sequence of `Register` calls: the registry after them, and the error of each call. -/
def Files.run (r : Files D) : List (List (FileDescriptor D)) → Files D × List (Option NameConflict)
  | [] => (r, [])
  | c :: calls =>
    let s := r.register c
    let t := s.1.run calls
    (t.1, s.2 :: t.2)

/-- The registry lays out the abstract registry `acc`: its trie has the view `specView acc`, its
maps hold each key once, and its path index lists the accepted files of each path. -/
structure Refines (r : Files D) (acc : List (FileDescriptor D)) : Prop where
  view_eq : view r.filesByPackage = specView acc
  keyed : WellKeyed r.filesByPackage
  byPath : ∀ x, (GoMap.get r.filesByPath x).getD [] = acc.filter fun G => G.path = x

theorem refines_empty : Refines (Files.empty : Files D) [] where
  view_eq := by
    funext q
    cases q with
    | nil => simp [Files.empty, specView]
    | cons k q => simp [Files.empty, specView, view_cons]
  keyed := wellKeyed_node_nil []
  byPath x := rfl

theorem Refines.root_node {r : Files D} {acc : List (FileDescriptor D)} (hr : Refines r acc) :
    ∃ fs subs, r.filesByPackage = node fs subs := by
  have h := congrFun hr.view_eq []
  cases hroot : r.filesByPackage with
  | notProtoPackage => simp [hroot, specView] at h
  | node fs subs => exact ⟨fs, subs, rfl⟩

section Step

variable {r : Files D} {acc : List (FileDescriptor D)} (hr : Refines r acc) (hinv : SpecInv acc)
  {F : FileDescriptor D} (hF : ValidFile F) (hp : ¬F.isPlaceholder)
include hr hinv hF hp

theorem Refines.registerFile :
    ((r.registerFile F).2.isSome ↔ ∃ G ∈ acc, Conflict F G) ∧
      Refines (r.registerFile F).1 (if ∀ G ∈ acc, ¬Conflict F G then acc ++ [F] else acc) := by
  obtain ⟨fs, subs, hroot⟩ := hr.root_node
  have hn := hF.nodup hp
  have herr : (registerAt F (node fs subs) (splits F.package)).2.isSome ↔ ∃ G ∈ acc, Conflict F G :=
    (registerAt_error_iff hn _).trans (by rw [← hroot, hr.view_eq]; exact blocked_specView_iff hinv)
  unfold Files.registerFile
  rw [if_neg hp, hroot]
  cases hres : registerAt F (node fs subs) (splits F.package) with
  | mk root err =>
    rw [hres] at herr
    cases err with
    | none =>
      have hc : ∀ G ∈ acc, ¬Conflict F G := fun G hG h => by simpa using herr.mpr ⟨G, hG, h⟩
      have hview := view_registerAt hn (splits F.package) (by rw [hres])
      rw [hres] at hview
      refine ⟨by simpa using herr, ?_⟩
      rw [if_pos hc]
      refine ⟨?_, ?_, fun x => ?_⟩
      · rw [hview, ← hroot, hr.view_eq]
        exact (specView_append fun hb => by
          obtain ⟨G, hG, h⟩ := (blocked_specView_iff hinv).mp hb; exact hc G hG h).symm
      · have := wellKeyed_registerAt F (splits F.package) (hroot ▸ hr.keyed)
        rwa [hres] at this
      · simp only [GoMap.get_set, List.filter_append, List.filter_singleton]
        by_cases hx : F.path = x
        · subst hx; simp [hr.byPath]
        · simp [hx, hr.byPath]
    | some e =>
      have hc : ∃ G ∈ acc, Conflict F G := herr.mp rfl
      have hroot' : root = node fs subs := by
        have := registerAt_error hn
          (show (registerAt F (node fs subs) (splits F.package)).2.isSome by rw [hres]; rfl)
        rwa [hres] at this
      refine ⟨by simpa using hc, ?_⟩
      rw [if_neg (by simpa using hc), hroot', ← hroot]
      exact hr

end Step

/-- A call of `Register` refines the abstract one, and errs exactly when the abstract one rejects
a file. -/
theorem Refines.register {r : Files D} {acc : List (FileDescriptor D)} (hr : Refines r acc)
    (hinv : SpecInv acc) {files : List (FileDescriptor D)} (hv : ∀ F ∈ files, ValidFile F) :
    Refines (r.register files).1 (registerSpec acc files).1 ∧
      SpecInv (registerSpec acc files).1 ∧
      (r.register files).2.isNone = (registerSpec acc files).2 := by
  induction files generalizing r acc with
  | nil => exact ⟨hr, hinv, rfl⟩
  | cons F files ih =>
    have hv' : ∀ F ∈ files, ValidFile F := fun G hG => hv G (List.mem_cons_of_mem _ hG)
    by_cases hp : F.isPlaceholder
    · have hs : r.registerFile F = (r, none) := by simp [Files.registerFile, hp]
      simpa [Files.register, registerSpec, hp, hs] using ih hr hinv hv'
    · obtain ⟨herr, hr'⟩ := hr.registerFile hinv (hv F (List.mem_cons_self _ _)) hp
      by_cases hc : ∀ G ∈ acc, ¬Conflict F G
      · have hnone : (r.registerFile F).2 = none := Option.not_isSome_iff_eq_none.mp fun h => by
          obtain ⟨G, hG, h'⟩ := herr.mp h; exact hc G hG h'
        rw [if_pos hc] at hr'
        obtain ⟨h1, h2, h3⟩ := ih hr' (hinv.append (hv F (List.mem_cons_self _ _)) hp hc) hv'
        simp only [Files.register, hnone, Option.none_or]
        rw [registerSpec, if_neg hp, if_pos hc]
        exact ⟨h1, h2, h3⟩
      · obtain ⟨e, he⟩ := Option.isSome_iff_exists.mp (herr.mpr (by simpa using hc))
        rw [if_neg hc] at hr'
        obtain ⟨h1, h2, -⟩ := ih hr' hinv hv'
        simp only [Files.register, he, Option.or_some]
        rw [registerSpec, if_neg hp, if_neg hc]
        exact ⟨h1, h2, rfl⟩

theorem Refines.run {r : Files D} {acc : List (FileDescriptor D)} (hr : Refines r acc)
    (hinv : SpecInv acc) {calls : List (List (FileDescriptor D))}
    (hv : ∀ c ∈ calls, ∀ F ∈ c, ValidFile F) :
    Refines (r.run calls).1 (runSpec acc calls).1 ∧ SpecInv (runSpec acc calls).1 ∧
      (r.run calls).2.map Option.isNone = (runSpec acc calls).2 := by
  induction calls generalizing r acc with
  | nil => exact ⟨hr, hinv, rfl⟩
  | cons c calls ih =>
    obtain ⟨h1, h2, h3⟩ := hr.register hinv (hv c (List.mem_cons_self _ _))
    obtain ⟨h4, h5, h6⟩ := ih h1 h2 fun c' hc' => hv c' (List.mem_cons_of_mem _ hc')
    exact ⟨h4, h5, by simp [Files.run, runSpec, h3, h6]⟩

/-- From `new(Files)`, whatever the calls on valid files, the registry lays out exactly the files
the abstract registry accepts (a file is accepted iff it conflicts with no file accepted before
it), and each call errs exactly when one of its non-placeholder files is turned down. -/
theorem register_run_refines (calls : List (List (FileDescriptor D)))
    (hv : ∀ c ∈ calls, ∀ F ∈ c, ValidFile F) :
    Refines (Files.empty.run calls).1 (runSpec [] calls).1 ∧
      (Files.empty.run calls).2.map Option.isNone = (runSpec [] calls).2 :=
  let h := refines_empty.run ⟨by simp, List.Pairwise.nil⟩ hv
  ⟨h.1, h.2.2⟩

def scenarioCalls : List (List (FileDescriptor Nat)) :=
  [[⟨"a.proto", "p", false, [], ["M"], [], [], [("p.M", 1)]⟩],
    [⟨"b.proto", "p", false, [], ["N"], [], [], [("p.N", 2)]⟩],
    [⟨"c.proto", "p", false, [], ["M"], [], [], [("p.M", 3)]⟩]]

theorem scenarioCalls_valid : ∀ c ∈ scenarioCalls, ∀ F ∈ c, ValidFile F := by
  intro c hc F hF
  simp only [scenarioCalls, List.mem_cons, List.mem_singleton, List.not_mem_nil, or_false] at hc
  rcases hc with rfl | rfl | rfl <;> rw [List.mem_singleton.mp hF] <;>
    exact .inr ⟨⟨["p"], by decide, rfl⟩, by decide, by decide⟩

theorem register_run_refines_scenario :
    (∀ c ∈ scenarioCalls, ∀ F ∈ c, ValidFile F) ∧
      Refines (Files.empty.run scenarioCalls).1 (runSpec [] scenarioCalls).1 ∧
      (Files.empty.run scenarioCalls).2.map Option.isNone = (runSpec [] scenarioCalls).2 :=
  ⟨scenarioCalls_valid, register_run_refines _ scenarioCalls_valid⟩

/-- `NewFiles(files...)` on valid files registers each file that conflicts with no file registered
before it: of two conflicting files the first takes precedence. -/
theorem newFiles_refines (files : List (FileDescriptor D)) (hv : ∀ F ∈ files, ValidFile F) :
    Refines (newFiles files) (registerSpec [] files).1 :=
  (refines_empty.register ⟨by simp, List.Pairwise.nil⟩ hv).1

theorem newFiles_refines_scenario :
    (∀ F ∈ scenarioCalls.flatten, ValidFile F) ∧
      Refines (newFiles scenarioCalls.flatten) (registerSpec [] scenarioCalls.flatten).1 :=
  have hv : ∀ F ∈ scenarioCalls.flatten, ValidFile F := fun F hF =>
    let ⟨c, hc, hFc⟩ := List.mem_flatten.mp hF
    scenarioCalls_valid c hc F hFc
  ⟨hv, newFiles_refines _ hv⟩

end Protoregistry
end GolangOrg

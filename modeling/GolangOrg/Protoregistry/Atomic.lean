import GolangOrg.Protoregistry.Trie

/-! Atomicity of a failed registration. Nodes are created by the package walk only below a
missing entry, and a fresh node cannot hold a conflict unless the file repeats a name; the
rollback deletes exactly the names the first pass bound unless a name is repeated. -/
namespace GolangOrg
namespace Protoregistry

variable {D : Type}

open FilesByPackage

theorem setSub_of_get {t : FilesByPackage D} {s : Name} {c : FilesByPackage D}
    (h : GoMap.get t.subs s = some c) : t.setSub s c = t := by
  cases t with
  | notProtoPackage => rfl
  | node fs subs =>
    rw [subs_node] at h
    simp [setSub, GoMap.set_of_get h]

section Distinct

variable {file : FileDescriptor D} (hn : (rangeTopLevelDeclarations file).Nodup)
include hn

theorem registerAt_fresh (fs : List (FileDescriptor D)) (walk : List (Name × FullName)) :
    (registerAt file (node fs []) walk).2 = none := by
  induction walk generalizing fs with
  | nil => simp [registerAt, declareFile, declare_of_nodup hn]
  | cons w walk ih => simp [registerAt, ih]

theorem declareFile_error {t : FilesByPackage D} (he : (declareFile file t).2.isSome) :
    (declareFile file t).1 = t := by
  cases t with
  | notProtoPackage => simp [declareFile] at he
  | node fs subs =>
    have hd := declare_of_nodup hn subs []
    rw [List.nil_append] at hd
    simp only [declareFile] at he ⊢
    rw [hd] at he ⊢
    generalize hC : (rangeTopLevelDeclarations file).filter (fun s => (GoMap.get subs s).isSome) = C
      at he ⊢
    cases C with
    | nil => simp at he
    | cons c cs =>
      have key : ∀ s ∈ rangeTopLevelDeclarations file,
          (!hasConflict (sortNames (c :: cs)) s) = (GoMap.get subs s).isNone := by
        intro s hs
        have h2 : s ∈ c :: cs ↔ (GoMap.get subs s).isSome := by
          rw [← hC, List.mem_filter]; simp [hs]
        have h1 := (hasConflict_sortNames (c :: cs) s).trans h2
        cases h : GoMap.get subs s <;> simp_all
      simp only [rollback_eq_deleteAll, List.filter_congr key]
      rw [deleteAll_insertAll (hn.filter _)
        (fun s hs => by simpa [Option.isNone_iff_eq_none] using (List.mem_filter.mp hs).2)]

theorem registerAt_error {t : FilesByPackage D} {walk : List (Name × FullName)}
    (he : (registerAt file t walk).2.isSome) : (registerAt file t walk).1 = t := by
  induction walk generalizing t with
  | nil => exact declareFile_error hn he
  | cons w walk ih =>
    obtain ⟨seg, pkg⟩ := w
    cases hg : GoMap.get t.subs seg with
    | none => simp [registerAt, hg, registerAt_fresh hn] at he
    | some c =>
      cases c with
      | notProtoPackage => simp [registerAt, hg]
      | node fs subs =>
        simp only [registerAt, hg] at he ⊢
        rw [ih he, setSub_of_get hg]

end Distinct

@[simp] theorem register_singleton (r : Files D) (file : FileDescriptor D) :
    r.register [file] = r.registerFile file := by
  simp [Files.register]

/-- A file with distinct top-level names that `Register` rejects leaves the registry as it was. -/
theorem register_error_keeps_registry (r : Files D) (file : FileDescriptor D)
    (hn : (rangeTopLevelDeclarations file).Nodup) (he : (r.register [file]).2.isSome) :
    (r.register [file]).1 = r := by
  rw [register_singleton] at he ⊢
  unfold Files.registerFile at he ⊢
  split at he
  · simp at he
  · rename_i hp
    rw [if_neg hp]
    split
    · rename_i root err h
      have := registerAt_error hn (t := r.filesByPackage) (by rw [h]; rfl)
      rw [h] at this
      simp only at this
      rw [this]
    · rename_i root h
      simp [h] at he

def messageFile : FileDescriptor Unit := ⟨"m.proto", "p", false, [], ["M"], [], [], []⟩

theorem register_error_keeps_registry_twice :
    (rangeTopLevelDeclarations messageFile).Nodup ∧
      ((Files.empty.register [messageFile]).1.register [messageFile]).2.isSome ∧
      ((Files.empty.register [messageFile]).1.register [messageFile]).1 =
        (Files.empty.register [messageFile]).1 := by
  have hn : (rangeTopLevelDeclarations messageFile).Nodup := by decide
  have he : ((Files.empty.register [messageFile]).1.register [messageFile]).2.isSome := by
    simp [messageFile, Files.registerFile, splits, splitPrefix, cutDot, registerAt, declareFile,
      declare, GoMap.get, GoMap.set, Files.empty, rangeTopLevelDeclarations, FilesByPackage.setSub]
  exact ⟨hn, he, register_error_keeps_registry _ _ hn he⟩

/-- With a repeated name (an enum value spelled like a message) the rollback keeps the repeated
name bound and the package node the walk created: the failed call changes the registry. -/
theorem register_repeated_name_changes_registry :
    (Files.empty.register [(⟨"m.proto", "p", false, [⟨"E", ["M"]⟩], ["M"], [], [], []⟩ :
      FileDescriptor Unit)]).2.isSome ∧
    (Files.empty.register [(⟨"m.proto", "p", false, [⟨"E", ["M"]⟩], ["M"], [], [], []⟩ :
      FileDescriptor Unit)]).1 ≠ Files.empty := by
  refine ⟨?_, fun h => ?_⟩
  · simp [Files.registerFile, splits, splitPrefix, cutDot, registerAt, declareFile, declare,
      GoMap.get, GoMap.set, Files.empty, rangeTopLevelDeclarations]
  · have := congrArg (fun r : Files Unit => r.filesByPackage.subs.length) h
    simp [Files.registerFile, splits, splitPrefix, cutDot, registerAt, declareFile, declare,
      GoMap.get, GoMap.set, Files.empty, rangeTopLevelDeclarations, FilesByPackage.setSub] at this

end Protoregistry
end GolangOrg

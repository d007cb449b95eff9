import Mathlib.Data.List.Pairwise
import GolangOrg.Protoregistry.Trie

/-! What the registry is for. An abstract registry is the list of accepted files: a file is
accepted when none of its full names equals a full name of an accepted file or a leading run of
segments of an accepted file's package, and none of theirs is a leading run of its package.
`specView` lays such a list out as the trie `Register` should build. -/
namespace GolangOrg
namespace Protoregistry

variable {D : Type}

/-- The names a file declares in its package's scope: its enums and their values, its messages,
its extensions and its services. -/
def declaredNames (fd : FileDescriptor D) : List Name :=
  fd.enums.map EnumDescriptor.name ++ fd.enums.flatMap EnumDescriptor.values ++ fd.messages ++
    fd.extensions ++ fd.services

theorem flatMap_name_values_perm : ∀ es : List EnumDescriptor,
    (es.flatMap fun e => e.name :: e.values).Perm
      (es.map EnumDescriptor.name ++ es.flatMap EnumDescriptor.values)
  | [] => .refl _
  | e :: es => by
    simp only [List.flatMap_cons, List.map_cons, List.cons_append]
    exact (((flatMap_name_values_perm es).append_left e.values).trans
      (List.perm_append_comm_assoc _ _ _)).cons e.name

/-- `rangeTopLevelDeclarations` passes each declared name once, in its own order. -/
theorem rangeTopLevelDeclarations_perm (fd : FileDescriptor D) :
    (rangeTopLevelDeclarations fd).Perm (declaredNames fd) := by
  simpa only [rangeTopLevelDeclarations, declaredNames, List.append_assoc] using
    (flatMap_name_values_perm fd.enums).append_right (fd.messages ++ (fd.extensions ++ fd.services))

/-- The full names a file declares: its package segments followed by one declared name. -/
def fullNames (fd : FileDescriptor D) : List (List Name) :=
  (declaredNames fd).map fun s => segments fd.package ++ [s]

/-- Two files conflict when a full name of one is a full name of the other, or a leading run of
segments of the other's package. -/
def Conflict (F G : FileDescriptor D) : Prop :=
  (∃ n ∈ fullNames F, n ∈ fullNames G ∨ n <+: segments G.package) ∨
    ∃ n ∈ fullNames G, n <+: segments F.package

instance (F G : FileDescriptor D) : Decidable (Conflict F G) :=
  inferInstanceAs (Decidable (_ ∨ _))

theorem conflict_comm {F G : FileDescriptor D} : Conflict F G ↔ Conflict G F := by
  unfold Conflict
  constructor <;>
  · rintro (⟨n, hn, h | h⟩ | ⟨n, hn, h⟩)
    · exact .inl ⟨n, h, .inl hn⟩
    · exact .inr ⟨n, hn, h⟩
    · exact .inl ⟨n, hn, .inr h⟩

/-- A file as the callers of `Register` hand it over: a placeholder, or a package made of valid
segments and distinct valid top-level names. -/
def ValidFile (fd : FileDescriptor D) : Prop :=
  fd.isPlaceholder ∨
    ((∃ segs, (∀ s ∈ segs, ValidName s) ∧ fd.package = joinSegments segs) ∧
      (∀ s ∈ declaredNames fd, ValidName s) ∧ (declaredNames fd).Nodup)

/-- `Register` on the abstract registry: the accepted files, and whether every non-placeholder
file of the call was accepted (no error). -/
def registerSpec (acc : List (FileDescriptor D)) :
    List (FileDescriptor D) → List (FileDescriptor D) × Bool
  | [] => (acc, true)
  | F :: files =>
    if F.isPlaceholder then registerSpec acc files
    else if ∀ G ∈ acc, ¬Conflict F G then registerSpec (acc ++ [F]) files
    else ((registerSpec acc files).1, false)

/-- A sequence of `Register` calls on the abstract registry. -/
def runSpec (acc : List (FileDescriptor D)) :
    List (List (FileDescriptor D)) → List (FileDescriptor D) × List Bool
  | [] => (acc, [])
  | c :: calls =>
    let s := registerSpec acc c
    let t := runSpec s.1 calls
    (t.1, s.2 :: t.2)

/-- The trie of an abstract registry: package nodes on every leading run of an accepted package,
holding the files of exactly that package, and declared names below them. -/
def specView (acc : List (FileDescriptor D)) (p : List Name) : Option (Slot D) :=
  if p = [] ∨ ∃ G ∈ acc, p <+: segments G.package then
    some (.pkg (acc.filter fun G => segments G.package = p))
  else if ∃ G ∈ acc, p ∈ fullNames G then some .decl
  else none

/-- Accepted files are valid, and no two of them conflict. -/
structure SpecInv (acc : List (FileDescriptor D)) : Prop where
  valid : ∀ G ∈ acc, ¬G.isPlaceholder ∧ ValidFile G
  pairwise : acc.Pairwise fun G H => ¬Conflict G H

/-- Where `Register` stops a file of package segments `P` and names `names` on a trie with view
`V`: a declared name on the way down, or a name already present at the package node. -/
def Blocked (V : List Name → Option (Slot D)) (P names : List Name) : Prop :=
  (∃ q, q ≠ [] ∧ q <+: P ∧ V q = some .decl) ∨ ∃ s ∈ names, (V (P ++ [s])).isSome

/-- The files of a slot, none for a declared name or nothing. -/
def filesAt : Option (Slot D) → List (FileDescriptor D)
  | some (.pkg fs) => fs
  | _ => []

/-- The view after a file of package segments `P` is accepted: the nodes down to `P` exist, the
file is appended at `P`, and its names are declared below `P`. -/
def insertView (V : List Name → Option (Slot D)) (P : List Name) (F : FileDescriptor D)
    (q : List Name) : Option (Slot D) :=
  if q = P then some (.pkg (filesAt (V P) ++ [F]))
  else if q <+: P then some (.pkg (filesAt (V q)))
  else if ∃ s ∈ rangeTopLevelDeclarations F, q = P ++ [s] then some .decl
  else V q

section Valid

variable {F : FileDescriptor D}

theorem ValidFile.segments (hF : ValidFile F) (hp : ¬F.isPlaceholder) :
    ∀ s ∈ segments F.package, ValidName s := by
  obtain ⟨segs, hs, he⟩ := (hF.resolve_left hp).1
  rw [he, segments_joinSegments hs]; exact hs

theorem ValidFile.names (hF : ValidFile F) (hp : ¬F.isPlaceholder) :
    ∀ s ∈ rangeTopLevelDeclarations F, ValidName s := fun s hs =>
  (hF.resolve_left hp).2.1 s ((rangeTopLevelDeclarations_perm F).subset hs)

theorem ValidFile.nodup (hF : ValidFile F) (hp : ¬F.isPlaceholder) :
    (rangeTopLevelDeclarations F).Nodup :=
  (rangeTopLevelDeclarations_perm F).nodup_iff.mpr (hF.resolve_left hp).2.2

theorem mem_fullNames {n : List Name} :
    n ∈ fullNames F ↔ ∃ s ∈ rangeTopLevelDeclarations F, n = segments F.package ++ [s] := by
  simp [fullNames, (rangeTopLevelDeclarations_perm F).mem_iff, eq_comm]

theorem not_fullName_prefix_self {n : List Name} (hn : n ∈ fullNames F) :
    ¬n <+: segments F.package := by
  obtain ⟨s, -, rfl⟩ := mem_fullNames.mp hn
  intro h
  have := h.length_le
  simp at this

theorem fullName_ne_nil {n : List Name} (hn : n ∈ fullNames F) : n ≠ [] := by
  obtain ⟨s, -, rfl⟩ := mem_fullNames.mp hn
  simp

end Valid

section Inv

variable {acc : List (FileDescriptor D)} (hinv : SpecInv acc)
include hinv

theorem SpecInv.not_prefix_of_fullName {G H : FileDescriptor D} (hG : G ∈ acc) (hH : H ∈ acc)
    {n : List Name} (hn : n ∈ fullNames G) : ¬n <+: segments H.package := by
  intro hp
  by_cases hGH : G = H
  · exact not_fullName_prefix_self hn (hGH ▸ hp)
  · exact hinv.pairwise.forall (fun _ _ h => mt conflict_comm.mpr h) hG hH hGH
      (.inl ⟨n, hn, .inr hp⟩)

theorem SpecInv.specView_decl {n : List Name} {G : FileDescriptor D} (hG : G ∈ acc)
    (hn : n ∈ fullNames G) : specView acc n = some .decl := by
  have h1 : ¬(n = [] ∨ ∃ H ∈ acc, n <+: segments H.package) := by
    rintro (h | ⟨H, hH, hp⟩)
    · exact fullName_ne_nil hn h
    · exact hinv.not_prefix_of_fullName hG hH hn hp
  simp only [specView, if_neg h1]
  rw [if_pos ⟨G, hG, hn⟩]

end Inv

theorem specView_decl_iff {acc : List (FileDescriptor D)} {q : List Name} :
    specView acc q = some .decl ↔
      ¬(q = [] ∨ ∃ G ∈ acc, q <+: segments G.package) ∧ ∃ G ∈ acc, q ∈ fullNames G := by
  unfold specView
  split_ifs with h1 h2 <;> simp_all

theorem specView_isSome_iff {acc : List (FileDescriptor D)} {q : List Name} :
    (specView acc q).isSome ↔
      (q = [] ∨ ∃ G ∈ acc, q <+: segments G.package) ∨ ∃ G ∈ acc, q ∈ fullNames G := by
  unfold specView
  split_ifs with h1 h2 <;> simp_all

theorem blocked_specView_iff {acc : List (FileDescriptor D)} (hinv : SpecInv acc)
    {F : FileDescriptor D} :
    Blocked (specView acc) (segments F.package) (rangeTopLevelDeclarations F) ↔
      ∃ G ∈ acc, Conflict F G := by
  constructor
  · rintro (⟨q, -, hq, hv⟩ | ⟨s, hs, hv⟩)
    · obtain ⟨-, G, hG, hn⟩ := specView_decl_iff.mp hv
      exact ⟨G, hG, .inr ⟨q, hn, hq⟩⟩
    · have hn : segments F.package ++ [s] ∈ fullNames F := mem_fullNames.mpr ⟨s, hs, rfl⟩
      rcases specView_isSome_iff.mp hv with (h | ⟨G, hG, hp⟩) | ⟨G, hG, hg⟩
      · simp at h
      · exact ⟨G, hG, .inl ⟨_, hn, .inr hp⟩⟩
      · exact ⟨G, hG, .inl ⟨_, hn, .inl hg⟩⟩
  · rintro ⟨G, hG, (⟨n, hn, h⟩ | ⟨n, hn, hp⟩)⟩
    · obtain ⟨s, hs, rfl⟩ := mem_fullNames.mp hn
      refine .inr ⟨s, hs, specView_isSome_iff.mpr ?_⟩
      rcases h with h | h
      · exact .inr ⟨G, hG, h⟩
      · exact .inl (.inr ⟨G, hG, h⟩)
    · exact .inl ⟨n, fullName_ne_nil hn, hp, hinv.specView_decl hG hn⟩

theorem SpecInv.append {acc : List (FileDescriptor D)} (hinv : SpecInv acc)
    {F : FileDescriptor D} (hF : ValidFile F) (hp : ¬F.isPlaceholder)
    (hc : ∀ G ∈ acc, ¬Conflict F G) : SpecInv (acc ++ [F]) where
  valid G hG := by
    rcases List.mem_append.mp hG with hG | hG
    · exact hinv.valid G hG
    · rw [List.mem_singleton.mp hG]; exact ⟨hp, hF⟩
  pairwise := List.pairwise_append.mpr ⟨hinv.pairwise, List.pairwise_singleton _ _,
    fun G hG H hH => by rw [List.mem_singleton.mp hH]; exact fun h => hc G hG (conflict_comm.mp h)⟩

theorem mem_registerSpec {acc files : List (FileDescriptor D)} {G : FileDescriptor D}
    (h : G ∈ (registerSpec acc files).1) : G ∈ acc ∨ G ∈ files := by
  induction files generalizing acc with
  | nil => exact .inl h
  | cons F files ih =>
    simp only [registerSpec] at h
    split_ifs at h
    · exact (ih h).imp_right (List.mem_cons_of_mem _)
    · rcases ih h with h | h
      · rcases List.mem_append.mp h with h | h
        · exact .inl h
        · exact .inr (List.mem_singleton.mp h ▸ List.mem_cons_self _ _)
      · exact .inr (List.mem_cons_of_mem _ h)
    · exact (ih h).imp_right (List.mem_cons_of_mem _)

theorem mem_runSpec {acc : List (FileDescriptor D)} {calls : List (List (FileDescriptor D))}
    {G : FileDescriptor D} (h : G ∈ (runSpec acc calls).1) : G ∈ acc ∨ ∃ c ∈ calls, G ∈ c := by
  induction calls generalizing acc with
  | nil => exact .inl h
  | cons c calls ih =>
    rcases ih h with h | ⟨c', hc', h⟩
    · exact (mem_registerSpec h).imp_right fun h => ⟨c, List.mem_cons_self _ _, h⟩
    · exact .inr ⟨c', List.mem_cons_of_mem _ hc', h⟩

section InsertView

variable {V : List Name → Option (Slot D)} {F : FileDescriptor D}

theorem insertView_cons_self (seg : Name) (P q : List Name) :
    insertView V (seg :: P) F (seg :: q) = insertView (fun q => V (seg :: q)) P F q := by
  simp only [insertView, List.cons.injEq, true_and, List.cons_prefix_cons, List.cons_append]

theorem insertView_cons_ne {seg k : Name} (h : k ≠ seg) (P q : List Name) :
    insertView V (seg :: P) F (k :: q) = V (k :: q) := by
  simp [insertView, h]

theorem insertView_nil_of_cons (seg : Name) (P : List Name) :
    insertView V (seg :: P) F [] = some (.pkg (filesAt (V []))) := by
  simp [insertView]

theorem insertView_congr {V' : List Name → Option (Slot D)} (h : ∀ q, q ≠ [] → V q = V' q)
    (h0 : filesAt (V []) = filesAt (V' [])) (P : List Name) :
    insertView V P F = insertView V' P F := by
  funext q
  have hq : ∀ q, filesAt (V q) = filesAt (V' q) := fun q => by
    by_cases hq : q = [] <;> simp [hq, h0, h]
  unfold insertView
  split_ifs with h1 h2
  · rw [hq]
  · rw [hq]
  · rfl
  · exact h q (by rintro rfl; exact h2 List.nil_prefix)

end InsertView

theorem blocked_nil {V : List Name → Option (Slot D)} {names : List Name} :
    Blocked V [] names ↔ ∃ s ∈ names, (V [s]).isSome := by
  simp only [Blocked, List.prefix_nil, List.nil_append]
  exact ⟨fun h => h.resolve_left fun ⟨_, hq, hp, _⟩ => hq hp, .inr⟩

theorem blocked_cons {V : List Name → Option (Slot D)} {seg : Name} (h : V [seg] ≠ some .decl)
    (P names : List Name) :
    Blocked V (seg :: P) names ↔ Blocked (fun q => V (seg :: q)) P names := by
  simp only [Blocked, List.cons_append]
  refine or_congr ⟨?_, ?_⟩ Iff.rfl
  · rintro ⟨q, hq, hp, hv⟩
    obtain (rfl | ⟨q', rfl, hq'⟩) := List.prefix_cons_iff.mp hp
    · exact absurd rfl hq
    · refine ⟨q', ?_, hq', hv⟩
      rintro rfl; exact h hv
  · rintro ⟨q, hq, hp, hv⟩
    exact ⟨seg :: q, List.cons_ne_nil _ _, List.cons_prefix_cons.mpr ⟨rfl, hp⟩, hv⟩

theorem not_blocked_of_none {V : List Name → Option (Slot D)} {seg : Name}
    (h : ∀ q, V (seg :: q) = none) (P names : List Name) : ¬Blocked V (seg :: P) names := by
  rintro (⟨q, hq, hp, hv⟩ | ⟨s, -, hv⟩)
  · obtain (rfl | ⟨q', rfl, -⟩) := List.prefix_cons_iff.mp hp
    · exact hq rfl
    · simp [h] at hv
  · simp [h] at hv

theorem blocked_of_decl {V : List Name → Option (Slot D)} {seg : Name} (h : V [seg] = some .decl)
    (P names : List Name) : Blocked V (seg :: P) names :=
  .inl ⟨[seg], List.cons_ne_nil _ _, List.cons_prefix_cons.mpr ⟨rfl, List.nil_prefix⟩, h⟩

section Append

variable {acc : List (FileDescriptor D)} {F : FileDescriptor D}

theorem filesAt_specView {q : List Name} (h : specView acc q ≠ some .decl) :
    filesAt (specView acc q) = acc.filter fun G => segments G.package = q := by
  unfold specView at h ⊢
  split_ifs at h ⊢ with h1 h2
  · rfl
  · exact absurd rfl h
  · symm
    refine List.filter_eq_nil_iff.mpr fun G hG he => h1 (.inr ⟨G, hG, ?_⟩)
    simp only [decide_eq_true_eq] at he
    exact he ▸ List.prefix_refl _

theorem specView_append_eq (q : List Name) :
    specView (acc ++ [F]) q =
      if q = [] ∨ (∃ G ∈ acc, q <+: segments G.package) ∨ q <+: segments F.package then
        some (.pkg ((acc.filter fun G => segments G.package = q) ++
          if segments F.package = q then [F] else []))
      else if (∃ G ∈ acc, q ∈ fullNames G) ∨ q ∈ fullNames F then some .decl
      else none := by
  simp only [specView, List.mem_append, List.mem_singleton, List.filter_append, or_and_right,
    exists_or, exists_eq_left, or_assoc]
  split_ifs <;> simp_all

theorem specView_append
    (hb : ¬Blocked (specView acc) (segments F.package) (rangeTopLevelDeclarations F)) :
    specView (acc ++ [F]) = insertView (specView acc) (segments F.package) F := by
  funext q
  have hdecl : ∀ q, q <+: segments F.package → specView acc q ≠ some .decl := by
    intro q hp hv
    by_cases hq : q = []
    · simp [specView, hq] at hv
    · exact hb (.inl ⟨q, hq, hp, hv⟩)
  have hsome : ∀ s ∈ rangeTopLevelDeclarations F,
      ¬(specView acc (segments F.package ++ [s])).isSome := fun s hs hv => hb (.inr ⟨s, hs, hv⟩)
  rw [specView_append_eq]
  unfold insertView
  by_cases hq : q <+: segments F.package
  · rw [if_pos (.inr (.inr hq))]
    by_cases he : q = segments F.package
    · subst he
      rw [if_pos rfl, if_pos rfl, filesAt_specView (hdecl _ (List.prefix_refl _))]
    · rw [if_neg he, if_pos hq, if_neg (Ne.symm he), List.append_nil,
        filesAt_specView (hdecl q hq)]
  · have hne : q ≠ segments F.package := fun he => hq (he ▸ List.prefix_refl _)
    rw [if_neg hne, if_neg hq]
    by_cases hs : ∃ s ∈ rangeTopLevelDeclarations F, q = segments F.package ++ [s]
    · obtain ⟨s, hs, rfl⟩ := hs
      have h1 : ¬(segments F.package ++ [s] = [] ∨
          (∃ G ∈ acc, segments F.package ++ [s] <+: segments G.package) ∨
            segments F.package ++ [s] <+: segments F.package) := by
        rintro (h | ⟨G, hG, hp⟩ | h)
        · simp at h
        · exact hsome s hs (specView_isSome_iff.mpr (.inl (.inr ⟨G, hG, hp⟩)))
        · exact hq h
      have h2 : ∃ s' ∈ rangeTopLevelDeclarations F,
          segments F.package ++ [s] = segments F.package ++ [s'] := ⟨s, hs, rfl⟩
      have h3 : (∃ G ∈ acc, segments F.package ++ [s] ∈ fullNames G) ∨
          segments F.package ++ [s] ∈ fullNames F := .inr (mem_fullNames.mpr ⟨s, hs, rfl⟩)
      rw [if_neg h1, if_pos h3, if_pos h2]
    · have hF : q ∉ fullNames F := fun h => hs (mem_fullNames.mp h)
      simp only [hq, or_false, hF, if_neg (Ne.symm hne), List.append_nil, if_neg hs, specView]

end Append

end Protoregistry
end GolangOrg

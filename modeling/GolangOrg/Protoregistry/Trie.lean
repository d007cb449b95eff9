import Mathlib.Data.List.Sort
import GolangOrg.Protoregistry.Files

/-! The trie seen through paths: `lookup` follows `subs` along a list of segments, and `view`
tells, at each path, whether there is a package node (with its files), a declared name, or
nothing. Below are the effects of one `subs` write and of the two declaration passes of
`Register` on these views. -/
namespace GolangOrg
namespace Protoregistry

variable {D : Type}

open FilesByPackage

/-- The entry reached from `t` along `path`. -/
def lookup : FilesByPackage D → List Name → Option (FilesByPackage D)
  | t, [] => some t
  | t, s :: path => (GoMap.get t.subs s).bind fun c => lookup c path

/-- What a path of the trie holds. -/
inductive Slot (D : Type) where
  | decl
  | pkg (files : List (FileDescriptor D))

def FilesByPackage.slot : FilesByPackage D → Slot D
  | notProtoPackage => .decl
  | node fs _ => .pkg fs

@[simp] theorem slot_node (fs : List (FileDescriptor D)) (subs) : (node fs subs).slot = .pkg fs := rfl
@[simp] theorem slot_notProtoPackage : (notProtoPackage : FilesByPackage D).slot = .decl := rfl

/-- The trie as a map from paths to slots. -/
def view (t : FilesByPackage D) (path : List Name) : Option (Slot D) := (lookup t path).map slot

@[simp] theorem lookup_nil (t : FilesByPackage D) : lookup t [] = some t := rfl

theorem lookup_cons (t : FilesByPackage D) (s : Name) (path : List Name) :
    lookup t (s :: path) = (GoMap.get t.subs s).bind fun c => lookup c path := rfl

@[simp] theorem view_notProtoPackage_cons (s : Name) (path : List Name) :
    view (notProtoPackage : FilesByPackage D) (s :: path) = none := rfl

@[simp] theorem lookup_notProtoPackage_cons (s : Name) (path : List Name) :
    lookup (notProtoPackage : FilesByPackage D) (s :: path) = none := rfl

@[simp] theorem view_nil (t : FilesByPackage D) : view t [] = some t.slot := rfl

theorem view_cons (t : FilesByPackage D) (s : Name) (path : List Name) :
    view t (s :: path) = (GoMap.get t.subs s).bind fun c => view c path := by
  simp only [view, lookup_cons, Option.map_bind]
  rfl

@[simp] theorem subs_setSub (fs : List (FileDescriptor D)) (subs) (s : Name) (c : FilesByPackage D) :
    ((node fs subs).setSub s c).subs = GoMap.set subs s c := rfl

@[simp] theorem slot_setSub (t : FilesByPackage D) (s : Name) (c : FilesByPackage D) :
    (t.setSub s c).slot = t.slot := by
  cases t <;> rfl

theorem view_setSub_self (fs : List (FileDescriptor D)) (subs) (s : Name) (c : FilesByPackage D)
    (path : List Name) : view ((node fs subs).setSub s c) (s :: path) = view c path := by
  simp [view_cons]

theorem view_setSub_ne (fs : List (FileDescriptor D)) (subs) {s s' : Name} (c : FilesByPackage D)
    (h : s ≠ s') (path : List Name) :
    view ((node fs subs).setSub s c) (s' :: path) = view (node fs subs) (s' :: path) := by
  simp [view_cons, GoMap.get_set_ne _ _ h]

theorem view_eq_none_of_get {t : FilesByPackage D} {s : Name} (h : GoMap.get t.subs s = none)
    (path : List Name) : view t (s :: path) = none := by
  simp [view_cons, h]

/-- Binding each name of a list to the sentinel, in order. -/
def insertAll (subs : List (Name × FilesByPackage D)) (names : List Name) :
    List (Name × FilesByPackage D) :=
  names.foldl (fun m s => GoMap.set m s notProtoPackage) subs

/-- Deleting each name of a list, in order. -/
def deleteAll (subs : List (Name × FilesByPackage D)) (names : List Name) :
    List (Name × FilesByPackage D) :=
  names.foldl GoMap.delete subs

theorem get_insertAll (subs : List (Name × FilesByPackage D)) (names : List Name) (k : Name) :
    GoMap.get (insertAll subs names) k = if k ∈ names then some notProtoPackage else GoMap.get subs k := by
  induction names generalizing subs with
  | nil => simp [insertAll]
  | cons s names ih =>
    simp only [insertAll, List.foldl_cons] at ih ⊢
    rw [ih, GoMap.get_set]
    by_cases hk : k ∈ names
    · simp [hk]
    · by_cases hs : s = k
      · simp [hk, hs]
      · simp [hk, hs, Ne.symm hs]

theorem delete_insertAll {names : List Name} {k : Name} (hk : k ∉ names)
    (subs : List (Name × FilesByPackage D)) :
    GoMap.delete (insertAll subs names) k = insertAll (GoMap.delete subs k) names := by
  induction names generalizing subs with
  | nil => rfl
  | cons s names ih =>
    simp only [List.mem_cons, not_or] at hk
    simp only [insertAll, List.foldl_cons] at ih ⊢
    rw [ih hk.2, GoMap.delete_set_ne _ _ (Ne.symm hk.1)]

theorem deleteAll_insertAll {names : List Name} (hn : names.Nodup)
    {subs : List (Name × FilesByPackage D)} (ha : ∀ s ∈ names, GoMap.get subs s = none) :
    deleteAll (insertAll subs names) names = subs := by
  induction names generalizing subs with
  | nil => rfl
  | cons s names ih =>
    rw [List.nodup_cons] at hn
    have hs := ha s (List.mem_cons_self _ _)
    have hrest : ∀ k ∈ names, GoMap.get subs k = none := fun k hk => ha k (List.mem_cons_of_mem _ hk)
    show deleteAll (GoMap.delete (insertAll (GoMap.set subs s notProtoPackage) names) s) names = subs
    rw [delete_insertAll hn.1, GoMap.delete_set_of_get_none _ hs, ih hn.2 hrest]

theorem declare_of_nodup {names : List Name} (hn : names.Nodup)
    (subs : List (Name × FilesByPackage D)) (acc : List Name) :
    declare subs acc names =
      (insertAll subs (names.filter fun s => (GoMap.get subs s).isNone),
        acc ++ names.filter fun s => (GoMap.get subs s).isSome) := by
  induction names generalizing subs acc with
  | nil => simp [declare, insertAll]
  | cons s names ih =>
    rw [List.nodup_cons] at hn
    have hfresh : ∀ k ∈ names, GoMap.get (GoMap.set subs s notProtoPackage) k = GoMap.get subs k :=
      fun k hk => GoMap.get_set_ne _ _ (fun he => hn.1 (he ▸ hk))
    cases h : GoMap.get subs s with
    | none =>
      simp only [declare, h, Option.isNone_none, if_true, ih hn.2, List.filter_cons,
        Option.isSome_none, Bool.false_eq_true, if_false, insertAll, List.foldl_cons]
      rw [List.filter_congr fun k hk => congrArg Option.isNone (hfresh k hk),
        List.filter_congr fun k hk => congrArg Option.isSome (hfresh k hk)]
    | some c =>
      simp [declare, h, ih hn.2, List.filter_cons]

theorem get_declare (subs : List (Name × FilesByPackage D)) (acc names : List Name) (k : Name) :
    GoMap.get (declare subs acc names).1 k =
      if k ∈ names ∧ (GoMap.get subs k).isNone then some notProtoPackage else GoMap.get subs k := by
  induction names generalizing subs acc with
  | nil => simp [declare]
  | cons s names ih =>
    simp only [List.mem_cons]
    by_cases hs : (GoMap.get subs s).isNone
    · rw [declare, if_pos hs, ih, GoMap.get_set]
      by_cases hk : s = k
      · subst hk; simp [hs]
      · have hk' : ¬k = s := Ne.symm hk
        rw [if_neg hk]; simp only [hk', false_or]
    · rw [declare, if_neg hs, ih]
      by_cases hk : s = k
      · subst hk; simp [hs]
      · have hk' : ¬k = s := Ne.symm hk
        simp only [hk', false_or]

theorem sorted_sortNames (l : List Name) : (sortNames l).Sorted (· ≤ ·) :=
  (@List.sorted_mergeSort _ (fun a b => decide (a ≤ b))
    (fun _ _ _ h₁ h₂ => by simp only [decide_eq_true_eq] at *; exact le_trans h₁ h₂)
    (fun a b => by simpa using le_total a b) l).imp (by simp)

theorem mem_sortNames {l : List Name} {s : Name} : s ∈ sortNames l ↔ s ∈ l :=
  (List.mergeSort_perm l _).mem_iff

theorem hasConflict_iff {l : List Name} (hl : l.Sorted (· ≤ ·)) (s : Name) :
    hasConflict l s = true ↔ s ∈ l := by
  simp only [hasConflict, Bool.and_eq_true, decide_eq_true_eq, beq_iff_eq]
  constructor
  · rintro ⟨hi, he⟩
    rw [List.getD_eq_getElem?_getD, List.getElem?_eq_getElem hi, Option.getD_some] at he
    exact he ▸ List.getElem_mem hi
  · intro hs
    obtain ⟨j, hj, rfl⟩ := List.mem_iff_getElem.mp hs
    have hlt : List.findIdx (fun c => decide (l[j] ≤ c)) l < l.length :=
      List.findIdx_lt_length_of_exists ⟨l[j], hs, by simp⟩
    refine ⟨hlt, ?_⟩
    rw [List.getD_eq_getElem?_getD, List.getElem?_eq_getElem hlt, Option.getD_some]
    have hle : List.findIdx (fun c => decide (l[j] ≤ c)) l ≤ j := by
      by_contra hc
      have := List.not_of_lt_findIdx (p := fun c => decide (l[j] ≤ c)) (Nat.lt_of_not_le hc)
      simp at this
    have h₁ := List.findIdx_getElem (p := fun c => decide (l[j] ≤ c)) (w := hlt)
    have h₂ := hl.rel_get_of_le (a := ⟨_, hlt⟩) (b := ⟨j, hj⟩) hle
    simp only [decide_eq_true_eq, List.get_eq_getElem] at h₁ h₂
    exact le_antisymm h₂ h₁

theorem hasConflict_sortNames (l : List Name) (s : Name) :
    hasConflict (sortNames l) s = true ↔ s ∈ l :=
  (hasConflict_iff (sorted_sortNames l) s).trans mem_sortNames

theorem rollback_eq_deleteAll (conflicts : List Name) (subs : List (Name × FilesByPackage D))
    (names : List Name) :
    rollback conflicts subs names = deleteAll subs (names.filter fun s => !hasConflict conflicts s) := by
  induction names generalizing subs with
  | nil => rfl
  | cons s names ih =>
    by_cases h : hasConflict conflicts s <;> simp [rollback, h, ih, List.filter_cons, deleteAll]

end Protoregistry
end GolangOrg

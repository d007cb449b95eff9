import Mathlib.Data.List.Perm.Basic
import GolangOrg.Protoregistry.Refinement

/-! `RangeFilesByPackage` on a registry built from valid files. `rangeFiles` calls its callback on
the files below a node in one order, and stops after the first call that returns false; for a
query that does not end in a dot, the node the walk reaches holds exactly the accepted files of the
query's package and of the packages below it, those of the query's package first. Go iterates a map
in no specified order, so the results hold for every order of the trie's maps. -/
namespace GolangOrg
namespace Protoregistry

variable {D : Type}

open FilesByPackage

/-- The files below a node in the order `rangeFiles` visits them: the node's own files, then the
entries of `subs` in map order. -/
def FilesByPackage.allFiles : FilesByPackage D → List (FileDescriptor D)
  | notProtoPackage => []
  | node files subs => files ++ allFilesSubs subs
where
  allFilesSubs : List (Name × FilesByPackage D) → List (FileDescriptor D)
  | [] => []
  | (_, c) :: subs => c.allFiles ++ allFilesSubs subs

theorem rangeList_append (f : Callback D) (l₁ l₂ calls : List (FileDescriptor D)) :
    rangeList f (l₁ ++ l₂) calls =
      if (rangeList f l₁ calls).2 then rangeList f l₂ (rangeList f l₁ calls).1
      else rangeList f l₁ calls := by
  induction l₁ generalizing calls with
  | nil => rfl
  | cons fd l₁ ih => by_cases h : f calls fd <;> simp [rangeList, h, ih]

theorem rangeFiles_eq_rangeList (f : Callback D) :
    (t : FilesByPackage D) → (calls : List (FileDescriptor D)) →
      rangeFiles f t calls = rangeList f t.allFiles calls
  | notProtoPackage, _ => rfl
  | node files subs, calls => by
    simp only [rangeFiles, allFiles, rangeList_append]
    rcases rangeList f files calls with ⟨c, _ | _⟩
    · rfl
    · exact rangeSubs_eq_rangeList f subs c
where
  rangeSubs_eq_rangeList (f : Callback D) :
      (subs : List (Name × FilesByPackage D)) → (calls : List (FileDescriptor D)) →
        rangeFiles.rangeSubs f subs calls = rangeList f (allFiles.allFilesSubs subs) calls
  | [], _ => rfl
  | (_, c) :: subs, calls => by
    simp only [rangeFiles.rangeSubs, allFiles.allFilesSubs, rangeList_append,
      rangeFiles_eq_rangeList f c]
    rcases rangeList f c.allFiles calls with ⟨c', _ | _⟩
    · rfl
    · exact rangeSubs_eq_rangeList f subs c'

@[simp] theorem rangeList_true (l calls : List (FileDescriptor D)) :
    rangeList (fun _ _ => true) l calls = (calls ++ l, true) := by
  induction l generalizing calls <;> simp_all [rangeList]

theorem rangeList_extends (f : Callback D) (l calls : List (FileDescriptor D)) :
    calls <+: (rangeList f l calls).1 ∧ (rangeList f l calls).1 <+: calls ++ l := by
  induction l generalizing calls with
  | nil => simp [rangeList]
  | cons fd l ih =>
    by_cases h : f calls fd
    · obtain ⟨h1, h2⟩ := ih (calls ++ [fd])
      simp only [rangeList, h, if_true]
      exact ⟨(List.prefix_append _ _).trans h1, by simpa using h2⟩
    · simp [rangeList, h]

theorem rangeList_stop (f : Callback D) (l calls : List (FileDescriptor D)) (i : Nat)
    (hi : i < (rangeList f l calls).1.length) (hc : calls.length ≤ i)
    (hf : f ((rangeList f l calls).1.take i) (rangeList f l calls).1[i] = false) :
    (rangeList f l calls).1.length = i + 1 := by
  induction l generalizing calls with
  | nil => simp [rangeList] at hi; omega
  | cons fd l ih =>
    by_cases h : f calls fd
    · simp only [rangeList, h, if_true] at hi hf ⊢
      rcases Nat.eq_or_lt_of_le hc with rfl | hlt
      · obtain ⟨rest, hr⟩ := (rangeList_extends f l (calls ++ [fd])).1
        simp [← hr, h, List.getElem_append_right] at hf
      · exact ih (calls ++ [fd]) hi (by simpa using hlt) hf
    · simp [rangeList, h] at hi ⊢; omega

/-- `t'` holds the entries of `t`, the entries of each map possibly listed in another order. -/
def Reordered : FilesByPackage D → FilesByPackage D → Prop
  | notProtoPackage, t => t = notProtoPackage
  | node fs subs', t => ∃ subs, t = node fs subs ∧ ∃ l, l.Perm subs ∧ reorderedSubs subs' l
where
  reorderedSubs : List (Name × FilesByPackage D) → List (Name × FilesByPackage D) → Prop
  | [], l => l = []
  | (s, c') :: subs', l => ∃ c rest, l = (s, c) :: rest ∧ Reordered c' c ∧ reorderedSubs subs' rest

theorem Reordered.refl : (t : FilesByPackage D) → Reordered t t
  | notProtoPackage => rfl
  | node _ subs => ⟨subs, rfl, subs, List.Perm.refl _, reorderedSubs_refl subs⟩
where
  reorderedSubs_refl : (subs : List (Name × FilesByPackage D)) → Reordered.reorderedSubs subs subs
  | [] => rfl
  | (_, c) :: subs => ⟨c, subs, rfl, Reordered.refl c, reorderedSubs_refl subs⟩

theorem reorderedSubs_keys : {subs' l : List (Name × FilesByPackage D)} →
    Reordered.reorderedSubs subs' l → subs'.map Prod.fst = l.map Prod.fst
  | [], _, h => by rw [h]
  | (s, _) :: _, _, ⟨_, _, h, _, hr⟩ => by rw [h, List.map_cons, List.map_cons, reorderedSubs_keys hr]

theorem reorderedSubs_get {subs' l : List (Name × FilesByPackage D)}
    (h : Reordered.reorderedSubs subs' l) (s : Name) :
    (GoMap.get subs' s = none → GoMap.get l s = none) ∧
      ∀ c', GoMap.get subs' s = some c' → ∃ c, GoMap.get l s = some c ∧ Reordered c' c := by
  induction subs' generalizing l with
  | nil => rw [h]; simp
  | cons e subs' ih =>
    obtain ⟨k, c'⟩ := e
    obtain ⟨c, rest, rfl, hc, hr⟩ := h
    by_cases hk : k = s
    · simp only [GoMap.get, hk, if_true]
      exact ⟨nofun, fun _ he => ⟨c, rfl, Option.some.inj he ▸ hc⟩⟩
    · simp only [GoMap.get, hk, if_false]
      exact ih hr

theorem Reordered.wellKeyed : (t' : FilesByPackage D) → {t : FilesByPackage D} →
    Reordered t' t → WellKeyed t → WellKeyed t'
  | notProtoPackage, _, _, _ => trivial
  | node _ subs', _, ⟨_, rfl, l, hl, hr⟩, ht =>
    ⟨by rw [reorderedSubs_keys hr]; exact (hl.map Prod.fst).nodup_iff.mpr ht.1,
      keyedSubs subs' hr fun e he => keyed_iff.mp ht.2 e (hl.mem_iff.mp he)⟩
where
  keyedSubs : (subs' : List (Name × FilesByPackage D)) → {l : List (Name × FilesByPackage D)} →
      Reordered.reorderedSubs subs' l → (∀ e ∈ l, WellKeyed e.2) → WellKeyed.keyed subs'
  | [], _, _, _ => trivial
  | (_, c') :: subs', _, ⟨c, _, rfl, hc, hr⟩, hl =>
    ⟨Reordered.wellKeyed c' hc (hl _ (List.mem_cons_self _ _)),
      keyedSubs subs' hr fun e he => hl e (List.mem_cons_of_mem _ he)⟩

theorem Reordered.view_eq (p : List Name) :
    ∀ {t' t : FilesByPackage D}, Reordered t' t → WellKeyed t → view t' p = view t p := by
  induction p with
  | nil =>
    intro t' t h _
    cases t' with
    | notProtoPackage => rw [show t = notProtoPackage from h]
    | node fs subs' => obtain ⟨_, rfl, -⟩ := h; rfl
  | cons s p ih =>
    intro t' t h ht
    cases t' with
    | notProtoPackage => rw [show t = notProtoPackage from h]
    | node fs subs' =>
      obtain ⟨subs, rfl, l, hl, hr⟩ := h
      have hget := GoMap.get_of_perm hl ((hl.map Prod.fst).nodup_iff.mpr ht.1) s
      obtain ⟨hnone, hsome⟩ := reorderedSubs_get hr s
      rw [view_cons, view_cons, subs_node, subs_node, ← hget]
      cases hs : GoMap.get subs' s with
      | none => rw [hnone hs]
      | some c' =>
        obtain ⟨c, hc, hrc⟩ := hsome c' hs
        rw [hc]
        exact ih hrc (keyed_iff.mp ht.2 _ (hl.mem_iff.mp (GoMap.mem_of_get_eq_some hc)))

theorem descend_none (Q : List Name) : descend (none : Option (FilesByPackage D)) Q = none := by
  cases Q <;> rfl

theorem descend_some (t : FilesByPackage D) (Q : List Name) : descend (some t) Q = lookup t Q := by
  induction Q generalizing t with
  | nil => rfl
  | cons s Q ih =>
    rw [descend, lookup_cons]
    cases GoMap.get t.subs s with
    | none => exact descend_none Q
    | some c => exact ih c

theorem lookup_append (t : FilesByPackage D) (Q p : List Name) :
    lookup t (Q ++ p) = (lookup t Q).bind fun u => lookup u p := by
  induction Q generalizing t with
  | nil => rfl
  | cons s Q ih =>
    simp only [List.cons_append, lookup_cons, Option.bind_assoc]
    cases GoMap.get t.subs s <;> simp [ih]

theorem wellKeyed_lookup (Q : List Name) :
    ∀ {t u : FilesByPackage D}, WellKeyed t → lookup t Q = some u → WellKeyed u := by
  induction Q with
  | nil => intro t u ht h; cases h; exact ht
  | cons s Q ih =>
    intro t u ht h
    rw [lookup_cons] at h
    cases hg : GoMap.get t.subs s with
    | none => simp [hg] at h
    | some c =>
      rw [hg] at h
      cases t with
      | notProtoPackage => simp at hg
      | node fs subs => exact ih (keyed_iff.mp ht.2 _ (GoMap.mem_of_get_eq_some hg)) h

theorem rangeFilesByPackage_eq (r : Files D) {q : FullName} (hq : hasSuffix q "." = false)
    (f : Callback D) :
    Files.rangeFilesByPackage (some r) q f =
      (rangeList f (((lookup r.filesByPackage (segments q)).map allFiles).getD []) []).1 := by
  simp only [Files.rangeFilesByPackage, hq, descend_some, Bool.false_eq_true, if_false]
  cases lookup r.filesByPackage (segments q) with
  | none => rfl
  | some u => simp [rangeFiles_eq_rangeList]

@[simp] theorem concat_prefix_self (Q : List Name) (s : Name) : ¬Q ++ [s] <+: Q :=
  fun h => by simpa using h.length_le

theorem eq_or_exists_concat {Q x : List Name} (h : Q <+: x) : x = Q ∨ ∃ s, Q ++ [s] <+: x := by
  obtain ⟨t, rfl⟩ := h
  cases t with
  | nil => exact .inl (List.append_nil _)
  | cons s t => exact .inr ⟨s, by simp⟩

theorem concat_prefix_unique {Q x : List Name} {s k : Name} (hs : Q ++ [s] <+: x)
    (hk : Q ++ [k] <+: x) : s = k := by
  simpa using (List.prefix_of_prefix_length_le hs hk (by simp)).eq_of_length (by simp)

theorem filter_perm_split {α : Type} (p q : α → Bool) (l : List α) (h : ∀ a ∈ l, q a → p a) :
    (l.filter p).Perm (l.filter q ++ l.filter fun a => p a && !q a) := by
  have hs := List.filter_append_perm q (l.filter p)
  rw [List.filter_filter, List.filter_filter,
    List.filter_congr fun a ha => show (q a && p a) = q a by cases hq : q a <;> simp [h a ha, hq],
    List.filter_congr fun a _ => Bool.and_comm (!q a) (p a)] at hs
  exact hs.symm

theorem filter_prefix_perm {α : Type} (g : α → List Name) (Q : List Name) {keys : List Name}
    (hk : keys.Nodup) : ∀ (l : List α), (∀ a ∈ l, ∀ s, Q ++ [s] <+: g a → s ∈ keys) →
      (l.filter fun a => Q <+: g a).Perm
        (l.filter (fun a => g a = Q) ++ keys.flatMap fun s => l.filter fun a => Q ++ [s] <+: g a) := by
  induction keys with
  | nil =>
    intro l hl
    have : (l.filter fun a => Q <+: g a) = l.filter fun a => g a = Q :=
      List.filter_congr fun a ha => decide_eq_decide.mpr ⟨fun h =>
        (eq_or_exists_concat h).resolve_right fun ⟨s, hs⟩ => List.not_mem_nil _ (hl a ha s hs),
        fun h => h ▸ List.prefix_refl _⟩
    rw [this, List.flatMap_nil, List.append_nil]
  | cons k keys ih =>
    intro l hl
    obtain ⟨hkk, hk⟩ := List.nodup_cons.mp hk
    have hsplit := filter_perm_split (fun a => decide (Q <+: g a))
      (fun a => decide (Q ++ [k] <+: g a)) l fun a _ h => by
        simp only [decide_eq_true_eq] at h ⊢; exact (List.prefix_append _ _).trans h
    have h2 := ih hk (l.filter fun a => !decide (Q ++ [k] <+: g a)) fun a ha s hs => by
      rcases List.mem_cons.mp (hl a (List.mem_of_mem_filter ha) s hs) with rfl | h
      · simp [hs] at ha
      · exact h
    simp only [List.filter_filter] at h2
    have h3 : (l.filter fun a => decide (g a = Q) && !decide (Q ++ [k] <+: g a)) =
        l.filter fun a => g a = Q :=
      List.filter_congr fun a _ => by by_cases h : g a = Q <;> simp [h]
    have h4 : ∀ s ∈ keys, (l.filter fun a => decide (Q ++ [s] <+: g a) &&
        !decide (Q ++ [k] <+: g a)) = l.filter fun a => Q ++ [s] <+: g a := fun s hs =>
      List.filter_congr fun a _ => by
        by_cases h : Q ++ [s] <+: g a
        · have hks : ¬Q ++ [k] <+: g a := fun h' => hkk (concat_prefix_unique h' h ▸ hs)
          simp [h, hks]
        · simp [h]
    rw [h3, List.flatMap_congr h4] at h2
    rw [List.flatMap_cons]
    exact (hsplit.trans (h2.append_left _)).trans (List.perm_append_comm_assoc _ _ _)

section Layout

variable {acc : List (FileDescriptor D)}

theorem specView_eq_pkg {Q : List Name} {fs : List (FileDescriptor D)}
    (h : specView acc Q = some (.pkg fs)) : fs = acc.filter fun G => segments G.package = Q := by
  unfold specView at h
  split_ifs at h <;> simp_all

theorem filter_eq_nil_of_specView {Q : List Name} (h : ∀ fs, specView acc Q ≠ some (.pkg fs)) :
    (acc.filter fun G => Q <+: segments G.package) = [] :=
  List.filter_eq_nil_iff.mpr fun G hG hp =>
    h _ (by rw [specView, if_pos (.inr ⟨G, hG, by simpa using hp⟩)])

theorem view_entry {fs : List (FileDescriptor D)} {subs : List (Name × FilesByPackage D)}
    {Q : List Name} (ht : WellKeyed (node fs subs))
    (hv : ∀ p, view (node fs subs) p = specView acc (Q ++ p)) :
    ∀ e ∈ subs, ∀ p, view e.2 p = specView acc (Q ++ [e.1] ++ p) := fun e he p => by
  have hg : GoMap.get (node fs subs).subs e.1 = some e.2 := GoMap.get_eq_some_of_mem ht.1 he
  rw [← congrFun (view_cons_of_get hg) p, hv, List.append_assoc, List.singleton_append]

theorem allFiles_perm : (t : FilesByPackage D) → (Q : List Name) → WellKeyed t →
    (∀ p, view t p = specView acc (Q ++ p)) →
    t.allFiles.Perm (acc.filter fun G => Q <+: segments G.package)
  | notProtoPackage, Q, _, hv => by
    rw [filter_eq_nil_of_specView fun fs h => by simpa [h] using (hv []).symm]
    exact List.Perm.refl _
  | node fs subs, Q, ht, hv => by
    have hfs := specView_eq_pkg (by simpa using (hv []).symm)
    have hcov : ∀ G ∈ acc, ∀ s, Q ++ [s] <+: segments G.package → s ∈ subs.map Prod.fst :=
      fun G hG s hs => by
        have hpkg : view (node fs subs) [s] ≠ none := by
          rw [hv, specView, if_pos (.inr ⟨G, hG, hs⟩)]; simp
        rw [view_cons, subs_node] at hpkg
        cases hc : GoMap.get subs s with
        | none => simp [hc] at hpkg
        | some c => exact List.mem_map.mpr ⟨_, GoMap.mem_of_get_eq_some hc, rfl⟩
    rw [allFiles, hfs]
    exact ((allFilesSubs_perm subs Q ht.2 (view_entry ht hv)).append_left _).trans
      (filter_prefix_perm _ Q ht.1 acc hcov).symm
where
  allFilesSubs_perm : (subs : List (Name × FilesByPackage D)) → (Q : List Name) →
      WellKeyed.keyed subs → (∀ e ∈ subs, ∀ p, view e.2 p = specView acc (Q ++ [e.1] ++ p)) →
      (allFiles.allFilesSubs subs).Perm
        ((subs.map Prod.fst).flatMap fun s => acc.filter fun G => Q ++ [s] <+: segments G.package)
  | [], _, _, _ => List.Perm.refl _
  | (s, c) :: subs, Q, hk, hv => by
    rw [allFiles.allFilesSubs, List.map_cons, List.flatMap_cons]
    exact (allFiles_perm c (Q ++ [s]) hk.1 (hv _ (List.mem_cons_self _ _))).append
      (allFilesSubs_perm subs Q hk.2 fun e he => hv e (List.mem_cons_of_mem _ he))

theorem lookup_allFiles {t : FilesByPackage D} (ht : WellKeyed t) (hv : view t = specView acc)
    (Q : List Name) :
    (((lookup t Q).map allFiles).getD []).Perm (acc.filter fun G => Q <+: segments G.package) ∧
      ∃ l₁ l₂, ((lookup t Q).map allFiles).getD [] = l₁ ++ l₂ ∧
        (∀ G ∈ l₁, segments G.package = Q) ∧ ∀ G ∈ l₂, segments G.package ≠ Q := by
  cases hl : lookup t Q with
  | none =>
    have : view t Q = none := by simp [view, hl]
    rw [hv] at this
    exact ⟨by rw [filter_eq_nil_of_specView fun fs h => by simp [h] at this]; rfl,
      [], [], rfl, by simp, by simp⟩
  | some u =>
    have hu : ∀ p, view u p = specView acc (Q ++ p) := fun p => by
      rw [← hv]; simp [view, lookup_append, hl]
    have hku := wellKeyed_lookup Q ht hl
    refine ⟨allFiles_perm u Q hku hu, ?_⟩
    cases u with
    | notProtoPackage => exact ⟨[], [], rfl, by simp, by simp⟩
    | node fs subs =>
      have hsubs := allFiles_perm.allFilesSubs_perm subs Q hku.2 (view_entry hku hu)
      refine ⟨fs, allFiles.allFilesSubs subs, rfl, fun G hG => ?_, fun G hG => ?_⟩
      · have hfs : fs = acc.filter fun G => segments G.package = Q :=
          specView_eq_pkg (by simpa using (hu []).symm)
        rw [hfs] at hG
        exact of_decide_eq_true (List.mem_filter.mp hG).2
      · obtain ⟨s, -, hs⟩ := List.mem_flatMap.mp (hsubs.mem_iff.mp hG)
        intro he
        exact concat_prefix_self Q s (by simpa [he] using (List.mem_filter.mp hs).2)

end Layout

/-- On a registry built by valid calls, the trie holds the accepted files, each registration once,
and no two of them conflict: no full declared name is declared by two of them, and none is a
leading run of the package of another. -/
theorem allFiles_pairwise_no_conflict (calls : List (List (FileDescriptor D)))
    (hv : ∀ c ∈ calls, ∀ F ∈ c, ValidFile F) :
    (Files.empty.run calls).1.filesByPackage.allFiles.Perm (runSpec [] calls).1 ∧
      (Files.empty.run calls).1.filesByPackage.allFiles.Pairwise fun F G => ¬Conflict F G := by
  obtain ⟨hR, hinv, -⟩ := refines_empty.run ⟨by simp, List.Pairwise.nil⟩ hv
  have hp := (lookup_allFiles hR.keyed hR.view_eq []).1
  simp only [lookup_nil, Option.map_some', Option.getD_some, List.nil_prefix, decide_True,
    List.filter_true] at hp
  exact ⟨hp, (hp.pairwise_iff fun h h' => h (conflict_comm.mp h')).mpr hinv.pairwise⟩

theorem allFiles_pairwise_no_conflict_scenario :
    (∀ c ∈ scenarioCalls, ∀ F ∈ c, ValidFile F) ∧
      (Files.empty.run scenarioCalls).1.filesByPackage.allFiles.Perm (runSpec [] scenarioCalls).1 ∧
      (Files.empty.run scenarioCalls).1.filesByPackage.allFiles.Pairwise fun F G => ¬Conflict F G :=
  ⟨scenarioCalls_valid, allFiles_pairwise_no_conflict _ scenarioCalls_valid⟩

/-- On a registry built by valid calls, the trie keeps what its declaration says of it: every name
on a path of the trie is non-empty (and has no dot); the files of a node all belong to the package
of the node's path; and the `notProtoPackage` sentinel marks exactly the top-level identifiers the
accepted files declare, each under its file's package. -/
theorem filesByPackage_invariants (calls : List (List (FileDescriptor D)))
    (hv : ∀ c ∈ calls, ∀ F ∈ c, ValidFile F) :
    (∀ p, (view (Files.empty.run calls).1.filesByPackage p).isSome → ∀ s ∈ p, ValidName s) ∧
      (∀ p fs, view (Files.empty.run calls).1.filesByPackage p = some (.pkg fs) →
        ∀ F ∈ fs, segments F.package = p) ∧
      ∀ p, view (Files.empty.run calls).1.filesByPackage p = some .decl ↔
        ∃ G ∈ (runSpec [] calls).1, p ∈ fullNames G := by
  obtain ⟨hR, hinv, -⟩ := refines_empty.run ⟨by simp, List.Pairwise.nil⟩ hv
  rw [hR.view_eq]
  refine ⟨fun p hp s hs => ?_, fun p fs h F hF => ?_,
    fun p => ⟨fun h => (specView_decl_iff.mp h).2, fun ⟨G, hG, hn⟩ => hinv.specView_decl hG hn⟩⟩
  · rcases specView_isSome_iff.mp hp with (rfl | ⟨G, hG, hpre⟩) | ⟨G, hG, hn⟩
    · simp at hs
    · obtain ⟨hnp, hvG⟩ := hinv.valid G hG
      exact hvG.segments hnp s (hpre.subset hs)
    · obtain ⟨hnp, hvG⟩ := hinv.valid G hG
      obtain ⟨n, hn', rfl⟩ := mem_fullNames.mp hn
      rcases List.mem_append.mp hs with h | h
      · exact hvG.segments hnp s h
      · exact List.mem_singleton.mp h ▸ hvG.names hnp n hn'
  · rw [specView_eq_pkg h] at hF
    exact of_decide_eq_true (List.mem_filter.mp hF).2

theorem filesByPackage_invariants_scenario :
    (∀ c ∈ scenarioCalls, ∀ F ∈ c, ValidFile F) ∧
      (∀ p, (view (Files.empty.run scenarioCalls).1.filesByPackage p).isSome → ∀ s ∈ p, ValidName s) ∧
      (∀ p fs, view (Files.empty.run scenarioCalls).1.filesByPackage p = some (.pkg fs) →
        ∀ F ∈ fs, segments F.package = p) ∧
      ∀ p, view (Files.empty.run scenarioCalls).1.filesByPackage p = some .decl ↔
        ∃ G ∈ (runSpec [] scenarioCalls).1, p ∈ fullNames G :=
  ⟨scenarioCalls_valid, filesByPackage_invariants _ scenarioCalls_valid⟩

/-- The packages `RangeFilesByPackage(q, f)` is documented to visit: every package when `q` is
empty, `q` itself, and the packages that begin with `q` and a dot. -/
def InPackage (q pkg : FullName) : Prop := q = "" ∨ pkg = q ∨ (q ++ ".").data <+: pkg.data

instance (q pkg : FullName) : Decidable (InPackage q pkg) :=
  inferInstanceAs (Decidable (_ ∨ _ ∨ _))

theorem hasSuffix_dot_eq_false {q : FullName} :
    hasSuffix q "." = false ↔ ∀ l, q.data ≠ l ++ ['.'] := by
  show ['.'].isSuffixOf q.data = false ↔ _
  rw [← Bool.not_eq_true, List.isSuffixOf_iff_suffix]
  simp [List.IsSuffix, eq_comm]

theorem inPackage_iff {q : FullName} (hq : ∀ l, q.data ≠ l ++ ['.']) {segs : List Name}
    (hs : ∀ s ∈ segs, ValidName s) : InPackage q (joinSegments segs) ↔ segments q <+: segs := by
  by_cases h0 : q = ""
  · simp [InPackage, h0, segments]
  have hne : segments q ≠ [] := mt segments_eq_nil_iff.mp h0
  constructor
  · rintro (h | h | ⟨t, ht⟩)
    · exact absurd h h0
    · have e : segments q = segs := by rw [← h, segments_joinSegments hs]
      exact e ▸ List.prefix_refl _
    · have hP : joinSegments segs = q ++ "." ++ ⟨t⟩ := String.ext (by simp [← ht, String.data_append])
      rw [← segments_joinSegments hs, hP, segments_append_dot_of_ne h0 hq]
      exact List.prefix_append _ _
  · rintro ⟨more, rfl⟩
    by_cases hm : more = []
    · subst hm
      exact .inr (.inl (by rw [List.append_nil, joinSegments_segments hq]))
    · refine .inr (.inr ⟨(joinSegments more).data, ?_⟩)
      rw [joinSegments_append hne hm, joinSegments_segments hq]
      simp [String.data_append]

theorem inPackage_iff_of_valid {F : FileDescriptor D} (hF : ValidFile F) (hp : ¬F.isPlaceholder)
    {q : FullName} (hq : ∀ l, q.data ≠ l ++ ['.']) :
    (segments q <+: segments F.package ↔ InPackage q F.package) ∧
      (segments F.package = segments q ↔ F.package = q) := by
  obtain ⟨⟨segs, hs, hpkg⟩, -⟩ := hF.resolve_left hp
  rw [hpkg, segments_joinSegments hs]
  refine ⟨(inPackage_iff hq hs).symm, fun h => ?_, fun h => by rw [← h,
    segments_joinSegments hs]⟩
  rw [h, joinSegments_segments hq]

/-- On a registry built by valid calls, with its maps iterated in any order, and for a query `q`
that does not end in a dot: with a callback that always returns true, `RangeFilesByPackage(q, f)`
calls it once for each accepted registration of a package in `q`, and for nothing else, those of
`q` itself first; with any callback, the calls are the first ones of that sequence, and a call that
returns false is the last. The callback is a pure function of the calls before it; one that
registers files during the iteration is not covered. -/
theorem rangeFilesByPackage_calls (calls : List (List (FileDescriptor D)))
    (hv : ∀ c ∈ calls, ∀ F ∈ c, ValidFile F) (r : Files D)
    (hr : Reordered r.filesByPackage (Files.empty.run calls).1.filesByPackage)
    (q : FullName) (hq : hasSuffix q "." = false) :
    (Files.rangeFilesByPackage (some r) q fun _ _ => true).Perm
        ((runSpec [] calls).1.filter fun F => InPackage q F.package) ∧
      (∃ l₁ l₂, Files.rangeFilesByPackage (some r) q (fun _ _ => true) = l₁ ++ l₂ ∧
        (∀ F ∈ l₁, F.package = q) ∧ ∀ F ∈ l₂, F.package ≠ q) ∧
      ∀ f : Callback D,
        Files.rangeFilesByPackage (some r) q f <+: Files.rangeFilesByPackage (some r) q (fun _ _ => true) ∧
        ∀ i (hi : i < (Files.rangeFilesByPackage (some r) q f).length),
          f ((Files.rangeFilesByPackage (some r) q f).take i)
            (Files.rangeFilesByPackage (some r) q f)[i] = false →
          (Files.rangeFilesByPackage (some r) q f).length = i + 1 := by
  obtain ⟨hR, hinv, -⟩ := refines_empty.run ⟨by simp, List.Pairwise.nil⟩ hv
  have hk := hr.wellKeyed _ hR.keyed
  have hview : view r.filesByPackage = specView (runSpec [] calls).1 := by
    funext p; rw [hr.view_eq p hR.keyed, hR.view_eq]
  have hq' := hasSuffix_dot_eq_false.mp hq
  have hacc : ∀ F ∈ (runSpec [] calls).1, _ := fun F hF =>
    inPackage_iff_of_valid (hinv.valid F hF).2 (hinv.valid F hF).1 hq'
  obtain ⟨hperm, l₁, l₂, hsplit, h₁, h₂⟩ := lookup_allFiles hk hview (segments q)
  have hmem : ∀ F ∈ l₁ ++ l₂, F ∈ (runSpec [] calls).1 := fun F hF =>
    List.mem_of_mem_filter (hperm.mem_iff.mp (by rw [hsplit]; exact hF))
  simp only [rangeFilesByPackage_eq r hq, rangeList_true, List.nil_append]
  refine ⟨hperm.trans (List.Perm.of_eq (List.filter_congr fun F hF =>
      decide_eq_decide.mpr (hacc F hF).1)), ⟨l₁, l₂, hsplit, fun F hF => ?_, fun F hF => ?_⟩,
    fun f => ⟨by simpa using (rangeList_extends f _ []).2,
      fun i hi hf => rangeList_stop f _ [] i hi (Nat.zero_le _) hf⟩⟩
  · exact (hacc F (hmem F (List.mem_append_left _ hF))).2.mp (h₁ F hF)
  · exact fun he => h₂ F hF ((hacc F (hmem F (List.mem_append_right _ hF))).2.mpr he)

theorem rangeFilesByPackage_calls_scenario :
    (∀ c ∈ scenarioCalls, ∀ F ∈ c, ValidFile F) ∧
      Reordered (Files.empty.run scenarioCalls).1.filesByPackage
        (Files.empty.run scenarioCalls).1.filesByPackage ∧
      hasSuffix "p" "." = false ∧
      (Files.rangeFilesByPackage (some (Files.empty.run scenarioCalls).1) "p" fun _ _ => true).Perm
          ((runSpec [] scenarioCalls).1.filter fun F => InPackage "p" F.package) ∧
      (∃ l₁ l₂, Files.rangeFilesByPackage (some (Files.empty.run scenarioCalls).1) "p"
          (fun _ _ => true) = l₁ ++ l₂ ∧ (∀ F ∈ l₁, F.package = "p") ∧ ∀ F ∈ l₂, F.package ≠ "p") ∧
      ∀ f : Callback Nat,
        Files.rangeFilesByPackage (some (Files.empty.run scenarioCalls).1) "p" f <+:
          Files.rangeFilesByPackage (some (Files.empty.run scenarioCalls).1) "p" (fun _ _ => true) ∧
        ∀ i (hi : i < (Files.rangeFilesByPackage (some (Files.empty.run scenarioCalls).1) "p" f).length),
          f ((Files.rangeFilesByPackage (some (Files.empty.run scenarioCalls).1) "p" f).take i)
            (Files.rangeFilesByPackage (some (Files.empty.run scenarioCalls).1) "p" f)[i] = false →
          (Files.rangeFilesByPackage (some (Files.empty.run scenarioCalls).1) "p" f).length = i + 1 :=
  ⟨scenarioCalls_valid, Reordered.refl _, by decide,
    rangeFilesByPackage_calls _ scenarioCalls_valid _ (Reordered.refl _) "p" (by decide)⟩

/-- On a registry built by valid calls, with its maps iterated in any order: with a callback that
always returns true, `RangeFiles(f)` calls it once for each accepted registration; with any
callback, the calls are the first ones of that sequence, and a call that returns false is the
last. The callback is a pure function of the calls before it; one that registers files during the
iteration is not covered. -/
theorem rangeAllFiles_calls (calls : List (List (FileDescriptor D)))
    (hv : ∀ c ∈ calls, ∀ F ∈ c, ValidFile F) (r : Files D)
    (hr : Reordered r.filesByPackage (Files.empty.run calls).1.filesByPackage) :
    (Files.rangeAllFiles (some r) fun _ _ => true).Perm (runSpec [] calls).1 ∧
      ∀ f : Callback D,
        Files.rangeAllFiles (some r) f <+: Files.rangeAllFiles (some r) (fun _ _ => true) ∧
        ∀ i (hi : i < (Files.rangeAllFiles (some r) f).length),
          f ((Files.rangeAllFiles (some r) f).take i) (Files.rangeAllFiles (some r) f)[i] = false →
          (Files.rangeAllFiles (some r) f).length = i + 1 := by
  obtain ⟨hR, -, -⟩ := refines_empty.run ⟨by simp, List.Pairwise.nil⟩ hv
  have hview : view r.filesByPackage = specView (runSpec [] calls).1 := by
    funext p; rw [hr.view_eq p hR.keyed, hR.view_eq]
  have hperm := (lookup_allFiles (hr.wellKeyed _ hR.keyed) hview []).1
  simp only [List.nil_prefix, decide_True, List.filter_true, lookup_nil, Option.map_some',
    Option.getD_some] at hperm
  simp only [Files.rangeAllFiles, rangeFilesByPackage_eq r (rfl : hasSuffix "" "." = false),
    segments, splits_empty, List.map_nil, rangeList_true, List.nil_append, lookup_nil,
    Option.map_some', Option.getD_some]
  exact ⟨hperm, fun f => ⟨by simpa using (rangeList_extends f _ []).2,
    fun i hi hf => rangeList_stop f _ [] i hi (Nat.zero_le _) hf⟩⟩

theorem rangeAllFiles_calls_scenario :
    (∀ c ∈ scenarioCalls, ∀ F ∈ c, ValidFile F) ∧
      Reordered (Files.empty.run scenarioCalls).1.filesByPackage
        (Files.empty.run scenarioCalls).1.filesByPackage ∧
      (Files.rangeAllFiles (some (Files.empty.run scenarioCalls).1) fun _ _ => true).Perm
        (runSpec [] scenarioCalls).1 ∧
      ∀ f : Callback Nat,
        Files.rangeAllFiles (some (Files.empty.run scenarioCalls).1) f <+:
          Files.rangeAllFiles (some (Files.empty.run scenarioCalls).1) (fun _ _ => true) ∧
        ∀ i (hi : i < (Files.rangeAllFiles (some (Files.empty.run scenarioCalls).1) f).length),
          f ((Files.rangeAllFiles (some (Files.empty.run scenarioCalls).1) f).take i)
            (Files.rangeAllFiles (some (Files.empty.run scenarioCalls).1) f)[i] = false →
          (Files.rangeAllFiles (some (Files.empty.run scenarioCalls).1) f).length = i + 1 :=
  ⟨scenarioCalls_valid, Reordered.refl _,
    rangeAllFiles_calls _ scenarioCalls_valid _ (Reordered.refl _)⟩

/-- On a registry built by valid calls, `RangeFilesByPath(path, f)` calls `f` on the accepted files
of that path in the order they were registered, and stops after the first call that returns
false. The callback is a pure function of the calls before it; one that registers files during the
iteration is not covered. -/
theorem rangeFilesByPath_calls (calls : List (List (FileDescriptor D)))
    (hv : ∀ c ∈ calls, ∀ F ∈ c, ValidFile F) (path : String) :
    Files.rangeFilesByPath (some (Files.empty.run calls).1) path (fun _ _ => true) =
        (runSpec [] calls).1.filter (fun F => F.path = path) ∧
      ∀ f : Callback D,
        Files.rangeFilesByPath (some (Files.empty.run calls).1) path f <+:
          (runSpec [] calls).1.filter (fun F => F.path = path) ∧
        ∀ i (hi : i < (Files.rangeFilesByPath (some (Files.empty.run calls).1) path f).length),
          f ((Files.rangeFilesByPath (some (Files.empty.run calls).1) path f).take i)
            (Files.rangeFilesByPath (some (Files.empty.run calls).1) path f)[i] = false →
          (Files.rangeFilesByPath (some (Files.empty.run calls).1) path f).length = i + 1 := by
  obtain ⟨hR, -, -⟩ := refines_empty.run ⟨by simp, List.Pairwise.nil⟩ hv
  simp only [Files.rangeFilesByPath, hR.byPath, rangeList_true, List.nil_append]
  exact ⟨trivial, fun f => ⟨by simpa using (rangeList_extends f _ []).2,
    fun i hi hf => rangeList_stop f _ [] i hi (Nat.zero_le _) hf⟩⟩

theorem rangeFilesByPath_calls_scenario :
    (∀ c ∈ scenarioCalls, ∀ F ∈ c, ValidFile F) ∧
      Files.rangeFilesByPath (some (Files.empty.run scenarioCalls).1) "a.proto" (fun _ _ => true) =
          (runSpec [] scenarioCalls).1.filter (fun F => F.path = "a.proto") ∧
      ∀ f : Callback Nat,
        Files.rangeFilesByPath (some (Files.empty.run scenarioCalls).1) "a.proto" f <+:
          (runSpec [] scenarioCalls).1.filter (fun F => F.path = "a.proto") ∧
        ∀ i (hi : i < (Files.rangeFilesByPath (some (Files.empty.run scenarioCalls).1) "a.proto"
            f).length),
          f ((Files.rangeFilesByPath (some (Files.empty.run scenarioCalls).1) "a.proto" f).take i)
            (Files.rangeFilesByPath (some (Files.empty.run scenarioCalls).1) "a.proto" f)[i] =
              false →
          (Files.rangeFilesByPath (some (Files.empty.run scenarioCalls).1) "a.proto" f).length =
            i + 1 :=
  ⟨scenarioCalls_valid, rangeFilesByPath_calls _ scenarioCalls_valid "a.proto"⟩

end Protoregistry
end GolangOrg

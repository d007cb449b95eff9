import Mathlib.Data.List.Nodup

/-! Go maps as association lists. A Go map holds one entry per key and reads a missing key as
the zero value; `for range` over it visits every entry once, in an unspecified order, which the
list order stands for. -/
namespace GolangOrg
namespace GoMap

variable {κ α : Type} [DecidableEq κ]

/-- `m[k]`, with `none` for a missing key. -/
def get : List (κ × α) → κ → Option α
  | [], _ => none
  | (k', v) :: m, k => if k' = k then some v else get m k

/-- `m[k] = v`: the entry for `k` is overwritten in place, or a new one is added. -/
def set : List (κ × α) → κ → α → List (κ × α)
  | [], k, v => [(k, v)]
  | (k', v') :: m, k, v => if k' = k then (k, v) :: m else (k', v') :: set m k v

/-- `delete(m, k)`. -/
def delete (m : List (κ × α)) (k : κ) : List (κ × α) :=
  m.filter fun e => e.1 ≠ k

@[simp] theorem get_nil (k : κ) : get ([] : List (κ × α)) k = none := rfl

@[simp] theorem get_set_self (m : List (κ × α)) (k : κ) (v : α) : get (set m k v) k = some v := by
  induction m with
  | nil => simp [get, set]
  | cons e m ih => by_cases h : e.1 = k <;> simp [get, set, h, ih]

theorem get_set_ne (m : List (κ × α)) {k k' : κ} (v : α) (h : k ≠ k') :
    get (set m k v) k' = get m k' := by
  induction m with
  | nil => simp [get, set, h]
  | cons e m ih => by_cases he : e.1 = k <;> simp_all [get, set]

theorem get_set (m : List (κ × α)) (k k' : κ) (v : α) :
    get (set m k v) k' = if k = k' then some v else get m k' := by
  split
  · subst k'; exact get_set_self m k v
  · exact get_set_ne m v ‹_›

theorem set_of_get {m : List (κ × α)} {k : κ} {v : α} (h : get m k = some v) : set m k v = m := by
  induction m with
  | nil => simp at h
  | cons e m ih =>
    obtain ⟨k', v'⟩ := e
    by_cases he : k' = k
    · subst he; simp_all [get, set]
    · simp_all [get, set]

theorem get_delete (m : List (κ × α)) (k k' : κ) :
    get (delete m k) k' = if k = k' then none else get m k' := by
  induction m with
  | nil => simp [delete]
  | cons e m ih =>
    by_cases hk : k = k' <;> by_cases he : e.1 = k <;> simp_all [get, delete, List.filter_cons]

theorem delete_set_of_get_none {m : List (κ × α)} {k : κ} (v : α) (h : get m k = none) :
    delete (set m k v) k = m := by
  induction m with
  | nil => simp [delete, set]
  | cons e m ih =>
    by_cases he : e.1 = k
    · simp [get, he] at h
    · simp_all [get, set, delete, List.filter_cons]

theorem delete_of_get_none {m : List (κ × α)} {k : κ} (h : get m k = none) : delete m k = m := by
  induction m with
  | nil => rfl
  | cons e m ih =>
    by_cases he : e.1 = k
    · simp [get, he] at h
    · simp only [get, he, if_false] at h
      simpa [delete, he] using ih h

theorem delete_set_ne (m : List (κ × α)) {k k' : κ} (v : α) (h : k ≠ k') :
    delete (set m k v) k' = set (delete m k') k v := by
  induction m with
  | nil => simp [delete, set, h]
  | cons e m ih =>
    by_cases he : e.1 = k <;> by_cases he' : e.1 = k' <;>
      simp_all [set, delete, List.filter_cons]

theorem get_eq_some_of_mem {m : List (κ × α)} (hm : (m.map Prod.fst).Nodup) {k : κ} {v : α}
    (h : (k, v) ∈ m) : get m k = some v := by
  induction m with
  | nil => simp at h
  | cons e m ih =>
    simp only [List.map_cons, List.nodup_cons, List.mem_map] at hm
    rcases List.mem_cons.mp h with rfl | h
    · simp [get]
    · have hk : e.1 ≠ k := fun he => hm.1 ⟨(k, v), h, he.symm⟩
      simp [get, hk, ih hm.2 h]

theorem mem_of_get_eq_some {m : List (κ × α)} {k : κ} {v : α} (h : get m k = some v) :
    (k, v) ∈ m := by
  induction m with
  | nil => simp at h
  | cons e m ih =>
    by_cases he : e.1 = k
    · simp only [get, he, if_true, Option.some.injEq] at h
      subst h he; simp
    · simp only [get, he, if_false] at h
      exact List.mem_cons_of_mem _ (ih h)

theorem get_of_perm {m m' : List (κ × α)} (h : m.Perm m') (hm : (m.map Prod.fst).Nodup) (k : κ) :
    get m k = get m' k := by
  cases hk : get m' k with
  | none =>
    cases hk' : get m k with
    | none => rfl
    | some v =>
      have := get_eq_some_of_mem ((h.map Prod.fst).nodup_iff.mp hm) (h.mem_iff.mp (mem_of_get_eq_some hk'))
      rw [hk] at this; cases this
  | some v => exact get_eq_some_of_mem hm (h.mem_iff.mpr (mem_of_get_eq_some hk))

theorem keys_set (m : List (κ × α)) (k : κ) (v : α) :
    (set m k v).map Prod.fst = if k ∈ m.map Prod.fst then m.map Prod.fst else m.map Prod.fst ++ [k] := by
  induction m with
  | nil => simp [set]
  | cons e m ih =>
    by_cases he : e.1 = k
    · simp [set, he]
    · have hk' : k ≠ e.1 := Ne.symm he
      by_cases hk : k ∈ m.map Prod.fst <;> simp only [set, he, if_false, ih, hk, List.map_cons,
        List.mem_cons, hk', false_or, if_true, List.cons_append]

theorem nodup_keys_set {m : List (κ × α)} (hm : (m.map Prod.fst).Nodup) (k : κ) (v : α) :
    ((set m k v).map Prod.fst).Nodup := by
  rw [keys_set]
  split
  · exact hm
  · rename_i hk
    exact List.nodup_append.mpr ⟨hm, List.nodup_singleton k, List.disjoint_singleton.mpr hk⟩

theorem nodup_keys_delete {m : List (κ × α)} (hm : (m.map Prod.fst).Nodup) (k : κ) :
    ((delete m k).map Prod.fst).Nodup :=
  (hm.sublist (List.Sublist.map _ (List.filter_sublist m)))

/-- `for _, x := range xs { if k, ok := key(x); ok { m[k] = val(x) } }`. -/
def setEach {β : Type} (key : β → Option κ) (val : β → α) : List β → List (κ × α) → List (κ × α)
  | [], m => m
  | x :: xs, m =>
    setEach key val xs
      (match key x with
        | some k => set m k (val x)
        | none => m)

theorem get_setEach {β : Type} (key : β → Option κ) (val : β → α) (k : κ) :
    ∀ (xs : List β) (m : List (κ × α)),
      get (setEach key val xs m) k =
        (((xs.filter fun x => key x = some k).getLast?).map val).or (get m k)
  | [], _ => rfl
  | x :: xs, m => by
    rw [setEach, get_setEach key val k xs]
    cases hx : key x with
    | none => simp [List.filter_cons, hx]
    | some k' =>
      simp only [get_set, List.filter_cons, hx, Option.some.injEq]
      by_cases h : k' = k
      · subst h
        simp only [if_true, decide_True, List.getLast?_cons]
        cases (xs.filter fun x => key x = some k').getLast? <;> rfl
      · simp [h]

/-- A loop of writes `m[key(x)] = v` whose value `v := val(x)` may panic: it stops at the first
panic, and the map keeps the writes made before it. -/
theorem exists_ok_of_isOk {β ε : Type} {x : Except ε β} (h : x.isOk) : ∃ v, x = .ok v := by
  cases x <;> simp_all [Except.isOk, Except.toBool]

theorem exists_error_of_not_isOk {β ε : Type} {x : Except ε β} (h : ¬x.isOk) :
    ∃ e, x = .error e := by
  cases x <;> simp_all [Except.isOk, Except.toBool]

def setEachExcept {β ε : Type} (key : β → κ) (val : β → Except ε α) :
    List β → List (κ × α) → List (κ × α) × Option ε
  | [], m => (m, none)
  | x :: xs, m =>
    match val x with
    | .ok v => setEachExcept key val xs (set m (key x) v)
    | .error e => (m, some e)

section SetEachExcept

variable {β ε : Type} (key : β → κ) (val : β → Except ε α)

theorem setEachExcept_snd_eq_none_iff :
    ∀ (xs : List β) (m : List (κ × α)),
      (setEachExcept key val xs m).2 = none ↔ ∀ x ∈ xs, (val x).isOk
  | [], _ => by simp [setEachExcept]
  | x :: xs, m => by
    rw [setEachExcept]
    cases h : val x <;>
      simp [h, Except.isOk, Except.toBool, setEachExcept_snd_eq_none_iff xs]

theorem get_setEachExcept (k : κ) :
    ∀ (xs : List β) (m : List (κ × α)), (setEachExcept key val xs m).2 = none →
      get (setEachExcept key val xs m).1 k =
        (((xs.filter fun x => key x = k).getLast?).bind fun x => (val x).toOption).or (get m k)
  | [], _, _ => rfl
  | x :: xs, m, h => by
    rw [setEachExcept] at h ⊢
    cases hx : val x with
    | error e => simp [hx] at h
    | ok v =>
      simp only [hx] at h ⊢
      rw [get_setEachExcept k xs _ h, get_set, List.filter_cons]
      by_cases hk : key x = k
      · simp only [hk, if_true, decide_True, List.getLast?_cons]
        cases hl : (xs.filter fun x => key x = k).getLast? with
        | none => simp [hx, Except.toOption]
        | some y =>
          obtain ⟨w, hw⟩ := exists_ok_of_isOk ((setEachExcept_snd_eq_none_iff key val xs _).mp h y
            (List.mem_of_mem_filter (List.mem_of_getLast?_eq_some hl)))
          simp [hw, Except.toOption]
      · simp [hk]

theorem setEachExcept_eq_error {e : ε} :
    ∀ {xs : List β} {m : List (κ × α)}, (setEachExcept key val xs m).2 = some e →
      ∃ pre x post, xs = pre ++ x :: post ∧ (∀ y ∈ pre, (val y).isOk) ∧ val x = .error e ∧
        (setEachExcept key val xs m).1 = (setEachExcept key val pre m).1
  | [], _, h => by simp [setEachExcept] at h
  | x :: xs, m, h => by
    rw [setEachExcept] at h ⊢
    cases hx : val x with
    | error e' =>
      simp only [hx, Option.some.injEq] at h
      exact ⟨[], x, xs, rfl, by simp, h ▸ hx, rfl⟩
    | ok v =>
      simp only [hx] at h ⊢
      obtain ⟨pre, y, post, rfl, hpre, hy, hm⟩ := setEachExcept_eq_error h
      refine ⟨x :: pre, y, post, rfl, ?_, hy, by rw [hm, setEachExcept, hx]⟩
      simpa [hx, Except.isOk, Except.toBool] using hpre

theorem setEachExcept_append (ys : List β) :
    ∀ (xs : List β) (m : List (κ × α)), setEachExcept key val (xs ++ ys) m =
      match setEachExcept key val xs m with
      | (m', none) => setEachExcept key val ys m'
      | r => r
  | [], _ => rfl
  | x :: xs, m => by
    rw [List.cons_append, setEachExcept, setEachExcept]
    cases val x
    · rfl
    · exact setEachExcept_append ys xs _

theorem nodup_keys_setEachExcept :
    ∀ (xs : List β) {m : List (κ × α)}, (m.map Prod.fst).Nodup →
      ((setEachExcept key val xs m).1.map Prod.fst).Nodup
  | [], _, h => h
  | x :: xs, m, h => by
    rw [setEachExcept]
    cases val x with
    | error _ => exact h
    | ok v => exact nodup_keys_setEachExcept xs (nodup_keys_set h _ _)

end SetEachExcept

end GoMap
end GolangOrg

import Mathlib.Data.Fintype.Card
import Mathlib.Logic.Relation

/-! The type check of the `cgocall` analyzer. `typeOKForCgoCall` walks from a type through the
elements of pointers and arrays and the fields of structs, and a map of the types it has entered,
shared by every call, stops it on cycles. The map also answers true for a type whose walk is still
in progress; from an empty map the answer is still exact: false iff a channel, map, signature or
slice type is reachable. -/
namespace GolangOrg
namespace Cgocall

/-- `t.Underlying()` as `typeOKForCgoCall` reads it. The `n` types of a program are numbered, and
`pointer`, `array` and `struct` give the numbers of their element and field types;
`unsafePointer` is the basic type `unsafe.Pointer`, and `other` any other type. -/
inductive Underlying (n : Nat) where
  | chan
  | map
  | signature
  | slice
  | pointer (elem : Fin n)
  | array (elem : Fin n)
  | struct (fields : List (Fin n))
  | unsafePointer
  | other
  deriving DecidableEq

/-- The underlying type of each of the `n` types; a named type may occur among its own elements. -/
abbrev TypeGraph (n : Nat) := Fin n → Underlying n

/-- `m map[types.Type]bool`. -/
abbrev Visited (n : Nat) := Fin n → Bool

variable {n : Nat}

/-- `for i := 0; i < t.NumFields(); i++ { if !typeOKForCgoCall(t.Field(i).Type(), m) { return false } }`,
with the call on one field as a parameter. -/
def fieldsOK (check : Fin n → Visited n → Option (Bool × Visited n)) :
    List (Fin n) → Visited n → Option (Bool × Visited n)
  | [], m => some (true, m)
  | f :: fs, m =>
    match check f m with
    | some (true, m) => fieldsOK check fs m
    | r => r

/-- `typeOKForCgoCall(t, m)`, with `none` for a nil type and the map passed along and returned.
`fuel` bounds the nesting of calls that enter a new type; out of fuel the result is `none`. -/
def typeOKForCgoCall (g : TypeGraph n) :
    Nat → Option (Fin n) → Visited n → Option (Bool × Visited n)
  | _, none, m => some (true, m)
  | fuel, some t, m =>
    if m t then some (true, m) else
    match fuel with
    | 0 => none
    | fuel + 1 =>
      let m := Function.update m t true
      match g t with
      | .chan | .map | .signature | .slice => some (false, m)
      | .pointer e => typeOKForCgoCall g fuel (some e) m
      | .array e => typeOKForCgoCall g fuel (some e) m
      | .struct fs => fieldsOK (fun f => typeOKForCgoCall g fuel (some f)) fs m
      | .unsafePointer | .other => some (true, m)

namespace Underlying

/-- A channel, a map, a function signature or a slice. -/
def bad : Underlying n → Bool
  | chan | map | signature | slice => true
  | _ => false

/-- The types the check goes on to. -/
def elems : Underlying n → List (Fin n)
  | pointer e | array e => [e]
  | struct fs => fs
  | _ => []

end Underlying

/-- `u` is the element type or a field type of the underlying type of `t`. -/
def Elem (g : TypeGraph n) (t u : Fin n) : Prop := u ∈ (g t).elems

/-- Reachability through elements and fields, `t` itself included. -/
def Reaches (g : TypeGraph n) : Fin n → Fin n → Prop := Relation.ReflTransGen (Elem g)

/-- The map only gains entries. -/
def Grows (m m' : Visited n) : Prop := ∀ i, m i = true → m' i = true

theorem Grows.trans {m₁ m₂ m₃ : Visited n} (h₁ : Grows m₁ m₂) (h₂ : Grows m₂ m₃) : Grows m₁ m₃ :=
  fun i h => h₂ i (h₁ i h)

theorem grows_update (m : Visited n) (t : Fin n) : Grows m (Function.update m t true) := by
  intro i h
  by_cases hi : i = t
  · subst hi; simp
  · simp [Function.update_noteq hi, h]

/-- Every type entered between `m` and `m'` is acceptable and has its elements in `m'`. -/
def Closed (g : TypeGraph n) (m m' : Visited n) : Prop :=
  ∀ v, m' v = true → m v = false → (g v).bad = false ∧ ∀ u ∈ (g v).elems, m' u = true

theorem Closed.trans {g : TypeGraph n} {m₁ m₂ m₃ : Visited n} (h₁ : Closed g m₁ m₂)
    (hg₂ : Grows m₂ m₃) (h₂ : Closed g m₂ m₃) : Closed g m₁ m₃ := by
  intro v hv₃ hv₁
  cases hv₂ : m₂ v with
  | true => exact ⟨(h₁ v hv₂ hv₁).1, fun u hu => hg₂ u ((h₁ v hv₂ hv₁).2 u hu)⟩
  | false => exact h₂ v hv₃ hv₂

@[simp] theorem fieldsOK_nil (check : Fin n → Visited n → Option (Bool × Visited n))
    (m : Visited n) : fieldsOK check [] m = some (true, m) := rfl

theorem fieldsOK_singleton (check : Fin n → Visited n → Option (Bool × Visited n)) (f : Fin n)
    (m : Visited n) : fieldsOK check [f] m = check f m := by
  rcases h : check f m with _ | ⟨_ | _, _⟩ <;> simp [fieldsOK, h]

@[simp] theorem typeOKForCgoCall_none (g : TypeGraph n) (fuel : Nat) (m : Visited n) :
    typeOKForCgoCall g fuel none m = some (true, m) := by
  cases fuel <;> rfl

theorem typeOKForCgoCall_visited (g : TypeGraph n) (fuel : Nat) {t : Fin n} {m : Visited n}
    (h : m t = true) : typeOKForCgoCall g fuel (some t) m = some (true, m) := by
  cases fuel <;> simp [typeOKForCgoCall, h]

theorem typeOKForCgoCall_zero (g : TypeGraph n) {t : Fin n} {m : Visited n} (h : m t = false) :
    typeOKForCgoCall g 0 (some t) m = none := by
  simp [typeOKForCgoCall, h]

theorem typeOKForCgoCall_fresh (g : TypeGraph n) (fuel : Nat) {t : Fin n} {m : Visited n}
    (h : m t = false) :
    typeOKForCgoCall g (fuel + 1) (some t) m =
      if (g t).bad then some (false, Function.update m t true)
      else fieldsOK (fun f => typeOKForCgoCall g fuel (some f)) (g t).elems
        (Function.update m t true) := by
  simp only [typeOKForCgoCall, h, Bool.false_eq_true, if_false]
  cases g t <;> simp [Underlying.bad, Underlying.elems, fieldsOK_singleton]

section Fields

variable {check : Fin n → Visited n → Option (Bool × Visited n)}

theorem fieldsOK_isSome {m₀ : Visited n}
    (hc : ∀ f m, Grows m₀ m → ∃ b m', check f m = some (b, m') ∧ Grows m m') :
    ∀ (fs : List (Fin n)) (m : Visited n), Grows m₀ m →
      ∃ b m', fieldsOK check fs m = some (b, m') ∧ Grows m m'
  | [], m, _ => ⟨true, m, rfl, fun _ h => h⟩
  | f :: fs, m, hm => by
    obtain ⟨b, m₁, h₁, hg₁⟩ := hc f m hm
    cases b with
    | false => exact ⟨false, m₁, by simp [fieldsOK, h₁], hg₁⟩
    | true =>
      obtain ⟨b, m₂, h₂, hg₂⟩ := fieldsOK_isSome hc fs m₁ (hm.trans hg₁)
      exact ⟨b, m₂, by simp [fieldsOK, h₁, h₂], hg₁.trans hg₂⟩

theorem fieldsOK_false {fs : List (Fin n)} {m m' : Visited n}
    (h : fieldsOK check fs m = some (false, m')) :
    ∃ f ∈ fs, ∃ m₁ m₂, check f m₁ = some (false, m₂) := by
  induction fs generalizing m with
  | nil => simp [fieldsOK] at h
  | cons f fs ih =>
    simp only [fieldsOK] at h
    rcases hf : check f m with _ | ⟨_ | _, m₁⟩ <;> rw [hf] at h
    · cases h
    · exact ⟨f, List.mem_cons_self _ _, m, m₁, hf⟩
    · obtain ⟨f', hf', h'⟩ := ih h
      exact ⟨f', List.mem_cons_of_mem _ hf', h'⟩

theorem fieldsOK_true {g : TypeGraph n}
    (hc : ∀ f m m', check f m = some (true, m') → Grows m m' ∧ m' f = true ∧ Closed g m m')
    {fs : List (Fin n)} {m m' : Visited n} (h : fieldsOK check fs m = some (true, m')) :
    Grows m m' ∧ (∀ f ∈ fs, m' f = true) ∧ Closed g m m' := by
  induction fs generalizing m with
  | nil =>
    obtain rfl : m = m' := by simpa using h
    exact ⟨fun _ h => h, by simp, fun _ h h' => by rw [h] at h'; cases h'⟩
  | cons f fs ih =>
    simp only [fieldsOK] at h
    rcases hf : check f m with _ | ⟨_ | _, m₁⟩ <;> rw [hf] at h
    · cases h
    · cases h
    · obtain ⟨hg₁, hf₁, hc₁⟩ := hc f m m₁ hf
      obtain ⟨hg₂, hfs, hc₂⟩ := ih h
      refine ⟨hg₁.trans hg₂, fun f' hf' => ?_, hc₁.trans hg₂ hc₂⟩
      rcases List.mem_cons.mp hf' with rfl | hf'
      · exact hg₂ _ hf₁
      · exact hfs f' hf'

end Fields

def unvisited (m : Visited n) : Nat := (Finset.univ.filter fun i => m i = false).card

theorem unvisited_le_of_grows {m m' : Visited n} (h : Grows m m') : unvisited m' ≤ unvisited m :=
  Finset.card_le_card fun i hi => by
    simp only [Finset.mem_filter, Finset.mem_univ, true_and] at hi ⊢
    cases hm : m i
    · rfl
    · rw [h i hm] at hi; cases hi

theorem unvisited_update {m : Visited n} {t : Fin n} (h : m t = false) :
    unvisited (Function.update m t true) < unvisited m :=
  Finset.card_lt_card ⟨fun i hi => by
    simp only [Finset.mem_filter, Finset.mem_univ, true_and] at hi ⊢
    by_cases hit : i = t
    · subst hit; simp at hi
    · rwa [Function.update_noteq hit] at hi,
    fun hs => by
      have := hs (Finset.mem_filter.mpr ⟨Finset.mem_univ _, h⟩)
      simp at this⟩

/-- With fuel for every type not yet in the map, a call returns, and the map only grows. -/
theorem typeOKForCgoCall_returns (g : TypeGraph n) :
    ∀ (fuel : Nat) (t : Option (Fin n)) (m : Visited n), unvisited m ≤ fuel →
      ∃ b m', typeOKForCgoCall g fuel t m = some (b, m') ∧ Grows m m'
  | _, none, m, _ => ⟨true, m, by simp, fun _ h => h⟩
  | fuel, some t, m, hf => by
    cases ht : m t with
    | true => exact ⟨true, m, typeOKForCgoCall_visited g fuel ht, fun _ h => h⟩
    | false =>
      have hlt := unvisited_update (t := t) ht
      obtain ⟨fuel, rfl⟩ : ∃ k, fuel = k + 1 := Nat.exists_eq_succ_of_ne_zero (by omega)
      rw [typeOKForCgoCall_fresh g fuel ht]
      split
      · exact ⟨false, _, rfl, grows_update m t⟩
      · obtain ⟨b, m', h, hg⟩ := fieldsOK_isSome
          (fun f m₁ (hm₁ : Grows (Function.update m t true) m₁) =>
            typeOKForCgoCall_returns g fuel (some f) m₁
            (by have := unvisited_le_of_grows hm₁; omega))
          (g t).elems _ fun _ h => h
        exact ⟨b, m', h, (grows_update m t).trans hg⟩

theorem reaches_bad_of_false (g : TypeGraph n) :
    ∀ (fuel : Nat) {t : Fin n} {m m' : Visited n},
      typeOKForCgoCall g fuel (some t) m = some (false, m') → ∃ u, Reaches g t u ∧ (g u).bad = true
  | fuel, t, m, m', h => by
    cases ht : m t with
    | true => rw [typeOKForCgoCall_visited g fuel ht] at h; cases h
    | false =>
      cases fuel with
      | zero => rw [typeOKForCgoCall_zero g ht] at h; cases h
      | succ fuel =>
        rw [typeOKForCgoCall_fresh g fuel ht] at h
        split at h
        · exact ⟨t, Relation.ReflTransGen.refl, ‹_›⟩
        · obtain ⟨f, hf, m₁, m₂, h'⟩ := fieldsOK_false h
          obtain ⟨u, hu, hb⟩ := reaches_bad_of_false g fuel h'
          exact ⟨u, Relation.ReflTransGen.head hf hu, hb⟩

theorem closed_of_true (g : TypeGraph n) :
    ∀ (fuel : Nat) {t : Fin n} {m m' : Visited n},
      typeOKForCgoCall g fuel (some t) m = some (true, m') →
        Grows m m' ∧ m' t = true ∧ Closed g m m'
  | fuel, t, m, m', h => by
    cases ht : m t with
    | true =>
      rw [typeOKForCgoCall_visited g fuel ht] at h
      obtain rfl : m = m' := by simpa using h
      exact ⟨fun _ h => h, ht, fun _ h h' => by rw [h] at h'; cases h'⟩
    | false =>
      cases fuel with
      | zero => rw [typeOKForCgoCall_zero g ht] at h; cases h
      | succ fuel =>
        rw [typeOKForCgoCall_fresh g fuel ht] at h
        split at h
        · cases h
        · rename_i hbad
          obtain ⟨hg, hel, hc⟩ := fieldsOK_true (fun f m₁ m₂ h' => closed_of_true g fuel h') h
          have hgt := (grows_update m t).trans hg
          refine ⟨hgt, hg t (by simp), fun v hv hmv => ?_⟩
          by_cases hvt : v = t
          · subst hvt; exact ⟨by simpa using hbad, hel⟩
          · exact hc v hv (by rwa [Function.update_noteq hvt])

theorem reaches_of_closed {g : TypeGraph n} {m : Visited n} (hc : Closed g (fun _ => false) m)
    {t u : Fin n} (ht : m t = true) (h : Reaches g t u) : m u = true ∧ (g u).bad = false := by
  induction h with
  | refl => exact ⟨ht, (hc t ht rfl).1⟩
  | tail _ hab ih =>
    have hb := (hc _ ih.1 rfl).2 _ hab
    exact ⟨hb, (hc _ hb rfl).1⟩

theorem typeOKForCgoCall_eq_false_iff (g : TypeGraph n) (fuel : Nat) {t : Option (Fin n)} {b : Bool}
    {m : Visited n} (h : typeOKForCgoCall g fuel t (fun _ => false) = some (b, m)) :
    b = false ↔ ∃ t₀ ∈ t, ∃ u, Reaches g t₀ u ∧ (g u).bad = true := by
  cases t with
  | none => simp at h; simp [← h.1]
  | some t =>
    cases b with
    | false => simpa using reaches_bad_of_false g fuel h
    | true =>
      obtain ⟨-, ht, hc⟩ := closed_of_true g fuel h
      refine ⟨nofun, ?_⟩
      rintro ⟨t₀, ht₀, u, hu, hb⟩
      obtain rfl := Option.mem_some_iff.mp ht₀
      rw [(reaches_of_closed hc ht hu).2] at hb
      cases hb

/-- From an empty map, `typeOKForCgoCall` returns within as many nested calls as there are types,
and answers false exactly when a channel, map, signature or slice type is reachable from the
argument through pointer and array elements and struct fields; a nil type is accepted. -/
theorem typeOKForCgoCall_iff (g : TypeGraph n) (t : Option (Fin n)) :
    ∃ b m, typeOKForCgoCall g n t (fun _ => false) = some (b, m) ∧
      (b = false ↔ ∃ t₀ ∈ t, ∃ u, Reaches g t₀ u ∧ (g u).bad = true) := by
  obtain ⟨b, m, h, -⟩ := typeOKForCgoCall_returns g n t (fun _ => false)
    ((Finset.card_le_univ _).trans (Fintype.card_fin n).le)
  exact ⟨b, m, h, typeOKForCgoCall_eq_false_iff g n h⟩

def listType : TypeGraph 3
  | 0 => .struct [1, 2]
  | 1 => .pointer 0
  | 2 => .slice

example : (typeOKForCgoCall listType 3 (some 0) fun _ => false).map Prod.fst = some false := by
  decide

end Cgocall
end GolangOrg

import GolangOrg.Impl.Reflect

/-!
# The field locator

`offset` and `pointer` of the pure-Go build (`+build purego`). An offset is a field's index path
and `offsetOf` refuses any path but a single index; a pointer is a `reflect.Value`, here by its type,
since `apply` and `asType` read nothing of the value but its type (a nil pointer is not modelled).
Taken one field after another from a pointer to a struct, locators never panic exactly when each
index names a field of the struct reached, and they point to the last field's type.
-/
namespace GolangOrg
namespace Impl

/-- `offset`: the field index into a struct. -/
abbrev Offset := List Nat

/-- `offsetOf(f)`. -/
def offsetOf (f : StructField) : Except String Offset :=
  if f.index.length ≠ 1 then .error "embedded structs are not supported" else .ok f.index

/-- `pointer`: the `reflect.Value` `v`, by its type. -/
structure Pointer where
  type : GoType
  deriving DecidableEq

/-- `pointerOfValue(v)`. -/
def pointerOfValue (v : GoType) : Pointer := ⟨v⟩

/-- A pointer to a struct is followed before each field after the first (a nil pointer is not
modelled). -/
def derefStruct : GoType → GoType
  | .ptr e => if e.isStruct then e else .ptr e
  | t => t

/-- The loop of `v.FieldByIndex(index)`. -/
def fieldSteps (t : GoType) : Offset → Except String GoType
  | [] => .ok t
  | [x] => t.valueField x
  | x :: y :: xs => (t.valueField x).bind fun ft => fieldSteps (derefStruct ft) (y :: xs)

/-- `v.FieldByIndex(index)` on a value of type `t`: the type of the field it reaches. -/
def fieldByIndex (t : GoType) (index : Offset) : Except String GoType :=
  match index with
  | [i] => t.valueField i
  | _ =>
    if t.isStruct then fieldSteps t index
    else .error ("reflect: call of reflect.Value.FieldByIndex on " ++ t.kindName ++ " Value")

/-- `p.apply(f)`: `pointer{v: p.v.Elem().FieldByIndex(f).Addr()}`. -/
def Pointer.apply (p : Pointer) (f : Offset) : Except String Pointer :=
  p.type.valueElem.bind fun s => (fieldByIndex s f).map fun ft => ⟨.ptr ft⟩

/-- `p.asType(t)`: `p.v`, after the check that it points to a `t`. -/
def Pointer.asType (p : Pointer) (t : GoType) : Except String Pointer :=
  p.type.elem.bind fun e =>
    if e ≠ t then .error ("invalid type: got " ++ p.type.str ++ ", want " ++ t.str) else .ok p

/-- `apply` taken one offset after another. -/
def Pointer.applyAll (p : Pointer) : List Offset → Except String Pointer
  | [] => .ok p
  | f :: fs => (p.apply f).bind fun q => q.applyAll fs

/-- `path` leads from `t` through fields of nested structs to a field of type `T`: each index is
that of a field of the struct reached. -/
inductive FieldPath : GoType → List Nat → GoType → Prop
  | nil (t : GoType) : FieldPath t [] t
  | cons {name : String} {fs : GoFields} {o : Option (List WrapperType)} {i : Nat} {ft T : GoType}
      {path : List Nat} :
      fs.typeAt i = some ft → FieldPath ft path T → FieldPath (.struct name fs o) (i :: path) T

theorem offsetOf_structFields :
    ∀ {fs : GoFields} {n : Nat} {f : StructField}, f ∈ fs.structFields n →
      ∃ i, offsetOf f = .ok [i] ∧ ∃ ft, fs.typeAt (i - n) = some ft ∧ n ≤ i
  | .nil, _, _, h => by simp [GoFields.structFields] at h
  | .cons name tag t rest, n, f, h => by
    simp only [GoFields.structFields, List.mem_cons] at h
    rcases h with rfl | h
    · exact ⟨n, by simp [offsetOf], t, by simp [GoFields.typeAt], le_rfl⟩
    · obtain ⟨i, hi, ft, hft, hle⟩ := offsetOf_structFields h
      refine ⟨i, hi, ft, ?_, by omega⟩
      rw [show i - n = (i - (n + 1)) + 1 by omega]
      exact hft

theorem fieldPath_cons_iff {t T : GoType} {i : Nat} {path : List Nat} :
    FieldPath t (i :: path) T ↔ ∃ ft, t.valueField i = .ok ft ∧ FieldPath ft path T := by
  constructor
  · rintro (_ | ⟨h, hp⟩)
    exact ⟨_, by simp [GoType.valueField, h], hp⟩
  · rintro ⟨ft, hv, hp⟩
    cases t with
    | struct name fs o =>
      simp only [GoType.valueField] at hv
      split at hv <;> cases hv
      exact .cons ‹_› hp
    | _ => cases hv

theorem apply_ptr_single (t : GoType) (i : Nat) :
    (pointerOfValue (.ptr t)).apply [i] = (t.valueField i).map fun ft => ⟨.ptr ft⟩ := by
  rfl

def boolFields : GoFields := .cons "Bool" [("protobuf", "1")] (.ptr (.basic "bool" "bool")) .nil

def boolStruct : GoType := .struct "impl.ScalarProto2" boolFields none

theorem asType_ptr (T U : GoType) :
    (Pointer.mk (.ptr T)).asType U =
      if T = U then .ok ⟨.ptr T⟩ else .error ("invalid type: got " ++ (GoType.ptr T).str ++ ", want " ++ U.str) := by
  by_cases h : T = U <;> simp [Pointer.asType, GoType.elem, Except.bind, h]

/-- The locator of a field reached through nested structs: from a pointer to `t`, applying the
offsets `[i₁]`, `[i₂]`, ... (those `offsetOf` gives for `Field(i₁)`, `Field(i₂)`, ...) never
panics exactly when the indices lead through fields of the structs reached, and it then points to
the last field's type `T`, which `asType` accepts at `T` and at no other type, where it panics
with `invalid type: got *T, want U`. -/
theorem locate_fieldPath (t : GoType) (path : List Nat) (p : Pointer) :
    (pointerOfValue (.ptr t)).applyAll (path.map fun i => [i]) = .ok p ↔
      ∃ T, FieldPath t path T ∧ p = ⟨.ptr T⟩ ∧ ∀ U, p.asType U =
        if T = U then .ok p else .error ("invalid type: got " ++ (GoType.ptr T).str ++ ", want " ++ U.str) := by
  induction path generalizing t with
  | nil =>
    constructor
    · rintro ⟨⟩
      exact ⟨t, .nil t, rfl, asType_ptr t⟩
    · rintro ⟨T, hT, rfl, -⟩
      cases hT
      rfl
  | cons i path ih =>
    simp only [List.map_cons, Pointer.applyAll, apply_ptr_single]
    cases hv : t.valueField i with
    | error e => simp [Except.map, Except.bind, fieldPath_cons_iff, hv]
    | ok ft => simpa [Except.map, Except.bind, fieldPath_cons_iff, hv] using ih ft

example : (pointerOfValue (.ptr boolStruct)).applyAll [[0]] = .ok ⟨.ptr (.ptr (.basic "bool" "bool"))⟩ ∧
    (pointerOfValue (.ptr boolStruct)).applyAll [[1]] = .error "reflect: Field index out of range" :=
  ⟨rfl, rfl⟩

end Impl
end GolangOrg

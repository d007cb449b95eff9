import GolangOrg.Impl.Message

/-! `knownFields`, the populated fields of a message. Each method looks up the `fieldInfo` that
`generateFieldFuncs` built for a field number and calls one of its functions on the message data.
Those functions come from `fieldInfoForScalar` and its siblings, which are not part of this source:
they are the parameter `funcs` here, and the results hold whatever they do. -/
namespace GolangOrg
namespace Impl

/-- The functions of a `fieldInfo`, on message data `P` and values `V`. -/
structure FieldFuncs (P V : Type) where
  has : P → Bool
  get : P → V
  set : P → V → P
  clear : P → P
  mutable : P → P × V

/-- `knownFields`: the pointer to the message data, `fs.p`, and the field infos of its type,
`fs.mi.fields`. -/
structure KnownFields (P : Type) where
  p : P
  fields : List (FieldNumber × FieldInfo)

/-- The callback of `Range`, given the calls made before. It is a pure function of those calls: a
Go callback that sets or clears fields of the message while `Range` runs is not covered. -/
abbrev RangeFunc (V : Type) := List (FieldNumber × V) → FieldNumber → V → Bool

/-- `fmt.Sprintf("invalid field: %d", n)`. -/
def invalidField (n : FieldNumber) : String := "invalid field: " ++ toString n.toInt

namespace KnownFields

variable {P V : Type} (funcs : FieldInfo → FieldFuncs P V)

/-- `fs.Len()`: `for _, fi := range fs.mi.fields { if fi.has(fs.p) { cnt++ } }`. -/
def len (fs : KnownFields P) : Nat := fs.fields.countP fun e => (funcs e.2).has fs.p

/-- The shape of `Has` and `Get`: `if fi := fs.mi.fields[n]; fi != nil { return op(fi) }`, and the
default otherwise. -/
def withFieldOr {β : Type} (op : FieldFuncs P V → β) (dflt : β) (fs : KnownFields P)
    (n : FieldNumber) : β :=
  match GoMap.get fs.fields n with
  | some fi => op (funcs fi)
  | none => dflt

/-- `fs.Has(n)`. -/
def has (fs : KnownFields P) (n : FieldNumber) : Bool :=
  withFieldOr funcs (fun fi => fi.has fs.p) false fs n

/-- `fs.Get(n)`, with `pref.Value{}` the default value. -/
def get [Inhabited V] (fs : KnownFields P) (n : FieldNumber) : V :=
  withFieldOr funcs (fun fi => fi.get fs.p) default fs n

/-- The shape of `Set`, `Clear` and `Mutable`: `op(fi)` on the field's info, or the panic
`invalid field: n`. -/
def withField {β : Type} (op : FieldFuncs P V → β) (fs : KnownFields P) (n : FieldNumber) :
    Except String β :=
  withFieldOr funcs (fun fi => .ok (op fi)) (.error (invalidField n)) fs n

/-- `fs.Set(n, v)`: the message data after the call. -/
def set (fs : KnownFields P) (n : FieldNumber) (v : V) : Except String P :=
  withField funcs (fun fi => fi.set fs.p v) fs n

/-- `fs.Clear(n)`. -/
def clear (fs : KnownFields P) (n : FieldNumber) : Except String P :=
  withField funcs (fun fi => fi.clear fs.p) fs n

/-- `fs.Mutable(n)`: the message data after the call, and the value returned. -/
def mutable (fs : KnownFields P) (n : FieldNumber) : Except String (P × V) :=
  withField funcs (fun fi => fi.mutable fs.p) fs n

/-- `for n, fi := range fs.mi.fields { if fi.has(fs.p) { if !f(n, fi.get(fs.p)) { return } } }`:
the calls made, the map's entries taken in the list's order. -/
def rangeLoop (p : P) (f : RangeFunc V) :
    List (FieldNumber × FieldInfo) → List (FieldNumber × V) → List (FieldNumber × V)
  | [], calls => calls
  | (n, fi) :: fields, calls =>
    if (funcs fi).has p then
      if f calls n ((funcs fi).get p) then rangeLoop p f fields (calls ++ [(n, (funcs fi).get p)])
      else calls ++ [(n, (funcs fi).get p)]
    else rangeLoop p f fields calls

/-- `fs.Range(f)`: the calls made. -/
def range (fs : KnownFields P) (f : RangeFunc V) : List (FieldNumber × V) :=
  rangeLoop funcs fs.p f fs.fields []

/-- The populated fields of the entries `fields`, with their values, in the entries' order. -/
def populated (p : P) (fields : List (FieldNumber × FieldInfo)) : List (FieldNumber × V) :=
  (fields.filter fun e => (funcs e.2).has p).map fun e => (e.1, (funcs e.2).get p)

@[simp] theorem populated_nil (p : P) : populated funcs p [] = [] := rfl

theorem populated_cons (p : P) (n : FieldNumber) (fi : FieldInfo)
    (fields : List (FieldNumber × FieldInfo)) :
    populated funcs p ((n, fi) :: fields) =
      if (funcs fi).has p then (n, (funcs fi).get p) :: populated funcs p fields
      else populated funcs p fields := by
  by_cases h : (funcs fi).has p <;> simp [populated, List.filter_cons, h]

@[simp] theorem rangeLoop_true (p : P) (fields : List (FieldNumber × FieldInfo))
    (calls : List (FieldNumber × V)) :
    rangeLoop funcs p (fun _ _ _ => true) fields calls = calls ++ populated funcs p fields := by
  induction fields generalizing calls with
  | nil => simp [rangeLoop]
  | cons e fields ih =>
    obtain ⟨n, fi⟩ := e
    by_cases h : (funcs fi).has p <;> simp [rangeLoop, populated_cons, h, ih]

theorem rangeLoop_extends (p : P) (f : RangeFunc V) (fields : List (FieldNumber × FieldInfo))
    (calls : List (FieldNumber × V)) :
    calls <+: rangeLoop funcs p f fields calls ∧
      rangeLoop funcs p f fields calls <+: calls ++ populated funcs p fields := by
  induction fields generalizing calls with
  | nil => simp [rangeLoop]
  | cons e fields ih =>
    obtain ⟨n, fi⟩ := e
    by_cases hh : (funcs fi).has p
    · by_cases hf : f calls n ((funcs fi).get p)
      · obtain ⟨h1, h2⟩ := ih (calls ++ [(n, (funcs fi).get p)])
        simp only [rangeLoop, hh, hf, if_true, populated_cons]
        exact ⟨(List.prefix_append _ _).trans h1, by simpa using h2⟩
      · simp [rangeLoop, hh, hf, populated_cons]
    · simpa [rangeLoop, hh, populated_cons] using ih calls

theorem rangeLoop_stop (p : P) (f : RangeFunc V) (fields : List (FieldNumber × FieldInfo))
    (calls : List (FieldNumber × V)) (i : Nat) (hi : i < (rangeLoop funcs p f fields calls).length)
    (hc : calls.length ≤ i)
    (hf : f ((rangeLoop funcs p f fields calls).take i) (rangeLoop funcs p f fields calls)[i].1
      (rangeLoop funcs p f fields calls)[i].2 = false) :
    (rangeLoop funcs p f fields calls).length = i + 1 := by
  induction fields generalizing calls with
  | nil => simp [rangeLoop] at hi; omega
  | cons e fields ih =>
    obtain ⟨n, fi⟩ := e
    by_cases hh : (funcs fi).has p
    · by_cases hg : f calls n ((funcs fi).get p)
      · simp only [rangeLoop, hh, hg, if_true] at hi hf ⊢
        rcases Nat.eq_or_lt_of_le hc with rfl | hlt
        · obtain ⟨rest, hr⟩ := (rangeLoop_extends funcs p f fields (calls ++ [(n, (funcs fi).get p)])).1
          simp [← hr, hg, List.getElem_append_right] at hf
        · exact ih (calls ++ [(n, (funcs fi).get p)]) hi (by simpa using hlt) hf
      · simp [rangeLoop, hh, hg] at hi ⊢; omega
    · simp only [rangeLoop, hh, Bool.false_eq_true, if_false] at hi hf ⊢
      exact ih calls hi hc hf

theorem len_eq_length_populated (fs : KnownFields P) :
    fs.len funcs = (populated funcs fs.p fs.fields).length := by
  simp [len, populated, List.countP_eq_length_filter]

theorem mem_populated [Inhabited V] {fs : KnownFields P} (hk : (fs.fields.map Prod.fst).Nodup)
    (n : FieldNumber) (v : V) :
    (n, v) ∈ populated funcs fs.p fs.fields ↔
      (GoMap.get fs.fields n).isSome ∧ fs.has funcs n = true ∧ v = fs.get funcs n := by
  simp only [populated, List.mem_map, List.mem_filter, Prod.mk.injEq, has, get, withFieldOr]
  constructor
  · rintro ⟨⟨n', fi⟩, ⟨hm, hh⟩, rfl, rfl⟩
    rw [GoMap.get_eq_some_of_mem hk hm]
    exact ⟨rfl, hh, rfl⟩
  · rintro ⟨hs, hh, rfl⟩
    obtain ⟨fi, hfi⟩ := Option.isSome_iff_exists.mp hs
    rw [hfi] at hh ⊢
    exact ⟨(n, fi), ⟨GoMap.mem_of_get_eq_some hfi, hh⟩, rfl, rfl⟩

theorem nodup_keys_populated {p : P} {fields : List (FieldNumber × FieldInfo)}
    (hk : (fields.map Prod.fst).Nodup) : ((populated funcs p fields).map Prod.fst).Nodup := by
  simp only [populated, List.map_map]
  exact hk.sublist ((List.filter_sublist fields).map _)

theorem generateFieldFuncs_keys {t : List StructField} {oneofFuncs : Option (List WrapperType)}
    {md : List FieldDescriptor} {infos : List (FieldNumber × FieldInfo)}
    (h : generateFieldFuncs t oneofFuncs md = some infos) :
    (infos.map Prod.fst).Nodup ∧
      ∀ n, (GoMap.get infos n).isSome ↔ ∃ fd ∈ md, fd.number = n := by
  have hok := ((isSome_generateFieldFuncs_iff t oneofFuncs md).mp (by simp [h])).2
  refine ⟨?_, fun n => ?_⟩
  · rw [generateFieldFuncs_eq] at h
    split_ifs at h
    cases h
    rw [descriptorLoop_eq]
    exact GoMap.nodup_keys_setEachExcept _ _ md List.nodup_nil
  · rw [get_generateFieldFuncs h]
    cases hl : (md.filter fun fd => fd.number = n).getLast? with
    | none =>
      simp only [List.getLast?_eq_none_iff, List.filter_eq_nil_iff, decide_eq_true_eq] at hl
      simpa using hl
    | some fd =>
      obtain ⟨hfd, hn⟩ := List.mem_filter.mp (List.mem_of_getLast?_eq_some hl)
      obtain ⟨fi, hfi⟩ :=
        GoMap.exists_ok_of_isOk ((@isOk_fieldInfoWith_iff _ _ (specialField t) _ fd).mpr (hok fd hfd))
      exact iff_of_true (by simp [hfi, Except.toOption]) ⟨fd, hfd, by simpa using hn⟩

/-- What `Range` and `Len` do over the field infos of the descriptor fields `md`. -/
structure RangesOver [Inhabited V] (md : List FieldDescriptor) (fs : KnownFields P) : Prop where
  /-- With a callback that always goes on, each field number is passed once, -/
  once : ((fs.range funcs fun _ _ _ => true).map Prod.fst).Nodup
  /-- exactly the numbers of the descriptor's populated fields, with the value `Get` reads, -/
  mem_iff : ∀ n v, (n, v) ∈ fs.range funcs (fun _ _ _ => true) ↔
    (∃ fd ∈ md, fd.number = n) ∧ fs.has funcs n = true ∧ v = fs.get funcs n
  /-- and `Len` counts those calls. -/
  len_eq : fs.len funcs = (fs.range funcs fun _ _ _ => true).length
  /-- With any callback the calls are the first of those, -/
  calls_prefix : ∀ f : RangeFunc V, fs.range funcs f <+: fs.range funcs fun _ _ _ => true
  /-- and a call that returns false is the last. -/
  stop : ∀ (f : RangeFunc V) (i : Nat) (hi : i < (fs.range funcs f).length),
    f ((fs.range funcs f).take i) (fs.range funcs f)[i].1 (fs.range funcs f)[i].2 = false →
      (fs.range funcs f).length = i + 1

/-- On the field infos `generateFieldFuncs` builds, in whatever order the map lists them, `Range`
passes each populated field of the descriptor once and `Len` counts them. The callback is a pure
function of the calls before it; one that sets or clears fields during `Range` is not covered. -/
theorem range_generateFieldFuncs [Inhabited V] {t : List StructField}
    {oneofFuncs : Option (List WrapperType)} {md : List FieldDescriptor}
    {infos : List (FieldNumber × FieldInfo)} (h : generateFieldFuncs t oneofFuncs md = some infos)
    (fs : KnownFields P) (hfs : fs.fields.Perm infos) : RangesOver funcs md fs := by
  obtain ⟨hk, hkeys⟩ := generateFieldFuncs_keys h
  have hk' : (fs.fields.map Prod.fst).Nodup := (hfs.map Prod.fst).nodup_iff.mpr hk
  have hall : fs.range funcs (fun _ _ _ => true) = populated funcs fs.p fs.fields := by
    simp [range]
  refine ⟨?_, fun n v => ?_, ?_, fun f => ?_, fun f i hi hf => rangeLoop_stop funcs _ f _ [] i hi
    (Nat.zero_le _) hf⟩
  · rw [hall]; exact nodup_keys_populated funcs hk'
  · rw [hall, mem_populated funcs hk', GoMap.get_of_perm hfs hk', hkeys]
  · rw [hall]; exact len_eq_length_populated funcs fs
  · rw [hall]; simpa using (rangeLoop_extends funcs fs.p f fs.fields []).2

def boolFuncs : FieldInfo → FieldFuncs Bool Bool :=
  fun _ => ⟨id, id, fun _ v => v, fun _ => false, fun b => (b, b)⟩

theorem range_generateFieldFuncs_bool :
    generateFieldFuncs [boolField] none [boolDescriptor] =
        some [(1, .scalar boolDescriptor boolField)] ∧
      [(1, FieldInfo.scalar boolDescriptor boolField)].Perm [(1, .scalar boolDescriptor boolField)] ∧
      RangesOver boolFuncs [boolDescriptor] ⟨true, [(1, .scalar boolDescriptor boolField)]⟩ :=
  have h : generateFieldFuncs [boolField] none [boolDescriptor] =
      some [(1, .scalar boolDescriptor boolField)] := by decide
  ⟨h, List.Perm.refl _, range_generateFieldFuncs boolFuncs h _ (List.Perm.refl _)⟩

theorem withField_eq_error_iff {β : Type} (op : FieldFuncs P V → β) (fs : KnownFields P)
    (n : FieldNumber) : fs.withField funcs op n = .error (invalidField n) ↔ GoMap.get fs.fields n = none := by
  unfold withField withFieldOr
  cases GoMap.get fs.fields n <;> simp

/-- On the field infos `generateFieldFuncs` builds, in whatever order the map lists them, `Set`,
`Clear` and `Mutable` panic with `invalid field: n` exactly for a number `n` that no descriptor
field has; for such a number `Has` answers false and `Get` the default value. -/
theorem invalidField_generateFieldFuncs [Inhabited V] {t : List StructField}
    {oneofFuncs : Option (List WrapperType)} {md : List FieldDescriptor}
    {infos : List (FieldNumber × FieldInfo)} (h : generateFieldFuncs t oneofFuncs md = some infos)
    (fs : KnownFields P) (hfs : fs.fields.Perm infos) (n : FieldNumber) (v : V) :
    ((∀ fd ∈ md, fd.number ≠ n) ↔ fs.set funcs n v = .error (invalidField n)) ∧
      ((∀ fd ∈ md, fd.number ≠ n) ↔ fs.clear funcs n = .error (invalidField n)) ∧
      ((∀ fd ∈ md, fd.number ≠ n) ↔ fs.mutable funcs n = .error (invalidField n)) ∧
      ((∀ fd ∈ md, fd.number ≠ n) → fs.has funcs n = false ∧ fs.get funcs n = default) := by
  obtain ⟨hk, hkeys⟩ := generateFieldFuncs_keys h
  have hk' : (fs.fields.map Prod.fst).Nodup := (hfs.map Prod.fst).nodup_iff.mpr hk
  have hnone : (∀ fd ∈ md, fd.number ≠ n) ↔ GoMap.get fs.fields n = none := by
    rw [GoMap.get_of_perm hfs hk', ← Option.not_isSome_iff_eq_none, hkeys]
    simp
  simp only [set, clear, mutable, withField_eq_error_iff, hnone, true_and]
  intro hn
  simp [has, get, withFieldOr, hn]

theorem invalidField_generateFieldFuncs_bool :
    generateFieldFuncs [boolField] none [boolDescriptor] =
        some [(1, .scalar boolDescriptor boolField)] ∧
      [(1, FieldInfo.scalar boolDescriptor boolField)].Perm [(1, .scalar boolDescriptor boolField)] ∧
      (((∀ fd ∈ [boolDescriptor], fd.number ≠ 2) ↔
          KnownFields.set boolFuncs ⟨true, [(1, .scalar boolDescriptor boolField)]⟩ 2 false =
            .error (invalidField 2)) ∧
        ((∀ fd ∈ [boolDescriptor], fd.number ≠ 2) ↔
          KnownFields.clear boolFuncs ⟨true, [(1, .scalar boolDescriptor boolField)]⟩ 2 =
            .error (invalidField 2)) ∧
        ((∀ fd ∈ [boolDescriptor], fd.number ≠ 2) ↔
          KnownFields.mutable boolFuncs ⟨true, [(1, .scalar boolDescriptor boolField)]⟩ 2 =
            .error (invalidField 2)) ∧
        ((∀ fd ∈ [boolDescriptor], fd.number ≠ 2) →
          KnownFields.has boolFuncs ⟨true, [(1, .scalar boolDescriptor boolField)]⟩ 2 = false ∧
            KnownFields.get boolFuncs ⟨true, [(1, .scalar boolDescriptor boolField)]⟩ 2 =
              default)) :=
  have h : generateFieldFuncs [boolField] none [boolDescriptor] =
      some [(1, .scalar boolDescriptor boolField)] := by decide
  ⟨h, List.Perm.refl _, invalidField_generateFieldFuncs boolFuncs h _ (List.Perm.refl _) 2 false⟩

end KnownFields

end Impl
end GolangOrg

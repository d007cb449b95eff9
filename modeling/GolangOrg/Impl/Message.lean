import GolangOrg.Impl.Pointer

/-!
# Binding a struct's fields to the descriptor's fields

`MessageType.generateFieldFuncs` binds the fields of a Go struct to field numbers by their
`protobuf` tags, binds the oneof wrapper types of `XXX_OneofFuncs` to numbers the same way, and
builds a field info for each field of the message descriptor. The six `fieldInfoFor*` builders are
not part of this source and are modelled from the spec: each reaches its struct field through
`offsetOf`, which panics on the zero field a missing key gives; a oneof member also needs its
wrapper type; and weak fields are reported unsupported. A panic in the last loop leaves the map
with the infos built before it.
-/
namespace GolangOrg
namespace Impl

/-- The three maps the field loop fills. -/
structure FieldMaps where
  fields : List (FieldNumber × StructField)
  oneofs : List (String × StructField)
  special : List (String × StructField)

def FieldMaps.empty : FieldMaps := ⟨[], [], []⟩

/-- The field names of the `switch f.Name` of the field loop. -/
def specialNames : List String :=
  ["XXX_weak", "XXX_unrecognized", "XXX_sizecache", "XXX_extensions", "XXX_InternalExtensions"]

/-- `fieldLoop`: a field with a number in its `protobuf` tag is bound to it in `fields`, else one
with a `protobuf_oneof` tag to that name in `oneofs`, else a special field to its name. -/
def fieldLoop : List StructField → FieldMaps → FieldMaps
  | [], maps => maps
  | f :: fs, maps =>
    match tagFieldNumber (f.tagGet "protobuf") with
    | some k => fieldLoop fs { maps with fields := GoMap.set maps.fields k f }
    | none =>
      if 0 < (f.tagGet "protobuf_oneof").length then
        fieldLoop fs { maps with oneofs := GoMap.set maps.oneofs (f.tagGet "protobuf_oneof") f }
      else if f.name ∈ specialNames then
        fieldLoop fs { maps with special := GoMap.set maps.special f.name f }
      else fieldLoop fs maps

/-- `oneofLoop`: each wrapper type is bound to the number in the tag of its first field;
`tf.Field(0)` panics on a wrapper with no field, which is `none`. -/
def oneofLoop : List WrapperType → List (FieldNumber × WrapperType) →
    Option (List (FieldNumber × WrapperType))
  | [], oneofFields => some oneofFields
  | tf :: vs, oneofFields =>
    match tf.fields with
    | [] => none
    | f :: _ =>
      match tagFieldNumber (f.tagGet "protobuf") with
      | some k => oneofLoop vs (GoMap.set oneofFields k tf)
      | none => oneofLoop vs oneofFields

/-- `pref.Cardinality`. -/
inductive Cardinality
  | optional
  | required
  | repeated
  deriving DecidableEq

/-- `pref.Kind`. -/
inductive Kind
  | bool | enum | int32 | sint32 | uint32 | int64 | sint64 | uint64 | sfixed32 | fixed32 | float
  | sfixed64 | fixed64 | double | string | bytes | message | group
  deriving DecidableEq

/-- What the last loop reads of a `pref.FieldDescriptor`; `oneofType` is the name of
`fd.OneofType()`, `none` for nil. -/
structure FieldDescriptor where
  number : FieldNumber
  isWeak : Bool
  oneofType : Option String
  isMap : Bool
  cardinality : Cardinality
  kind : Kind
  deriving DecidableEq

/-- The `fieldInfo` of a descriptor field: which `fieldInfoFor*` built it, and on what. -/
inductive FieldInfo
  | oneof (fd : FieldDescriptor) (fs : StructField) (ot : WrapperType)
  | map (fd : FieldDescriptor) (fs : StructField)
  | vector (fd : FieldDescriptor) (fs : StructField)
  | message (fd : FieldDescriptor) (fs : StructField)
  | scalar (fd : FieldDescriptor) (fs : StructField)
  deriving DecidableEq

/-- The struct field an info is built on. -/
def FieldInfo.structField : FieldInfo → StructField
  | oneof _ fs _ | map _ fs | vector _ fs | message _ fs | scalar _ fs => fs

/-- `fieldInfoForWeak(fd, fs)`, modelled from the spec: weak fields are not supported, and the
builder reports it rather than build a field that is always absent. -/
def fieldInfoForWeak (_ : FieldDescriptor) (_ : StructField) : Except String FieldInfo :=
  .error "weak fields unsupported"

/-- `fieldInfoForOneof(fd, fs, ot)`, modelled from the spec: the member lives in the oneof's struct
field `fs`, reached through `offsetOf(fs)`, as a value of its wrapper type `ot`; a nil `ot` cannot be
used. -/
def fieldInfoForOneof (fd : FieldDescriptor) (fs : StructField) (ot : Option WrapperType) :
    Except String FieldInfo :=
  (offsetOf fs).bind fun _ =>
    match ot with
    | some tf => .ok (.oneof fd fs tf)
    | none => .error "runtime error: invalid memory address or nil pointer dereference"

/-- The builders of the other field kinds, modelled from the spec: the info `mk fd fs` of the field
stored in the struct field `fs`, which they reach through `offsetOf(fs)`. -/
def fieldInfoForField (mk : FieldDescriptor → StructField → FieldInfo) (fd : FieldDescriptor)
    (fs : StructField) : Except String FieldInfo :=
  (offsetOf fs).map fun _ => mk fd fs

/-- `fieldInfoForMap(fd, fs)`. -/
def fieldInfoForMap : FieldDescriptor → StructField → Except String FieldInfo :=
  fieldInfoForField .map

/-- `fieldInfoForVector(fd, fs)`. -/
def fieldInfoForVector : FieldDescriptor → StructField → Except String FieldInfo :=
  fieldInfoForField .vector

/-- `fieldInfoForMessage(fd, fs)`. -/
def fieldInfoForMessage : FieldDescriptor → StructField → Except String FieldInfo :=
  fieldInfoForField .message

/-- `fieldInfoForScalar(fd, fs)`. -/
def fieldInfoForScalar : FieldDescriptor → StructField → Except String FieldInfo :=
  fieldInfoForField .scalar

/-- The `switch` of the last loop, on the four lookups it makes: `fields[fd.Number()]`,
`special["XXX_weak"]`, `oneofs[fd.OneofType().Name()]` and `oneofFields[fd.Number()]`. -/
def fieldInfoWith (fieldAt : FieldNumber → StructField) (oneofAt : String → StructField)
    (specialAt : String → StructField) (wrapperAt : FieldNumber → Option WrapperType)
    (fd : FieldDescriptor) : Except String FieldInfo :=
  if fd.isWeak then fieldInfoForWeak fd (specialAt "XXX_weak")
  else match fd.oneofType with
    | some name => fieldInfoForOneof fd (oneofAt name) (wrapperAt fd.number)
    | none =>
      if fd.isMap then fieldInfoForMap fd (fieldAt fd.number)
      else if fd.cardinality = .repeated then fieldInfoForVector fd (fieldAt fd.number)
      else if fd.kind = .message ∨ fd.kind = .group then fieldInfoForMessage fd (fieldAt fd.number)
      else fieldInfoForScalar fd (fieldAt fd.number)

/-- The `switch` as the last loop runs it, on the maps the first two loops filled. -/
def fieldInfoFor (maps : FieldMaps) (oneofFields : List (FieldNumber × WrapperType)) :
    FieldDescriptor → Except String FieldInfo :=
  fieldInfoWith (fun k => (GoMap.get maps.fields k).getD .zero)
    (fun s => (GoMap.get maps.oneofs s).getD .zero) (fun s => (GoMap.get maps.special s).getD .zero)
    (GoMap.get oneofFields)

/-- `for i := 0; i < md.Fields().Len(); i++ { ... mi.fields[fd.Number()] = &fi }`: the map as the
loop leaves it, and the panic of the builder that stopped it, if any. -/
def descriptorLoop (maps : FieldMaps) (oneofFields : List (FieldNumber × WrapperType)) :
    List FieldDescriptor → List (FieldNumber × FieldInfo) →
      List (FieldNumber × FieldInfo) × Option String
  | [], infos => (infos, none)
  | fd :: fds, infos =>
    match fieldInfoFor maps oneofFields fd with
    | .ok fi => descriptorLoop maps oneofFields fds (GoMap.set infos fd.number fi)
    | .error e => (infos, some e)

/-- The statement `mi.generateFieldFuncs(t, md)` on a `MessageType` whose map is nil: the map it
assigns to `mi.fields` (`none` when it panics before the assignment) and its panic, if any. `t` is
the struct's list of fields, `oneofFuncs` the wrapper types of its `XXX_OneofFuncs` method (`none`
without it). -/
def generateFieldFuncsRun (t : List StructField) (oneofFuncs : Option (List WrapperType))
    (md : List FieldDescriptor) : Option (List (FieldNumber × FieldInfo)) × Option String :=
  let maps := fieldLoop t FieldMaps.empty
  match oneofFuncs.elim (some []) fun vs => oneofLoop vs [] with
  | none => (none, some "reflect: Field index out of bounds")
  | some oneofFields =>
    let r := descriptorLoop maps oneofFields md []
    (some r.1, r.2)

/-- `mi.generateFieldFuncs(t, md)`: `mi.fields` when it returns, `none` when it panics. -/
def generateFieldFuncs (t : List StructField) (oneofFuncs : Option (List WrapperType))
    (md : List FieldDescriptor) : Option (List (FieldNumber × FieldInfo)) :=
  match generateFieldFuncsRun t oneofFuncs md with
  | (some infos, none) => some infos
  | _ => none

def oneofKey (f : StructField) : Option String :=
  if tagFieldNumber (f.tagGet "protobuf") = none ∧ 0 < (f.tagGet "protobuf_oneof").length then
    some (f.tagGet "protobuf_oneof")
  else none

def specialKey (f : StructField) : Option String :=
  if tagFieldNumber (f.tagGet "protobuf") = none ∧ (f.tagGet "protobuf_oneof").length = 0 ∧
      f.name ∈ specialNames then some f.name
  else none

def wrapperKey (tf : WrapperType) : Option FieldNumber :=
  tf.fields.head?.bind fun f => tagFieldNumber (f.tagGet "protobuf")

theorem fieldLoop_eq : ∀ (t : List StructField) (maps : FieldMaps),
    fieldLoop t maps = ⟨GoMap.setEach (fun f => tagFieldNumber (f.tagGet "protobuf")) id t maps.fields,
      GoMap.setEach oneofKey id t maps.oneofs, GoMap.setEach specialKey id t maps.special⟩
  | [], _ => rfl
  | f :: t, maps => by
    have ih := fieldLoop_eq t
    cases hk : tagFieldNumber (f.tagGet "protobuf") <;>
      by_cases h1 : (f.tagGet "protobuf_oneof").length = 0 <;> by_cases h2 : f.name ∈ specialNames <;>
      simp [fieldLoop, GoMap.setEach, oneofKey, specialKey, Nat.pos_iff_ne_zero, ih, hk, h1, h2]

theorem oneofLoop_eq : ∀ (ws : List WrapperType) (m : List (FieldNumber × WrapperType)),
    oneofLoop ws m =
      if ∀ tf ∈ ws, tf.fields ≠ [] then some (GoMap.setEach wrapperKey id ws m) else none
  | [], _ => by simp [oneofLoop, GoMap.setEach]
  | tf :: ws, m => by
    rw [oneofLoop]
    cases hf : tf.fields with
    | nil => simp [hf]
    | cons f rest =>
      have hk : wrapperKey tf = tagFieldNumber (f.tagGet "protobuf") := by simp [wrapperKey, hf]
      simp only [GoMap.setEach, hk, List.forall_mem_cons, hf, ne_eq, reduceCtorEq, not_false_eq_true,
        true_and]
      cases hn : tagFieldNumber (f.tagGet "protobuf") <;> simp only [hn, id] <;> rw [oneofLoop_eq]

theorem descriptorLoop_eq (maps : FieldMaps) (oneofFields : List (FieldNumber × WrapperType)) :
    ∀ (md : List FieldDescriptor) (infos : List (FieldNumber × FieldInfo)),
      descriptorLoop maps oneofFields md infos =
        GoMap.setEachExcept FieldDescriptor.number (fieldInfoFor maps oneofFields) md infos
  | [], _ => rfl
  | fd :: md, infos => by
    rw [descriptorLoop, GoMap.setEachExcept]
    cases fieldInfoFor maps oneofFields fd
    · rfl
    · exact descriptorLoop_eq maps oneofFields md _

theorem descriptorLoop_append {maps : FieldMaps} {oneofFields : List (FieldNumber × WrapperType)}
    {pre : List FieldDescriptor} (h : ∀ fd ∈ pre, (fieldInfoFor maps oneofFields fd).isOk)
    (rest : List FieldDescriptor) (infos : List (FieldNumber × FieldInfo)) :
    descriptorLoop maps oneofFields (pre ++ rest) infos =
      descriptorLoop maps oneofFields rest (descriptorLoop maps oneofFields pre infos).1 := by
  have hn := (GoMap.setEachExcept_snd_eq_none_iff FieldDescriptor.number
    (fieldInfoFor maps oneofFields) pre infos).mpr h
  simp only [descriptorLoop_eq, GoMap.setEachExcept_append] at hn ⊢
  generalize GoMap.setEachExcept FieldDescriptor.number (fieldInfoFor maps oneofFields) pre infos = r
    at hn ⊢
  obtain ⟨m, b⟩ := r
  cases hn
  rfl

theorem get_fieldLoop_eq (k : FieldNumber) (t : List StructField) (maps : FieldMaps) :
    GoMap.get (fieldLoop t maps).fields k =
      ((t.filter fun f => tagFieldNumber (f.tagGet "protobuf") = some k).getLast?).or
        (GoMap.get maps.fields k) := by
  simp [fieldLoop_eq, GoMap.get_setEach, Option.map_id]

theorem get_fieldLoop {k : FieldNumber} {f : StructField} {fs : List StructField} {maps : FieldMaps}
    (h : GoMap.get (fieldLoop fs maps).fields k = some f) :
    GoMap.get maps.fields k = some f ∨ f ∈ fs ∧ tagFieldNumber (f.tagGet "protobuf") = some k := by
  rw [get_fieldLoop_eq] at h
  cases hl : (fs.filter fun f => tagFieldNumber (f.tagGet "protobuf") = some k).getLast? with
  | none => exact .inl (by simpa [hl] using h)
  | some g =>
    obtain rfl : g = f := by simpa [hl] using h
    exact .inr (by simpa using List.mem_filter.mp (List.mem_of_getLast?_eq_some hl))

theorem get_oneofLoop {k : FieldNumber} {tf : WrapperType} {ws : List WrapperType}
    {m m' : List (FieldNumber × WrapperType)} (h : oneofLoop ws m = some m')
    (hk : GoMap.get m' k = some tf) : GoMap.get m k = some tf ∨
      tf ∈ ws ∧ ∃ f rest, tf.fields = f :: rest ∧ tagFieldNumber (f.tagGet "protobuf") = some k := by
  rw [oneofLoop_eq] at h
  split_ifs at h
  cases h
  rw [GoMap.get_setEach, Option.map_id] at hk
  cases hl : (ws.filter fun tf => wrapperKey tf = some k).getLast? with
  | none => exact .inl (by simpa [hl] using hk)
  | some g =>
    obtain rfl : g = tf := by simpa [hl] using hk
    obtain ⟨hw, hkey⟩ := List.mem_filter.mp (List.mem_of_getLast?_eq_some hl)
    simp only [decide_eq_true_eq, wrapperKey] at hkey
    obtain ⟨f, hf, hn⟩ := Option.bind_eq_some.mp hkey
    obtain ⟨rest, hr⟩ := List.head?_eq_some_iff.mp hf
    exact .inr ⟨hw, f, rest, hr, hn⟩

/-- `generateFieldFuncs` binds field number `k` to a struct field (`fields[k] = f`) only if the
field's `protobuf` tag gives `k`, and a wrapper type (`oneofFields[k]`) only if the tag of its first
field does: `k` is the low 32 bits of the value of the first segment that is non-empty and all
digits, saturated at the largest `uint64`; below `2^31` the value is `k` itself. -/
theorem generateFieldFuncs_tag_numbers (t : List StructField) (ws : List WrapperType)
    (k : FieldNumber) :
    (∀ f, GoMap.get (fieldLoop t FieldMaps.empty).fields k = some f →
      f ∈ t ∧ NumberedBy (f.tagGet "protobuf") k) ∧
    (∀ oneofFields tf, oneofLoop ws [] = some oneofFields → GoMap.get oneofFields k = some tf →
      tf ∈ ws ∧ ∃ f rest, tf.fields = f :: rest ∧ NumberedBy (f.tagGet "protobuf") k) := by
  refine ⟨fun f h => ?_, fun m tf h hk => ?_⟩
  · rcases get_fieldLoop h with h | ⟨hf, hn⟩
    · cases h
    · exact ⟨hf, numberedBy_of_tagFieldNumber hn⟩
  · rcases get_oneofLoop h hk with h | ⟨hw, f, rest, hfs, hn⟩
    · cases h
    · exact ⟨hw, f, rest, hfs, numberedBy_of_tagFieldNumber hn⟩

def boolField : StructField := ⟨"Bool", [("protobuf", "1")], [0]⟩

theorem generateFieldFuncs_tag_numbers_bool :
    GoMap.get (fieldLoop [boolField] FieldMaps.empty).fields 1 = some boolField ∧
      NumberedBy (boolField.tagGet "protobuf") 1 :=
  have h : GoMap.get (fieldLoop [boolField] FieldMaps.empty).fields 1 = some boolField := by decide
  ⟨h, ((generateFieldFuncs_tag_numbers [boolField] [] 1).1 _ h).2⟩

def wideTagField : StructField := ⟨"Wide", [("protobuf", "4294967297")], [0]⟩

/-- `4294967297 = 2^32 + 1` keeps the low bits `1`: the field is bound to field number 1, though its
tag denotes 4294967297. -/
theorem fieldLoop_binds_wide_tag_to_one :
    GoMap.get (fieldLoop [wideTagField] FieldMaps.empty).fields 1 = some wideTagField ∧
      firstDigitSegment (wideTagField.tagGet "protobuf") = some "4294967297".data ∧
      decimalValue "4294967297".data ≠ 1 := by
  decide

/-- The struct field the field loop leaves at number `k`: the last one whose `protobuf` tag gives
`k`, or the zero field. -/
def taggedField (t : List StructField) (k : FieldNumber) : StructField :=
  ((t.filter fun f => tagFieldNumber (f.tagGet "protobuf") = some k).getLast?).getD .zero

/-- The struct field the field loop leaves at oneof name `s`. -/
def oneofField (t : List StructField) (s : String) : StructField :=
  ((t.filter fun f => oneofKey f = some s).getLast?).getD .zero

/-- The struct field the field loop leaves at special name `s`. -/
def specialField (t : List StructField) (s : String) : StructField :=
  ((t.filter fun f => specialKey f = some s).getLast?).getD .zero

/-- The wrapper type the oneof loop leaves at number `k`: the last one whose first field's tag
gives `k`. -/
def wrapperFor (ws : List WrapperType) (k : FieldNumber) : Option WrapperType :=
  (ws.filter fun tf => wrapperKey tf = some k).getLast?

/-- What the builders need for the info of `fd`: weak fields are not supported; a oneof member
needs its oneof's struct field to have an offset and a wrapper type numbered like it; any other
field needs the struct field of its number to have an offset. -/
def Buildable (fieldAt : FieldNumber → StructField) (oneofAt : String → StructField)
    (wrapperAt : FieldNumber → Option WrapperType) (fd : FieldDescriptor) : Prop :=
  fd.isWeak = false ∧
    (∀ s, fd.oneofType = some s → (oneofAt s).index.length = 1 ∧ (wrapperAt fd.number).isSome) ∧
    (fd.oneofType = none → (fieldAt fd.number).index.length = 1)

theorem fieldInfoFor_fieldLoop (t : List StructField) (ws : List WrapperType) :
    fieldInfoFor (fieldLoop t FieldMaps.empty) (GoMap.setEach wrapperKey id ws []) =
      fieldInfoWith (taggedField t) (oneofField t) (specialField t) (wrapperFor ws) := by
  have hw : GoMap.get (GoMap.setEach wrapperKey id ws []) = wrapperFor ws :=
    funext fun k => by simp [GoMap.get_setEach, Option.map_id, wrapperFor]
  simp only [fieldInfoFor, fieldLoop_eq, FieldMaps.empty, GoMap.get_setEach, GoMap.get_nil,
    Option.or_none, Option.map_id, id_eq, hw]
  rfl

theorem isOk_fieldInfoForField (mk : FieldDescriptor → StructField → FieldInfo)
    (fd : FieldDescriptor) (fs : StructField) :
    (fieldInfoForField mk fd fs).isOk ↔ fs.index.length = 1 := by
  unfold fieldInfoForField offsetOf
  split_ifs <;> simp_all [Except.map, Except.isOk, Except.toBool]

example (fd : FieldDescriptor) :
    fieldInfoForScalar fd .zero = .error "embedded structs are not supported" :=
  rfl

theorem isOk_fieldInfoForOneof (fd : FieldDescriptor) (fs : StructField) (ot : Option WrapperType) :
    (fieldInfoForOneof fd fs ot).isOk ↔ fs.index.length = 1 ∧ ot.isSome := by
  unfold fieldInfoForOneof offsetOf
  split_ifs <;> cases ot <;> simp_all [Except.bind, Except.isOk, Except.toBool]

theorem isOk_fieldInfoWith_iff {fieldAt : FieldNumber → StructField}
    {oneofAt specialAt : String → StructField} {wrapperAt : FieldNumber → Option WrapperType}
    {fd : FieldDescriptor} :
    (fieldInfoWith fieldAt oneofAt specialAt wrapperAt fd).isOk ↔
      Buildable fieldAt oneofAt wrapperAt fd := by
  unfold fieldInfoWith Buildable
  cases fd.isWeak
  · simp only [Bool.false_eq_true, if_false]
    cases fd.oneofType with
    | some s => simp [isOk_fieldInfoForOneof]
    | none =>
      split_ifs <;> simp [fieldInfoForMap, fieldInfoForVector, fieldInfoForMessage,
        fieldInfoForScalar, isOk_fieldInfoForField]
  · simp [fieldInfoForWeak, Except.isOk, Except.toBool]

theorem structField_fieldInfoWith {fieldAt : FieldNumber → StructField}
    {oneofAt specialAt : String → StructField} {wrapperAt : FieldNumber → Option WrapperType}
    {fd : FieldDescriptor} {fi : FieldInfo} (hw : fd.isWeak = false) (ho : fd.oneofType = none)
    (h : fieldInfoWith fieldAt oneofAt specialAt wrapperAt fd = .ok fi) :
    fi.structField = fieldAt fd.number := by
  simp only [fieldInfoWith, hw, ho, Bool.false_eq_true, if_false, fieldInfoForMap,
    fieldInfoForVector, fieldInfoForMessage, fieldInfoForScalar, fieldInfoForField] at h
  split_ifs at h <;>
  · cases ho' : offsetOf (fieldAt fd.number) <;> simp [ho', Except.map] at h
    subst h
    rfl

theorem generateFieldFuncsRun_eq (t : List StructField) (oneofFuncs : Option (List WrapperType))
    (md : List FieldDescriptor) :
    generateFieldFuncsRun t oneofFuncs md =
      if ∀ ws ∈ oneofFuncs, ∀ tf ∈ ws, tf.fields ≠ [] then
        ((some (descriptorLoop (fieldLoop t FieldMaps.empty)
            (GoMap.setEach wrapperKey id (oneofFuncs.getD []) []) md []).1),
          (descriptorLoop (fieldLoop t FieldMaps.empty)
            (GoMap.setEach wrapperKey id (oneofFuncs.getD []) []) md []).2)
      else (none, some "reflect: Field index out of bounds") := by
  cases oneofFuncs with
  | none => simp [generateFieldFuncsRun, GoMap.setEach]
  | some ws =>
    simp only [generateFieldFuncsRun, Option.elim, oneofLoop_eq, Option.getD_some, Option.mem_def,
      Option.some.injEq, forall_eq']
    split_ifs <;> rfl

theorem generateFieldFuncs_eq (t : List StructField) (oneofFuncs : Option (List WrapperType))
    (md : List FieldDescriptor) :
    generateFieldFuncs t oneofFuncs md =
      if (∀ ws ∈ oneofFuncs, ∀ tf ∈ ws, tf.fields ≠ []) ∧
          ∀ fd ∈ md, (fieldInfoWith (taggedField t) (oneofField t) (specialField t)
            (wrapperFor (oneofFuncs.getD [])) fd).isOk then
        some (descriptorLoop (fieldLoop t FieldMaps.empty)
          (GoMap.setEach wrapperKey id (oneofFuncs.getD []) []) md []).1
      else none := by
  have hd : (descriptorLoop (fieldLoop t FieldMaps.empty)
      (GoMap.setEach wrapperKey id (oneofFuncs.getD []) []) md []).2 = none ↔
        ∀ fd ∈ md, (fieldInfoWith (taggedField t) (oneofField t) (specialField t)
          (wrapperFor (oneofFuncs.getD [])) fd).isOk := by
    rw [descriptorLoop_eq, GoMap.setEachExcept_snd_eq_none_iff, fieldInfoFor_fieldLoop]
  unfold generateFieldFuncs
  rw [generateFieldFuncsRun_eq]
  generalize descriptorLoop _ _ md [] = r at hd ⊢
  obtain ⟨a, b⟩ := r
  by_cases h1 : ∀ ws ∈ oneofFuncs, ∀ tf ∈ ws, tf.fields ≠ []
  · rw [if_pos h1]
    cases b with
    | none => rw [if_pos ⟨h1, hd.mp rfl⟩]
    | some e => rw [if_neg fun h => absurd (hd.mpr h.2) (by simp)]
  · rw [if_neg h1, if_neg fun h => h1 h.1]

theorem isSome_generateFieldFuncs_iff (t : List StructField) (oneofFuncs : Option (List WrapperType))
    (md : List FieldDescriptor) :
    (generateFieldFuncs t oneofFuncs md).isSome ↔ (∀ ws ∈ oneofFuncs, ∀ tf ∈ ws, tf.fields ≠ []) ∧
      ∀ fd ∈ md, Buildable (taggedField t) (oneofField t) (wrapperFor (oneofFuncs.getD [])) fd := by
  rw [generateFieldFuncs_eq]
  split_ifs with h
  · exact iff_of_true rfl ⟨h.1, fun fd hfd => isOk_fieldInfoWith_iff.mp (h.2 fd hfd)⟩
  · exact iff_of_false Bool.false_ne_true fun h' =>
      h ⟨h'.1, fun fd hfd => isOk_fieldInfoWith_iff.mpr (h'.2 fd hfd)⟩

theorem get_generateFieldFuncs {t : List StructField} {oneofFuncs : Option (List WrapperType)}
    {md : List FieldDescriptor} {infos : List (FieldNumber × FieldInfo)}
    (h : generateFieldFuncs t oneofFuncs md = some infos) (k : FieldNumber) :
    GoMap.get infos k = ((md.filter fun fd => fd.number = k).getLast?).bind fun fd =>
      (fieldInfoWith (taggedField t) (oneofField t) (specialField t)
        (wrapperFor (oneofFuncs.getD [])) fd).toOption := by
  rw [generateFieldFuncs_eq] at h
  split_ifs at h with hc
  cases h
  rw [descriptorLoop_eq, GoMap.get_setEachExcept _ _ _ _ _ ((GoMap.setEachExcept_snd_eq_none_iff _ _ _ _).mpr
    (by rw [fieldInfoFor_fieldLoop]; exact hc.2)), fieldInfoFor_fieldLoop, GoMap.get_nil, Option.or_none]

theorem generateFieldFuncsRun_stops {t : List StructField} {oneofFuncs : Option (List WrapperType)}
    {pre : List FieldDescriptor} {fd : FieldDescriptor} {infos : List (FieldNumber × FieldInfo)}
    (hpre : generateFieldFuncs t oneofFuncs pre = some infos)
    (hfd : ¬Buildable (taggedField t) (oneofField t) (wrapperFor (oneofFuncs.getD [])) fd)
    (post : List FieldDescriptor) :
    ∃ e, generateFieldFuncsRun t oneofFuncs (pre ++ fd :: post) = (some infos, some e) := by
  have hok := (isSome_generateFieldFuncs_iff t oneofFuncs pre).mp (by simp [hpre])
  rw [generateFieldFuncs_eq, if_pos ⟨hok.1, fun g hg => isOk_fieldInfoWith_iff.mpr (hok.2 g hg)⟩]
    at hpre
  obtain ⟨e, he⟩ : ∃ e, fieldInfoWith (taggedField t) (oneofField t) (specialField t)
      (wrapperFor (oneofFuncs.getD [])) fd = .error e :=
    GoMap.exists_error_of_not_isOk fun h => hfd (isOk_fieldInfoWith_iff.mp h)
  have hpreok : ∀ g ∈ pre, (fieldInfoFor (fieldLoop t FieldMaps.empty)
      (GoMap.setEach wrapperKey id (oneofFuncs.getD []) []) g).isOk := by
    rw [fieldInfoFor_fieldLoop]
    exact fun g hg => isOk_fieldInfoWith_iff.mpr (hok.2 g hg)
  cases hpre
  exact ⟨e, by rw [generateFieldFuncsRun_eq, if_pos hok.1, descriptorLoop_append hpreok,
    descriptorLoop, fieldInfoFor_fieldLoop, he]⟩

def boolDescriptor : FieldDescriptor := ⟨1, false, none, false, .optional, .bool⟩

example : generateFieldFuncs [boolField] none [{ boolDescriptor with isWeak := true }] = none := by
  decide

example : generateFieldFuncs [] none [boolDescriptor] = none := by
  decide

end Impl
end GolangOrg

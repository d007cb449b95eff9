import GolangOrg.Impl.Message

/-!
# The type binder

`MessageType.init`, which every exported method calls first. The function it hands to `once.Do`
runs on the first call only, also when it panics (`sync.Once` counts a function that panicked as
run): it checks the kind of the Go type, binds it, and builds the field infos. Every call then
checks its own type against the bound one. Concurrent first calls behave as some order of them in
which the first runs the function, so a run of calls is a list of types.

The kind check is written with `&&`: it reads `t.Elem()` only for a type that is not a pointer, so
a slice, array, channel or map of a struct binds like a pointer to it, a struct type panics inside
`reflect`, and a pointer to a type that is not a struct passes the check. A panic while building
the infos leaves the binder bound, with the infos built before it.
-/
namespace GolangOrg
namespace Impl

/-- The fields of a `MessageType` that `init` reads and writes: the fields of its descriptor
`Desc`, whether `once` has run its function, `goType` and `fields` (`none` for nil). -/
structure MessageType where
  desc : List FieldDescriptor
  done : Bool
  goType : Option GoType
  fields : Option (List (FieldNumber × FieldInfo))
  deriving DecidableEq

namespace MessageType

/-- `&MessageType{Desc: md}`. -/
def new (desc : List FieldDescriptor) : MessageType := ⟨desc, false, none, none⟩

/-- `if t.Kind() != reflect.Ptr && t.Elem().Kind() != reflect.Struct { panic(...) }`. -/
def checkKind (t : GoType) : Except String Unit :=
  if t.isPtr then .ok ()
  else t.elem.bind fun e =>
    if e.isStruct then .ok () else .error ("got " ++ t.str ++ ", want *struct kind")

/-- `%v` of a `reflect.Type`: its string, or `<nil>`. -/
def typeString : Option GoType → String
  | some t => t.str
  | none => "<nil>"

/-- `fmt.Sprintf("type mismatch: got %T, want %v", p, mi.goType)` for a `p` of type `t`. -/
def typeMismatch (t : GoType) (goType : Option GoType) : String :=
  "type mismatch: got " ++ t.str ++ ", want " ++ typeString goType

/-- The function `once.Do` runs: the kind check, `mi.goType = t`, and
`mi.generateFieldFuncs(t.Elem(), md)`; the binder as it leaves it, and its panic. -/
def initOnce (mi : MessageType) (t : GoType) : MessageType × Option String :=
  match checkKind t with
  | .error e => (mi, some e)
  | .ok () =>
    let mi := { mi with goType := some t }
    match t.elem with
    | .error e => (mi, some e)
    | .ok s =>
      match s.structFields with
      | .error e => (mi, some e)
      | .ok fs =>
        match generateFieldFuncsRun fs s.oneofFuncs mi.desc with
        | (some fields, err) => ({ mi with fields := some fields }, err)
        | (none, err) => (mi, err)

/-- `mi.init(p)` for a `p` of type `t`: the binder after the call, and its panic. -/
def init (mi : MessageType) (t : GoType) : MessageType × Option String :=
  let r := if mi.done then (mi, none) else ({ (mi.initOnce t).1 with done := true }, (mi.initOnce t).2)
  match r.2 with
  | some e => (r.1, some e)
  | none => if some t ≠ r.1.goType then (r.1, some (typeMismatch t r.1.goType)) else (r.1, none)

/-- `init` called with the types `ts` in order: the binder after the calls, and each call's
panic. -/
def initRun (mi : MessageType) : List GoType → MessageType × List (Option String)
  | [] => (mi, [])
  | t :: ts =>
    let r := mi.init t
    let s := r.1.initRun ts
    (s.1, r.2 :: s.2)

theorem init_of_done {mi : MessageType} (h : mi.done = true) (t : GoType) :
    mi.init t = (mi, if some t = mi.goType then none else some (typeMismatch t mi.goType)) := by
  simp only [init, h, if_true]
  split_ifs <;> simp_all

theorem done_init (mi : MessageType) (t : GoType) : (mi.init t).1.done = true := by
  by_cases h : mi.done = true
  · rw [init_of_done h]
    split_ifs <;> exact h
  · simp only [init, h, Bool.false_eq_true, if_false]
    split <;> (try split_ifs) <;> rfl

theorem initRun_of_done {mi : MessageType} (h : mi.done = true) :
    ∀ ts : List GoType, mi.initRun ts =
      (mi, ts.map fun t => if some t = mi.goType then none else some (typeMismatch t mi.goType))
  | [] => rfl
  | t :: ts => by
    simp only [initRun, init_of_done h, initRun_of_done h ts, List.map_cons]

/-- Every run of `init` calls does the binder's work once: after any further calls the binder is
the one the first call left, whether it returned or panicked, and each later call panics exactly
when its type is not the type bound by the first call, with `type mismatch: got T, want U`. -/
theorem initRun_once (mi : MessageType) (t : GoType) (ts : List GoType) :
    (mi.initRun (t :: ts)).1 = (mi.init t).1 ∧
      (mi.initRun (t :: ts)).2 = (mi.init t).2 :: ts.map fun t' =>
        if some t' = (mi.init t).1.goType then none
        else some (typeMismatch t' (mi.init t).1.goType) := by
  simp [initRun, initRun_of_done (done_init mi t)]

theorem checkKind_of_elem {t s : GoType} (h : t.elem = .ok s) (hs : s.isStruct = true) :
    checkKind t = .ok () := by
  unfold checkKind
  split_ifs
  · rfl
  · simp [h, hs, Except.bind]

theorem init_new_of_elem (md : List FieldDescriptor) {t : GoType} {name : String} {fs : GoFields}
    {o : Option (List WrapperType)} (h : t.elem = .ok (.struct name fs o)) :
    (new md).init t = (⟨md, true, some t, (generateFieldFuncsRun (fs.structFields 0) o md).1⟩,
      (generateFieldFuncsRun (fs.structFields 0) o md).2) := by
  simp only [init, new, Bool.false_eq_true, if_false, initOnce, checkKind_of_elem h rfl, h,
    GoType.structFields, GoType.oneofFuncs]
  cases hr : generateFieldFuncsRun (fs.structFields 0) o md with
  | mk fields err => cases fields <;> cases err <;> simp

theorem init_new_of_not_elem (md : List FieldDescriptor) {t : GoType}
    (h : ∀ name fs o, t.elem ≠ .ok (.struct name fs o)) : ∃ e g,
      (new md).init t = (⟨md, true, g, none⟩, some e) := by
  simp only [init, new, Bool.false_eq_true, if_false, initOnce]
  cases hk : checkKind t with
  | error e => exact ⟨e, none, rfl⟩
  | ok u =>
    cases he : t.elem with
    | error e => exact ⟨e, some t, rfl⟩
    | ok s =>
      cases s with
      | struct name fs o => exact absurd he (h name fs o)
      | _ => exact ⟨_, some t, rfl⟩

theorem generateFieldFuncsRun_fst_of_snd {t : List StructField} {o : Option (List WrapperType)}
    {md : List FieldDescriptor} (h : (generateFieldFuncsRun t o md).2 = none) :
    ∃ infos, generateFieldFuncsRun t o md = (some infos, none) ∧
      generateFieldFuncs t o md = some infos := by
  unfold generateFieldFuncs
  rw [generateFieldFuncsRun_eq] at h ⊢
  split_ifs at h ⊢
  exact ⟨_, by rw [h], by rw [h]⟩

example : ((new [boolDescriptor]).init (.slice boolStruct)).2 = none ∧
    ((new [boolDescriptor]).init boolStruct).2 = some "reflect: Elem of invalid type" ∧
    ((new [boolDescriptor]).init (.ptr (.basic "int" "int"))).2 =
      some "reflect: NumField of non-struct type" := by
  decide

/-- A binder whose first call panics while building the field infos, at the descriptor field
`fd`, stays bound to the type with the infos of the fields before `fd`: every later call with the
same type returns without a panic and the methods run on that partial map. -/
theorem init_keeps_partial_table (md : List FieldDescriptor) {t : GoType} {name : String}
    {fs : GoFields} {o : Option (List WrapperType)} (ht : t.elem = .ok (.struct name fs o))
    {pre post : List FieldDescriptor} {fd : FieldDescriptor} (hmd : md = pre ++ fd :: post)
    {infos : List (FieldNumber × FieldInfo)}
    (hpre : generateFieldFuncs (fs.structFields 0) o pre = some infos)
    (hfd : ¬Buildable (taggedField (fs.structFields 0)) (oneofField (fs.structFields 0))
      (wrapperFor (o.getD [])) fd)
    (ts : List GoType) :
    ∃ e, (new md).initRun (t :: ts) =
      (⟨md, true, some t, some infos⟩,
        some e :: ts.map fun t' => if t' = t then none else some (typeMismatch t' (some t))) := by
  subst hmd
  obtain ⟨e, hrun⟩ := generateFieldFuncsRun_stops hpre hfd post
  have h1 : (new (pre ++ fd :: post)).init t =
      (⟨pre ++ fd :: post, true, some t, some infos⟩, some e) := by
    rw [init_new_of_elem _ ht, hrun]
  exact ⟨e, by simp [initRun, h1, initRun_of_done]⟩

def weakDescriptor : FieldDescriptor := ⟨2, true, none, false, .optional, .bool⟩

theorem init_keeps_partial_table_weak :
    (GoType.ptr boolStruct).elem = .ok (.struct "impl.ScalarProto2" boolFields none) ∧
      [boolDescriptor, weakDescriptor] = [boolDescriptor] ++ weakDescriptor :: [] ∧
      generateFieldFuncs (boolFields.structFields 0) none [boolDescriptor] =
        some [(1, .scalar boolDescriptor boolField)] ∧
      ¬Buildable (taggedField (boolFields.structFields 0)) (oneofField (boolFields.structFields 0))
        (wrapperFor ((none : Option (List WrapperType)).getD [])) weakDescriptor ∧
      ∃ e, (new [boolDescriptor, weakDescriptor]).initRun [.ptr boolStruct, .ptr boolStruct] =
        (⟨[boolDescriptor, weakDescriptor], true, some (.ptr boolStruct),
            some [(1, .scalar boolDescriptor boolField)]⟩,
          some e :: [GoType.ptr boolStruct].map fun t' =>
            if t' = .ptr boolStruct then none else some (typeMismatch t' (some (.ptr boolStruct)))) :=
  have ht : (GoType.ptr boolStruct).elem = .ok (.struct "impl.ScalarProto2" boolFields none) := rfl
  have hpre : generateFieldFuncs (boolFields.structFields 0) none [boolDescriptor] =
      some [(1, .scalar boolDescriptor boolField)] := by decide
  have hfd : ¬Buildable (taggedField (boolFields.structFields 0)) (oneofField (boolFields.structFields 0))
      (wrapperFor ((none : Option (List WrapperType)).getD [])) weakDescriptor :=
    fun h => absurd h.1 (by decide)
  ⟨ht, rfl, hpre, hfd, init_keeps_partial_table _ ht rfl hpre hfd _⟩

end MessageType

end Impl
end GolangOrg

import GolangOrg.Impl.Tag

/-!
# Go types as `reflect` shows them

The types that `MessageType.init`, `generateFieldFuncs` and the field locator inspect: pointers
and the other kinds with an element type, structs with their fields and the wrapper types their
`XXX_OneofFuncs` method returns, and every other type by its name and kind. A method of `reflect`
used on a type or value of the wrong kind panics, and so does an index out of range.
-/
namespace GolangOrg
namespace Impl

/-- A oneof wrapper type `tf` that `XXX_OneofFuncs` lists: a struct type, its name and fields. -/
structure WrapperType where
  name : String
  fields : List StructField
  deriving DecidableEq

mutual

/-- A `reflect.Type`. -/
inductive GoType where
  | ptr (elem : GoType)
  | slice (elem : GoType)
  | array (len : Nat) (elem : GoType)
  | chan (elem : GoType)
  | map (key elem : GoType)
  /-- A struct type: its name, its fields, and the wrapper types that the `XXX_OneofFuncs` method
  of its pointer type returns, `none` when it has no such method. -/
  | struct (name : String) (fields : GoFields) (oneofFuncs : Option (List WrapperType))
  /-- Any other type, by its name and its kind. -/
  | basic (name kind : String)

/-- The fields of a struct type in order: name, tag and type. -/
inductive GoFields where
  | nil
  | cons (name : String) (tag : List (String × String)) (type : GoType) (rest : GoFields)

end

deriving instance DecidableEq for GoType

namespace GoFields

/-- `t.Field(i)` for `i` from `n` on: the field with its index path `[i]`. -/
def structFields : GoFields → Nat → List StructField
  | nil, _ => []
  | cons name tag _ rest, i => ⟨name, tag, [i]⟩ :: rest.structFields (i + 1)

/-- The type of the field at index `i`. -/
def typeAt : GoFields → Nat → Option GoType
  | nil, _ => none
  | cons _ _ t _, 0 => some t
  | cons _ _ _ rest, i + 1 => rest.typeAt i

end GoFields

namespace GoType

/-- `t.String()`. -/
def str : GoType → String
  | ptr e => "*" ++ e.str
  | slice e => "[]" ++ e.str
  | array n e => "[" ++ toString n ++ "]" ++ e.str
  | chan e => "chan " ++ e.str
  | map k e => "map[" ++ k.str ++ "]" ++ e.str
  | struct name _ _ => name
  | basic name _ => name

/-- `t.Kind().String()`. -/
def kindName : GoType → String
  | ptr _ => "ptr"
  | slice _ => "slice"
  | array _ _ => "array"
  | chan _ => "chan"
  | map _ _ => "map"
  | struct _ _ _ => "struct"
  | basic _ kind => kind

def isPtr : GoType → Bool
  | ptr _ => true
  | _ => false

def isStruct : GoType → Bool
  | struct _ _ _ => true
  | _ => false

/-- `t.Elem()`, defined for arrays, channels, maps, pointers and slices. -/
def elem : GoType → Except String GoType
  | ptr e | slice e | array _ e | chan e | map _ e => .ok e
  | _ => .error "reflect: Elem of invalid type"

/-- `t.Field(i)` for every `i < t.NumField()`; `NumField` is defined for structs only. -/
def structFields : GoType → Except String (List StructField)
  | struct _ fs _ => .ok (fs.structFields 0)
  | _ => .error "reflect: NumField of non-struct type"

/-- The wrapper types of `reflect.PtrTo(t).MethodByName("XXX_OneofFuncs")`, `none` for `!ok`. -/
def oneofFuncs : GoType → Option (List WrapperType)
  | struct _ _ o => o
  | _ => none

/-- `v.Field(i)` on a value of type `t`: the field's type. -/
def valueField (t : GoType) (i : Nat) : Except String GoType :=
  match t with
  | struct _ fs _ =>
    match fs.typeAt i with
    | some ft => .ok ft
    | none => .error "reflect: Field index out of range"
  | t => .error ("reflect: call of reflect.Value.Field on " ++ t.kindName ++ " Value")

/-- `v.Elem()` on a value of type `t`: the type a pointer points to. A value of interface kind
never comes out of `reflect.ValueOf`, so every other kind panics. -/
def valueElem : GoType → Except String GoType
  | ptr e => .ok e
  | t => .error ("reflect: call of reflect.Value.Elem on " ++ t.kindName ++ " Value")

end GoType

end Impl
end GolangOrg

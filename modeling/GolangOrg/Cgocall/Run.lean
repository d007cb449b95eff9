import GolangOrg.Cgocall.TypeOK

/-! The `cgocall` analyzer's check of one call. The inspector hands `run` every call expression with
the stack of nodes around it; `findCall` takes a call of a `_Cfunc_` function to the call cgo wrapped
around it, and the loop over that call's arguments reports the first argument whose type, seen
through `unsafe.Pointer` conversions by `cgoBaseType`, or whose address-taken operand has a type
reaching a channel, map, function or slice. -/
namespace GolangOrg
namespace Cgocall

/-- The operator of a unary expression, as far as the analyzer tells them apart. -/
inductive Token where
  | and
  | other
  deriving DecidableEq

/-- The nodes of a Go syntax tree the analyzer looks into; every other node is `other`. Leaves
carry an identity, so that two nodes spelled alike may have different types. -/
inductive Expr where
  | ident (id : Nat) (name : String)
  | paren (x : Expr)
  | call (fn : Expr) (args : List Expr)
  | star (x : Expr)
  | unary (op : Token) (x : Expr)
  | other (id : Nat)

namespace Expr

def isCall : Expr → Bool
  | call _ _ => true
  | _ => false

/-- `call.Args`. -/
def args : Expr → List Expr
  | call _ args => args
  | _ => []

end Expr

/-- `info.Types[e].Type`: the type the type checker recorded for a node, or nil. -/
abbrev Info (n : Nat) := Expr → Option (Fin n)

variable {n : Nat}

/-- `isUnsafePointer(info, e)`: the type of `e` has the underlying type `unsafe.Pointer`. -/
def isUnsafePointer (g : TypeGraph n) (info : Info n) (e : Expr) : Bool :=
  match info e with
  | some t => g t == .unsafePointer
  | none => false

/-- The checks `cgoBaseType` makes on the function `p` of `*p(v)`: its type is a pointer whose
element has the underlying type `unsafe.Pointer`. -/
def isPointerToUnsafePointer (g : TypeGraph n) (info : Info n) (p : Expr) : Bool :=
  match info p with
  | some t =>
    match g t with
    | .pointer e => g e == .unsafePointer
    | _ => false
  | none => false

/-- `cgoBaseType(info, arg)`: the type of `arg` seen through `unsafe.Pointer(x)` and
`*(*unsafe.Pointer)(unsafe.Pointer(&x))`, both of which stand for `x`. -/
def cgoBaseType (g : TypeGraph n) (info : Info n) : Expr → Option (Fin n)
  | .call fn [x] =>
    if isUnsafePointer g info fn then cgoBaseType g info x else info (.call fn [x])
  | .star (.call p [.call f [.unary .and x]]) =>
    if isPointerToUnsafePointer g info p && isUnsafePointer g info f then cgoBaseType g info x
    else info (.star (.call p [.call f [.unary .and x]]))
  | arg => info arg

/-- `typeOKForCgoCall(t, make(map[types.Type]bool))`. The call always returns
(`typeOKForCgoCall_returns`), so the default is never taken. -/
def cgoTypeOK (g : TypeGraph n) (t : Option (Fin n)) : Bool :=
  ((typeOKForCgoCall g n t fun _ => false).map Prod.fst).getD true

/-- `if conv, ok := arg.(*ast.CallExpr); ok && len(conv.Args) == 1 &&
isUnsafePointer(pass.TypesInfo, conv.Fun) { arg = conv.Args[0] }`. -/
def unsafePointerArg (g : TypeGraph n) (info : Info n) : Expr → Expr
  | .call fn [x] => if isUnsafePointer g info fn then x else .call fn [x]
  | arg => arg

/-- The body of the loop over `call.Args` in `run`: the node a report is made at, `arg.Pos()`,
where `arg` is the operand of `&` in the second check. -/
def checkArg (g : TypeGraph n) (info : Info n) (arg : Expr) : Option Expr :=
  if !cgoTypeOK g (cgoBaseType g info arg) then some arg else
    match unsafePointerArg g info arg with
    | .unary .and x => if !cgoTypeOK g (cgoBaseType g info x) then some (.unary .and x) else none
    | _ => none

/-- `for _, arg := range call.Args`: the loop breaks at the first report. -/
def checkArgs (g : TypeGraph n) (info : Info n) : List Expr → Option Expr
  | [] => none
  | arg :: args =>
    match checkArg g info arg with
    | some r => some r
    | none => checkArgs g info args

/-- `analysisutil.Unparen`: the expression inside any parentheses. -/
def unparen : Expr → Expr
  | .paren x => unparen x
  | e => e

/-- `strings.TrimPrefix(s, prefix)`. -/
def trimPrefix (s pre : String) : String :=
  if pre.data.isPrefixOf s.data then ⟨s.data.drop pre.length⟩ else s

/-- `findCall(fset, stack)`: for a call of `_Cfunc_f`, the nearest enclosing call and `f`. The
stack ends with the call being visited; without an enclosing call the result is nil. -/
def findCall (stack : List Expr) : Option (Expr × String) :=
  match stack.getLast? with
  | some (.call fn _) =>
    match unparen fn with
    | .ident _ id =>
      let name := trimPrefix id "_Cfunc_"
      if name ≠ id then (stack.dropLast.reverse.find? Expr.isCall).map fun outer => (outer, name)
      else none
    | _ => none
  | _ => none

/-- The function `run` hands `inspect.WithStack`, on the way down to a call expression: the node a
report is made at, if any. A call to `C.CBytes` is never checked. -/
def visit (g : TypeGraph n) (info : Info n) (stack : List Expr) : Option Expr :=
  match findCall stack with
  | none => none
  | some (call, name) => if name = "CBytes" then none else checkArgs g info call.args

/-- A type that passes a Go pointer to C: it reaches a channel, map, function or slice through
pointer and array elements and struct fields. -/
def BadType (g : TypeGraph n) (t : Option (Fin n)) : Prop :=
  ∃ t₀ ∈ t, ∃ u, Reaches g t₀ u ∧ (g u).bad = true

theorem cgoTypeOK_eq_false_iff (g : TypeGraph n) (t : Option (Fin n)) :
    cgoTypeOK g t = false ↔ BadType g t := by
  obtain ⟨b, m, h, -⟩ := typeOKForCgoCall_returns g n t (fun _ => false)
    ((Finset.card_le_univ _).trans (Fintype.card_fin n).le)
  rw [cgoTypeOK, h, Option.map_some', Option.getD_some]
  exact typeOKForCgoCall_eq_false_iff g n h

section Check

variable (g : TypeGraph n) (info : Info n)

/-- `run` reports the argument `arg` at `r`: at `arg` when its base type is bad, or else at the
operand of `&` it takes, through at most one `unsafe.Pointer` conversion, when that operand's base
type is bad. -/
def ReportsAt (arg r : Expr) : Prop :=
  (BadType g (cgoBaseType g info arg) ∧ r = arg) ∨
    (¬BadType g (cgoBaseType g info arg) ∧ ∃ x, unsafePointerArg g info arg = .unary .and x ∧
      r = .unary .and x ∧ BadType g (cgoBaseType g info x))

theorem checkArg_eq_some_iff (arg r : Expr) : checkArg g info arg = some r ↔ ReportsAt g info arg r := by
  have hbad := cgoTypeOK_eq_false_iff g (cgoBaseType g info arg)
  unfold checkArg ReportsAt
  cases h : cgoTypeOK g (cgoBaseType g info arg)
  · simp only [hbad.mp h, Bool.not_false, if_true, Option.some.injEq, true_and, not_true_eq_false,
      false_and, or_false]
    exact eq_comm
  · have hok : ¬BadType g (cgoBaseType g info arg) := fun hb => by simp [hbad.mpr hb] at h
    simp only [Bool.not_true, Bool.false_eq_true, if_false, hok, false_and, true_and, false_or]
    split
    · rename_i x hx
      have hx' := cgoTypeOK_eq_false_iff g (cgoBaseType g info x)
      cases h' : cgoTypeOK g (cgoBaseType g info x) <;>
        simp [hx, h', ← hx', eq_comm]
    · rename_i hx
      simp only [reduceCtorEq, false_iff, not_and]
      rintro - ⟨x, hx', -⟩
      exact hx x hx'

theorem checkArg_eq_none_iff (arg : Expr) :
    checkArg g info arg = none ↔ ∀ r, ¬ReportsAt g info arg r := by
  simp only [← checkArg_eq_some_iff]
  cases checkArg g info arg <;> simp

theorem checkArgs_eq_some_iff (args : List Expr) (r : Expr) :
    checkArgs g info args = some r ↔ ∃ pre arg post, args = pre ++ arg :: post ∧
      (∀ a ∈ pre, ∀ r', ¬ReportsAt g info a r') ∧ ReportsAt g info arg r := by
  simp only [← checkArg_eq_none_iff, ← checkArg_eq_some_iff]
  induction args with
  | nil => simp [checkArgs]
  | cons a args ih =>
    cases ha : checkArg g info a with
    | some r₀ =>
      simp only [checkArgs, ha, Option.some.injEq]
      constructor
      · rintro rfl
        exact ⟨[], a, args, rfl, by simp, ha⟩
      · rintro ⟨_ | ⟨p, pre⟩, arg, post, h, hn, hr⟩
        · obtain ⟨rfl, rfl⟩ := List.cons.inj h
          exact Option.some.inj (ha.symm.trans hr)
        · obtain ⟨rfl, rfl⟩ := List.cons.inj h
          simp [ha] at hn
    | none =>
      simp only [checkArgs, ha, ih]
      constructor
      · rintro ⟨pre, arg, post, rfl, hn, hr⟩
        exact ⟨a :: pre, arg, post, rfl, by simpa [ha] using hn, hr⟩
      · rintro ⟨_ | ⟨p, pre⟩, arg, post, h, hn, hr⟩
        · obtain ⟨rfl, rfl⟩ := List.cons.inj h
          rw [ha] at hr
          cases hr
        · obtain ⟨rfl, rfl⟩ := List.cons.inj h
          exact ⟨pre, arg, post, rfl, fun x hx => hn x (List.mem_cons_of_mem _ hx), hr⟩

end Check

theorem trimPrefix_append (pre name : String) : trimPrefix (pre ++ name) pre = name := by
  obtain ⟨p⟩ := pre
  obtain ⟨s⟩ := name
  simp [trimPrefix, String.length, List.isPrefixOf_iff_prefix]

theorem eq_append_trimPrefix {s pre : String} (h : trimPrefix s pre ≠ s) :
    s = pre ++ trimPrefix s pre := by
  unfold trimPrefix at h ⊢
  split at h
  · rename_i hp
    rw [if_pos hp]
    obtain ⟨t, ht⟩ := List.isPrefixOf_iff_prefix.mp hp
    obtain ⟨p⟩ := pre
    obtain ⟨s⟩ := s
    subst ht
    show String.mk (p ++ t) = String.mk (p ++ (p ++ t).drop p.length)
    rw [List.drop_left]
  · exact absurd rfl h

theorem append_ne_self {pre : String} (hp : 0 < pre.length) (name : String) :
    name ≠ pre ++ name := by
  intro h
  have := congrArg String.length h
  rw [String.length_append] at this
  omega

theorem find?_reverse_eq_some {α : Type} {p : α → Bool} {l : List α} {a : α} :
    l.reverse.find? p = some a ↔ ∃ below mid, l = below ++ a :: mid ∧ p a ∧ ∀ x ∈ mid, p x = false := by
  rw [List.find?_eq_some]
  constructor
  · rintro ⟨ha, as, bs, h, has⟩
    refine ⟨bs.reverse, as.reverse, ?_, ha, fun x hx => by simpa using has x (List.mem_reverse.mp hx)⟩
    simpa using congrArg List.reverse h
  · rintro ⟨below, mid, rfl, ha, hmid⟩
    exact ⟨ha, mid.reverse, below.reverse, by simp, fun x hx => by simp [hmid x (List.mem_reverse.mp hx)]⟩

theorem findCall_eq_some_iff (stack : List Expr) (outer : Expr) (name : String) :
    findCall stack = some (outer, name) ↔
      ∃ below mid fn args id, stack = below ++ outer :: mid ++ [.call fn args] ∧
        unparen fn = .ident id ("_Cfunc_" ++ name) ∧ outer.isCall = true ∧
        ∀ e ∈ mid, e.isCall = false := by
  constructor
  · intro h
    rcases List.eq_nil_or_concat stack with rfl | ⟨ys, c, rfl⟩
    · simp [findCall] at h
    rw [List.concat_eq_append] at h ⊢
    unfold findCall at h
    rw [List.getLast?_concat, List.dropLast_concat] at h
    cases c with
    | call fn args =>
      simp only at h
      cases hu : unparen fn with
      | ident id s =>
        simp only [hu] at h
        split_ifs at h with hne
        obtain ⟨a, ha, he⟩ := Option.map_eq_some'.mp h
        obtain ⟨rfl, rfl⟩ := Prod.mk.inj he
        obtain ⟨below, mid, rfl, hc, hmid⟩ := find?_reverse_eq_some.mp ha
        exact ⟨below, mid, fn, args, id, by simp, hu.trans (by rw [← eq_append_trimPrefix hne]), hc,
          hmid⟩
      | _ => rw [hu] at h; cases h
    | _ => cases h
  · rintro ⟨below, mid, fn, args, id, rfl, hu, hc, hmid⟩
    have hf : (below ++ outer :: mid).reverse.find? Expr.isCall = some outer :=
      find?_reverse_eq_some.mpr ⟨below, mid, rfl, hc, hmid⟩
    simp only [findCall, List.append_assoc, List.cons_append, ← List.append_assoc,
      List.getLast?_concat, List.dropLast_concat, hu, trimPrefix_append]
    rw [if_pos (append_ne_self (by decide) name), hf]
    rfl

def sliceStruct : TypeGraph 4
  | 0 => .struct [1]
  | 1 => .slice
  | 2 => .unsafePointer
  | 3 => .pointer 0

def sliceStructInfo : Info 4
  | .ident 1 _ => some 0
  | .unary .and (.ident 1 _) => some 3
  | .other 2 => some 2
  | .call (.other 2) [_] => some 2
  | _ => none

example : (visit sliceStruct sliceStructInfo
    [.call (.other 0) [.call (.other 2) [.unary .and (.ident 1 "s")]], .other 3,
      .call (.ident 4 "_Cfunc_f") [.ident 5 "p0"]]).isSome = true := by
  decide

end Cgocall
end GolangOrg

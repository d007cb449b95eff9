import Mathlib.Algebra.Group.Nat.Basic
import Mathlib.Data.List.Basic
import Mathlib.Data.Nat.Digits
import GolangOrg.GoMap

/-!
# Struct tags and the field numbers they give

A struct field's `protobuf` tag is split at commas, and the first segment that is non-empty and
all decimal digits gives the field number: `strconv.ParseUint`, whose range error is ignored, then
the conversion to the 32-bit `pref.FieldNumber`, which keeps the low 32 bits. A tag that writes a
number below `2^31` in decimal reads back as that number.
-/
namespace GolangOrg
namespace Impl

/-- `pref.FieldNumber`, a 32-bit signed integer. -/
abbrev FieldNumber := BitVec 32

/-- `strings.Trim(s, cutset)`: `s` without its leading and trailing characters of `cutset`. -/
def trim (s cutset : List Char) : List Char :=
  ((s.dropWhile fun c => c ∈ cutset).reverse.dropWhile fun c => c ∈ cutset).reverse

/-- The cutset `"0123456789"`. -/
def decimalDigits : List Char := "0123456789".data

/-- The value of a string of decimal digits. -/
def decimalValue (s : List Char) : Nat := s.foldl (fun v c => 10 * v + (c.toNat - '0'.toNat)) 0

/-- `strconv.ParseUint(s, 10, 64)` on a string of decimal digits, its error dropped: the value, or
the largest `uint64` when the value does not fit (`ErrRange`). -/
def parseUint (s : List Char) : BitVec 64 := BitVec.ofNat 64 (min (decimalValue s) (2 ^ 64 - 1))

/-- `len(s) > 0 && strings.Trim(s, "0123456789") == ""`. -/
def isNumberSegment (s : List Char) : Bool := decide (0 < s.length) && trim s decimalDigits == []

/-- The inner loop over `strings.Split(tag, ",")`: the number `pref.FieldNumber(n)` of the first
segment that passes the test, with `n, _ := strconv.ParseUint(s, 10, 64)`. -/
def tagFieldNumber (tag : String) : Option FieldNumber :=
  ((tag.data.splitOn ',').find? isNumberSegment).map fun s => (parseUint s).setWidth 32


/-- A `reflect.StructField`: its name, its tag as the `key:"value"` pairs `Tag.Get` looks up, and
its index path `Index`. -/
structure StructField where
  name : String
  tag : List (String × String)
  index : List Nat
  deriving DecidableEq

/-- The zero `reflect.StructField`, what a Go map gives for a missing key; its `Index` is nil. -/
def StructField.zero : StructField := ⟨"", [], []⟩

/-- `f.Tag.Get(key)`: the value of the first pair with that key, or the empty string. -/
def StructField.tagGet (f : StructField) (key : String) : String := (GoMap.get f.tag key).getD ""

theorem trim_eq_nil_iff {s cutset : List Char} : trim s cutset = [] ↔ ∀ c ∈ s, c ∈ cutset := by
  unfold trim
  rw [List.reverse_eq_nil_iff, List.dropWhile_eq_nil_iff]
  simp only [List.mem_reverse, decide_eq_true_eq]
  refine ⟨fun h => ?_, fun h c hc => h c ((List.dropWhile_sublist _).subset hc)⟩
  cases hd : s.dropWhile (fun c => decide (c ∈ cutset)) with
  | nil => simpa using List.dropWhile_eq_nil_iff.mp hd
  | cons c cs =>
    have := List.head_dropWhile_not (fun c => decide (c ∈ cutset)) s (by simp [hd])
    simp only [hd, List.head_cons, decide_eq_false_iff_not] at this
    exact absurd (h c (by simp [hd])) this

def firstDigitSegment (tag : String) : Option (List Char) :=
  (tag.data.splitOn ',').find? fun s => s ≠ [] ∧ ∀ c ∈ s, c ∈ decimalDigits

theorem isNumberSegment_eq (s : List Char) :
    isNumberSegment s = decide (s ≠ [] ∧ ∀ c ∈ s, c ∈ decimalDigits) := by
  simp only [isNumberSegment, ← trim_eq_nil_iff, List.length_pos]
  cases trim s decimalDigits <;> simp

theorem setWidth_parseUint (s : List Char) :
    (parseUint s).setWidth 32 = BitVec.ofNat 32 (min (decimalValue s) (2 ^ 64 - 1)) := by
  apply BitVec.eq_of_toNat_eq
  simp only [parseUint, BitVec.toNat_setWidth, BitVec.toNat_ofNat]
  exact Nat.mod_mod_of_dvd _ (Nat.pow_dvd_pow 2 (by decide))

theorem tagFieldNumber_eq (tag : String) :
    tagFieldNumber tag = (firstDigitSegment tag).map
      fun s => BitVec.ofNat 32 (min (decimalValue s) (2 ^ 64 - 1)) := by
  simp only [tagFieldNumber, firstDigitSegment, setWidth_parseUint]
  congr 1
  exact congrArg (List.find? · _) (funext isNumberSegment_eq)

theorem toInt_ofNat_of_lt {v : Nat} (h : v < 2 ^ 31) :
    (BitVec.ofNat 32 (min v (2 ^ 64 - 1))).toInt = v := by
  rw [Nat.min_eq_left (by omega), BitVec.toInt_eq_toNat_cond, BitVec.toNat_ofNat,
    Nat.mod_eq_of_lt (by omega), if_pos (by omega)]

/-- What a tag bound to `k` says, as the code binds it: its first digit segment `s` gives `k` as
the low 32 bits of the value of `s` saturated at the largest `uint64`, and a value below `2^31` is
`k` itself. -/
def NumberedBy (tag : String) (k : FieldNumber) : Prop :=
  ∃ s, firstDigitSegment tag = some s ∧ k = BitVec.ofNat 32 (min (decimalValue s) (2 ^ 64 - 1)) ∧
    (decimalValue s < 2 ^ 31 → k.toInt = decimalValue s)

theorem numberedBy_of_tagFieldNumber {tag : String} {k : FieldNumber}
    (h : tagFieldNumber tag = some k) : NumberedBy tag k := by
  rw [tagFieldNumber_eq] at h
  obtain ⟨s, hs, rfl⟩ := Option.map_eq_some'.mp h
  exact ⟨s, hs, rfl, toInt_ofNat_of_lt⟩

theorem data_intercalateGo (acc s : String) :
    ∀ l : List String,
      (String.intercalate.go acc s l).data = acc.data ++ (l.map fun a => s.data ++ a.data).flatten
  | [] => by simp [String.intercalate.go]
  | a :: l => by simp [String.intercalate.go, data_intercalateGo _ _ l, String.data_append]

theorem intercalate_cons {α : Type} (sep a : List α) :
    ∀ l : List (List α), sep.intercalate (a :: l) = a ++ (l.map fun b => sep ++ b).flatten
  | [] => by simp [List.intercalate]
  | b :: l => by
    have ih := intercalate_cons sep b l
    simp only [List.intercalate, List.intersperse_cons₂, List.flatten_cons] at ih ⊢
    rw [ih]
    simp

theorem data_intercalate (s : String) :
    ∀ l : List String, (String.intercalate s l).data = s.data.intercalate (l.map String.data)
  | [] => rfl
  | a :: l => by
    rw [String.intercalate, data_intercalateGo, List.map_cons, intercalate_cons, List.map_map]
    rfl

theorem digitChar_of_lt_ten :
    ∀ m : Fin 10, (Nat.digitChar m).toNat - '0'.toNat = m ∧ Nat.digitChar m ∈ decimalDigits := by
  decide

theorem toDigitsCore_eq : ∀ (fuel n : Nat) (ds : List Char), ∃ l,
    Nat.toDigitsCore 10 fuel n ds = l ++ ds ∧ (∀ c ∈ l, c ∈ decimalDigits) ∧ (0 < fuel → l ≠ [])
  | 0, _, _ => ⟨[], rfl, by simp, by simp⟩
  | fuel + 1, n, ds => by
    have hd := (digitChar_of_lt_ten ⟨n % 10, Nat.mod_lt _ (by omega)⟩).2
    simp only [Nat.toDigitsCore]
    split_ifs
    · exact ⟨[Nat.digitChar (n % 10)], rfl, by simpa using hd, by simp⟩
    · obtain ⟨l, hl, hc, -⟩ := toDigitsCore_eq fuel (n / 10) (Nat.digitChar (n % 10) :: ds)
      refine ⟨l ++ [Nat.digitChar (n % 10)], by simp [hl], ?_, by simp⟩
      simpa [or_imp, forall_and] using And.intro hc hd

theorem decimalValue_toDigitsCore : ∀ (fuel n : Nat) (ds : List Char), n < fuel →
    decimalValue (Nat.toDigitsCore 10 fuel n ds) =
      ds.foldl (fun v c => 10 * v + (c.toNat - '0'.toNat)) n
  | 0, _, _, h => absurd h (Nat.not_lt_zero _)
  | fuel + 1, n, ds, h => by
    have hd := (digitChar_of_lt_ten ⟨n % 10, Nat.mod_lt _ (by omega)⟩).1
    simp only at hd
    simp only [Nat.toDigitsCore]
    split_ifs with h0
    · simp only [decimalValue, List.foldl_cons, hd]
      congr 1
      omega
    · rw [decimalValue_toDigitsCore fuel _ _ (by omega)]
      simp only [List.foldl_cons, hd]
      congr 1
      omega

/-- A tag that writes a field number `v` in decimal after segments none of which is a number, as
`protobuf:"varint,1,opt,name=f"` does, is read back as a field number of value `v`, for every
`v < 2^31`. -/
theorem tagFieldNumber_intercalate (pre post : List String) (v : Nat)
    (hpre : ∀ s ∈ pre, isNumberSegment s.data = false) (hc : ∀ s ∈ pre ++ post, ',' ∉ s.data)
    (hv : v < 2 ^ 31) :
    ∃ k, tagFieldNumber (String.intercalate "," (pre ++ toString v :: post)) = some k ∧
      k.toInt = v := by
  obtain ⟨l, hl, hdig, hne⟩ := toDigitsCore_eq (v + 1) v []
  have hdata : (toString v).data = l := hl.trans (List.append_nil l)
  have hval : decimalValue l = v := hdata ▸ decimalValue_toDigitsCore (v + 1) v [] v.lt_succ_self
  have hnum : isNumberSegment l = true := by
    simp only [isNumberSegment, Bool.and_eq_true, decide_eq_true_eq, beq_iff_eq, trim_eq_nil_iff]
    exact ⟨List.length_pos.mpr (hne (Nat.succ_pos v)), hdig⟩
  have hsplit : (String.intercalate "," (pre ++ toString v :: post)).data.splitOn ',' =
      pre.map String.data ++ l :: post.map String.data := by
    rw [data_intercalate]
    simp only [List.map_append, List.map_cons, hdata]
    refine List.splitOn_intercalate _ ',' (fun s hs => ?_) (by simp)
    simp only [List.mem_append, List.mem_map, List.mem_cons] at hs
    rcases hs with ⟨s, hs, rfl⟩ | rfl | ⟨s, hs, rfl⟩
    · exact hc s (List.mem_append_left _ hs)
    · exact fun h => absurd (hdig ',' h) (by decide)
    · exact hc s (List.mem_append_right _ hs)
  refine ⟨BitVec.ofNat 32 (min v (2 ^ 64 - 1)), ?_, toInt_ofNat_of_lt hv⟩
  rw [tagFieldNumber, hsplit, List.find?_append, List.find?_eq_none.mpr fun s hs => ?_,
    Option.none_or, List.find?_cons_of_pos _ hnum, Option.map_some', setWidth_parseUint, hval]
  obtain ⟨s, hs', rfl⟩ := List.mem_map.mp hs
  simp [hpre s hs']

theorem tagFieldNumber_intercalate_varint :
    (∀ s ∈ ["varint"], isNumberSegment s.data = false) ∧
      (∀ s ∈ ["varint"] ++ ["opt", "name=optional_bool"], ',' ∉ s.data) ∧ 1 < 2 ^ 31 ∧
      ∃ k, tagFieldNumber (String.intercalate "," (["varint"] ++ toString 1 ::
        ["opt", "name=optional_bool"])) = some k ∧ k.toInt = 1 :=
  have hpre : ∀ s ∈ ["varint"], isNumberSegment s.data = false := by decide
  have hc : ∀ s ∈ ["varint"] ++ ["opt", "name=optional_bool"], ',' ∉ s.data := by decide
  ⟨hpre, hc, by decide, tagFieldNumber_intercalate _ _ 1 hpre hc (by decide)⟩

end Impl
end GolangOrg

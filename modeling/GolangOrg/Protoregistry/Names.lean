import Mathlib.Data.List.Basic

/-! Protobuf names and the dot-splitting loop shared by `Register`, `FindDescriptorByName` and
`RangeFilesByPackage`. Names are Go strings; a dot is one byte in UTF-8, so cutting at the first
dot character is cutting at the first dot byte. A query of `RangeFilesByPackage` may hold empty
segments; it only has to end in something other than a dot. -/
namespace GolangOrg
namespace Protoregistry

/-- `protoreflect.Name`, a single identifier. -/
abbrev Name := String

/-- `protoreflect.FullName`, dot-separated identifiers. -/
abbrev FullName := String

/-- `strings.IndexByte(name, '.')` as a cut: the characters before the first dot, and the ones
after it when there is a dot. -/
def cutDot : List Char → List Char × Option (List Char)
  | [] => ([], none)
  | c :: cs => if c = '.' then ([], some cs) else let r := cutDot cs; (c :: r.1, r.2)

def splitPrefix (name : FullName) : Name × FullName :=
  match cutDot name.data with
  | (pre, some rest) => (⟨pre⟩, ⟨rest⟩)
  | (_, none) => (name, "")

@[simp] theorem cutDot_dot (cs : List Char) : cutDot ('.' :: cs) = ([], some cs) := rfl

theorem cutDot_cons {c : Char} (hc : c ≠ '.') (cs : List Char) :
    cutDot (c :: cs) = (c :: (cutDot cs).1, (cutDot cs).2) := by
  simp [cutDot, hc]

theorem cutDot_some {l pre rest : List Char} (h : cutDot l = (pre, some rest)) :
    l = pre ++ '.' :: rest := by
  induction l generalizing pre with
  | nil => simp [cutDot] at h
  | cons c cs ih =>
    by_cases hc : c = '.'
    · subst hc
      simp only [cutDot_dot, Prod.mk.injEq, Option.some.injEq] at h
      obtain ⟨rfl, rfl⟩ := h
      rfl
    · simp only [cutDot_cons hc, Prod.mk.injEq] at h
      obtain ⟨rfl, h⟩ := h
      exact congrArg (c :: ·) (ih (Prod.ext rfl h))

theorem splitPrefix_length_lt {name : FullName} (h : name ≠ "") :
    (splitPrefix name).2.length < name.length := by
  unfold splitPrefix
  split
  · rename_i pre rest hc
    have := congrArg List.length (cutDot_some hc)
    simp only [List.length_append, List.length_cons] at this
    show rest.length < name.data.length
    omega
  · show 0 < name.data.length
    exact List.length_pos.mpr fun hn => h (String.ext hn)

/-- The `(prefix, pkg)` pairs that `for len(pkg) > 0 { prefix, pkg = splitPrefix(pkg) … }` goes
through, in order. -/
def splits (pkg : FullName) : List (Name × FullName) :=
  if pkg = "" then [] else splitPrefix pkg :: splits (splitPrefix pkg).2
termination_by pkg.length
decreasing_by exact splitPrefix_length_lt ‹_›

/-- The segments the loop visits. -/
def segments (pkg : FullName) : List Name := (splits pkg).map Prod.fst

@[simp] theorem splits_empty : splits "" = [] := by simp [splits]

theorem splits_of_ne {pkg : FullName} (h : pkg ≠ "") :
    splits pkg = splitPrefix pkg :: splits (splitPrefix pkg).2 := by
  rw [splits]; simp [h]

/-- `FullName.Append`. -/
def FullName.append (n : FullName) (s : Name) : FullName :=
  if n = "" then s else n ++ "." ++ s

/-- An identifier as the callers of the registry guarantee it: not empty, no dot. -/
def ValidName (s : Name) : Prop := s.data ≠ [] ∧ '.' ∉ s.data

instance : DecidablePred ValidName := fun s => inferInstanceAs (Decidable (s.data ≠ [] ∧ '.' ∉ s.data))

/-- The dotted name of a list of segments. -/
def joinSegments : List Name → FullName
  | [] => ""
  | [s] => s
  | s :: t :: segs => s ++ "." ++ joinSegments (t :: segs)

theorem cutDot_of_not_mem {l : List Char} (h : '.' ∉ l) : cutDot l = (l, none) := by
  induction l with
  | nil => rfl
  | cons c cs ih =>
    have hc : c ≠ '.' := fun hc => h (hc ▸ List.mem_cons_self _ _)
    simp [cutDot_cons hc, ih (fun hm => h (List.mem_cons_of_mem _ hm))]

theorem cutDot_append_dot {l : List Char} (h : '.' ∉ l) (rest : List Char) :
    cutDot (l ++ '.' :: rest) = (l, some rest) := by
  induction l with
  | nil => rfl
  | cons c cs ih =>
    have hc : c ≠ '.' := fun hc => h (hc ▸ List.mem_cons_self _ _)
    simp [cutDot_cons hc, ih (fun hm => h (List.mem_cons_of_mem _ hm))]

theorem splitPrefix_of_valid {s : Name} (h : ValidName s) : splitPrefix s = (s, "") := by
  simp [splitPrefix, cutDot_of_not_mem h.2]

theorem splitPrefix_append_dot {s : Name} (h : '.' ∉ s.data) (rest : FullName) :
    splitPrefix (s ++ "." ++ rest) = (s, rest) := by
  have hd : (s ++ "." ++ rest).data = s.data ++ '.' :: rest.data := by simp [String.data_append]
  simp [splitPrefix, hd, cutDot_append_dot h]

theorem ne_empty_of_valid {s : Name} (h : ValidName s) : s ≠ "" :=
  fun he => h.1 (by simp [he])

theorem append_dot_ne_empty (s rest : FullName) : s ++ "." ++ rest ≠ "" := by
  intro he
  have := congrArg String.length he
  have hdot : ".".length = 1 := rfl
  simp only [String.length_append, hdot] at this
  simp at this

theorem segments_append_dot {s : Name} (h : '.' ∉ s.data) (rest : FullName) :
    segments (s ++ "." ++ rest) = s :: segments rest := by
  simp [segments, splits_of_ne (append_dot_ne_empty s rest), splitPrefix_append_dot h]

theorem segments_of_valid {s : Name} (h : ValidName s) : segments s = [s] := by
  simp [segments, splits_of_ne (ne_empty_of_valid h), splitPrefix_of_valid h]

theorem segments_joinSegments {segs : List Name} (h : ∀ s ∈ segs, ValidName s) :
    segments (joinSegments segs) = segs := by
  induction segs using joinSegments.induct with
  | case1 => simp [joinSegments, segments]
  | case2 s => simp [joinSegments, segments_of_valid (h s (List.mem_singleton_self s))]
  | case3 s t segs ih =>
    rw [joinSegments, segments_append_dot (h s (List.mem_cons_self _ _)).2,
      ih (fun x hx => h x (List.mem_cons_of_mem _ hx))]

theorem segments_joinSegments_append_dot {segs : List Name} (h : ∀ s ∈ segs, ValidName s)
    (hne : segs ≠ []) (rest : FullName) :
    segments (joinSegments segs ++ "." ++ rest) = segs ++ segments rest := by
  induction segs using joinSegments.induct with
  | case1 => exact absurd rfl hne
  | case2 s => simp [joinSegments, segments_append_dot (h s (List.mem_singleton_self s)).2]
  | case3 s t segs ih =>
    have e : joinSegments (s :: t :: segs) ++ "." ++ rest =
        s ++ "." ++ (joinSegments (t :: segs) ++ "." ++ rest) := by
      simp only [joinSegments, String.append_assoc]
    rw [e, segments_append_dot (h s (List.mem_cons_self _ _)).2,
      ih (fun x hx => h x (List.mem_cons_of_mem _ hx)) (List.cons_ne_nil _ _)]
    rfl

theorem joinSegments_ne_empty {segs : List Name} (h : ∀ s ∈ segs, ValidName s) (hne : segs ≠ []) :
    joinSegments segs ≠ "" := by
  induction segs using joinSegments.induct with
  | case1 => exact absurd rfl hne
  | case2 s => exact ne_empty_of_valid (h s (List.mem_singleton_self s))
  | case3 s t segs => exact append_dot_ne_empty _ _

theorem append_joinSegments {segs : List Name} (h : ∀ s ∈ segs, ValidName s) (t : Name) :
    FullName.append (joinSegments segs) t = joinSegments (segs ++ [t]) := by
  induction segs using joinSegments.induct with
  | case1 => simp [FullName.append, joinSegments]
  | case2 s => simp [FullName.append, joinSegments, ne_empty_of_valid (h s (List.mem_singleton_self s))]
  | case3 s t' segs ih =>
    have ih' := ih (fun x hx => h x (List.mem_cons_of_mem _ hx))
    rw [FullName.append, if_neg (joinSegments_ne_empty (fun x hx => h x (List.mem_cons_of_mem _ hx))
      (List.cons_ne_nil _ _))] at ih'
    rw [FullName.append, if_neg (joinSegments_ne_empty h (List.cons_ne_nil _ _))]
    show _ = s ++ "." ++ joinSegments (t' :: segs ++ [t])
    rw [← ih', joinSegments]
    simp only [String.append_assoc]

theorem cutDot_cases (l : List Char) :
    ('.' ∉ l ∧ cutDot l = (l, none)) ∨
      ∃ pre rest, '.' ∉ pre ∧ l = pre ++ '.' :: rest ∧ cutDot l = (pre, some rest) := by
  induction l with
  | nil => exact .inl ⟨List.not_mem_nil _, rfl⟩
  | cons c cs ih =>
    by_cases hc : c = '.'
    · subst hc; exact .inr ⟨[], cs, List.not_mem_nil _, rfl, rfl⟩
    · rw [cutDot_cons hc]
      rcases ih with ⟨hn, he⟩ | ⟨pre, rest, hn, rfl, he⟩
      · exact .inl ⟨by simp [hn, Ne.symm hc], by rw [he]⟩
      · exact .inr ⟨c :: pre, rest, by simp [hn, Ne.symm hc], rfl, by rw [he]⟩

theorem segments_eq_nil_iff {s : FullName} : segments s = [] ↔ s = "" := by
  by_cases h : s = ""
  · simp [h, segments]
  · simp [h, segments, splits_of_ne h]

theorem joinSegments_cons (s : Name) {segs : List Name} (h : segs ≠ []) :
    joinSegments (s :: segs) = s ++ "." ++ joinSegments segs := by
  cases segs with
  | nil => exact absurd rfl h
  | cons t segs => rfl

theorem joinSegments_append {a b : List Name} (ha : a ≠ []) (hb : b ≠ []) :
    joinSegments (a ++ b) = joinSegments a ++ "." ++ joinSegments b := by
  induction a using joinSegments.induct with
  | case1 => exact absurd rfl ha
  | case2 s => exact joinSegments_cons s hb
  | case3 s t a ih =>
    show joinSegments (s :: (t :: a ++ b)) = (s ++ "." ++ joinSegments (t :: a)) ++ "." ++ _
    have hne : t :: a ++ b ≠ [] := List.cons_ne_nil _ _
    rw [joinSegments_cons s hne, ih (List.cons_ne_nil _ _)]
    simp only [String.append_assoc]

theorem eq_append_dot_of_data {q : FullName} (hq : ∀ l, q.data ≠ l ++ ['.']) {pre rest : List Char}
    (he : q.data = pre ++ '.' :: rest) :
    q = ⟨pre⟩ ++ "." ++ ⟨rest⟩ ∧ (⟨rest⟩ : FullName) ≠ "" ∧ ∀ l, rest ≠ l ++ ['.'] := by
  refine ⟨String.ext (by simp [he, String.data_append]), fun h => hq pre ?_, fun l h => hq (pre ++ '.' :: l) ?_⟩
  · rw [he, show rest = [] from congrArg String.data h]
  · rw [he, h]; simp

theorem splitPrefix_of_cutDot {q : FullName} {pre rest : List Char} (h : cutDot q.data = (pre, some rest)) :
    splitPrefix q = (⟨pre⟩, ⟨rest⟩) := by
  simp [splitPrefix, h]

theorem joinSegments_segments {q : FullName} (hq : ∀ l, q.data ≠ l ++ ['.']) :
    joinSegments (segments q) = q := by
  induction q using splits.induct with
  | case1 => simp [segments, joinSegments]
  | case2 q hne ih =>
    rcases cutDot_cases q.data with ⟨hn, -⟩ | ⟨pre, rest, hn, he, hc⟩
    · rw [segments_of_valid ⟨fun h => hne (String.ext h), hn⟩]; rfl
    · obtain ⟨hq', hr, hr'⟩ := eq_append_dot_of_data hq he
      rw [splitPrefix_of_cutDot hc] at ih
      rw [hq', segments_append_dot hn, joinSegments_cons _ (mt segments_eq_nil_iff.mp hr), ih hr']

theorem segments_append_dot_of_ne {q : FullName} (hne : q ≠ "") (hq : ∀ l, q.data ≠ l ++ ['.'])
    (rest : FullName) : segments (q ++ "." ++ rest) = segments q ++ segments rest := by
  induction q using splits.induct with
  | case1 => exact absurd rfl hne
  | case2 q hne ih =>
    rcases cutDot_cases q.data with ⟨hn, -⟩ | ⟨pre, r, hn, he, hc⟩
    · rw [segments_append_dot hn, segments_of_valid ⟨fun h => hne (String.ext h), hn⟩]; rfl
    · obtain ⟨hq', hr, hr'⟩ := eq_append_dot_of_data hq he
      rw [splitPrefix_of_cutDot hc] at ih
      rw [hq', String.append_assoc, String.append_assoc, segments_append_dot hn,
        ← String.append_assoc, ih hr hr', segments_append_dot hn]
      rfl

end Protoregistry
end GolangOrg

import Mathlib.Data.String.Basic
import GolangOrg.GoMap
import GolangOrg.Protoregistry.Names

/-! The `protoregistry.Files` registry: the package trie `filesByPackage`, the path index
`filesByPath`, `Register`, `FindDescriptorByName`, and the `Range*` iterators. Go pointers to trie
nodes are modelled by the subtrees they point to: every node is created once, stored in one `subs`
slot and never shared, apart from the `notProtoPackage` sentinel, which is a constructor of its
own because Go tells it apart by pointer identity. -/
namespace GolangOrg
namespace Protoregistry

/-- What the registry reads of an enum: its name and the names of its values. -/
structure EnumDescriptor where
  name : Name
  values : List Name
  deriving DecidableEq

/-- What the registry reads of a `protoreflect.FileDescriptor`. `descriptors` lists the
declarations of the file by full name, which `DescriptorByName` looks up. -/
structure FileDescriptor (D : Type) where
  path : String
  package : FullName
  isPlaceholder : Bool
  enums : List EnumDescriptor
  messages : List Name
  extensions : List Name
  services : List Name
  descriptors : List (FullName × D)
  deriving DecidableEq

variable {D : Type}

/-- `fd.DescriptorByName(name)`, with `none` for nil. -/
def FileDescriptor.descriptorByName (fd : FileDescriptor D) (name : FullName) : Option D :=
  GoMap.get fd.descriptors name

/-- The names `rangeTopLevelDeclarations` passes to its callback, in order. -/
def rangeTopLevelDeclarations (fd : FileDescriptor D) : List Name :=
  fd.enums.flatMap (fun e => e.name :: e.values) ++ fd.messages ++ fd.extensions ++ fd.services

/-- A non-nil `*filesByPackage`: the `notProtoPackage` sentinel, or a node holding the files of
one package and the map `subs` from the next segment to a sub-package or to the sentinel. -/
inductive FilesByPackage (D : Type) where
  | notProtoPackage
  | node (files : List (FileDescriptor D)) (subs : List (Name × FilesByPackage D))

namespace FilesByPackage

/-- The sentinel's fields are those of `new(filesByPackage)`, and nothing writes them. -/
def files : FilesByPackage D → List (FileDescriptor D)
  | notProtoPackage => []
  | node fs _ => fs

def subs : FilesByPackage D → List (Name × FilesByPackage D)
  | notProtoPackage => []
  | node _ subs => subs

/-- `root.subs[s] = next`. -/
def setSub : FilesByPackage D → Name → FilesByPackage D → FilesByPackage D
  | notProtoPackage, _, _ => notProtoPackage
  | node fs subs, s, next => node fs (GoMap.set subs s next)

@[simp] theorem files_node (fs : List (FileDescriptor D)) (subs) : (node fs subs).files = fs := rfl
@[simp] theorem subs_node (fs : List (FileDescriptor D)) (subs) : (node fs subs).subs = subs := rfl
@[simp] theorem subs_notProtoPackage : (notProtoPackage : FilesByPackage D).subs = [] := rfl

end FilesByPackage

/-- The registry; `new(Files)` is `Files.empty`. -/
structure Files (D : Type) where
  filesByPackage : FilesByPackage D
  filesByPath : List (String × List (FileDescriptor D))

def Files.empty : Files D := ⟨.node [] [], []⟩

/-- The error `file %q has a name conflict over %v` of `Register`, by its two arguments. -/
structure NameConflict where
  path : String
  name : FullName
  deriving DecidableEq

/-- `strings.HasSuffix`. -/
def hasSuffix (s suffix : String) : Bool := suffix.data.isSuffixOf s.data

/-- `strings.TrimSuffix`. -/
def trimSuffix (s suffix : String) : String :=
  if hasSuffix s suffix then ⟨s.data.take (s.length - suffix.length)⟩ else s

open FilesByPackage

/-- The first `rangeTopLevelDeclarations` pass of `Register`: a name missing from `subs` is bound
to the sentinel, a present one is appended to `conflicts`. -/
def declare (subs : List (Name × FilesByPackage D)) (conflicts : List Name) :
    List Name → List (Name × FilesByPackage D) × List Name
  | [] => (subs, conflicts)
  | s :: names =>
    if (GoMap.get subs s).isNone then declare (GoMap.set subs s notProtoPackage) conflicts names
    else declare subs (conflicts ++ [s]) names

/-- `sort.Slice(conflicts, func(i, j int) bool { return conflicts[i] < conflicts[j] })`. -/
def sortNames (conflicts : List Name) : List Name :=
  conflicts.mergeSort fun a b => decide (a ≤ b)

/-- `i := sort.Search(len(conflicts), func(i int) bool { return conflicts[i] >= s })` followed by
`i < len(conflicts) && conflicts[i] == s`; `sort.Search` returns the first index at which the
predicate holds, or the length when there is none. -/
def hasConflict (conflicts : List Name) (s : Name) : Bool :=
  let i := conflicts.findIdx fun c => decide (s ≤ c)
  decide (i < conflicts.length) && conflicts.getD i "" == s

/-- The second `rangeTopLevelDeclarations` pass: delete every name not among the conflicts. -/
def rollback (conflicts : List Name) (subs : List (Name × FilesByPackage D)) :
    List Name → List (Name × FilesByPackage D)
  | [] => subs
  | s :: names =>
    rollback conflicts (if hasConflict conflicts s then subs else GoMap.delete subs s) names

/-- `Register` at the package node of `file`: bind its top-level names, then either roll back and
report the least conflicting name, or append the file. -/
def declareFile (file : FileDescriptor D) : FilesByPackage D → FilesByPackage D × Option NameConflict
  | notProtoPackage => (notProtoPackage, none)
  | node fs subs =>
    let names := rangeTopLevelDeclarations file
    match declare subs [] names with
    | (subs', []) => (node (fs ++ [file]) subs', none)
    | (subs', conflicts) =>
      let sorted := sortNames conflicts
      (node fs (rollback sorted subs' names),
        some ⟨file.path, FullName.append file.package (sorted.headD "")⟩)

/-- The package walk of `Register` from `root` over the `(prefix, pkg)` pairs still to split,
creating missing nodes, followed by `declareFile` at the package node. -/
def registerAt (file : FileDescriptor D) :
    FilesByPackage D → List (Name × FullName) → FilesByPackage D × Option NameConflict
  | root, [] => declareFile file root
  | root, (seg, pkg) :: walk =>
    match GoMap.get root.subs seg with
    | none => let r := registerAt file (node [] []) walk; (root.setSub seg r.1, r.2)
    | some notProtoPackage =>
      (root, some ⟨file.path, trimSuffix (trimSuffix file.package pkg) "."⟩)
    | some next => let r := registerAt file next walk; (root.setSub seg r.1, r.2)

/-- One iteration of `fileLoop`. -/
def Files.registerFile (r : Files D) (file : FileDescriptor D) : Files D × Option NameConflict :=
  if file.isPlaceholder then (r, none) else
    match registerAt file r.filesByPackage (splits file.package) with
    | (root, some err) => ({ r with filesByPackage := root }, some err)
    | (root, none) =>
      ({ filesByPackage := root,
         filesByPath := GoMap.set r.filesByPath file.path
           ((GoMap.get r.filesByPath file.path).getD [] ++ [file]) }, none)

/-- `r.Register(files...)`: the registry after the call, and the first error. -/
def Files.register (r : Files D) : List (FileDescriptor D) → Files D × Option NameConflict
  | [] => (r, none)
  | file :: files =>
    let s := r.registerFile file
    let t := s.1.register files
    (t.1, s.2.or t.2)

/-- `NewFiles(files...)`. -/
def newFiles (files : List (FileDescriptor D)) : Files D := (Files.empty.register files).1

/-- The loop of `FindDescriptorByName` from `root` over the segments still to visit. -/
def findAt (name : FullName) : FilesByPackage D → List Name → Option D
  | _, [] => none
  | root, seg :: segs =>
    match GoMap.get root.subs seg with
    | none => none
    | some notProtoPackage => root.files.findSome? fun fd => fd.descriptorByName name
    | some next => findAt name next segs

/-- `r.FindDescriptorByName(name)` on a possibly nil `r`; `none` is `(nil, NotFound)`. -/
def Files.findDescriptorByName : Option (Files D) → FullName → Option D
  | none, _ => none
  | some r, name => findAt name r.filesByPackage (segments name)

/-- A callback `f` passed to the `Range*` iterators. A Go closure may keep state, so what it
returns is a function of the files it was called with before, the first argument. It is pure
otherwise: a callback that registers files while the iterator runs is not covered. -/
abbrev Callback (D : Type) := List (FileDescriptor D) → FileDescriptor D → Bool

/-- `for _, fd := range files { if !f(fd) { return false } }`: the calls made so far, and whether
to go on. -/
def rangeList (f : Callback D) :
    List (FileDescriptor D) → List (FileDescriptor D) → List (FileDescriptor D) × Bool
  | [], calls => (calls, true)
  | fd :: fds, calls =>
    if f calls fd then rangeList f fds (calls ++ [fd]) else (calls ++ [fd], false)

/-- `rangeFiles(fs, f)` on a non-nil `fs`: exact matches first, then every sub-package. -/
def rangeFiles (f : Callback D) :
    FilesByPackage D → List (FileDescriptor D) → List (FileDescriptor D) × Bool
  | notProtoPackage, calls => (calls, true)
  | node files subs, calls =>
    match rangeList f files calls with
    | (calls, true) => rangeSubs f subs calls
    | r => r
where
  /-- `for _, fs := range fs.subs { if !rangeFiles(fs, f) { return false } }`. -/
  rangeSubs (f : Callback D) :
      List (Name × FilesByPackage D) → List (FileDescriptor D) → List (FileDescriptor D) × Bool
  | [], calls => (calls, true)
  | (_, fs) :: subs, calls =>
    match rangeFiles f fs calls with
    | (calls, true) => rangeSubs f subs calls
    | r => r

/-- `for len(pkg) > 0 && root != nil { prefix, pkg = splitPrefix(pkg); root = root.subs[prefix] }`. -/
def descend : Option (FilesByPackage D) → List Name → Option (FilesByPackage D)
  | some root, seg :: segs => descend (GoMap.get root.subs seg) segs
  | root, _ => root

/-- `r.RangeFilesByPackage(pkg, f)` on a possibly nil `r`: the files `f` is called with. -/
def Files.rangeFilesByPackage (r : Option (Files D)) (pkg : FullName) (f : Callback D) :
    List (FileDescriptor D) :=
  match r with
  | none => []
  | some r =>
    if hasSuffix pkg "." then [] else
      match descend (some r.filesByPackage) (segments pkg) with
      | none => []
      | some root => (rangeFiles f root []).1

/-- `r.RangeFiles(f)`. -/
def Files.rangeAllFiles (r : Option (Files D)) (f : Callback D) : List (FileDescriptor D) :=
  Files.rangeFilesByPackage r "" f

/-- `r.RangeFilesByPath(path, f)`. -/
def Files.rangeFilesByPath (r : Option (Files D)) (path : String) (f : Callback D) :
    List (FileDescriptor D) :=
  match r with
  | none => []
  | some r => (rangeList f ((GoMap.get r.filesByPath path).getD []) []).1

end Protoregistry
end GolangOrg

import ApiSurface.Import.Record
import ApiSurface.Import.Slots
/-!
# What a package offers, and what its names mean

Two indexes over all files of a package.  The *reexports* say which package entries import a name,
kept under the name as written and as resolved.  The *aliases* say what a bound name may stand for,
and serve where a type checker left a name unresolved.

Both are tables of slots.  Imports under one key are listed as they came, each once, so the lists do
depend on the order in which an index was collected; a query sorts what it finds.  The meanings of a
name are a set in ascending order.
-/

namespace ApiSurface

/-! ## 1. Reexports -/

def ImportKind.rank : ImportKind → Int
  | .module => 0
  | .symbol => 1
  | .wildcard => 2

/-- One import by a package entry. -/
structure ReexportEntry where
  moduleId : String
  origin : String
  asName : Option String
  kind : ImportKind
  deriving DecidableEq

namespace ReexportEntry

def key (e : ReexportEntry) : Key :=
  textKey e.moduleId ++ textKey e.origin ++ optionKey textKey e.asName ++ [e.kind.rank]

/-- Whether the entry imports the name, something that contains it, or everything beside it. -/
def denotes (e : ReexportEntry) (qname : String) : Bool :=
  match e.kind with
  | .wildcard => Text.parentName? qname == some e.origin
  | _ => Text.isWithin e.origin qname

/-- Whether the entry imports just this name. -/
def isExact (e : ReexportEntry) (qname : String) : Bool := e.kind == .symbol && e.origin == qname

end ReexportEntry

/-- A list with one more entry at its end, unless it has that entry. -/
def pushNew (entries : List ReexportEntry) (e : ReexportEntry) : List ReexportEntry :=
  if entries.contains e then entries else entries ++ [e]

theorem pushNew_ne_nil (entries : List ReexportEntry) (e : ReexportEntry) :
    pushNew entries e ≠ [] := by
  unfold pushNew
  split
  · rintro rfl
    contradiction
  · simp

/-- Imports by package entries, listed under keys.  No key is there without an import. -/
structure Reexports where
  slots : Slots (List ReexportEntry)
  filled : ∀ slot ∈ slots.toList, slot.2 ≠ []

namespace Reexports

def empty : Reexports where
  slots := .empty
  filled := fun _ hslot => absurd hslot List.not_mem_nil

instance : EmptyCollection Reexports := ⟨empty⟩

/-- The entries under a key, in the order in which they came. -/
def under (r : Reexports) (key : String) : List ReexportEntry := r.slots.get [] key

def push (r : Reexports) (key : String) (e : ReexportEntry) : Reexports where
  slots := r.slots.change [] key fun entries => pushNew entries e
  filled := Slots.forall_change (· ≠ []) (fun entries => pushNew_ne_nil entries e) r.filled

/-- Records an import under the name as written, if that is another one, and as resolved. -/
def insert (r : Reexports) (moduleId : String) (record : ImportRecord) : Reexports :=
  let entry : ReexportEntry :=
    { moduleId := moduleId, origin := record.origin, asName := record.asName, kind := record.kind }
  let r := if record.writtenKey = record.resolvedKey then r else r.push record.writtenKey entry
  r.push record.resolvedKey entry

/-- Pushes all entries of the second, one key after another. -/
def merge (r s : Reexports) : Reexports :=
  s.slots.toList.foldl (fun r slot => slot.2.foldl (fun r e => r.push slot.1 e) r) r

/-- How many keys there are. -/
def size (r : Reexports) : Nat := r.slots.toList.length

def isEmpty (r : Reexports) : Bool := r.slots.toList.isEmpty

/-- The keys under which an import that denotes the name may stand: the name and what contains it,
its endings, and everything beside each ending. -/
def probes (qname : String) : List String :=
  let parts := Text.components qname
  let starts := (List.range parts.length).map fun i => Text.joinDots (parts.take (i + 1))
  let ends := (List.range parts.length).flatMap fun i =>
    Text.joinDots (parts.drop i) ::
      if i + 1 < parts.length then [Text.joinDots (parts.dropLast.drop i) ++ ".*"] else []
  starts ++ ends

/-- The entries that denote a name, in ascending order. -/
def query (r : Reexports) (qname : String) : List ReexportEntry :=
  let hits := (probes qname).flatMap fun key => (r.under key).filter fun e => e.denotes qname
  (Ascending.ofList hits : Ascending ReexportEntry.key).toList

end Reexports

/-! ## 2. Aliases -/

/-- The sets of qualified names that bound names may stand for. -/
structure Aliases where
  slots : Slots NameSet := .empty

/-- How many leading components two dotted names share. -/
def sharedComponents (a b : String) : Nat :=
  (((Text.components a).zip (Text.components b)).takeWhile fun p => p.1 == p.2).length

/-- The first candidate that shares most with the module. -/
def closest? (module : String) : List String → Option String
  | [] => none
  | c :: more =>
    match closest? module more with
    | none => some c
    | some d => if sharedComponents c module < sharedComponents d module then some d else some c

namespace Aliases

/-- Adds names to those that a name may stand for. -/
def extend (a : Aliases) (name : String) (qnames : NameSet) : Aliases :=
  ⟨a.slots.change .empty name fun known => known.union qnames⟩

def insert (a : Aliases) (name qname : String) : Aliases :=
  ⟨a.slots.change .empty name fun known => known.insert qname⟩

/-- Adds the sets of the second, one name after another. -/
def merge (a b : Aliases) : Aliases :=
  b.slots.toList.foldl (fun a slot => a.extend slot.1 slot.2) a

/-- The qualified names that a name may stand for, in ascending order. -/
def candidates (a : Aliases) (name : String) : List String := (a.slots.get .empty name).toList

/-- The meaning of a name seen from a module: of several candidates the one that shares the most
leading components with the module, and of those the first in order. -/
def resolve? (a : Aliases) (name module : String) : Option String :=
  closest? module (a.candidates name)

end Aliases

/-! ## 3. The index of a package -/

/-- What one file contributes. -/
structure FileScan where
  moduleId : String
  fullname : String
  isAggregator : Bool
  imports : List ImportRecord
  /-- Names and qualified names of classes at module scope. -/
  classes : List (String × String)

def SourceFile.scan (f : SourceFile) : FileScan where
  moduleId := Id.ofPath f.path
  fullname := f.fullname
  isAggregator := f.isAggregator
  imports := f.imports
  classes := (Statement.offeredIn f.body).map fun c => (c.name, c.fullname)

structure PackageIndex where
  reexports : Reexports := .empty
  aliases : Aliases := {}

namespace PackageIndex

/-- Adds what a file contributes.  Only package entries offer what they import. -/
def addScan (ix : PackageIndex) (s : FileScan) : PackageIndex where
  reexports :=
    if s.isAggregator then s.imports.foldl (fun r record => r.insert s.moduleId record) ix.reexports
    else ix.reexports
  aliases :=
    let bound := (s.imports.filter fun r => r.kind != .wildcard).map fun r =>
      (r.boundName, r.origin)
    (bound ++ s.classes).foldl (fun a p => a.insert p.1 p.2) ix.aliases

def merge (a b : PackageIndex) : PackageIndex where
  reexports := a.reexports.merge b.reexports
  aliases := a.aliases.merge b.aliases

def build (scans : List FileScan) : PackageIndex := scans.foldl addScan {}

/-- The ids of the package entries that offer a name, in ascending order. -/
def reexportedBy (ix : PackageIndex) (qname : String) : List String :=
  (Ascending.ofList ((ix.reexports.query qname).map ReexportEntry.moduleId) : NameSet).toList

end PackageIndex

end ApiSurface

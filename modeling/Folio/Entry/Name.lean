import Folio.Error
import Folio.Record.EntryFields

/-!
# Names of entries

Archives separate the components of a name by slashes on every system. A name is normalized before
it is written, and must not lead out of the directory into which an archive is unpacked.

## Main definitions

* `EntryName.withSlashes` — a name with slashes for backslashes
* `EntryName.components` — what stands between the slashes
* `EntryName.fault?` — why a name with slashes cannot be the name of an entry
* `EntryName.normalize` — the name under which an entry is written
* `EntryName.flags` — the general purpose flags for a name
-/

namespace Folio.EntryName

/-- The longest name in bytes, the greatest value of its length field. -/
def maxSize : Nat := 65535

/-- The characters of a name with slashes for backslashes. -/
def withSlashes (name : String) : List Char :=
  name.toList.map fun c => if c = '\\' then '/' else c

/-- What stands between the slashes of a name. -/
def components (name : List Char) : List (List Char) :=
  name.foldr (fun c parts =>
    if c = '/' then [] :: parts
    else
      match parts with
      | part :: parts => (c :: part) :: parts
      | [] => [[c]]) [[]]

/-- Why a name with slashes cannot be the name of an entry. -/
def fault? (name : List Char) : Option NameFault :=
  if name = [] then some .empty
  else if name.head? = some '/' then some .absolute
  else if ['.', '.'] ∈ components name then some .escapes
  else if maxSize < (String.ofList name).utf8ByteSize then some .tooLong
  else none

/-- The name under which an entry is written. -/
def normalize (name : String) : Except Error String :=
  match fault? (withSlashes name) with
  | some fault => .error (.invalidName name fault)
  | none => .ok (String.ofList (withSlashes name))

/-- Whether all characters of a name are ASCII. -/
def isAscii (name : String) : Bool := name.toList.all fun c => c.toNat < 128

/-- The general purpose flags for a name: it is marked as UTF-8 only if it has to be. -/
def flags (name : String) : UInt16 := if isAscii name then 0 else EntryFields.utf8Flag

end Folio.EntryName

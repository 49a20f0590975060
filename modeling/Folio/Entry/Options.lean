import Folio.Calendar.DosTime
import Folio.Method

/-!
# Options of entries

What a user decides for each entry beside its name and its data.

## Main definitions

* `EntryOptions` — method, level, time of modification and permissions
-/

namespace Folio

/-- What a user decides for an entry. -/
structure EntryOptions where
  /-- The compression method. -/
  method : Method
  /-- The level, or `none` for the usual one of the method. -/
  level : Option UInt32
  /-- The time of the last modification, or `none` for the start of the packed times. -/
  modified : Option DosTime
  /-- The permission bits of a Unix file. -/
  permissions : UInt32
deriving DecidableEq, Repr

namespace EntryOptions

/-- The permissions of a file that its owner may write and all may read. -/
def usualPermissions : UInt32 := 0o644

/-- The permission bits of a Unix file. -/
def permissionMask : UInt32 := 0o7777

/-- A method with everything else as usual. -/
def ofMethod (method : Method) : EntryOptions := ⟨method, none, none, usualPermissions⟩

/-- The same options with the permission bits of a mode. -/
def withPermissions (o : EntryOptions) (mode : UInt32) : EntryOptions :=
  { o with permissions := mode &&& permissionMask }

instance : Inhabited EntryOptions := ⟨ofMethod .stored⟩

end EntryOptions

end Folio

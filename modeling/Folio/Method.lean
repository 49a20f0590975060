/-!
# Compression methods

The ways an archive can hold the payload of an entry.

## Main definitions

* `Method` — stored, deflated or compressed with bzip2
* `Method.id`, `Method.ofId?` — the number that stands for a method in an archive
* `Method.label` — the name that a user sees
* `Method.resolve?` — the level at which a method runs when a level is asked of it

## Main results

* `Method.ofId?_id`, `Method.id_of_ofId?` — a number stands for at most one method
-/

namespace Folio

/-- A way to hold the payload of an entry. -/
inductive Method where
  /-- The payload is the data itself. -/
  | stored
  /-- The payload is a deflate stream. -/
  | deflated
  /-- The payload is a bzip2 stream. -/
  | bzip2
deriving DecidableEq, Repr, Inhabited

namespace Method

/-- The number that stands for the method in an archive. -/
def id : Method → UInt16
  | stored => 0
  | deflated => 8
  | bzip2 => 12

/-- The method that a number stands for. -/
def ofId? (id : UInt16) : Option Method :=
  if id = 0 then some stored
  else if id = 8 then some deflated
  else if id = 12 then some bzip2
  else none

/-- The name of the method in entry names, progress lines and messages. -/
def label : Method → String
  | stored => "stored"
  | deflated => "deflated"
  | bzip2 => "bzip2"

/-- The version of the archive format, in tenths, that a reader has to know. -/
def versionNeeded : Method → UInt16
  | stored | deflated => 20
  | bzip2 => 46

/-- The level at which the method runs unless another is asked for. -/
def defaultLevel : Method → Option UInt32
  | stored => none
  | deflated => some 6
  | bzip2 => some 9

/-- Whether the method has the given level. Storing has no levels and ignores what is asked. -/
def Accepts : Method → UInt32 → Prop
  | stored, _ => True
  | deflated, level => level ≤ 9
  | bzip2, level => 1 ≤ level ∧ level ≤ 9

instance (m : Method) (level : UInt32) : Decidable (m.Accepts level) :=
  match m with
  | stored => inferInstanceAs (Decidable True)
  | deflated => inferInstanceAs (Decidable (level ≤ 9))
  | bzip2 => inferInstanceAs (Decidable (1 ≤ level ∧ level ≤ 9))

/-- The level at which the method runs, `none` inside for a method without levels. The whole is
`none` if the method does not have the level that is asked for. -/
def resolve? (m : Method) (requested : Option UInt32) : Option (Option UInt32) :=
  match m, requested with
  | stored, _ => some none
  | _, none => some m.defaultLevel
  | _, some level => if m.Accepts level then some (some level) else none

@[simp] theorem ofId?_id (m : Method) : ofId? m.id = some m := by cases m <;> rfl

theorem id_of_ofId? {id : UInt16} {m : Method} (h : ofId? id = some m) : m.id = id := by
  unfold ofId? at h
  split at h
  · simp_all [Method.id, ← Option.some.inj h]
  · split at h
    · simp_all [Method.id, ← Option.some.inj h]
    · split at h
      · simp_all [Method.id, ← Option.some.inj h]
      · simp at h

end Method

end Folio

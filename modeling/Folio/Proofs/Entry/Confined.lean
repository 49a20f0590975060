import Mathlib.Data.List.Forall2
import Folio.Proofs.Text.Encodings

/-!
# Names that stay below the root

A name that is accepted leads down from the root of an archive and never above it, at whatever
component one stops. It is written with slashes alone, so all spellings of it are one name, and it
is accepted again as it is.

## Main definitions

* `EntryName.Breaks` — a rule for names with slashes is broken
* `EntryName.rules` — the rules in the order in which they are checked
* `EntryName.descend`, `EntryName.walk` — the depth below the root behind a component, and behind
  some components from the root on
* `EntryName.SameSpelling` — names that differ in their separators only

## Main results

* `EntryName.components_eq_splitOn` — components are what the list is split into
* `EntryName.normalize_eq` — a name is refused for the first rule that it breaks
* `EntryName.exists_depth` — without a component that leads upwards no walk leaves the root
* `EntryName.SameSpelling.map_slash_eq` — the spellings of a name are one name with slashes
* `EntryName.normalize_confined` — what is accepted, what becomes of it, and what is refused
-/

namespace Folio.EntryName

/-! ### Rules -/

/-- A separator of either kind becomes a slash. -/
def slash (c : Char) : Char := if c = '\\' then '/' else c

theorem withSlashes_eq (name : String) : withSlashes name = (name.map slash).toList :=
  String.toList_map.symm

/-- A name with slashes breaks a rule. -/
def Breaks (name : String) : NameFault → Prop
  | .empty => name = ""
  | .absolute => name.toList.head? = some '/'
  | .escapes => ['.', '.'] ∈ name.toList.splitOn '/'
  | .tooLong => 65535 < name.utf8ByteSize

instance (name : String) : DecidablePred (Breaks name)
  | .empty => inferInstanceAs (Decidable (name = ""))
  | .absolute => inferInstanceAs (Decidable (name.toList.head? = some '/'))
  | .escapes => inferInstanceAs (Decidable (['.', '.'] ∈ name.toList.splitOn '/'))
  | .tooLong => inferInstanceAs (Decidable (65535 < name.utf8ByteSize))

/-- The rules in the order in which they are checked. -/
def rules : List NameFault := [.empty, .absolute, .escapes, .tooLong]

theorem mem_rules (rule : NameFault) : rule ∈ rules := by
  cases rule <;> decide

/-- The components of a name are what it is split into at its slashes. -/
theorem components_eq_splitOn (name : List Char) : components name = name.splitOn '/' := by
  induction name with
  | nil => rfl
  | cons c name ih =>
    rw [components, List.foldr_cons, ← components, ih]
    simp only [List.splitOn, List.splitOnP_cons_eq_if_modifyHead, beq_iff_eq]
    split
    · rfl
    · cases hparts : List.splitOnP (· == '/') name with
      | nil => exact absurd hparts (List.splitOnP_ne_nil _ _)
      | cons part parts => rfl

theorem find?_cons (name : String) (rule : NameFault) (rest : List NameFault) :
    (rule :: rest).find? (Breaks name ·) =
      if Breaks name rule then some rule else rest.find? (Breaks name ·) := by
  rw [List.find?_cons]
  split
  · next hbreaks => rw [if_pos (of_decide_eq_true hbreaks)]
  · next hkeeps => rw [if_neg (of_decide_eq_false hkeeps)]

/-- The fault of a name with slashes is the first rule that it breaks. -/
theorem fault?_eq (name : String) : fault? name.toList = rules.find? (Breaks name ·) := by
  rw [fault?, components_eq_splitOn, String.ofList_toList, rules, find?_cons, find?_cons,
    find?_cons, find?_cons]
  simp only [String.toList_eq_nil_iff]
  rfl

/-- A name is refused for the first rule that it breaks with slashes, and is otherwise written with
them. -/
theorem normalize_eq (name : String) :
    normalize name =
      match rules.find? (Breaks (name.map slash) ·) with
      | some rule => .error (.invalidName name rule)
      | none => .ok (name.map slash) := by
  rw [normalize, withSlashes_eq, fault?_eq]
  cases rules.find? (Breaks (name.map slash) ·) with
  | some rule => rfl
  | none => exact congrArg Except.ok String.ofList_toList

/-! ### Walks from the root -/

/-- The depth below the root behind a component, or none if the component leads out of the root. An
empty component and a dot stay, two dots go up, and every other component goes down. -/
def descend (depth : Nat) (part : List Char) : Option Nat :=
  if part = [] ∨ part = ['.'] then some depth
  else if part = ['.', '.'] then if depth = 0 then none else some (depth - 1)
  else some (depth + 1)

/-- The depth behind some components from the root on. -/
def walk (parts : List (List Char)) : Option Nat := parts.foldlM descend 0

/-- A component that is not two dots does not go up. -/
theorem descend_of_ne {part : List Char} (h : part ≠ ['.', '.']) (depth : Nat) :
    ∃ deeper, descend depth part = some deeper ∧ depth ≤ deeper := by
  rw [descend]
  split_ifs
  · exact ⟨depth, rfl, Nat.le_refl _⟩
  · exact ⟨depth + 1, rfl, Nat.le_succ _⟩

/-- Without two dots among the components a walk goes down from wherever it starts. -/
theorem exists_depth {parts : List (List Char)} (h : ['.', '.'] ∉ parts) (depth : Nat) :
    ∃ deeper, parts.foldlM descend depth = some deeper ∧ depth ≤ deeper := by
  induction parts generalizing depth with
  | nil => exact ⟨depth, rfl, Nat.le_refl _⟩
  | cons part parts ih =>
    obtain ⟨hpart, hparts⟩ := not_or.mp (mt List.mem_cons.mpr h)
    obtain ⟨deeper, hstep, hle⟩ := descend_of_ne (Ne.symm hpart) depth
    obtain ⟨deepest, hwalk, hle'⟩ := ih hparts deeper
    refine ⟨deepest, ?_, Nat.le_trans hle hle'⟩
    rw [List.foldlM_cons, hstep]
    exact hwalk

/-! ### Spellings -/

theorem slash_ne (c : Char) : slash c ≠ '\\' := by
  rw [slash]
  split_ifs with hc
  · decide
  · exact hc

@[simp] theorem slash_slash (c : Char) : slash (slash c) = slash c :=
  if_neg (slash_ne c)

/-- A separator takes one byte, whichever it is. -/
theorem utf8Size_slash (c : Char) : (slash c).utf8Size = c.utf8Size := by
  rw [slash]
  split_ifs with hc
  · rw [hc]
    decide
  · rfl

theorem map_slash_map_slash (name : String) : (name.map slash).map slash = name.map slash := by
  apply String.toList_inj.mp
  simp [String.toList_map]

theorem utf8ByteSize_map_slash (name : String) :
    (name.map slash).utf8ByteSize = name.utf8ByteSize := by
  have hsize (s : String) : s.utf8ByteSize = (s.toList.map Char.utf8Size).sum := by
    calc s.utf8ByteSize
        = (s.toList.flatMap String.utf8EncodeChar).length := by
          rw [← toUTF8_bytes]
          rfl
      _ = (s.toList.map Char.utf8Size).sum := by
          simp [List.length_flatMap]
  rw [hsize, hsize, String.toList_map, List.map_map]
  exact congrArg List.sum (List.map_congr_left fun c _ => utf8Size_slash c)

/-- Two characters are the same, or both are separators. -/
def SameChar (c c' : Char) : Prop :=
  c = c' ∨ (c = '/' ∨ c = '\\') ∧ (c' = '/' ∨ c' = '\\')

/-- Two names differ in their separators only. -/
def SameSpelling (name name' : String) : Prop :=
  List.Forall₂ SameChar name.toList name'.toList

theorem SameChar.slash_eq {c c' : Char} (h : SameChar c c') : slash c = slash c' := by
  rcases h with rfl | ⟨rfl | rfl, rfl | rfl⟩
  · rfl
  · rfl
  · decide
  · decide
  · rfl

/-- The spellings of a name are one name with slashes. -/
theorem SameSpelling.map_slash_eq {name name' : String} (h : SameSpelling name name') :
    name.map slash = name'.map slash := by
  rw [← String.toList_inj, String.toList_map, String.toList_map, ← List.forall₂_eq_eq_eq,
    List.forall₂_map_left_iff, List.forall₂_map_right_iff]
  exact List.Forall₂.imp (fun _ _ hc => hc.slash_eq) h

/-! ### What is accepted -/

/-- A name is accepted if it keeps all rules with slashes, and is written with them. -/
theorem normalize_eq_ok_iff_keeps {name normal : String} :
    normalize name = .ok normal ↔
      normal = name.map slash ∧ ∀ rule, ¬ Breaks (name.map slash) rule := by
  rw [normalize_eq]
  cases hfault : rules.find? (Breaks (name.map slash) ·) with
  | some rule =>
    have hbreaks : Breaks (name.map slash) rule := 
      of_decide_eq_true (List.find?_some (p := (Breaks (name.map slash) ·)) hfault)
    constructor
    · intro h
      cases h
    · rintro ⟨-, hkeeps⟩
      exact absurd hbreaks (hkeeps rule)
  | none =>
    have hkeeps (rule : NameFault) : ¬ Breaks (name.map slash) rule := fun hbreaks =>
      List.find?_eq_none.mp hfault rule (mem_rules rule) (decide_eq_true hbreaks)
    constructor
    · intro h
      exact ⟨(Except.ok.inj h).symm, hkeeps⟩
    · rintro ⟨rfl, -⟩
      rfl

/-- A name is refused for the first rule that it breaks, and the refusal names it as it was. -/
theorem normalize_eq_error_iff {name : String} {error : Error} :
    normalize name = .error error ↔
      ∃ rule, rules.find? (Breaks (name.map slash) ·) = some rule ∧
        error = .invalidName name rule := by
  rw [normalize_eq]
  cases hfault : rules.find? (Breaks (name.map slash) ·) with
  | some rule => simp [eq_comm]
  | none => simp

/-- Names of entries. A name is accepted if with slashes for backslashes it is not empty, does not
start with a slash, has no component of two dots and is not too long; it is then written with
slashes. Otherwise it is refused for the first of these rules that it breaks.

What is accepted has no backslash and the size it had, and leads nowhere out of the root, at
whichever component one stops. It is accepted as it is, and for every spelling of the name. -/
theorem normalize_confined (name : String) :
    (∀ normal, normalize name = .ok normal ↔
      normal = name.map slash ∧ normal ≠ "" ∧ normal.toList.head? ≠ some '/' ∧
        ['.', '.'] ∉ normal.toList.splitOn '/' ∧ normal.utf8ByteSize ≤ 65535) ∧
    (∀ error, normalize name = .error error ↔
      ∃ rule, rules.find? (Breaks (name.map slash) ·) = some rule ∧
        error = .invalidName name rule) ∧
    ∀ normal, normalize name = .ok normal →
      '\\' ∉ normal.toList ∧
      normal.utf8ByteSize = name.utf8ByteSize ∧
      (∀ walked, walked <+: normal.toList.splitOn '/' → ∃ depth, walk walked = some depth) ∧
      normalize normal = .ok normal ∧
      ∀ other, SameSpelling name other → normalize other = .ok normal := by
  refine ⟨fun normal => ?_, fun error => normalize_eq_error_iff, ?_⟩
  · rw [normalize_eq_ok_iff_keeps]
    constructor
    · rintro ⟨rfl, hkeeps⟩
      exact ⟨rfl, hkeeps .empty, hkeeps .absolute, hkeeps .escapes, not_lt.mp (hkeeps .tooLong)⟩
    · rintro ⟨rfl, hempty, habsolute, hescapes, hsize⟩
      refine ⟨rfl, fun rule => ?_⟩
      cases rule with
      | empty => exact hempty
      | absolute => exact habsolute
      | escapes => exact hescapes
      | tooLong => exact not_lt.mpr hsize
  · intro normal hnormal
    obtain ⟨rfl, hkeeps⟩ := normalize_eq_ok_iff_keeps.mp hnormal
    refine ⟨?_, utf8ByteSize_map_slash name, ?_, ?_, ?_⟩
    · rw [String.toList_map]
      intro hmem
      obtain ⟨c, -, hc⟩ := List.mem_map.mp hmem
      exact slash_ne c hc
    · intro walked hwalked
      have hescapes : ['.', '.'] ∉ walked := fun hmem => hkeeps .escapes (hwalked.subset hmem)
      obtain ⟨depth, hwalk, -⟩ := exists_depth hescapes 0
      exact ⟨depth, hwalk⟩
    · rw [normalize_eq_ok_iff_keeps, map_slash_map_slash]
      exact ⟨rfl, hkeeps⟩
    · intro other hother
      rw [normalize_eq_ok_iff_keeps, ← hother.map_slash_eq]
      exact ⟨rfl, hkeeps⟩

/-- Separators of both kinds around a character of two bytes, and two dots after a backslash. -/
theorem normalize_confined_mixed :
    normalize "d\\ä/x" = .ok "d/ä/x" ∧ SameSpelling "d\\ä/x" "d/ä\\x" ∧
      normalize "d/ä\\x" = .ok "d/ä/x" ∧
      (∃ depth, walk [['d'], ['ä']] = some depth) ∧
      normalize "d\\..\\/" = .error (.invalidName "d\\..\\/" .escapes) := by
  obtain ⟨hok, -, hconfined⟩ := normalize_confined "d\\ä/x"
  have hnormal : normalize "d\\ä/x" = .ok "d/ä/x" := (hok _).mpr (by decide +kernel)
  have hspelling : SameSpelling "d\\ä/x" "d/ä\\x" := by
    unfold SameSpelling SameChar
    decide +kernel
  obtain ⟨-, -, hwalk, -, hspellings⟩ := hconfined _ hnormal
  obtain ⟨-, herror, -⟩ := normalize_confined "d\\..\\/"
  exact ⟨hnormal, hspelling, hspellings _ hspelling, hwalk _ (by decide +kernel),
    (herror _).mpr ⟨.escapes, by decide +kernel, rfl⟩⟩

end Folio.EntryName

import Folio.FileTree.Basic
import Folio.Proofs.Bytes.Exact

/-!
# Files in their places

A file that is put in its place changes the node at one path and nothing else. Which path that is
depends on the directories alone, and no directory is lost, so afterwards the text still leads there.

## Main results

* `FileTree.find?_insert_self`, `FileTree.find?_insert_of_ne` — the nodes of a tree with a new one
* `FileTree.followFrom_of_directories` — a way leads through directories only
* `FileTree.follow_of_destination` — a text leads to the place at which it puts a file
* `FileTree.destination_insert` — a file that nothing leads through does not matter
-/

namespace Folio

namespace FileTree

variable {t t' : FileTree} {path place reached : Path} {node : Node} {text name : String}
  {parts : List String}

/-! ### Nodes -/

@[simp] theorem find?_nil (t : FileTree) : t.find? [] = some .directory := if_pos rfl

theorem ne_nil_of_find? (h : t.find? path ≠ some .directory) : path ≠ [] := by
  rintro rfl
  exact h t.find?_nil

theorem find?_insert_self (h : path ≠ []) : (t.insert path node).find? path = some node := by
  rw [find?, if_neg h]
  exact List.lookup_cons_self

theorem find?_erase_of_ne (h : place ≠ path) : (t.erase path).find? place = t.find? place := by
  obtain ⟨nodes⟩ := t
  simp only [find?, erase]
  congr 1
  induction nodes with
  | nil => rfl
  | cons entry nodes ih =>
    obtain ⟨first, node⟩ := entry
    by_cases hpath : first = path
    · have hne : (place == first) = false := beq_eq_false_iff_ne.mpr (hpath ▸ h)
      rw [List.filter_cons_of_neg (by simpa using hpath), ih, List.lookup_cons, hne]
    · rw [List.filter_cons_of_pos (by simpa using hpath), List.lookup_cons, List.lookup_cons, ih]

theorem find?_insert_of_ne (h : place ≠ path) :
    (t.insert path node).find? place = t.find? place := by
  rw [← find?_erase_of_ne (t := t) h]
  simp only [find?, insert]
  rw [List.lookup_cons, beq_eq_false_iff_ne.mpr h]

theorem erase_insert (t : FileTree) (path : Path) (node : Node) :
    (t.insert path node).erase path = t.erase path := by
  simp [insert, erase]

/-- Of two nodes at one path the later one counts. -/
theorem insert_insert (t : FileTree) (path : Path) (node node' : Node) :
    (t.insert path node).insert path node' = t.insert path node' := by
  rw [insert, erase_insert]
  rfl

/-- What is not there need not be taken away. -/
theorem erase_of_find?_eq_none (h : t.find? path = none) : t.erase path = t := by
  obtain ⟨nodes⟩ := t
  have hne : path ≠ [] := ne_nil_of_find? (by rw [h]; exact nofun)
  rw [find?, if_neg hne, List.lookup_eq_none_iff] at h
  rw [erase, List.filter_eq_self.mpr]
  intro entry hentry
  have hpath := h entry hentry
  rw [bne_iff_ne] at hpath
  exact decide_eq_true (Ne.symm hpath)

theorem erase_insert_of_ne (h : place ≠ path) :
    (t.insert path node).erase place = (t.erase place).insert path node := by
  simp only [insert, erase]
  rw [List.filter_cons_of_pos (by simpa using Ne.symm h), List.filter_filter, List.filter_filter]
  congr 2
  exact List.filter_congr fun _ _ => Bool.and_comm _ _

/-! ### Following -/

theorem followFrom_cons_eq_ok_iff {component : String} :
    t.followFrom path (component :: parts) = .ok reached ↔
      t.find? path = some .directory ∧
        ∃ next, enter path component = .ok next ∧ t.followFrom next parts = .ok reached := by
  rw [followFrom]
  rcases hnode : t.find? path with _ | _ | file
  · simp
  · simp [bind_eq_ok_iff]
  · simp

/-- A way leads through directories only, so it leads there in any tree that has them. -/
theorem followFrom_of_directories
    (keeps : ∀ place, t.find? place = some .directory → t'.find? place = some .directory)
    (h : t.followFrom path parts = .ok reached) :
    t'.followFrom path parts = .ok reached := by
  induction parts generalizing path with
  | nil => exact h
  | cons component rest ih =>
    rw [followFrom_cons_eq_ok_iff] at h ⊢
    obtain ⟨hnode, next, henter, hrest⟩ := h
    exact ⟨keeps path hnode, next, henter, ih hrest⟩

theorem followFrom_append_of_ok {middle : Path} {before after : List String}
    (h : t.followFrom path before = .ok middle)
    (h' : t.followFrom middle after = .ok reached) :
    t.followFrom path (before ++ after) = .ok reached := by
  induction before generalizing path with
  | nil =>
    obtain rfl := Except.ok.inj h
    exact h'
  | cons component rest ih =>
    rw [List.cons_append, followFrom_cons_eq_ok_iff]
    obtain ⟨hnode, next, henter, hrest⟩ := followFrom_cons_eq_ok_iff.mp h
    exact ⟨hnode, next, henter, ih hrest⟩

/-- A component that is not this name leads to no path with the name. -/
theorem not_mem_of_enter {component : String} (apart : name ∉ path) (hne : name ≠ component)
    (h : enter path component = .ok reached) : name ∉ reached := by
  simp only [enter] at h
  split at h
  · cases h
    exact apart
  · split at h
    · cases h
      exact fun hmem => apart (List.mem_of_mem_dropLast hmem)
    · split at h
      · cases h
      · cases h
        simpa using ⟨apart, hne⟩

/-- A name that is no component is no part of any path on the way. -/
theorem followFrom_congr (same : ∀ place, name ∉ place → t'.find? place = t.find? place)
    (apart : name ∉ path) (unnamed : name ∉ parts) :
    t'.followFrom path parts = t.followFrom path parts := by
  induction parts generalizing path with
  | nil => rfl
  | cons component rest ih =>
    obtain ⟨hne, hrest⟩ := not_or.mp (mt List.mem_cons.mpr unnamed)
    rw [followFrom, followFrom, same path apart]
    cases henter : enter path component with
    | error fault => rfl
    | ok next =>
      simp only [bind, Except.bind]
      rw [ih (not_mem_of_enter apart hne henter) hrest]

theorem not_mem_of_followFrom (apart : name ∉ path) (unnamed : name ∉ parts)
    (h : t.followFrom path parts = .ok reached) : name ∉ reached := by
  induction parts generalizing path with
  | nil =>
    obtain rfl := Except.ok.inj h
    exact apart
  | cons component rest ih =>
    obtain ⟨hne, hrest⟩ := not_or.mp (mt List.mem_cons.mpr unnamed)
    obtain ⟨-, next, henter, hreached⟩ := followFrom_cons_eq_ok_iff.mp h
    exact ih (not_mem_of_enter apart hne henter) hrest hreached

/-! ### Components -/

theorem intercalate_append_nil {x : Char} {front : List (List Char)} (h : front ≠ []) :
    [x] <:+ [x].intercalate (front ++ [[]]) := by
  induction front with
  | nil => exact absurd rfl h
  | cons first rest ih =>
    rw [List.cons_append, List.intercalate_cons_of_ne_nil (by simp)]
    cases rest with
    | nil => simp
    | cons second rest => exact (ih (by simp)).trans (List.suffix_append _ _)

theorem getLast?_components_ne (h : ¬ text.endsWith "/") (hne : text ≠ "") :
    (components text).getLast? ≠ some "" := by
  intro hlast
  obtain ⟨before, hsplit⟩ := List.getLast?_eq_some_iff.mp hlast
  rw [components, List.map_eq_append_iff] at hsplit
  obtain ⟨front, back, hsplit, -, hback⟩ := hsplit
  obtain ⟨last, rfl, hlast⟩ := List.map_eq_singleton_iff.mp hback
  obtain rfl : last = [] := by simpa using hlast
  -- Put together again, the text is empty or ends with the slash before the last component.
  have htext : ['/'].intercalate (text.toList.splitOn '/') = text.toList :=
    List.intercalate_splitOn '/'
  rw [hsplit] at htext
  cases front with
  | nil => exact hne (String.toList_inj.mp htext.symm)
  | cons first rest =>
    apply h
    rw [← String.endsWith_toSlice, String.Slice.endsWith_string_iff, String.copy_toSlice, ← htext]
    exact intercalate_append_nil (by simp)

/-- A text that does not end with a slash is split before its last component. -/
theorem components_eq (h : ¬ text.endsWith "/") (hne : text ≠ "") :
    components text = (splitLast text).1 ++ [(splitLast text).2] := by
  have hlast := getLast?_components_ne h hne
  cases hparts : (components text).reverse with
  | nil =>
    have hempty : components text = [] := List.reverse_eq_nil_iff.mp hparts
    simp [components, List.splitOn_ne_nil] at hempty
  | cons last before =>
    have hcomponents : components text = before.reverse ++ [last] := by
      rw [← List.reverse_reverse (components text), hparts, List.reverse_cons]
    have hkeep : ¬ (last == "") = true := by
      rw [hcomponents, List.getLast?_concat] at hlast
      simpa using hlast
    have hdrop : (last :: before).dropWhile (· == "") = last :: before :=
      List.dropWhile_cons_of_neg hkeep
    rw [splitLast, hparts]
    simp only [hdrop]
    exact hcomponents

/-- What a text is split into are some of its components. -/
theorem not_mem_splitLast (unnamed : name ∉ components text) (hne : name ≠ "") :
    name ∉ (splitLast text).1 ∧ name ≠ (splitLast text).2 := by
  have hsub : ∀ part ∈ (components text).reverse.dropWhile (· == ""), part ≠ name := by
    intro part hpart
    have hmem := List.mem_reverse.mp ((List.dropWhile_suffix _).subset hpart)
    rintro rfl
    exact unnamed hmem
  rw [splitLast]
  cases hparts : (components text).reverse.dropWhile (· == "") with
  | nil => simpa using hne
  | cons last before =>
    rw [hparts] at hsub
    refine ⟨fun hmem => ?_, fun hlast => hsub last List.mem_cons_self hlast.symm⟩
    exact hsub name (List.mem_cons_of_mem _ (List.mem_reverse.mp hmem)) rfl

/-! ### Places -/

/-- A text leads to the place at which it puts a file, whatever is there now. -/
theorem follow_of_destination (h : t.destination text = .ok place) :
    t.follow text = .ok place ∧ t.find? place ≠ some .directory := by
  simp only [destination, unless_eq_ok_iff, bind_eq_ok_iff] at h
  obtain ⟨hzero, hne, hshort, path, hpath, h⟩ := h
  split at h
  · cases h
  · cases h
  · next hdirectory =>
    simp only [unless_eq_ok_iff] at h
    obtain ⟨hname, hlong, hslash, h⟩ := h
    split at h
    · cases h
    · next hplace =>
      obtain rfl := Except.ok.inj h
      refine ⟨?_, hplace⟩
      have henter : enter path (splitLast text).2 = .ok (path ++ [(splitLast text).2]) := by
        obtain ⟨hstays, hup⟩ := not_or.mp (mt Bool.or_eq_true_iff.mpr hname)
        rw [enter, if_neg hstays, if_neg (by simpa using hup), if_neg hlong]
      rw [follow, if_neg hzero, if_neg hne, if_neg hshort, components_eq hslash hne]
      apply followFrom_append_of_ok hpath
      exact followFrom_cons_eq_ok_iff.mpr ⟨hdirectory, _, henter, rfl⟩

theorem not_mem_of_follow (unnamed : name ∉ components text) (h : t.follow text = .ok place) :
    name ∉ place := by
  simp only [follow] at h
  split at h
  · cases h
  · split at h
    · cases h
    · split at h
      · cases h
      · exact not_mem_of_followFrom List.not_mem_nil unnamed h

theorem not_mem_of_destination (unnamed : name ∉ components text)
    (h : t.destination text = .ok place) : name ∉ place :=
  not_mem_of_follow unnamed (follow_of_destination h).1

/-- A file in the place of what is no directory leaves the ways as they are. -/
theorem follow_insert (hplace : t.find? place ≠ some .directory)
    (h : t.follow text = .ok reached) : (t.insert place node).follow text = .ok reached := by
  simp only [follow] at h ⊢
  split at h
  · cases h
  · rw [if_neg ‹_›]
    split at h
    · cases h
    · rw [if_neg ‹_›]
      split at h
      · cases h
      · rw [if_neg ‹_›]
        apply followFrom_of_directories ?_ h
        intro other hother
        have hne : other ≠ place := by
          rintro rfl
          exact hplace hother
        rwa [find?_insert_of_ne hne]

theorem file_eq_ok_iff {file : File} :
    t.file text = .ok file ↔ ∃ path, t.follow text = .ok path ∧ t.find? path = some (.file file) := by
  simp only [FileTree.file, FileTree.node, bind_eq_ok_iff]
  constructor
  · rintro ⟨node, ⟨path, hpath, hnode⟩, hfile⟩
    refine ⟨path, hpath, ?_⟩
    cases hfind : t.find? path with
    | none =>
      rw [hfind] at hnode
      cases hnode
    | some found =>
      rw [hfind] at hnode
      obtain rfl := Except.ok.inj hnode
      cases found with
      | directory => cases hfile
      | file found => rw [Except.ok.inj hfile]
  · rintro ⟨path, hpath, hfind⟩
    exact ⟨.file file, ⟨path, hpath, by rw [hfind]; rfl⟩, rfl⟩

/-- What is put in its place is found there. -/
theorem file_insert_self {file : File} (h : t.follow text = .ok place)
    (hplace : t.find? place ≠ some .directory) :
    (t.insert place (.file file)).file text = .ok file := by
  apply file_eq_ok_iff.mpr
  exact ⟨place, follow_insert hplace h, find?_insert_self (ne_nil_of_find? hplace)⟩

/-- A text that leads elsewhere leads to the same file as before. -/
theorem file_insert_of_ne {file : File} (hplace : t.find? place ≠ some .directory)
    (apart : t.follow text ≠ .ok place) (h : t.file text = .ok file) :
    (t.insert place node).file text = .ok file := by
  obtain ⟨path, hpath, hfile⟩ := file_eq_ok_iff.mp h
  have hne : path ≠ place := by
    rintro rfl
    exact apart hpath
  apply file_eq_ok_iff.mpr
  exact ⟨path, follow_insert hplace hpath, (find?_insert_of_ne hne).trans hfile⟩

/-! ### Files that nothing leads through -/

theorem find?_insert_of_not_mem (hname : name ∈ place) (apart : name ∉ path) :
    (t.insert place node).find? path = t.find? path := by
  apply find?_insert_of_ne
  rintro rfl
  exact apart hname

/-- A file does not matter for what is read if its name is no component on the way. -/
theorem file_insert_of_unnamed (hname : name ∈ place) (unnamed : name ∉ components text) :
    (t.insert place node).file text = t.file text := by
  have hfollow : (t.insert place node).follow text = t.follow text := by
    simp only [follow]
    rw [followFrom_congr (fun _ => find?_insert_of_not_mem hname) List.not_mem_nil unnamed]
  simp only [FileTree.file, FileTree.node, hfollow]
  cases hpath : t.follow text with
  | error fault => rfl
  | ok path =>
    have hapart : name ∉ path := not_mem_of_follow unnamed hpath
    simp only [bind, Except.bind, find?_insert_of_not_mem hname hapart]

/-- Nor does it matter for where another file is put. -/
theorem destination_insert (hname : name ∈ place) (unnamed : name ∉ components text)
    (hne : name ≠ "") : (t.insert place node).destination text = t.destination text := by
  obtain ⟨hbefore, hlast⟩ := not_mem_splitLast unnamed hne
  simp only [destination]
  rw [followFrom_congr (fun _ => find?_insert_of_not_mem hname) List.not_mem_nil hbefore]
  cases hpath : t.followFrom [] (splitLast text).1 with
  | error fault => rfl
  | ok path =>
    have hapart := not_mem_of_followFrom List.not_mem_nil hbefore hpath
    have happend : name ∉ path ++ [(splitLast text).2] := by simpa using ⟨hapart, hlast⟩
    simp only [bind, Except.bind, find?_insert_of_not_mem hname hapart,
      find?_insert_of_not_mem hname happend]

end FileTree

end Folio

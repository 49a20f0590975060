import Mathlib.Algebra.Order.BigOperators.Group.List
import Mathlib.Algebra.Order.Group.Nat
import Folio.Proofs.Fixture.Progress
import Folio.Proofs.Fixture.Recognition
import Folio.Proofs.Writer.OnDisk
import Folio.Proofs.Writer.Verdict

/-!
# Which fixtures are built

The entries of a plan are added until one of them is refused. In the first repetition a method that
comes again is refused for the name of its entry, and a level that is none of the method's for
itself. After that all names are new and all levels fit, and only the number of entries can be too
large. So the methods alone tell whether a fixture is built, as long as nothing in its archive
reaches 4 GiB.

## Main definitions

* `Writable` — entries that can stand in one archive, as far as sizes do not matter
* `Sound` — a list of methods that each repetition can go through
* `BelowLimit` — nothing in the archive of a fixture reaches 4 GiB
* `Next` — a planned entry behind entries that can stand in one archive

## Main results

* `run_of_writable` — entries that can stand in one archive are added
* `build_of_writable`, `build_of_refused` — the fixtures that are built, and those that are not
* `build_of_large` — a larger document makes no archive
* `build_decided` — which fixtures are built, and what is wrong with the others
-/

namespace Folio.Fixture

open Writer (unboundedRun)

variable {c : Config} {document : File} {e : PlannedEntry} {before after entries : List PlannedEntry}

/-! ### Entries in one archive -/

theorem nodup_map_append_singleton_iff {α β : Type} {f : α → β} {l : List α} {x : α} :
    ((l ++ [x]).map f).Nodup ↔ f x ∉ l.map f ∧ (l.map f).Nodup := by
  rw [List.map_append, List.map_singleton, ← List.concat_eq_append, List.nodup_concat]

/-- Entries that can stand in one archive, as far as sizes do not matter. -/
structure Writable (entries : List PlannedEntry) : Prop where
  distinct : (entries.map (·.name)).Nodup
  leveled : ∀ e ∈ entries, e.options.LevelFits
  few : entries.length ≤ 65534

theorem Writable.of_prefix (h : Writable entries) (hstart : before <+: entries) :
    Writable before where
  distinct := h.distinct.sublist (hstart.map _).sublist
  leveled e he := h.leveled e (hstart.subset he)
  few := hstart.length_le.trans h.few

/-- Methods that a repetition can go through: none of them comes twice, and each has its level. -/
structure Sound (methods : List EntryOptions) : Prop where
  distinct : (methods.map (·.method)).Nodup
  leveled : ∀ o ∈ methods, o.LevelFits

theorem sound_nil : Sound [] := ⟨List.nodup_nil, fun _ h => absurd h List.not_mem_nil⟩

theorem Sound.length_le {methods : List EntryOptions} (h : Sound methods) : methods.length ≤ 3 := by
  have hsubset : methods.map (·.method) ⊆ [.stored, .deflated, .bzip2] := by
    intro m _
    cases m <;> simp
  simpa using (List.subperm_of_subset h.distinct hsubset).length_le

/-- Repetitions of sound methods can stand in one archive up to any entry that is not too late. -/
theorem Sound.writable (h : Sound c.methods) (hstart : entries <+: plan c)
    (few : entries.length ≤ 65534) : Writable entries where
  distinct := (nodup_names_plan_iff.mpr (.inr h.distinct)).sublist (hstart.map _).sublist
  leveled e he := by
    obtain ⟨index, -, o, ho, rfl⟩ := exists_of_mem_plan (hstart.subset he)
    exact h.leveled o ho
  few := few

/-- A plan begins with its first repetition. -/
theorem map_of_zero_prefix_plan (h : c.iterations ≠ 0) :
    c.methods.map (PlannedEntry.of 0) <+: plan c := by
  obtain ⟨n, hn⟩ := Nat.exists_eq_succ_of_ne_zero h
  rw [plan, hn, List.range_succ_eq_map, List.flatMap_cons]
  exact List.prefix_append _ _

/-- Sound methods are one repetition. -/
theorem Sound.writable_map {methods : List EntryOptions} (h : Sound methods) :
    Writable (methods.map (PlannedEntry.of 0)) := by
  have hstart := map_of_zero_prefix_plan (c := ⟨.bundled, "", 1, methods⟩) Nat.one_ne_zero
  refine Sound.writable h hstart ?_
  rw [List.length_map]
  exact h.length_le.trans (by decide)

/-- Methods that are not sound have a first one that is at fault. -/
theorem exists_first_unsound {methods : List EntryOptions} (h : ¬ Sound methods) :
    ∃ before o after, methods = before ++ o :: after ∧ Sound before ∧ ¬ Sound (before ++ [o]) := by
  -- By induction from the end: if all but the last method are sound, it is the last one.
  induction methods using List.reverseRecOn with
  | nil => exact absurd sound_nil h
  | append_singleton methods o ih =>
    by_cases sound : Sound methods
    · exact ⟨methods, o, [], rfl, sound, h⟩
    · obtain ⟨before, p, after, rfl, hbefore, hfault⟩ := ih sound
      exact ⟨before, p, after ++ [o], by simp, hbefore, hfault⟩

/-- One more method is at fault if it comes again or has not its level. -/
theorem Sound.append {before : List EntryOptions} {o : EntryOptions} (h : Sound before)
    (fresh : o.method ∉ before.map (·.method)) (fits : o.LevelFits) : Sound (before ++ [o]) where
  distinct := nodup_map_append_singleton_iff.mpr ⟨fresh, h.distinct⟩
  leveled p hp := by
    rcases List.mem_append.mp hp with hbefore | hlast
    · exact h.leveled p hbefore
    · rw [List.mem_singleton.mp hlast]
      exact fits

/-- What is to blame for a fixture that cannot be built: the first method that comes again or has
not its level, or the number of entries if there is no such method. -/
inductive Blames (c : Config) : Error → Prop where
  | taken {before after : List EntryOptions} {o : EntryOptions}
      (split : c.methods = before ++ o :: after) (sound : Sound before)
      (taken : o.method ∈ before.map (·.method)) :
      Blames c (.duplicateEntry (entryName o.method 0))
  | level {before after : List EntryOptions} {o : EntryOptions} {level : UInt32}
      (split : c.methods = before ++ o :: after) (sound : Sound before)
      (fresh : o.method ∉ before.map (·.method)) (asked : o.level = some level)
      (unfit : ¬ o.LevelFits) : Blames c (.invalidLevel o.method level)
  | count (sound : Sound c.methods) (many : 65534 < c.iterations * c.methods.length) :
      Blames c (.capacity .entries)

/-! ### Planned entries -/

/-- The repetition of an entry that can stand in an archive is a 64-bit word. -/
theorem index_lt_of_getElem? {p : Nat} (h : (plan c)[p]? = some e) (few : p ≤ 65534) :
    e.index < 2 ^ 64 := by
  have hle := Nat.div_le_self p c.methods.length
  rw [index_of_getElem?_plan h]
  omega

/-- Planned entries, as they are asked of a writer. -/
def additionsOf [LocalTime] (document : File) (entries : List PlannedEntry) : List Addition :=
  entries.map (·.addition document.contents (.ofTimestamp document.modified))

/-- A planned entry behind entries that can stand in one archive. -/
structure Next (c : Config) (before : List PlannedEntry) (e : PlannedEntry) : Prop where
  planned : before ++ [e] <+: plan c
  writable : Writable before

namespace Next

variable (h : Next c before e)

include h

theorem mem_plan : e ∈ plan c := h.planned.subset (by simp)

theorem before_planned : before <+: plan c := (List.prefix_append _ _).trans h.planned

theorem named : ∀ b ∈ before, b.Named := fun _ hb => named_of_mem_plan (h.before_planned.subset hb)

theorem index_lt : e.index < 2 ^ 64 := by
  obtain ⟨after, hafter⟩ := h.planned
  have hget : (plan c)[before.length]? = some e := by
    rw [← hafter]
    simp
  exact index_lt_of_getElem? hget h.writable.few

end Next

section Additions

variable (named : e.Named) (data : ByteArray) (modified : DosTime)

include named

theorem entryName_addition : (e.addition data modified).entryName = e.name := by
  have hname : (e.addition data modified).name = entryName e.options.method e.index := named
  rw [Addition.entryName, hname, withSlashes_entryName, String.ofList_toList, named]

theorem nameFault?_addition (index : e.index < 2 ^ 64) :
    (e.addition data modified).nameFault? = none := by
  have hname : (e.addition data modified).name = entryName e.options.method e.index := named
  have hnormal := normalize_entryName_eq e.options.method index
  obtain ⟨hfault, -⟩ := EntryName.normalize_eq_ok_iff.mp hnormal
  rw [Addition.nameFault?, hname, hfault, Option.map_none]

end Additions

section Codecs

variable [Codec] [LocalTime]

/-- Nothing in the archive of a fixture reaches 4 GiB: neither the document, unless there is no
entry for it, nor entries that can stand in the archive one after another. -/
structure BelowLimit (c : Config) (document : File) : Prop where
  small : plan c ≠ [] → document.contents.size < 0x100000000
  near : ∀ written, written <+: plan c → Writable written →
    (body ((additionsOf document written).map Addition.entry)).length < 0x100000000

/-! ### Verdicts -/

namespace Next

variable (h : Next c before e) (below : BelowLimit c document)

include h below

/-- What may be objected to the next entry. -/
theorem verdict?_eq :
    let a := e.addition document.contents (.ofTimestamp document.modified)
    (History.made (additionsOf document before)).verdict? a =
      [if e.name ∈ before.map (·.name) then some (.duplicateEntry e.name) else none,
        if 65534 ≤ before.length then some (.capacity .entries) else none,
        a.levelFault?,
        if 0x100000000 ≤ a.payload.size then some (.capacity (.payloadSize e.name))
        else none].findSome? id := by
  intro a
  have named := named_of_mem_plan h.mem_plan
  have hnames : (additionsOf document before).map Addition.entryName = before.map (·.name) := by
    rw [additionsOf, List.map_map]
    exact List.map_congr_left fun b hb => entryName_addition (h.named b hb) _ _
  have hlength : (additionsOf document before).length = before.length := List.length_map _
  have hname : a.entryName = e.name := entryName_addition named _ _
  have hfault : a.nameFault? = none := nameFault?_addition named _ _ h.index_lt
  have hdata : ¬ 0x100000000 ≤ a.data.size :=
    not_le.mpr (below.small (List.ne_nil_of_mem h.mem_plan))
  have hnear := not_le.mpr (below.near before h.before_planned h.writable)
  rw [History.verdict?, History.objections, History.offset, History.done_made,
    History.failed_made, if_neg Bool.false_ne_true, hfault, hnames, hlength, hname, if_neg hnear,
    if_neg hdata]
  rfl

theorem verdict?_of_taken (taken : e.name ∈ before.map (·.name)) :
    (History.made (additionsOf document before)).verdict?
      (e.addition document.contents (.ofTimestamp document.modified)) =
        some (.duplicateEntry e.name) := by
  rw [h.verdict?_eq below, if_pos taken]
  rfl

theorem verdict?_of_full (fresh : e.name ∉ before.map (·.name)) (full : 65534 ≤ before.length) :
    (History.made (additionsOf document before)).verdict?
      (e.addition document.contents (.ofTimestamp document.modified)) =
        some (.capacity .entries) := by
  rw [h.verdict?_eq below, if_neg fresh, if_pos full]
  rfl

theorem verdict?_of_level (fresh : e.name ∉ before.map (·.name)) (few : before.length < 65534)
    (unfit : ¬ e.options.LevelFits) : ∃ level, e.options.level = some level ∧
      (History.made (additionsOf document before)).verdict?
        (e.addition document.contents (.ofTimestamp document.modified)) =
          some (.invalidLevel e.options.method level) := by
  obtain ⟨level, hlevel, hfault⟩ := Addition.exists_levelFault?
    (a := e.addition document.contents (.ofTimestamp document.modified)) unfit
  refine ⟨level, hlevel, ?_⟩
  rw [h.verdict?_eq below, if_neg fresh, if_neg (not_le.mpr few), hfault]
  rfl

/-- Nothing is objected if the entry can stand in the archive as well. -/
theorem verdict?_of_writable (writable : Writable (before ++ [e])) :
    (History.made (additionsOf document before)).verdict?
      (e.addition document.contents (.ofTimestamp document.modified)) = none := by
  have hfresh : e.name ∉ before.map (·.name) :=
    (nodup_map_append_singleton_iff.mp writable.distinct).1
  have hfew : ¬ 65534 ≤ before.length := by
    have := writable.few
    simp only [List.length_append, List.length_singleton] at this
    omega
  have hlevel := Addition.levelFault?_eq_none
    (a := e.addition document.contents (.ofTimestamp document.modified))
    (writable.leveled e (by simp))
  -- The payload is a part of the archive, so it is not too large either.
  have hnear := below.near _ h.planned writable
  simp only [additionsOf, List.map_append, List.map_singleton, body_append, body_cons, body_nil,
    List.append_nil, List.length_append, PreparedEntry.length_bytes] at hnear
  have hpayload : ¬ 0x100000000 ≤
      (e.addition document.contents (.ofTimestamp document.modified)).entry.payload.size := by
    omega
  rw [h.verdict?_eq below, if_neg hfresh, if_neg hfew, hlevel,
    if_neg (show ¬ 0x100000000 ≤ (Addition.payload _).size from hpayload)]
  rfl

end Next

/-! ### Runs -/

/-- Entries that can stand in one archive are added. -/
theorem run_of_writable (below : BelowLimit c document) (planned : entries <+: plan c)
    (writable : Writable entries) :
    (unboundedRun (additionsOf document entries)).1 = (entries.map fun _ => .ok ()) ∧
      (unboundedRun (additionsOf document entries)).2.Reflects
        (.made (additionsOf document entries)) := by
  induction entries using List.reverseRecOn with
  | nil => exact ⟨rfl, Writer.start_reflects _⟩
  | append_singleton entries e ih =>
    have hstart : entries <+: entries ++ [e] := List.prefix_append _ _
    obtain ⟨hresults, k⟩ := ih (hstart.trans planned) (writable.of_prefix hstart)
    have next : Next c entries e := ⟨planned, writable.of_prefix hstart⟩
    have hunlimited := Writer.start_unlimited.addAll (additionsOf document entries)
    have hanswer := k.add_eq_verdict? hunlimited
      (e.addition document.contents (.ofTimestamp document.modified))
    rw [next.verdict?_of_writable below writable] at hanswer
    have hreflects := k.add (e.addition document.contents (.ofTimestamp document.modified))
    rw [hanswer, ← History.made_append] at hreflects
    have hlist : additionsOf document (entries ++ [e]) = additionsOf document entries ++
        [e.addition document.contents (.ofTimestamp document.modified)] := List.map_append
    rw [hlist, unboundedRun, Writer.addAll_append, ← unboundedRun]
    refine ⟨?_, hreflects⟩
    simp only [Writer.addAll_cons, Writer.addAll_nil, hresults, hanswer, List.map_append,
      List.map_singleton]

/-- The central directory for entries with the names of a plan is small. -/
theorem size_directory_le {w : Writer MemorySink} {written : List PreparedEntry}
    (holds : w.Holds written) (yields : List.Forall₂ Addition.Yields (additionsOf document entries)
      written) (named : ∀ e ∈ entries, e.Named) (index : ∀ e ∈ entries, e.index < 2 ^ 64) :
    (Writer.directoryBytes w.directory).size ≤ entries.length * 182 := by
  have hheader : ∀ n ∈ (centralHeaders 0 written).map fun h => h.encode.length, n ≤ 182 := by
    intro n hn
    obtain ⟨header, hheader, rfl⟩ := List.mem_map.mp hn
    obtain ⟨p, hp, place, rfl⟩ := mem_centralHeaders hheader
    obtain ⟨a, ha, y⟩ := exists_yields yields hp
    obtain ⟨e, he, rfl⟩ := List.mem_map.mp ha
    have hname : p.name = entryName e.options.method e.index := by
      have hnormal := y.name
      rw [PlannedEntry.addition, named e he] at hnormal
      exact normalize_entryName hnormal
    have hsize : p.header.name.length = (entryName e.options.method e.index).utf8ByteSize := by
      rw [y.header_name, hname]
      rfl
    have hle := utf8ByteSize_entryName_le e.options.method (index e he)
    rw [CentralHeader.length_encode, p.encodedSize_centralHeader, hsize]
    exact Nat.add_le_add_left hle _
  have hsum := List.sum_le_card_nsmul _ _ hheader
  have hlength : written.length = entries.length := by
    rw [← yields.length_eq, additionsOf, List.length_map]
  rw [Writer.size_directoryBytes, holds.directory, List.length_flatMap]
  simpa [hlength] using hsum

/-! ### Fixtures -/

section Build

variable {t : FileTree} {directory place : Path}

/-- A fixture is not built if one of its entries is refused. -/
theorem build_of_refused (load : c.source.load t = .ok document)
    (hdirectory : PendingFile.directory t c.output = .ok directory)
    (split : plan c = before ++ e :: after)
    (added : (unboundedRun (additionsOf document before)).1 = before.map fun _ => .ok ())
    (reflects : (unboundedRun (additionsOf document before)).2.Reflects
      (.made (additionsOf document before)))
    {error : Error} (verdict : (History.made (additionsOf document before)).verdict?
      (e.addition document.contents (.ofTimestamp document.modified)) = some error) :
    (build t c).result = .error (.archive error) := by
  have hrun : (Writer.start MemorySink.unbounded).addAll (additionsOf document before) =
      (before.map fun _ => .ok (), (unboundedRun (additionsOf document before)).2) :=
    Prod.ext added rfl
  have hanswer := reflects.add_eq (e.addition document.contents (.ofTimestamp document.modified))
  rw [verdict] at hanswer
  have hentries := addEntries_of_refused hrun hanswer none [] after
  rw [← split] at hentries
  rw [build_eq_inMemory, buildBy]
  simp only [load, inMemory, hdirectory, Except.map, hentries]

/-- The next entry behind entries that can stand in one archive decides the fixture if it is
refused. -/
theorem Next.build_eq (h : Next c before e) (below : BelowLimit c document)
    (load : c.source.load t = .ok document)
    (hdirectory : PendingFile.directory t c.output = .ok directory) {error : Error}
    (verdict : (History.made (additionsOf document before)).verdict?
      (e.addition document.contents (.ofTimestamp document.modified)) = some error) :
    (build t c).result = .error (.archive error) := by
  obtain ⟨added, reflects⟩ := run_of_writable below h.before_planned h.writable
  obtain ⟨after, hafter⟩ := h.planned
  have split : plan c = before ++ e :: after := by simp [← hafter]
  exact build_of_refused load hdirectory split added reflects verdict

/-- Planned entries that can stand in one archive make one. -/
theorem drafted_of_writable (below : BelowLimit c document) (writable : Writable (plan c)) :
    ∃ bytes, Drafted c document bytes := by
  obtain ⟨added, reflects⟩ := run_of_writable below List.prefix_rfl writable
  obtain ⟨written, holds, yields⟩ :=
    Writer.start_holds.addAll (additionsOf document (plan c))
  have hresults : (unboundedRun (additionsOf document (plan c))).1 =
      (additionsOf document (plan c)).map fun _ => .ok () := by
    rw [added, additionsOf, List.map_map]
    rfl
  rw [List.nil_append, ← unboundedRun] at holds
  rw [← unboundedRun, hresults, succeeded_of_ok] at yields
  have hindex : ∀ e ∈ plan c, e.index < 2 ^ 64 := by
    intro e he
    obtain ⟨p, hp, hget⟩ := List.getElem_of_mem he
    exact index_lt_of_getElem? (List.getElem?_eq_some_iff.mpr ⟨hp, hget⟩)
      (hp.le.trans writable.few)
  have hdirectory := size_directory_le holds yields (fun _ he => named_of_mem_plan he) hindex
  have hfault : (unboundedRun (additionsOf document (plan c))).2.closingFault? = none := by
    rw [Writer.closingFault?_eq_none_iff, reflects.offset, History.offset, History.done_made]
    have := writable.few
    refine ⟨holds.intact, below.near _ List.prefix_rfl writable, ?_⟩
    rw [Writer.fieldLimit]
    omega
  rcases holds.unlimited.finish_cases with ⟨error, herror, -⟩ | ⟨-, hfinish⟩
  · rw [hfault] at herror
    cases herror
  · exact ⟨_, hresults, _, hfinish, rfl⟩

/-- A fixture is built if its entries can stand in one archive. -/
theorem build_of_writable (load : c.source.load t = .ok document)
    (hdirectory : PendingFile.directory t c.output = .ok directory)
    (hplace : t.destination c.output = .ok place) (below : BelowLimit c document)
    (writable : Writable (plan c)) : ∃ summary, (build t c).result = .ok summary := by
  obtain ⟨bytes, drafted⟩ := drafted_of_writable below writable
  obtain ⟨log, hbuild⟩ := build_of_drafted load hdirectory drafted hplace
  exact ⟨_, congrArg Outcome.result hbuild⟩

/-- A document of 4 GiB or more makes no archive. -/
theorem build_of_large (load : c.source.load t = .ok document)
    (hdirectory : PendingFile.directory t c.output = .ok directory) (split : plan c = e :: after)
    (large : 0x100000000 ≤ document.contents.size) :
    (build t c).result = .error (.archive (.capacity (.dataSize e.name))) := by
  have next : Next c [] e := ⟨⟨after, by simp [split]⟩, List.nodup_nil, by simp, by simp⟩
  have named := named_of_mem_plan next.mem_plan
  have hsplit : plan c = [] ++ e :: after := split
  apply build_of_refused load hdirectory hsplit rfl (Writer.start_reflects _)
  rw [History.verdict?, History.objections, nameFault?_addition named _ _ next.index_lt,
    entryName_addition named, if_pos (show 0x100000000 ≤ (e.addition _ _).data.size from large)]
  rfl

/-- The first method at fault decides the fixture. -/
theorem build_of_unsound (load : c.source.load t = .ok document)
    (hdirectory : PendingFile.directory t c.output = .ok directory) (below : BelowLimit c document)
    (repeated : c.iterations ≠ 0) (unsound : ¬ Sound c.methods) :
    ∃ error, Blames c error ∧ (build t c).result = .error (.archive error) := by
  obtain ⟨before, o, after, split, sound, hfault⟩ := exists_first_unsound unsound
  have hstart : before.map (PlannedEntry.of 0) ++ [.of 0 o] <+: plan c := by
    refine List.IsPrefix.trans ?_ (map_of_zero_prefix_plan repeated)
    rw [split, List.map_append, List.map_cons]
    exact ⟨after.map (PlannedEntry.of 0), by simp⟩
  have next : Next c (before.map (PlannedEntry.of 0)) (.of 0 o) := ⟨hstart, sound.writable_map⟩
  -- In one repetition a name tells its method.
  have hname : entryName o.method 0 ∈ (before.map (PlannedEntry.of 0)).map (·.name) ↔
      o.method ∈ before.map (·.method) := by
    have hnames : (before.map (PlannedEntry.of 0)).map (·.name) =
        (before.map (·.method)).map (entryName · 0) := by
      rw [List.map_map, List.map_map]
      rfl
    rw [hnames]
    exact List.mem_map_of_injective fun m m' h => (entryName_injective h).1
  by_cases taken : o.method ∈ before.map (·.method)
  · have hverdict := next.verdict?_of_taken below (hname.mpr taken)
    exact ⟨_, .taken split sound taken, next.build_eq below load hdirectory hverdict⟩
  · have unfit : ¬ o.LevelFits := fun fits => hfault (sound.append taken fits)
    have hfew : (before.map (PlannedEntry.of 0)).length < 65534 := by
      have := sound.length_le
      rw [List.length_map]
      omega
    obtain ⟨level, asked, hverdict⟩ := next.verdict?_of_level below (mt hname.mp taken) hfew unfit
    exact ⟨_, .level split sound taken asked unfit, next.build_eq below load hdirectory hverdict⟩

/-- If there are too many entries, the first of them that is too many decides the fixture. -/
theorem build_of_many (load : c.source.load t = .ok document)
    (hdirectory : PendingFile.directory t c.output = .ok directory) (below : BelowLimit c document)
    (sound : Sound c.methods) (many : 65534 < c.iterations * c.methods.length) :
    (build t c).result = .error (.archive (.capacity .entries)) := by
  rw [← length_plan] at many
  have hsplit : (plan c).take 65534 ++ [(plan c)[65534]] = (plan c).take 65535 :=
    (List.take_succ_eq_append_getElem many).symm
  have hlength : ((plan c).take 65534).length = 65534 := List.length_take_of_le many.le
  have next : Next c ((plan c).take 65534) (plan c)[65534] :=
    ⟨hsplit ▸ List.take_prefix _ _, sound.writable (List.take_prefix _ _) hlength.le⟩
  have hfresh : (plan c)[65534].name ∉ ((plan c).take 65534).map (·.name) := by
    have hnodup : (((plan c).take 65535).map (·.name)).Nodup :=
      (nodup_names_plan_iff.mpr (.inr sound.distinct)).sublist ((List.take_prefix _ _).map _).sublist
    rw [← hsplit] at hnodup
    exact (nodup_map_append_singleton_iff.mp hnodup).1
  exact next.build_eq below load hdirectory (next.verdict?_of_full below hfresh hlength.ge)

/-- A fixture whose document can be read, and whose archive can be put in its place and stays below
4 GiB, is built exactly if it has no repetitions, or its methods are sound and there are at most
65534 entries. If it is not built, the error tells what is to blame. -/
theorem build_decided (load : c.source.load t = .ok document)
    {w : Writer PendingFile} (created : Writer.create t c.output = .ok w)
    (hplace : t.destination c.output = .ok place) (below : BelowLimit c document) :
    ((∃ summary, (build t c).result = .ok summary) ↔
      c.iterations = 0 ∨ (Sound c.methods ∧ c.iterations * c.methods.length ≤ 65534)) ∧
    ∀ error, (build t c).result = .error error → ∃ e, error = .archive e ∧ Blames c e := by
  obtain ⟨-, directory, hdirectory⟩ := Writer.create_eq_ok_iff.mp created
  have built : c.iterations = 0 ∨ (Sound c.methods ∧ c.iterations * c.methods.length ≤ 65534) →
      ∃ summary, (build t c).result = .ok summary := by
    intro h
    apply build_of_writable load hdirectory hplace below
    rcases h with hnone | ⟨sound, few⟩
    -- Without repetitions there is no entry that could be refused.
    · rw [plan_eq_nil_iff.mpr (.inl hnone)]
      exact ⟨List.nodup_nil, by simp, by simp⟩
    · exact sound.writable List.prefix_rfl ((length_plan c).trans_le few)
  have failed : ¬ (c.iterations = 0 ∨
      (Sound c.methods ∧ c.iterations * c.methods.length ≤ 65534)) →
      ∃ e, Blames c e ∧ (build t c).result = .error (.archive e) := by
    intro h
    obtain ⟨repeated, hfault⟩ := not_or.mp h
    by_cases sound : Sound c.methods
    · have many := not_le.mp fun few => hfault ⟨sound, few⟩
      exact ⟨_, .count sound many, build_of_many load hdirectory below sound many⟩
    · exact build_of_unsound load hdirectory below repeated sound
  refine ⟨⟨fun ⟨summary, hresult⟩ => ?_, built⟩, fun error hresult => ?_⟩
  · by_contra h
    obtain ⟨e, -, herror⟩ := failed h
    rw [hresult] at herror
    cases herror
  · have h : ¬ (c.iterations = 0 ∨
        (Sound c.methods ∧ c.iterations * c.methods.length ≤ 65534)) := by
      intro hbuilt
      obtain ⟨summary, hok⟩ := built hbuilt
      rw [hresult] at hok
      cases hok
    obtain ⟨e, blames, herror⟩ := failed h
    exact ⟨e, Except.error.inj (hresult.symm.trans herror), blames⟩

end Build

end Codecs

/-! ### A small fixture with a method that comes again -/

/-- A configuration that stores the document twice. -/
def sampleTwice : Config :=
  { sampleConfig with methods := [.ofMethod .stored, .ofMethod .stored] }

/-- Nothing in an archive reaches 4 GiB if all planned entries together do not. -/
theorem belowLimit_of_length_lt [Codec] [LocalTime]
    (small : document.contents.size < 0x100000000)
    (near : (body ((additionsOf document (plan c)).map Addition.entry)).length < 0x100000000) :
    BelowLimit c document where
  small _ := small
  near written planned _ := by
    obtain ⟨rest, hrest⟩ := planned
    rw [← hrest, additionsOf, List.map_append, List.map_append, body_append,
      List.length_append] at near
    exact (Nat.le_add_right _ _).trans_lt near

theorem belowLimit_sampleTwice : BelowLimit sampleTwice sampleDocument :=
  belowLimit_of_length_lt (by decide) (by decide +kernel)

/-- The document is stored once, and cannot be stored a second time. -/
theorem build_decided_sample :
    (∃ summary, (build sampleTree sampleConfig).result = .ok summary) ∧
    (build sampleTree sampleTwice).result =
      .error (.archive (.duplicateEntry "stored-n0.txt")) := by
  have hcreate : Writer.create sampleTree "out.zip" = .ok (.start ⟨"out.zip", [], .empty⟩) := rfl
  have hload : sampleConfig.source.load sampleTree = .ok sampleDocument := rfl
  have honce := build_decided (c := sampleConfig) hload hcreate destination_sampleTree
    (belowLimit_of_length_lt (by decide) (by decide +kernel))
  have htwice := build_decided (c := sampleTwice) hload hcreate destination_sampleTree
    belowLimit_sampleTwice
  have hstored : ∀ o ∈ sampleTwice.methods, o = .ofMethod .stored := by
    simp [sampleTwice]
  have hunsound : ¬ Sound sampleTwice.methods := fun h => absurd h.distinct (by decide)
  refine ⟨honce.1.mpr (.inr ⟨⟨by decide, ?_⟩, by decide⟩), ?_⟩
  · intro o ho
    rw [List.mem_singleton.mp ho]
    trivial
  cases hresult : (build sampleTree sampleTwice).result with
  | ok summary =>
    rcases htwice.1.mp ⟨summary, hresult⟩ with hnone | ⟨sound, -⟩
    · cases hnone
    · exact absurd sound hunsound
  | error error =>
    obtain ⟨e, rfl, blames⟩ := htwice.2 error hresult
    cases blames with
    | @taken before after o split sound taken =>
      rw [hstored o (by simp [split])]
      decide +kernel
    | @level before after o level split sound fresh asked unfit =>
      rw [hstored o (by simp [split])] at unfit
      exact absurd trivial unfit
    | count sound many => exact absurd sound hunsound

end Folio.Fixture

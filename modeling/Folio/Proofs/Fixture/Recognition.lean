import Folio.Calendar.Universal
import Folio.Fixture.Verify
import Folio.Proofs.Archive.RoundTrip
import Folio.Proofs.Codecs
import Folio.Proofs.Fixture.AllOrNothing

/-!
# Which fixtures are recognised

Verification accepts a fixture that has been built exactly for the configurations that repeat the
same methods as often, over the same document. The names of the entries tell the repetitions and the
methods, and the data of the entries tells the document. Everything else about a configuration is
forgotten.

## Main definitions

* `Judges` — a check that decides something, and finds a mismatch where it does not hold
* `Shows` — what an entry of an archive shows of a plan
* `BelowMarkers` — the archive of a fixture has no 64-bit markers

## Main results

* `checkEntries_judges` — entries are compared with a plan step by step
* `verify_judges` — an archive is compared with the plan of a configuration
* `verify_built` — the configurations for which a fixture is recognised
-/

namespace Folio.Fixture

open Writer (unboundedRun)

theorem bne_bytes_iff {data document : ByteArray} :
    (data != document) = true ↔ data ≠ document := by
  have hbeq : (data == document) = true ↔ data.data = document.data :=
    beq_iff_eq (a := data.data) (b := document.data)
  rw [bne, Bool.not_eq_true', ← Bool.not_eq_true, hbeq, ne_eq, ByteArray.ext_iff]

/-! ### Verdicts -/

/-- A check that succeeds where `p` holds, and finds a mismatch where it does not. -/
structure Judges (r : Except FixtureError Unit) (p : Prop) : Prop where
  accepts : p → r = .ok ()
  refuses : ¬ p → ∃ m, r = .error (.mismatch m)

namespace Judges

variable {r r' : Except FixtureError Unit} {p q : Prop}

theorem eq_ok_iff (h : Judges r p) : r = .ok () ↔ p := by
  constructor
  · intro hr
    by_contra hp
    obtain ⟨m, hm⟩ := h.refuses hp
    rw [hr] at hm
    cases hm
  · exact h.accepts

theorem eq_ok_or (h : Judges r p) : r = .ok () ∨ ∃ m, r = .error (.mismatch m) := by
  by_cases hp : p
  · exact .inl (h.accepts hp)
  · exact .inr (h.refuses hp)

theorem congr (h : Judges r p) (hpq : p ↔ q) : Judges r q :=
  ⟨fun hq => h.accepts (hpq.mpr hq), fun hq => h.refuses (mt hpq.mp hq)⟩

/-- The second check is made only if the first one succeeds. -/
theorem andThen (h : Judges r p) (h' : p → Judges r' q) : Judges (r >>= fun _ => r') (p ∧ q) := by
  constructor
  · rintro ⟨hp, hq⟩
    rw [h.accepts hp]
    exact (h' hp).accepts hq
  · intro hpq
    by_cases hp : p
    · rw [h.accepts hp]
      exact (h' hp).refuses fun hq => hpq ⟨hp, hq⟩
    · obtain ⟨m, hm⟩ := h.refuses hp
      rw [hm]
      exact ⟨m, rfl⟩

end Judges

section Recognition

variable [Codec] {a : Archive} {document data : ByteArray}

/-! ### Entries -/

/-- An entry of an archive shows the repetition and the method of a step, and holds the data. -/
structure Shows (a : Archive) (data : ByteArray) (e : Entry) (step : Nat × Method) : Prop where
  name : e.name = entryName step.2 step.1
  method : e.method = .ok step.2
  plain : step.2 = .stored → e.compressedSize = e.uncompressedSize
  read : a.readEntry e = .ok data

/-- The repetition and the method of a planned entry. -/
def PlannedEntry.step (e : PlannedEntry) : Nat × Method := (e.index, e.options.method)

/-- The name of a planned entry is that of its step. -/
def PlannedEntry.Named (e : PlannedEntry) : Prop := e.name = entryName e.options.method e.index

/-- An entry is compared with a step of a plan. -/
theorem checkEntry_judges {e : Entry} {step : Nat × Method} (shows : Shows a data e step)
    (index : Nat) {planned : PlannedEntry} (named : planned.Named) :
    Judges (checkEntry a document index e planned) (planned.step = step ∧ document = data) := by
  obtain ⟨i, m⟩ := step
  rw [checkEntry]
  by_cases hname : e.name = planned.name
  · obtain ⟨rfl, rfl⟩ := entryName_injective (shows.name.symm.trans (hname.trans named))
    have hplain : ¬ (planned.options.method = .stored ∧ e.compressedSize ≠ e.uncompressedSize) :=
      fun ⟨hstored, hne⟩ => hne (shows.plain hstored)
    simp only [if_neg (not_not.mpr hname), shows.method, if_neg (not_not.mpr rfl), if_neg hplain,
      shows.read]
    constructor
    · rintro ⟨-, hdata⟩
      exact if_neg fun h => bne_bytes_iff.mp h hdata.symm
    · intro hdata
      exact ⟨_, if_pos (bne_bytes_iff.mpr fun h => hdata ⟨rfl, h.symm⟩)⟩
  · rw [if_pos hname]
    constructor
    · rintro ⟨hstep, -⟩
      rw [← hstep] at shows
      exact absurd (shows.name.trans named.symm) hname
    · intro _
      exact ⟨_, rfl⟩

/-- Entries are compared with a plan step by step. Without entries the document does not matter. -/
theorem checkEntries_judges {entries : List Entry} {taken : List (Nat × Method)}
    (shows : List.Forall₂ (Shows a data) entries taken) (index : Nat) {planned : List PlannedEntry}
    (named : ∀ e ∈ planned, e.Named) (length : planned.length = taken.length) :
    Judges (checkEntries a document index entries planned)
      (planned.map PlannedEntry.step = taken ∧ (taken = [] ∨ document = data)) := by
  induction shows generalizing index planned with
  | nil =>
    obtain rfl := List.eq_nil_of_length_eq_zero length
    exact ⟨fun _ => rfl, fun h => absurd ⟨rfl, .inl rfl⟩ h⟩
  | @cons e step entries taken hfirst hrest ih =>
    cases planned with
    | nil => cases length
    | cons first planned =>
      have hfirst' : Judges (checkEntry a document index e first) _ :=
        checkEntry_judges hfirst index (named first List.mem_cons_self)
      have hrest' := ih (index + 1) (fun e he => named e (List.mem_cons_of_mem _ he))
        (Nat.succ.inj length)
      refine (hfirst'.andThen fun _ => hrest').congr ?_
      rw [List.map_cons, List.cons.injEq]
      constructor
      · rintro ⟨⟨hstep, hdata⟩, hsteps, -⟩
        exact ⟨⟨hstep, hsteps⟩, .inr hdata⟩
      · rintro ⟨⟨hstep, hsteps⟩, hempty | hdata⟩
        · cases hempty
        · exact ⟨⟨hstep, hdata⟩, hsteps, .inr hdata⟩

/-! ### Archives -/

omit [Codec] in
theorem named_of_mem_plan {c : Config} {e : PlannedEntry} (h : e ∈ plan c) : e.Named := by
  obtain ⟨index, -, options, -, rfl⟩ := exists_of_mem_plan h
  rfl

omit [Codec] in
theorem map_step_plan (c : Config) : (plan c).map PlannedEntry.step = steps c := by
  rw [map_plan (fun i m => (i, m)) _ (fun _ _ => rfl)]
  exact List.map_id' _

/-- An archive is compared with the plan of a configuration. -/
theorem verify_judges {t : FileTree} {c : Config} {source : File} {bytes : ByteArray}
    {taken : List (Nat × Method)} (load : c.source.load t = .ok source)
    (read : t.read c.output = .ok bytes) (archive : Archive.ofBytes bytes = .ok a)
    (shows : List.Forall₂ (Shows a data) a.entries.toList taken) :
    Judges (verify t c) (steps c = taken ∧ (taken = [] ∨ source.contents = data)) := by
  have hlength : a.size = taken.length := shows.length_eq
  rw [verify, load, ← map_step_plan]
  simp only [read, archive]
  by_cases hcount : a.size = (plan c).length
  · rw [if_neg (not_not.mpr hcount)]
    exact checkEntries_judges shows 0 (fun e he => named_of_mem_plan he)
      (hcount.symm.trans hlength)
  · rw [if_pos hcount]
    constructor
    · rintro ⟨rfl, -⟩
      rw [List.length_map] at hlength
      exact absurd hlength hcount
    · intro _
      exact ⟨_, rfl⟩

/-! ### Fixtures -/

/-- The archive of a fixture has no 64-bit markers: neither the offset of its central directory nor
the size of the document reaches them, unless there is no entry for the document. -/
structure BelowMarkers [LocalTime] (c : Config) (document : File) : Prop where
  far : (unboundedRun (additions c document)).2.offset < 0xFFFFFFFF
  small : ∀ a ∈ additions c document, a.data.size < 0xFFFFFFFF

/-- The entry that has been written for a planned one shows its step. -/
theorem shows_of_yields (lawful : Codec.Lawful) {bytes : ByteArray} {written : List PreparedEntry}
    {planned : PlannedEntry} {modified : DosTime} {i : Nat} (f : Finished bytes written)
    (far : (body written).length < 0xFFFFFFFF) (h : i < written.length) (named : planned.Named)
    (y : (planned.addition data modified).Yields written[i]) :
    Shows (archiveOf bytes written) data (entryOf written i h) planned.step := by
  have back : (planned.addition data modified).ReadBack (entryOf written i h) :=
    Entry.described_readBack y _
  constructor
  case name =>
    have hname := back.name
    rw [PlannedEntry.addition, named] at hname
    exact normalize_entryName hname
  case method => exact back.method
  case plain =>
    intro hstored
    have hpayload : written[i].payload = data := y.payload_of_stored hstored
    have hsize : (entryOf written i h).compressedSize = written[i].payload.size := y.compressedSize
    rw [hsize, hpayload, back.uncompressedSize]
    rfl
  case read => exact f.readEntry_eq lawful h y far

variable [LocalTime]

/-- The archive of a fixture shows the steps of its plan, and holds the document in each of them. -/
theorem shows_of_drafted (lawful : Codec.Lawful) {c : Config} {document : File} {bytes : ByteArray}
    (drafted : Drafted c document bytes) (below : BelowMarkers c document) :
    ∃ a, Archive.ofBytes bytes = .ok a ∧
      List.Forall₂ (Shows a document.contents) a.entries.toList (steps c) := by
  obtain ⟨s, hfinish, rfl⟩ := drafted.finished
  have hsucceeded := succeeded_of_ok (additions c document)
  rw [← drafted.added] at hsucceeded
  obtain ⟨written, hyields, f, far, hread⟩ := Writer.exists_finished hfinish below.far
    fun a ha => below.small a (hsucceeded ▸ ha)
  rw [← unboundedRun, hsucceeded] at hyields
  refine ⟨_, hread, ?_⟩
  have hlength : (plan c).length = written.length := by
    simpa [additions] using hyields.length_eq
  rw [← map_step_plan]
  refine List.forall₂_iff_get.mpr ⟨by simpa [archiveOf] using hlength.symm, fun i hi hi' => ?_⟩
  have hplan : i < (plan c).length := by simpa using hi'
  have hentry : (archiveOf s.bytes written).entries.toList[i] = entryOf written i (hlength ▸ hplan) :=
    getElem_described (by simpa [archiveOf] using hi)
  have y : ((plan c)[i].addition document.contents (.ofTimestamp document.modified)).Yields
      (written.get ⟨i, hlength ▸ hplan⟩) := by
    have hget := (List.forall₂_iff_get.mp hyields).2 i (by simpa [additions] using hplan)
      (hlength ▸ hplan)
    simpa [additions] using hget
  rw [List.get_eq_getElem, List.get_eq_getElem, hentry, List.getElem_map]
  exact shows_of_yields lawful f far _ (named_of_mem_plan (List.getElem_mem hplan)) y

omit [Codec] [LocalTime] in
theorem same_steps_iff {c c' : Config} {p : Prop} :
    steps c = steps c' ∧ (steps c' = [] ∨ p) ↔ (plan c = [] ∧ plan c' = []) ∨
      (c.iterations = c'.iterations ∧ c.methods.map (·.method) = c'.methods.map (·.method) ∧ p) := by
  constructor
  · rintro ⟨hsteps, hempty | hp⟩
    · exact .inl ⟨steps_eq_nil_iff.mp (hsteps.trans hempty), steps_eq_nil_iff.mp hempty⟩
    · rcases steps_eq_iff.mp hsteps with hempty | ⟨hn, hmethods⟩
      · exact .inl hempty
      · exact .inr ⟨hn, hmethods, hp⟩
  · rintro (hempty | ⟨hn, hmethods, hp⟩)
    · exact ⟨steps_eq_iff.mpr (.inl hempty), .inl (steps_eq_nil_iff.mpr hempty.2)⟩
    · exact ⟨steps_eq_iff.mpr (.inr ⟨hn, hmethods⟩), .inr hp⟩

/-- A fixture that has been built is recognised in any tree that still has it, exactly for the
configurations that repeat the same methods as often over the same document, or that have no entries
either. For all others there is a mismatch, and no other failure. In particular a fixture is
recognised when it has just been built, unless it has taken the place of its document. -/
theorem verify_built (lawful : Codec.Lawful) {t u : FileTree} {c c' : Config}
    {document document' : File} {summary : Summary} (built : (build t c').result = .ok summary)
    (load' : c'.source.load t = .ok document') (below : BelowMarkers c' document')
    (kept : u.read c.output = (build t c').tree.read c'.output)
    (load : c.source.load u = .ok document) :
    (verify u c = .ok () ↔ (plan c = [] ∧ plan c' = []) ∨
      (c.iterations = c'.iterations ∧ c.methods.map (·.method) = c'.methods.map (·.method) ∧
        document.contents = document'.contents)) ∧
    (verify u c = .ok () ∨ ∃ m, verify u c = .error (.mismatch m)) ∧
    ((∀ path, c'.source = .file path → t.follow path ≠ t.follow c'.output) →
      verify (build t c').tree c' = .ok ()) := by
  rcases build_cases t c' with ⟨error, hresult, -⟩ |
    ⟨source, bytes, place, hload, hdraft, hplace, htree, -⟩
  · rw [built] at hresult
    cases hresult
  obtain rfl := Except.ok.inj (load'.symm.trans hload)
  obtain ⟨hfollow, hfree⟩ := FileTree.follow_of_destination hplace
  have hread : (build t c').tree.read c'.output = .ok bytes := by
    rw [htree, FileTree.read, FileTree.file_insert_self hfollow hfree]
    rfl
  obtain ⟨a, harchive, shows⟩ := shows_of_drafted lawful hdraft below
  rw [hread] at kept
  have judged := (verify_judges load kept harchive shows).congr same_steps_iff
  refine ⟨judged.eq_ok_iff, judged.eq_ok_or, fun apart => ?_⟩
  have hsource : c'.source.load (build t c').tree = .ok document' := by
    rw [htree]
    cases hc : c'.source with
    | bundled =>
      rw [hc] at load'
      exact load'
    | file path =>
      rw [hc] at load'
      exact FileTree.file_insert_of_ne hfree (hfollow ▸ apart path hc) load'
  exact (verify_judges hsource hread harchive shows).accepts ⟨rfl, .inr rfl⟩

end Recognition

/-! ### A small fixture -/

/-- The document of a small fixture. -/
def sampleDocument : File := ⟨"Nothing will come of nothing".toUTF8, ⟨0, 0⟩, FileTree.fileMode⟩

/-- The tree in which it is built. -/
def sampleTree : FileTree := ⟨[(["king.txt"], .file sampleDocument)]⟩

def sampleConfig : Config := ⟨.file "king.txt", "out.zip", 1, [.ofMethod .stored]⟩

/-- The only addition. -/
def sampleAddition : Addition where
  name := "stored-n0.txt"
  data := sampleDocument.contents
  options := { EntryOptions.ofMethod .stored with modified := some (.ofTimestamp ⟨0, 0⟩) }

/-- The entry that it yields. -/
def sampleEntry : PreparedEntry :=
  Writer.describe sampleAddition.name sampleAddition.data sampleAddition.data sampleAddition.options

theorem additions_sampleConfig : additions sampleConfig sampleDocument = [sampleAddition] := by
  have hplan : plan sampleConfig = [⟨0, "stored-n0.txt", .ofMethod .stored⟩] := by decide +kernel
  rw [additions, hplan]
  rfl

theorem unboundedRun_sampleConfig : unboundedRun (additions sampleConfig sampleDocument) =
    ([.ok ()], (Writer.start MemorySink.unbounded).extended sampleEntry) := by
  have hadd := Writer.start_unlimited.add_eq_ok (a := sampleAddition) (e := sampleEntry)
    ⟨by decide +kernel, rfl, rfl, by decide, by decide⟩
    ⟨rfl, by simp [Writer.start], by decide, by decide⟩
  rw [additions_sampleConfig, unboundedRun, Writer.addAll_cons, hadd]
  rfl

theorem belowMarkers_sampleConfig : BelowMarkers sampleConfig sampleDocument where
  far := by
    rw [unboundedRun_sampleConfig]
    decide +kernel
  small := by
    rw [additions_sampleConfig]
    decide

theorem exists_drafted_sampleConfig : ∃ bytes, Drafted sampleConfig sampleDocument bytes := by
  have h : ((Writer.start MemorySink.unbounded).extended sampleEntry).Unlimited :=
    Writer.start_unlimited.extended sampleEntry
  have hdirectory : (Writer.directoryBytes
      ((Writer.start MemorySink.unbounded).extended sampleEntry).directory).size = 59 := by
    decide +kernel
  have hfault : ((Writer.start MemorySink.unbounded).extended sampleEntry).closingFault? = none := by
    rw [Writer.closingFault?_eq_none_iff, hdirectory]
    exact ⟨rfl, by decide +kernel, by decide⟩
  rcases h.finish_cases with ⟨error, herror, -⟩ | ⟨-, hfinish⟩
  · simp [hfault] at herror
  · obtain ⟨s, hs⟩ : ∃ s, ((Writer.start MemorySink.unbounded).extended sampleEntry).finish =
        (.ok (), s) := ⟨_, hfinish⟩
    refine ⟨s.bytes, ?_, s, ?_, rfl⟩
    · rw [unboundedRun_sampleConfig, additions_sampleConfig]
      rfl
    · rw [unboundedRun_sampleConfig]
      exact hs

theorem destination_sampleTree : sampleTree.destination "out.zip" = .ok ["out.zip"] := by
  have hslash : "out.zip".endsWith "/" = false := by decide +kernel
  simp only [FileTree.destination, hslash]
  rfl

theorem follow_sampleTree : sampleTree.follow "king.txt" = .ok ["king.txt"] := rfl

/-- The fixture is recognised with another level, time and mode, and not with another number of
repetitions. -/
theorem verify_built_sample : ∃ summary,
    (build sampleTree sampleConfig).result = .ok summary ∧
    verify (build sampleTree sampleConfig).tree sampleConfig = .ok () ∧
    verify (build sampleTree sampleConfig).tree
      { sampleConfig with methods := [⟨.stored, some 3, some .epoch, 0⟩] } = .ok () ∧
    ∃ m, verify (build sampleTree sampleConfig).tree { sampleConfig with iterations := 2 } =
      .error (.mismatch m) := by
  obtain ⟨bytes, drafted⟩ := exists_drafted_sampleConfig
  have hload : sampleConfig.source.load sampleTree = .ok sampleDocument := rfl
  have hdirectory : PendingFile.directory sampleTree sampleConfig.output = .ok [] := rfl
  obtain ⟨log, hbuild⟩ := build_of_drafted hload hdirectory drafted destination_sampleTree
  have hresult := congrArg Outcome.result hbuild
  have hapart : sampleTree.follow "king.txt" ≠ .ok ["out.zip"] := by
    rw [follow_sampleTree]
    simp
  have hfollow := (FileTree.follow_of_destination destination_sampleTree)
  have hload' : sampleConfig.source.load (build sampleTree sampleConfig).tree =
      .ok sampleDocument := by
    rw [hbuild]
    exact FileTree.file_insert_of_ne hfollow.2 hapart hload
  have hsame := verify_built codec_lawful hresult hload belowMarkers_sampleConfig rfl hload'
  have hlevel := verify_built codec_lawful
    (c := { sampleConfig with methods := [⟨.stored, some 3, some .epoch, 0⟩] })
    hresult hload belowMarkers_sampleConfig rfl hload'
  have hmore := verify_built codec_lawful (c := { sampleConfig with iterations := 2 })
    hresult hload belowMarkers_sampleConfig rfl hload'
  refine ⟨_, hresult, hsame.2.2 ?_, hlevel.1.mpr (.inr ⟨rfl, rfl, rfl⟩), ?_⟩
  · rintro path ⟨⟩ hsame
    exact hapart (hsame.trans hfollow.1)
  · apply hmore.2.1.resolve_left
    rw [hmore.1]
    rintro (⟨-, hempty⟩ | ⟨hcount, -⟩)
    · exact absurd (congrArg List.length hempty) (by rw [length_plan]; decide)
    · cases hcount

end Folio.Fixture

import Folio.Proofs.Fixture.AllOrNothing

/-!
# What is told while a fixture is built

A line tells of every entry that has been added, and before the first entry of a repetition a line
tells of the repetition. The repetitions are found again by comparing each entry with the one before
it. If all entries are added, every repetition is told with all of its methods behind it. If one of
them is refused, what has been told up to there is a beginning of that.

## Main definitions

* `fullLog` — all lines about a fixture
* `told` — the lines about entries that are added
* `firstFailure?` — the first of some answers that is a failure
* `StopsBefore` — a log that stops before the line about an entry

## Main results

* `told_plan` — the lines about a whole plan are all lines about the fixture
* `addEntries_append` — entries are added behind others that have been added
* `addEntries_of_added`, `addEntries_of_refused` — all entries are added, or those up to the first
  one that is refused
* `build_log_of_added`, `build_log_of_refused` — the log if all entries are added, and if one is not
* `log_of_build` — the log of every fixture
-/

namespace Folio.Fixture

variable {c : Config} {e : PlannedEntry}

/-! ### Lines -/

/-- The line tells of an entry that has been added. -/
def Progress.isAdded : Progress → Bool
  | added _ => true
  | repetition _ => false

/-- All lines about a fixture. Every repetition is told with its methods behind it, and without
methods nothing is told. -/
def fullLog (c : Config) : List Progress :=
  if c.methods = [] then []
  else (List.range c.iterations).flatMap fun i =>
    .repetition i :: c.methods.map fun options => .added options.method

/-- How the lines read. -/
theorem map_text_fullLog (c : Config) : (fullLog c).map Progress.text =
    if c.methods = [] then []
    else (List.range c.iterations).flatMap fun i =>
      ("i=" ++ toString i) :: c.methods.map fun options => options.method.label := by
  rw [fullLog]
  split
  · rfl
  · rw [List.map_flatMap]
    apply List.flatMap_congr
    intro i _
    rw [List.map_cons, List.map_map]
    rfl

/-- The lines about entries that are added behind one of the repetition `previous`, if any. -/
def told (previous : Option Nat) : List PlannedEntry → List Progress
  | [] => []
  | e :: rest =>
    Progress.before previous e ++ .added e.options.method :: told (some e.index) rest

/-- The repetition that has been reached behind entries. -/
def reached (previous : Option Nat) (entries : List PlannedEntry) : Option Nat :=
  entries.foldl (fun _ e => some e.index) previous

/-- Lines are told in the order of the entries. -/
theorem told_append (previous : Option Nat) (l l' : List PlannedEntry) :
    told previous (l ++ l') = told previous l ++ told (reached previous l) l' := by
  induction l generalizing previous with
  | nil => rfl
  | cons e l ih =>
    rw [List.cons_append, told, told, ih, List.append_assoc, List.cons_append]
    rfl

theorem countP_before (previous : Option Nat) (e : PlannedEntry) :
    (Progress.before previous e).countP Progress.isAdded = 0 := by
  rw [Progress.before]
  split
  · rfl
  · rfl

theorem reverse_before (previous : Option Nat) (e : PlannedEntry) :
    (Progress.before previous e).reverse = Progress.before previous e := by
  rw [Progress.before]
  split
  · rfl
  · rfl

/-- There is one line for every entry. -/
theorem countP_told (previous : Option Nat) (entries : List PlannedEntry) :
    (told previous entries).countP Progress.isAdded = entries.length := by
  induction entries generalizing previous with
  | nil => rfl
  | cons e rest ih =>
    rw [told, List.countP_append, countP_before, List.countP_cons, ih, Nat.zero_add]
    rfl

theorem reached_eq_some {previous : Option Nat} {entries : List PlannedEntry} {i : Nat}
    (h : reached previous entries = some i) : previous = some i ∨ ∃ e ∈ entries, e.index = i := by
  induction entries generalizing previous with
  | nil => exact .inl h
  | cons e rest ih =>
    right
    rcases ih h with hfirst | ⟨e', he', hindex⟩
    · exact ⟨e, List.mem_cons_self, Option.some.inj hfirst⟩
    · exact ⟨e', List.mem_cons_of_mem _ he', hindex⟩

/-- Behind whole repetitions the next one has not been reached. -/
theorem reached_ne {before : List PlannedEntry} {i : Nat} (planned : before <+: plan c)
    (whole : before.length = i * c.methods.length) : reached none before ≠ some i := by
  intro hreached
  rcases reached_eq_some hreached with hnone | ⟨b, hb, rfl⟩
  · cases hnone
  · obtain ⟨p, hp, rfl⟩ := List.getElem_of_mem hb
    have hplan : (plan c)[p]? = some before[p] :=
      List.getElem?_eq_some_iff.mpr ⟨hp.trans_le planned.length_le, (planned.getElem hp).symm⟩
    rw [index_of_getElem?_plan hplan] at whole
    have hle := Nat.div_mul_le_self p c.methods.length
    omega

/-- The lines about the entries of one repetition that has been told. -/
theorem told_of (i : Nat) (methods : List EntryOptions) :
    told (some i) (methods.map (.of i)) = methods.map fun options => .added options.method := by
  induction methods with
  | nil => rfl
  | cons options rest ih =>
    have hindex : (PlannedEntry.of i options).index = i := rfl
    rw [List.map_cons, told, hindex, ih, Progress.before, if_pos (congrArg some hindex.symm)]
    rfl

/-- The lines about a repetition. -/
theorem told_repetition {previous : Option Nat} {i : Nat} (fresh : previous ≠ some i)
    {methods : List EntryOptions} (h : methods ≠ []) :
    told previous (methods.map (.of i)) =
      .repetition i :: methods.map fun options => .added options.method := by
  obtain ⟨first, rest, rfl⟩ := List.exists_cons_of_ne_nil h
  have hfirst : previous ≠ some (PlannedEntry.of i first).index := fresh
  rw [List.map_cons, told, Progress.before, if_neg hfirst]
  exact congrArg (fun lines => Progress.repetition i :: .added first.method :: lines) (told_of i rest)

/-- The lines about a whole plan are all lines about the fixture. -/
theorem told_plan (c : Config) : told none (plan c) = fullLog c := by
  obtain ⟨source, output, n, methods⟩ := c
  by_cases h : methods = []
  · have hplan : plan ⟨source, output, n, methods⟩ = [] := plan_eq_nil_iff.mpr (.inr h)
    rw [hplan, fullLog, if_pos h]
    rfl
  rw [fullLog, if_neg h]
  induction n with
  | zero => rfl
  | succ n ih =>
    have hplan : plan ⟨source, output, n + 1, methods⟩ =
        plan ⟨source, output, n, methods⟩ ++ methods.map (.of n) := by
      simp [plan, List.range_succ]
    have hfresh : reached none (plan ⟨source, output, n, methods⟩) ≠ some n :=
      reached_ne List.prefix_rfl (length_plan _)
    rw [hplan, told_append, ih, told_repetition hfresh h, List.range_succ, List.flatMap_append,
      List.flatMap_singleton]

/-! ### Failures -/

/-- The first of the answers that is a failure. -/
def firstFailure? (answers : List (Except Error Unit)) : Option Nat :=
  answers.findIdx? fun answer => !answer.isOk

theorem firstFailure?_cons_ok (u : Unit) (answers : List (Except Error Unit)) :
    firstFailure? (.ok u :: answers) = (firstFailure? answers).map (· + 1) := by
  rw [firstFailure?, List.findIdx?_cons]
  rfl

theorem firstFailure?_cons_error (error : Error) (answers : List (Except Error Unit)) :
    firstFailure? (.error error :: answers) = some 0 := by
  rw [firstFailure?, List.findIdx?_cons]
  rfl

section Runs

variable {σ : Type} [Sink σ] [Codec] {w w₁ w₂ : Writer σ} {document : ByteArray}
  {modified : DosTime} {before entries : List PlannedEntry}

theorem addAll_cons_addition (w : Writer σ) (e : PlannedEntry) (rest : List PlannedEntry) :
    w.addAll ((e :: rest).map (·.addition document modified)) =
      let next := w.add e.name document (e.optionsAt modified)
      let others := next.2.addAll (rest.map (·.addition document modified))
      (next.1 :: others.1, others.2) := rfl

/-- Without a failure all entries are added. -/
theorem addAll_of_firstFailure?_eq_none
    (h : firstFailure? (w.addAll (entries.map (·.addition document modified))).1 = none) :
    (w.addAll (entries.map (·.addition document modified))).1 = entries.map fun _ => .ok () := by
  induction entries generalizing w with
  | nil => rfl
  | cons e rest ih =>
    rw [addAll_cons_addition] at h ⊢
    rcases hadd : w.add e.name document (e.optionsAt modified) with ⟨error | _, w'⟩
    · simp only [hadd, firstFailure?_cons_error] at h
      cases h
    · simp only [hadd, firstFailure?_cons_ok, Option.map_eq_none_iff] at h
      simp only [ih h, List.map_cons]

/-- All entries before the first failure are added. -/
theorem exists_of_firstFailure?_eq_some {p : Nat}
    (h : firstFailure? (w.addAll (entries.map (·.addition document modified))).1 = some p) :
    ∃ before e after error w₁ w₂, entries = before ++ e :: after ∧ before.length = p ∧
      w.addAll (before.map (·.addition document modified)) = (before.map fun _ => .ok (), w₁) ∧
      w₁.add e.name document (e.optionsAt modified) = (.error error, w₂) := by
  induction entries generalizing w p with
  | nil => cases h
  | cons e rest ih =>
    rw [addAll_cons_addition] at h
    rcases hadd : w.add e.name document (e.optionsAt modified) with ⟨error | _, w'⟩
    · simp only [hadd, firstFailure?_cons_error, Option.some.injEq] at h
      exact ⟨[], e, rest, error, w, w', rfl, h, rfl, hadd⟩
    · simp only [hadd, firstFailure?_cons_ok, Option.map_eq_some_iff] at h
      obtain ⟨q, hq, rfl⟩ := h
      obtain ⟨before, b, after, error, w₁, w₂, rfl, rfl, hbefore, hrefused⟩ := ih hq
      refine ⟨e :: before, b, after, error, w₁, w₂, rfl, rfl, ?_, hrefused⟩
      rw [addAll_cons_addition]
      simp only [hadd, hbefore, List.map_cons]

/-- Once the first entries have been added, the others are added behind them. -/
theorem addEntries_append
    (added : w.addAll (before.map (·.addition document modified)) = (before.map fun _ => .ok (), w₁))
    (rest : List PlannedEntry) (previous : Option Nat) (log : List Progress) :
    addEntries document modified (before ++ rest) previous log w =
      addEntries document modified rest (reached previous before)
        ((told previous before).reverse ++ log) w₁ := by
  induction before generalizing w previous log with
  | nil =>
    obtain rfl : w = w₁ := congrArg Prod.snd added
    rfl
  | cons b before ih =>
    rw [addAll_cons_addition] at added
    simp only [List.map_cons, Prod.mk.injEq, List.cons.injEq] at added
    obtain ⟨⟨hfirst, hrest⟩, hlast⟩ := added
    rcases hadd : w.add b.name document (b.optionsAt modified) with ⟨result, w'⟩
    rw [hadd] at hfirst hrest hlast
    obtain rfl : result = .ok () := hfirst
    simp only [List.cons_append, addEntries, hadd]
    -- The lines about the first entry stand at the end of what has been told, last one first.
    rw [ih (Prod.ext hrest hlast), told, List.reverse_append, reverse_before, List.reverse_cons,
      List.append_assoc, List.append_assoc]
    rfl

/-- If all entries of a plan are added, everything is told. -/
theorem addEntries_of_added
    (added : w.addAll ((plan c).map (·.addition document modified)) =
      ((plan c).map fun _ => .ok (), w₁)) :
    addEntries document modified (plan c) none [] w = ((.ok (), w₁), fullLog c) := by
  have hentries := addEntries_append added [] none []
  rwa [List.append_nil, addEntries, List.append_nil, List.reverse_reverse, told_plan] at hentries

/-- Entries are added up to the first one that is refused. -/
theorem addEntries_of_refused {error : Error}
    (added : w.addAll (before.map (·.addition document modified)) = (before.map fun _ => .ok (), w₁))
    (refused : w₁.add e.name document (e.optionsAt modified) = (.error error, w₂))
    (previous : Option Nat) (log : List Progress) (after : List PlannedEntry) :
    addEntries document modified (before ++ e :: after) previous log w =
      ((.error error, w₂),
        log.reverse ++ (told previous before ++ Progress.before (reached previous before) e)) := by
  rw [addEntries_append added]
  simp only [addEntries, refused, List.reverse_append, List.reverse_reverse, reverse_before,
    List.append_assoc]

end Runs

/-! ### Fixtures -/

/-- A log that stops before the line about the entry at a place of the plan. -/
structure StopsBefore (c : Config) (p : Nat) (log : List Progress) : Prop where
  /-- All that would be told begins with the log, and goes on with the line about the entry. -/
  next : ∃ e rest, (plan c)[p]? = some e ∧ fullLog c = log ++ .added e.options.method :: rest
  /-- There is a line for every entry before it. -/
  count : log.countP Progress.isAdded = p
  /-- If the entry is the first of a repetition, the last line is the one that tells of that. -/
  opening : ∀ i, p = i * c.methods.length → log.getLast? = some (.repetition i)

/-- The lines about the entries before one of them, and about the repetition that it begins. -/
theorem stopsBefore_told {before after : List PlannedEntry} (split : plan c = before ++ e :: after) :
    StopsBefore c before.length (told none before ++ Progress.before (reached none before) e) := by
  have planned : before <+: plan c := ⟨e :: after, split.symm⟩
  have hget : (plan c)[before.length]? = some e := by
    rw [split, List.getElem?_append_right le_rfl, Nat.sub_self]
    rfl
  constructor
  case next =>
    refine ⟨e, told (some e.index) after, hget, ?_⟩
    rw [← told_plan, split, told_append, told, List.append_assoc]
  case count =>
    rw [List.countP_append, countP_told, countP_before, Nat.add_zero]
  case opening =>
    intro i whole
    have hpos : 0 < c.methods.length := by
      obtain ⟨hlt, -⟩ := List.getElem?_eq_some_iff.mp hget
      rw [length_plan] at hlt
      exact Nat.pos_of_lt_mul_left hlt
    have hindex : e.index = i := by
      rw [index_of_getElem?_plan hget, whole, Nat.mul_div_cancel _ hpos]
    rw [Progress.before, hindex, if_neg (reached_ne planned whole), List.getLast?_concat]

theorem complete_log (t : FileTree) (c : Config) (w : Writer PendingFile) (log : List Progress) :
    (complete t c w log).log = log := by
  rw [complete]
  split
  · rfl
  · split
    · rfl
    · rfl

variable [Codec] [LocalTime] {t : FileTree} {document : File}

/-- If all entries are added, everything is told. -/
theorem build_log_of_added {w w' : Writer PendingFile} (load : c.source.load t = .ok document)
    (created : Writer.create t c.output = .ok w)
    (added : w.addAll (additions c document) = ((plan c).map fun _ => .ok (), w')) :
    (build t c).log = fullLog c := by
  simp only [build, load, created, addEntries_of_added added, complete_log]

/-- If an entry is refused, the lines stop before it. -/
theorem build_log_of_refused {w w₁ w₂ : Writer PendingFile} {before after : List PlannedEntry}
    {error : Error} (load : c.source.load t = .ok document)
    (created : Writer.create t c.output = .ok w) (split : plan c = before ++ e :: after)
    (added : w.addAll (before.map (·.addition document.contents (.ofTimestamp document.modified))) =
      (before.map fun _ => .ok (), w₁))
    (refused : w₁.add e.name document.contents (e.optionsAt (.ofTimestamp document.modified)) =
      (.error error, w₂)) :
    StopsBefore c before.length (build t c).log := by
  have hentries := addEntries_of_refused added refused none [] after
  rw [← split, List.reverse_nil, List.nil_append] at hentries
  simp only [build, load, created, hentries]
  exact stopsBefore_told split

/-- What is told of a fixture. All lines about it are one for every repetition, in order, each with
the labels of all methods behind it; without methods there are none. If the document cannot be read
or the archive cannot be begun, nothing is told. If an entry is refused, the lines stop before the
one about that entry. If all entries are added, everything is told, whatever becomes of the archive
then. -/
theorem log_of_build (t : FileTree) (c : Config) :
    (fullLog c).map Progress.text =
      (if c.methods = [] then []
      else (List.range c.iterations).flatMap fun i =>
        ("i=" ++ toString i) :: c.methods.map fun options => options.method.label) ∧
    match c.source.load t, Writer.create t c.output with
    | .ok document, .ok w =>
      match firstFailure? (w.addAll (additions c document)).1 with
      | none => (build t c).log = fullLog c
      | some p => StopsBefore c p (build t c).log
    | _, _ => (build t c).log = [] := by
  refine ⟨map_text_fullLog c, ?_⟩
  cases load : c.source.load t with
  | error fault => simp only [build, load]
  | ok document =>
    cases created : Writer.create t c.output with
    | error error => simp only [build, load, created]
    | ok w =>
      cases hfailure : firstFailure? (w.addAll (additions c document)).1 with
      | none =>
        have hadded := addAll_of_firstFailure?_eq_none hfailure
        simp only [hfailure]
        exact build_log_of_added load created (Prod.ext hadded rfl)
      | some p =>
        obtain ⟨before, e, after, error, w₁, w₂, split, rfl, added, refused⟩ :=
          exists_of_firstFailure?_eq_some hfailure
        simp only [hfailure]
        exact build_log_of_refused load created split added refused

/-- The lines about two repetitions. -/
example : (fullLog { Config.usual with iterations := 2 }).map Progress.text =
    ["i=0", "stored", "deflated", "bzip2", "i=1", "stored", "deflated", "bzip2"] := by
  decide +kernel

end Folio.Fixture

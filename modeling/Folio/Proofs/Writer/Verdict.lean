import Folio.Proofs.Writer.Calls
import Folio.Proofs.Writer.Layout

/-!
# What becomes of an addition

The answer to an addition is a matter of the answers before it. They tell whether the sink has
failed, which names are taken, how many entries there are and where the next one starts, and a
writer knows no more than that. What speaks against an addition is a list of objections, and the
first of them that applies is the answer.

## Main definitions

* `Addition.entry` — what is written for an addition
* `EntryOptions.LevelFits` — the level is one of the method
* `History` — additions with the answers to them
* `History.objections` — what may speak against an addition, in order
* `History.verdict?` — the first objection that applies
* `Writer.Reflects` — a writer knows what a history tells

## Main results

* `Writer.Reflects.callAll` — the writer after a run knows the history of the run
* `Writer.Reflects.add_eq` — the answer to an addition
* `Writer.add_decided` — the same after any run from an empty writer
-/

namespace Folio

/-! ### What is written for an addition -/

namespace Addition

/-- The name under which an addition is made. -/
def entryName (a : Addition) : String := String.ofList (EntryName.withSlashes a.name)

/-- Why the name cannot be the name of an entry. -/
def nameFault? (a : Addition) : Option Error :=
  (EntryName.fault? (EntryName.withSlashes a.name)).map (.invalidName a.name)

/-- The level that is asked for, if the method does not have it. -/
def levelFault? (a : Addition) : Option Error :=
  a.options.level.bind fun level =>
    if a.options.method.Accepts level then none
    else some (.invalidLevel a.options.method level)

theorem normalize_eq (a : Addition) :
    EntryName.normalize a.name =
      match a.nameFault? with
      | some error => .error error
      | none => .ok a.entryName := by
  rw [EntryName.normalize, nameFault?]
  cases EntryName.fault? (EntryName.withSlashes a.name) with
  | some fault => rfl
  | none => rfl

/-- Two spellings of a name are one name. -/
example : (Addition.mk "dir\\x" .empty default).entryName =
    (Addition.mk "dir/x" .empty default).entryName := by decide

variable [Codec]

/-- The payload for the data, nothing if the method does not have the level. -/
def payload (a : Addition) : ByteArray :=
  match compress a.options.method a.options.level a.data with
  | .ok payload => payload
  | .error _ => .empty

/-- What is written for an addition. -/
def entry (a : Addition) : PreparedEntry :=
  Writer.describe a.entryName a.data a.payload a.options

/-- Only a level that the method does not have keeps data from being compressed. -/
theorem compress_eq (a : Addition) :
    compress a.options.method a.options.level a.data =
      match a.levelFault? with
      | some error => .error error
      | none => .ok a.payload := by
  obtain ⟨name, data, method, level, modified, permissions⟩ := a
  cases level with
  | none => cases method <;> rfl
  | some level =>
    simp only [payload, levelFault?, Option.bind_some]
    by_cases accepts : method.Accepts level
    · rw [if_pos accepts]
      cases method <;> simp [compress, Method.resolve?, accepts]
    · rw [if_neg accepts]
      -- Storing has no levels and so refuses none.
      cases method with
      | stored => exact absurd trivial accepts
      | deflated => simp [compress, Method.resolve?, accepts]
      | bzip2 => simp [compress, Method.resolve?, accepts]

end Addition

/-! ### Levels -/

/-- The level that is asked for is one of the method. Storing ignores it. -/
def EntryOptions.LevelFits (o : EntryOptions) : Prop :=
  match o.method with
  | .stored => True
  | .deflated => ∀ level, o.level = some level → level ≤ 9
  | .bzip2 => ∀ level, o.level = some level → 1 ≤ level ∧ level ≤ 9

theorem EntryOptions.levelFits_iff (o : EntryOptions) :
    o.LevelFits ↔ ∀ level, o.level = some level → o.method.Accepts level := by
  rw [LevelFits]
  cases o.method with
  | stored => exact ⟨fun _ _ _ => trivial, fun _ => trivial⟩
  | deflated => exact Iff.rfl
  | bzip2 => exact Iff.rfl

theorem Addition.levelFault?_eq_none {a : Addition} (h : a.options.LevelFits) :
    a.levelFault? = none := by
  rw [EntryOptions.levelFits_iff] at h
  rw [levelFault?]
  cases hlevel : a.options.level with
  | none => rfl
  | some level => exact if_pos (h level hlevel)

theorem Addition.exists_levelFault? {a : Addition} (h : ¬ a.options.LevelFits) :
    ∃ level, a.options.level = some level ∧
      a.levelFault? = some (.invalidLevel a.options.method level) := by
  rw [EntryOptions.levelFits_iff] at h
  push Not at h
  obtain ⟨level, hlevel, hrefused⟩ := h
  refine ⟨level, hlevel, ?_⟩
  rw [levelFault?, hlevel]
  exact if_neg hrefused

/-! ### Objections -/

/-- The first objection that applies, or the result if there is none. -/
def judge {α : Type} (objections : List (Option Error)) (result : α) : Except Error α :=
  match objections.findSome? id with
  | some error => .error error
  | none => .ok result

section Judge

variable {α β : Type} {objections : List (Option Error)} {error : Error} {result : α}

@[simp] theorem judge_none (objections : List (Option Error)) (result : α) :
    judge (none :: objections) result = judge objections result := rfl

@[simp] theorem judge_some (error : Error) (objections : List (Option Error)) (result : α) :
    judge (some error :: objections) result = .error error := rfl

/-- A check is an objection to what follows it. -/
theorem unless_eq_judge {p q : Prop} [Decidable p] [Decidable q] {x : Except Error α} (hpq : p ↔ q)
    (rest : x = judge objections result) :
    (if p then throw error >>= fun _ : PUnit => x else x) =
      judge ((if q then some error else none) :: objections) result := by
  by_cases h : p
  · rw [if_pos h, if_pos (hpq.mp h), judge_some]
    rfl
  · rw [if_neg h, if_neg (mt hpq.mpr h), judge_none]
    exact rest

/-- A computation that may fail is an objection to what is done with its result. -/
theorem bind_eq_judge {x : Except Error β} {fault : Option Error} {b : β} {f : β → Except Error α}
    (hx : x = match fault with
      | some error => .error error
      | none => .ok b)
    (rest : f b = judge objections result) : (x >>= f) = judge (fault :: objections) result := by
  rw [hx]
  cases fault with
  | some error => rfl
  | none => exact rest

end Judge

/-! ### Histories -/

/-- Additions with the answers to them. -/
abbrev History := List (Addition × Except Error Unit)

namespace History

section Calls

variable [LocalTime]

/-- The history of calls and the answers to them. A call whose file cannot be read is no
addition. -/
def of (calls : List Call) (results : List (Except Error Unit)) : History :=
  (calls.zip results).filterMap fun (c, result) => c.addition.toOption.map (·, result)

@[simp] theorem of_nil (results : List (Except Error Unit)) : of [] results = [] := rfl

theorem of_cons_of_ok {c : Call} {a : Addition} (hc : c.addition = .ok a) (calls : List Call)
    (result : Except Error Unit) (results : List (Except Error Unit)) :
    of (c :: calls) (result :: results) = (a, result) :: of calls results := by
  simp [of, hc, Except.toOption]

theorem of_cons_of_error {c : Call} {fault : IoError} (hc : c.addition = .error fault)
    (calls : List Call) (result : Except Error Unit) (results : List (Except Error Unit)) :
    of (c :: calls) (result :: results) = of calls results := by
  simp [of, hc, Except.toOption]

end Calls

/-- The additions that have been made. -/
def done (h : History) : List Addition :=
  h.filterMap fun (a, result) =>
    match result with
    | .ok () => some a
    | .error _ => none

/-- The sink has failed. -/
def failed (h : History) : Bool :=
  h.any fun (_, result) =>
    match result with
    | .error (.io _) => true
    | _ => false

/-- One more addition and the answer to it. -/
def answered (h : History) (a : Addition) (result : Except Error Unit) : History :=
  h ++ [(a, result)]

section Answered

variable (h : History) (a : Addition)

theorem append_cons (result : Except Error Unit) (more : History) :
    h ++ (a, result) :: more = h.answered a result ++ more := by
  rw [answered, List.append_assoc, List.singleton_append]

@[simp] theorem done_answered_ok : (h.answered a (.ok ())).done = h.done ++ [a] :=
  List.filterMap_append

@[simp] theorem done_answered_error (error : Error) : (h.answered a (.error error)).done = h.done :=
  List.filterMap_append.trans (List.append_nil _)

theorem failed_answered (result : Except Error Unit) :
    (h.answered a result).failed = (h.failed || failed [(a, result)]) := List.any_append

@[simp] theorem failed_answered_ok : (h.answered a (.ok ())).failed = h.failed :=
  (h.failed_answered a _).trans (Bool.or_false _)

@[simp] theorem failed_answered_io (fault : IoError) :
    (h.answered a (.error (.io fault))).failed = true :=
  (h.failed_answered a _).trans (Bool.or_true _)

theorem failed_answered_of_refused {error : Error} (herror : refused (.error error) = true) :
    (h.answered a (.error error)).failed = h.failed := by
  rw [failed_answered]
  cases error with
  | io fault => cases herror
  | _ => exact Bool.or_false _

end Answered

/-! ### Additions that have all been made -/

/-- Additions that have all been made. -/
def made (calls : List Addition) : History := calls.map fun a => (a, .ok ())

@[simp] theorem done_made (calls : List Addition) : (made calls).done = calls := by
  simp [made, done, List.filterMap_map]

@[simp] theorem failed_made (calls : List Addition) : (made calls).failed = false := by
  simp [made, failed]

theorem made_append (calls : List Addition) (a : Addition) :
    made (calls ++ [a]) = (made calls).answered a (.ok ()) := List.map_append

variable [Codec]

/-- The number of bytes of the entries that have been written. -/
def offset (h : History) : Nat := (body (h.done.map Addition.entry)).length

/-- What may speak against an addition, in the order in which it is looked at. -/
def objections (h : History) (a : Addition) : List (Option Error) :=
  [if h.failed then some .brokenWriter else none,
    a.nameFault?,
    if a.entryName ∈ h.done.map Addition.entryName then some (.duplicateEntry a.entryName)
      else none,
    if 65534 ≤ h.done.length then some (.capacity .entries) else none,
    if 0x100000000 ≤ h.offset then some (.capacity (.entryOffset a.entryName)) else none,
    if 0x100000000 ≤ a.data.size then some (.capacity (.dataSize a.entryName)) else none,
    a.levelFault?,
    if 0x100000000 ≤ a.payload.size then some (.capacity (.payloadSize a.entryName)) else none]

/-- The first objection that applies. -/
def verdict? (h : History) (a : Addition) : Option Error := (h.objections a).findSome? id

/-- Every objection is a refusal. -/
theorem refused_of_mem_objections {h : History} {a : Addition} {error : Error}
    (hmem : some error ∈ h.objections a) : refused (.error error) = true := by
  have check {p : Prop} [Decidable p] {e : Error} (he : refused (.error e) = true)
      (heq : some error = if p then some e else none) : refused (.error error) = true := by
    split_ifs at heq
    cases heq
    exact he
  simp only [objections, List.mem_cons, List.not_mem_nil, or_false] at hmem
  rcases hmem with hbroken | hname | htaken | hcount | hoffset | hdata | hlevel | hpayload
  · exact check rfl hbroken
  · obtain ⟨fault, -, rfl⟩ := Option.map_eq_some_iff.mp hname.symm
    rfl
  · exact check rfl htaken
  · exact check rfl hcount
  · exact check rfl hoffset
  · exact check rfl hdata
  · obtain ⟨level, -, heq⟩ := Option.bind_eq_some_iff.mp hlevel.symm
    split_ifs at heq
    cases heq
    rfl
  · exact check rfl hpayload

/-- So a verdict is a refusal. -/
theorem refused_of_verdict? {h : History} {a : Addition} {error : Error}
    (verdict : h.verdict? a = some error) : refused (.error error) = true := by
  obtain ⟨objection, hmem, rfl⟩ := List.exists_of_findSome?_eq_some verdict
  exact refused_of_mem_objections hmem

end History

/-! ### What a writer knows -/

namespace Writer

variable {σ : Type}

theorem size_record (w : Writer σ) (e : PreparedEntry) (sink : σ) :
    (w.record e sink).size = w.size + 1 := Array.size_push _

variable [Codec] {w : Writer σ} {h : History}

/-- The writer knows what the history tells. -/
structure Reflects (w : Writer σ) (h : History) : Prop where
  /-- Whether its sink has failed. -/
  broken : w.broken = h.failed
  /-- The names of the additions that have been made. -/
  names : ∀ name, w.names.contains name = true ↔ name ∈ h.done.map Addition.entryName
  /-- Their number. -/
  size : w.size = h.done.length
  /-- The number of bytes that have been written for them. -/
  offset : w.offset = h.offset

theorem start_reflects (sink : σ) : (start sink).Reflects [] where
  broken := rfl
  names name := by simp [start, History.done]
  size := rfl
  offset := rfl

namespace Reflects

/-- What is wrong with an addition is the first objection that applies. -/
theorem prepare_eq (k : w.Reflects h) (a : Addition) :
    w.prepare a.name a.data a.options = judge (h.objections a) a.entry := by
  rw [prepare, k.broken, k.size, k.offset]
  -- The checks come in the order of the objections, and each looks at what the writer knows.
  refine unless_eq_judge Iff.rfl (bind_eq_judge a.normalize_eq ?_)
  refine unless_eq_judge (k.names _) (unless_eq_judge Iff.rfl (unless_eq_judge Iff.rfl ?_))
  refine unless_eq_judge Iff.rfl (bind_eq_judge a.compress_eq ?_)
  exact unless_eq_judge Iff.rfl rfl

/-- A refusal tells nothing new. -/
theorem answered_of_refused (k : w.Reflects h) (a : Addition) {error : Error}
    (herror : refused (.error error) = true) : w.Reflects (h.answered a (.error error)) where
  broken := by
    rw [h.failed_answered_of_refused a herror]
    exact k.broken
  names := by simpa using k.names
  size := by simpa using k.size
  offset := by simpa [History.offset] using k.offset

/-- The sink fails. -/
theorem answered_of_fault (k : w.Reflects h) (a : Addition) (sink : σ) (fault : IoError) :
    { w with sink, broken := true }.Reflects (h.answered a (.error (.io fault))) where
  broken := by simp
  names := by simpa using k.names
  size := by
    rw [History.done_answered_error]
    exact k.size
  offset := by simpa [History.offset] using k.offset

/-- An addition is made. -/
theorem answered_of_made (k : w.Reflects h) (a : Addition) (sink : σ) :
    (w.record a.entry sink).Reflects (h.answered a (.ok ())) where
  broken := by
    rw [History.failed_answered_ok]
    exact k.broken
  names name := by
    rw [contains_names_record, k.names name, History.done_answered_ok, List.map_append,
      List.mem_append, List.map_singleton, List.mem_singleton]
    rfl
  size := by
    rw [size_record, k.size, History.done_answered_ok, List.length_append, List.length_singleton]
  offset := by
    have hoffset : (w.record a.entry sink).offset =
        w.offset + a.entry.header.encodedSize + a.entry.payload.size := rfl
    rw [hoffset, k.offset, Nat.add_assoc, ← a.entry.length_bytes]
    simp [History.offset]

variable [Sink σ]

/-- The answer to an addition. It is the first objection that applies. If there is none the entry
is written, and the addition fails only with the sink. -/
theorem add_eq (k : w.Reflects h) (a : Addition) :
    w.add a.name a.data a.options =
      match h.verdict? a with
      | some error => (.error error, w)
      | none =>
        match Sink.writeAll w.sink a.entry.pieces with
        | (.error fault, sink) => (.error (.io fault), { w with sink, broken := true })
        | (.ok (), sink) => (.ok (), w.record a.entry sink) := by
  rw [Writer.add, k.prepare_eq, judge, History.verdict?]
  cases (h.objections a).findSome? id with
  | some error => rfl
  | none => exact append_eq w a.entry

/-- A sink without a limit leaves no other answer than the verdict. -/
theorem add_eq_verdict? {w : Writer MemorySink} (k : w.Reflects h) (unlimited : w.Unlimited)
    (a : Addition) :
    (w.add a.name a.data a.options).1 =
      match h.verdict? a with
      | some error => .error error
      | none => .ok () := by
  rw [k.add_eq]
  cases h.verdict? a with
  | some error => rfl
  | none =>
    simp only
    rw [MemorySink.writeAll_of_unbounded unlimited.room]

/-- After an addition the writer knows the answer to it. -/
theorem add (k : w.Reflects h) (a : Addition) :
    (w.add a.name a.data a.options).2.Reflects
      (h.answered a (w.add a.name a.data a.options).1) := by
  rw [k.add_eq]
  cases verdict : h.verdict? a with
  | some error => exact k.answered_of_refused a (History.refused_of_verdict? verdict)
  | none =>
    simp only
    rcases Sink.writeAll w.sink a.entry.pieces with ⟨fault | _, sink⟩
    · exact k.answered_of_fault a sink fault
    · exact k.answered_of_made a sink

/-- After calls the writer knows their history. -/
theorem callAll [LocalTime] (k : w.Reflects h) (calls : List Call) :
    (w.callAll calls).2.Reflects (h ++ History.of calls (w.callAll calls).1) := by
  induction calls generalizing w h with
  | nil => simpa using k
  | cons c rest ih =>
    simp only [callAll_cons]
    cases hc : c.addition with
    | error fault =>
      -- A file that cannot be read leaves no trace in the writer, and none in the history.
      have hcall : w.call c = (.error (.io fault), w) := by rw [call_eq, hc]
      rw [hcall, History.of_cons_of_error hc]
      exact ih k
    | ok a =>
      have hcall : w.call c = w.add a.name a.data a.options := by rw [call_eq, hc]
      rw [hcall, History.of_cons_of_ok hc, History.append_cons]
      exact ih (k.add a)

end Reflects

/-- After any calls to an empty writer, the answer to a next addition is the first objection that
applies, of which the writer keeps no trace. If there is none the entry is written, and is then the
only new one, unless the sink fails. There are as many entries as additions have been made, and
without the refused calls the other ones have the same answers and lead to the same writer. -/
theorem add_decided [Sink σ] [LocalTime] (sink : σ) (calls : List Call) :
    let run := (start sink).callAll calls
    let h := History.of calls run.1
    (∀ a : Addition, run.2.add a.name a.data a.options =
        match h.verdict? a with
        | some error => (.error error, run.2)
        | none =>
          match Sink.writeAll run.2.sink a.entry.pieces with
          | (.error fault, sink) => (.error (.io fault), { run.2 with sink, broken := true })
          | (.ok (), sink) => (.ok (), run.2.record a.entry sink)) ∧
      run.2.size = h.done.length ∧
      (start sink).callAll (accepted calls run.1) =
        (run.1.filter fun result => !refused result, run.2) := by
  have k := (start_reflects sink).callAll calls
  rw [List.nil_append] at k
  exact ⟨k.add_eq, k.size, callAll_accepted _ calls⟩

end Writer

end Folio

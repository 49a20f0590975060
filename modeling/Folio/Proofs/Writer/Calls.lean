import Folio.Proofs.Writer.Run
import Folio.Writer.Disk

/-!
# Calls

An entry is asked of a writer with its data, or with a file that holds the data. In the end both are
additions, unless the file cannot be read. A call that is refused does not reach the sink and leaves
no trace, so a run without the refused calls is the same run.

## Main definitions

* `Call` — what a writer is asked for
* `Call.addition` — the addition that a call comes to
* `Writer.callAll` — makes calls, one after another
* `refused` — the answers of calls that have not reached a sink or a file that failed

## Main results

* `Writer.call_of_refused` — a refused call leaves the writer as it is
* `Writer.callAll_accepted` — a run without its refused calls
-/

namespace Folio

/-- What a writer is asked for: the data of an entry is given, or a file of the tree holds it. The
tree is that at the time of the call. -/
inductive Call where
  | data (addition : Addition)
  | file (tree : FileTree) (name path : String) (options : EntryOptions)

/-- The addition that a call comes to, or why its file cannot be read. -/
def Call.addition [LocalTime] : Call → Except IoError Addition
  | data a => .ok a
  | file tree name path options =>
    (tree.file path).map fun file =>
      ⟨name, file.contents,
        { options with modified := some (options.modified.getD (.ofTimestamp file.modified)) }⟩

/-- The call has been refused for what it asks. Nothing has failed to be read or written. -/
def refused : Except Error Unit → Bool
  | .ok () => false
  | .error (.io _) => false
  | .error _ => true

/-- The calls that have not been refused. -/
def accepted (calls : List Call) (results : List (Except Error Unit)) : List Call :=
  ((calls.zip results).filter fun answered => !refused answered.2).map Prod.fst

@[simp] theorem accepted_nil (results : List (Except Error Unit)) : accepted [] results = [] := rfl

theorem accepted_cons (c : Call) (calls : List Call) (result : Except Error Unit)
    (results : List (Except Error Unit)) : accepted (c :: calls) (result :: results) =
      if refused result then accepted calls results else c :: accepted calls results := by
  cases h : refused result <;> simp [accepted, h]

namespace Writer

variable {σ : Type} [Sink σ] [Codec] [LocalTime]

/-- Makes a call. -/
def call (w : Writer σ) : Call → Except Error Unit × Writer σ
  | .data a => w.add a.name a.data a.options
  | .file tree name path options => w.addFile tree name path options

/-- A call is the addition that it comes to. -/
theorem call_eq (w : Writer σ) (c : Call) :
    w.call c =
      match c.addition with
      | .error fault => (.error (.io fault), w)
      | .ok a => w.add a.name a.data a.options := by
  cases c with
  | data a => rfl
  | file tree name path options =>
    simp only [call, addFile, Call.addition]
    cases tree.file path with
    | error fault => rfl
    | ok file => rfl

omit [LocalTime] in
/-- An addition that is refused is refused before anything is written. -/
theorem add_of_refused_answer {w : Writer σ} {a : Addition}
    (h : refused (w.add a.name a.data a.options).1 = true) :
    (w.add a.name a.data a.options).2 = w := by
  cases hprepare : w.prepare a.name a.data a.options with
  | error error => rw [add, hprepare]
  | ok e =>
    have hadd : w.add a.name a.data a.options = w.append e := by rw [add, hprepare]
    rw [hadd, append_eq] at h
    -- What has been prepared is written, or the sink fails.
    rcases hwrite : Sink.writeAll w.sink e.pieces with ⟨_ | _, sink⟩
    · simp [hwrite, refused] at h
    · simp [hwrite, refused] at h

/-- A call that is refused leaves the writer as it is. -/
theorem call_of_refused {w : Writer σ} {c : Call} (h : refused (w.call c).1 = true) :
    (w.call c).2 = w := by
  rw [call_eq] at h ⊢
  cases hc : c.addition with
  | error fault => rfl
  | ok a =>
    simp only [hc] at h ⊢
    exact add_of_refused_answer h

/-- Makes calls, one after another. -/
def callAll (w : Writer σ) : List Call → List (Except Error Unit) × Writer σ
  | [] => ([], w)
  | c :: rest =>
    let (result, w) := w.call c
    let (results, w) := w.callAll rest
    (result :: results, w)

@[simp] theorem callAll_nil (w : Writer σ) : w.callAll [] = ([], w) := rfl

theorem callAll_cons (w : Writer σ) (c : Call) (rest : List Call) :
    w.callAll (c :: rest) =
      let next := w.call c
      (next.1 :: (next.2.callAll rest).1, (next.2.callAll rest).2) := rfl

/-- Without the refused calls a run gives the other calls the same answers, and ends with the same
writer. -/
theorem callAll_accepted (w : Writer σ) (calls : List Call) :
    w.callAll (accepted calls (w.callAll calls).1) =
      ((w.callAll calls).1.filter fun result => !refused result, (w.callAll calls).2) := by
  induction calls generalizing w with
  | nil => rfl
  | cons c rest ih =>
    simp only [callAll_cons, accepted_cons]
    cases h : refused (w.call c).1 with
    | true =>
      rw [if_pos rfl, List.filter_cons_of_neg (by simp [h]), call_of_refused h]
      exact ih w
    | false =>
      rw [if_neg Bool.false_ne_true, List.filter_cons_of_pos (by simp [h]), callAll_cons]
      simp only [ih]

end Writer

end Folio

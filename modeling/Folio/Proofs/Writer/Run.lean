import Folio.Proofs.Bytes.Exact
import Folio.Proofs.Writer.Sink

/-!
# Additions, one after another

What a writer goes through is a list of additions, of which some may fail. An addition is refused
before anything is written for it, or it yields an entry, which is then written. What the entry is
depends on the addition alone, and what is refused depends on the entries before it.

## Main definitions

* `Addition` — what is asked of a writer for an entry
* `Addition.Yields` — the entry that an addition yields
* `Writer.Admits` — the writer can take an entry
* `Writer.addAll` — makes additions, one after another
* `succeeded` — those of them that succeed

## Main results

* `Writer.prepare_eq_ok_iff` — which additions are not refused
* `Writer.addAll_of_broken` — a broken writer stays as it is
-/

namespace Folio

/-- What is asked of a writer for an entry. -/
structure Addition where
  name : String
  data : ByteArray
  options : EntryOptions

/-- The entry that an addition yields, whichever entries were written before. -/
structure Addition.Yields [Codec] (a : Addition) (e : PreparedEntry) : Prop where
  name : EntryName.normalize a.name = .ok e.name
  payload : compress a.options.method a.options.level a.data = .ok e.payload
  described : e = Writer.describe e.name a.data e.payload a.options
  dataSize : a.data.size < Writer.fieldLimit
  payloadSize : e.payload.size < Writer.fieldLimit

/-- The additions that succeed. -/
def succeeded (additions : List Addition) (results : List (Except Error Unit)) : List Addition :=
  (additions.zip results).filterMap fun
    | (a, .ok ()) => some a
    | (_, .error _) => none

@[simp] theorem succeeded_nil (results : List (Except Error Unit)) :
    succeeded [] results = [] := rfl

@[simp] theorem succeeded_cons_ok (a : Addition) (additions : List Addition)
    (results : List (Except Error Unit)) :
    succeeded (a :: additions) (.ok () :: results) = a :: succeeded additions results := rfl

@[simp] theorem succeeded_cons_error (a : Addition) (additions : List Addition) (error : Error)
    (results : List (Except Error Unit)) :
    succeeded (a :: additions) (.error error :: results) = succeeded additions results := rfl

namespace Writer

variable {σ : Type}

/-- The writer can take an entry: its sink has not failed, the name is new, and the fields for
the number of entries and for the offset of the next one hold their values. -/
structure Admits (w : Writer σ) (e : PreparedEntry) : Prop where
  intact : w.broken = false
  fresh : w.names.contains e.name = false
  few : w.size < maxEntries
  near : w.offset < fieldLimit

/-- An addition is not refused if it yields an entry that the writer can take. -/
theorem prepare_eq_ok_iff [Codec] {w : Writer σ} {a : Addition} {e : PreparedEntry} :
    w.prepare a.name a.data a.options = .ok e ↔ a.Yields e ∧ w.Admits e := by
  simp only [prepare, unless_eq_ok_iff, bind_eq_ok_iff]
  constructor
  -- Of the checks some are about the addition alone, and the others about the writer.
  · rintro ⟨hbroken, name, hname, hfresh, hfew, hnear, hdata, payload, hpayload, hsize, ⟨⟩⟩
    exact ⟨⟨hname, hpayload, rfl, not_le.mp hdata, not_le.mp hsize⟩,
      ⟨eq_false_of_ne_true hbroken, eq_false_of_ne_true hfresh, not_le.mp hfew, not_le.mp hnear⟩⟩
  · rintro ⟨y, admits⟩
    refine ⟨by simp [admits.intact], e.name, y.name, by simp [admits.fresh], not_le.mpr admits.few,
      not_le.mpr admits.near, not_le.mpr y.dataSize, e.payload, y.payload,
      not_le.mpr y.payloadSize, ?_⟩
    rw [← y.described]
    rfl

variable [Sink σ]

/-- Makes additions, one after another. -/
def addAll [Codec] (w : Writer σ) : List Addition → List (Except Error Unit) × Writer σ
  | [] => ([], w)
  | a :: rest =>
    let (result, w) := w.add a.name a.data a.options
    let (results, w) := w.addAll rest
    (result :: results, w)

@[simp] theorem addAll_nil [Codec] (w : Writer σ) : w.addAll [] = ([], w) := rfl

theorem addAll_cons [Codec] (w : Writer σ) (a : Addition) (rest : List Addition) :
    w.addAll (a :: rest) =
      let next := w.add a.name a.data a.options
      (next.1 :: (next.2.addAll rest).1, (next.2.addAll rest).2) := rfl

theorem addAll_append [Codec] (w : Writer σ) (before after : List Addition) :
    w.addAll (before ++ after) =
      let middle := w.addAll before
      (middle.1 ++ (middle.2.addAll after).1, (middle.2.addAll after).2) := by
  induction before generalizing w with
  | nil => rfl
  | cons a rest ih => simp only [List.cons_append, addAll_cons, ih]

theorem add_of_broken [Codec] {w : Writer σ} (h : w.broken = true) (a : Addition) :
    w.add a.name a.data a.options = (.error .brokenWriter, w) := by
  have hprepare : w.prepare a.name a.data a.options = .error .brokenWriter := by
    rw [prepare, if_pos h]
    rfl
  rw [add, hprepare]

/-- A broken writer refuses all additions and stays as it is. -/
theorem addAll_of_broken [Codec] {w : Writer σ} (h : w.broken = true) (additions : List Addition) :
    w.addAll additions = (additions.map fun _ => .error .brokenWriter, w) := by
  induction additions with
  | nil => rfl
  | cons a rest ih => simp only [addAll_cons, add_of_broken h, List.map_cons, ih]

theorem finish_of_broken {w : Writer σ} (h : w.broken = true) :
    w.finish = (.error .brokenWriter, w.sink) := by
  rw [finish, if_pos h]

/-- An addition to a writer without a limit is refused, or the entry that it yields is written. -/
theorem Unlimited.add_cases [Codec] {w : Writer MemorySink} (h : w.Unlimited) (a : Addition) :
    (∃ error, w.prepare a.name a.data a.options = .error error ∧
      w.add a.name a.data a.options = (.error error, w)) ∨
    ∃ e, w.prepare a.name a.data a.options = .ok e ∧
      w.add a.name a.data a.options = (.ok (), w.extended e) := by
  cases hprepare : w.prepare a.name a.data a.options with
  | error error => exact .inl ⟨error, rfl, by rw [add, hprepare]⟩
  -- A sink without a limit takes whatever has been prepared.
  | ok e =>
    refine .inr ⟨e, rfl, ?_⟩
    rw [add, hprepare]
    exact h.append_eq e

/-- An addition that yields an entry is made if the writer can take it. -/
theorem Unlimited.add_eq_ok [Codec] {w : Writer MemorySink} (h : w.Unlimited) {a : Addition}
    {e : PreparedEntry} (y : a.Yields e) (admits : w.Admits e) :
    w.add a.name a.data a.options = (.ok (), w.extended e) := by
  rw [Writer.add, prepare_eq_ok_iff.mpr ⟨y, admits⟩]
  exact h.append_eq e

/-- An addition is refused if an entry has its name already. -/
theorem add_of_duplicate [Codec] {σ : Type} [Sink σ] {w : Writer σ} {a : Addition} {name : String}
    (intact : w.broken = false) (hname : EntryName.normalize a.name = .ok name)
    (taken : w.names.contains name = true) :
    w.add a.name a.data a.options = (.error (.duplicateEntry name), w) := by
  have hprepare : w.prepare a.name a.data a.options = .error (.duplicateEntry name) := by
    rw [prepare, if_neg (by simp [intact]), hname]
    simp only [bind, Except.bind]
    rw [if_pos taken]
    rfl
  rw [Writer.add, hprepare]

theorem Unlimited.add [Codec] {w : Writer MemorySink} (h : w.Unlimited) (a : Addition) :
    (w.add a.name a.data a.options).2.Unlimited := by
  rcases h.add_cases a with ⟨error, -, hadd⟩ | ⟨e, -, hadd⟩
  · rwa [hadd]
  · rw [hadd]
    exact h.extended e

theorem Unlimited.addAll [Codec] {w : Writer MemorySink} (h : w.Unlimited)
    (additions : List Addition) : (w.addAll additions).2.Unlimited := by
  induction additions generalizing w with
  | nil => exact h
  | cons a rest ih => exact ih (h.add a)

end Writer

end Folio

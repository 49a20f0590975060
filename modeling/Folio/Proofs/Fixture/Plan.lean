import Mathlib.Data.List.Nodup
import Mathlib.Data.List.ProdSigma
import Folio.Fixture.Plan
import Folio.Proofs.Text.Encodings

/-!
# What a plan says

A plan goes through the methods in every repetition. The name of an entry tells its method and its
repetition, so the names of a plan tell how often it goes through which methods, and no name comes
twice unless a method does.

## Main definitions

* `Numeral` — the decimal form of a number
* `steps` — the repetitions and methods of a plan, in order

## Main results

* `entryName_injective` — the name of an entry tells its method and its repetition
* `normalize_entryName` — such a name is not changed when it is normalized
* `length_plan` — the number of entries
* `getElem?_plan` — what stands at a place of the plan
* `steps_eq_iff` — the plans that take the same steps
* `nodup_names_plan_iff` — the plans in which no name comes twice
* `plan_expanded` — all this about the plan of a configuration
-/

namespace Folio.Fixture

variable {c c' : Config} {m m' : Method} {i i' : Nat} {e : PlannedEntry}

/-! ### Numbers -/

/-- A text is the decimal form of a number. -/
structure Numeral (text : String) (n : Nat) : Prop where
  /-- It is not empty. -/
  nonempty : text ≠ ""
  /-- All its characters are digits. -/
  digits : ∀ x ∈ text.toList, x.isDigit
  /-- The digits make the number. -/
  value : Nat.ofDigitChars 10 text.toList 0 = n
  /-- There are no leading zeros. -/
  plain : text.toList.head? = some '0' → text = "0"

/-- The digits of a number begin with a zero only if the number is zero. -/
theorem eq_zero_of_head?_toDigits {n : Nat} (h : (Nat.toDigits 10 n).head? = some '0') :
    n = 0 := by
  induction n using Nat.base_induction 10 (by decide) with
  | single n hn =>
    have hvalue : Nat.ofDigitChars 10 (Nat.toDigits 10 n) 0 = n := Nat.ofDigitChars_ten_toDigits
    rw [Nat.toDigits_of_lt_base hn] at h hvalue
    have hzero : n.digitChar = '0' := Option.some.inj h
    rw [hzero] at hvalue
    exact hvalue.symm
  -- The first digit is that of the number without its last digit.
  | digit n d hd hn ih =>
    rw [← Nat.toDigits_append_toDigits (by decide) hn hd,
      List.head?_append_of_ne_nil _ Nat.toDigits_ne_nil] at h
    exact absurd (ih h) hn.ne'

theorem toString_numeral (n : Nat) : Numeral (toString n) n := by
  have hlist : (toString n).toList = Nat.toDigits 10 n := Nat.toList_repr
  constructor
  case nonempty =>
    intro h
    rw [h] at hlist
    exact Nat.toDigits_ne_nil hlist.symm
  case digits =>
    intro x hx
    rw [hlist] at hx
    exact Nat.isDigit_of_mem_toDigits (by decide) (by decide) hx
  case value =>
    rw [hlist]
    exact Nat.ofDigitChars_ten_toDigits
  case plain =>
    intro h
    rw [hlist] at h
    rw [eq_zero_of_head?_toDigits h]
    rfl

/-! ### Names -/

theorem toList_entryName (m : Method) (i : Nat) : (entryName m i).toList =
    m.label.toList ++ ('-' :: 'n' :: (Nat.toDigits 10 i ++ ['.', 't', 'x', 't'])) := by
  rw [entryName]
  simp [toString]

/-- The labels of the methods differ in their first characters. -/
theorem eq_of_label_append {l l' : List Char}
    (h : m.label.toList ++ l = m'.label.toList ++ l') : m = m' := by
  cases m <;> cases m' <;> simp_all [Method.label]

theorem toDigits_injective {n n' : Nat} (h : Nat.toDigits 10 n = Nat.toDigits 10 n') : n = n' := by
  rw [← Nat.ofDigitChars_ten_toDigits (n := n), h, Nat.ofDigitChars_ten_toDigits]

theorem entryName_injective (h : entryName m i = entryName m' i') : m = m' ∧ i = i' := by
  have hlist := congrArg String.toList h
  rw [toList_entryName, toList_entryName] at hlist
  obtain rfl := eq_of_label_append hlist
  have hdigits := List.append_cancel_left hlist
  rw [List.cons.injEq, List.cons.injEq] at hdigits
  exact ⟨rfl, toDigits_injective (List.append_cancel_right hdigits.2.2)⟩

/-- There is no separator in the name of an entry. -/
theorem not_mem_entryName {c : Char} (separator : c = '/' ∨ c = '\\') (m : Method) (i : Nat) :
    c ∉ (entryName m i).toList := by
  rw [toList_entryName]
  have hdigits : c ∉ Nat.toDigits 10 i := fun h => by
    have hdigit := Nat.isDigit_of_mem_toDigits (by decide) (by decide) h
    rcases separator with rfl | rfl <;> exact absurd hdigit (by decide)
  rcases separator with rfl | rfl <;> cases m <;> simp [Method.label, hdigits]

theorem withSlashes_entryName (m : Method) (i : Nat) :
    EntryName.withSlashes (entryName m i) = (entryName m i).toList := by
  have hkeep : ∀ x ∈ (entryName m i).toList, (if x = '\\' then '/' else x) = x := by
    intro x hx
    apply if_neg
    rintro rfl
    exact not_mem_entryName (.inr rfl) m i hx
  rw [EntryName.withSlashes, List.map_congr_left hkeep]
  exact List.map_id' _

/-- The name of an entry is not changed when it is normalized. -/
theorem normalize_entryName {name : String}
    (h : EntryName.normalize (entryName m i) = .ok name) : name = entryName m i := by
  rw [EntryName.normalize, withSlashes_entryName] at h
  split at h
  · cases h
  · rw [← Except.ok.inj h, String.ofList_toList]

/-- The name of an entry is short, since its repetition is a 64-bit word. -/
theorem utf8ByteSize_entryName_le (m : Method) (h : i < 0x10000000000000000) :
    (entryName m i).utf8ByteSize ≤ 136 := by
  have hdigits : (Nat.toDigits 10 i).length ≤ 20 :=
    (Nat.length_toDigits_le_iff (by decide) (by decide)).mpr (h.trans (by decide))
  have hlabel : m.label.toList.length ≤ 8 := by cases m <;> decide
  have hle := utf8ByteSize_le (entryName m i)
  rw [toList_entryName] at hle
  simp only [List.length_append, List.length_cons, List.length_nil] at hle
  omega

/-- It can be the name of an entry. -/
theorem normalize_entryName_eq (m : Method) (h : i < 0x10000000000000000) :
    EntryName.normalize (entryName m i) = .ok (entryName m i) := by
  have hslash := not_mem_entryName (.inl rfl) m i
  have hfirst : ∃ c rest, (entryName m i).toList = c :: rest ∧ c ≠ '/' ∧ c ≠ '.' := by
    rw [toList_entryName]
    cases m <;> exact ⟨_, _, rfl, by decide, by decide⟩
  obtain ⟨c, rest, hlist, hc, hdot⟩ := hfirst
  have hsize := utf8ByteSize_entryName_le m h
  rw [EntryName.normalize_eq_ok_iff, withSlashes_entryName, String.ofList_toList]
  refine ⟨?_, rfl⟩
  rw [EntryName.fault?, EntryName.components_eq_singleton hslash, String.ofList_toList,
    EntryName.maxSize, hlist]
  rw [if_neg (by simp), if_neg (by simpa using hc), if_neg (by simp [hdot.symm]),
    if_neg (by omega)]

/-! ### Steps -/

/-- The repetitions and methods of a plan, in order. -/
def steps (c : Config) : List (Nat × Method) :=
  List.range c.iterations ×ˢ c.methods.map (·.method)

theorem map_plan {α : Type} (f : Nat → Method → α) (g : PlannedEntry → α)
    (h : ∀ index options, g (.of index options) = f index options.method) (c : Config) :
    (plan c).map g = (steps c).map fun step => f step.1 step.2 := by
  simp only [plan, steps, SProd.sprod, List.product, List.map_flatMap, List.map_map]
  congr 1
  funext index
  exact List.map_congr_left fun options _ => h index options

theorem length_plan (c : Config) : (plan c).length = c.iterations * c.methods.length := by
  have h := congrArg List.length (map_plan (fun i m => (i, m))
    (fun e => (e.index, e.options.method)) (fun _ _ => rfl) c)
  simpa [steps, List.length_product] using h

theorem plan_eq_nil_iff : plan c = [] ↔ c.iterations = 0 ∨ c.methods = [] := by
  rw [← List.length_eq_zero_iff, length_plan, Nat.mul_eq_zero, List.length_eq_zero_iff]

/-- Parts of one length stand at multiples of that length when they are joined. -/
theorem getElem?_flatMap_of_length {α β : Type} {f : α → List β} {k j : Nat}
    (length : ∀ a, (f a).length = k) (hj : j < k) (l : List α) (i : Nat) :
    (l.flatMap f)[i * k + j]? = l[i]?.bind fun a => (f a)[j]? := by
  induction l generalizing i with
  | nil => rfl
  | cons a l ih =>
    rw [List.flatMap_cons]
    cases i with
    | zero =>
      rw [Nat.zero_mul, Nat.zero_add, List.getElem?_append_left (by rw [length]; exact hj)]
      rfl
    | succ i =>
      have hplace : (i + 1) * k + j = (f a).length + (i * k + j) := by
        rw [length, Nat.succ_mul]
        omega
      rw [hplace, List.getElem?_append_right (Nat.le_add_right _ _), Nat.add_sub_cancel_left, ih]
      rfl

/-- What stands at a place of the plan. -/
theorem getElem?_plan {j : Nat} {options : EntryOptions} (hi : i < c.iterations)
    (hj : c.methods[j]? = some options) :
    (plan c)[i * c.methods.length + j]? = some (.of i options) := by
  obtain ⟨hlt, -⟩ := List.getElem?_eq_some_iff.mp hj
  rw [plan, getElem?_flatMap_of_length (fun _ => List.length_map _) hlt, List.getElem?_range hi,
    Option.bind_some, List.getElem?_map, hj]
  rfl

/-- The place of an entry tells its repetition. -/
theorem index_of_getElem?_plan {p : Nat} (h : (plan c)[p]? = some e) :
    e.index = p / c.methods.length := by
  obtain ⟨hlt, -⟩ := List.getElem?_eq_some_iff.mp h
  rw [length_plan] at hlt
  have hpos : 0 < c.methods.length := Nat.pos_of_lt_mul_left hlt
  have hplace := getElem?_plan ((Nat.div_lt_iff_lt_mul hpos).mpr hlt)
    (List.getElem?_eq_getElem (Nat.mod_lt p hpos))
  rw [Nat.div_add_mod', h] at hplace
  rw [Option.some.inj hplace]
  rfl

theorem exists_of_mem_plan (h : e ∈ plan c) :
    ∃ i < c.iterations, ∃ options ∈ c.methods, e = .of i options := by
  obtain ⟨i, hi, he⟩ := List.mem_flatMap.mp h
  obtain ⟨options, hoptions, rfl⟩ := List.mem_map.mp he
  exact ⟨i, List.mem_range.mp hi, options, hoptions, rfl⟩

/-- The first repetition tells the methods. -/
theorem filter_steps (h : c.iterations ≠ 0) :
    ((steps c).filter (·.1 = 0)).map (·.2) = c.methods.map (·.method) := by
  obtain ⟨n, hn⟩ := Nat.exists_eq_succ_of_ne_zero h
  have hfirst : ∀ step ∈ (c.methods.map (·.method)).map (Prod.mk 0), decide (step.1 = 0) = true := by
    simp
  have hlater : ∀ step ∈ (List.range n).map Nat.succ ×ˢ c.methods.map (·.method),
      ¬ decide (step.1 = 0) = true := by
    rintro ⟨index, method⟩ hstep
    obtain ⟨hindex, -⟩ := List.mem_product.mp hstep
    obtain ⟨k, -, rfl⟩ := List.mem_map.mp hindex
    simp
  rw [steps, hn, List.range_succ_eq_map, List.product_cons, List.filter_append,
    List.filter_eq_self.mpr hfirst, List.filter_eq_nil_iff.mpr hlater, List.append_nil,
    List.map_map]
  exact List.map_id _

theorem steps_eq_nil_iff : steps c = [] ↔ plan c = [] := by
  rw [← List.length_eq_zero_iff, ← List.length_eq_zero_iff, length_plan, steps,
    List.length_product, List.length_range, List.length_map]

/-- Two plans take the same steps if they are empty, or repeat the same methods as often. -/
theorem steps_eq_iff : steps c = steps c' ↔ (plan c = [] ∧ plan c' = []) ∨
    (c.iterations = c'.iterations ∧ c.methods.map (·.method) = c'.methods.map (·.method)) := by
  constructor
  · intro h
    by_cases hplan : plan c = []
    · have hsteps := h.symm.trans (steps_eq_nil_iff.mpr hplan)
      exact .inl ⟨hplan, steps_eq_nil_iff.mp hsteps⟩
    · right
      have hplan' : plan c' ≠ [] := fun h' =>
        hplan (steps_eq_nil_iff.mp (h.trans (steps_eq_nil_iff.mpr h')))
      obtain ⟨hn, hne⟩ := not_or.mp (mt plan_eq_nil_iff.mpr hplan)
      obtain ⟨hn', -⟩ := not_or.mp (mt plan_eq_nil_iff.mpr hplan')
      have hmethods : c.methods.map (·.method) = c'.methods.map (·.method) := by
        rw [← filter_steps hn, h, filter_steps hn']
      -- With the same methods in each of them, as many steps are as many repetitions.
      have hlength := congrArg List.length h
      have hcount := congrArg List.length hmethods
      simp only [steps, List.length_product, List.length_range, List.length_map] at hlength hcount
      rw [← hcount] at hlength
      have hpos : 0 < c.methods.length := List.length_pos_iff.mpr hne
      exact ⟨Nat.eq_of_mul_eq_mul_right hpos hlength, hmethods⟩
  · rintro (⟨h, h'⟩ | ⟨hn, hmethods⟩)
    · rw [steps_eq_nil_iff.mpr h, steps_eq_nil_iff.mpr h']
    · rw [steps, steps, hn, hmethods]

/-- No step is taken twice unless a method comes twice in each repetition. -/
theorem nodup_steps_iff :
    (steps c).Nodup ↔ c.iterations = 0 ∨ (c.methods.map (·.method)).Nodup := by
  constructor
  · intro h
    rcases Nat.eq_zero_or_eq_succ_pred c.iterations with hzero | hsucc
    · exact .inl hzero
    -- The methods are those of the first repetition.
    · right
      rw [steps, hsucc, List.range_succ_eq_map, List.product_cons] at h
      exact (List.nodup_append.mp h).1.of_map
  · rintro (hzero | hmethods)
    · rw [steps, hzero]
      exact List.nodup_nil
    · exact List.nodup_range.product hmethods

/-- No name comes twice unless a method comes twice in each repetition. -/
theorem nodup_names_plan_iff :
    ((plan c).map (·.name)).Nodup ↔ c.iterations = 0 ∨ (c.methods.map (·.method)).Nodup := by
  have hinjective : Function.Injective fun step : Nat × Method => entryName step.2 step.1 := by
    intro step step' h
    obtain ⟨hmethod, hindex⟩ := entryName_injective h
    exact Prod.ext hindex hmethod
  rw [map_plan (fun i m => entryName m i) _ (fun _ _ => rfl), List.nodup_map_iff hinjective,
    nodup_steps_iff]

/-- A plan has an entry for every method in every repetition, one repetition behind the other. The
entry has the options of the method, and its name is put together from the label of the method and
the decimal form of the repetition. Such a name tells both of them, so no name comes twice in a plan
unless a method comes twice in each repetition. Since the number of repetitions is a 64-bit word, all
names are short enough for an archive, and none of them is changed there. -/
theorem plan_expanded (c : Config) :
    (plan c).length = c.iterations * c.methods.length ∧
    (∀ i j options, i < c.iterations → c.methods[j]? = some options →
      ∃ e digits, (plan c)[i * c.methods.length + j]? = some e ∧ e.index = i ∧
        e.options = options ∧ Numeral digits i ∧
        e.name = options.method.label ++ "-n" ++ digits ++ ".txt") ∧
    (∀ m m' i i', entryName m i = entryName m' i' ↔ m = m' ∧ i = i') ∧
    (((plan c).map (·.name)).Nodup ↔ c.iterations = 0 ∨ (c.methods.map (·.method)).Nodup) ∧
    (c.iterations ≤ 0x10000000000000000 →
      ∀ e ∈ plan c, EntryName.normalize e.name = .ok e.name) := by
  refine ⟨length_plan c, ?_, ?_, nodup_names_plan_iff, ?_⟩
  · intro i j options hi hj
    exact ⟨_, toString i, getElem?_plan hi hj, rfl, rfl, toString_numeral i, rfl⟩
  · intro m m' i i'
    constructor
    · exact entryName_injective
    · rintro ⟨rfl, rfl⟩
      rfl
  · intro word e he
    obtain ⟨i, hi, options, -, rfl⟩ := exists_of_mem_plan he
    exact normalize_entryName_eq options.method (hi.trans_le word)

/-- The last entry of the usual fixture. -/
theorem plan_expanded_usual :
    (∃ e digits, (plan .usual)[149]? = some e ∧ e.index = 49 ∧ Numeral digits 49 ∧
      e.name = "bzip2-n" ++ digits ++ ".txt") ∧
    ∀ e ∈ plan .usual, EntryName.normalize e.name = .ok e.name := by
  obtain ⟨-, place, -, -, accepted⟩ := plan_expanded .usual
  constructor
  · obtain ⟨e, digits, hget, hindex, -, hnumeral, hname⟩ := place 49 2 _ (by decide) rfl
    exact ⟨e, digits, hget, hindex, hnumeral, hname⟩
  · exact accepted (by decide)

end Folio.Fixture

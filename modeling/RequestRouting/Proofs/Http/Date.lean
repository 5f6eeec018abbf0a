import Mathlib.Tactic.IntervalCases
import RequestRouting.Http.Date
import RequestRouting.Proofs.Text.Cut

/-!
# Dates that were written

The date of a number of seconds is that number of seconds after the beginning of 1970. It's written
in the fixed-length form, and up to the year 9999 it's read again as what it was.

The calendar repeats every 400 years. Years are counted from March within such a cycle, so that the
leap day ends a year, and the months before it follow one pattern.
-/

namespace RequestRouting.Date

section Calendar

/-- A day of a cycle is in the year that is computed for it. The quotients make up for the leap days
before it. -/
theorem year_of_day {day year : Nat} (h : day < 146097)
    (hy : year = (day - day / 1460 + day / 36524 - day / 146096) / 365) :
    year < 400 ∧ 365 * year + year / 4 - year / 100 ≤ day ∧
      day < 366 + (365 * year + year / 4 - year / 100) := by
  by_cases hlast : day = 146096
  · subst hlast hy
    decide
  · have he : day / 146096 = 0 := by omega
    rw [he, Nat.sub_zero] at hy
    have hcentury : year / 100 = day / 36524 := by omega
    have hquarter : year / 4 < 100 := by omega
    omega

/-- Whether a date is on a day of a year in a cycle, all of them counted from zero, and years from
March. -/
structure InCycle (d : Date) (cycle year day : Nat) : Prop where
  year_lt : year < 400
  day_lt : day < 366
  month : d.month = if (5 * day + 2) / 153 < 10 then (5 * day + 2) / 153 + 3
    else (5 * day + 2) / 153 - 9
  year : d.year = year + cycle * 400 + if d.month ≤ 2 then 1 else 0
  day : d.day = day - (153 * ((5 * day + 2) / 153) + 2) / 5 + 1

/-- The first cycle starts 719468 days before 1970, in March of the year zero. -/
theorem exists_inCycle (n : Nat) : ∃ cycle year day, InCycle (ofSeconds n) cycle year day ∧
    n / 86400 + 719468 = cycle * 146097 + (365 * year + year / 4 - year / 100 + day) := by
  have hlt : (n / 86400 + 719468) % 146097 < 146097 := by omega
  obtain ⟨hyear, hle, hday⟩ := year_of_day hlt rfl
  exact ⟨_, _, _, ⟨hyear, Nat.sub_lt_right_of_lt_add hle hday, rfl, rfl, rfl⟩, by omega⟩

variable {d : Date} {cycle year day : Nat}

theorem InCycle.days (h : InCycle d cycle year day) :
    d.days = cycle * 146097 + (365 * year + year / 4 - year / 100 + day) - 719468 := by
  have hyear := h.year_lt
  have hday := h.day_lt
  -- The first two months belong to the year before.
  have hy : (if d.month ≤ 2 then d.year - 1 else d.year) = year + cycle * 400 := by
    rw [h.year]
    split <;> omega
  have hm : (if d.month ≤ 2 then d.month + 9 else d.month - 3) = (5 * day + 2) / 153 := by
    rw [h.month]
    split <;> split <;> omega
  have hdiv : (year + cycle * 400) / 400 = cycle := by omega
  have hmod : (year + cycle * 400) % 400 = year := by omega
  unfold Date.days
  simp only [hy, hm, h.day, hdiv, hmod]
  omega

theorem days_ofSeconds (n : Nat) : (ofSeconds n).days = n / 86400 := by
  obtain ⟨cycle, year, day, h, hn⟩ := exists_inCycle n
  rw [h.days, ← hn, Nat.add_sub_cancel]

/-- The date of a number of seconds is that number of seconds after the beginning of 1970. -/
theorem seconds_ofSeconds (n : Nat) : (ofSeconds n).seconds = n := by
  rw [seconds, days_ofSeconds]
  change ((n / 86400 * 24 + n % 86400 / 3600) * 60 + n % 86400 / 60 % 60) * 60 + n % 86400 % 60 = n
  omega

/-- The number of seconds from the beginning of 1970 to that of the year 10000. -/
def limit : Nat := 253402300800

theorem year_ofSeconds {n : Nat} (h : n < limit) :
    1970 ≤ (ofSeconds n).year ∧ (ofSeconds n).year ≤ 9999 := by
  obtain ⟨cycle, year, day, hc, hn⟩ := exists_inCycle n
  have hyear := hc.year_lt
  have hday := hc.day_lt
  have hdays : n / 86400 < 2932897 := by
    unfold limit at h
    omega
  have hmonth : (ofSeconds n).month ≤ 2 ↔ 306 ≤ day := by
    rw [hc.month]
    split <;> omega
  rw [hc.year]
  simp only [hmonth]
  constructor
  · rcases Nat.lt_trichotomy cycle 4 with hlt | rfl | hgt
    · split <;> omega
    · have : 369 ≤ year := by omega
      split <;> omega
    · split <;> omega
  · rcases Nat.lt_trichotomy cycle 24 with hlt | rfl | hgt
    · split <;> omega
    · split <;> omega
    · split <;> omega

end Calendar

section Writing

variable {n : Nat}

theorem toList_padded (width n : Nat) : (padded width n).toList =
    List.replicate (width - (Nat.toDigits 10 n).length) '0' ++ Nat.toDigits 10 n := by
  simp [padded, Nat.toString_eq_repr, Nat.toList_repr, ← String.length_toList]

theorem isDigit_of_mem_padded {width : Nat} {c : Char} (h : c ∈ (padded width n).toList) :
    c.isDigit = true := by
  rw [toList_padded, List.mem_append] at h
  rcases h with h | h
  · rw [List.eq_of_mem_replicate h]
    rfl
  · exact Nat.isDigit_of_mem_toDigits (by decide) (by decide) h

/-- A number that has no more digits than it's written with is read again. -/
theorem number_padded {width : Nat} (hw : 0 < width) (h : n < 10 ^ width) (rest : List Char) :
    number width ((padded width n).toList ++ rest) = some (n, rest) := by
  have hl : (Nat.toDigits 10 n).length ≤ width :=
    (Nat.length_toDigits_le_iff (by decide) hw).mpr h
  have hlength : (padded width n).toList.length = width := by
    rw [toList_padded, List.length_append, List.length_replicate]
    omega
  have hall : (padded width n).toList.all Char.isDigit = true :=
    List.all_eq_true.mpr fun _ hc => isDigit_of_mem_padded hc
  have hvalue : (padded width n).toList.foldl (fun n c => n * 10 + (c.toNat - 0x30)) 0 = n := by
    have hof : Nat.ofDigitChars 10 (padded width n).toList 0 = n := by
      rw [toList_padded, Nat.ofDigitChars_append, Nat.ofDigitChars_replicate_zero, Nat.mul_zero,
        Nat.ofDigitChars_toDigits (by decide) (by decide)]
    simpa [Nat.ofDigitChars_eq_foldl, Nat.mul_comm] using hof
  generalize (padded width n).toList = digits at hlength hall hvalue
  have htake : (digits ++ rest).take width = digits := by rw [← hlength, List.take_left]
  have hdrop : (digits ++ rest).drop width = rest := by rw [← hlength, List.drop_left]
  simp [number, htake, hdrop, hlength, hall, hvalue]

theorem oneOf_weekday {i : Nat} (h : i < 7) (rest : List Char) :
    oneOf weekdayLetters ((weekdayLetters.getD i "").toList ++ rest) = some (i, rest) := by
  interval_cases i <;> rfl

theorem oneOf_month {i : Nat} (h : i < 12) (rest : List Char) :
    oneOf monthNames ((monthNames.getD i "").toList ++ rest) = some (i, rest) := by
  interval_cases i <;> rfl

theorem exactly_append (text : String) (rest : List Char) :
    exactly text (text.toList ++ rest) = some rest := Text.Chars.dropLead?_eq_some.mpr rfl

/-- Whether the numbers of a date have no more digits than they're written with. -/
structure IsWritable (d : Date) : Prop where
  weekday : d.weekday < 7
  month : 1 ≤ d.month ∧ d.month ≤ 12
  day : d.day < 10 ^ 2
  year : d.year < 10 ^ 4
  hour : d.hour < 10 ^ 2
  minute : d.minute < 10 ^ 2
  second : d.second < 10 ^ 2

theorem isWritable_ofSeconds (h : n < limit) : IsWritable (ofSeconds n) := by
  obtain ⟨cycle, year, day, hc, -⟩ := exists_inCycle n
  have hday := hc.day_lt
  have hyear := (year_ofSeconds h).2
  refine ⟨Nat.mod_lt _ (by decide), ?_, ?_, by omega, ?_, ?_, ?_⟩
  · rw [hc.month]
    split <;> omega
  · rw [hc.day]
    omega
  · change n % 86400 / 3600 < 10 ^ 2
    omega
  · change n % 86400 / 60 % 60 < 10 ^ 2
    omega
  · change n % 86400 % 60 < 10 ^ 2
    omega

variable {d : Date}

theorem readFixed_text (h : d.IsWritable) : readFixed d.text.toList = some d := by
  have hmonth : d.month - 1 < 12 := by
    have := h.month
    omega
  have hback : d.month - 1 + 1 = d.month := Nat.sub_add_cancel h.month.1
  have hend : exactly " GMT" " GMT".toList = some [] := exactly_append " GMT" []
  simp only [text, String.toList_append, List.append_assoc]
  simp only [readFixed, timeOfDay, Option.bind_eq_bind, Option.bind_some, exactly_append,
    oneOf_weekday h.weekday, oneOf_month hmonth, number_padded Nat.two_pos h.day,
    number_padded (Nat.succ_pos 3) h.year, number_padded Nat.two_pos h.hour,
    number_padded Nat.two_pos h.minute, number_padded Nat.two_pos h.second, hend, hback]
  rfl

theorem lt_of_isDigit {c : Char} (h : c.isDigit = true) : c.toNat < 0x80 := by
  simp only [Char.isDigit, Bool.and_eq_true, decide_eq_true_eq] at h
  exact Nat.lt_of_le_of_lt (UInt32.le_iff_toNat_le.mp h.2) (by decide)

/-- A date is written in ASCII. -/
theorem all_text (h : d.IsWritable) : (d.text.toList.all fun c => c.toNat < 0x80) = true := by
  have hpadded (width n : Nat) : ((padded width n).toList.all fun c => c.toNat < 0x80) = true :=
    List.all_eq_true.mpr fun _ hc => decide_eq_true (lt_of_isDigit (isDigit_of_mem_padded hc))
  have hweekday :
      ((weekdayLetters.getD d.weekday "").toList.all fun c => c.toNat < 0x80) = true := by
    have := h.weekday
    interval_cases d.weekday <;> rfl
  have hmonth : ((monthNames.getD (d.month - 1) "").toList.all fun c => c.toNat < 0x80) = true := by
    have : d.month - 1 < 12 := by
      have := h.month
      omega
    interval_cases d.month - 1 <;> rfl
  simp only [text, String.toList_append, List.all_append, hpadded, hweekday, hmonth]
  rfl

/-- There's nothing blank around a date. -/
theorem trim_text (h : d.IsWritable) :
    Text.Chars.trim Text.isBlank d.text.toList = d.text.toList := by
  obtain ⟨c, name, hname, hc⟩ : ∃ c name, (weekdayLetters.getD d.weekday "").toList = c :: name ∧
      Text.isBlank c = false := by
    have := h.weekday
    interval_cases d.weekday <;> exact ⟨_, _, rfl, rfl⟩
  have hfirst : d.text.toList.dropWhile Text.isBlank = d.text.toList := by
    simp only [text, String.toList_append, hname, List.append_assoc, List.cons_append,
      List.dropWhile_cons, hc, Bool.false_eq_true, if_false]
  rw [Text.Chars.trim, hfirst, Text.Chars.trimTail_eq_self]
  intro c hlast
  have hend : " GMT".toList.getLast? = some 'T' := rfl
  rw [text, String.toList_append, List.getLast?_append, hend] at hlast
  obtain rfl := Option.some.inj hlast
  rfl

/-- A date that exists is read from what's written for it. -/
theorem parse?_text_of_exists (h : d.IsWritable) (he : d.exists? = true) :
    parse? d.text = some d := by
  simp [parse?, all_text h, trim_text h, readFixed_text h, he]

/-- Up to the year 9999, the date that's written for a number of seconds is read again. -/
theorem parse?_text (h : n < limit) : parse? (ofSeconds n).text = some (ofSeconds n) := by
  refine parse?_text_of_exists (isWritable_ofSeconds h) ?_
  obtain ⟨hfrom, hto⟩ := year_ofSeconds h
  rw [exists?, seconds_ofSeconds, decide_eq_true hfrom, decide_eq_true hto, decide_eq_true rfl]
  rfl

end Writing

end RequestRouting.Date

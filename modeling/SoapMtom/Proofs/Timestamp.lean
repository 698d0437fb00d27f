import Mathlib.Algebra.Group.Nat.Defs
import SoapMtom.Proofs.Calendar
import SoapMtom.Proofs.Outcome
import SoapMtom.Proofs.Text.Cut
import SoapMtom.Proofs.Text.Encoding

/-!
# Timestamps are read back

A number is written with leading zeros up to its width, and so many digits are read as that number.
A timestamp is made of such numbers and of single bytes between them. What is lost of an instant that
is written and read is what comes after the milliseconds, and where a leap second was, unless it was
the last second of a minute. Main statements:

> `takeNumber_padded`: the digits of a number are read as the number.
>
> `parse_render`: an instant of the years 0 to 9999 is read back as a clock shows it.
-/

namespace SoapMtom.Instant

open Calendar (dateOfDay dayOfDate)

/-! ## Numbers -/

/-- The characters of a number are digits. -/
theorem isDigit_of_mem_padded {width n : Nat} {c : Char} (h : c ∈ (padded width n).toList) :
    48 ≤ c.toNat ∧ c.toNat ≤ 57 := by
  rw [padded, String.toList_ofList, List.mem_append] at h
  rcases h with h | h
  · rw [List.eq_of_mem_replicate h]
    decide
  · have hdigit := Nat.isDigit_of_mem_toDigits (by decide) (by decide) h
    rw [Char.isDigit, Bool.and_eq_true, decide_eq_true_eq, decide_eq_true_eq] at hdigit
    exact hdigit

/-- A number that fits is written in its width. -/
theorem length_padded {width n : Nat} (hwidth : 0 < width) (h : n < 10 ^ width) :
    (padded width n).toList.length = width := by
  have hlength := (Nat.length_toDigits_le_iff (b := 10) (by decide) hwidth).2 h
  rw [padded, String.toList_ofList, List.length_append, List.length_replicate]
  omega

/-- Leading zeros do not count. -/
theorem ofDigitChars_padded (width n : Nat) :
    Nat.ofDigitChars 10 (padded width n).toList 0 = n := by
  have hzeros : ∀ k, Nat.ofDigitChars 10 (List.replicate k '0') 0 = 0 := by
    intro k
    induction k with
    | zero => rfl
    | succ k ih => exact ih
  rw [padded, String.toList_ofList, Nat.ofDigitChars_append, hzeros,
    Nat.ofDigitChars_toDigits (by decide) (by decide)]

/-- The bytes of a number: digits, as many as its width, which write it. -/
theorem spec_of_padded {width n : Nat} (hwidth : 0 < width) (h : n < 10 ^ width) :
    (Utf8.encode (padded width n)).length = width ∧
      (∀ b ∈ Utf8.encode (padded width n), isDigit b = true) ∧
        numberOf (Utf8.encode (padded width n)) = n := by
  have hascii : ∀ c ∈ (padded width n).toList, c.toNat < 128 := fun c hc =>
    Nat.lt_of_le_of_lt (isDigit_of_mem_padded hc).2 (by decide)
  have hbytes : Utf8.encode (padded width n) =
      (padded width n).toList.map fun c => UInt8.ofNat c.toNat :=
    Utf8.encodeChars_of_ascii hascii
  have hbyte : ∀ c ∈ (padded width n).toList, (UInt8.ofNat c.toNat).toNat = c.toNat := by
    intro c hc
    rw [UInt8.toNat_ofNat', Nat.mod_eq_of_lt]
    exact Nat.lt_trans (hascii c hc) (by decide)
  refine ⟨?_, fun b hb => ?_, ?_⟩
  · rw [hbytes, List.length_map, length_padded hwidth h]
  · rw [hbytes] at hb
    obtain ⟨c, hc, rfl⟩ := List.mem_map.1 hb
    rw [isDigit, Bool.and_eq_true, decide_eq_true_eq, decide_eq_true_eq, UInt8.le_iff_toNat_le,
      UInt8.le_iff_toNat_le, hbyte c hc]
    exact isDigit_of_mem_padded hc
  · -- digit by digit, bytes are reckoned as characters are
    have hnumber : ∀ (cs : List Char) (m : Nat),
        (∀ c ∈ cs, (UInt8.ofNat c.toNat).toNat = c.toNat) →
          (cs.map fun c => UInt8.ofNat c.toNat).foldl (fun n b => n * 10 + (b.toNat - 48)) m =
            Nat.ofDigitChars 10 cs m := by
      intro cs
      induction cs with
      | nil => exact fun _ _ => rfl
      | cons c cs ih =>
        intro m hcs
        obtain ⟨hc, hcs⟩ := List.forall_mem_cons.1 hcs
        rw [List.map_cons, List.foldl_cons, hc, ih _ hcs, Nat.ofDigitChars_cons, Nat.mul_comm]
        rfl
    rw [numberOf, hbytes, hnumber _ _ hbyte, ofDigitChars_padded]

/-- The digits of a number are read as the number, whatever follows. -/
theorem takeNumber_padded {width n : Nat} (hwidth : 0 < width) (h : n < 10 ^ width)
    (rest : Bytes) : takeNumber width (Utf8.encode (padded width n) ++ rest) = .ok (n, rest) := by
  obtain ⟨hlength, hdigits, hnumber⟩ := spec_of_padded hwidth h
  have htake : (Utf8.encode (padded width n) ++ rest).take width = Utf8.encode (padded width n) :=
    List.take_left' hlength
  have hdrop : (Utf8.encode (padded width n) ++ rest).drop width = rest := List.drop_left' hlength
  rw [takeNumber, htake, hdrop, if_neg (by rw [hlength]; exact Nat.lt_irrefl _),
    if_pos (List.all_eq_true.2 hdigits), hnumber]

/-- The digits after the decimal point are read as nanoseconds, up to a byte that is no digit. -/
theorem takeFraction_padded {width n : Nat} (hwidth : 0 < width) (hnine : width ≤ 9)
    (h : n < 10 ^ width) {b : UInt8} (hb : isDigit b = false) (rest : Bytes) :
    takeFraction (Utf8.encode (padded width n) ++ b :: rest) =
      .ok (n * 10 ^ (9 - width), b :: rest) := by
  obtain ⟨hlength, hdigits, hnumber⟩ := spec_of_padded hwidth h
  generalize Utf8.encode (padded width n) = digits at hlength hdigits hnumber ⊢
  have hstop : ∀ k, ((b :: rest).take k).takeWhile isDigit = [] := by
    intro k
    cases k with
    | zero => rfl
    | succ k => exact List.takeWhile_cons_of_neg (by rw [hb]; simp)
  have htaken : ((digits ++ b :: rest).take 9).takeWhile isDigit = digits := by
    rw [List.take_append, List.take_of_length_le (by rw [hlength]; exact hnine),
      List.takeWhile_append_of_pos hdigits, hstop, List.append_nil]
  have hdropped : (digits ++ b :: rest).dropWhile isDigit = b :: rest := by
    rw [List.dropWhile_append_of_pos hdigits, List.dropWhile_cons_of_neg (by rw [hb]; simp)]
  have hnonempty : digits.isEmpty = false := by
    rw [List.isEmpty_eq_false_iff, ← List.length_pos_iff, hlength]
    exact hwidth
  obtain ⟨first, others, hcons⟩ := List.exists_cons_of_ne_nil
    (List.append_ne_nil_of_right_ne_nil digits (List.cons_ne_nil b rest))
  rw [hcons] at htaken hdropped ⊢
  unfold takeFraction
  dsimp only
  rw [htaken, hdropped, hnonempty, hnumber, hlength]
  rfl

/-! ## Dates and times -/

/-- A date as it is written, with what follows. -/
def dateBytes (year month day : Nat) (rest : Bytes) : Bytes :=
  Utf8.encode (padded 4 year) ++ 45 :: (Utf8.encode (padded 2 month) ++
    45 :: (Utf8.encode (padded 2 day) ++ rest))

/-- A time of the day as it is written, with what follows. -/
def timeBytes (hour minute second millis : Nat) (rest : Bytes) : Bytes :=
  Utf8.encode (padded 2 hour) ++ 58 :: (Utf8.encode (padded 2 minute) ++
    58 :: (Utf8.encode (padded 2 second) ++ 46 :: (Utf8.encode (padded 3 millis) ++ rest)))

/-- So many digits stand where so many are wanted. -/
theorem length_dateBytes {year month day : Nat} (hyear : year < 10 ^ 4) (hmonth : month < 10 ^ 2)
    (hday : day < 10 ^ 2) (rest : Bytes) :
    (dateBytes year month day rest).length = 10 + rest.length := by
  have hfour := (spec_of_padded (by decide) hyear).1
  have htwo := (spec_of_padded (by decide) hmonth).1
  have hlast := (spec_of_padded (by decide) hday).1
  simp only [dateBytes, List.length_append, List.length_cons, hfour, htwo, hlast]
  omega

theorem length_timeBytes {hour minute second millis : Nat} (hhour : hour < 10 ^ 2)
    (hminute : minute < 10 ^ 2) (hsecond : second < 10 ^ 2) (hmillis : millis < 10 ^ 3)
    (rest : Bytes) : (timeBytes hour minute second millis rest).length = 12 + rest.length := by
  have hfirst := (spec_of_padded (by decide) hhour).1
  have htwo := (spec_of_padded (by decide) hminute).1
  have hlast := (spec_of_padded (by decide) hsecond).1
  have hthree := (spec_of_padded (by decide) hmillis).1
  simp only [timeBytes, List.length_append, List.length_cons, hfirst, htwo, hlast, hthree]
  omega

theorem takeByte_self (b : UInt8) (rest : Bytes) : takeByte b (b :: rest) = .ok rest := if_pos rfl

theorem takeDate_dateBytes {year month day : Nat} (hyear : year < 10000) (hmonth : month < 100)
    (hday : day < 100) (hexists : ({ year, month, day } : Calendar.Date).exists? = true)
    (rest : Bytes) :
    takeDate (dateBytes year month day (84 :: rest)) = .ok ({ year, month, day }, rest) := by
  refine bind_eq_ok.2 ⟨_, takeNumber_padded (by decide) hyear _, ?_⟩
  refine bind_eq_ok.2 ⟨_, takeByte_self _ _, ?_⟩
  refine bind_eq_ok.2 ⟨_, takeNumber_padded (by decide) hmonth _, ?_⟩
  refine bind_eq_ok.2 ⟨_, takeByte_self _ _, ?_⟩
  refine bind_eq_ok.2 ⟨_, takeNumber_padded (by decide) hday _, ?_⟩
  dsimp only
  rw [hexists]
  rfl

/-- Second 60 is a leap second after second 59. -/
theorem takeTime_timeBytes {hour minute second leap millis : Nat} (hhour : hour < 24)
    (hminute : minute < 60) (hsecond : second < 60)
    (hleap : leap = 0 ∨ leap = 1 ∧ second = 59) (hmillis : millis < 1000) {b : UInt8}
    (hb : isDigit b = false) (rest : Bytes) :
    takeTime (timeBytes hour minute (second + leap) millis (b :: rest)) =
      .ok (hour * 3600 + minute * 60 + second, millis * 1000000 + leap * 1000000000, b :: rest) := by
  have hwidth : second + leap < 10 ^ 2 := by omega
  refine bind_eq_ok.2 ⟨_, takeNumber_padded (by decide) (Nat.lt_trans hhour (by decide)) _, ?_⟩
  refine bind_eq_ok.2 ⟨_, takeByte_self _ _, ?_⟩
  refine bind_eq_ok.2 ⟨_, takeNumber_padded (by decide) (Nat.lt_trans hminute (by decide)) _, ?_⟩
  refine bind_eq_ok.2 ⟨_, takeByte_self _ _, ?_⟩
  refine bind_eq_ok.2 ⟨_, takeNumber_padded (by decide) hwidth _, ?_⟩
  refine bind_eq_ok.2 ⟨_, takeFraction_padded (by decide) (by decide) hmillis hb _, ?_⟩
  have hrange : (decide (24 ≤ hour) || decide (60 ≤ minute) || decide (61 ≤ second + leap)) =
      false := by
    simp only [Bool.or_eq_false_iff, decide_eq_false_iff_not]
    omega
  have hscale : 10 ^ (9 - 3) = 1000000 := by decide
  dsimp only
  rw [hrange, if_neg Bool.false_ne_true, hscale]
  rcases hleap with rfl | ⟨rfl, rfl⟩
  · rw [Nat.add_zero, if_neg (Nat.ne_of_lt hsecond), Nat.zero_mul, Nat.add_zero]
    rfl
  · rw [if_pos rfl, Nat.one_mul]
    rfl

/-- The byte `Z` stands for no offset. -/
theorem takeOffset_Z : takeOffset [90] = .ok (0, []) := rfl

/-! ## Instants -/

/-- An instant of the years 0 to 9999, in a leap second or not. -/
structure InFourDigits (t : Instant) : Prop where
  year_nonneg : 0 ≤ (dateOfDay (t.seconds / 86400)).year
  year_le : (dateOfDay (t.seconds / 86400)).year ≤ 9999
  nanoseconds_lt : t.nanoseconds < 2000000000

instance (t : Instant) : Decidable t.InFourDigits :=
  decidable_of_iff (_ ∧ _ ∧ _) ⟨fun ⟨h₁, h₂, h₃⟩ => ⟨h₁, h₂, h₃⟩, fun ⟨h₁, h₂, h₃⟩ => ⟨h₁, h₂, h₃⟩⟩

/-- What a clock in UTC shows in the years 0 to 9999: a leap second is the last one of a minute. -/
structure OnClock (t : Instant) : Prop extends InFourDigits t where
  leap : 1000000000 ≤ t.nanoseconds → t.seconds % 60 = 59

instance (t : Instant) : Decidable t.OnClock :=
  decidable_of_iff (_ ∧ _) ⟨fun ⟨h₁, h₂⟩ => ⟨h₁, h₂⟩, fun ⟨h₁, h₂⟩ => ⟨h₁, h₂⟩⟩

/-- The instant as a clock shows it: a leap second within a minute is the second after it. -/
def settled (t : Instant) : Instant :=
  if 1000000000 ≤ t.nanoseconds ∧ t.seconds % 60 ≠ 59 then
    { seconds := t.seconds + 1, nanoseconds := t.nanoseconds - 1000000000 }
  else t

/-- A clock shows what is on it already. -/
theorem settled_of_onClock {t : Instant} (h : t.OnClock) : t.settled = t :=
  if_neg fun ⟨hleap, hother⟩ => hother (h.leap hleap)

theorem onClock_settled {t : Instant} (h : t.InFourDigits) : t.settled.OnClock := by
  obtain ⟨hnonneg, hle, hnanos⟩ := h
  rw [settled]
  split
  · next hstray =>
    have hday : (t.seconds + 1) / 86400 = t.seconds / 86400 := by omega
    refine ⟨⟨by rw [hday]; exact hnonneg, by rw [hday]; exact hle, ?_⟩, fun hleap => ?_⟩ <;>
      dsimp only at * <;> omega
  · next hclock => exact ⟨⟨hnonneg, hle, hnanos⟩, by omega⟩

/-- What the clock shows is what is written. -/
theorem render_settled (t : Instant) (h : t.nanoseconds < 2000000000) :
    t.settled.render = t.render := by
  rw [settled]
  split
  · next hstray =>
    have hday : (t.seconds + 1) / 86400 = t.seconds / 86400 := by omega
    have hhour : ((t.seconds + 1) % 86400).toNat / 3600 = (t.seconds % 86400).toNat / 3600 := by
      omega
    have hminute : ((t.seconds + 1) % 86400).toNat / 60 % 60 =
        (t.seconds % 86400).toNat / 60 % 60 := by omega
    have hsecond : ((t.seconds + 1) % 86400).toNat % 60 +
          (t.nanoseconds - 1000000000) / 1000000000 =
        (t.seconds % 86400).toNat % 60 + t.nanoseconds / 1000000000 := by omega
    have hmillis : (t.nanoseconds - 1000000000) % 1000000000 = t.nanoseconds % 1000000000 := by
      omega
    unfold render
    dsimp only
    rw [hday, hhour, hminute, hsecond, hmillis]
  · rfl

/-- The instant cut to whole milliseconds. -/
def truncated (t : Instant) : Instant :=
  { t with nanoseconds := t.nanoseconds / 1000000 * 1000000 }

/-- The bytes of a timestamp. -/
theorem encode_render {t : Instant} (h : t.InFourDigits) :
    let date := dateOfDay (t.seconds / 86400)
    let second := (t.seconds % 86400).toNat
    Utf8.encode t.render =
      dateBytes date.year.toNat date.month date.day
        (84 :: timeBytes (second / 3600) (second / 60 % 60)
          (second % 60 + t.nanoseconds / 1000000000)
          (t.nanoseconds % 1000000000 / 1000000) [90]) := by
  intro date second
  have hyear : renderYear date.year = padded 4 date.year.toNat :=
    if_pos ⟨h.year_nonneg, h.year_le⟩
  have hmarks : Utf8.encode "-" = [45] ∧ Utf8.encode "T" = [84] ∧ Utf8.encode ":" = [58] ∧
      Utf8.encode "." = [46] ∧ Utf8.encode "Z" = [90] := by decide
  obtain ⟨hhyphen, hT, hcolon, hpoint, hZ⟩ := hmarks
  unfold render
  dsimp only
  rw [hyear]
  simp only [Utf8.encode_append, hhyphen, hT, hcolon, hpoint, hZ, List.append_assoc,
    List.singleton_append, dateBytes, timeBytes]
  rfl

/-- There are no blanks around a timestamp. -/
theorem trim_render {t : Instant} (h : t.InFourDigits) : Text.trim t.render = t.render := by
  have hyear : renderYear (dateOfDay (t.seconds / 86400)).year =
      padded 4 (dateOfDay (t.seconds / 86400)).year.toNat :=
    if_pos ⟨h.year_nonneg, h.year_le⟩
  have hfour : (dateOfDay (t.seconds / 86400)).year.toNat < 10 ^ 4 := by
    have hle := h.year_le
    omega
  -- it starts with a digit of the year and ends in `Z`
  obtain ⟨c, cs, hcons⟩ := List.exists_cons_of_length_pos (by
    rw [length_padded (by decide) hfour]
    decide : 0 < (padded 4 (dateOfDay (t.seconds / 86400)).year.toNat).toList.length)
  have hfirst : ∃ rest, t.render.toList = c :: rest := by
    unfold render
    dsimp only
    rw [hyear]
    simp only [String.toList_append, hcons, List.cons_append]
    exact ⟨_, rfl⟩
  have hlast : ∃ front, t.render.toList = front ++ ['Z'] := by
    unfold render
    dsimp only
    rw [String.toList_append]
    exact ⟨_, rfl⟩
  rw [Text.trim, Text.trimChars_of_ends, String.ofList_toList]
  · obtain ⟨rest, hrest⟩ := hfirst
    rw [hrest]
    intro d hd
    obtain rfl : c = d := Option.some.inj hd
    have hmem : c ∈ (padded 4 (dateOfDay (t.seconds / 86400)).year.toNat).toList := by
      rw [hcons]
      exact List.mem_cons_self ..
    obtain ⟨hlow, hhigh⟩ := isDigit_of_mem_padded hmem
    exact Text.isBlank_of_visible ⟨Nat.le_trans (by decide) hlow, Nat.le_trans hhigh (by decide)⟩
  · obtain ⟨front, hfront⟩ := hlast
    rw [hfront, List.getLast?_concat]
    intro d hd
    obtain rfl : 'Z' = d := Option.some.inj hd
    decide

/-- Day and second of the day, put together. -/
theorem seconds_eq (seconds : Int) :
    let second := (seconds % 86400).toNat
    seconds / 86400 * 86400 +
      (second / 3600 * 3600 + second / 60 % 60 * 60 + second % 60 : Nat) = seconds := by
  omega

/-- What a clock shows is read back, cut to whole milliseconds. -/
theorem parse_render_of_onClock {t : Instant} (h : t.OnClock) : parse t.render = .ok t.truncated := by
  obtain ⟨hmonth, hday⟩ := Calendar.dateOfDay_lt (t.seconds / 86400)
  have hexists := Calendar.exists?_dateOfDay (t.seconds / 86400)
  have hback := Calendar.dayOfDate_dateOfDay (t.seconds / 86400)
  have hseconds := seconds_eq t.seconds
  have hbytes := encode_render h.toInFourDigits
  obtain ⟨⟨hnonneg, hle, hnanos⟩, hleap⟩ := h
  have hyear : ((dateOfDay (t.seconds / 86400)).year.toNat : Int) =
      (dateOfDay (t.seconds / 86400)).year := Int.toNat_of_nonneg hnonneg
  have hfour : (dateOfDay (t.seconds / 86400)).year.toNat < 10000 := by omega
  have hhour : (t.seconds % 86400).toNat / 3600 < 24 := by omega
  have hminute : (t.seconds % 86400).toNat / 60 % 60 < 60 := Nat.mod_lt _ (by decide)
  have hsecond : (t.seconds % 86400).toNat % 60 < 60 := Nat.mod_lt _ (by decide)
  have hlast : t.nanoseconds / 1000000000 = 0 ∨
      t.nanoseconds / 1000000000 = 1 ∧ (t.seconds % 86400).toNat % 60 = 59 := by omega
  have hmillis : t.nanoseconds % 1000000000 / 1000000 < 1000 := by omega
  have hdate := takeDate_dateBytes hfour hmonth hday (by rw [hyear]; exact hexists)
  rw [hyear] at hdate
  have htime := takeTime_timeBytes hhour hminute hsecond hlast hmillis (b := 90) (by decide) []
  have hlong : ¬(Utf8.encode t.render).length < 19 := by
    rw [hbytes, length_dateBytes hfour hmonth hday, List.length_cons, length_timeBytes]
    all_goals omega
  have hfraction : t.nanoseconds % 1000000000 / 1000000 * 1000000 +
      t.nanoseconds / 1000000000 * 1000000000 = t.nanoseconds / 1000000 * 1000000 := by omega
  unfold parse
  dsimp only
  rw [if_neg hlong, hbytes]
  refine bind_eq_ok.2 ⟨_, hdate _, ?_⟩
  refine bind_eq_ok.2 ⟨_, htime, ?_⟩
  refine bind_eq_ok.2 ⟨_, takeOffset_Z, ?_⟩
  show Except.ok ({ seconds := _, nanoseconds := _ } : Instant) = _
  rw [hfraction, hback, Int.sub_zero, hseconds]
  rfl

/-- An instant is read back as a clock shows it, cut to whole milliseconds. -/
theorem parse_render {t : Instant} (h : t.InFourDigits) :
    parse t.render = .ok t.settled.truncated := by
  rw [← render_settled t h.nanoseconds_lt]
  exact parse_render_of_onClock (onClock_settled h)

end SoapMtom.Instant

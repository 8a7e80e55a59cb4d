import TopicHub.Proofs.Calendar
import TopicHub.Proofs.Digits

/-!
Instants as text. An instant whose day is one of the calendar is read back from its text as the same
instant, down to the nanosecond and also within a leap second; and no other instants are ever read.
-/

namespace TopicHub.Instant

open Number Text

/-- The day is one of the calendar, and a part beyond one second belongs to the last second of a
minute. -/
structure Proper (t : Instant) : Prop where
  dated : t.isDated = true
  nanos_lt : t.nanos < 2000000000
  leap : 1000000000 ≤ t.nanos → t.seconds % 60 = 59

instance (t : Instant) : Decidable t.Proper :=
  decidable_of_iff (t.isDated = true ∧ t.nanos < 2000000000 ∧
    (1000000000 ≤ t.nanos → t.seconds % 60 = 59))
    ⟨fun h => ⟨h.1, h.2.1, h.2.2⟩, fun h => ⟨h.dated, h.nanos_lt, h.leap⟩⟩

theorem trimStart_of_head {c : Char} (h : isBlank c = false) (s : List Char) :
    trimStart (c :: s) = c :: s := by
  unfold trimStart
  rw [List.dropWhile_cons, h]
  rfl

theorem trimStart_digits {ds : List Char} (hd : Digits ds) (hn : ds ≠ []) (rest : List Char) :
    trimStart (ds ++ rest) = ds ++ rest := by
  cases ds with
  | nil => exact absurd rfl hn
  | cons c s => exact trimStart_of_head (not_blank_of_isDigit (hd c (List.mem_cons_self ..))) _

theorem take_digits {ds : List Char} (hd : Digits ds) (rest : List Char) :
    ((ds ++ rest).takeWhile isDigit).take ds.length = ds := by
  rw [List.takeWhile_append_of_pos hd, List.take_left]

theorem readNumber_padded {width n : Nat} (hw : 0 < width) (hn : n < 10 ^ width)
    (rest : List Char) : readNumber width ((padded width n).toList ++ rest) = some (n, rest) := by
  have hd := digits_padded width n
  have hl := length_padded hw hn
  have ht : ((((padded width n).toList ++ rest).takeWhile isDigit).take width) =
      (padded width n).toList := by
    have h := take_digits hd rest
    rw [hl] at h
    exact h
  unfold readNumber
  rw [trimStart_digits hd (padded_ne_nil width n)]
  simp only [ht, natFrom_padded, List.drop_left, List.isEmpty_eq_false_iff.mpr (padded_ne_nil width n),
    Bool.false_eq_true, if_false]

theorem readMark_self {mark : Char} (h : isBlank mark = false) (rest : List Char) :
    readMark mark (mark :: rest) = some rest := by
  unfold readMark
  rw [trimStart_of_head h]
  simp only [if_true]

theorem readYear_of_digit {c : Char} (h : isDigit c = true) (s : List Char) :
    readYear (c :: s) = (readNumber 4 (c :: s)).map fun (n, rest) => ((n : Int), rest) := by
  have hm : c ≠ '-' := by
    rintro rfl
    exact absurd h (by decide)
  have hp : c ≠ '+' := by
    rintro rfl
    exact absurd h (by decide)
  unfold readYear
  rw [trimStart_of_head (not_blank_of_isDigit h)]
  split
  · rename_i t heq
    exact absurd (List.cons.inj heq).1 hm
  · rename_i t heq
    exact absurd (List.cons.inj heq).1 hp
  · rfl

theorem readYear_minus (n : Nat) (rest : List Char) :
    readYear ('-' :: ((padded 4 n).toList ++ '-' :: rest)) = some (-(n : Int), '-' :: rest) := by
  obtain ⟨ht, hr⟩ := takeWhile_digits (digits_padded 4 n) ('-' :: rest) rfl
  have he := List.isEmpty_eq_false_iff.mpr (padded_ne_nil 4 n)
  unfold readYear
  rw [trimStart_of_head (by decide)]
  simp only [ht, hr, he, natFrom_padded, Bool.false_eq_true, if_false]

theorem readYear_plus (n : Nat) (rest : List Char) :
    readYear ('+' :: ((padded 4 n).toList ++ '-' :: rest)) = some ((n : Int), '-' :: rest) := by
  obtain ⟨ht, hr⟩ := takeWhile_digits (digits_padded 4 n) ('-' :: rest) rfl
  have he := List.isEmpty_eq_false_iff.mpr (padded_ne_nil 4 n)
  unfold readYear
  rw [trimStart_of_head (by decide)]
  simp only [ht, hr, he, natFrom_padded, Bool.false_eq_true, if_false]

theorem readYear_yearText (y : Int) (rest : List Char) :
    readYear ((yearText y).toList ++ '-' :: rest) = some (y, '-' :: rest) := by
  unfold yearText
  split
  · rename_i h
    simp only [Bool.and_eq_true, decide_eq_true_eq] at h
    have hn : y.toNat < 10 ^ 4 := by omega
    have hr := readNumber_padded (by decide) hn ('-' :: rest)
    have hd := digits_padded 4 y.toNat
    rcases hs : (padded 4 y.toNat).toList with _ | ⟨c, s⟩
    · exact absurd hs (padded_ne_nil 4 y.toNat)
    · rw [hs] at hr hd
      rw [List.cons_append, readYear_of_digit (hd c (List.mem_cons_self ..)), ← List.cons_append, hr]
      simp only [Option.map_some, Option.some.injEq, Prod.mk.injEq, and_true]
      omega
  · by_cases hy : y < 0
    · simp only [hy, if_true, String.toList_append]
      refine (readYear_minus y.natAbs rest).trans (congrArg (fun y => some (y, '-' :: rest)) ?_)
      omega
    · simp only [hy, if_false, String.toList_append]
      refine (readYear_plus y.natAbs rest).trans (congrArg (fun y => some (y, '-' :: rest)) ?_)
      omega

theorem readNanos_point {width n : Nat} (hw : 0 < width) (h9 : width ≤ 9) (hn : n < 10 ^ width)
    (rest : List Char) : readNanos ('.' :: ((padded width n).toList ++ 'Z' :: rest)) =
      some (n * 10 ^ (9 - width), 'Z' :: rest) := by
  have hd := digits_padded width n
  obtain ⟨ht, hr⟩ := takeWhile_digits hd ('Z' :: rest) rfl
  have hl := length_padded hw hn
  have h9 : (padded width n).toList.take 9 = (padded width n).toList :=
    List.take_of_length_le (by omega)
  have he := List.isEmpty_eq_false_iff.mpr (padded_ne_nil width n)
  unfold readNanos
  simp only [ht, hr, h9, he, natFrom_padded, hl, Bool.false_eq_true, if_false]
  rfl

theorem readNanos_fractionText {nanos : Nat} (h : nanos < 1000000000) (rest : List Char) :
    readNanos ((fractionText nanos).toList ++ 'Z' :: rest) = some (nanos, 'Z' :: rest) := by
  have point {width : Nat} (hw : 0 < width) (h9 : width ≤ 9) {n : Nat} (hn : n < 10 ^ width)
      (he : n * 10 ^ (9 - width) = nanos) :
      readNanos (("." ++ padded width n).toList ++ 'Z' :: rest) = some (nanos, 'Z' :: rest) := by
    rw [String.toList_append, ← he]
    exact readNanos_point hw h9 hn rest
  unfold fractionText
  split
  · rename_i h0
    rw [h0]
    rfl
  · split
    · exact point (by decide) (by decide) (by omega) (by omega)
    · split
      · exact point (by decide) (by decide) (by omega) (by omega)
      · exact point (by decide) (by decide) h (by omega)

def written (date : Date) (hour minute second nanos : Nat) : List Char :=
  (yearText date.year).toList ++ '-' :: ((padded 2 date.month).toList ++ '-' ::
    ((padded 2 date.day).toList ++ 'T' :: ((padded 2 hour).toList ++ ':' ::
      ((padded 2 minute).toList ++ ':' :: ((padded 2 second).toList ++
        ((fractionText nanos).toList ++ ['Z']))))))

def timeOfDay (t : Instant) : Nat := (t.seconds.fmod 86400).toNat

def clockSecond (t : Instant) : Nat := t.timeOfDay % 60 + if 1000000000 ≤ t.nanos then 1 else 0

def clockNanos (t : Instant) : Nat :=
  if 1000000000 ≤ t.nanos then t.nanos - 1000000000 else t.nanos

theorem toList_text (t : Instant) : t.text.toList =
    written (Date.ofDays (t.seconds.fdiv 86400)) (t.timeOfDay / 3600) (t.timeOfDay / 60 % 60)
      t.clockSecond t.clockNanos := by
  have hm : "-".toList = ['-'] := rfl
  have ht : "T".toList = ['T'] := rfl
  have hc : ":".toList = [':'] := rfl
  have hz : "Z".toList = ['Z'] := rfl
  unfold text bareText written clockSecond clockNanos timeOfDay
  simp only [String.toList_append, List.append_assoc, hm, ht, hc, hz, List.cons_append,
    List.nil_append]

theorem readChars?_written {date : Date} {hour minute second nanos : Nat}
    (hm : date.month ≤ 12) (hd : date.day ≤ 31) (hh : hour < 24) (hmi : minute < 60)
    (hs : second ≤ 60) (hn : nanos < 1000000000) :
    readChars? (written date hour minute second nanos) =
      if date.isValid then
        let t : Instant := ⟨date.toDays * 86400 +
          (hour * 3600 + minute * 60 + if second = 60 then 59 else second : Nat),
          if second = 60 then nanos + 1000000000 else nanos⟩
        if t.isDated then some t else none
      else none := by
  have two {n : Nat} (h : n ≤ 60) (rest : List Char) :
      readNumber 2 ((padded 2 n).toList ++ rest) = some (n, rest) :=
    readNumber_padded (by decide) (by omega) rest
  unfold readChars? written
  simp only [readYear_yearText, readMark_self (show isBlank '-' = false by decide),
    readMark_self (show isBlank ':' = false by decide), two (show date.month ≤ 60 by omega),
    two (show date.day ≤ 60 by omega), two (show hour ≤ 60 by omega),
    two (show minute ≤ 60 by omega), two hs, readNanos_fractionText hn, some_bind]
  rw [if_pos (by rfl), show readOffset ['Z'] = some (0, []) from rfl, some_bind]
  simp only [Int.sub_zero, hh, hmi, hs, trimStart, List.dropWhile_nil, List.isEmpty_nil, decide_true,
    Bool.and_true]
  rfl

theorem isValid_of_isDated {t : Instant} (h : t.isDated = true) :
    (Date.ofDays (t.seconds.fdiv 86400)).isValid = true := by
  obtain ⟨⟨hm1, hm12⟩, hd1, hd⟩ := ofDays_valid (t.seconds.fdiv 86400)
  simp only [isDated, Bool.and_eq_true, decide_eq_true_eq] at h
  simp only [Date.isValid, Bool.and_eq_true, decide_eq_true_eq]
  exact ⟨⟨⟨⟨h, hm1⟩, hm12⟩, hd1⟩, hd⟩

theorem daysInMonth_le_31 (y : Int) (m : Nat) : daysInMonth y m ≤ 31 := by
  unfold daysInMonth
  grind

theorem fdiv_add_timeOfDay (t : Instant) :
    t.seconds.fdiv 86400 * 86400 + t.timeOfDay = t.seconds ∧ t.timeOfDay < 86400 := by
  have hd := Int.mul_fdiv_add_fmod t.seconds 86400
  have hp : 0 ≤ t.seconds.fmod 86400 := Int.fmod_nonneg_of_pos _ (by decide)
  have hl : t.seconds.fmod 86400 < 86400 := Int.fmod_lt_of_pos _ (by decide)
  unfold timeOfDay
  omega

theorem clockSecond_eq_60 {t : Instant} (h : t.Proper) :
    t.clockSecond = 60 ↔ 1000000000 ≤ t.nanos := by
  obtain ⟨hd, _⟩ := t.fdiv_add_timeOfDay
  have hl := h.leap
  unfold clockSecond
  by_cases hn : 1000000000 ≤ t.nanos
  · have := hl hn
    simp only [hn, if_true, iff_true]
    omega
  · simp only [hn, if_false, iff_false]
    omega

theorem read?_text {t : Instant} (h : t.Proper) : read? t.text = some t := by
  obtain ⟨⟨_, hm⟩, _, hd⟩ := ofDays_valid (t.seconds.fdiv 86400)
  obtain ⟨hday, hlt⟩ := t.fdiv_add_timeOfDay
  have hs : t.clockSecond ≤ 60 := by
    unfold clockSecond
    split <;> omega
  have hn : t.clockNanos < 1000000000 := by
    have := h.nanos_lt
    unfold clockNanos
    split <;> omega
  have he : (⟨t.seconds.fdiv 86400 * 86400 + (t.timeOfDay / 3600 * 3600 + t.timeOfDay / 60 % 60 * 60 +
      if t.clockSecond = 60 then 59 else t.clockSecond : Nat),
      if t.clockSecond = 60 then t.clockNanos + 1000000000 else t.clockNanos⟩ : Instant) = t := by
    simp only [clockSecond_eq_60 h]
    by_cases hl : 1000000000 ≤ t.nanos
    · have h60 := (clockSecond_eq_60 h).mpr hl
      simp only [clockSecond, clockNanos, hl, if_true] at h60 ⊢
      congr 1 <;> omega
    · simp only [clockSecond, clockNanos, hl, if_false]
      congr 1
      omega
  unfold read?
  rw [toList_text, readChars?_written hm (Nat.le_trans hd (daysInMonth_le_31 _ _)) (by omega)
    (Nat.mod_lt _ (by decide)) hs hn, toDays_ofDays, he, isValid_of_isDated h.dated]
  simp only [h.dated, if_true]

theorem readNanos_lt {s rest : List Char} {n : Nat} (h : readNanos s = some (n, rest)) :
    n < 1000000000 := by
  unfold readNanos at h
  split at h
  · rename_i s
    dsimp only at h
    split at h
    · cases h
    · obtain ⟨rfl, -⟩ := Prod.mk.inj (Option.some.inj h)
      have hd : Digits ((s.takeWhile isDigit).take 9) := fun c hc =>
        List.all_eq_true.mp List.all_takeWhile c (List.mem_of_mem_take hc)
      have hv := natFrom_lt hd 0
      have hl : ((s.takeWhile isDigit).take 9).length ≤ 9 := List.length_take_le ..
      generalize ((s.takeWhile isDigit).take 9).length = k at *
      generalize natFrom 0 ((s.takeWhile isDigit).take 9) = n at *
      calc n * Nat.pow 10 (9 - k) < 10 ^ k * 10 ^ (9 - k) :=
            Nat.mul_lt_mul_of_pos_right (by omega) (Nat.pow_pos (by decide))
        _ = 10 ^ 9 := by rw [← Nat.pow_add, Nat.add_sub_cancel' hl]
        _ = 1000000000 := by decide
  · cases h
    decide

theorem readSigned_minutes {sign o : Int} {s rest : List Char}
    (h : readSigned sign s = some (o, rest)) : o % 60 = 0 := by
  unfold readSigned at h
  simp only [Option.bind_eq_bind, Option.bind_eq_some_iff, Option.ite_none_right_eq_some] at h
  obtain ⟨⟨hours, _⟩, -, ⟨minutes, _⟩, -, -, h⟩ := h
  obtain ⟨rfl, -⟩ := Prod.mk.inj (Option.some.inj h)
  have he : ((hours * 3600 + minutes * 60 : Nat) : Int) = (hours * 60 + minutes : Nat) * 60 := by
    omega
  rw [he, ← Int.mul_assoc]
  exact Int.mul_emod_left _ _

theorem readOffset_minutes {s rest : List Char} {o : Int} (h : readOffset s = some (o, rest)) :
    o % 60 = 0 := by
  unfold readOffset at h
  split at h
  · cases h
  · split at h
    · cases h
      rfl
    · split at h
      · exact readSigned_minutes h
      · split at h
        · exact readSigned_minutes h
        · obtain ⟨-, h⟩ := Option.ite_none_right_eq_some.mp h
          cases h
          rfl

/-- No text reads as an instant that has none. -/
theorem proper_of_read? {text : String} {t : Instant} (h : read? text = some t) : t.Proper := by
  unfold read? readChars? at h
  simp only [bind_eq_some] at h
  obtain ⟨⟨year, s⟩, -, s, -, ⟨month, s⟩, -, s, -, ⟨day, s⟩, -, h⟩ := h
  split at h
  · split at h
    · simp only [some_bind, bind_eq_some, Option.ite_none_right_eq_some] at h
      obtain ⟨⟨hour, s⟩, -, s, -, ⟨minute, s⟩, -, s, -, ⟨second, s⟩, -, ⟨nanos, s⟩, hn, ⟨offset, s⟩, ho,
        -, hd, h⟩ := h
      obtain rfl := Option.some.inj h
      have hl := readNanos_lt hn
      have hm := readOffset_minutes ho
      refine ⟨hd, ?_, ?_⟩
      · dsimp only
        split <;> omega
      · dsimp only
        intro hge
        split at hge
        · rename_i h60
          simp only [h60, if_true]
          omega
        · omega
    · cases h
  · cases h

end TopicHub.Instant

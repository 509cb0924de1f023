import ResourceQuery.Proofs.Calendar.Completion
import ResourceQuery.Proofs.Calendar.Moments

/-!
# Fields that an input supplies

An input that is read in a partial format has said something about everything that its components ask for.
The moment shows all of it, if the format tells a whole time of day. In another format the moment is midnight,
whatever hour or minute the input says: the format is taken for one of dates alone.

Main statement: the moment shows what an input says about the date, and what it says about the time exactly
if the format tells the time or the input says zero.
-/

namespace ResourceQuery
set_option autoImplicit false
open Calendar Fallible Text Numeral

/-- The format asks for an hour, for a minute, and for a second if it asks for decimal places. -/
def DateFormat.tellsTime (format : DateFormat) : Bool :=
  (asked format.text).contains .hour && (asked format.text).contains (.value .minute) &&
    (!(asked format.text).contains (.value .nanosecond) || (asked format.text).contains (.value .second))

namespace Calendar

/-! ## What formats ask for -/

/-- A slot asks for a part of a date or of a time of day. -/
theorem Slot.isOfDate_or_isOfTime (slot : Slot) {q : Quantity} (asks : slot.item.asks? = some q) :
    q.isOfDate = true ∨ q.isOfTime = true := by
  have stands := slot.stands_item
  have letter := slot.letter_mem
  generalize slot.item = item at *
  cases stands with
  | unknown => simp [Item.asks?] at asks
  | number quantity =>
    obtain rfl := Option.some.inj asks
    simp only [List.mem_cons, List.not_mem_nil, or_false] at letter
    rcases letter with same | same | same | same | same | same | same | same | same | same | same <;>
      rw [same] at quantity <;> obtain rfl := Option.some.inj quantity <;> decide
  | fraction | pointFraction | bareFraction =>
    obtain rfl := Option.some.inj asks
    exact .inr rfl

theorem ArePlain.isOfDate_or_isOfTime {components : List Component} (plain : ArePlain components) :
    ∀ q ∈ (itemsOf components).filterMap Item.asks?, q.isOfDate = true ∨ q.isOfTime = true := by
  have none {literal : List Char} (plain : '%' ∉ literal) : (Item.ofText literal).filterMap Item.asks? = [] :=
    List.filterMap_eq_nil_iff.2 fun item mem => ((Item.ofText_literal plain).1 item mem).2
  induction plain with
  | nil => simp [itemsOf]
  | ending plain =>
    rw [itemsOf_ending, none plain]
    exact fun q mem => absurd mem List.not_mem_nil
  | slot slot _ ih =>
    rw [itemsOf_slot, List.filterMap_append, none slot.plain, List.nil_append]
    intro q mem
    obtain ⟨item, isItem, asks⟩ := List.mem_filterMap.1 mem
    rcases List.mem_cons.1 isItem with rfl | isItem
    · exact slot.isOfDate_or_isOfTime asks
    · exact ih q (List.mem_filterMap.2 ⟨item, isItem, asks⟩)

/-! ## What readings say -/

/-- A part of a date or of a time of day is the hour, or the value of a field that the hour says nothing
about. -/
theorem Quantity.eq_hour_or_value {q : Quantity} (known : q.isOfDate = true ∨ q.isOfTime = true) :
    q = .hour ∨ ∃ f, q = .value f ∧ f ≠ .halfDay ∧ f ≠ .hourOfHalf := by
  cases q with
  | value f =>
    refine .inr ⟨f, rfl, ?_, ?_⟩ <;> rintro rfl <;> exact absurd known (by decide)
  | hour => exact .inl rfl
  | clockHour | weekdayFromSunday | weekdayFromMonday => exact absurd known (by decide)

/-- No two parts of a date or of a time of day say something about one field. -/
theorem Quantity.eq_of_mem_values {q q' : Quantity} {f : Field} {m m' n n' : Int}
    (known : q.isOfDate = true ∨ q.isOfTime = true) (known' : q'.isOfDate = true ∨ q'.isOfTime = true)
    (mem : (f, m) ∈ q.values n) (mem' : (f, m') ∈ q'.values n') : q = q' := by
  rcases eq_hour_or_value known with rfl | ⟨g, rfl, other⟩ <;>
    rcases eq_hour_or_value known' with rfl | ⟨g', rfl, other'⟩ <;>
    simp [values] at mem mem' <;> grind

namespace Reading

variable {reading : Reading} {said : List (Quantity × Int)} {q : Quantity}

/-- A reading says something about exactly those parts of a time of day that have been recorded. -/
theorem Holds.isSome_quantity?_iff (holds : reading.Holds said)
    (known : ∀ q ∈ said.map Prod.fst, q.isOfDate = true ∨ q.isOfTime = true) (isOfTime : q.isOfTime = true) :
    (reading.quantity? q).isSome = true ↔ q ∈ said.map Prod.fst := by
  constructor
  · intro some
    have value : ∃ f m n, reading.value f = .some m ∧ (f, m) ∈ q.values n := by
      cases q with
      | value f =>
        obtain ⟨n, value⟩ := Option.isSome_iff_exists.1 some
        exact ⟨f, n, n, value, List.mem_cons_self⟩
      | hour =>
        obtain ⟨hour, isHour⟩ := Option.isSome_iff_exists.1 some
        simp only [quantity?, hour?, Option.bind_eq_bind, Option.bind_eq_some_iff] at isHour
        obtain ⟨half, isHalf, -⟩ := isHour
        have same : half * 12 / 12 = half := Int.mul_ediv_cancel half (by decide)
        exact ⟨.halfDay, half, half * 12, isHalf, by rw [Quantity.values, same]; exact List.mem_cons_self⟩
      | clockHour | weekdayFromSunday | weekdayFromMonday => simp [Quantity.isOfTime] at isOfTime
    obtain ⟨f, m, n, value, stands⟩ := value
    obtain ⟨q', n', mem, stands'⟩ := (holds.value f m).1 value
    have mem' := List.mem_map_of_mem mem (f := Prod.fst)
    exact Quantity.eq_of_mem_values (known q' mem') (.inr isOfTime) stands' stands ▸ mem'
  · intro mem
    obtain ⟨⟨_, n⟩, mem', rfl⟩ := List.mem_map.1 mem
    rw [holds.quantity?_of_mem mem' (.inr isOfTime)]
    rfl

end Reading
end Calendar

namespace DateFormat

variable {format : DateFormat} {text input : String} {moment : DateTime}

/-- A reading of the whole format tells the time exactly if the format does. -/
theorem tellsTime_iff {reading : Reading} {said : List (Quantity × Int)} (holds : reading.Holds said)
    (all : said.map Prod.fst = asked format.text)
    (known : ∀ q ∈ asked format.text, q.isOfDate = true ∨ q.isOfTime = true) :
    reading.tellsTime ↔ format.tellsTime = true := by
  have asks {q : Quantity} (isOfTime : q.isOfTime = true) :
      (reading.quantity? q).isSome = true ↔ q ∈ asked format.text :=
    all ▸ holds.isSome_quantity?_iff (all ▸ known) isOfTime
  have hour : reading.hour?.isSome = true ↔ _ := asks (q := .hour) rfl
  have minute : (reading.value .minute).isSome = true ↔ _ := asks (q := .value .minute) rfl
  have second : (reading.value .second).isSome = true ↔ _ := asks (q := .value .second) rfl
  have nanosecond : (reading.value .nanosecond).isSome = true ↔ _ := asks (q := .value .nanosecond) rfl
  rw [Reading.tellsTime, hour, minute, second, nanosecond]
  simp only [tellsTime, Bool.and_eq_true, Bool.or_eq_true, Bool.not_eq_true', List.contains_eq_mem,
    decide_eq_true_eq, decide_eq_false_iff_not, and_assoc, imp_iff_not_or]

/-- **Main.** The moment that an input is read as shows what the input says about the date. It shows what the
input says about the time of day if the format tells one, and midnight if not. -/
theorem shows_of_parse (noEscape : ¬['%', '%'] <:+: text.toList) (accepted : ofText text = .ok format)
    (ends : EndsDigits
      ((format.components.drop (format.suppliedCount input.toList)).flatMap Component.fill))
    (parsed : format.parse input = .ok moment) :
    ∃ front, Reading.ofText (format.front (format.suppliedCount input.toList)) input.toList = .ok front ∧
      ∀ q ∈ asked (format.front (format.suppliedCount input.toList)), ∃ n, front.quantity? q = some n ∧
        (moment.date.shows q = some n ∨ moment.time.shows q = some (if format.tellsTime then n else 0)) := by
  obtain ⟨-, ⟨front, matched⟩, -, reading, completed, determined⟩ := parse_eq_ok.1 parsed
  obtain ⟨plain, whole, -⟩ := arePlain_of_ofText noEscape accepted
  obtain ⟨-, supplied⟩ := (format.isGreatest_suppliedCount input.toList).1
  obtain ⟨said, said', recorded, recorded', all, all'⟩ :=
    exists_said plain whole supplied ends matched completed
  have holds : front.Holds said := Reading.holds_empty.recordEach recorded
  have holds' : reading.Holds (said ++ said') := Reading.holds_empty.recordEach recorded'
  have known : ∀ q ∈ asked format.text, q.isOfDate = true ∨ q.isOfTime = true := by
    rw [asked, ← whole, (takeItems_of_ofText plain (whole ▸ completed)).2.1]
    exact plain.isOfDate_or_isOfTime
  have tells := tellsTime_iff holds' all' known
  refine ⟨front, matched, fun q isAsked => ?_⟩
  obtain ⟨⟨_, n⟩, mem, rfl⟩ := List.mem_map.1 (all ▸ isAsked)
  have mem' : (_, n) ∈ said ++ said' := List.mem_append_left _ mem
  have isKnown := known _ (all' ▸ List.mem_map_of_mem mem')
  have isSaid := holds'.quantity?_of_mem mem' isKnown
  refine ⟨n, holds.quantity?_of_mem mem isKnown, ?_⟩
  rcases determined with determined | ⟨⟨fault, failed⟩, day, isDay, rfl⟩
  · -- Both a date and a time of day are determined.
    obtain ⟨day, isDay, determined⟩ := bind_eq_ok.1 determined
    obtain ⟨time, isTime, same⟩ := bind_eq_ok.1 determined
    obtain rfl := pure_eq_ok.1 same
    refine isKnown.imp (Reading.shows_of_date holds'.isInRange isDay · isSaid) fun isOfTime => ?_
    have told := Reading.tellsTime_of_time isTime
    obtain ⟨time', isTime', shows⟩ := Reading.exists_time holds'.isInRange told
    obtain rfl := Except.ok.inj (isTime.symm.trans isTime')
    rw [if_pos (tells.1 told)]
    exact shows _ n isOfTime isSaid
  · -- The format tells no time of day, as the date is not what is missing.
    refine isKnown.imp (Reading.shows_of_date holds'.isInRange isDay · isSaid) fun isOfTime => ?_
    have untold : ¬format.tellsTime = true := by
      intro told
      obtain ⟨time, isTime, -⟩ := Reading.exists_time holds'.isInRange (tells.2 told)
      rw [Reading.dateTime, isDay, isTime] at failed
      simp [bind, Except.bind, pure, Except.pure] at failed
    rw [if_neg untold]
    exact Time.shows_midnight isOfTime

/-- Day, hour and minute of an ISO text without a second. -/
theorem shows_of_parse_minutes :
    ∃ moment front, DateTime.isoFormat.parse "2009-10-12T12:15" = .ok moment ∧
      Reading.ofText (DateTime.isoFormat.front 5) "2009-10-12T12:15".toList = .ok front ∧
      ∀ q ∈ asked (DateTime.isoFormat.front 5), ∃ n, front.quantity? q = some n ∧
        (moment.date.shows q = some n ∨ moment.time.shows q = some n) := by
  have parsed : DateTime.isoFormat.parse "2009-10-12T12:15" = .ok
      ⟨⟨2009, 10, 12, by decide, by decide, by decide⟩,
        ⟨12, 15, 0, 0, by decide, by decide, by decide, by decide⟩⟩ := by decide +kernel
  have supplied : DateTime.isoFormat.suppliedCount "2009-10-12T12:15".toList = 5 := by decide +kernel
  have tells : DateTime.isoFormat.tellsTime = true := by decide +kernel
  have ends : EndsDigits (DateTime.isoFormat.components.drop 5 |>.flatMap Component.fill) :=
    endsDigits_cons rfl
  obtain ⟨front, matched, kept⟩ :=
    shows_of_parse (by decide) DateTime.ofText_isoText (supplied ▸ ends) parsed
  simp only [supplied, tells, if_true] at matched kept
  exact ⟨_, front, parsed, matched, kept⟩

/-- Not every format keeps what an input says about the time: a day and an hour are read as midnight. -/
theorem not_shows_all : ¬∀ (text input : String) (format : DateFormat) (moment : DateTime) (front : Reading)
    (q : Quantity) (n : Int), ofText text = .ok format → format.parse input = .ok moment →
      Reading.ofText (format.front (format.suppliedCount input.toList)) input.toList = .ok front →
      q ∈ asked (format.front (format.suppliedCount input.toList)) → front.quantity? q = some n →
      moment.date.shows q = some n ∨ moment.time.shows q = some n := by
  intro all
  have accepted : ofText "%Y-%m-%d %H" = .ok ⟨"%Y-%m-%d %H".toList,
      [⟨['%', 'Y'], [], ['0', '0', '0', '0']⟩, ⟨['-', '%', 'm'], ['-'], ['-', '0', '1']⟩,
        ⟨['-', '%', 'd'], ['-'], ['-', '0', '1']⟩, ⟨[' ', '%', 'H'], [' '], [' ', '0', '0']⟩]⟩ := rfl
  generalize isFormat : (⟨_, _⟩ : DateFormat) = format at accepted
  have parsed : format.parse "2009-10-12 12" =
      .ok ⟨⟨2009, 10, 12, by decide, by decide, by decide⟩, Time.midnight⟩ := by
    subst isFormat
    decide +kernel
  have supplied : format.suppliedCount "2009-10-12 12".toList = 4 := by
    subst isFormat
    decide +kernel
  have matched : (·.quantity? .hour) <$> Reading.ofText (format.front 4) "2009-10-12 12".toList =
      .ok (some 12) := by
    subst isFormat
    decide +kernel
  have isAsked : .hour ∈ asked (format.front 4) := by
    subst isFormat
    decide +kernel
  obtain ⟨front, matched, hour⟩ := map_eq_ok.1 matched
  rw [← supplied] at matched isAsked
  rcases all _ _ _ _ _ _ _ accepted parsed matched isAsked hour with shows | shows <;> cases shows

end DateFormat
end ResourceQuery

/-
GottaGo.Places.Hours — today's opening hours on a place card
(`getTodaysHours` of `lib/globals.dart`, and the row of `place_card.dart`
that shows its result).

The hours of a place are lines of the Places service, which `Week` describes:
at most one line a weekday, closed, open all day, or one or more intervals.
`getTodaysHours` finds the line of the day by its name and cuts the name off
(`getTodaysHours_week`); it throws when there is no line. The card takes what
stands between the first dash and the second. With one interval that is the
closing time, with more it also has the next opening time in it, behind a
comma that no time has (`hoursText_intervals`).
-/
import GottaGo.Json.Dynamic
import GottaGo.Text.Dart

namespace GottaGo

open GottaGo.Firestore

/-! ## The code -/

/-- The hours of a place are strings: `fromGooglePlace` stores the
`List<String>` of a `GooglePlace`. -/
def getTodaysHours (todaysDay : String) (hours : Option (List String)) :
    Except Json.Thrown (Option String) :=
  match hours with
  | none => return none
  | some hours => do
    let todaysHours ← Json.firstWhere (fun element => .ok (Dart.contains element todaysDay)) hours
    if Dart.contains todaysHours "Closed" then return some "Closed"
    else return some (Dart.replaceFirst todaysHours (todaysDay ++ ": ") "")

/-- The text in the row of a `PlaceCard`; null is a `SizedBox`. -/
def PlaceCard.hoursText (todaysHours : Option String) : Except Json.Thrown (Option String) :=
  match todaysHours with
  | none => return none
  | some todaysHours =>
    if todaysHours ≠ "Closed" then
      if Dart.contains todaysHours "24 hours" then return some "Open 24 Hours"
      else
        match (Dart.split todaysHours '–')[1]? with
        | none => .error .rangeError
        | some closing => return some ("Open 'til: " ++ Dart.trim closing)
    else return some "Closed Today!"

/-! ## The format -/

inductive Weekday where
  | monday | tuesday | wednesday | thursday | friday | saturday | sunday
  deriving DecidableEq, Repr

/-- `DateFormat('EEEE')`. -/
def Weekday.name : Weekday → String
  | monday => "Monday"
  | tuesday => "Tuesday"
  | wednesday => "Wednesday"
  | thursday => "Thursday"
  | friday => "Friday"
  | saturday => "Saturday"
  | sunday => "Sunday"

/-- The characters of times: digits, separators, spaces (narrow and thin ones
too) and the letters of AM and PM. -/
def isTimeChar (c : Char) : Bool :=
  c.isDigit || c ∈ [':', '.', ' ', '\u00A0', '\u2009', '\u202F', 'A', 'P', 'M', 'a', 'p', 'm']

/-- A time, such as `9:00 AM`. -/
structure Time where
  text : String
  chars : ∀ c ∈ text.toList, isTimeChar c = true
  head : ∀ c, text.toList.head? = some c → Dart.isSpace c = false
  last : ∀ c, text.toList.getLast? = some c → Dart.isSpace c = false

structure Interval where
  opens : Time
  closes : Time

/-- `open – close`. -/
def Interval.text (i : Interval) : String := i.opens.text ++ " – " ++ i.closes.text

/-- What a line says about its day. -/
inductive DayHours where
  | closed
  | open24Hours
  | intervals (first : Interval) (rest : List Interval)

namespace DayHours

/-- Intervals, separated by commas. -/
def join : Interval → List Interval → String
  | i, [] => i.text
  | i, j :: js => i.text ++ ", " ++ join j js

def text : DayHours → String
  | closed => "Closed"
  | open24Hours => "Open 24 hours"
  | intervals first rest => join first rest

def isClosed : DayHours → Bool
  | closed => true
  | _ => false

/-- There is one interval, or none. -/
def Single : DayHours → Prop
  | intervals _ rest => rest = []
  | _ => True

end DayHours

/-- The line of a day. -/
def hoursLine (day : Weekday) (h : DayHours) : String := day.name ++ (": " ++ h.text)

/-- The lines of a place, at most one for each weekday. -/
structure Week where
  lines : List (Weekday × DayHours)
  once : (lines.map Prod.fst).Nodup

namespace Week

/-- The lines as text. -/
def hours (week : Week) : List String := week.lines.map fun l => hoursLine l.1 l.2

/-- What the line of the day says, if there is one. -/
def hoursOf (week : Week) (day : Weekday) : Option DayHours :=
  (week.lines.find? fun l => l.1 = day).map Prod.snd

end Week

/-- What the card is to show for a day. -/
def Closing (h : Option DayHours) (text : Option String) : Prop :=
  match h with
  | none => text = none
  | some (.intervals first rest) =>
    text = some ("Open 'til: " ++ (rest.getLastD first).closes.text)
  | some _ => True

/-! ## The characters of a line -/

/-- The characters of intervals. -/
def isIntervalChar (c : Char) : Bool := isTimeChar c || c = '–' || c = ','

theorem isIntervalChar_of_time (t : Time) : ∀ c ∈ t.text.toList, isIntervalChar c = true := by
  intro c hc
  simp [isIntervalChar, t.chars c hc]

theorem isIntervalChar_of_interval (i : Interval) :
    ∀ c ∈ i.text.toList, isIntervalChar c = true := by
  have hdash : ∀ c ∈ " – ".toList, isIntervalChar c = true := List.all_eq_true.mp (by decide)
  intro c hc
  rw [Interval.text, String.toList_append, String.toList_append, List.mem_append,
    List.mem_append] at hc
  rcases hc with (h | h) | h
  · exact isIntervalChar_of_time i.opens c h
  · exact hdash c h
  · exact isIntervalChar_of_time i.closes c h

theorem isIntervalChar_of_join (first : Interval) (rest : List Interval) :
    ∀ c ∈ (DayHours.join first rest).toList, isIntervalChar c = true := by
  have hcomma : ∀ c ∈ ", ".toList, isIntervalChar c = true := List.all_eq_true.mp (by decide)
  induction rest generalizing first with
  | nil => exact isIntervalChar_of_interval first
  | cons j js ih =>
    intro c hc
    rw [DayHours.join, String.toList_append, String.toList_append, List.mem_append,
      List.mem_append] at hc
    rcases hc with (h | h) | h
    · exact isIntervalChar_of_interval first c h
    · exact hcomma c h
    · exact ih j c h

/-- Intervals do not have a character of another kind. -/
theorem notMem_join {c : Char} (hc : isIntervalChar c = false) (first : Interval)
    (rest : List Interval) : c ∉ (DayHours.join first rest).toList := by
  intro h
  rw [isIntervalChar_of_join first rest c h] at hc
  cases hc

theorem notMem_time {c : Char} (hc : isTimeChar c = false) (t : Time) : c ∉ t.text.toList := by
  intro h
  rw [t.chars c h] at hc
  cases hc

/-- What a line says has no `y` in it, which all names of days end with. -/
theorem y_notMem_text (h : DayHours) : 'y' ∉ (": " ++ h.text).toList := by
  rw [String.toList_append, List.mem_append, not_or]
  refine ⟨by decide, ?_⟩
  cases h with
  | closed => decide
  | open24Hours => decide
  | intervals first rest => exact notMem_join (by decide) first rest

theorem Weekday.name_concat (day : Weekday) : ∃ p, day.name.toList = p ++ ['y'] := by
  cases day <;> exact ⟨_, List.dropLast_append_getLast (by decide) |>.symm⟩

theorem Weekday.contains_name (d e : Weekday) : Dart.contains d.name e.name = decide (d = e) := by
  cases d <;> cases e <;> decide

/-- A line has the name of its own day in it and of no other. -/
theorem contains_hoursLine (d e : Weekday) (h : DayHours) :
    Dart.contains (hoursLine d h) e.name = decide (d = e) := by
  obtain ⟨p, hp⟩ := e.name_concat
  rw [hoursLine, Dart.contains_append_of_concat hp (y_notMem_text h), Weekday.contains_name]

/-! ## The two functions on a week -/

/-- A line is of a closed day when it says so. -/
theorem contains_closed (day : Weekday) (h : DayHours) :
    Dart.contains (hoursLine day h) "Closed" = h.isClosed := by
  have hname : 'C' ∉ day.name.toList := by cases day <;> decide
  have hpat : 'C' ∈ "Closed".toList := by decide
  cases h with
  | closed =>
    rw [DayHours.isClosed, hoursLine, DayHours.text, ← String.append_assoc]
    have hend := Dart.contains_append (day.name ++ ": ") "Closed" ""
    rwa [String.append_empty] at hend
  | open24Hours =>
    refine Dart.not_contains_of_mem hpat ?_
    rw [hoursLine, String.toList_append, List.mem_append, not_or]
    exact ⟨hname, by decide⟩
  | intervals first rest =>
    refine Dart.not_contains_of_mem hpat ?_
    rw [hoursLine, String.toList_append, List.mem_append, not_or, String.toList_append,
      List.mem_append, not_or]
    exact ⟨hname, by decide, notMem_join (by decide) first rest⟩

/-- Today's hours are what the line of the day says; without one the search
throws. -/
theorem getTodaysHours_week (week : Week) (day : Weekday) :
    getTodaysHours day.name (some week.hours) =
      match week.hoursOf day with
      | none => .error .stateError
      | some h => .ok (some h.text) := by
  have hfind : week.hours.find? (fun element => Dart.contains element day.name) =
      (week.lines.find? fun l => l.1 = day).map fun l => hoursLine l.1 l.2 := by
    rw [Week.hours, List.find?_map]
    simp only [Function.comp_def, contains_hoursLine]
  rw [getTodaysHours, Json.firstWhere_eq fun _ _ => rfl, hfind, Week.hoursOf]
  cases hline : week.lines.find? fun l => l.1 = day with
  | none => rfl
  | some l =>
    obtain ⟨d, h⟩ := l
    obtain rfl : d = day := by simpa using List.find?_some hline
    simp only [Option.map_some, bind, Except.bind, contains_closed]
    have hcut : Dart.replaceFirst (hoursLine d h) (d.name ++ ": ") "" = h.text := by
      rw [hoursLine, ← String.append_assoc, Dart.replaceFirst_append, String.empty_append]
    cases h with
    | closed => rfl
    | open24Hours => simp [DayHours.isClosed, hcut, pure, Except.pure]
    | intervals first rest => simp [DayHours.isClosed, hcut, pure, Except.pure]

section Intervals

variable (first : Interval) (rest : List Interval)

/-- Of intervals the card shows what stands behind the first dash. -/
theorem hoursText_of_piece {closing : String}
    (h : (Dart.split (DayHours.join first rest) '–')[1]? = some closing) :
    PlaceCard.hoursText (some (DayHours.join first rest)) =
      .ok (some ("Open 'til: " ++ Dart.trim closing)) := by
  have hclosed : DayHours.join first rest ≠ "Closed" := by
    intro he
    have hC := notMem_join (c := 'C') (by decide) first rest
    rw [he] at hC
    exact hC (by decide)
  have hall : Dart.contains (DayHours.join first rest) "24 hours" = false :=
    Dart.not_contains_of_mem (c := 'h') (by decide) (notMem_join (by decide) first rest)
  simp [PlaceCard.hoursText, hclosed, hall, h, pure, Except.pure]

/-- The text up to the first dash is cut off. -/
theorem split_interval (i : Interval) (s : String) :
    Dart.split (i.text ++ s) '–' =
      (i.opens.text ++ " ") :: Dart.split (" " ++ i.closes.text ++ s) '–' := by
  have hopens : '–' ∉ (i.opens.text ++ " ").toList := by
    rw [String.toList_append, List.mem_append, not_or]
    exact ⟨notMem_time (by decide) i.opens, by decide⟩
  have htext : i.text ++ s =
      (i.opens.text ++ " ") ++ (String.ofList ['–'] ++ (" " ++ i.closes.text ++ s)) := by
    rw [← String.toList_inj]
    simp [Interval.text]
  rw [htext, Dart.split_append hopens]

/-- One interval: the closing time is shown. -/
theorem hoursText_single :
    PlaceCard.hoursText (some (DayHours.join first [])) =
      .ok (some ("Open 'til: " ++ first.closes.text)) := by
  have hcloses : '–' ∉ (" " ++ first.closes.text).toList := by
    rw [String.toList_append, List.mem_append, not_or]
    exact ⟨by decide, notMem_time (by decide) first.closes⟩
  have hsplit : (Dart.split (DayHours.join first []) '–')[1]? = some (" " ++ first.closes.text) := by
    have h := split_interval first ""
    rw [String.append_empty, String.append_empty, Dart.split_of_notMem hcloses] at h
    rw [DayHours.join, h]
    rfl
  rw [hoursText_of_piece first [] hsplit,
    Dart.trim_append (List.all_eq_true.mp (by decide)) first.closes.head first.closes.last]

/-- More intervals: what is shown has a comma in it. -/
theorem hoursText_more (next : Interval) :
    ∃ closing, PlaceCard.hoursText (some (DayHours.join first (next :: rest))) =
        .ok (some ("Open 'til: " ++ closing)) ∧ ',' ∈ closing.toList := by
  have hsecond : '–' ∉ (" " ++ first.closes.text ++ ", " ++ next.opens.text ++ " ").toList := by
    simp only [String.toList_append, List.mem_append, not_or]
    exact ⟨⟨⟨⟨by decide, notMem_time (by decide) first.closes⟩, by decide⟩,
      notMem_time (by decide) next.opens⟩, by decide⟩
  have hnext : ∃ s, DayHours.join next rest = next.text ++ s := by
    cases rest with
    | nil => exact ⟨"", (String.append_empty).symm⟩
    | cons j js => exact ⟨", " ++ DayHours.join j js, String.append_assoc ..⟩
  obtain ⟨s, hs⟩ := hnext
  have htext : " " ++ first.closes.text ++ (", " ++ DayHours.join next rest) =
      (" " ++ first.closes.text ++ ", " ++ next.opens.text ++ " ") ++
        (String.ofList ['–'] ++ (" " ++ next.closes.text ++ s)) := by
    rw [← String.toList_inj, hs]
    simp [Interval.text]
  have hsplit : (Dart.split (DayHours.join first (next :: rest)) '–')[1]? =
      some (" " ++ first.closes.text ++ ", " ++ next.opens.text ++ " ") := by
    rw [DayHours.join, String.append_assoc, split_interval, htext, Dart.split_append hsecond]
    rfl
  refine ⟨_, hoursText_of_piece first (next :: rest) hsplit, ?_⟩
  rw [Dart.mem_trim (by decide)]
  simp

end Intervals

/-- For a day with one interval or none the card shows what it is to show,
and for no other day. -/
theorem closing_shown_iff (week : Week) (day : Weekday) :
    (∃ text, (getTodaysHours day.name (some week.hours) >>= PlaceCard.hoursText) = .ok text ∧
      Closing (week.hoursOf day) text) ↔ ∃ h, week.hoursOf day = some h ∧ h.Single := by
  rw [getTodaysHours_week]
  cases hday : week.hoursOf day with
  | none => simp [bind, Except.bind]
  | some h =>
    simp only [bind, Except.bind, Option.some.injEq, exists_eq_left']
    cases h with
    | closed => exact ⟨fun _ => trivial, fun _ => ⟨_, rfl, trivial⟩⟩
    | open24Hours =>
      exact ⟨fun _ => trivial, fun _ => ⟨some "Open 24 Hours", by decide, trivial⟩⟩
    | intervals first rest =>
      cases rest with
      | nil => exact ⟨fun _ => rfl, fun _ => ⟨_, hoursText_single first, rfl⟩⟩
      | cons next rest =>
        obtain ⟨closing, hshown, hcomma⟩ := hoursText_more first rest next
        constructor
        · rintro ⟨text, htext, hclosing⟩
          rw [DayHours.text, hshown] at htext
          cases htext
          -- the closing time that is to be shown has no comma
          have hsame : closing = ((next :: rest).getLastD first).closes.text := by
            rw [Closing, Option.some.injEq, ← String.toList_inj, String.toList_append,
              String.toList_append] at hclosing
            exact String.toList_inj.mp (List.append_cancel_left hclosing)
          rw [hsame] at hcomma
          exact absurd hcomma (notMem_time (by decide) _)
        · intro hsingle
          cases hsingle

/-! ## A lunch break -/

/-- A time of which everything is checked. -/
def Time.ofText (text : String) (chars : text.toList.all isTimeChar = true)
    (head : text.toList.head?.all (fun c => !Dart.isSpace c) = true)
    (last : text.toList.getLast?.all (fun c => !Dart.isSpace c) = true) : Time where
  text := text
  chars := List.all_eq_true.mp chars
  head := by
    intro c hc
    simpa [hc] using head
  last := by
    intro c hc
    simpa [hc] using last

/-- A trattoria that is open from noon to three and from seven to eleven on
Mondays, and nothing is known of other days. -/
def trattoria : Week where
  lines := [(.monday, .intervals
    { opens := .ofText "12:00 PM" (by decide) (by decide) (by decide),
      closes := .ofText "3:00 PM" (by decide) (by decide) (by decide) }
    [{ opens := .ofText "7:00 PM" (by decide) (by decide) (by decide),
       closes := .ofText "11:00 PM" (by decide) (by decide) (by decide) }])]
  once := by simp

example : (getTodaysHours "Monday" (some trattoria.hours) >>= PlaceCard.hoursText) =
    .ok (some "Open 'til: 3:00 PM, 7:00 PM") := by decide

/-- On Mondays the card does not show when the trattoria closes, and on
Tuesdays it throws. -/
theorem lunch_break_closing :
    ¬ ∀ (week : Week) (day : Weekday),
      ∃ text, (getTodaysHours day.name (some week.hours) >>= PlaceCard.hoursText) = .ok text ∧
        Closing (week.hoursOf day) text := by
  intro h
  obtain ⟨text, htext, -⟩ := h trattoria .tuesday
  have hthrows : (getTodaysHours Weekday.tuesday.name (some trattoria.hours) >>=
      PlaceCard.hoursText) = .error .stateError := by decide
  rw [hthrows] at htext
  cases htext

end GottaGo

import CatalogChain.Event.Page
import CatalogChain.Proofs.EventLog.Queries
import Mathlib.Data.List.TakeDrop

/-!
# Reading the log page by page

A reader of all events begins at 0 and asks each time for the page behind the last sequence number
that it has seen, while events are recorded between its requests.  Sequence numbers count the
recorded events, so the number at which a reader stands is the number of events that it has seen
(`Reader.Reads`): a page is the next piece of the recorded list, and it is empty only where nothing
is left.  Hence no event is lost or repeated (`Reader.tracks_run`).
-/

namespace CatalogChain

/-- **A reader of a log**: the log, the last sequence number that the reader has seen, and the pages
that it was given. -/
structure Reader where
  log : EventLog
  cursor : Nat
  pages : List EventPage

namespace Reader

/-- **What happens while a log is read**: an event is recorded or refused, or the reader asks for its
next page. -/
inductive Move where
  | append (e : Event)
  | read (limit : Nat)

/-- The event that is to be recorded. -/
def Move.event? : Move → Option Event
  | .append e => some e
  | .read _ => none

/-- Nothing is recorded and nothing is seen. -/
def start : Reader := ⟨.empty, 0, []⟩

/-- The events on the pages, in the order in which they were given. -/
def seen (r : Reader) : List Event := r.pages.flatMap EventPage.events

/-- The page that the reader is given next. -/
def page (r : Reader) (limit : Nat) : EventPage := r.log.page r.cursor limit

/-- **One move.**  A reader goes on behind the last event of its page, and stays where it is if there
is none. -/
def step (r : Reader) : Move → Reader
  | .append e => { r with log := (r.log.append e).2 }
  | .read limit =>
    { r with
      cursor := (r.page limit).lastSequence.getD r.cursor
      pages := r.pages ++ [r.page limit] }

def run (r : Reader) (moves : List Move) : Reader := moves.foldl step r

/-- **A reader keeps track of a list** of recorded events. -/
structure Tracks (r : Reader) (es : List Event) : Prop where
  numbered : ∀ i, (h : i < es.length) → es[i].sequence = i + 1
  within : r.cursor ≤ es.length
  /-- It has seen the events up to where it stands, each one once and in order. -/
  seen : r.seen = es.take r.cursor
  size : ∀ limit, (r.page limit).events.length ≤ max 1 (min limit EventPage.maxSize)
  /-- Its next page is empty if it has seen all events, and only then. -/
  idle : ∀ limit, (r.page limit).events = [] ↔ r.seen = es
  unnumbered : ∀ limit, (r.page limit).lastSequence = none ↔ r.seen = es
  /-- As many requests as it has events to see are enough, whatever their limits. -/
  finishes : ∀ limits : List Nat, es.length - r.cursor ≤ limits.length →
    (r.run (limits.map .read)).seen = es

/-- **A reader has read up to its cursor** what its log records. -/
structure Reads (r : Reader) (es : List Event) : Prop where
  records : r.log.Records es
  within : r.cursor ≤ es.length
  seen : r.seen = es.take r.cursor

theorem reads_start : start.Reads [] where
  records := EventLog.records_empty
  within := Nat.le_refl 0
  seen := rfl

theorem run_cons (r : Reader) (m : Move) (ms : List Move) : r.run (m :: ms) = (r.step m).run ms :=
  rfl

theorem seen_read (r : Reader) (limit : Nat) :
    (r.step (.read limit)).seen = r.seen ++ (r.page limit).events := by
  unfold step seen
  rw [List.flatMap_append, List.flatMap_singleton]

namespace Reads

variable {r : Reader} {es : List Event} (h : r.Reads es)
include h

/-- **A page is the next piece** of the recorded list. -/
theorem page_events (limit : Nat) :
    (r.page limit).events = (es.drop r.cursor).take (max 1 (min limit EventPage.maxSize)) := by
  show r.log.after r.cursor _ = _
  rw [h.records.after, h.records.filter_behind]

theorem length_page (limit : Nat) : (r.page limit).events.length =
    min (max 1 (min limit EventPage.maxSize)) (es.length - r.cursor) := by
  rw [h.page_events, List.length_take, List.length_drop]

theorem page_events_eq_nil_iff (limit : Nat) :
    (r.page limit).events = [] ↔ r.cursor = es.length := by
  have hlength := h.length_page limit
  have hwithin := h.within
  rw [← List.length_eq_zero_iff, hlength]
  omega

theorem seen_eq_iff : r.seen = es ↔ r.cursor = es.length := by
  have hwithin := h.within
  rw [h.seen, List.take_eq_self_iff]
  omega

/-- The number of a page's last event is the number of events seen up to it. -/
theorem cursor_read (limit : Nat) :
    (r.step (.read limit)).cursor = r.cursor + (r.page limit).events.length := by
  show ((r.page limit).events.getLast?.map Event.sequence).getD r.cursor = _
  have hwithin := h.within
  have hlength := h.length_page limit
  by_cases hnil : (r.page limit).events = []
  · rw [hnil]
    rfl
  · -- the last event of the page is the one numbered by the sum
    have hpos := List.length_pos_of_ne_nil hnil
    have hlast : (r.page limit).events.getLast hnil =
        es[r.cursor + ((r.page limit).events.length - 1)] := by
      rw [List.getLast_eq_getElem]
      simp only [h.page_events, List.getElem_take, List.getElem_drop]
    rw [List.getLast?_eq_some_getLast hnil, hlast, Option.map_some, Option.getD_some,
      h.records.sequence]
    omega

/-- **Reading** goes on with the list. -/
theorem read (limit : Nat) : (r.step (.read limit)).Reads es where
  records := h.records
  within := by
    have hwithin := h.within
    rw [h.cursor_read, h.length_page]
    omega
  seen := by
    have hpage : (r.page limit).events =
        (es.drop r.cursor).take (r.page limit).events.length := by
      rw [h.length_page, h.page_events, ← List.length_drop, ← List.take_eq_take_min]
    rw [seen_read, h.cursor_read, h.seen, List.take_add, ← hpage]

/-- **Recording** leaves to the reader what it has read. -/
theorem append (e : Event) :
    (r.step (.append e)).Reads (es ++ EventLog.accepted [(r.log.append e).1]) := by
  rcases h.records.append e with ⟨-, heq⟩ | ⟨-, hok, hrec⟩
  · have hsame : r.step (.append e) = r := by
      show { r with log := (r.log.append e).2 } = r
      rw [heq]
    rw [hsame, heq, show EventLog.accepted [_] = [] from rfl, List.append_nil]
    exact h
  · rw [hok]
    refine ⟨hrec, ?_, ?_⟩
    · rw [List.length_append]
      exact Nat.le_add_right_of_le h.within
    · exact h.seen.trans (List.take_append_of_le_length h.within).symm

theorem run (ms : List Move) : (r.run ms).Reads
    (es ++ EventLog.accepted (r.log.appendAll (ms.filterMap Move.event?)).1) := by
  induction ms generalizing r es with
  | nil =>
    rw [show EventLog.accepted _ = [] from rfl, List.append_nil]
    exact h
  | cons m ms ih =>
    cases m with
    | append e =>
      have hrest := ih (h.append e)
      rwa [List.append_assoc, EventLog.accepted, EventLog.accepted, ← List.filterMap_append] at hrest
    | read limit => exact ih (h.read limit)

/-- **Every request sees another event**, as long as there are any. -/
theorem cursor_run_read (limits : List Nat) (henough : es.length ≤ r.cursor + limits.length) :
    (r.run (limits.map .read)).cursor = es.length := by
  induction limits generalizing r with
  | nil => exact Nat.le_antisymm h.within henough
  | cons limit limits ih =>
    rw [List.map_cons, run_cons]
    refine ih (h.read limit) ?_
    rw [List.length_cons] at henough
    rw [h.cursor_read, h.length_page]
    omega

theorem run_read (limits : List Nat) : (r.run (limits.map .read)).Reads es := by
  induction limits generalizing r with
  | nil => exact h
  | cons limit limits ih => exact ih (h.read limit)

theorem tracks : r.Tracks es where
  numbered := h.records.sequence
  within := h.within
  seen := h.seen
  size limit := by
    rw [h.length_page]
    exact Nat.min_le_left _ _
  idle limit := (h.page_events_eq_nil_iff limit).trans h.seen_eq_iff.symm
  unnumbered limit := by
    show (r.page limit).events.getLast?.map Event.sequence = none ↔ _
    rw [Option.map_eq_none_iff, List.getLast?_eq_none_iff, h.page_events_eq_nil_iff, h.seen_eq_iff]
  finishes limits henough := by
    refine (h.run_read limits).seen_eq_iff.mpr (h.cursor_run_read limits ?_)
    omega

end Reads

/-- **A reader loses nothing and sees nothing twice.**  Whatever is recorded between its requests and
however many events it asks for, it keeps track of the list of the events that were accepted. -/
theorem tracks_run (ms : List Move) : (start.run ms).Tracks
    (EventLog.accepted (EventLog.empty.appendAll (ms.filterMap Move.event?)).1) :=
  (reads_start.run ms).tracks

end Reader

end CatalogChain

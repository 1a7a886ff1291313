import CatalogChain.EventLog
import Mathlib.Data.List.Basic

/-!
# Recording events

The log is an arrangement of one plain list, the events in the order of recording:
`log.Records es` says that the histories are the events of `es` by product and version, and that
the register numbers `es` from one on.  A log that records `es` takes an event exactly if `es` has
none at its place, and then records one event more (`Records.append`).

* histories: `insertByVersion_eq_none_iff`, `mem_insertByVersion`, `pairwise_insertByVersion`;
* register: `enter_of_lt`;
* both together: `Records.append`, and over a run of any length `Records.appendAll`.
-/

namespace CatalogChain.EventLog

/-! ## Histories -/

theorem insertByVersion_eq_none_iff {e : Event} {hs : List Event}
    (h : hs.Pairwise fun a b => a.version < b.version) :
    insertByVersion e hs = none ↔ ∃ a ∈ hs, a.version = e.version := by
  induction hs with
  | nil => simp [insertByVersion]
  | cons a hs ih =>
    obtain ⟨ha, hp⟩ := List.pairwise_cons.mp h
    unfold insertByVersion
    by_cases hlt : a.version < e.version
    · have hne : a.version ≠ e.version := by omega
      rw [if_pos hlt, Option.map_eq_none_iff, ih hp]
      simp [hne]
    · rw [if_neg hlt]
      by_cases heq : a.version = e.version
      · simp [heq]
      · -- everything behind `a` is greater still
        have hgt : ∀ b ∈ hs, b.version ≠ e.version := by
          intro b hb
          have := ha b hb
          omega
        rw [if_neg heq]
        constructor
        · intro hs'; cases hs'
        · rintro ⟨b, hb, hbe⟩
          rcases List.mem_cons.mp hb with rfl | hb
          · exact absurd hbe heq
          · exact absurd hbe (hgt b hb)

theorem mem_insertByVersion {e : Event} {hs hs' : List Event}
    (h : insertByVersion e hs = some hs') (x : Event) : x ∈ hs' ↔ x = e ∨ x ∈ hs := by
  induction hs generalizing hs' with
  | nil =>
    unfold insertByVersion at h
    cases h
    simp
  | cons a hs ih =>
    unfold insertByVersion at h
    split_ifs at h with hlt heq
    · obtain ⟨hs'', h', rfl⟩ := Option.map_eq_some_iff.mp h
      rw [List.mem_cons, List.mem_cons, ih h']
      exact or_left_comm
    · cases h
      exact List.mem_cons

theorem pairwise_insertByVersion {e : Event} {hs hs' : List Event}
    (h : insertByVersion e hs = some hs') (hp : hs.Pairwise fun a b => a.version < b.version) :
    hs'.Pairwise fun a b => a.version < b.version := by
  induction hs generalizing hs' with
  | nil =>
    unfold insertByVersion at h
    cases h
    exact List.pairwise_singleton _ _
  | cons a hs ih =>
    obtain ⟨ha, hp'⟩ := List.pairwise_cons.mp hp
    unfold insertByVersion at h
    split_ifs at h with hlt heq
    · obtain ⟨hs'', h', rfl⟩ := Option.map_eq_some_iff.mp h
      refine List.pairwise_cons.mpr ⟨fun b hb => ?_, ih h' hp'⟩
      rcases (mem_insertByVersion h' b).mp hb with rfl | hb
      · exact hlt
      · exact ha b hb
    · cases h
      refine List.pairwise_cons.mpr ⟨fun b hb => ?_, hp⟩
      rcases List.mem_cons.mp hb with rfl | hb
      · omega
      · have := ha b hb
        omega

/-! ## The register -/

/-- A number above all that are entered comes in front. -/
theorem enter_of_lt {n : Nat} {place : Place} {rs : List (Nat × Place)}
    (h : ∀ r ∈ rs, r.1 < n) : enter n place rs = (n, place) :: rs := by
  cases rs with
  | nil => rfl
  | cons r rs => exact if_pos (h r (by simp))

/-! ## The recorded list -/

/-- **The log records a list of events**, given in the order of recording. -/
structure Records (log : EventLog) (es : List Event) : Prop where
  sequence : ∀ i, (h : i < es.length) → es[i].sequence = i + 1
  last : log.lastSequence = es.length
  register : log.register = (es.map fun e => (e.sequence, e.place)).reverse
  ascending : ∀ id, (log.history id).Pairwise fun a b => a.version < b.version
  mem_history : ∀ id e, e ∈ log.history id ↔ e ∈ es ∧ e.entityId = id

theorem records_empty : empty.Records [] where
  sequence := by simp
  last := rfl
  register := rfl
  ascending := by simp [history, empty]
  mem_history := by simp [history, empty]

theorem history_put (log : EventLog) (id : String) (hs : List Event)
    (register : List (Nat × Place)) (last : Nat) (id' : String) :
    history ⟨log.histories.put id hs, register, last⟩ id' =
      if id = id' then hs else log.history id' := by
  unfold history
  rw [Table.get?_put]
  split_ifs <;> rfl

namespace Records

variable {log : EventLog} {es : List Event}

theorem sequence_le (h : log.Records es) {e : Event} (he : e ∈ es) : e.sequence ≤ es.length := by
  obtain ⟨i, hi, rfl⟩ := List.getElem_of_mem he
  have := h.sequence i hi
  omega

/-- No place is taken twice. -/
theorem eq_of_place_eq (h : log.Records es) {a b : Event} (ha : a ∈ es) (hb : b ∈ es)
    (hab : a.place = b.place) : a = b := by
  obtain ⟨hid, hv⟩ := Place.mk.inj hab
  have ha' := (h.mem_history b.entityId a).mpr ⟨ha, hid⟩
  have hb' := (h.mem_history b.entityId b).mpr ⟨hb, rfl⟩
  obtain ⟨i, hi, hai⟩ := List.getElem_of_mem ha'
  obtain ⟨j, hj, hbj⟩ := List.getElem_of_mem hb'
  have hp := List.pairwise_iff_getElem.mp (h.ascending b.entityId)
  rcases Nat.lt_trichotomy i j with hij | rfl | hij
  · have := hp i j hi hj hij
    rw [hai, hbj] at this
    omega
  · exact hai.symm.trans hbj
  · have := hp j i hj hi hij
    rw [hai, hbj] at this
    omega

/-- A place that is taken is found in the history of its product. -/
theorem insertByVersion_eq_none_iff (h : log.Records es) (e : Event) (n : Nat) :
    insertByVersion (e.numbered n) (log.history e.entityId) = none ↔
      ∃ a ∈ es, a.place = e.place := by
  rw [EventLog.insertByVersion_eq_none_iff (h.ascending _)]
  constructor
  · rintro ⟨a, ha, hv⟩
    obtain ⟨ha, hid⟩ := (h.mem_history _ a).mp ha
    exact ⟨a, ha, by rw [Event.place, Event.place, hid, show a.version = e.version from hv]⟩
  · rintro ⟨a, ha, hp⟩
    obtain ⟨hid, hv⟩ := Place.mk.inj hp
    exact ⟨a, (h.mem_history _ a).mpr ⟨ha, hid⟩, hv⟩

/-- The log after an event that is accepted. -/
theorem extend (h : log.Records es) {e : Event} {hs : List Event}
    (hins : insertByVersion (e.numbered (es.length + 1)) (log.history e.entityId) = some hs) :
    Records ⟨log.histories.put e.entityId hs, enter (es.length + 1) e.place log.register,
      es.length + 1⟩ (es ++ [e.numbered (es.length + 1)]) where
  sequence i hi := by
    rw [List.length_append, List.length_singleton] at hi
    rcases Nat.lt_or_ge i es.length with hlt | hge
    · rw [List.getElem_append_left hlt, h.sequence i hlt]
    · rw [List.getElem_append_right hge, List.getElem_singleton]
      show es.length + 1 = i + 1
      omega
  last := by rw [List.length_append, List.length_singleton]
  register := by
    have hlt : ∀ r ∈ log.register, r.1 < es.length + 1 := by
      intro r hr
      rw [h.register, List.mem_reverse, List.mem_map] at hr
      obtain ⟨a, ha, rfl⟩ := hr
      exact Nat.lt_succ_of_le (h.sequence_le ha)
    show enter (es.length + 1) e.place log.register = _
    rw [enter_of_lt hlt, h.register, List.map_append, List.reverse_append]
    rfl
  ascending id := by
    rw [history_put]
    split_ifs
    · exact pairwise_insertByVersion hins (h.ascending _)
    · exact h.ascending id
  mem_history id x := by
    rw [history_put, List.mem_append, List.mem_singleton]
    split_ifs with hid
    · subst hid
      rw [mem_insertByVersion hins, h.mem_history]
      constructor
      · rintro (rfl | ⟨hx, hid⟩)
        · exact ⟨.inr rfl, rfl⟩
        · exact ⟨.inl hx, hid⟩
      · rintro ⟨hx | rfl, hid⟩
        · exact .inr ⟨hx, hid⟩
        · exact .inl rfl
    · rw [h.mem_history]
      constructor
      · rintro ⟨hx, hx'⟩
        exact ⟨.inl hx, hx'⟩
      · rintro ⟨hx | rfl, hx'⟩
        · exact ⟨hx, hx'⟩
        · exact absurd hx' hid

/-- **Recording one event.**  It is refused exactly if its place is taken, and then nothing changes;
otherwise it gets the next number and nothing else about it changes. -/
theorem append (h : log.Records es) (e : Event) :
    (∃ a ∈ es, a.place = e.place) ∧
        log.append e = (.error (.duplicateVersion e.entityId e.version), log) ∨
      (∀ a ∈ es, a.place ≠ e.place) ∧
        (log.append e).1 = .ok (e.numbered (es.length + 1)) ∧
        (log.append e).2.Records (es ++ [e.numbered (es.length + 1)]) := by
  have htaken := h.insertByVersion_eq_none_iff e (es.length + 1)
  unfold EventLog.append
  rw [h.last]
  cases hins : insertByVersion (e.numbered (es.length + 1)) (log.history e.entityId) with
  | none =>
    left
    simp only [hins, and_true]
    exact htaken.mp hins
  | some hs =>
    right
    simp only [hins, true_and]
    refine ⟨fun a ha hp => ?_, h.extend hins⟩
    rw [htaken.mpr ⟨a, ha, hp⟩] at hins
    cases hins

end Records

/-! ## Runs -/

/-- **Records events one after the other**: what comes of each, and the log after them. -/
def appendAll (log : EventLog) : List Event → List (Except Fault Event) × EventLog
  | [] => ([], log)
  | e :: es =>
    let rest := (log.append e).2.appendAll es
    ((log.append e).1 :: rest.1, rest.2)

/-- The events that were accepted, in this order. -/
def accepted (outcomes : List (Except Fault Event)) : List Event :=
  outcomes.filterMap Except.toOption

theorem Records.appendAll {log : EventLog} {es : List Event} (h : log.Records es)
    (new : List Event) :
    (log.appendAll new).2.Records (es ++ accepted (log.appendAll new).1) := by
  induction new generalizing log es with
  | nil =>
    show log.Records (es ++ [])
    rwa [List.append_nil]
  | cons e new ih =>
    show ((log.append e).2.appendAll new).2.Records
      (es ++ accepted ((log.append e).1 :: ((log.append e).2.appendAll new).1))
    rcases h.append e with ⟨-, heq⟩ | ⟨-, hok, hrec⟩
    · rw [heq]
      exact ih h
    · have := ih hrec
      rw [List.append_assoc] at this
      rw [hok]
      exact this

end CatalogChain.EventLog

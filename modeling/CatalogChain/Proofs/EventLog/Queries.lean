import CatalogChain.Proofs.EventLog.Recording
import Mathlib.Data.List.Nodup
import Mathlib.Data.List.Perm.Basic

/-!
# What a log answers

Every answer of a log that records a list can be read off this list: the questions by sequence
number off its order (`Records.bySequence?`, `Records.after`), the questions by product off a
selection of it (`Records.history_perm`, `Records.query_perm`, `Records.latest?_eq_some_iff`).
`Reflects` says so of a log, and it holds behind any run of appends, whatever the events and in
whatever order.
-/

namespace CatalogChain.EventLog

/-! ## Where a test holds for an initial part -/

theorem takeWhile_eq_filter {α : Type} {p : α → Bool} {l : List α}
    (h : l.Pairwise fun a b => p b = true → p a = true) : l.takeWhile p = l.filter p := by
  induction l with
  | nil => rfl
  | cons a l ih =>
    obtain ⟨ha, hl⟩ := List.pairwise_cons.mp h
    by_cases hp : p a = true
    · rw [List.takeWhile_cons_of_pos hp, List.filter_cons_of_pos hp, ih hl]
    · have hnil : l.filter p = [] := List.filter_eq_nil_iff.mpr fun b hb hpb => hp (ha b hb hpb)
      rw [List.takeWhile_cons_of_neg hp, List.filter_cons_of_neg hp, hnil]

theorem dropWhile_eq_filter {α : Type} {p : α → Bool} {l : List α}
    (h : l.Pairwise fun a b => p b = true → p a = true) :
    l.dropWhile p = l.filter fun a => !p a := by
  induction l with
  | nil => rfl
  | cons a l ih =>
    obtain ⟨ha, hl⟩ := List.pairwise_cons.mp h
    by_cases hp : p a = true
    · rw [List.dropWhile_cons_of_pos hp, ih hl, List.filter_cons_of_neg (by simpa using hp)]
    · have hall : ∀ b ∈ a :: l, (!p b) = true := by
        intro b hb
        rw [Bool.not_eq_true']
        rcases List.mem_cons.mp hb with rfl | hb
        · exact Bool.eq_false_iff.mpr hp
        · exact Bool.eq_false_iff.mpr fun hpb => hp (ha b hb hpb)
      rw [List.dropWhile_cons_of_neg hp, List.filter_eq_self.mpr hall]

namespace Records

variable {log : EventLog} {es : List Event}

/-! ## By sequence number -/

theorem getElem?_of_mem (h : log.Records es) {e : Event} (he : e ∈ es) :
    es[e.sequence - 1]? = some e := by
  obtain ⟨i, hi, rfl⟩ := List.getElem_of_mem he
  rw [h.sequence i hi, Nat.add_sub_cancel, List.getElem?_eq_getElem hi]

theorem sequence_pos (h : log.Records es) {e : Event} (he : e ∈ es) : 0 < e.sequence := by
  obtain ⟨i, hi, rfl⟩ := List.getElem_of_mem he
  rw [h.sequence i hi]
  exact Nat.succ_pos i

/-- Every event is found at its place. -/
theorem find?_place (h : log.Records es) {e : Event} (he : e ∈ es) :
    log.find? e.place = some e := by
  have hmem := (h.mem_history e.entityId e).mpr ⟨he, rfl⟩
  unfold EventLog.find?
  cases hf : (log.history e.place.entityId).find? fun a => a.version = e.place.version with
  | none =>
    exact absurd (decide_eq_true rfl) (List.find?_eq_none.mp hf e hmem)
  | some a =>
    have hv := List.find?_some hf
    rw [decide_eq_true_eq] at hv
    obtain ⟨ha, hid⟩ := (h.mem_history _ a).mp (List.mem_of_find?_eq_some hf)
    have hplace : a.place = e.place := by
      rw [Event.place, show a.version = e.version from hv, show a.entityId = e.entityId from hid]
      rfl
    rw [h.eq_of_place_eq ha he hplace]

theorem count (h : log.Records es) : log.count = es.length := by
  rw [EventLog.count, h.register, List.length_reverse, List.length_map]

theorem bySequence? (h : log.Records es) (s : Nat) :
    log.bySequence? s = if s = 0 then none else es[s - 1]? := by
  unfold EventLog.bySequence?
  rw [h.register]
  cases hf : (es.map fun e => (e.sequence, e.place)).reverse.find? fun r => r.1 = s with
  | none =>
    split_ifs with hs
    · rfl
    · cases he : es[s - 1]? with
      | none => rfl
      | some e =>
        obtain ⟨hi, rfl⟩ := List.getElem?_eq_some_iff.mp he
        have hmem : (es[s - 1].sequence, es[s - 1].place) ∈
            (es.map fun e => (e.sequence, e.place)).reverse :=
          List.mem_reverse.mpr (List.mem_map.mpr ⟨_, List.getElem_mem hi, rfl⟩)
        have := List.find?_eq_none.mp hf _ hmem
        simp only [h.sequence _ hi, decide_eq_true_eq] at this
        omega
  | some r =>
    have hr : r.1 = s := by simpa using List.find?_some hf
    have hmem := List.mem_reverse.mp (List.mem_of_find?_eq_some hf)
    obtain ⟨e, he, rfl⟩ := List.mem_map.mp hmem
    have hpos := h.sequence_pos he
    have hs : s ≠ 0 := by
      have : e.sequence = s := hr
      omega
    rw [if_neg hs, ← hr, h.getElem?_of_mem he]
    exact h.find?_place he

theorem register_descending (h : log.Records es) : log.register.Pairwise fun a b => b.1 < a.1 := by
  rw [h.register, List.pairwise_reverse, List.pairwise_map, List.pairwise_iff_getElem]
  intro i j hi hj hij
  rw [h.sequence i hi, h.sequence j hj]
  omega

theorem after (h : log.Records es) (s limit : Nat) :
    log.after s limit = (es.filter fun e => s < e.sequence).take limit := by
  have hp : log.register.Pairwise fun a b =>
      decide (s < b.1) = true → decide (s < a.1) = true := by
    refine h.register_descending.imp fun {a b} hab hb => ?_
    rw [decide_eq_true_eq] at hb ⊢
    omega
  unfold EventLog.after
  rw [takeWhile_eq_filter hp, h.register, List.filter_reverse, List.reverse_reverse,
    List.filter_map, List.filterMap_map]
  congr 1
  have hfind : ∀ e ∈ es.filter fun e => s < e.sequence, log.find? e.place = some e :=
    fun e he => h.find?_place (List.mem_of_mem_filter he)
  exact (List.filterMap_congr hfind).trans List.filterMap_some

/-- The events behind a sequence number are those that are left when so many are taken away. -/
theorem filter_behind (h : log.Records es) (s : Nat) :
    (es.filter fun e => s < e.sequence) = es.drop s := by
  have htake : ∀ e ∈ es.take s, ¬ decide (s < e.sequence) = true := by
    intro e he
    obtain ⟨i, hi, rfl⟩ := List.mem_take_iff_getElem.mp he
    rw [h.sequence i (by omega), decide_eq_true_eq]
    omega
  have hdrop : ∀ e ∈ es.drop s, decide (s < e.sequence) = true := by
    intro e he
    obtain ⟨i, hi, rfl⟩ := List.mem_drop_iff_getElem.mp he
    rw [h.sequence (s + i) (by omega), decide_eq_true_eq]
    omega
  calc (es.filter fun e => s < e.sequence)
      = (es.take s ++ es.drop s).filter fun e => s < e.sequence := by rw [List.take_append_drop]
    _ = es.drop s := by
      rw [List.filter_append, List.filter_eq_nil_iff.mpr htake, List.filter_eq_self.mpr hdrop,
        List.nil_append]

theorem events (h : log.Records es) : log.events = es := by
  have hall : ∀ e ∈ es, decide (0 < e.sequence) = true := fun e he =>
    decide_eq_true (h.sequence_pos he)
  rw [EventLog.events, h.after, h.count, List.filter_eq_self.mpr hall, List.take_length]

/-! ## By product -/

theorem nodup (h : log.Records es) : es.Nodup := by
  rw [List.nodup_iff_getElem?_ne_getElem?]
  intro i j hij hj heq
  have hi : i < es.length := Nat.lt_trans hij hj
  rw [List.getElem?_eq_getElem hi, List.getElem?_eq_getElem hj] at heq
  have hs := congrArg Event.sequence (Option.some.inj heq)
  rw [h.sequence _ hi, h.sequence _ hj] at hs
  omega

theorem history_perm (h : log.Records es) (id : String) :
    (log.history id).Perm (es.filter fun e => e.entityId = id) := by
  have hnodup : (log.history id).Nodup := (h.ascending id).imp fun {a b} hab heq => by
    rw [heq] at hab
    exact Int.lt_irrefl _ hab
  refine (List.perm_ext_iff_of_nodup hnodup (h.nodup.filter _)).mpr fun e => ?_
  rw [h.mem_history, List.mem_filter, decide_eq_true_eq]

theorem query_eq_filter (h : log.Records es) (id : String) (v : Int) :
    log.query id v = (log.history id).filter fun e => v ≤ e.version := by
  have hp : (log.history id).Pairwise fun a b =>
      decide (b.version < v) = true → decide (a.version < v) = true := by
    refine (h.ascending id).imp fun {a b} hab hb => ?_
    rw [decide_eq_true_eq] at hb ⊢
    omega
  unfold EventLog.query
  rw [dropWhile_eq_filter hp]
  refine List.filter_congr fun e _ => ?_
  rw [← decide_not]
  exact decide_eq_decide.mpr Int.not_lt

theorem query_perm (h : log.Records es) (id : String) (v : Int) :
    (log.query id v).Perm (es.filter fun e => e.entityId = id ∧ v ≤ e.version) := by
  have hperm := (h.history_perm id).filter fun e => decide (v ≤ e.version)
  rw [List.filter_filter] at hperm
  rw [h.query_eq_filter]
  refine hperm.trans (List.Perm.of_eq (List.filter_congr fun e _ => ?_))
  rw [Bool.and_comm, Bool.decide_and]

theorem query_ascending (h : log.Records es) (id : String) (v : Int) :
    (log.query id v).Pairwise fun a b => a.version < b.version := by
  rw [h.query_eq_filter]
  exact (h.ascending id).filter _

/-- The latest event of a product is the one of its highest version. -/
theorem latest?_eq_some_iff (h : log.Records es) (id : String) (e : Event) :
    log.latest? id = some e ↔
      e ∈ es ∧ e.entityId = id ∧ ∀ a ∈ es, a.entityId = id → a.version ≤ e.version := by
  unfold EventLog.latest?
  constructor
  · intro hl
    obtain ⟨he, hid⟩ := (h.mem_history id e).mp (List.mem_of_getLast? hl)
    refine ⟨he, hid, fun a ha haid => ?_⟩
    obtain ⟨hs, hhs⟩ := List.getLast?_eq_some_iff.mp hl
    have hasc := h.ascending id
    have hmem := (h.mem_history id a).mpr ⟨ha, haid⟩
    rw [hhs] at hasc hmem
    rcases List.mem_append.mp hmem with hmem | hmem
    · exact Int.le_of_lt ((List.pairwise_append.mp hasc).2.2 a hmem e (List.mem_singleton_self e))
    · exact Int.le_of_eq (congrArg Event.version (List.mem_singleton.mp hmem))
  · rintro ⟨he, hid, hmax⟩
    have hmem := (h.mem_history id e).mpr ⟨he, hid⟩
    have hne : log.history id ≠ [] := List.ne_nil_of_mem hmem
    have hlast := List.getLast_mem hne
    rw [List.getLast?_eq_some_getLast hne, Option.some.injEq]
    obtain ⟨hl, hlid⟩ := (h.mem_history id _).mp hlast
    have hle := hmax _ hl hlid
    obtain ⟨hs, hhs⟩ := List.getLast?_eq_some_iff.mp (List.getLast?_eq_some_getLast hne)
    have hasc := h.ascending id
    -- `e` is the last one, or comes before it and has a lower version
    rw [hhs] at hasc hmem
    rcases List.mem_append.mp hmem with hmem | hmem
    · have := (List.pairwise_append.mp hasc).2.2 e hmem _ (List.mem_singleton_self _)
      omega
    · exact (List.mem_singleton.mp hmem).symm

end Records

/-! ## The log as a list -/

/-- **A log reflects a list of events**: it takes new events and answers all questions as if it held
nothing but the list. -/
structure Reflects (log : EventLog) (es : List Event) : Prop where
  refuses : ∀ e : Event, (∃ a ∈ es, a.entityId = e.entityId ∧ a.version = e.version) →
    log.append e = (.error (.duplicateVersion e.entityId e.version), log)
  accepts : ∀ e : Event, (¬ ∃ a ∈ es, a.entityId = e.entityId ∧ a.version = e.version) →
    (log.append e).1 = .ok { e with sequence := es.length + 1 }
  count : log.count = es.length
  bySequence : ∀ s, log.bySequence? s = if s = 0 then none else es[s - 1]?
  after : ∀ s limit, log.after s limit = (es.filter fun e => s < e.sequence).take limit
  query : ∀ id v, (log.query id v).Perm (es.filter fun e => e.entityId = id ∧ v ≤ e.version)
  ascending : ∀ id v, (log.query id v).Pairwise fun a b => a.version < b.version
  latest : ∀ id p v, log.latestSnapshot? id = some (p, v) ↔
    ∃ e ∈ es, e.entityId = id ∧ e.snapshot = p ∧ e.version = v ∧
      ∀ a ∈ es, a.entityId = id → a.version ≤ v

theorem Records.reflects {log : EventLog} {es : List Event} (h : log.Records es) :
    log.Reflects es where
  refuses e := by
    rintro ⟨a, ha, hid, hv⟩
    rcases h.append e with ⟨-, heq⟩ | ⟨hfree, -, -⟩
    · exact heq
    · exact absurd (show a.place = e.place by rw [Event.place, Event.place, hid, hv]) (hfree a ha)
  accepts e hfree := by
    rcases h.append e with ⟨⟨a, ha, hp⟩, -⟩ | ⟨-, hok, -⟩
    · obtain ⟨hid, hv⟩ := Place.mk.inj hp
      exact absurd ⟨a, ha, hid, hv⟩ hfree
    · exact hok
  count := h.count
  bySequence := h.bySequence?
  after := h.after
  query := h.query_perm
  ascending := h.query_ascending
  latest id p v := by
    unfold latestSnapshot?
    rw [Option.map_eq_some_iff]
    constructor
    · rintro ⟨e, he, hpv⟩
      obtain ⟨rfl, rfl⟩ := Prod.mk.inj hpv
      obtain ⟨hmem, hid, hmax⟩ := (h.latest?_eq_some_iff id e).mp he
      exact ⟨e, hmem, hid, rfl, rfl, hmax⟩
    · rintro ⟨e, hmem, hid, rfl, rfl, hmax⟩
      exact ⟨e, (h.latest?_eq_some_iff id e).mpr ⟨hmem, hid, hmax⟩, rfl⟩

/-- **The log refines a plain list.**  After any run of appends it reflects the list of the events
that were accepted, in the order of acceptance. -/
theorem reflects_appendAll (new : List Event) :
    (empty.appendAll new).2.Reflects (accepted (empty.appendAll new).1) :=
  (records_empty.appendAll new).reflects

end CatalogChain.EventLog

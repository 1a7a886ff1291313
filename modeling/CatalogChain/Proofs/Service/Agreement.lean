import CatalogChain.EventLog
import CatalogChain.LiveTable
import CatalogChain.Proofs.Event.Life
import Mathlib.Logic.Function.Basic

/-!
# Agreement of the log and the live table

Several calls may be under way at once, and nothing keeps two of them from writing the same
product.  Whatever the order of their steps, the log and the live table stay in agreement.  Four
kinds of steps matter, and of a call only what it has in hand (`Hand`): a call prepares an event
from what it reads, records it, commits it, or drops it.

`Agreement es live hands` is what these steps keep, where `es` are the events recorded so far.

* The events of each product are a life (`lives`), and an event that is prepared begins such a life
  or goes on behind one of its events (`ready`).
* A product has at most one event that is recorded and not yet committed (`lone`).  It is the last
  one, and the live table still shows the product as it was before (`pending`).  All other products
  are shown as their events leave them (`settled`).
* An event prepared meanwhile stems from the state before, so it comes too late (`behind`).
-/

namespace CatalogChain

/-- **What a call has in hand**: an event that is prepared, one that is recorded and not yet
committed, or one that is done with. -/
inductive Hand where
  | empty
  | prepared (e : Event)
  | pending (e : Event)
  | done (e : Event)

/-- The events of one product. -/
def trail (id : String) (es : List Event) : List Event := es.filter fun e => e.entityId = id

theorem mem_trail {id : String} {es : List Event} {e : Event} :
    e ∈ trail id es ↔ e ∈ es ∧ e.entityId = id := by
  rw [trail, List.mem_filter, decide_eq_true_eq]

theorem trail_append_self (es : List Event) (e : Event) :
    trail e.entityId (es ++ [e]) = trail e.entityId es ++ [e] := by
  rw [trail, List.filter_append, List.filter_singleton, decide_eq_true rfl]
  rfl

theorem trail_append_of_ne {id : String} {e : Event} (h : e.entityId ≠ id) (es : List Event) :
    trail id (es ++ [e]) = trail id es := by
  rw [trail, List.filter_append, List.filter_singleton, decide_eq_false h]
  exact List.append_nil _

/-- What is there of a product behind one event more. -/
theorem current_trail_append (es : List Event) (e : Event) (id : String) :
    current (trail id (es ++ [e])) =
      if e.entityId = id then if e.kind = .deleted then none else some e.snapshot
      else current (trail id es) := by
  by_cases hid : e.entityId = id
  · rw [if_pos hid, ← hid, trail_append_self, current_append]
  · rw [if_neg hid, trail_append_of_ne hid]

/-- **An event that can be recorded**: it is sound, and it begins the life of its product or goes
on with it behind some event that is recorded. -/
def Event.Ready (es : List Event) (e : Event) : Prop :=
  e.Sound e.entityId ∧ (e.Begins ∨ ∃ b ∈ trail e.entityId es, Event.Succeeds e.entityId b e)

theorem Event.Ready.append {es : List Event} {e : Event} (h : e.Ready es) (fs : List Event) :
    e.Ready (es ++ fs) := by
  refine ⟨h.1, h.2.imp_right ?_⟩
  rintro ⟨b, hb, hs⟩
  obtain ⟨hb, hid⟩ := mem_trail.mp hb
  exact ⟨b, mem_trail.mpr ⟨List.mem_append_left fs hb, hid⟩, hs⟩

theorem Event.Sound.numbered {id : String} {e : Event} (h : e.Sound id) (n : Nat) :
    (e.numbered n).Sound id := ⟨h.entity, h.snapshot_id, h.valid, h.genuine, h.version⟩

theorem Event.Succeeds.numbered {id : String} {b e : Event} (h : Event.Succeeds id b e) (n : Nat) :
    Event.Succeeds id b (e.numbered n) :=
  ⟨⟨h.entity, h.version, h.link⟩, h.alive, h.later, h.tombstone, h.difference, h.origin⟩

/-- What an event does to the live table. -/
theorem LiveTable.get?_apply (live : LiveTable) {e : Event} (h : e.snapshot.id = e.entityId)
    (id : String) : (live.apply e).get? id =
      if e.entityId = id then if e.kind = .deleted then none else some e.snapshot
      else live.get? id := by
  unfold apply
  unfold Event.snapshot at h ⊢
  unfold Event.kind
  cases hp : e.payload with
  | created p | updated p =>
    rw [hp] at h
    simp only [Table.get?_put, ← h, Payload.snapshot, Payload.kind]
    rfl
  | deleted p =>
    simp only [Table.get?_erase, Payload.kind]
    rfl

/-- **Agreement** of the events recorded so far, the live table, and what the calls have in
hand. -/
structure Agreement (es : List Event) (live : LiveTable) (hands : Nat → Hand) : Prop where
  lives : ∀ id, Life id (trail id es)
  ready : ∀ i e, hands i = .prepared e → e.Ready es
  recorded : ∀ i e, hands i = .done e → e ∈ es
  behind : ∀ i j e p, hands i = .prepared e → hands j = .pending p →
    p.entityId = e.entityId → e.version ≤ p.version
  pending : ∀ i p, hands i = .pending p →
    ∃ bs, trail p.entityId es = bs ++ [p] ∧ live.get? p.entityId = current bs
  lone : ∀ i j p q, hands i = .pending p → hands j = .pending q →
    p.entityId = q.entityId → i = j
  settled : ∀ id, (∀ i p, hands i = .pending p → p.entityId ≠ id) →
    live.get? id = current (trail id es)

theorem agreement_empty : Agreement [] .empty fun _ => .empty where
  lives := life_nil
  ready _ _ h := by cases h
  recorded _ _ h := by cases h
  behind _ _ _ _ h := by cases h
  pending _ _ h := by cases h
  lone _ _ _ _ h := by cases h
  settled _ _ := rfl

namespace Agreement

open Function (update)

variable {es : List Event} {live : LiveTable} {hands : Nat → Hand}

theorem mem_of_pending (h : Agreement es live hands) {i : Nat} {p : Event}
    (hi : hands i = .pending p) : p ∈ trail p.entityId es := by
  obtain ⟨bs, hbs, -⟩ := h.pending i p hi
  rw [hbs]
  exact List.mem_append_right bs (List.mem_singleton_self p)

theorem version_of_pending (h : Agreement es live hands) {i : Nat} {p : Event}
    (hi : hands i = .pending p) : p.version = (trail p.entityId es).length := by
  obtain ⟨bs, hbs, -⟩ := h.pending i p hi
  exact (h.lives p.entityId).version_of_getLast? (by rw [hbs, List.getLast?_concat])

/-- **What the live table shows stems from a recorded event.**  If there is an event that is not
committed yet, it comes right behind that one. -/
theorem exists_source (h : Agreement es live hands) {id : String} {p : Product}
    (hp : live.get? id = some p) :
    ∃ b ∈ trail id es, b.kind ≠ .deleted ∧ b.snapshot = p ∧ b.version = p.version ∧
      ∀ i q, hands i = .pending q → q.entityId = id → q.version = p.version + 1 := by
  by_cases hpend : ∃ i q, hands i = .pending q ∧ q.entityId = id
  · -- the table shows the product as it was before the pending event
    obtain ⟨i, q, hi, rfl⟩ := hpend
    obtain ⟨bs, hbs, hlive⟩ := h.pending i q hi
    rw [hp] at hlive
    have hlife : Life q.entityId bs := Life.left bs [q] (hbs ▸ h.lives q.entityId)
    obtain ⟨b, hb, hk, hsnap, hv, hpv⟩ := hlife.version_of_current hlive.symm
    refine ⟨b, ?_, hk, hsnap, by rw [hv, hpv], fun j r hj hr => ?_⟩
    · rw [hbs]
      exact List.mem_append_left [q] hb
    · rw [h.version_of_pending hj, hr, hbs, List.length_append, List.length_singleton, hpv]
      rfl
  · have hnone : ∀ i q, hands i = .pending q → q.entityId ≠ id := fun i q hi hq =>
      hpend ⟨i, q, hi, hq⟩
    have hlive := h.settled id hnone
    rw [hp] at hlive
    obtain ⟨b, hb, hk, hsnap, hv, hpv⟩ := (h.lives id).version_of_current hlive.symm
    exact ⟨b, hb, hk, hsnap, by rw [hv, hpv], fun i q hi hq => absurd hq (hnone i q hi)⟩

/-- The live table keeps every product under its own id. -/
theorem id_of_get? (h : Agreement es live hands) {id : String} {p : Product}
    (hp : live.get? id = some p) : p.id = id := by
  obtain ⟨b, hb, -, rfl, -⟩ := h.exists_source hp
  exact ((h.lives id).sound b hb).snapshot_id

/-- An event that is ready and whose place is free comes right behind the last event of its
product. -/
theorem next (h : Agreement es live hands) {e : Event} (hr : e.Ready es)
    (hfree : ∀ a ∈ es, a.place ≠ e.place) (n : Nat) :
    e.version = (trail e.entityId es).length + 1 ∧
      Life e.entityId (trail e.entityId es ++ [e.numbered n]) := by
  have hlife := h.lives e.entityId
  have hversion : ∀ a ∈ trail e.entityId es, a.version ≠ e.version := by
    intro a ha hv
    obtain ⟨ha, hid⟩ := mem_trail.mp ha
    exact hfree a ha (by rw [Event.place, Event.place, hid, hv])
  obtain ⟨hsound, hbegins | ⟨b, hb, hs⟩⟩ := hr
  · have hnil : trail e.entityId es = [] := by
      by_contra hne
      have hpos := List.length_pos_iff.mpr hne
      exact hversion _ (List.getElem_mem hpos)
        ((hlife.begins_getElem hpos).2.trans hbegins.2.symm)
    refine ⟨by rw [hnil]; exact hbegins.2, hlife.snoc (hsound.numbered n) (fun _ => hbegins) ?_⟩
    intro b hb
    rw [hnil] at hb
    cases hb
  · have hbounds := hlife.version_bounds hb
    -- if `b` were not the last event, the one behind it would stand at the place of `e`
    have hlast : b.version = (trail e.entityId es).length := by
      by_contra hne
      obtain ⟨a, ha, hav⟩ := hlife.exists_version (v := b.version + 1) (by omega) (by omega)
      exact hversion a ha (by rw [hav, hs.version])
    refine ⟨by rw [hs.version, hlast], hlife.snoc (hsound.numbered n) (fun hnil => ?_) ?_⟩
    · rw [hnil] at hb
      cases hb
    · intro a ha
      rw [hlife.getLast?_of_version hb hlast, Option.mem_some_iff] at ha
      rw [← ha]
      exact hs.numbered n

/-! ## The steps -/

theorem update_eq_iff {i j : Nat} {x y : Hand} :
    update hands i x j = y ↔ j = i ∧ x = y ∨ j ≠ i ∧ hands j = y := by
  rw [Function.update_apply]
  split_ifs with hji <;> simp [hji]

/-- What is not the new one is an old one. -/
theorem of_update_eq {i j : Nat} {x y : Hand} (h : update hands i x j = y) (hxy : x ≠ y) :
    j ≠ i ∧ hands j = y :=
  (update_eq_iff.mp h).resolve_left fun hx => hxy hx.2

/-- If no event is pending, all calls may drop what they have. -/
theorem rest (h : Agreement es live hands) (hn : ∀ i p, hands i ≠ .pending p) :
    Agreement es live fun _ => .empty where
  lives := h.lives
  ready _ _ hj := by cases hj
  recorded _ _ hj := by cases hj
  behind _ _ _ _ hj := by cases hj
  pending _ _ hj := by cases hj
  lone _ _ _ _ hj := by cases hj
  settled id _ := h.settled id fun i p hi => absurd hi (hn i p)

/-- A call that has no event to commit drops what it has. -/
theorem drop (h : Agreement es live hands) {i : Nat} (hi : ∀ p, hands i ≠ .pending p) :
    Agreement es live (update hands i .empty) := by
  constructor
  case lives => exact h.lives
  case ready => exact fun j e hj => h.ready j e (of_update_eq hj (by simp)).2
  case recorded => exact fun j e hj => h.recorded j e (of_update_eq hj (by simp)).2
  case behind =>
    exact fun j k e p hj hk => h.behind j k e p (of_update_eq hj (by simp)).2
      (of_update_eq hk (by simp)).2
  case pending => exact fun j p hj => h.pending j p (of_update_eq hj (by simp)).2
  case lone =>
    exact fun j k p q hj hk => h.lone j k p q (of_update_eq hj (by simp)).2
      (of_update_eq hk (by simp)).2
  case settled =>
    intro id hid
    refine h.settled id fun j p hj => hid j p (update_eq_iff.mpr (.inr ⟨?_, hj⟩))
    rintro rfl
    exact hi p hj

/-- **A call prepares an event** that is ready and not ahead of a pending one. -/
theorem prepare (h : Agreement es live hands) {i : Nat} (hi : hands i = .empty) {e : Event}
    (hr : e.Ready es)
    (hb : ∀ j p, hands j = .pending p → p.entityId = e.entityId → e.version ≤ p.version) :
    Agreement es live (update hands i (.prepared e)) := by
  constructor
  case lives => exact h.lives
  case ready =>
    intro j x hj
    rcases update_eq_iff.mp hj with ⟨-, hx⟩ | ⟨-, hj⟩
    · cases hx
      exact hr
    · exact h.ready j x hj
  case recorded =>
    exact fun j x hj => h.recorded j x (of_update_eq hj (by simp)).2
  case behind =>
    intro j k x p hj hk
    rcases update_eq_iff.mp hj with ⟨-, hx⟩ | ⟨-, hj⟩
    · cases hx
      exact hb k p (of_update_eq hk (by simp)).2
    · exact h.behind j k x p hj (of_update_eq hk (by simp)).2
  case pending => exact fun j p hj => h.pending j p (of_update_eq hj (by simp)).2
  case lone =>
    exact fun j k p q hj hk => h.lone j k p q (of_update_eq hj (by simp)).2
      (of_update_eq hk (by simp)).2
  case settled =>
    intro id hid
    refine h.settled id fun j p hj => hid j p (update_eq_iff.mpr (.inr ⟨?_, hj⟩))
    rintro rfl
    rw [hi] at hj
    cases hj

/-- **An event is prepared from what the live table shows.** -/
theorem prepare_later (h : Agreement es live hands) {i : Nat} (hi : hands i = .empty)
    {id : String} {p : Product} (hp : live.get? id = some p) {e : Event}
    (he : ∀ b : Event, b.Sound id → b.kind ≠ .deleted → b.snapshot = p →
      e.Sound id ∧ Event.Succeeds id b e) :
    Agreement es live (update hands i (.prepared e)) := by
  obtain ⟨b, hb, hk, hsnap, hv, hnext⟩ := h.exists_source hp
  obtain ⟨hsound, hs⟩ := he b ((h.lives id).sound b hb) hk hsnap
  have hid : e.entityId = id := hsound.entity
  subst hid
  refine h.prepare hi ⟨hsound, .inr ⟨b, hb, hs⟩⟩ fun j q hj hq => ?_
  have hev := hs.version
  have hqv := hnext j q hj hq
  omega

/-- An event that begins a life is prepared. -/
theorem prepare_first (h : Agreement es live hands) {i : Nat} (hi : hands i = .empty) {e : Event}
    (hs : e.Sound e.entityId) (hb : e.Begins) :
    Agreement es live (update hands i (.prepared e)) := by
  refine h.prepare hi ⟨hs, .inl hb⟩ fun j q hj hq => ?_
  rw [hb.2]
  exact ((h.lives q.entityId).version_bounds (h.mem_of_pending hj)).1

/-- An event whose turn it is finds no pending event of its product: what was prepared before that
one was committed has no free place any more. -/
theorem not_pending (h : Agreement es live hands) {i : Nat} {e : Event}
    (hi : hands i = .prepared e) (hv : e.version = (trail e.entityId es).length + 1) {j : Nat}
    {p : Event} (hj : hands j = .pending p) : p.entityId ≠ e.entityId := by
  intro hp
  have hle := h.behind i j e p hi hj hp
  rw [h.version_of_pending hj, hp] at hle
  omega

/-- An event that is ready is at most one version ahead. -/
theorem version_le_of_ready (h : Agreement es live hands) {e : Event} (hr : e.Ready es) :
    e.version ≤ (trail e.entityId es).length + 1 := by
  obtain ⟨-, hbegins | ⟨b, hb, hs⟩⟩ := hr
  · rw [hbegins.2]
    omega
  · have hbounds := (h.lives e.entityId).version_bounds hb
    rw [hs.version]
    omega

/-- **A prepared event is recorded** if its place is free. -/
theorem record (h : Agreement es live hands) {i : Nat} {e : Event} (hi : hands i = .prepared e)
    (hfree : ∀ a ∈ es, a.place ≠ e.place) (n : Nat) :
    Agreement (es ++ [e.numbered n]) live (update hands i (.pending (e.numbered n))) := by
  obtain ⟨hv, hlife⟩ := h.next (h.ready i e hi) hfree n
  have hself : trail e.entityId (es ++ [e.numbered n]) = trail e.entityId es ++ [e.numbered n] :=
    trail_append_self es (e.numbered n)
  have hother : ∀ {id}, e.entityId ≠ id → trail id (es ++ [e.numbered n]) = trail id es :=
    fun hid => trail_append_of_ne (e := e.numbered n) hid es
  constructor
  case lives =>
    intro id
    by_cases hid : e.entityId = id
    · subst hid
      rw [hself]
      exact hlife
    · rw [hother hid]
      exact h.lives id
  case ready => exact fun j x hj => (h.ready j x (of_update_eq hj (by simp)).2).append _
  case recorded =>
    exact fun j x hj => List.mem_append_left _ (h.recorded j x (of_update_eq hj (by simp)).2)
  case behind =>
    intro j k x p hj hk hp
    have hj := (of_update_eq hj (by simp)).2
    rcases update_eq_iff.mp hk with ⟨-, hx⟩ | ⟨-, hk⟩
    · -- an event that is still prepared is at most as far ahead as the one recorded now
      cases hx
      have hle := h.version_le_of_ready (h.ready j x hj)
      rw [show x.entityId = e.entityId from hp.symm, ← hv] at hle
      exact hle
    · exact h.behind j k x p hj hk hp
  case pending =>
    intro j p hj
    rcases update_eq_iff.mp hj with ⟨-, hx⟩ | ⟨-, hj⟩
    · cases hx
      exact ⟨_, hself, h.settled e.entityId fun k q hk => h.not_pending hi hv hk⟩
    · rw [hother (Ne.symm (h.not_pending hi hv hj))]
      exact h.pending j p hj
  case lone =>
    intro j k p q hj hk hpq
    rcases update_eq_iff.mp hj with ⟨hji, hx⟩ | ⟨-, hj'⟩ <;>
      rcases update_eq_iff.mp hk with ⟨hki, hy⟩ | ⟨-, hk'⟩
    · rw [hji, hki]
    · cases hx
      exact absurd hpq.symm (h.not_pending hi hv hk')
    · cases hy
      exact absurd hpq (h.not_pending hi hv hj')
    · exact h.lone j k p q hj' hk' hpq
  case settled =>
    intro id hid
    have hne : e.entityId ≠ id := hid i (e.numbered n) (update_eq_iff.mpr (.inl ⟨rfl, rfl⟩))
    rw [hother hne]
    refine h.settled id fun j p hj => hid j p (update_eq_iff.mpr (.inr ⟨?_, hj⟩))
    rintro rfl
    rw [hi] at hj
    cases hj

/-- **A pending event is committed.** -/
theorem commit (h : Agreement es live hands) {i : Nat} {e : Event} (hi : hands i = .pending e) :
    Agreement es (live.apply e) (update hands i (.done e)) := by
  obtain ⟨bs, hbs, -⟩ := h.pending i e hi
  have hmem := h.mem_of_pending hi
  have hsound := (h.lives e.entityId).sound e hmem
  have hget := LiveTable.get?_apply live (hsound.snapshot_id.trans hsound.entity.symm)
  constructor
  case lives => exact h.lives
  case ready => exact fun j x hj => h.ready j x (of_update_eq hj (by simp)).2
  case recorded =>
    intro j x hj
    rcases update_eq_iff.mp hj with ⟨-, hx⟩ | ⟨-, hj⟩
    · cases hx
      exact (mem_trail.mp hmem).1
    · exact h.recorded j x hj
  case behind =>
    exact fun j k x p hj hk => h.behind j k x p (of_update_eq hj (by simp)).2
      (of_update_eq hk (by simp)).2
  case pending =>
    intro j p hj
    obtain ⟨hji, hj⟩ := of_update_eq hj (by simp)
    have hne : e.entityId ≠ p.entityId := fun heq => hji (h.lone i j e p hi hj heq).symm
    rw [hget, if_neg hne]
    exact h.pending j p hj
  case lone =>
    exact fun j k p q hj hk => h.lone j k p q (of_update_eq hj (by simp)).2
      (of_update_eq hk (by simp)).2
  case settled =>
    intro id hid
    rw [hget]
    split_ifs with heq hk
    · rw [← heq, hbs, current_append, if_pos hk]
    · rw [← heq, hbs, current_append, if_neg hk]
    · refine h.settled id fun j p hj => ?_
      by_cases hji : j = i
      · rw [hji, hi] at hj
        cases hj
        exact heq
      · exact hid j p (update_eq_iff.mpr (.inr ⟨hji, hj⟩))

end Agreement

end CatalogChain

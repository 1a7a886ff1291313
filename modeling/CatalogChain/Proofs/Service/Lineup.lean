import CatalogChain.Proofs.LiveTable.Listing
import CatalogChain.Proofs.Service.History

/-!
# Lineups

The log tells in which order products have been created, and which of them there are still.  The
lineup of some events is the list of the products that they leave, in this order (`lineup`), and
with every further event it changes in the simplest way: a creation puts its product at the end, an
update changes its product in its place, a deletion drops it (`lineup_append`).

A listing of the live table goes by the instants of creation that the products carry.  A product
keeps its instant through all updates (`Life.createdAt_eq`); so if the creations have drawn their
instants one after the other (`InOrder`) from a clock that goes on, the listing is the lineup of the
log (`Agrees.listing_eq`).
-/

namespace CatalogChain

/-! ## Products in the order of their creations -/

/-- The creations among some events. -/
def births (es : List Event) : List Event := es.filter fun e => e.kind = .created

/-- **The products that events leave**, in the order of their creations. -/
def lineup (es : List Event) : List Product :=
  (births es).filterMap fun e => current (trail e.entityId es)

/-- **What an event does to a list of products**: a new product comes behind all others, a new
version takes the place of the old one, and what is deleted drops out. -/
def Event.follow (ps : List Product) (e : Event) : List Product :=
  match e.kind with
  | .created => ps ++ [e.snapshot]
  | .updated => ps.map fun p => if p.id = e.entityId then e.snapshot else p
  | .deleted => ps.filter fun p => p.id ≠ e.entityId

theorem mem_births {es : List Event} {e : Event} : e ∈ births es ↔ e ∈ es ∧ e.kind = .created := by
  rw [births, List.mem_filter, decide_eq_true_iff]

theorem births_append (es : List Event) (e : Event) :
    births (es ++ [e]) = if e.kind = .created then births es ++ [e] else births es := by
  rw [births, List.filter_append, List.filter_singleton]
  by_cases hk : e.kind = .created
  · rw [decide_eq_true hk, if_pos hk]
    rfl
  · rw [decide_eq_false hk, if_neg hk]
    exact List.append_nil _

theorem trail_append (id : String) (es fs : List Event) :
    trail id (es ++ fs) = trail id es ++ trail id fs := List.filter_append ..

section Lineup
variable {es : List Event} {e : Event}

/-- A product that is created comes last. -/
theorem lineup_append_of_created (hk : e.kind = .created) (hnew : trail e.entityId es = []) :
    lineup (es ++ [e]) = lineup es ++ [e.snapshot] := by
  have hbefore : ∀ a ∈ births es,
      current (trail a.entityId (es ++ [e])) = current (trail a.entityId es) := fun a ha => by
    have hne : e.entityId ≠ a.entityId := fun heq => by
      have hmem : a ∈ trail e.entityId es := mem_trail.mpr ⟨(mem_births.mp ha).1, heq.symm⟩
      rw [hnew] at hmem
      cases hmem
    rw [current_trail_append, if_neg hne]
  have hself : current (trail e.entityId (es ++ [e])) = some e.snapshot := by
    rw [current_trail_append, if_pos rfl, if_neg (by rw [hk]; decide)]
  rw [lineup, births_append, if_pos hk, List.filterMap_append, List.filterMap_congr hbefore,
    List.filterMap_cons, hself, List.filterMap_nil]
  rfl

section Later
variable {p : Product} (hlive : current (trail e.entityId es) = some p)
  (hids : ∀ id p, current (trail id es) = some p → p.id = id)
include hlive hids

/-- A product that is updated keeps its place. -/
theorem lineup_append_of_updated (hk : e.kind = .updated) : lineup (es ++ [e]) =
    (lineup es).map fun p => if p.id = e.entityId then e.snapshot else p := by
  have hkept : ¬ e.kind = .deleted := by
    rw [hk]
    decide
  rw [lineup, births_append, if_neg (by rw [hk]; decide), lineup, List.map_filterMap]
  refine List.filterMap_congr fun a _ => ?_
  rw [current_trail_append, if_neg hkept]
  split_ifs with ha
  · rw [← ha, hlive, Option.map_some, if_pos (hids _ _ hlive)]
  · cases hq : current (trail a.entityId es) with
    | none => rfl
    | some q => rw [Option.map_some, if_neg fun hid => ha (hid.symm.trans (hids _ _ hq))]

/-- A product that is deleted drops out. -/
theorem lineup_append_of_deleted (hk : e.kind = .deleted) : lineup (es ++ [e]) =
    (lineup es).filter fun p => p.id ≠ e.entityId := by
  rw [lineup, births_append, if_neg (by rw [hk]; decide), lineup, List.filter_filterMap]
  refine List.filterMap_congr fun a _ => ?_
  rw [current_trail_append, if_pos hk]
  split_ifs with ha
  · rw [← ha, hlive, Option.filter_some, if_neg]
    exact fun hne => of_decide_eq_true hne (hids _ _ hlive)
  · cases hq : current (trail a.entityId es) with
    | none => rfl
    | some q =>
      have hne : q.id ≠ e.entityId := fun hid => ha (hid.symm.trans (hids _ _ hq))
      rw [Option.filter_some, if_pos (decide_eq_true hne)]

end Later

/-- **The lineup follows every event.** -/
theorem lineup_append (h : ∀ id, Life id (trail id (es ++ [e]))) :
    lineup (es ++ [e]) = e.follow (lineup es) := by
  have hids : ∀ id p, current (trail id es) = some p → p.id = id := fun id p hp => by
    have hlife := h id
    rw [trail_append] at hlife
    exact (Life.left _ _ hlife).id_of_current hp
  have hlast := h e.entityId
  rw [trail_append_self] at hlast
  unfold Event.follow
  rcases hlast.last_cases with ⟨hnew, hbegins⟩ | ⟨b, hb, hs⟩
  · rw [hbegins.1]
    exact lineup_append_of_created hbegins.1 hnew
  · have hlive : current (trail e.entityId es) = some b.snapshot :=
      current_eq_some_iff.mpr ⟨b, hb, hs.alive, rfl⟩
    cases hk : e.kind with
    | created => exact absurd hk hs.later
    | updated => exact lineup_append_of_updated hlive hids hk
    | deleted => exact lineup_append_of_deleted hlive hids hk

end Lineup

/-- **The lineup follows any number of events.** -/
theorem lineup_append_all {es : List Event} (fs : List Event)
    (h : ∀ id, Life id (trail id (es ++ fs))) :
    lineup (es ++ fs) = fs.foldl Event.follow (lineup es) := by
  induction fs using List.reverseRecOn with
  | nil => exact congrArg lineup (List.append_nil es)
  | append_singleton fs f ih =>
    rw [← List.append_assoc] at h ⊢
    have hbefore : ∀ id, Life id (trail id (es ++ fs)) := fun id => by
      have hlife := h id
      rw [trail_append] at hlife
      exact Life.left _ _ hlife
    rw [lineup_append h, ih hbefore, List.foldl_append]
    rfl

/-! ## Instants of creation -/

/-- **The clock goes on** with every one of the first `n` readings. -/
def Supply.RisesTo (σ : Supply) (n : Nat) : Prop :=
  ∀ i j, i < j → j < n → σ.reading i < σ.reading j

/-- **Creations in order**: their instants are readings of the clock, among the first `n` ones, and
they have been drawn one after the other. -/
def InOrder (σ : Supply) (n : Nat) (es : List Event) : Prop :=
  ∃ ks : List Nat, ks.Pairwise (· < ·) ∧ (∀ k ∈ ks, k < n) ∧
    (births es).map (·.snapshot.createdAt) = ks.map σ.reading

namespace InOrder

variable {σ : Supply} {n n' : Nat} {es : List Event}

theorem nil (σ : Supply) (n : Nat) : InOrder σ n [] := ⟨[], .nil, (fun _ hk => by cases hk), rfl⟩

theorem mono (h : InOrder σ n es) (hle : n ≤ n') : InOrder σ n' es := by
  obtain ⟨ks, hks, hlt, heq⟩ := h
  exact ⟨ks, hks, fun k hk => Nat.lt_of_lt_of_le (hlt k hk) hle, heq⟩

/-- An event comes in order if it is a creation with an instant that has been drawn since. -/
theorem record (h : InOrder σ n es) (hle : n ≤ n') {e : Event}
    (he : e.kind = .created → ∃ k, n ≤ k ∧ k < n' ∧ e.snapshot.createdAt = σ.reading k) :
    InOrder σ n' (es ++ [e]) := by
  by_cases hk : e.kind = .created
  · obtain ⟨ks, hks, hlt, heq⟩ := h
    obtain ⟨k, hnk, hkn, hreading⟩ := he hk
    refine ⟨ks ++ [k], ?_, fun j hj => ?_, ?_⟩
    · rw [List.pairwise_append]
      refine ⟨hks, List.pairwise_singleton .., fun j hj i hi => ?_⟩
      rw [List.mem_singleton.mp hi]
      exact Nat.lt_of_lt_of_le (hlt j hj) hnk
    · rcases List.mem_append.mp hj with hj | hj
      · exact Nat.lt_of_lt_of_le (hlt j hj) hle
      · rw [List.mem_singleton.mp hj]
        exact hkn
    · rw [births_append, if_pos hk, List.map_append, List.map_append, heq, List.map_singleton,
        List.map_singleton, hreading]
  · have hsame := h.mono hle
    unfold InOrder at hsame ⊢
    rwa [births_append, if_neg hk]

/-- **Where the clock goes on**, every creation has a later instant than those before it. -/
theorem ascending (h : InOrder σ n es) (hσ : σ.RisesTo n) :
    (births es).Pairwise fun a b => a.snapshot.createdAt < b.snapshot.createdAt := by
  obtain ⟨ks, hks, hlt, heq⟩ := h
  have hinstants : (ks.map σ.reading).Pairwise (· < ·) :=
    List.pairwise_map.mpr (hks.imp_of_mem fun {i j} _ hj hij => hσ i j hij (hlt j hj))
  rw [← heq] at hinstants
  exact List.pairwise_map.mp hinstants

end InOrder

section Listing
variable {σ : Supply} {n : Nat} {es : List Event} {s : Service} (h : Agrees es s [])
include h

theorem Agrees.keyed : s.live.Keyed := fun _ _ hp => h.agreement.id_of_get? hp

/-- Every product that is live was created. -/
theorem Agrees.exists_birth {id : String} {p : Product} (hp : s.live.get? id = some p) :
    ∃ e ∈ births es, e.entityId = id := by
  rw [h.live_eq] at hp
  have hpos : 0 < (trail id es).length := List.length_pos_iff.mpr fun hnil => by
    rw [hnil] at hp
    cases hp
  obtain ⟨hmem, hid⟩ := mem_trail.mp (List.getElem_mem hpos)
  exact ⟨_, mem_births.mpr ⟨hmem, ((h.agreement.lives id).begins_getElem hpos).1⟩, hid⟩

/-- Of one product there is one creation. -/
theorem Agrees.pairwise_births :
    (births es).Pairwise fun a b => a.sequence < b.sequence ∧ a.entityId ≠ b.entityId := by
  have hall : es.Pairwise fun a b => a.kind = .created → b.kind = .created →
      a.sequence < b.sequence ∧ a.entityId ≠ b.entityId := by
    rw [List.pairwise_iff_getElem]
    intro i j hi hj hij hki hkj
    refine ⟨?_, fun heq => ?_⟩
    · rw [h.records.sequence i hi, h.records.sequence j hj]
      omega
    · -- both have the first version, so they have one place in the log
      have hversion : ∀ a ∈ es, a.kind = .created → a.version = 1 := fun a ha hk => by
        obtain ⟨k, hk', hak⟩ := List.getElem_of_mem (mem_trail.mpr ⟨ha, rfl⟩)
        rcases (h.agreement.lives a.entityId).begins_or_later hk' with ⟨-, hb⟩ | ⟨hl, -⟩
        · rw [← hak]
          exact hb.2
        · rw [hak] at hl
          exact absurd hk hl
      have hplace : es[i].place = es[j].place := by
        rw [Event.place, Event.place, heq, hversion _ (List.getElem_mem hi) hki,
          hversion _ (List.getElem_mem hj) hkj]
      have hsame := h.records.eq_of_place_eq (List.getElem_mem hi) (List.getElem_mem hj) hplace
      rw [List.Nodup.getElem_inj_iff h.records.nodup] at hsame
      omega
  refine List.pairwise_filter.mpr (hall.imp fun {a b} hab ha hb => ?_)
  exact hab (of_decide_eq_true ha) (of_decide_eq_true hb)

theorem Agrees.lineup_eq :
    lineup es = (births es).filterMap fun e => s.live.get? e.entityId :=
  List.filterMap_congr fun e _ => (h.live_eq e.entityId).symm

/-- **The listing is the lineup of the log** if the creations are in order and the clock goes on. -/
theorem Agrees.listing_eq (horder : InOrder σ n es) (hσ : σ.RisesTo n) :
    s.live.listing = lineup es := by
  have hlife := h.agreement.lives
  refine (h.keyed.eq_listing ?_ fun p => ?_).symm
  · unfold lineup
    rw [List.pairwise_filterMap]
    refine (horder.ascending hσ).imp_of_mem fun {a b} ha hb hab p hp q hq => .inl ?_
    -- a product has the instant of its creation
    have hborn : ∀ a ∈ births es, ∀ p, current (trail a.entityId es) = some p →
        p.createdAt = a.snapshot.createdAt := fun a ha p hp => by
      obtain ⟨e, he, -, rfl, -⟩ := (hlife a.entityId).version_of_current hp
      exact (hlife a.entityId).createdAt_eq he (mem_trail.mpr ⟨(mem_births.mp ha).1, rfl⟩)
    rw [hborn a ha p hp, hborn b hb q hq]
    exact hab
  · rw [h.lineup_eq, List.mem_filterMap]
    constructor
    · rintro ⟨e, -, hp⟩
      rwa [h.keyed _ _ hp]
    · intro hp
      obtain ⟨e, he, hid⟩ := h.exists_birth hp
      exact ⟨e, he, hid ▸ hp⟩

end Listing

end CatalogChain

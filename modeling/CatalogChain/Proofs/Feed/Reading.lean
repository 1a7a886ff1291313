import CatalogChain.Feed
import Mathlib.Tactic.SplitIfs

/-!
# What a subscription reads

A feed carries the events that are published on it: each channel has counted those of its kind and
keeps the latest of them (`Feed.Carries`).  Whoever has read or missed an initial part of a channel
gets the next event, unless that is kept no more; then it learns how many are lost
(`Feed.Carries.receive`).  So what a subscription reads spells out the events of its channel, in
which a report of missed events stands for as many (`Spells`, `Feed.Carries.receiveUpTo`).
-/

namespace CatalogChain

/-- **A capacity is rounded up to a power of two.** -/
theorem Feed.roundUp_spec {n : Nat} (h : 1 ≤ n) :
    (∃ k, roundUp n = twoTo k) ∧ n ≤ roundUp n ∧ roundUp n < 2 * n := by
  unfold roundUp
  by_cases hone : n ≤ 1
  · rw [if_pos hone]
    exact ⟨⟨0, rfl⟩, hone, by omega⟩
  · rw [if_neg hone]
    have hle : twoTo (n - 1).log2 ≤ n - 1 := Nat.log2_self_le (by omega)
    have hlt : n - 1 < twoTo ((n - 1).log2 + 1) := Nat.lt_log2_self
    rw [twoTo_succ] at hlt ⊢
    exact ⟨⟨(n - 1).log2 + 1, (twoTo_succ _).symm⟩, by omega, by omega⟩

/-- The events of a kind. -/
def ofKind (kind : EventKind) (es : List Event) : List Event := es.filter fun e => e.kind = kind

theorem ofKind_append (kind : EventKind) (es fs : List Event) :
    ofKind kind (es ++ fs) = ofKind kind es ++ ofKind kind fs := List.filter_append ..

/-! ## What is kept -/

/-- **A channel carries a list of events**: it has counted all and keeps the latest ones. -/
structure Channel.Carries (c : Channel) (span : Nat) (es : List Event) : Prop where
  published : c.published = es.length
  kept : c.kept = es.reverse.take span

/-- **A feed carries a list of events**, those of each kind on the channel for it. -/
def Feed.Carries (f : Feed) (es : List Event) : Prop :=
  ∀ kind, (f.channel kind).Carries f.span (ofKind kind es)

namespace Channel.Carries

variable {c : Channel} {span : Nat} {es : List Event}

theorem empty (span : Nat) : Channel.empty.Carries span [] := ⟨rfl, List.take_nil.symm⟩

theorem publish (h : c.Carries span es) (e : Event) : (c.publish span e).Carries span (es ++ [e]) where
  published := by
    rw [List.length_append, ← h.published]
    rfl
  kept := by
    show (e :: c.kept).take span = _
    rw [h.kept, List.reverse_append]
    cases span with
    | zero => rfl
    | succ n =>
      rw [List.take_succ_cons, List.take_take, Nat.min_eq_left (Nat.le_succ n)]
      rfl

theorem dropped (h : c.Carries span es) : c.dropped = es.length - span := by
  rw [Channel.dropped, h.published, h.kept, List.length_take, List.length_reverse]
  omega

theorem get? (h : c.Carries span es) {n : Nat} (hn : es.length ≤ n + span) : c.get? n = es[n]? := by
  unfold Channel.get?
  rw [h.published, h.kept]
  split_ifs with hlt
  · rw [List.getElem?_take_of_lt (by omega), List.getElem?_reverse (by omega)]
    congr 1
    omega
  · exact (List.getElem?_eq_none (Nat.not_lt.mp hlt)).symm

end Channel.Carries

namespace Feed

/-! ## Publishing -/

theorem channel_publish (f : Feed) (e : Event) (kind : EventKind) : (f.publish e).channel kind =
    if e.kind = kind then (f.channel kind).publish f.span e else f.channel kind := by
  unfold publish
  cases he : e.kind <;> cases kind <;> rfl

@[simp] theorem span_publish (f : Feed) (e : Event) : (f.publish e).span = f.span := by
  unfold publish
  cases e.kind <;> rfl

@[simp] theorem subscriptions_publish (f : Feed) (e : Event) :
    (f.publish e).subscriptions = f.subscriptions := by
  unfold publish
  cases e.kind <;> rfl

@[simp] theorem isClosed_publish (f : Feed) (e : Event) : (f.publish e).isClosed = f.isClosed := by
  unfold publish
  cases e.kind <;> rfl

/-- **A feed of which only the channels are different.** -/
structure SameListeners (f f' : Feed) : Prop where
  span : f'.span = f.span
  subscriptions : f'.subscriptions = f.subscriptions
  isClosed : f'.isClosed = f.isClosed

theorem sameListeners_publishAll (f : Feed) (es : List Event) :
    f.SameListeners (es.foldl publish f) := by
  induction es generalizing f with
  | nil => exact ⟨rfl, rfl, rfl⟩
  | cons e es ih =>
    obtain ⟨hspan, hsubs, hclosed⟩ := ih (f.publish e)
    exact ⟨hspan.trans (f.span_publish e), hsubs.trans (f.subscriptions_publish e),
      hclosed.trans (f.isClosed_publish e)⟩

theorem carries_ofCapacity (capacity : Nat) : (ofCapacity capacity).Carries [] := by
  intro kind
  cases kind <;> exact .empty _

namespace Carries

variable {f : Feed} {es : List Event}

theorem publish (h : f.Carries es) (e : Event) : (f.publish e).Carries (es ++ [e]) := by
  intro kind
  rw [channel_publish, span_publish, ofKind_append]
  split_ifs with hkind
  · rw [show ofKind kind [e] = [e] from List.filter_cons_of_pos (decide_eq_true hkind)]
    exact (h kind).publish e
  · rw [show ofKind kind [e] = [] from List.filter_cons_of_neg (by simpa using hkind),
      List.append_nil]
    exact h kind

theorem publishAll (h : f.Carries es) (fs : List Event) :
    (fs.foldl Feed.publish f).Carries (es ++ fs) := by
  induction fs generalizing f es with
  | nil => rwa [List.append_nil]
  | cons e fs ih =>
    have hrest := ih (h.publish e)
    rwa [List.append_assoc] at hrest

end Carries

end Feed

/-! ## Reading -/

/-- **Readings spell out a list of events**, where a report of missed events stands for as many. -/
inductive Spells : List Received → List Event → Prop where
  | nil : Spells [] []
  | event {rs : List Received} {es : List Event} (e : Event) (h : Spells rs es) :
      Spells (.event e :: rs) (e :: es)
  | lagged {rs : List Received} {es : List Event} (missed : List Event) (h : Spells rs es) :
      Spells (.lagged missed.length :: rs) (missed ++ es)
  | empty {rs : List Received} {es : List Event} (h : Spells rs es) : Spells (.empty :: rs) es
  | closed {rs : List Received} {es : List Event} (h : Spells rs es) : Spells (.closed :: rs) es

theorem Spells.append {rs qs : List Received} {es fs : List Event} (h : Spells rs es)
    (h' : Spells qs fs) : Spells (rs ++ qs) (es ++ fs) := by
  induction h with
  | nil => exact h'
  | event e _ ih => exact .event e ih
  | lagged missed _ ih =>
    rw [List.append_assoc]
    exact .lagged missed ih
  | empty _ ih => exact .empty ih
  | closed _ ih => exact .closed ih

/-- **The next reading of a subscription** that has a list of events left. -/
def Received.next (span : Nat) (isClosed : Bool) (left : List Event) : Received :=
  if span < left.length then .lagged (left.length - span)
  else
    match left with
    | e :: _ => .event e
    | [] => if isClosed then .closed else .empty

/-- The number of events that a reading stands for. -/
def Received.weight : Received → Nat
  | .event _ => 1
  | .lagged missed => missed
  | .empty | .closed => 0

theorem Received.next_cases (span : Nat) (isClosed : Bool) (left : List Event) :
    (∃ missed rest, left = missed ++ rest ∧ next span isClosed left = .lagged missed.length) ∨
    (∃ e rest, left = e :: rest ∧ next span isClosed left = .event e) ∨
    left = [] ∧ (next span isClosed left = .empty ∨ next span isClosed left = .closed) := by
  unfold next
  by_cases hlag : span < left.length
  · left
    rw [if_pos hlag]
    refine ⟨left.take (left.length - span), left.drop (left.length - span),
      (List.take_append_drop ..).symm, ?_⟩
    rw [List.length_take, Nat.min_eq_left (Nat.sub_le ..)]
  · right
    rw [if_neg hlag]
    cases left with
    | nil =>
      right
      cases isClosed
      · exact ⟨rfl, .inl rfl⟩
      · exact ⟨rfl, .inr rfl⟩
    | cons e rest => exact .inl ⟨e, rest, rfl, rfl⟩

theorem Feed.read?_of_get? {f : Feed} {name : String} {s : Subscription}
    (h : f.subscriptions.get? name = some s) (limit : Option Nat) :
    f.read? name limit =
      some ((f.receiveUpTo (min (limit.getD (f.unread s)) (f.unread s)) s).1,
        { f with
          subscriptions := f.subscriptions.put name
            (f.receiveUpTo (min (limit.getD (f.unread s)) (f.unread s)) s).2 }) := by
  rw [read?, h]
  rfl

theorem Feed.receiveUpTo_one (f : Feed) (s : Subscription) :
    (f.receiveUpTo 1 s).1 = [(f.receive s).1] := by
  unfold receiveUpTo
  rcases f.receive s with ⟨r, s'⟩
  cases r <;> rfl

namespace Feed.Carries

variable {f : Feed} {es : List Event} (h : f.Carries es) {s : Subscription} {past left : List Event}
include h

/-- **One read.** -/
theorem receive (hs : ofKind s.kind es = past ++ left) (hnext : s.next = past.length) :
    f.receive s = (.next f.span f.isClosed left,
      { s with next := s.next + (Received.next f.span f.isClosed left).weight }) := by
  have hchannel := h s.kind
  rw [hs] at hchannel
  have hdropped := hchannel.dropped
  rw [List.length_append] at hdropped
  have hbehind : s.next < (f.channel s.kind).dropped ↔ f.span < left.length := by omega
  unfold Feed.receive Received.next
  simp only
  by_cases hlag : f.span < left.length
  · rw [if_pos (hbehind.mpr hlag), if_pos hlag]
    have hmissed : (f.channel s.kind).dropped - s.next = left.length - f.span := by omega
    have hoff : (f.channel s.kind).dropped = s.next + (left.length - f.span) := by omega
    rw [hmissed, hoff]
    rfl
  · rw [if_neg (mt hbehind.mp hlag), if_neg hlag]
    have hget := hchannel.get? (n := s.next) (by rw [List.length_append]; omega)
    rw [hget, hnext, List.getElem?_append_right (Nat.le_refl _), Nat.sub_self, ← hnext]
    cases left with
    | nil => cases f.isClosed <;> rfl
    | cons e left => rfl

/-- **Reading on** as long as there is anything: what is read spells out an initial part of the events
that were left, and all of them if a reading is empty. -/
theorem receiveUpTo (limit : Nat) (hs : ofKind s.kind es = past ++ left)
    (hnext : s.next = past.length) :
    ∃ told rest, left = told ++ rest ∧ Spells (f.receiveUpTo limit s).1 told ∧
      (f.receiveUpTo limit s).2 = { s with next := (past ++ told).length } ∧
      (.empty ∈ (f.receiveUpTo limit s).1 → rest = []) := by
  induction limit generalizing s past left with
  | zero =>
    refine ⟨[], left, rfl, .nil, ?_, fun hempty => ?_⟩
    · rw [List.append_nil, ← hnext]
      rfl
    · cases hempty
  | succ limit ih =>
    have hreceive := h.receive hs hnext
    -- the subscription goes on behind what the first reading stands for
    have hrest (told rest : List Event) (hleft : left = told ++ rest) :=
      @ih { s with next := s.next + told.length } (past ++ told) rest
        (by rw [hs, hleft, List.append_assoc]) (by rw [hnext, List.length_append])
    unfold Feed.receiveUpTo
    rw [hreceive]
    rcases Received.next_cases f.span f.isClosed left with
      ⟨missed, rest, hleft, hr⟩ | ⟨e, rest, hleft, hr⟩ | ⟨rfl, hr | hr⟩
    · obtain ⟨told, rest', rfl, hspells, hlast, hwhole⟩ := hrest missed rest hleft
      rw [hr]
      refine ⟨missed ++ told, rest', by rw [hleft, List.append_assoc], .lagged missed hspells, ?_,
        fun hempty => hwhole ((List.mem_cons.mp hempty).resolve_left Received.noConfusion)⟩
      rw [← List.append_assoc]
      exact hlast
    · obtain ⟨told, rest', rfl, hspells, hlast, hwhole⟩ := hrest [e] rest hleft
      rw [hr]
      refine ⟨e :: told, rest', hleft, .event e hspells, ?_,
        fun hempty => hwhole ((List.mem_cons.mp hempty).resolve_left Received.noConfusion)⟩
      rw [List.append_cons]
      exact hlast
    · rw [hr]
      refine ⟨[], [], rfl, .empty .nil, ?_, fun _ => rfl⟩
      rw [List.append_nil, ← hnext]
      rfl
    · rw [hr]
      refine ⟨[], [], rfl, .closed .nil, ?_, fun _ => rfl⟩
      rw [List.append_nil, ← hnext]
      rfl

end Feed.Carries

/-- A channel that keeps one event: of two that are published, the first is missed. -/
example (p q : Product) :
    let f := ((Feed.ofCapacity 1).subscribe "listener" .created).publish (.created .nil .epoch p)
    let f := f.publish (.created .nil .epoch q)
    (f.read? "listener" none).map (·.1) =
      some [.lagged 1, .event (.created .nil .epoch q), .empty] := rfl

end CatalogChain

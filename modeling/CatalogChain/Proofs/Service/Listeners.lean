import CatalogChain.Proofs.Feed.Reading
import CatalogChain.Proofs.Service.Outcomes

/-!
# Listeners

What is published is what was committed.  A station is a deployment with crews at work on it and
with listeners, who subscribe and read at any time between the steps of the crews, and between whole
writes and batches (`Station.step`).  Of every listener it is kept in mind when it subscribed and
what it has read since.

Between any two of these steps the feed carries the list of recorded events (`Station.Tuned`): a call
that records an event goes on until it has published it, so the two are never apart where anybody
else has a turn.  The events of a listener's kind that are recorded later are therefore what it is
sent, and what it reads spells out an initial part of them (`Station.Tuned.hears`).
-/

namespace CatalogChain

/-- **A listener**: the kind of events that it has subscribed to, the last sequence number at that
time, and what it has read since. -/
structure Listener where
  kind : EventKind
  since : Nat
  heard : List Received

/-- **A deployment with crews at work on it and listeners** by their names. -/
structure Station where
  deployment : Deployment
  crews : List Crew
  listeners : Table Listener

/-- **What can happen at a station.** -/
inductive Occurrence where
  /-- A single write. -/
  | write (cancellation : Cancellation) (request : Request)
  /-- A batch of writes. -/
  | batch (cancellation : Cancellation) (requests : List Request)
  /-- A crew begins to work through a list of writes. -/
  | hire (cancellation : Cancellation) (prompt : Bool) (places : Nat) (requests : List Request)
  /-- A crew makes its next step. -/
  | work (i : Nat)
  /-- Anything at all happens to the locks, the clock and the sweepers. -/
  | surround (locks : LockTable) (now : Nat) (roster : Roster) (sweeper : Option Nat)
  | subscribe (name : String) (kind : EventKind)
  | read (name : String) (limit : Option Nat)
  | unsubscribe (name : String)

namespace Station

/-- A new service whose feed has a capacity, with nobody around. -/
def fresh (settings : WriteSettings) (capacity : Nat) : Station :=
  ⟨.fresh settings (.ofCapacity capacity), [], .empty⟩

def service (w : Station) : Service := w.deployment.service

def feed (w : Station) : Feed := w.service.feed

/-- The station with another feed. -/
def withFeed (w : Station) (feed : Feed) : Station :=
  { w with deployment := { w.deployment with service := { w.deployment.service with feed } } }

/-- All events recorded so far, in the order of recording. -/
def recorded (w : Station) : List Event := w.service.log.events

/-- The events of a listener's kind that were recorded after it had subscribed. -/
def sent (w : Station) (l : Listener) : List Event :=
  w.recorded.filter fun e => e.kind = l.kind ∧ l.since < e.sequence

/-- What has been read is added to what a listener has heard. -/
def hearing (w : Station) (name : String) (rs : List Received) : Table Listener :=
  match w.listeners.get? name with
  | some l => w.listeners.put name { l with heard := l.heard ++ rs }
  | none => w.listeners

/-- **One occurrence.**  A write that is not carried out, a crew that has nothing left to do and a
name that nobody has subscribed under leave the station as it is. -/
def step (σ : Supply) (w : Station) : Occurrence → Station
  | .write cancellation request =>
    { w with
      deployment := ((w.deployment.perform? σ cancellation request).map (·.2)).getD w.deployment }
  | .batch cancellation requests =>
    { w with
      deployment :=
        ((w.deployment.performBatch? σ cancellation requests).map (·.2)).getD w.deployment }
  | .hire cancellation prompt places requests =>
    { w with
      crews := w.crews ++ [.ofRequests w.deployment cancellation prompt places requests] }
  | .work i =>
    match w.crews[i]?.bind fun c => Crew.step σ { c with deployment := w.deployment } with
    | none => w
    | some c => { w with deployment := c.deployment, crews := w.crews.set i c }
  | .surround locks now roster sweeper =>
    { w with
      deployment := { service := { w.deployment.service with locks }, now, roster, sweeper } }
  | .subscribe name kind =>
    { w.withFeed (w.feed.subscribe name kind) with
      listeners := w.listeners.put name ⟨kind, w.service.log.lastSequence, []⟩ }
  | .read name limit =>
    match w.feed.read? name limit with
    | none => w
    | some (rs, feed) => { w.withFeed feed with listeners := w.hearing name rs }
  | .unsubscribe name =>
    { w.withFeed (w.feed.unsubscribe name) with listeners := w.listeners.erase name }

/-- **A run**: occurrences in any number and order. -/
def run (σ : Supply) (w : Station) (os : List Occurrence) : Station := os.foldl (step σ) w

end Station

/-! ## Between the steps -/

/-- **A listener is served by a subscription**: of the events that it is sent it has read some, and
the subscription stands behind them. -/
structure Listener.Served (es told left : List Event) (s : Subscription) (l : Listener) : Prop where
  kind : s.kind = l.kind
  since : l.since ≤ es.length
  sent : ofKind l.kind (es.drop l.since) = told ++ left
  spells : Spells l.heard told
  next : s.next = (ofKind l.kind (es.take l.since)).length + told.length

def Subscription.Serves (es : List Event) (s : Subscription) (l : Listener) : Prop :=
  ∃ told left, l.Served es told left s

/-- **A station in tune with a list of recorded events**: its log and its live table agree with the
list, its feed carries it, and every listener is served. -/
structure Station.Tuned (capacity : Nat) (es : List Event) (w : Station) : Prop where
  agrees : Agrees es w.service []
  crews : ∀ c ∈ w.crews, Crew.Orderly es { c with deployment := w.deployment }
  carries : w.feed.Carries es
  span : w.feed.span = Feed.roundUp (max capacity 1)
  isClosed : w.feed.isClosed = false
  served : ∀ name, Option.Rel (Subscription.Serves es) (w.feed.subscriptions.get? name)
    (w.listeners.get? name)

namespace Listener.Served

variable {es told left : List Event} {s : Subscription} {l : Listener}

/-- A listener that has just subscribed. -/
theorem subscribed (es : List Event) (kind : EventKind) :
    Served es [] [] ⟨kind, (ofKind kind es).length⟩ ⟨kind, es.length, []⟩ where
  kind := rfl
  since := Nat.le_refl _
  sent := by
    rw [List.drop_length]
    rfl
  spells := .nil
  next := by
    rw [List.take_length]
    rfl

/-- New events are left for the listener. -/
theorem append (h : Served es told left s l) (fs : List Event) :
    Served (es ++ fs) told (left ++ ofKind l.kind fs) s l where
  kind := h.kind
  since := by
    rw [List.length_append]
    exact Nat.le_add_right_of_le h.since
  sent := by
    rw [List.drop_append_of_le_length h.since, ofKind_append, h.sent, List.append_assoc]
  spells := h.spells
  next := by
    rw [List.take_append_of_le_length h.since]
    exact h.next

/-- What the channel has carried before the events that are left. -/
theorem ofKind_eq (h : Served es told left s l) :
    ofKind s.kind es = ofKind l.kind (es.take l.since) ++ told ++ left := by
  rw [List.append_assoc, ← h.sent, ← ofKind_append, List.take_append_drop, h.kind]

theorem receive (h : Served es told left s l) {f : Feed} (hf : f.Carries es) :
    (f.receive s).1 = .next f.span f.isClosed left := by
  rw [hf.receive h.ofKind_eq (by rw [h.next, List.length_append])]

/-- **Reading** goes on where the listener has stopped. -/
theorem read (h : Served es told left s l) {f : Feed} (hf : f.Carries es) (limit : Nat) :
    ∃ more rest, left = more ++ rest ∧
      (.empty ∈ (f.receiveUpTo limit s).1 → rest = []) ∧
      Served es (told ++ more) rest (f.receiveUpTo limit s).2
        { l with heard := l.heard ++ (f.receiveUpTo limit s).1 } := by
  obtain ⟨more, rest, hleft, hmore, hlast, hwhole⟩ :=
    hf.receiveUpTo limit h.ofKind_eq (by rw [h.next, List.length_append])
  refine ⟨more, rest, hleft, hwhole, ?_⟩
  rw [hlast]
  refine ⟨h.kind, h.since, ?_, h.spells.append hmore, ?_⟩
  · rw [List.append_assoc, ← hleft]
    exact h.sent
  · show (ofKind l.kind (es.take l.since) ++ told ++ more).length = _
    rw [List.append_assoc, List.length_append]

end Listener.Served

theorem Subscription.Serves.rel_append {es : List Event} {a : Option Subscription}
    {b : Option Listener} (h : Option.Rel (Serves es) a b) (fs : List Event) :
    Option.Rel (Serves (es ++ fs)) a b := by
  cases h with
  | some h =>
    obtain ⟨told, left, h⟩ := h
    exact .some ⟨told, _, h.append fs⟩
  | none => exact .none

/-- Nobody has subscribed, and nothing is recorded. -/
theorem Station.tuned_fresh (settings : WriteSettings) (capacity : Nat) :
    (fresh settings capacity).Tuned capacity [] where
  agrees := .fresh settings _
  crews _ hc := by cases hc
  carries := Feed.carries_ofCapacity capacity
  span := rfl
  isClosed := rfl
  served _ := .none

/-- Events that are announced are those that the list has more. -/
theorem Agrees.eq_append {es fs gs : List Event} {s s' : Service} (h : Agrees es s [])
    (h' : Agrees gs s' []) (ha : s.Announces fs s') : gs = es ++ fs := by
  rw [← h'.records.events, ha.log, h.records.events]

namespace Station.Tuned

variable {capacity : Nat} {es : List Event} {w : Station} (h : w.Tuned capacity es)
include h

/-- **Events are recorded and published**, by crews or by others. -/
theorem announce {fs : List Event} {d : Deployment} {crews : List Crew}
    (hd : Agrees (es ++ fs) d.service [])
    (hfeed : d.service.feed = fs.foldl Feed.publish w.feed)
    (hcrews : ∀ c ∈ crews, c ∈ w.crews ∨ Crew.Orderly (es ++ fs) { c with deployment := d }) :
    ({ w with deployment := d, crews } : Station).Tuned capacity (es ++ fs) := by
  have hsame := w.feed.sameListeners_publishAll fs
  refine ⟨hd, fun c hc => ?_, ?_, ?_, ?_, fun name => ?_⟩
  -- who has begun before goes on with the new deployment
  · rcases hcrews c hc with hc | hc
    · exact (h.crews c hc).moved hd
    · exact hc
  · show d.service.feed.Carries _
    rw [hfeed]
    exact h.carries.publishAll fs
  · show d.service.feed.span = _
    rw [hfeed, hsame.span]
    exact h.span
  · show d.service.feed.isClosed = _
    rw [hfeed, hsame.isClosed]
    exact h.isClosed
  · show Option.Rel _ (d.service.feed.subscriptions.get? name) _
    rw [hfeed, hsame.subscriptions]
    exact Subscription.Serves.rel_append (h.served name) fs

/-- Other listeners, to whom the feed is the same. -/
theorem listen {feed : Feed} {listeners : Table Listener} (hcarries : feed.Carries es)
    (hspan : feed.span = w.feed.span) (hclosed : feed.isClosed = w.feed.isClosed)
    (hserved : ∀ name, Option.Rel (Subscription.Serves es) (feed.subscriptions.get? name)
      (listeners.get? name)) :
    ({ w.withFeed feed with listeners } : Station).Tuned capacity es where
  agrees := h.agrees.elsewhere rfl rfl
  crews c hc := (h.crews c hc).moved (h.agrees.elsewhere rfl rfl)
  carries := hcarries
  span := hspan.trans h.span
  isClosed := hclosed.trans h.isClosed
  served := hserved

theorem write (σ : Supply) (cancellation : Cancellation) (request : Request) :
    ∃ fs, (w.step σ (.write cancellation request)).Tuned capacity (es ++ fs) := by
  show ∃ fs, Tuned capacity (es ++ fs)
    { w with deployment := ((w.deployment.perform? σ cancellation request).map (·.2)).getD _ }
  cases hd : w.deployment.perform? σ cancellation request with
  | none => exact ⟨[], by rwa [List.append_nil]⟩
  | some r =>
    obtain ⟨gs, hagrees⟩ := h.agrees.perform? hd
    have hannounces := h.agrees.announces_perform? hd
    rw [h.agrees.eq_append hagrees hannounces] at hagrees
    exact ⟨_, h.announce hagrees hannounces.feed fun c hc => .inl hc⟩

theorem batch (σ : Supply) (cancellation : Cancellation) (requests : List Request) :
    ∃ fs, (w.step σ (.batch cancellation requests)).Tuned capacity (es ++ fs) := by
  show ∃ fs, Tuned capacity (es ++ fs)
    { w with deployment := ((w.deployment.performBatch? σ cancellation requests).map (·.2)).getD _ }
  cases hd : w.deployment.performBatch? σ cancellation requests with
  | none => exact ⟨[], by rwa [List.append_nil]⟩
  | some r =>
    obtain ⟨gs, hagrees⟩ := h.agrees.performBatch? hd
    obtain ⟨fs, -, hannounces⟩ := h.agrees.performAll (σ := σ) cancellation
      (Nat.le_max_left 1 w.deployment.service.settings.concurrency) requests
    have hr : r.2 = (w.deployment.performAll σ cancellation
        (max 1 w.deployment.service.settings.concurrency) requests).2 := by
      unfold Deployment.performBatch? at hd
      split_ifs at hd
      cases hd
      rfl
    rw [← hr] at hannounces
    rw [h.agrees.eq_append hagrees hannounces] at hagrees
    exact ⟨fs, h.announce hagrees hannounces.feed fun c hc => .inl hc⟩

theorem hire (cancellation : Cancellation) (prompt : Bool) (places : Nat)
    (requests : List Request) : ({ w with
      crews := w.crews ++ [.ofRequests w.deployment cancellation prompt places requests] } :
        Station).Tuned capacity es where
  agrees := h.agrees
  crews c hc := by
    rcases List.mem_append.mp hc with hc | hc
    · exact h.crews c hc
    · rw [List.mem_singleton.mp hc]
      exact Crew.orderly_ofRequests h.agrees cancellation prompt places requests
  carries := h.carries
  span := h.span
  isClosed := h.isClosed
  served := h.served

theorem work (σ : Supply) (i : Nat) :
    ∃ fs, (w.step σ (.work i)).Tuned capacity (es ++ fs) := by
  unfold Station.step
  simp only
  split
  · exact ⟨[], by rwa [List.append_nil]⟩
  · next c' hc' =>
    obtain ⟨c, hc, hs⟩ := Option.bind_eq_some_iff.mp hc'
    obtain ⟨fs, horderly, hannounces⟩ := (h.crews c (List.mem_of_getElem? hc)).step hs
    refine ⟨fs, h.announce horderly.agrees hannounces.feed fun x hx => ?_⟩
    rcases List.mem_or_eq_of_mem_set hx with hx | rfl
    · exact .inl hx
    · exact .inr horderly

theorem subscribe (name : String) (kind : EventKind) :
    ({ w.withFeed (w.feed.subscribe name kind) with
      listeners := w.listeners.put name ⟨kind, w.service.log.lastSequence, []⟩ } :
        Station).Tuned capacity es := by
  refine h.listen (fun k => h.carries k) rfl rfl fun name' => ?_
  show Option.Rel _ ((w.feed.subscriptions.put _ _).get? name') _
  rw [Table.get?_put, Table.get?_put]
  split_ifs
  · rw [(h.carries kind).published, h.agrees.records.last]
    exact .some ⟨[], [], .subscribed es kind⟩
  · exact h.served name'

theorem unsubscribe (name : String) :
    ({ w.withFeed (w.feed.unsubscribe name) with listeners := w.listeners.erase name } :
      Station).Tuned capacity es := by
  refine h.listen (fun k => h.carries k) rfl rfl fun name' => ?_
  show Option.Rel _ ((w.feed.subscriptions.erase name).get? name') _
  rw [Table.get?_erase, Table.get?_erase]
  split_ifs
  · exact .none
  · exact h.served name'

theorem read {name : String} {limit : Option Nat} {rs : List Received} {feed : Feed}
    (hr : w.feed.read? name limit = some (rs, feed)) :
    ({ w.withFeed feed with listeners := w.hearing name rs } : Station).Tuned capacity es := by
  obtain ⟨s, hs, -⟩ := Option.map_eq_some_iff.mp hr
  rw [Feed.read?_of_get? hs] at hr
  cases hr
  refine h.listen (fun k => h.carries k) rfl rfl fun name' => ?_
  have hserved := h.served name
  rw [hs] at hserved
  cases hl : w.listeners.get? name with
  | none =>
    rw [hl] at hserved
    cases hserved
  | some l =>
    rw [hl, Option.rel_some_some] at hserved
    obtain ⟨told, left, hserved⟩ := hserved
    obtain ⟨more, rest, -, -, hread⟩ := hserved.read h.carries
      (min (limit.getD (w.feed.unread s)) (w.feed.unread s))
    show Option.Rel _ ((w.feed.subscriptions.put name _).get? name') ((w.hearing name _).get? name')
    rw [hearing, hl]
    simp only [Table.get?_put]
    split_ifs
    · exact .some ⟨told ++ more, rest, hread⟩
    · exact h.served name'

/-- **Every occurrence keeps the station in tune.** -/
theorem step (σ : Supply) (o : Occurrence) :
    ∃ fs, (w.step σ o).Tuned capacity (es ++ fs) := by
  cases o with
  | write cancellation request => exact h.write σ cancellation request
  | batch cancellation requests => exact h.batch σ cancellation requests
  | hire cancellation prompt places requests =>
    exact ⟨[], by rw [List.append_nil]; exact h.hire cancellation prompt places requests⟩
  | work i => exact h.work σ i
  | surround locks now roster sweeper =>
    refine ⟨[], ?_⟩
    rw [List.append_nil]
    have hagrees : Agrees es { w.service with locks } [] := h.agrees.elsewhere rfl rfl
    exact ⟨hagrees, fun c hc => (h.crews c hc).moved hagrees, h.carries, h.span, h.isClosed, h.served⟩
  | subscribe name kind => exact ⟨[], by rw [List.append_nil]; exact h.subscribe name kind⟩
  | unsubscribe name => exact ⟨[], by rw [List.append_nil]; exact h.unsubscribe name⟩
  | read name limit =>
    refine ⟨[], ?_⟩
    rw [List.append_nil]
    unfold Station.step
    simp only
    split
    · exact h
    · next rs feed hr => exact h.read hr

theorem run (σ : Supply) (os : List Occurrence) :
    ∃ fs, (w.run σ os).Tuned capacity (es ++ fs) := by
  induction os generalizing es w with
  | nil => exact ⟨[], by rwa [List.append_nil]⟩
  | cons o os ih =>
    obtain ⟨fs, hstep⟩ := h.step σ o
    obtain ⟨gs, hrest⟩ := ih hstep
    rw [List.append_assoc] at hrest
    exact ⟨fs ++ gs, hrest⟩

theorem recorded_eq : w.recorded = es := h.agrees.records.events

theorem sent_eq (l : Listener) : w.sent l = ofKind l.kind (es.drop l.since) := by
  rw [← h.agrees.records.filter_behind, ofKind, List.filter_filter, Station.sent, h.recorded_eq]
  exact List.filter_congr fun e _ => Bool.decide_and ..

end Station.Tuned

/-! ## What listeners hear -/

/-- **A listener hears what is recorded.** -/
structure Station.Hears (w : Station) (name : String) (l : Listener) : Prop where
  ascending : (w.sent l).Pairwise fun a b => a.sequence < b.sequence
  versions : ∀ id, (trail id (w.sent l)).Pairwise fun a b => a.version < b.version
  /-- What it has read spells out an initial part of what it is sent, and goes on doing so; behind a
  reading that is empty it is all. -/
  reads : ∃ told left, w.sent l = told ++ left ∧ Spells l.heard told ∧
    (∃ feed, w.feed.read? name (some 1) = some ([.next w.feed.span false left], feed)) ∧
    ∀ limit, ∃ rs feed more rest, w.feed.read? name limit = some (rs, feed) ∧
      left = more ++ rest ∧ Spells (l.heard ++ rs) (told ++ more) ∧ (.empty ∈ rs → rest = [])

/-- **A station publishes what is committed**, and nothing else. -/
structure Station.Faithful (σ : Supply) (capacity : Nat) (w : Station) : Prop where
  numbered : ∀ i, (h : i < w.recorded.length) → w.recorded[i].sequence = i + 1
  complete : w.recorded.length = w.service.log.lastSequence
  /-- Every channel has been given the recorded events of its kind, and keeps the latest of them. -/
  channels : ∀ kind, (w.feed.channel kind).Carries w.feed.span (ofKind kind w.recorded)
  /-- It keeps as many as the capacity, rounded up to a power of two. -/
  span : (∃ k, w.feed.span = twoTo k) ∧ max capacity 1 ≤ w.feed.span ∧
    w.feed.span < 2 * max capacity 1
  /-- A single write that succeeds announces its event, and one that fails nothing. -/
  single : ∀ cancellation request outcome d',
    w.deployment.perform? σ cancellation request = some (outcome, d') →
      w.service.Announces outcome.toOption.toList d'.service
  /-- A list of writes announces the events of those that succeed. -/
  several : ∀ cancellation places requests, 1 ≤ places →
    ∃ fs, fs.Perm ((w.deployment.performAll σ cancellation places requests).1.filterMap
        (·.bind Except.toOption)) ∧
      w.service.Announces fs (w.deployment.performAll σ cancellation places requests).2.service
  /-- A crew announces in each step the events of the writes that succeed in it. -/
  crews : ∀ c ∈ w.crews, ∀ c', Crew.step σ { c with deployment := w.deployment } = some c' →
    ∃ fs, Crew.Announces { c with deployment := w.deployment } fs c'
  hears : ∀ name l, w.listeners.get? name = some l → w.Hears name l

namespace Station.Tuned

variable {capacity : Nat} {es : List Event} {w : Station} (h : w.Tuned capacity es)
include h

theorem hears {name : String} {l : Listener} (hl : w.listeners.get? name = some l) :
    w.Hears name l where
  ascending := by
    have hall : es.Pairwise fun a b => a.sequence < b.sequence := by
      rw [List.pairwise_iff_getElem]
      intro i j hi hj hij
      rw [h.agrees.records.sequence i hi, h.agrees.records.sequence j hj]
      omega
    unfold Station.sent
    rw [h.recorded_eq]
    exact hall.filter _
  versions id := by
    unfold Station.sent
    rw [h.recorded_eq]
    exact (h.agrees.agreement.lives id).ascending.sublist (List.filter_sublist.filter _)
  reads := by
    have hserved := h.served name
    rw [hl] at hserved
    cases hs : w.feed.subscriptions.get? name with
    | none =>
      rw [hs] at hserved
      cases hserved
    | some s =>
      rw [hs, Option.rel_some_some] at hserved
      obtain ⟨told, left, hserved⟩ := hserved
      refine ⟨told, left, (h.sent_eq l).trans hserved.sent, hserved.spells, ?_, fun limit => ?_⟩
      · have hone : min 1 (w.feed.unread s) = 1 := Nat.min_eq_left (Nat.le_add_left 1 _)
        refine ⟨_, (Feed.read?_of_get? hs (some 1)).trans (congrArg some (Prod.ext ?_ rfl))⟩
        show (w.feed.receiveUpTo (min 1 (w.feed.unread s)) s).1 = _
        rw [hone, Feed.receiveUpTo_one, hserved.receive h.carries, h.isClosed]
      · obtain ⟨more, rest, hleft, hwhole, hmore⟩ := hserved.read h.carries
          (min (limit.getD (w.feed.unread s)) (w.feed.unread s))
        exact ⟨_, _, more, rest, Feed.read?_of_get? hs limit, hleft, hmore.spells, hwhole⟩

theorem faithful (σ : Supply) : w.Faithful σ capacity where
  numbered := by
    rw [h.recorded_eq]
    exact h.agrees.records.sequence
  complete := by
    rw [h.recorded_eq]
    exact h.agrees.records.last.symm
  channels kind := by
    rw [h.recorded_eq]
    exact h.carries kind
  span := by
    rw [h.span]
    exact Feed.roundUp_spec (Nat.le_max_right capacity 1)
  single _ _ _ _ hd := h.agrees.announces_perform? hd
  several cancellation _ requests hplaces := h.agrees.performAll cancellation hplaces requests
  crews c hc c' hs := by
    obtain ⟨fs, -, hannounces⟩ := (h.crews c hc).step hs
    exact ⟨fs, hannounces⟩
  hears _ _ hl := h.hears hl

end Station.Tuned

/-- **What is published is what was committed.**  Whatever is written, in single writes, in batches
and by crews whose writes wait for each other, and whoever subscribes and reads meanwhile: the feed
has been given the recorded events and no others, and every listener hears those of its kind that
were recorded after it had subscribed. -/
theorem Station.faithful_run (σ : Supply) (settings : WriteSettings) (capacity : Nat)
    (os : List Occurrence) : ((fresh settings capacity).run σ os).Faithful σ capacity := by
  obtain ⟨es, htuned⟩ := (tuned_fresh settings capacity).run σ os
  exact htuned.faithful σ

end CatalogChain

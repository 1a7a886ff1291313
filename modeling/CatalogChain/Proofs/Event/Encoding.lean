import CatalogChain.Event.Page
import CatalogChain.Proofs.Event.Tampering
import CatalogChain.Proofs.Product.Encoding

/-!
# Events survive encoding

An event reads back from the value that its encoder writes (`Event.read_toJson`), with the amounts
of its snapshot as they are read and the values of its changes as they are kept: the members of
their objects are in order.  What is asked of the event (`Event.Bounded`) are numbers of 64 bits,
and of the values of its changes a bounded depth and no number with a fraction
(`FieldChange.Within`).

An event that has been read itself meets this up to the numbers with a fraction, and its values are
in order (`Event.bounded_read`).  For the depth it matters that a payload is only read if all of it
has a value of bounded depth, so that the values of changes, which stand three levels deep in it,
have three levels less.
-/

namespace CatalogChain

open Outline

/-! ## Changes -/

namespace FieldChange

/-- The values of a change. -/
def values (c : FieldChange) : List Json := c.oldValue.toList ++ [c.newValue]

/-- A change with the members of all objects in its values in order. -/
def sorted (c : FieldChange) : FieldChange :=
  { c with oldValue := c.oldValue.map Json.sorted, newValue := c.newValue.sorted }

/-- **The same change** up to the order of members in its values. -/
def Same (c c' : FieldChange) : Prop :=
  c.name = c'.name ∧ List.Forall₂ Json.Same c.values c'.values

/-- **A change without numbers that have a fraction** or an exponent. -/
def FloatFree (c : FieldChange) : Prop := ∀ v ∈ c.values, ∀ n ∈ v.numbers, n.isInteger = true

/-- **A change within bounds.**  An old value that is missing is not `null`. -/
structure Within (d : Nat) (c : FieldChange) : Prop where
  present : c.oldValue ≠ some .null
  values : ∀ v ∈ c.values, v.Within d

/-- **A change as it is taken from an outline.** -/
structure Taken (d : Nat) (c : FieldChange) : Prop where
  present : c.oldValue ≠ some .null
  values : ∀ v ∈ c.values, ∃ ns : List Number, (∀ n ∈ ns, n.InRange) ∧ Outline.Taken d ns v

theorem Within.mono {d e : Nat} {c : FieldChange} (h : c.Within d) (hle : d ≤ e) : c.Within e :=
  ⟨h.present, fun v hv => (h.values v hv).mono hle⟩

theorem Taken.within {d : Nat} {c : FieldChange} (h : c.Taken d) (hfree : c.FloatFree) :
    c.Within d where
  present := h.present
  values v hv := by
    obtain ⟨ns, hns, htaken⟩ := h.values v hv
    exact ⟨htaken.depth, fun n hn => ⟨hfree v hv n hn, hns n (htaken.numbers hn)⟩⟩

theorem Taken.sorted_eq {d : Nat} {c : FieldChange} (h : c.Taken d) : c.sorted = c := by
  have hvalues : ∀ v ∈ c.values, v.sorted = v := fun v hv => by
    obtain ⟨ns, -, htaken⟩ := h.values v hv
    exact htaken.sorted
  obtain ⟨name, oldValue, newValue⟩ := c
  have hnew : newValue.sorted = newValue := hvalues newValue (by simp [FieldChange.values])
  have hold : oldValue.map Json.sorted = oldValue := by
    cases oldValue with
    | none => rfl
    | some v => rw [Option.map_some, hvalues v (by simp [FieldChange.values])]
  rw [sorted, hnew, hold]

/-- **A change stays the same** when its values are put in order. -/
theorem same_sorted {c : FieldChange} (h : ∀ v ∈ c.values, v.Distinct) : c.Same c.sorted := by
  obtain ⟨name, oldValue, newValue⟩ := c
  have hnew : Json.Same newValue newValue.sorted :=
    Json.same_sorted newValue (h newValue (by simp [values]))
  refine ⟨rfl, ?_⟩
  cases oldValue with
  | none => exact .cons hnew .nil
  | some v => exact .cons (Json.same_sorted v (h v (by simp [values]))) (.cons hnew .nil)

/-- **A change reads back** with its values in order. -/
theorem read_toJson {d : Nat} {c : FieldChange} (h : c.Within d) :
    read d (ofJson c.toJson) = .ok c.sorted := by
  obtain ⟨name, oldValue, newValue⟩ := c
  have hnew : Outline.toJson d (ofJson newValue) = .ok newValue.sorted :=
    toJson_ofJson newValue (h.values newValue (by simp [FieldChange.values])).depth
  have hold : ∀ v ∈ oldValue, Outline.toJson d (ofJson v) = .ok v.sorted := fun v hv =>
    toJson_ofJson v (h.values v (by simpa [FieldChange.values] using .inl hv)).depth
  have hnull : ∀ v ∈ oldValue, v ≠ .null := by
    rintro v hv rfl
    exact h.present hv
  refine readRecord_object ?_ ?_ ?_
  · cases oldValue <;> simp [names, Json.member?]
  · cases oldValue <;> simp [Entries.keys, Json.member?]
  refine Fields.seq_eq_ok ?_ (field_given ?_ hnew)
  · refine Fields.seq_eq_ok ?_ (field?_option (fun v => v) ?_ hnull hold)
    · exact Fields.map_eq_ok _ (field_given rfl (readText_string name))
    · cases oldValue <;> rfl
  · cases oldValue <;> rfl

/-- What a change has been read from bounds its values. -/
theorem taken_read {d e : Nat} {o : Outline} {c : FieldChange} (h : read e o = .ok c)
    (hnumbers : ∀ n ∈ o.numbers, n.InRange)
    (hdepth : ∀ p ∈ o.parts, ∀ v, Outline.toJson e p = .ok v → v.depth ≤ d) : c.Taken d := by
  obtain ⟨r, hr, hfields⟩ := readRecord_eq_ok h
  obtain ⟨_, newValue, rfl, hfields, hnew⟩ := Fields.of_seq_eq_ok hfields
  obtain ⟨_, oldValue, rfl, hfields, hold⟩ := Fields.of_seq_eq_ok hfields
  obtain ⟨name, rfl, -⟩ := Fields.of_map_eq_ok hfields
  have htaken : ∀ p ∈ o.parts, ∀ v, Outline.toJson e p = .ok v →
      ∃ ns : List Number, (∀ n ∈ ns, n.InRange) ∧ Outline.Taken d ns v := by
    intro p hp v hv
    have hsub := toJson_taken hv
    refine ⟨p.numbers, fun n hn => hnumbers n (numbers_subset_of_mem_parts hp hn), ?_⟩
    exact ⟨hdepth p hp v hv, hsub.sorted, hsub.numbers⟩
  obtain ⟨q, hq, hnew⟩ := field_eq_ok hr hnew
  rcases field?_eq_ok hr hold with rfl | ⟨p, hp, hnull, v, rfl, hv⟩
  · refine ⟨by simp, ?_⟩
    simpa [FieldChange.values] using htaken q hq newValue hnew
  · refine ⟨fun heq => ?_, ?_⟩
    · cases heq
      exact hnull (eq_null_of_toJson hv)
    · simpa [FieldChange.values] using ⟨htaken p hp v hv, htaken q hq newValue hnew⟩

/-- A change is written as a value that reads back. -/
theorem within_toJson {d : Nat} {c : FieldChange} (h : c.Within d) : c.toJson.Within (d + 1) := by
  obtain ⟨name, oldValue, newValue⟩ := c
  have hnew := h.values newValue (by simp [FieldChange.values])
  refine Json.within_object ?_
  cases oldValue with
  | none =>
    simp only [Json.member?, Option.toList_none, List.map_nil, List.cons_append, List.nil_append,
      List.forall_mem_cons]
    exact ⟨Json.within_string d name, hnew, by simp⟩
  | some v =>
    simp only [Json.member?, Option.toList_some, List.map_cons, List.map_nil, List.cons_append,
      List.nil_append, List.forall_mem_cons]
    exact ⟨Json.within_string d name, h.values v (by simp [FieldChange.values]), hnew, by simp⟩

end FieldChange

/-! ## Payloads -/

namespace Payload

/-- **A payload within bounds**, whose changes have a property. -/
structure Bounded (P : FieldChange → Prop) (p : Payload) : Prop where
  snapshot : p.snapshot.InRange
  changes : ∀ c ∈ p.changes, P c

theorem Bounded.imp {P Q : FieldChange → Prop} {p : Payload} (h : p.Bounded P)
    (himp : ∀ c ∈ p.changes, P c → Q c) : p.Bounded Q :=
  ⟨h.snapshot, fun c hc => himp c hc (h.changes c hc)⟩

/-- A payload as it is read: amounts of zero have no sign. -/
def plain (p : Payload) : Payload := p.withSnapshot p.snapshot.plain

/-- A payload with the values of its changes in order. -/
def sorted : Payload → Payload
  | updated s h cs => updated s h (cs.map FieldChange.sorted)
  | p => p

theorem sorted_eq {d : Nat} {p : Payload} (h : p.Bounded (FieldChange.Taken d)) :
    p.sorted = p := by
  cases p with
  | updated s previous cs =>
    have hcs : cs.map FieldChange.sorted = cs :=
      (List.map_congr_left fun c hc => (h.changes c hc).sorted_eq).trans cs.map_id
    rw [sorted, hcs]
  | created s => rfl
  | deleted s previous => rfl

/-- The members of a payload behind its action. -/
def members : Payload → List (String × Json)
  | created s => [("snapshot", s.toJson)]
  | updated s h cs =>
    [("snapshot", s.toJson), ("prev_hash", .string h), ("changes", .list FieldChange.toJson cs)]
  | deleted s h => [("snapshot", s.toJson), ("prev_hash", .string h)]

theorem toJson_eq (p : Payload) :
    p.toJson = .object (("action", .string p.kind.action) :: p.members) := by
  cases p <;> rfl

theorem within_members {d : Nat} {p : Payload} (hd : 3 ≤ d)
    (h : p.Bounded (FieldChange.Within d)) : ∀ m ∈ p.members, m.2.Within (d + 2) := by
  have hsnapshot : p.snapshot.toJson.Within (d + 2) :=
    (Product.within_toJson h.snapshot).mono (by omega)
  cases p with
  | created s => exact List.forall_mem_singleton.mpr hsnapshot
  | updated s previous cs =>
    have hchanges : (Json.list FieldChange.toJson cs).Within (d + 2) :=
      Json.within_list fun c hc => FieldChange.within_toJson (h.changes c hc)
    simpa [members] using ⟨hsnapshot, Json.within_string _ previous, hchanges⟩
  | deleted s previous =>
    simpa [members] using ⟨hsnapshot, Json.within_string _ previous⟩

theorem within_toJson {d : Nat} {p : Payload} (hd : 3 ≤ d)
    (h : p.Bounded (FieldChange.Within d)) : p.toJson.Within (d + 3) := by
  rw [toJson_eq]
  refine Json.within_object ?_
  rw [List.forall_mem_cons]
  exact ⟨Json.within_string _ _, within_members hd h⟩

/-- The fields of a payload read back. -/
theorem readAs_members {d : Nat} {p : Payload} (h : p.Bounded (FieldChange.Within d)) :
    readAs d p.kind (ofJson (.object p.members)) = .ok p.sorted.plain := by
  have hsnapshot := Product.read_toJson h.snapshot
  cases p with
  | created s =>
    simp only [kind, readAs]
    refine readRecord_object (by simp [members]) (by simp [members, Entries.keys]) ?_
    exact Fields.map_eq_ok _ (field_given rfl hsnapshot)
  | updated s previous cs =>
    have hchanges : readList (FieldChange.read d) (ofJson (.list FieldChange.toJson cs)) =
        .ok (cs.map FieldChange.sorted) :=
      readList_list fun c hc => FieldChange.read_toJson (h.changes c hc)
    simp only [kind, readAs]
    refine readRecord_object (by simp [members]) (by simp [members, Entries.keys]) ?_
    refine Fields.seq_eq_ok ?_ (field_given rfl hchanges)
    refine Fields.seq_eq_ok ?_ (field_given rfl (readText_string previous))
    exact Fields.map_eq_ok _ (field_given rfl hsnapshot)
  | deleted s previous =>
    simp only [kind, readAs]
    refine readRecord_object (by simp [members]) (by simp [members, Entries.keys]) ?_
    refine Fields.seq_eq_ok ?_ (field_given rfl (readText_string previous))
    exact Fields.map_eq_ok _ (field_given rfl hsnapshot)

theorem ne_action_of_mem_members {p : Payload} :
    ∀ m ∈ ofMembers p.members, m.1 ≠ some "action" := by
  cases p <;> simp [members, ofMembers]

theorem readAction_action (k : EventKind) : readAction (ofJson (.string k.action)) = .ok k := by
  cases k <;> rfl

/-- **A payload reads back**, the variant from its action. -/
theorem read_toJson {d : Nat} {p : Payload} (hd : 3 ≤ d) (h : p.Bounded (FieldChange.Within d)) :
    read (d + 3) (ofJson p.toJson) = .ok p.sorted.plain := by
  have hfields := readAs_members (h.imp fun c _ hc => hc.mono (Nat.le_add_right d 3))
  have hvalue := toJson_ofJson (.object p.members) (Json.within_object (within_members hd h)).depth
  have htags : (ofMembers p.members).filter (fun m => decide (m.1 = some "action")) = [] := by
    simpa using ne_action_of_mem_members
  have hothers : (ofMembers p.members).filter (fun m => decide (m.1 ≠ some "action")) =
      ofMembers p.members := by
    simpa using ne_action_of_mem_members
  rw [toJson_eq, ofJson, ofMembers, read]
  simp only [List.filter_cons, decide_true, if_true, htags, hothers, ne_eq, not_true, decide_false,
    Bool.false_eq_true, if_false]
  rw [ofJson] at hvalue hfields
  rw [readAction_action]
  simp only [bind, Except.bind, hvalue, hfields]

/-! ### What has been read -/

theorem mem_memberNumbers_filter {keep : Option String × Outline → Bool}
    {ms : List (Option String × Outline)} : memberNumbers (ms.filter keep) ⊆ memberNumbers ms := by
  induction ms with
  | nil => exact List.Subset.refl _
  | cons m ms ih =>
    rw [List.filter_cons]
    split_ifs
    · exact List.append_subset.mpr ⟨List.subset_append_left _ _,
        List.subset_append_of_subset_right _ ih⟩
    · exact List.subset_append_of_subset_right _ ih

/-- A payload is read from an outline that has a value as a whole. -/
theorem read_eq_ok {d : Nat} {o : Outline} {p : Payload} (h : read d o = .ok p) :
    ∃ kind fields, Fits d fields ∧ fields.numbers ⊆ o.numbers ∧ readAs d kind fields = .ok p := by
  unfold read at h
  split at h
  · next members closed =>
    simp only at h
    split at h
    · next tag _ =>
      simp only [bind, Except.bind] at h
      split at h
      · cases h
      · next kind _ =>
        split at h
        · cases h
        · next v hv => exact ⟨kind, _, ⟨v, hv⟩, mem_memberNumbers_filter, h⟩
    · split_ifs at h
  · next tag items closed =>
    simp only [bind, Except.bind] at h
    split at h
    · cases h
    · next kind _ =>
      split at h
      · cases h
      · next v hv => exact ⟨kind, _, ⟨v, hv⟩, List.subset_append_right _ _, h⟩
  · cases h
  · cases h

/-- The fields of a payload that has a value as a whole bound its changes. -/
theorem bounded_readAs {d : Nat} {kind : EventKind} {o : Outline} {p : Payload}
    (h : readAs (d + 3) kind o = .ok p) (hfits : Fits (d + 3) o)
    (hnumbers : ∀ n ∈ o.numbers, n.InRange) : p.Bounded (FieldChange.Taken d) := by
  cases kind with
  | created =>
    obtain ⟨r, hr, hfields⟩ := readRecord_eq_ok h
    obtain ⟨s, rfl, hs⟩ := Fields.of_map_eq_ok hfields
    obtain ⟨q, -, hread⟩ := field_eq_ok hr hs
    exact ⟨Product.inRange_read hread, fun c hc => by cases hc⟩
  | updated =>
    obtain ⟨r, hr, hfields⟩ := readRecord_eq_ok h
    obtain ⟨_, cs, rfl, hfields, hcs⟩ := Fields.of_seq_eq_ok hfields
    obtain ⟨_, previous, rfl, hfields, -⟩ := Fields.of_seq_eq_ok hfields
    obtain ⟨s, rfl, hs⟩ := Fields.of_map_eq_ok hfields
    obtain ⟨q, -, hread⟩ := field_eq_ok hr hs
    refine ⟨Product.inRange_read hread, fun c hc => ?_⟩
    -- the list of changes, the change and its values stand one level deeper each
    obtain ⟨list, hlist, hcs⟩ := field_eq_ok hr hcs
    obtain ⟨change, hchange, hc⟩ := readList_eq_ok hcs c hc
    have hfits := (hfits.part hlist).part hchange
    refine FieldChange.taken_read hc (fun n hn => hnumbers n ?_) fun v hv w hw => ?_
    · exact numbers_subset_of_mem_parts hlist (numbers_subset_of_mem_parts hchange hn)
    · exact (hfits.part hv).depth_le (by omega) hw
  | deleted =>
    obtain ⟨r, hr, hfields⟩ := readRecord_eq_ok h
    obtain ⟨_, previous, rfl, hfields, -⟩ := Fields.of_seq_eq_ok hfields
    obtain ⟨s, rfl, hs⟩ := Fields.of_map_eq_ok hfields
    obtain ⟨q, -, hread⟩ := field_eq_ok hr hs
    exact ⟨Product.inRange_read hread, fun c hc => by cases hc⟩

/-- **A payload that has been read is within bounds.** -/
theorem bounded_read {d : Nat} {o : Outline} {p : Payload} (h : read (d + 3) o = .ok p)
    (hnumbers : ∀ n ∈ o.numbers, n.InRange) : p.Bounded (FieldChange.Taken d) := by
  obtain ⟨kind, fields, hfits, hsub, hfields⟩ := read_eq_ok h
  exact bounded_readAs hfields hfits fun n hn => hnumbers n (hsub hn)

end Payload

/-! ## Events -/

namespace Event

/-- **An event within bounds**: its version and its sequence number have 64 bits. -/
structure Bounded (P : FieldChange → Prop) (e : Event) : Prop where
  version : IsInt64 e.version
  sequence : IsLength e.sequence
  payload : e.payload.Bounded P

theorem Bounded.imp {P Q : FieldChange → Prop} {e : Event} (h : e.Bounded P)
    (himp : ∀ c ∈ e.payload.changes, P c → Q c) : e.Bounded Q :=
  ⟨h.version, h.sequence, h.payload.imp himp⟩

/-- An event as it is read: amounts of zero have no sign. -/
def plain (e : Event) : Event := { e with payload := e.payload.plain }

/-- An event with the values of its changes in order. -/
def sorted (e : Event) : Event := { e with payload := e.payload.sorted }

theorem sorted_eq {d : Nat} {e : Event} (h : e.Bounded (FieldChange.Taken d)) : e.sorted = e := by
  rw [sorted, Payload.sorted_eq h.payload]

theorem readId_text (u : Uuid) : readId (ofJson (.string u.text)) = .ok u := by
  rw [ofJson, readId, Uuid.read?_text]
  rfl

/-- **An event reads back.** -/
theorem read_toJson {d : Nat} {e : Event} (hd : 3 ≤ d) (h : e.Bounded (FieldChange.Within d)) :
    read (d + 4) (ofJson e.toJson) = .ok e.sorted.plain := by
  refine readRecord_object (by simp [names]) (by simp [Entries.keys]) ?_
  refine Fields.seq_eq_ok ?_ (field_given rfl (Payload.read_toJson hd h.payload))
  refine Fields.seq_eq_ok ?_ (field_given rfl e.timestamp.read_toJson)
  refine Fields.seq_eq_ok ?_ (field_given rfl (readNat64_nat h.sequence))
  refine Fields.seq_eq_ok ?_ (field_given rfl (readInt64_int h.version))
  refine Fields.seq_eq_ok ?_ (field_given rfl (readText_string e.entityId))
  exact Fields.map_eq_ok _ (field_given rfl (readId_text e.id))

/-- **An event that has been read is within bounds.** -/
theorem bounded_read {d : Nat} {o : Outline} {e : Event} (h : read (d + 4) o = .ok e)
    (hnumbers : ∀ n ∈ o.numbers, n.InRange) : e.Bounded (FieldChange.Taken d) := by
  obtain ⟨r, hr, hfields⟩ := readRecord_eq_ok h
  obtain ⟨_, payload, rfl, hfields, hpayload⟩ := Fields.of_seq_eq_ok hfields
  obtain ⟨_, timestamp, rfl, hfields, -⟩ := Fields.of_seq_eq_ok hfields
  obtain ⟨_, sequence, rfl, hfields, hsequence⟩ := Fields.of_seq_eq_ok hfields
  obtain ⟨_, version, rfl, hfields, hversion⟩ := Fields.of_seq_eq_ok hfields
  obtain ⟨_, entity, rfl, hfields, -⟩ := Fields.of_seq_eq_ok hfields
  obtain ⟨id, rfl, -⟩ := Fields.of_map_eq_ok hfields
  obtain ⟨v, -, hversion⟩ := field_eq_ok hr hversion
  obtain ⟨s, -, hsequence⟩ := field_eq_ok hr hsequence
  obtain ⟨p, hp, hpayload⟩ := field_eq_ok hr hpayload
  refine ⟨isInt64_of_readInt64 hversion, isLength_of_readNat64 hsequence, ?_⟩
  exact Payload.bounded_read hpayload fun n hn => hnumbers n (numbers_subset_of_mem_parts hp hn)

/-- An event is written as a value that reads back. -/
theorem within_toJson {d : Nat} {e : Event} (hd : 3 ≤ d) (h : e.Bounded (FieldChange.Within d)) :
    e.toJson.Within (d + 4) := by
  refine Json.within_object ?_
  simp only [List.forall_mem_cons]
  exact ⟨Json.within_string _ _, Json.within_string _ _, Json.within_int _ h.version,
    Json.within_nat _ h.sequence, Json.within_string _ _, Payload.within_toJson hd h.payload,
    by simp⟩

end Event

/-! ## Pages -/

namespace EventPage

/-- **A page within bounds.** -/
structure Bounded (P : FieldChange → Prop) (p : EventPage) : Prop where
  events : ∀ e ∈ p.events, e.Bounded P
  last : ∀ n ∈ p.lastSequence, IsLength n

theorem Bounded.imp {P Q : FieldChange → Prop} {p : EventPage} (h : p.Bounded P)
    (himp : ∀ e ∈ p.events, ∀ c ∈ e.payload.changes, P c → Q c) : p.Bounded Q :=
  ⟨fun e he => (h.events e he).imp (himp e he), h.last⟩

/-- A page as it is read: amounts of zero have no sign. -/
def plain (p : EventPage) : EventPage := { p with events := p.events.map Event.plain }

/-- A page with the values of all changes in order. -/
def sorted (p : EventPage) : EventPage := { p with events := p.events.map Event.sorted }

theorem sorted_eq {d : Nat} {p : EventPage} (h : p.Bounded (FieldChange.Taken d)) :
    p.sorted = p := by
  have hevents : p.events.map Event.sorted = p.events :=
    (List.map_congr_left fun e he => Event.sorted_eq (h.events e he)).trans p.events.map_id
  rw [sorted, hevents]

/-- **A page reads back.** -/
theorem read_toJson {d : Nat} {p : EventPage} (hd : 3 ≤ d)
    (h : p.Bounded (FieldChange.Within d)) :
    read (d + 6) (ofJson p.toJson) = .ok p.sorted.plain := by
  obtain ⟨events, last⟩ := p
  have hevents : readList (Event.read (d + 4)) (ofJson (.list Event.toJson events)) =
      .ok ((events.map Event.sorted).map Event.plain) := by
    rw [List.map_map]
    exact readList_list fun e he => Event.read_toJson hd (h.events e he)
  refine readRecord_object (by simp [names]) (by simp [Entries.keys]) ?_
  refine Fields.seq_eq_ok (Fields.map_eq_ok _ (field_given rfl hevents)) ?_
  cases last with
  | none => rfl
  | some n =>
    exact field?_given rfl (by simp [Json.option, Json.nat]) (readNat64_nat (h.last n rfl))

/-- **A page that has been read is within bounds.** -/
theorem bounded_read {d : Nat} {o : Outline} {p : EventPage} (h : read (d + 6) o = .ok p)
    (hnumbers : ∀ n ∈ o.numbers, n.InRange) : p.Bounded (FieldChange.Taken d) := by
  obtain ⟨r, hr, hfields⟩ := readRecord_eq_ok h
  obtain ⟨_, last, rfl, hfields, hlast⟩ := Fields.of_seq_eq_ok hfields
  obtain ⟨events, rfl, hevents⟩ := Fields.of_map_eq_ok hfields
  obtain ⟨list, hlist, hevents⟩ := field_eq_ok hr hevents
  refine ⟨fun e he => ?_, fun n hn => ?_⟩
  · obtain ⟨q, hq, he⟩ := readList_eq_ok hevents e he
    refine Event.bounded_read he fun n hn => hnumbers n ?_
    exact numbers_subset_of_mem_parts hlist (numbers_subset_of_mem_parts hq hn)
  · rcases field?_eq_ok hr hlast with rfl | ⟨q, -, -, m, rfl, hm⟩
    · cases hn
    · cases hn
      exact isLength_of_readNat64 hm

/-- A page is written as a value that reads back. -/
theorem within_toJson {d : Nat} {p : EventPage} (hd : 3 ≤ d)
    (h : p.Bounded (FieldChange.Within d)) : p.toJson.Within (d + 6) := by
  have hevents : (Json.list Event.toJson p.events).Within (d + 5) :=
    Json.within_list fun e he => Event.within_toJson hd (h.events e he)
  have hlast : (Json.option .nat p.lastSequence).Within (d + 5) := by
    cases hp : p.lastSequence with
    | none => exact Json.within_null _
    | some n => exact Json.within_nat _ (h.last n hp)
  refine Json.within_object ?_
  simp only [List.forall_mem_cons]
  exact ⟨hevents, hlast, by simp⟩

end EventPage

/-! ## Codecs -/

/-- The codec of a change that stands alone. -/
def FieldChange.codec : Codec FieldChange := ⟨read (maxDepth - 1), toJson⟩

def Payload.codec : Codec Payload := ⟨read maxDepth, toJson⟩

def Event.codec : Codec Event := ⟨read maxDepth, toJson⟩

def EventPage.codec : Codec EventPage := ⟨read maxDepth, toJson⟩

theorem FieldChange.returns {c : FieldChange} (h : c.Within 126) : codec.Returns c c.sorted :=
  Codec.returns_of_read (within_toJson h).integral (read_toJson h)

theorem Payload.returns {p : Payload} (h : p.Bounded (FieldChange.Within 124)) :
    codec.Returns p p.sorted.plain :=
  Codec.returns_of_read (within_toJson (by decide) h).integral (read_toJson (by decide) h)

theorem Event.returns {e : Event} (h : e.Bounded (FieldChange.Within 123)) :
    codec.Returns e e.sorted.plain :=
  Codec.returns_of_read (within_toJson (by decide) h).integral (read_toJson (by decide) h)

theorem EventPage.returns {p : EventPage} (h : p.Bounded (FieldChange.Within 121)) :
    codec.Returns p p.sorted.plain :=
  Codec.returns_of_read (within_toJson (by decide) h).integral (read_toJson (by decide) h)

end CatalogChain

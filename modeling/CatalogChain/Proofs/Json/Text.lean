import CatalogChain.Proofs.Json.Scalars
import CatalogChain.Proofs.Json.Values

/-!
# Written JSON reads back

The reader finds in the text of a value the outline of that value, and nothing is left of the text
(`Outline.readWhole?_text`), if all numbers in it are integers that fit into 64 bits
(`Json.Integral`).  Scalars read back in front of whatever follows a value, and arrays and objects
end at their brackets, by recursion on the fuel: reading a value takes no more of it than twice the
length of its text.

What is read from any text has only integers that fit into 64 bits
(`Outline.inRange_of_readWhole?`).
-/

namespace CatalogChain

/-- **A value whose numbers are integers of 64 bits.** -/
def Json.Integral (v : Json) : Prop := ∀ n ∈ v.numbers, n.isInteger = true ∧ n.InRange

namespace Outline

/-! ## Values -/

theorem skipSpace_cons {c : Char} (h : isSpace c = false) (cs : List Char) :
    skipSpace (c :: cs) = c :: cs := by
  rw [skipSpace, List.dropWhile_cons, h]
  rfl

/-- An integer begins with a digit or a minus sign. -/
theorem ofInt_eq_cons (n : Int) : ∃ c cs, (Text.ofInt n).toList = c :: cs ∧
    (c.isDigit = true ∨ c = '-') := by
  cases n with
  | ofNat n =>
    obtain ⟨c, cs, hcs, hd, -⟩ := Decimal.toDigits_eq_cons n
    refine ⟨c, cs, ?_, .inl (hd c List.mem_cons_self)⟩
    rw [Text.ofInt, Text.ofNat, String.toList_ofList, hcs]
  | negSucc n => exact ⟨'-', _, by rw [Text.ofInt, String.toList_append]; rfl, .inr rfl⟩

/-- The characters that no number begins with: spaces, brackets, quotes and words. -/
def beginnings : List Char := [' ', '\n', '\t', '\r', '"', '[', ']', '\x7b', 'n', 't', 'f']

theorem not_mem_beginnings {c : Char} (h : c.isDigit = true ∨ c = '-') : c ∉ beginnings := by
  have hnone : ∀ x ∈ beginnings, ¬(x.isDigit = true ∨ x = '-') := by simp [beginnings]
  exact fun hmem => hnone c hmem h

theorem isSpace_eq_false {c : Char} (h : c ∉ beginnings) : isSpace c = false := by
  simp only [beginnings, List.mem_cons, List.not_mem_nil, or_false, not_or] at h
  simp [isSpace, h]

/-- The text of a value begins neither with a space nor with a closing bracket. -/
theorem text_eq_cons {v : Json} (h : v.Integral) :
    ∃ c cs, v.text.toList = c :: cs ∧ isSpace c = false ∧ c ≠ ']' := by
  cases v with
  | null => exact ⟨'n', _, rfl, by decide, by decide⟩
  | bool b =>
    cases b
    · exact ⟨'f', _, rfl, by decide, by decide⟩
    · exact ⟨'t', _, rfl, by decide, by decide⟩
  | number n =>
    cases n with
    | integer n =>
      obtain ⟨c, cs, hcs, hc⟩ := ofInt_eq_cons n
      have hout := not_mem_beginnings hc
      refine ⟨c, cs, hcs, isSpace_eq_false hout, ?_⟩
      rintro rfl
      exact hout (by decide)
    | float x => cases (h _ List.mem_cons_self).1
  | string s => exact ⟨'"', _, toList_quoted s, by decide, by decide⟩
  | array items => exact ⟨'[', _, by simp [Json.text]; rfl, by decide, by decide⟩
  | object members => exact ⟨'\x7b', _, by simp [Json.text]; rfl, by decide, by decide⟩

theorem readValue_number {fuel : Nat} {n : Int} (hn : (Number.integer n).InRange) {cs : List Char}
    (h : Ends cs) : readValue (fuel + 1) ((Text.ofInt n).toList ++ cs) =
      (number (some (.integer n)), some cs) := by
  have hread := readNumber_ofInt hn h
  obtain ⟨c, ds, hds, hc⟩ := ofInt_eq_cons n
  have hout := not_mem_beginnings hc
  rw [hds, List.cons_append] at hread ⊢
  rw [readValue, skipSpace_cons (isSpace_eq_false hout)]
  have hne : ∀ x ∈ beginnings, c ≠ x := fun x hx heq => hout (heq ▸ hx)
  split
  · next heq => exact absurd (List.cons.inj heq).1 (hne 'n' (by decide))
  · next heq => exact absurd (List.cons.inj heq).1 (hne 't' (by decide))
  · next heq => exact absurd (List.cons.inj heq).1 (hne 'f' (by decide))
  · next heq => exact absurd (List.cons.inj heq).1 (hne '"' (by decide))
  · next heq => exact absurd (List.cons.inj heq).1 (hne '[' (by decide))
  · next heq => exact absurd (List.cons.inj heq).1 (hne '\x7b' (by decide))
  · rw [hread]

/-! ## Arrays and objects -/

/-- The texts of some values with commas between them. -/
def joined (texts : List String) : List Char := (",".intercalate texts).toList

theorem joined_singleton (t : String) : joined [t] = t.toList := by
  simp [joined]

theorem joined_cons_cons (t u : String) (ts : List String) :
    joined (t :: u :: ts) = t.toList ++ ',' :: joined (u :: ts) := by
  simp [joined, String.toList_intercalate]

theorem toList_array (items : List Json) :
    (Json.array items).text.toList = '[' :: (joined (Json.texts items) ++ [']']) := by
  simp [Json.text, joined]

theorem toList_object (members : List (String × Json)) :
    (Json.object members).text.toList =
      '\x7b' :: (joined (Json.memberTexts members) ++ ['\x7d']) := by
  simp [Json.text, joined]

theorem ends_cons {c : Char} (h : c = ',' ∨ c = ']' ∨ c = '\x7d') (cs : List Char) :
    Ends (c :: cs) := by
  intro x hx
  cases hx
  exact h

theorem readKey?_quoted (s : String) (cs : List Char) :
    readKey? ((Json.quoted s).toList ++ ':' :: cs) = some (some s, some cs) := by
  rw [toList_quoted, List.cons_append, List.append_assoc, List.singleton_append, readKey?,
    readString_quoted]
  simp only [skipSpace_cons (by decide : isSpace ':' = false)]

theorem toList_member (k : String) (v : Json) :
    (Json.quoted k ++ ":" ++ v.text).toList = (Json.quoted k).toList ++ ':' :: v.text.toList := by
  simp

theorem skipSpace_quoted (s : String) (cs : List Char) :
    skipSpace ((Json.quoted s).toList ++ cs) = (Json.quoted s).toList ++ cs := by
  rw [toList_quoted]
  exact skipSpace_cons (by decide) _

theorem joined_texts_eq_cons {v : Json} (vs : List Json) (h : v.Integral) :
    ∃ c cs, joined (Json.texts (v :: vs)) = c :: cs ∧ isSpace c = false ∧ c ≠ ']' := by
  obtain ⟨c, ds, hds, hc⟩ := text_eq_cons h
  cases vs with
  | nil =>
    rw [Json.texts, Json.texts, joined_singleton]
    exact ⟨c, ds, hds, hc⟩
  | cons w ws =>
    rw [Json.texts, Json.texts, joined_cons_cons, hds]
    exact ⟨c, _, rfl, hc⟩

theorem joined_memberTexts_eq_cons (m : String × Json) (ms : List (String × Json)) :
    ∃ cs, joined (Json.memberTexts (m :: ms)) = '"' :: cs := by
  cases ms with
  | nil =>
    rw [Json.memberTexts, Json.memberTexts, joined_singleton, toList_member, toList_quoted]
    exact ⟨_, rfl⟩
  | cons m' ms =>
    rw [Json.memberTexts, Json.memberTexts, joined_cons_cons, toList_member, toList_quoted]
    exact ⟨_, rfl⟩

/-- The items of an array begin behind the opening bracket. -/
theorem readValue_array {fuel : Nat} {c : Char} {cs rest : List Char} {items : List Outline}
    (hspace : isSpace c = false) (hclose : c ≠ ']')
    (h : readItems fuel (c :: cs) = (items, some rest)) :
    readValue (fuel + 1) ('[' :: c :: cs) = (array items true, some rest) := by
  rw [readValue, skipSpace_cons (by decide : isSpace '[' = false)]
  simp only [skipSpace_cons hspace]
  split
  · next heq => exact absurd (List.cons.inj heq).1 hclose
  · rw [h]
    rfl

theorem readValue_object {fuel : Nat} {cs rest : List Char}
    {members : List (Option String × Outline)}
    (h : readMembers fuel ('"' :: cs) = (members, some rest)) :
    readValue (fuel + 1) ('\x7b' :: '"' :: cs) = (object members true, some rest) := by
  rw [readValue, skipSpace_cons (by decide : isSpace '\x7b' = false)]
  simp only [skipSpace_cons (by decide : isSpace '"' = false)]
  split
  · next heq => exact absurd (List.cons.inj heq).1 (by decide)
  · rw [h]
    rfl

theorem readItems_last {fuel : Nat} {cs rest : List Char} {o : Outline}
    (h : readValue fuel cs = (o, some (']' :: rest))) :
    readItems (fuel + 1) cs = ([o], some rest) := by
  rw [readItems, h]
  simp only [skipSpace_cons (by decide : isSpace ']' = false)]

theorem readItems_cons {fuel : Nat} {cs ds rest : List Char} {o : Outline} {os : List Outline}
    (h : readValue fuel cs = (o, some (',' :: ds)))
    (hrest : readItems fuel ds = (os, some rest)) :
    readItems (fuel + 1) cs = (o :: os, some rest) := by
  rw [readItems, h]
  simp only [skipSpace_cons (by decide : isSpace ',' = false), hrest]

theorem readMembers_last {fuel : Nat} {k : String} {cs rest : List Char} {o : Outline}
    (h : readValue fuel cs = (o, some ('\x7d' :: rest))) :
    readMembers (fuel + 1) ((Json.quoted k).toList ++ ':' :: cs) = ([(some k, o)], some rest) := by
  rw [readMembers, skipSpace_quoted, readKey?_quoted]
  simp only [h, skipSpace_cons (by decide : isSpace '\x7d' = false)]

theorem readMembers_cons {fuel : Nat} {k : String} {cs ds rest : List Char} {o : Outline}
    {ms : List (Option String × Outline)} (h : readValue fuel cs = (o, some (',' :: ds)))
    (hrest : readMembers fuel ds = (ms, some rest)) :
    readMembers (fuel + 1) ((Json.quoted k).toList ++ ':' :: cs) =
      ((some k, o) :: ms, some rest) := by
  rw [readMembers, skipSpace_quoted, readKey?_quoted]
  simp only [h, skipSpace_cons (by decide : isSpace ',' = false), hrest]

theorem integral_items {v : Json} {vs : List Json} (h : (Json.array (v :: vs)).Integral) :
    v.Integral ∧ (Json.array vs).Integral := by
  rw [Json.Integral, Json.numbers, Json.itemNumbers, List.forall_mem_append] at h
  exact h

theorem integral_members {m : String × Json} {ms : List (String × Json)}
    (h : (Json.object (m :: ms)).Integral) : m.2.Integral ∧ (Json.object ms).Integral := by
  rw [Json.Integral, Json.numbers, Json.memberNumbers, List.forall_mem_append] at h
  exact h

mutual

/-- **The text of a value reads back** as the outline of the value. -/
theorem readValue_text (v : Json) (fuel : Nat) (cs : List Char) (h : v.Integral)
    (hfuel : 2 * v.text.toList.length ≤ fuel) (hcs : Ends cs) :
    readValue fuel (v.text.toList ++ cs) = (ofJson v, some cs) := by
  cases fuel with
  | zero =>
    obtain ⟨c, ds, hds, -⟩ := text_eq_cons h
    rw [hds] at hfuel
    cases hfuel
  | succ fuel =>
    cases v with
    | null => rfl
    | bool b => cases b <;> rfl
    | number n =>
      obtain ⟨hinteger, hrange⟩ := h n List.mem_cons_self
      cases n with
      | integer n => exact readValue_number hrange hcs
      | float x => cases hinteger
    | string s =>
      rw [Json.text, toList_quoted, List.cons_append, List.append_assoc, List.singleton_append,
        readValue, skipSpace_cons (by decide : isSpace '"' = false)]
      simp only [readString_quoted, ofJson]
    | array items =>
      cases items with
      | nil => rfl
      | cons v vs =>
        rw [toList_array, List.length_cons, List.length_append, List.length_singleton] at hfuel
        obtain ⟨fuel, rfl⟩ : ∃ n, fuel = n + 1 := ⟨fuel - 1, by omega⟩
        have hitems := readItems_texts v vs fuel cs h (by omega)
        obtain ⟨c, ds, hds, hspace, hclose⟩ := joined_texts_eq_cons vs (integral_items h).1
        rw [toList_array, List.cons_append, List.append_assoc, List.singleton_append]
        rw [hds, List.cons_append] at hitems ⊢
        exact readValue_array hspace hclose hitems
    | object members =>
      cases members with
      | nil => rfl
      | cons m ms =>
        rw [toList_object, List.length_cons, List.length_append, List.length_singleton] at hfuel
        obtain ⟨fuel, rfl⟩ : ∃ n, fuel = n + 1 := ⟨fuel - 1, by omega⟩
        have hmembers := readMembers_texts m ms fuel cs h (by omega)
        obtain ⟨ds, hds⟩ := joined_memberTexts_eq_cons m ms
        rw [toList_object, List.cons_append, List.append_assoc, List.singleton_append]
        rw [hds, List.cons_append] at hmembers ⊢
        exact readValue_object hmembers
termination_by fuel

theorem readItems_texts (v : Json) (vs : List Json) (fuel : Nat) (cs : List Char)
    (h : (Json.array (v :: vs)).Integral)
    (hfuel : 2 * (joined (Json.texts (v :: vs))).length ≤ fuel) :
    readItems (fuel + 1) (joined (Json.texts (v :: vs)) ++ ']' :: cs) =
      (ofJsons (v :: vs), some cs) := by
  obtain ⟨hv, hvs⟩ := integral_items h
  cases vs with
  | nil =>
    rw [Json.texts, Json.texts, joined_singleton] at hfuel ⊢
    exact readItems_last (readValue_text v fuel _ hv hfuel (ends_cons (by simp) cs))
  | cons w ws =>
    rw [Json.texts, Json.texts, joined_cons_cons, ← Json.texts, List.length_append,
      List.length_cons] at hfuel
    obtain ⟨fuel, rfl⟩ : ∃ n, fuel = n + 1 := ⟨fuel - 1, by omega⟩
    have hrest := readItems_texts w ws fuel cs hvs (by omega)
    rw [Json.texts, Json.texts, joined_cons_cons, ← Json.texts, List.append_assoc,
      List.cons_append]
    exact readItems_cons (readValue_text v _ _ hv (by omega) (ends_cons (by simp) _)) hrest
termination_by fuel + 1

theorem readMembers_texts (m : String × Json) (ms : List (String × Json)) (fuel : Nat)
    (cs : List Char) (h : (Json.object (m :: ms)).Integral)
    (hfuel : 2 * (joined (Json.memberTexts (m :: ms))).length ≤ fuel) :
    readMembers (fuel + 1) (joined (Json.memberTexts (m :: ms)) ++ '\x7d' :: cs) =
      (ofMembers (m :: ms), some cs) := by
  obtain ⟨hm, hms⟩ := integral_members h
  cases ms with
  | nil =>
    rw [Json.memberTexts, Json.memberTexts, joined_singleton, toList_member, List.length_append,
      List.length_cons] at hfuel
    rw [Json.memberTexts, Json.memberTexts, joined_singleton, toList_member, List.append_assoc,
      List.cons_append]
    exact readMembers_last (readValue_text m.2 _ _ hm (by omega) (ends_cons (by simp) cs))
  | cons m' ms =>
    rw [Json.memberTexts, Json.memberTexts, joined_cons_cons, ← Json.memberTexts, toList_member,
      List.length_append, List.length_append, List.length_cons, List.length_cons] at hfuel
    obtain ⟨fuel, rfl⟩ : ∃ n, fuel = n + 1 := ⟨fuel - 1, by omega⟩
    have hrest := readMembers_texts m' ms fuel cs hms (by omega)
    rw [Json.memberTexts, Json.memberTexts, joined_cons_cons, ← Json.memberTexts, toList_member,
      List.append_assoc, List.append_assoc, List.cons_append, List.cons_append]
    exact readMembers_cons (readValue_text m.2 _ _ hm (by omega) (ends_cons (by simp) _)) hrest
termination_by fuel + 1

end

/-- **A written value reads back**, and nothing is left of its text. -/
theorem readWhole?_text {v : Json} (h : v.Integral) : readWhole? v.text = some (ofJson v) := by
  have hread := readValue_text v (2 * v.text.toList.length + 2) [] h (by omega)
    (by simp [Ends])
  rw [List.append_nil] at hread
  simp only [readWhole?, read, hread]
  rfl

/-! ## The numbers of a text -/

theorem numbers_readWord {value : Outline} {word cs : List Char} (h : value.numbers = []) :
    (readWord value word cs).1.numbers = [] := by
  unfold readWord
  split_ifs
  · exact h
  · rfl

/-- Reading a part of a text gives only numbers in range, whatever the fuel. -/
theorem inRange_of_fuel (fuel : Nat) :
    (∀ cs, ∀ n ∈ (readValue fuel cs).1.numbers, n.InRange) ∧
      (∀ cs, ∀ n ∈ itemNumbers (readItems fuel cs).1, n.InRange) ∧
      ∀ cs, ∀ n ∈ memberNumbers (readMembers fuel cs).1, n.InRange := by
  induction fuel with
  | zero => simp [readValue, readItems, readMembers, numbers, itemNumbers, memberNumbers]
  | succ fuel ih =>
    obtain ⟨hvalue, hitems, hmembers⟩ := ih
    refine ⟨fun cs => ?_, fun cs => ?_, fun cs => ?_⟩
    · unfold readValue
      split
      · rw [numbers_readWord rfl]
        simp
      · rw [numbers_readWord rfl]
        simp
      · rw [numbers_readWord rfl]
        simp
      · split <;> simp [numbers]
      · split
        · simp [numbers, itemNumbers]
        · exact hitems _
      · split
        · simp [numbers, memberNumbers]
        · exact hmembers _
      · split
        · next hread =>
          intro n hn
          rw [numbers, Option.mem_toList] at hn
          exact inRange_of_readNumber hread n hn
        · simp [numbers]
    · have hfirst := hvalue cs
      unfold readItems
      split
      · next heq =>
        rw [heq] at hfirst
        simpa [itemNumbers] using hfirst
      · next heq =>
        rw [heq] at hfirst
        split
        · simpa [itemNumbers] using hfirst
        · exact List.forall_mem_append.mpr ⟨hfirst, hitems _⟩
        · simpa [itemNumbers] using hfirst
    · unfold readMembers
      split
      · simp [memberNumbers]
      · simp [memberNumbers, numbers]
      · next key cs _ =>
        have hfirst := hvalue cs
        split
        · next heq =>
          rw [heq] at hfirst
          simpa [memberNumbers] using hfirst
        · next heq =>
          rw [heq] at hfirst
          split
          · simpa [memberNumbers] using hfirst
          · exact List.forall_mem_append.mpr ⟨hfirst, hmembers _⟩
          · simpa [memberNumbers] using hfirst

/-- **The numbers in the outline of a text are in range.** -/
theorem inRange_of_readWhole? {s : String} {o : Outline} (h : readWhole? s = some o) :
    ∀ n ∈ o.numbers, n.InRange := by
  have hread := (inRange_of_fuel (2 * s.toList.length + 2)).1 s.toList
  simp only [readWhole?, read] at h
  split at h
  · next heq =>
    split_ifs at h
    cases h
    rw [heq] at hread
    exact hread
  · cases h

end Outline

end CatalogChain

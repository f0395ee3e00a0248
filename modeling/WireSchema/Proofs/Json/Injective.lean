import Mathlib
import WireSchema.Proofs.Json.StringMap

/-!
# Values with one text are one value

The compact form of a JSON value tells the value: its first character tells what kind of value it
is, a string ends at its quote, and arrays and objects at their brackets. Only a number does not
show where it ends, but no digit ever follows a value. So a text that starts with the form of a
value starts with that of no other, whatever follows.

* `kind_eq` — the kind of a value from its text;
* `Ends` — what can follow a value;
* `render_append_inj` — the value from its text, by recursion on the value, with the items of arrays
  and the members of objects;
* `render_injective` — no two values have one text.
-/

namespace WireSchema.Json

open WireSchema.Text

/-! ### The kind of a value -/

/-- The kinds of values. -/
inductive Kind where
  | null
  | number
  | string
  | array
  | object

/-- The kind of a value. -/
def kind : Json → Kind
  | null => .null
  | number _ => .number
  | string _ => .string
  | array _ => .array
  | object _ => .object

/-- The kind of the values that start with a character; no value starts with any other. -/
def kindOf? (c : Char) : Option Kind :=
  if c = 'n' then some .null
  else if c = '"' then some .string
  else if c = '[' then some .array
  else if c = '{' then some .object
  else if (digitOf 10 c).isSome then some .number
  else none

theorem kindOf?_digitChar {d : ℕ} (h : d < 10) : kindOf? d.digitChar = some .number := by
  have hall : ∀ d : Fin 10, Nat.digitChar d ≠ 'n' ∧ Nat.digitChar d ≠ '"' ∧
      Nat.digitChar d ≠ '[' ∧ Nat.digitChar d ≠ '{' := by decide
  obtain ⟨hnull, hquote, hbracket, hbrace⟩ := hall ⟨d, h⟩
  unfold kindOf?
  rw [if_neg hnull, if_neg hquote, if_neg hbracket, if_neg hbrace,
    digitOf_digitChar (by decide) h]
  rfl

/-- A value starts with a character of its kind. -/
theorem exists_lead (j : Json) : ∃ c t, render j = c :: t ∧ kindOf? c = some j.kind := by
  cases j with
  | null => exact ⟨'n', _, rfl, rfl⟩
  | number n =>
    obtain ⟨c, t, hdigits⟩ := List.exists_cons_of_ne_nil (Nat.toDigits_ne_nil (b := 10) (n := n))
    have hc : c ∈ Nat.toDigits 10 n := by rw [hdigits]; exact List.mem_cons_self
    obtain ⟨d, hd, rfl⟩ := digitChar_of_mem_toDigits (by decide) hc
    exact ⟨_, t, hdigits, kindOf?_digitChar hd⟩
  | string s => exact ⟨'"', _, rfl, rfl⟩
  | array items =>
    cases items with
    | nil => exact ⟨'[', _, rfl, rfl⟩
    | cons item rest => exact ⟨'[', _, rfl, rfl⟩
  | object members =>
    cases members with
    | nil => exact ⟨'{', _, rfl, rfl⟩
    | cons member rest => exact ⟨'{', _, rfl, rfl⟩

/-- Values that one text starts with are of one kind. -/
theorem kind_eq {j j' : Json} {s s' : List Char} (h : render j ++ s = render j' ++ s') :
    j.kind = j'.kind := by
  obtain ⟨c, t, htext, hkind⟩ := exists_lead j
  obtain ⟨c', t', htext', hkind'⟩ := exists_lead j'
  rw [htext, htext'] at h
  have hc : c = c' := (List.cons.inj h).1
  rw [← hc, hkind] at hkind'
  exact Option.some.inj hkind'

/-- No value starts with a character that is of no kind, such as a closing bracket. -/
theorem render_append_ne {j : Json} {s t : List Char} {c : Char} (hc : kindOf? c = none) :
    render j ++ s ≠ c :: t := by
  intro h
  obtain ⟨c', t', htext, hkind⟩ := exists_lead j
  rw [htext] at h
  rw [(List.cons.inj h).1, hc] at hkind
  cases hkind

/-! ### Where a value ends -/

/-- What can follow a value: it does not start with a digit. -/
def Ends (s : List Char) : Prop :=
  ∀ c ∈ s.head?, digitOf 10 c = none

theorem ends_nil : Ends [] := by
  intro c hc
  cases hc

theorem ends_renderItems (items : List Json) (s : List Char) : Ends (renderItems items ++ s) := by
  cases items <;> rintro c ⟨⟩ <;> rfl

theorem ends_renderMembers (members : List (String × Json)) (s : List Char) :
    Ends (renderMembers members ++ s) := by
  cases members <;> rintro c ⟨⟩ <;> rfl

/-- The numeral at the front of a text is made of all digits there. -/
theorem takeWhile_numeral_append (n : ℕ) {s : List Char} (hs : Ends s) :
    (numeral 10 n ++ s).takeWhile (fun c => (digitOf 10 c).isSome) = numeral 10 n := by
  have hdigits : ∀ c ∈ numeral 10 n, (digitOf 10 c).isSome = true := by
    intro c hc
    obtain ⟨d, hd, rfl⟩ := digitChar_of_mem_toDigits (by decide) hc
    rw [digitOf_digitChar (by decide) hd]
    rfl
  have hrest : s.takeWhile (fun c => (digitOf 10 c).isSome) = [] := by
    cases s with
    | nil => rfl
    | cons c s =>
      have hnone : (digitOf 10 c).isSome = false := by rw [hs c rfl]; rfl
      rw [List.takeWhile_cons, hnone]
      rfl
  rw [List.takeWhile_append_of_pos hdigits, hrest, List.append_nil]

theorem numeral_append_inj {n n' : ℕ} {s s' : List Char} (hs : Ends s) (hs' : Ends s')
    (h : numeral 10 n ++ s = numeral 10 n' ++ s') : n = n' ∧ s = s' := by
  have hnumeral : numeral 10 n = numeral 10 n' := by
    rw [← takeWhile_numeral_append n hs, h, takeWhile_numeral_append n' hs']
  have hread : readNumeral 10 (numeral 10 n) = some n :=
    readNumeral_numeral (by decide) (by decide) n
  rw [hnumeral, readNumeral_numeral (by decide) (by decide) n'] at hread
  rw [hnumeral] at h
  exact ⟨(Option.some.inj hread).symm, List.append_cancel_left h⟩

theorem renderString_append_inj {t t' : String} {s s' : List Char}
    (h : renderString t ++ s = renderString t' ++ s') : t = t' ∧ s = s' := by
  have hread := readString?_renderString t s
  rw [h, readString?_renderString] at hread
  cases hread
  exact ⟨rfl, rfl⟩

/-! ### Values -/

mutual

/-- The value at the front of a text is given by the text, and so is what follows it. -/
theorem render_append_inj : ∀ (j j' : Json) {s s' : List Char}, Ends s → Ends s' →
    render j ++ s = render j' ++ s' → j = j' ∧ s = s'
  | null, j', s, s', _, _, h => by
    cases j' with
    | null => exact ⟨rfl, List.append_cancel_left h⟩
    | _ => cases kind_eq h
  | number n, j', s, s', hs, hs', h => by
    cases j' with
    | number n' =>
      simp only [render] at h
      obtain ⟨rfl, rfl⟩ := numeral_append_inj hs hs' h
      exact ⟨rfl, rfl⟩
    | _ => cases kind_eq h
  | string t, j', s, s', _, _, h => by
    cases j' with
    | string t' =>
      simp only [render] at h
      obtain ⟨rfl, rfl⟩ := renderString_append_inj h
      exact ⟨rfl, rfl⟩
    | _ => cases kind_eq h
  | array items, j', s, s', _, _, h => by
    cases j' with
    | array items' =>
      cases items with
      | nil =>
        cases items' with
        | nil => exact ⟨rfl, List.append_cancel_left h⟩
        | cons item' rest' =>
          simp only [render, List.cons_append, List.nil_append, List.append_assoc] at h
          exact absurd (List.cons.inj h).2.symm (render_append_ne rfl)
      | cons item rest =>
        cases items' with
        | nil =>
          simp only [render, List.cons_append, List.nil_append, List.append_assoc] at h
          exact absurd (List.cons.inj h).2 (render_append_ne rfl)
        | cons item' rest' =>
          -- The items of an array are those that follow a comma, but for the bracket.
          obtain ⟨hitems, hs⟩ := renderItems_append_inj (item :: rest) (item' :: rest')
            (congrArg (',' :: ·) (List.cons.inj h).2)
          exact ⟨congrArg array hitems, hs⟩
    | _ => cases kind_eq h
  | object members, j', s, s', _, _, h => by
    cases j' with
    | object members' =>
      cases members with
      | nil =>
        cases members' with
        | nil => exact ⟨rfl, List.append_cancel_left h⟩
        | cons member' rest' => cases (List.cons.inj (List.cons.inj h).2).1
      | cons member rest =>
        cases members' with
        | nil => cases (List.cons.inj (List.cons.inj h).2).1
        | cons member' rest' =>
          obtain ⟨hmembers, hs⟩ := renderMembers_append_inj (member :: rest) (member' :: rest')
            (congrArg (',' :: ·) (List.cons.inj h).2)
          exact ⟨congrArg object hmembers, hs⟩
    | _ => cases kind_eq h

/-- The further items of an array are given by the text. -/
theorem renderItems_append_inj : ∀ (items items' : List Json) {s s' : List Char},
    renderItems items ++ s = renderItems items' ++ s' → items = items' ∧ s = s'
  | [], [], s, s', h => ⟨rfl, List.append_cancel_left h⟩
  | [], item' :: rest', s, s', h => by cases (List.cons.inj h).1
  | item :: rest, [], s, s', h => by cases (List.cons.inj h).1
  | item :: rest, item' :: rest', s, s', h => by
    simp only [renderItems, List.cons_append, List.append_assoc] at h
    obtain ⟨rfl, hrest⟩ := render_append_inj item item' (ends_renderItems rest s)
      (ends_renderItems rest' s') (List.cons.inj h).2
    obtain ⟨rfl, rfl⟩ := renderItems_append_inj rest rest' hrest
    exact ⟨rfl, rfl⟩

/-- The further members of an object are given by the text. -/
theorem renderMembers_append_inj : ∀ (members members' : List (String × Json)) {s s' : List Char},
    renderMembers members ++ s = renderMembers members' ++ s' → members = members' ∧ s = s'
  | [], [], s, s', h => ⟨rfl, List.append_cancel_left h⟩
  | [], member' :: rest', s, s', h => by cases (List.cons.inj h).1
  | member :: rest, [], s, s', h => by cases (List.cons.inj h).1
  | (key, value) :: rest, (key', value') :: rest', s, s', h => by
    simp only [renderMembers, List.cons_append, List.append_assoc] at h
    obtain ⟨rfl, hvalue⟩ := renderString_append_inj (List.cons.inj h).2
    obtain ⟨rfl, hrest⟩ := render_append_inj value value' (ends_renderMembers rest s)
      (ends_renderMembers rest' s') (List.cons.inj hvalue).2
    obtain ⟨rfl, rfl⟩ := renderMembers_append_inj rest rest' hrest
    exact ⟨rfl, rfl⟩

end

/-- No two values have one text. -/
theorem render_injective : Function.Injective render := by
  intro j j' h
  exact (render_append_inj j j' ends_nil ends_nil (congrArg (· ++ []) h)).1

end WireSchema.Json

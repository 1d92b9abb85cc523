import Mathlib
import SchemaModel.Proofs.NestingBounds
import SchemaModel.Proofs.NumberTexts
import SchemaModel.Proofs.Separated

/-!
# Expressions read back

Objects, their pairs and arrays are all written with braces and commas, and a string stands between
quotes as it is.  Still a value can be told from its expression.  The first character tells its
form; inside another expression, what follows it begins with a comma or a closing brace; and of two
texts that begin with an expression and go on like that, the expressions are the same and so are
the rests.  Only a quote inside a string or a key would blur where it ends.

* `Json.HasPlainTexts` — no string and no key inside the value holds a quote;
* `Json.Form.ofChar?` — the form of a value from the first character of its expression;
* `Json.Follows` — what may follow an expression;
* `Json.eq_of_braced` — delimited parts between braces are told from one another;
* `Json.delimited` — the expressions of plain values are delimited;
* `literals_read_back` — values with equal expressions are equal.
-/

namespace SchemaModel.Json

open Outcome

/-! ### Values without quotes -/

/-- No string and no object key inside the value holds a quote. -/
structure HasPlainTexts (v : Json) : Prop where
  strings : ∀ k s, v.Inside k (.string s) → '"' ∉ s.toList
  keys : ∀ k members, v.Inside k (.object members) → ∀ m ∈ members, '"' ∉ m.1.toList

theorem HasPlainTexts.part {v u : Json} (h : v.HasPlainTexts) (part : v.Part u) : u.HasPlainTexts :=
  ⟨fun k s inside => h.strings (k + 1) s (.deeper part inside),
    fun k members inside => h.keys (k + 1) members (.deeper part inside)⟩

/-- The texts inside a value are its own and those inside its parts. -/
theorem hasPlainTexts_iff {v : Json} :
    v.HasPlainTexts ↔
      (∀ s, v = .string s → '"' ∉ s.toList) ∧
      (∀ members, v = .object members → ∀ m ∈ members, '"' ∉ m.1.toList) ∧
      ∀ u, v.Part u → u.HasPlainTexts := by
  constructor
  · intro h
    refine ⟨?_, ?_, fun u part => h.part part⟩
    · rintro s rfl
      exact h.strings 0 s (.here _)
    · rintro members rfl
      exact h.keys 0 members (.here _)
  · rintro ⟨strings, keys, parts⟩
    constructor
    · intro k s inside
      cases inside with
      | here => exact strings s rfl
      | deeper part inside => exact (parts _ part).strings _ s inside
    · intro k members inside
      cases inside with
      | here => exact keys members rfl
      | deeper part inside => exact (parts _ part).keys _ members inside

theorem hasPlainTexts_number (n : Number) : (number n).HasPlainTexts := by
  refine hasPlainTexts_iff.2 ⟨fun s same => ?_, fun members same => ?_, fun u part => part.elim⟩
  · cases same
  · cases same

theorem hasPlainTexts_string {s : String} : (string s).HasPlainTexts ↔ '"' ∉ s.toList := by
  refine ⟨fun h => h.strings 0 s (.here _), fun plain => hasPlainTexts_iff.2 ⟨?_, ?_, ?_⟩⟩
  · rintro _ ⟨⟩
    exact plain
  · intro members same
    cases same
  · exact fun u part => part.elim

theorem hasPlainTexts_array {items : List Json} :
    (array items).HasPlainTexts ↔ ∀ v ∈ items, v.HasPlainTexts := by
  refine ⟨fun h v mem => h.part mem, fun each => hasPlainTexts_iff.2 ⟨?_, ?_, each⟩⟩
  · intro s same
    cases same
  · intro members same
    cases same

theorem hasPlainTexts_object {members : List (String × Json)} :
    (object members).HasPlainTexts ↔
      ∀ m ∈ members, '"' ∉ m.1.toList ∧ m.2.HasPlainTexts := by
  constructor
  · intro h m mem
    exact ⟨h.keys 0 members (.here _) m mem, h.part ⟨m.1, mem⟩⟩
  · intro each
    refine hasPlainTexts_iff.2 ⟨fun s same => ?_, ?_, fun u ⟨key, mem⟩ => (each (key, u) mem).2⟩
    · cases same
    · rintro _ ⟨⟩ m mem
      exact (each m mem).1

/-! ### What an expression begins with -/

/-- The forms of values that the first character tells apart. -/
inductive Form where
  | null
  | bool (b : Bool)
  | number
  | string
  | array
  | object
deriving DecidableEq

/-- The form of a value. -/
def form : Json → Form
  | .null => .null
  | .bool b => .bool b
  | .number _ => .number
  | .string _ => .string
  | .array _ => .array
  | .object _ => .object

/-- The form of which an expression begins with the character. -/
def Form.ofChar? (c : Char) : Option Form :=
  if c = 'n' then some .null
  else if c = 't' then some (.bool true)
  else if c = 'f' then some (.bool false)
  else if c = '"' then some .string
  else if c = 'j' then some .array
  else if c = '\x7b' then some .object
  else if c = '-' ∨ c.isDigit then some .number
  else none

theorem Form.ofChar?_eq_number {c : Char} (h : c = '-' ∨ c.isDigit = true) :
    Form.ofChar? c = some .number := by
  have other : ∀ d : Char, ¬ (d = '-' ∨ d.isDigit = true) → c ≠ d := by
    rintro d noNumber rfl
    exact noNumber h
  rw [ofChar?, if_neg (other 'n' (by decide)), if_neg (other 't' (by decide)),
    if_neg (other 'f' (by decide)), if_neg (other '"' (by decide)), if_neg (other 'j' (by decide)),
    if_neg (other '\x7b' (by decide)), if_pos h]

theorem head_toLiteral {v : Json} {s : String} (h : v.toLiteral = .ok s) :
    ∃ c cs, s.toList = c :: cs ∧ Form.ofChar? c = some v.form := by
  cases v with
  | null =>
    cases h
    exact ⟨'n', _, rfl, rfl⟩
  | bool b =>
    cases b <;> cases h
    · exact ⟨'f', _, rfl, rfl⟩
    · exact ⟨'t', _, rfl, rfl⟩
  | number n =>
    rw [toLiteral] at h
    split_ifs at h with finite
    cases h
    obtain ⟨m, read, -⟩ := Number.read?_text finite
    obtain ⟨⟨c, cs, shape, first⟩, -⟩ := Numeral.chars_of_read? read
    exact ⟨c, cs, shape, Form.ofChar?_eq_number first⟩
  | string s =>
    cases h
    exact ⟨'"', _, by rw [plainQuoted, String.toList_append, String.toList_append]; rfl, rfl⟩
  | array items =>
    obtain ⟨ss, -, rfl⟩ := map_eq_ok.1 h
    exact ⟨'j', _, by rw [String.toList_append, String.toList_append]; rfl, rfl⟩
  | object members =>
    obtain ⟨ss, -, rfl⟩ := map_eq_ok.1 h
    exact ⟨'\x7b', _, by rw [braced, String.toList_append, String.toList_append]; rfl, rfl⟩

/-! ### Where a text ends -/

/-- A text without quotes ends before the first one. -/
theorem eq_of_quoted {s t : String} {rest rest' : List Char} (plain : '"' ∉ s.toList)
    (plain' : '"' ∉ t.toList) (same : s.toList ++ '"' :: rest = t.toList ++ '"' :: rest') :
    s = t ∧ rest = rest' := by
  have goes : ∀ {u : String}, '"' ∉ u.toList → ∀ c ∈ u.toList, decide (c ≠ '"') = true := by
    intro u plain c mem
    refine decide_eq_true ?_
    rintro rfl
    exact plain mem
  have stops : ∀ {r : List Char} (c : Char),
      ('"' :: r).head? = some c → decide (c ≠ '"') = false := by
    rintro r c ⟨⟩
    rfl
  obtain ⟨texts, rests⟩ := eq_of_stops (goes plain) (goes plain') stops stops same
  exact ⟨String.ext texts, (List.cons.inj rests).2⟩

/-- What may follow an expression: nothing, a comma or a closing brace. -/
def Follows (rest : List Char) : Prop := ∀ c, rest.head? = some c → c = ',' ∨ c = '\x7d'

theorem follows_nil : Follows [] := fun c h => by cases h

theorem follows_comma (rest : List Char) : Follows (',' :: rest) := by
  rintro c ⟨⟩
  exact .inl rfl

theorem follows_brace (rest : List Char) : Follows ('\x7d' :: rest) := by
  rintro c ⟨⟩
  exact .inr rfl

/-! ### Lists between braces -/

section Braced

variable {α : Type} {Writes : α → String → Prop}

theorem toList_braced_cons (s : String) (ss : List String) :
    (braced (s :: ss)).toList = '\x7b' :: (s.toList ++ (separatedTail "," ss ++ ['\x7d'])) := by
  rw [braced, String.toList_append, String.toList_append, toList_intercalate_cons,
    List.append_assoc, List.append_assoc]
  rfl

/-- **Delimited parts between braces are told from one another**, none of them beginning with a
closing brace. -/
theorem eq_of_braced {xs ys : List α} {ss ts : List String} {rest rest' : List Char}
    (written : List.Forall₂ Writes xs ss) (written' : List.Forall₂ Writes ys ts)
    (delimited : ∀ x ∈ xs, Delimited Follows Writes x)
    (opens : ∀ x s, Writes x s → ∃ c cs, s.toList = c :: cs ∧ c ≠ '\x7d')
    (same : (braced ss).toList ++ rest = (braced ts).toList ++ rest') : xs = ys ∧ rest = rest' := by
  have inner : ∀ ss r, (braced ss).toList ++ r =
      '\x7b' :: ((",".intercalate ss).toList ++ '\x7d' :: r) := by
    intro ss r
    simp [braced]
  rw [inner, inner] at same
  exact eq_of_separated follows_comma follows_brace (fun _ _ => by rintro ⟨⟩) opens written written'
    delimited (List.cons.inj same).2

end Braced

/-! ### Plain values -/

/-- The expression of a value without quotes. -/
def Writes (v : Json) (s : String) : Prop := v.HasPlainTexts ∧ v.toLiteral = .ok s

/-- The pair of a member without quotes. -/
def WritesMember (m : String × Json) (s : String) : Prop :=
  '"' ∉ m.1.toList ∧ ∃ t, Writes m.2 t ∧ s = braced [plainQuoted m.1, t]

theorem writes_items {items : List Json} {ss : List String}
    (plain : ∀ v ∈ items, v.HasPlainTexts) (h : itemLiterals items = .ok ss) :
    List.Forall₂ Writes items ss := by
  induction items generalizing ss with
  | nil =>
    cases h
    exact .nil
  | cons v rest ih =>
    obtain ⟨s, hs, h⟩ := bind_eq_ok.1 h
    obtain ⟨ss, hss, ⟨⟩⟩ := bind_eq_ok.1 h
    obtain ⟨first, others⟩ := List.forall_mem_cons.1 plain
    exact .cons ⟨first, hs⟩ (ih others hss)

theorem writes_members {members : List (String × Json)} {ss : List String}
    (plain : ∀ m ∈ members, '"' ∉ m.1.toList ∧ m.2.HasPlainTexts)
    (h : memberLiterals members = .ok ss) : List.Forall₂ WritesMember members ss := by
  induction members generalizing ss with
  | nil =>
    cases h
    exact .nil
  | cons m rest ih =>
    obtain ⟨key, v⟩ := m
    obtain ⟨s, hs, h⟩ := bind_eq_ok.1 h
    obtain ⟨ss, hss, ⟨⟩⟩ := bind_eq_ok.1 h
    obtain ⟨first, others⟩ := List.forall_mem_cons.1 plain
    exact .cons ⟨first.1, s, ⟨first.2, hs⟩, rfl⟩ (ih others hss)

theorem Writes.opens {v : Json} {s : String} (h : Writes v s) :
    ∃ c cs, s.toList = c :: cs ∧ c ≠ '\x7d' := by
  obtain ⟨c, cs, shape, form⟩ := head_toLiteral h.2
  refine ⟨c, cs, shape, ?_⟩
  rintro rfl
  cases form

theorem toList_pair (key t : String) (rest : List Char) :
    (braced [plainQuoted key, t]).toList ++ rest =
      '\x7b' :: '"' :: (key.toList ++ '"' :: ',' :: (t.toList ++ '\x7d' :: rest)) := by
  simp [toList_braced_cons, separatedTail, plainQuoted]

theorem WritesMember.opens {m : String × Json} {s : String} (h : WritesMember m s) :
    ∃ c cs, s.toList = c :: cs ∧ c ≠ '\x7d' := by
  obtain ⟨-, t, -, rfl⟩ := h
  exact ⟨'\x7b', _, toList_braced_cons _ _, by decide⟩

/-- A pair is delimited if its value is: the key ends at its quote, the value at the brace. -/
theorem delimited_member {m : String × Json} (h : Delimited Follows Writes m.2) :
    Delimited Follows WritesMember m := by
  rintro ⟨key', v'⟩ s s' rest rest' ⟨plain, t, written, rfl⟩ ⟨plain', t', written', rfl⟩ - - same
  rw [toList_pair, toList_pair] at same
  obtain ⟨keys, same⟩ := eq_of_quoted plain plain' (List.cons.inj (List.cons.inj same).2).2
  obtain ⟨values, same⟩ :=
    h written written' (follows_brace rest) (follows_brace rest') (List.cons.inj same).2
  exact ⟨Prod.ext keys values, (List.cons.inj same).2⟩

/-- Numbers are delimited, since they hold no comma and no brace. -/
theorem delimited_number {n m : Number} {rest rest' : List Char} (finite : n.isFinite = true)
    (finite' : m.isFinite = true) (follows : Follows rest) (follows' : Follows rest')
    (same : n.text.toList ++ rest = m.text.toList ++ rest') : n = m ∧ rest = rest' := by
  have goes : ∀ {n : Number}, n.isFinite = true → ∀ c ∈ n.text.toList, inNumeral c = true := by
    intro n finite
    obtain ⟨numeral, read, -⟩ := Number.read?_text finite
    exact (Numeral.chars_of_read? read).2
  have stops : ∀ {r : List Char}, Follows r → ∀ c, r.head? = some c → inNumeral c = false := by
    intro r follows c head
    rcases follows c head with rfl | rfl <;> rfl
  obtain ⟨texts, rests⟩ :=
    eq_of_stops (goes finite) (goes finite') (stops follows) (stops follows') same
  exact ⟨Number.text_injective finite finite' (String.ext texts), rests⟩

/-- **The expression of a value without quotes is delimited.** -/
theorem delimited (v : Json) : Delimited Follows Writes v := by
  induction v using Json.induction with
  | step v ih =>
    have parts : ∀ u, v.Part u → Delimited Follows Writes u := fun u part =>
      ih 0 u (.deeper part (.here u))
    rintro w s t rest rest' ⟨plain, hs⟩ ⟨plain', ht⟩ follows follows' same
    have forms : v.form = w.form := by
      obtain ⟨c, cs, shape, form⟩ := head_toLiteral hs
      obtain ⟨c', cs', shape', form'⟩ := head_toLiteral ht
      rw [shape, shape', List.cons_append, List.cons_append] at same
      rw [(List.cons.inj same).1, form'] at form
      exact (Option.some.inj form).symm
    cases v with
    | null =>
      cases w <;> cases forms
      cases hs
      cases ht
      exact ⟨rfl, List.append_cancel_left same⟩
    | bool b =>
      cases w <;> cases forms
      cases hs.symm.trans ht
      exact ⟨rfl, List.append_cancel_left same⟩
    | number n =>
      cases w with
      | number m =>
        rw [toLiteral] at hs ht
        split_ifs at hs with finite
        split_ifs at ht with finite'
        cases hs
        cases ht
        obtain ⟨rfl, rests⟩ := delimited_number finite finite' follows follows' same
        exact ⟨rfl, rests⟩
      | _ => cases forms
    | string x =>
      cases w with
      | string y =>
        cases hs
        cases ht
        have quoted : ∀ (z : String) (r : List Char),
            (plainQuoted z).toList ++ r = '"' :: (z.toList ++ '"' :: r) := by
          simp [plainQuoted]
        rw [quoted, quoted] at same
        obtain ⟨rfl, rests⟩ := eq_of_quoted (hasPlainTexts_string.1 plain)
          (hasPlainTexts_string.1 plain') (List.cons.inj same).2
        exact ⟨rfl, rests⟩
      | _ => cases forms
    | array items =>
      cases w with
      | array items' =>
        obtain ⟨ss, hss, rfl⟩ := map_eq_ok.1 hs
        obtain ⟨ts, hts, rfl⟩ := map_eq_ok.1 ht
        simp only [String.toList_append, List.append_assoc] at same
        obtain ⟨rfl, rests⟩ := eq_of_braced (writes_items (hasPlainTexts_array.1 plain) hss)
          (writes_items (hasPlainTexts_array.1 plain') hts) parts (fun v s => Writes.opens)
          (List.append_cancel_left same)
        exact ⟨rfl, List.append_cancel_left rests⟩
      | _ => cases forms
    | object members =>
      cases w with
      | object members' =>
        obtain ⟨ss, hss, rfl⟩ := map_eq_ok.1 hs
        obtain ⟨ts, hts, rfl⟩ := map_eq_ok.1 ht
        obtain ⟨rfl, rests⟩ := eq_of_braced
          (writes_members (hasPlainTexts_object.1 plain) hss)
          (writes_members (hasPlainTexts_object.1 plain') hts)
          (fun m mem => delimited_member (parts m.2 ⟨m.1, mem⟩))
          (fun m s => WritesMember.opens) same
        exact ⟨rfl, rests⟩
      | _ => cases forms

end SchemaModel.Json

namespace SchemaModel

open Json

/-- **Expressions can be read back**: a value whose numbers are finite has an expression, and if no
string and no key holds a quote, no other such value has the same one.  Order of members and of
elements counts, and so does whether a number is written as an integer. -/
theorem literals_read_back {v w : Json} (plain : v.HasPlainTexts) (plain' : w.HasPlainTexts)
    (finite : v.HasFiniteNumbers) :
    (∃ s, v.toLiteral = .ok s) ∧ (v.toLiteral = w.toLiteral ↔ v = w) := by
  obtain ⟨s, hs⟩ := finite.exists_toLiteral_eq_ok
  refine ⟨⟨s, hs⟩, ?_, congrArg toLiteral⟩
  intro same
  have read : v = w ∧ ([] : List Char) = [] :=
    delimited v ⟨plain, hs⟩ ⟨plain', same ▸ hs⟩ follows_nil follows_nil rfl
  exact read.1

/-- Texts that look like parts of expressions, empty containers, and a total to choose. -/
def Json.receipt (total : Number) : Json :=
  .object [("lines\x7d", .array [.string "json::array(\x7b", .array [], .object []]),
    ("total", .number total)]

theorem receipt_reads_back :
    let one : Number := .float ⟨0x3FF0000000000000⟩
    (receipt (.int 1)).HasPlainTexts ∧ (receipt one).HasPlainTexts ∧
      (receipt (.int 1)).HasFiniteNumbers ∧ (∃ s, (receipt (.int 1)).toLiteral = .ok s) ∧
      (receipt (.int 1)).toLiteral ≠ (receipt one).toLiteral := by
  intro one
  have plain : ∀ total, (receipt total).HasPlainTexts := by
    intro total
    simp [receipt, hasPlainTexts_object, hasPlainTexts_array, hasPlainTexts_string,
      hasPlainTexts_number]
  have lines : (Json.array [.string "json::array(\x7b", .array [], .object []]).IsDocument := by
    refine isDocument_array (List.forall_mem_cons.2 ⟨isDocument_string _, ?_⟩)
    exact List.forall_mem_cons.2 ⟨isDocument_array (by simp),
      List.forall_mem_cons.2 ⟨isDocument_object (by simp) (by simp), by simp⟩⟩
  have document : (receipt (.int 1)).IsDocument := by
    refine isDocument_object (by decide) (List.forall_mem_cons.2 ⟨lines, ?_⟩)
    exact List.forall_mem_cons.2 ⟨isDocument_number rfl, by simp⟩
  obtain ⟨written, same⟩ := literals_read_back (plain (.int 1)) (plain one) document.finite
  exact ⟨plain _, plain _, document.finite, written, same.not.2 (by simp [receipt, one])⟩

end SchemaModel

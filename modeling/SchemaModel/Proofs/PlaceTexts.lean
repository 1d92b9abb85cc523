import SchemaModel.Location
import SchemaModel.Proofs.Lists

/-!
# The texts of places

A place is written as its steps one after the other.  A key stands between marks and without
escapes, so its end can only be told from the first closing mark; if no key holds that mark, the
text of a place gives back its steps.  A key that does hold it can be written like two keys.

* `Location.toList_text` — the characters of a text, step by step;
* `Location.closing_unique` — where a key ends;
* `Location.text_injective` — places with equal texts are equal;
* `Location.ofSteps` — the place that steps lead to;
* `place_texts_tell_steps` — steps from the whole document on are told apart by their texts.
-/

namespace SchemaModel

namespace Location

/-- The mark that closes a key. -/
def closing : List Char := ['\'', ']']

namespace Step

/-- The characters of a step. -/
def chars (s : Step) : List Char := s.text.toList

theorem chars_key (name : String) :
    (key name).chars = '[' :: '\'' :: (name.toList ++ closing) := by
  simp [chars, text, closing]

theorem chars_index (i : Nat) :
    (index i).chars = '[' :: (Nat.toDigits 10 i ++ [']']) := by
  simp [chars, text, Nat.toString_eq_repr, Nat.toList_repr]

end Step

theorem toList_text (l : Location) : l.text.toList = '$' :: l.steps.flatMap Step.chars := by
  rw [text, String.toList_append, String.toList_join, List.flatMap_map]
  rfl

/-! ### Reading a step back -/

/-- Of two texts that hold no closing mark, each is what stands before the first one. -/
theorem closing_unique {name name' rest rest' : List Char} (free : ¬ closing <:+: name)
    (free' : ¬ closing <:+: name')
    (same : name ++ closing ++ rest = name' ++ closing ++ rest') : name = name' ∧ rest = rest' := by
  -- a text that goes on where the other one closes would hold the closing mark itself
  have ends : ∀ {c : Char} {cs r r' : List Char}, ¬ closing <:+: c :: cs →
      closing ++ r ≠ c :: cs ++ closing ++ r' := by
    intro c cs r r' free same
    cases cs with
    | nil => simp [closing] at same
    | cons d ds =>
      simp only [closing, List.cons_append, List.nil_append, List.cons.injEq] at same
      obtain ⟨rfl, rfl, -⟩ := same
      exact free ⟨[], ds, rfl⟩
  induction name generalizing name' with
  | nil =>
    cases name' with
    | nil => exact ⟨rfl, List.append_cancel_left same⟩
    | cons c cs => exact absurd same (ends free')
  | cons c cs ih =>
    cases name' with
    | nil => exact absurd same.symm (ends free)
    | cons d ds =>
      simp only [List.cons_append, List.cons.injEq] at same
      obtain ⟨rfl, same⟩ := same
      have inner : ∀ {xs : List Char}, ¬ closing <:+: c :: xs → ¬ closing <:+: xs :=
        fun free within => free (within.trans (List.suffix_cons _ _).isInfix)
      obtain ⟨rfl, rfl⟩ := ih (inner free) (inner free') same
      exact ⟨rfl, rfl⟩

theorem ne_of_mem_toDigits {i : Nat} {c d : Char} (mem : c ∈ Nat.toDigits 10 i)
    (h : d.isDigit = false) : c ≠ d := by
  rintro rfl
  have digit := Nat.isDigit_of_mem_toDigits (by omega) (by omega) mem
  rw [h] at digit
  cases digit

/-- The digits of an index are what stands before the first bracket. -/
theorem digits_unique {i i' : Nat} {rest rest' : List Char}
    (same : Nat.toDigits 10 i ++ [']'] ++ rest = Nat.toDigits 10 i' ++ [']'] ++ rest') :
    i = i' ∧ rest = rest' := by
  have digits : ∀ j, ∀ c ∈ Nat.toDigits 10 j, c.isDigit = true :=
    fun j c => Nat.isDigit_of_mem_toDigits (by omega) (by omega)
  have stops : ∀ (r : List Char) (c : Char), (']' :: r).head? = some c → c.isDigit = false := by
    rintro r c ⟨⟩
    rfl
  rw [List.append_assoc, List.append_assoc] at same
  obtain ⟨texts, rests⟩ := eq_of_stops (digits i) (digits i') (stops rest) (stops rest') same
  have index : i = i' := by
    rw [← Nat.ofDigitChars_ten_toDigits (n := i), texts, Nat.ofDigitChars_ten_toDigits]
  exact ⟨index, (List.cons.inj rests).2⟩

/-- The second character of a step tells a key from an index. -/
theorem chars_key_ne_chars_index (name : String) (i : Nat) (rest rest' : List Char) :
    (Step.key name).chars ++ rest ≠ (Step.index i).chars ++ rest' := by
  rw [Step.chars_key, Step.chars_index]
  intro same
  cases hd : Nat.toDigits 10 i with
  | nil => exact Nat.toDigits_ne_nil hd
  | cons c cs =>
    rw [hd] at same
    simp only [List.cons_append, List.cons.injEq] at same
    exact ne_of_mem_toDigits (hd ▸ List.mem_cons_self) rfl same.2.1.symm

/-! ### Reading a place back -/

/-- No key among the steps holds the closing mark. -/
def HasPlainKeys (steps : List Step) : Prop :=
  ∀ name, .key name ∈ steps → ¬ closing <:+: name.toList

theorem HasPlainKeys.tail {s : Step} {steps : List Step} (h : HasPlainKeys (s :: steps)) :
    HasPlainKeys steps := fun name mem => h name (List.mem_cons_of_mem _ mem)

/-- The first step can be read off the first characters, and so on to the end. -/
theorem chars_injective {ss ss' : List Step} (h : HasPlainKeys ss) (h' : HasPlainKeys ss')
    (same : ss.flatMap Step.chars = ss'.flatMap Step.chars) : ss = ss' := by
  have nonempty : ∀ (s : Step) (rest : List Char), s.chars ++ rest ≠ [] := by
    intro s rest
    cases s <;> simp [Step.chars_key, Step.chars_index]
  induction ss generalizing ss' with
  | nil =>
    cases ss' with
    | nil => rfl
    | cons s' rest' => exact absurd same.symm (nonempty s' _)
  | cons s rest ih =>
    cases ss' with
    | nil => exact absurd same (nonempty s _)
    | cons s' rest' =>
      rw [List.flatMap_cons, List.flatMap_cons] at same
      have both : s = s' ∧ rest.flatMap Step.chars = rest'.flatMap Step.chars := by
        cases s with
        | key name =>
          cases s' with
          | key name' =>
            rw [Step.chars_key, Step.chars_key] at same
            have inner := (List.cons.inj (List.cons.inj same).2).2
            obtain ⟨names, rests⟩ :=
              closing_unique (h name List.mem_cons_self) (h' name' List.mem_cons_self) inner
            exact ⟨congrArg Step.key (String.ext names), rests⟩
          | index i' => exact absurd same (chars_key_ne_chars_index name i' _ _)
        | index i =>
          cases s' with
          | key name' => exact absurd same.symm (chars_key_ne_chars_index name' i _ _)
          | index i' =>
            rw [Step.chars_index, Step.chars_index] at same
            obtain ⟨rfl, rests⟩ := digits_unique (List.cons.inj same).2
            exact ⟨rfl, rests⟩
      rw [both.1, ih h.tail h'.tail both.2]

/-- **Places whose keys hold no closing mark are told apart by their texts.** -/
theorem text_injective {l l' : Location} (h : HasPlainKeys l.steps) (h' : HasPlainKeys l'.steps)
    (same : l.text = l'.text) : l = l' := by
  have chars : '$' :: l.steps.flatMap Step.chars = '$' :: l'.steps.flatMap Step.chars := by
    rw [← toList_text, ← toList_text, same]
  have steps := chars_injective h h' (List.cons.inj chars).2
  cases l
  cases l'
  exact congrArg Location.mk steps

/-- A key that holds the closing mark, and an opening one behind it, is written like two keys. -/
theorem text_key_key (l : Location) (name name' : String) :
    ((l.key name).key name').text = (l.key (name ++ "']['" ++ name')).text := by
  refine String.ext ?_
  rw [toList_text, toList_text]
  simp [key, Step.chars_key, closing]

/-! ### Places built step by step -/

/-- The place one step further. -/
def further (l : Location) : Step → Location
  | .key name => l.key name
  | .index i => l.index i

/-- The place that steps lead to, one after the other from the whole document on. -/
def ofSteps (steps : List Step) : Location := steps.foldl further root

theorem steps_further (l : Location) (s : Step) : (l.further s).steps = l.steps ++ [s] := by
  cases s <;> rfl

theorem depth_further (l : Location) (s : Step) : (l.further s).depth = l.depth + 1 := by
  cases s with
  | key name => exact depth_key l name
  | index i => exact depth_index l i

/-- Steps are kept in the order in which they are taken, behind those already there. -/
theorem steps_foldl_further (l : Location) (steps : List Step) :
    (steps.foldl further l).steps = l.steps ++ steps := by
  induction steps generalizing l with
  | nil => exact (List.append_nil l.steps).symm
  | cons s rest ih =>
    rw [List.foldl_cons, ih, steps_further, List.append_assoc, List.singleton_append]

theorem depth_foldl_further (l : Location) (steps : List Step) :
    (steps.foldl further l).depth = l.depth + steps.length := by
  induction steps generalizing l with
  | nil => rfl
  | cons s rest ih =>
    rw [List.foldl_cons, ih, depth_further, List.length_cons]
    omega

theorem steps_ofSteps (steps : List Step) : (ofSteps steps).steps = steps :=
  steps_foldl_further root steps

theorem depth_ofSteps (steps : List Step) : (ofSteps steps).depth = steps.length := by
  rw [ofSteps, depth_foldl_further]
  exact Nat.zero_add _

theorem text_ofSteps_keys (steps : List Step) (name name' : String) :
    (ofSteps (steps ++ [.key name, .key name'])).text =
      (ofSteps (steps ++ [.key (name ++ "']['" ++ name')])).text := by
  rw [ofSteps, ofSteps, List.foldl_append, List.foldl_append]
  exact text_key_key _ name name'

end Location

open Location in
/-- **The text of a place tells its steps.**  Keys and indices, taken step by step from the whole
document on, lead to places with equal texts exactly if they are the same steps in the same order,
provided that no key holds the closing mark; brackets, single marks, digits and empty keys make no
difference.  Without that condition one key can be written like two.  The depth of a place is the
number of steps that lead to it. -/
theorem place_texts_tell_steps :
    (∀ steps steps' : List Step, HasPlainKeys steps → HasPlainKeys steps' →
      ((ofSteps steps).text = (ofSteps steps').text ↔ steps = steps')) ∧
    (∀ (steps : List Step) (name name' : String),
      (ofSteps (steps ++ [.key name, .key name'])).text =
        (ofSteps (steps ++ [.key (name ++ "']['" ++ name')])).text) ∧
    ∀ steps : List Step, (ofSteps steps).depth = steps.length := by
  refine ⟨fun steps steps' plain plain' => ?_, text_ofSteps_keys, depth_ofSteps⟩
  constructor
  · intro same
    rw [← steps_ofSteps steps] at plain
    rw [← steps_ofSteps steps'] at plain'
    have place : ofSteps steps = ofSteps steps' := text_injective plain plain' same
    rw [← steps_ofSteps steps, place, steps_ofSteps]
  · rintro rfl
    rfl

/-- Steps through keys with marks and brackets, and through one without characters. -/
def crookedSteps : List Location.Step := [.key "it's", .index 10, .key "", .key "]['[0]"]

/-- The same keys, and two indices with the digits of the one. -/
def straySteps : List Location.Step := [.key "it's", .index 1, .index 0, .key "", .key "]['[0]"]

theorem crooked_text_tells_steps :
    Location.HasPlainKeys crookedSteps ∧ Location.HasPlainKeys straySteps ∧
    (Location.ofSteps crookedSteps).text = "$['it's'][10][''][']['[0]']" ∧
    (Location.ofSteps crookedSteps).text ≠ (Location.ofSteps straySteps).text ∧
    (Location.ofSteps crookedSteps).depth = 4 := by
  have plain : Location.HasPlainKeys crookedSteps := by
    intro name mem
    simp only [crookedSteps, List.mem_cons, Location.Step.key.injEq, reduceCtorEq, false_or,
      List.not_mem_nil, or_false] at mem
    rcases mem with rfl | rfl | rfl <;> decide
  have plain' : Location.HasPlainKeys straySteps := by
    intro name mem
    refine plain name ?_
    simpa [crookedSteps, straySteps] using mem
  obtain ⟨tells, -, depth⟩ := place_texts_tell_steps
  refine ⟨plain, plain', by decide, ?_, depth crookedSteps⟩
  rw [Ne, tells crookedSteps straySteps plain plain']
  decide

end SchemaModel

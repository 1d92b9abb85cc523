import SchemaModel.Json.Skip
import SchemaModel.Settings.Basic

/-!
# Settings from a text

Settings are read from the tokens of a text as they come: a value of the wrong kind is reported
before anything after it is looked at, unknown members are passed over, and whatever follows the
settings is left alone.  The path of an error names the member or element whose value was being
read.  What stands around the values, the commas, colons and closing brackets, belongs to the array
or object itself; a key that cannot be read has an unknown path in it.

* `Reading.string`, `Reading.strings`, `Reading.table` — the readings of the kinds of values;
* `Settings.readValue` — reads the value of a key;
* `Settings.ofText` — the settings at the start of a text.
-/

namespace SchemaModel

open Json (Token SyntaxError)

/-- What a token is, where a value of another kind was expected; a token that does not begin a
value is malformed. -/
def DecodeError.ofToken (expected : DecodeError.Expected) (t : Token) : DecodeError :=
  let wrong (found : Found) : DecodeError := here (.wrongType found expected)
  let malformed (e : SyntaxError) : DecodeError := here (.malformed e)
  match t with
  | .openArray => wrong .sequence
  | .openObject => wrong .map
  | .null => wrong .null
  | .bool b => wrong (.bool b)
  | .number (some n) => wrong (.number n)
  | .number none => malformed .numberOutOfRange
  | .string (.ok s) => wrong (.string s)
  | .string (.error e) => malformed e
  | .brokenString reading _ | .broken reading _ => malformed reading
  | .closeArray | .closeObject | .comma | .colon => malformed .expectedValue

namespace Reading

/-- What a reading yields: the value and the tokens after it. -/
abbrev Result (α : Type) := Except DecodeError (α × List Token)

/-- A malformed text, in the value being read or between the parts of it. -/
def malformed (e : SyntaxError) : DecodeError := .here (.malformed e)

/-- A malformed text where a key was expected. -/
def malformedKey (e : SyntaxError) : DecodeError := (malformed e).under .unknown

/-- Applies a function to the value. -/
def map (f : α → β) (r : Result α) : Result β := Except.map (fun x => (f x.1, x.2)) r

/-- The error of tokens that do not begin with the expected value. -/
def refusal (expected : DecodeError.Expected) : List Token → DecodeError
  | [] => malformed .endInValue
  | t :: _ => .ofToken expected t

/-- A string. -/
def string : List Token → Result String
  | .string (.ok s) :: rest => .ok (s, rest)
  | ts => .error (refusal .string ts)

/-- A string or null. -/
def optionalString : List Token → Result (Option String)
  | .null :: rest => .ok (none, rest)
  | ts => map some (string ts)

/-- The error of tokens that do not begin with an element, a string, after a comma. -/
def elementRefusal (i : Nat) : List Token → DecodeError
  | [] => malformed .endInValue
  | .closeArray :: _ => malformed .trailingComma
  | ts => (refusal .string ts).under (.index i)

/-- The rest of an array of strings, after an element. -/
def moreStrings (i : Nat) : List Token → Result (List String)
  | .closeArray :: rest => .ok ([], rest)
  | .comma :: .string (.ok s) :: rest => map (s :: ·) (moreStrings (i + 1) rest)
  | .comma :: rest => .error (elementRefusal i rest)
  | [] => .error (malformed .endInList)
  | _ :: _ => .error (malformed .expectedListEnd)

/-- An array of strings. -/
def strings : List Token → Result (List String)
  | .openArray :: .closeArray :: rest => .ok ([], rest)
  | .openArray :: .string (.ok s) :: rest => map (s :: ·) (moreStrings 1 rest)
  | .openArray :: [] => .error (malformed .endInList)
  | .openArray :: rest => .error ((refusal .string rest).under (.index 0))
  | ts => .error (refusal .sequence ts)

/-- The error of tokens after a key that are not a colon. -/
def colonRefusal : List Token → SyntaxError
  | [] => .endInObject
  | _ :: _ => .expectedColon

/-- The error of tokens that do not begin with a member whose value is a string. -/
def memberRefusal (atEnd : SyntaxError) : List Token → DecodeError
  | [] => malformedKey atEnd
  | .string (.ok key) :: .colon :: rest => (refusal .string rest).under (.key key)
  | .string (.ok _) :: rest => malformed (colonRefusal rest)
  | .string (.error e) :: _ => malformedKey e
  | .brokenString reading _ :: _ => malformedKey reading
  | _ :: _ => malformedKey .keyNotString

/-- The rest of an object of strings, after a member. -/
def moreMembers : List Token → Result (List (String × String))
  | .closeObject :: rest => .ok ([], rest)
  | .comma :: .string (.ok key) :: .colon :: .string (.ok s) :: rest =>
    map ((key, s) :: ·) (moreMembers rest)
  | .comma :: .closeObject :: _ => .error (malformedKey .trailingComma)
  | .comma :: rest => .error (memberRefusal .endInValue rest)
  | [] => .error (malformedKey .endInObject)
  | _ :: _ => .error (malformedKey .expectedObjectEnd)

/-- An object of strings. -/
def table : List Token → Result (Table String)
  | .openObject :: .closeObject :: rest => .ok ([], rest)
  | .openObject :: .string (.ok key) :: .colon :: .string (.ok s) :: rest =>
    map (fun others => Table.ofEntries ((key, s) :: others)) (moreMembers rest)
  | .openObject :: rest => .error (memberRefusal .endInObject rest)
  | ts => .error (refusal .map ts)

/-! ### A reading leaves fewer tokens -/

theorem exists_of_map {f : α → β} {r : Result α} {y : β} {rest : List Token}
    (h : map f r = .ok (y, rest)) : ∃ x, r = .ok (x, rest) := by
  cases r with
  | error e => cases h
  | ok x =>
    cases h
    exact ⟨x.1, rfl⟩

theorem length_lt_of_string {ts rest : List Token} {s : String}
    (h : string ts = .ok (s, rest)) : rest.length < ts.length := by
  unfold string at h
  split at h
  · cases h
    exact Nat.lt_succ_self _
  · cases h

theorem length_lt_of_optionalString {ts rest : List Token} {s : Option String}
    (h : optionalString ts = .ok (s, rest)) : rest.length < ts.length := by
  unfold optionalString at h
  split at h
  · cases h
    exact Nat.lt_succ_self _
  · obtain ⟨_, h⟩ := exists_of_map h
    exact length_lt_of_string h

theorem length_lt_of_moreStrings {i : Nat} {ts rest : List Token} {ss : List String}
    (h : moreStrings i ts = .ok (ss, rest)) : rest.length < ts.length := by
  fun_induction moreStrings i ts generalizing ss with
  | case1 => cases h; exact Nat.lt_succ_self _
  | case2 i s rest' ih =>
    obtain ⟨_, h⟩ := exists_of_map h
    have := ih h
    simp only [List.length_cons]
    omega
  | case3 => cases h
  | case4 => cases h
  | case5 => cases h

theorem length_lt_of_strings {ts rest : List Token} {ss : List String}
    (h : strings ts = .ok (ss, rest)) : rest.length < ts.length := by
  unfold strings at h
  split at h
  · cases h
    simp only [List.length_cons]
    omega
  · obtain ⟨_, h⟩ := exists_of_map h
    have := length_lt_of_moreStrings h
    simp only [List.length_cons]
    omega
  all_goals cases h

theorem length_lt_of_moreMembers {ts rest : List Token} {ms : List (String × String)}
    (h : moreMembers ts = .ok (ms, rest)) : rest.length < ts.length := by
  fun_induction moreMembers ts generalizing ms with
  | case1 => cases h; exact Nat.lt_succ_self _
  | case2 key s rest' ih =>
    obtain ⟨_, h⟩ := exists_of_map h
    have := ih h
    simp only [List.length_cons]
    omega
  | case3 => cases h
  | case4 => cases h
  | case5 => cases h
  | case6 => cases h

theorem length_lt_of_table {ts rest : List Token} {t : Table String}
    (h : table ts = .ok (t, rest)) : rest.length < ts.length := by
  unfold table at h
  split at h
  · cases h
    simp only [List.length_cons]
    omega
  · obtain ⟨_, h⟩ := exists_of_map h
    have := length_lt_of_moreMembers h
    simp only [List.length_cons]
    omega
  all_goals cases h

end Reading

namespace Settings

open Reading

/-- Reads the value of a key. -/
def readValue (d : Draft) (key : Key) (ts : List Token) : Result Draft :=
  let done (s : Settings) : Draft := ⟨s, key :: d.given⟩
  let s := d.settings
  match key with
  | .formatterCommand => map (fun x => done { s with formatterCommand := x }) (strings ts)
  | .spellings => map (fun x => done { s with spellings := x }) (table ts)
  | .includes => map (fun x => done { s with includes := x }) (table ts)
  | .enumSource => map (fun x => done { s with enumSource := x }) (optionalString ts)
  | .variantSource => map (fun x => done { s with variantSource := x }) (optionalString ts)
  | .outputExtension => map (fun x => done { s with outputExtension := x }) (optionalString ts)

theorem length_lt_of_readValue {d d' : Draft} {key : Key} {ts rest : List Token}
    (h : readValue d key ts = .ok (d', rest)) : rest.length < ts.length := by
  unfold readValue at h
  cases key <;> obtain ⟨_, h⟩ := exists_of_map h
  · exact length_lt_of_strings h
  · exact length_lt_of_table h
  · exact length_lt_of_table h
  · exact length_lt_of_optionalString h
  · exact length_lt_of_optionalString h
  · exact length_lt_of_optionalString h

/-- Reads the value of a member, after its key. -/
def afterColon (name : String) (read : List Token → Result α) : List Token → Result α
  | .colon :: rest => Decode.at_ (.key name) (read rest)
  | ts => .error (malformed (colonRefusal ts))

theorem length_lt_of_afterColon {name : String} {read : List Token → Result α} {x : α}
    {ts rest : List Token}
    (shorter : ∀ ts rest, read ts = .ok (x, rest) → rest.length < ts.length)
    (h : afterColon name read ts = .ok (x, rest)) : rest.length < ts.length := by
  unfold afterColon at h
  split at h
  · rename_i inner
    cases hr : read inner with
    | error e => rw [hr] at h; cases h
    | ok y =>
      rw [hr] at h
      cases h
      exact Nat.lt_succ_of_lt (shorter _ _ hr)
  · cases h

/-- Passes over the value of a member. -/
def passOver (d : Draft) (ts : List Token) : Result Draft :=
  match Json.skipValue ts with
  | .error e => .error (malformed e)
  | .ok rest => .ok (d, rest)

theorem length_lt_of_passOver {d d' : Draft} {ts rest : List Token}
    (h : passOver d ts = .ok (d', rest)) : rest.length < ts.length := by
  unfold passOver at h
  split at h
  · cases h
  · rename_i hs
    cases h
    exact Json.Skip.length_lt_of_run hs

/-- Reads the rest of a member, after its key; an unknown one is passed over. -/
def readMember (d : Draft) (name : String) (ts : List Token) : Result Draft :=
  match Key.ofName? name with
  | none => afterColon name (passOver d) ts
  | some key =>
    if key ∈ d.given then .error (.here (.duplicateField name))
    else afterColon name (readValue d key) ts

theorem length_lt_of_readMember {d d' : Draft} {name : String} {ts rest : List Token}
    (h : readMember d name ts = .ok (d', rest)) : rest.length < ts.length := by
  unfold readMember at h
  split at h
  · exact length_lt_of_afterColon (fun _ _ => length_lt_of_passOver) h
  · split at h
    · cases h
    · exact length_lt_of_afterColon (fun _ _ => length_lt_of_readValue) h

/-- The error of tokens that do not begin with a key. -/
def keyRefusal (atEnd : SyntaxError) : List Token → DecodeError
  | [] => malformedKey atEnd
  | .string (.error e) :: _ => malformedKey e
  | .brokenString reading _ :: _ => malformedKey reading
  | _ :: _ => malformedKey .keyNotString

/-- Reads the rest of an object, after a member. -/
def readMoreMembers (d : Draft) (ts : List Token) : Result Draft :=
  match ts with
  | .closeObject :: rest => .ok (d, rest)
  | .comma :: .string (.ok name) :: rest =>
    match h : readMember d name rest with
    | .error e => .error e
    | .ok (d, rest') =>
      have := length_lt_of_readMember h
      readMoreMembers d rest'
  | .comma :: .closeObject :: _ => .error (malformedKey .trailingComma)
  | .comma :: rest => .error (keyRefusal .endInValue rest)
  | [] => .error (malformedKey .endInObject)
  | _ :: _ => .error (malformedKey .expectedObjectEnd)
termination_by ts.length

/-- Reads an object, after its bracket. -/
def readMembers : List Token → Result Draft
  | .closeObject :: rest => .ok ({}, rest)
  | .string (.ok name) :: rest =>
    match readMember {} name rest with
    | .error e => .error e
    | .ok (d, rest) => readMoreMembers d rest
  | ts => .error (keyRefusal .endInObject ts)

/-- Reads the values of an array for the keys that are left, from an index on.  An array that ends
early leaves the other keys absent. -/
def readElements (d : Draft) (i : Nat) : List Key → List Token → Result Draft
  | [], ts => .ok (d, ts)
  | key :: keys, ts =>
    let next (rest : List Token) : Result Draft :=
      match Decode.at_ (.index i) (readValue d key rest) with
      | .error e => .error e
      | .ok (d, rest) => readElements d (i + 1) keys rest
    match i, ts with
    | _, .closeArray :: _ => .ok (d, ts)
    | _, [] => .error (malformed .endInList)
    | 0, ts => next ts
    | _, .comma :: [] => .error (malformed .endInValue)
    | _, .comma :: .closeArray :: _ => .error (malformed .trailingComma)
    | _, .comma :: rest => next rest
    | _, _ :: _ => .error (malformed .expectedListEnd)

/-- The end of an array whose values have been read. -/
def readArrayEnd (d : Draft) : List Token → Result Draft
  | .closeArray :: rest => .ok (d, rest)
  | .comma :: .closeArray :: _ => .error (malformed .trailingComma)
  | [] => .error (malformed .endInList)
  | _ :: _ => .error (malformed .trailingCharacters)

/-- Reads settings, as an object or as an array of the values in order. -/
def read : List Token → Result Draft
  | .openObject :: rest => readMembers rest
  | .openArray :: rest =>
    match readElements {} 0 Key.all rest with
    | .error e => .error e
    | .ok (d, rest) => readArrayEnd d rest
  | ts => .error (refusal .settings ts)

/-- The settings at the start of a text. -/
def ofText (text : String) : Except DecodeError Settings :=
  (read (Json.tokens text.toList)).map fun x => x.1.settings

end Settings

end SchemaModel

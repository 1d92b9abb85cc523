import SchemaModel.Proofs.TokenForms
import SchemaModel.Proofs.ValueRules
import SchemaModel.Settings.OfText

/-!
# Settings in a text and as a value

Settings are read from the tokens of a text as they come, or from a value that has been read before.
Both ways take the members of an object one by one and end with the first error, and on the tokens
of a value they agree step by step.  So they agree on every text that spells an object, as long as
the value that is read is what the text spells; and that it is if no object in it repeats a key.
Written settings hold every key, and each value reads as what it was written for.

* `Reading.Agrees` — a reading of tokens agrees with a reading of values;
* `Settings.fillMember` — what one member does to the settings;
* `Settings.readMember_tokenForm`, `Settings.ofText_of_tokenForm` — one member, and a whole object;
* `Settings.ofJson_toJson` — written settings read back;
* `Settings.ofJson_toJson_of_ofJson` — so do settings that have been read;
* `settings_read_alike` — the two ways and the way back.
-/

namespace SchemaModel

open Json (Token tokenForm itemTokens memberTokens)

namespace Reading

/-! ### Values of one kind -/

/-- On the tokens of a value, a reading of tokens has the outcome of a reading of values, and leaves
the tokens behind them. -/
def Agrees {α : Type} (read : List Token → Result α) (decode : Json → Except DecodeError α) : Prop :=
  ∀ v rest, read (tokenForm v ++ rest) = (decode v).map fun x => (x, rest)

theorem Agrees.map {α β : Type} {read : List Token → Result α}
    {decode : Json → Except DecodeError α} (h : Agrees read decode) (f : α → β) :
    Agrees (fun ts => Reading.map f (read ts)) fun v => (decode v).map f := by
  intro v rest
  show Reading.map f (read (tokenForm v ++ rest)) = ((decode v).map f).map fun x => (x, rest)
  rw [h v rest]
  cases decode v <;> rfl

theorem optionalString_agrees : Agrees optionalString (Decode.optional Decode.string) := by
  intro v rest
  cases v <;> rfl

theorem moreStrings_itemTokens (i : Nat) (items : List Json) (rest : List Token) :
    moreStrings i (itemTokens [.comma] items ++ rest) =
      (Decode.stringsFrom i items).map fun ss => (ss, rest) := by
  induction items generalizing i with
  | nil => rfl
  | cons v items ih =>
    cases v with
    | string s =>
      show Reading.map (s :: ·) (moreStrings (i + 1) (itemTokens [.comma] items ++ rest)) =
        ((Decode.stringsFrom (i + 1) items).map (s :: ·)).map fun ss => (ss, rest)
      rw [ih]
      cases Decode.stringsFrom (i + 1) items <;> rfl
    | _ => rfl

theorem strings_agrees : Agrees strings Decode.strings := by
  intro v rest
  cases v with
  | array items =>
    cases items with
    | nil => rfl
    | cons v items =>
      cases v with
      | string s =>
        show Reading.map (s :: ·) (moreStrings 1 (itemTokens [.comma] items ++ rest)) =
          ((Decode.stringsFrom 1 items).map (s :: ·)).map fun ss => (ss, rest)
        rw [moreStrings_itemTokens]
        cases Decode.stringsFrom 1 items <;> rfl
      | _ => rfl
  | _ => rfl

theorem moreMembers_memberTokens (members : List (String × Json)) (rest : List Token) :
    moreMembers (memberTokens [.comma] members ++ rest) =
      (Decode.stringMembers members).map fun ms => (ms, rest) := by
  induction members with
  | nil => rfl
  | cons m members ih =>
    obtain ⟨key, v⟩ := m
    cases v with
    | string s =>
      show Reading.map ((key, s) :: ·) (moreMembers (memberTokens [.comma] members ++ rest)) =
        ((Decode.stringMembers members).map ((key, s) :: ·)).map fun ms => (ms, rest)
      rw [ih]
      cases Decode.stringMembers members <;> rfl
    | _ => rfl

theorem table_agrees : Agrees table Decode.stringTable := by
  intro v rest
  cases v with
  | object members =>
    cases members with
    | nil => rfl
    | cons m members =>
      obtain ⟨key, v⟩ := m
      cases v with
      | string s =>
        show Reading.map (fun others => Table.ofEntries ((key, s) :: others))
            (moreMembers (memberTokens [.comma] members ++ rest)) =
          (((Decode.stringMembers members).map ((key, s) :: ·)).map Table.ofEntries).map
            fun t => (t, rest)
        rw [moreMembers_memberTokens]
        cases Decode.stringMembers members <;> rfl
      | _ => rfl
  | _ => rfl

end Reading

namespace Settings

open Reading Outcome

/-! ### Members -/

theorem readValue_agrees (d : Draft) (key : Key) : Agrees (readValue d key) (d.fill key) := by
  let done (s : Settings) : Draft := ⟨s, key :: d.given⟩
  intro v rest
  cases key with
  | formatterCommand =>
    exact strings_agrees.map (fun x => done { d.settings with formatterCommand := x }) v rest
  | spellings => exact table_agrees.map (fun x => done { d.settings with spellings := x }) v rest
  | includes => exact table_agrees.map (fun x => done { d.settings with includes := x }) v rest
  | enumSource =>
    exact optionalString_agrees.map (fun x => done { d.settings with enumSource := x }) v rest
  | variantSource =>
    exact optionalString_agrees.map (fun x => done { d.settings with variantSource := x }) v rest
  | outputExtension =>
    exact optionalString_agrees.map (fun x => done { d.settings with outputExtension := x }) v rest

theorem passOver_agrees (d : Draft) : Agrees (passOver d) fun _ => .ok d := by
  intro v rest
  rw [passOver, Json.skipValue_tokenForm]
  rfl

/-- What one member does to the settings. -/
def fillMember (d : Draft) (name : String) (v : Json) : Except DecodeError Draft :=
  match Key.ofName? name with
  | none => .ok d
  | some key =>
    if key ∈ d.given then .error (.here (.duplicateField name))
    else Decode.at_ (.key name) (d.fill key v)

theorem fillMembers_cons (d : Draft) (name : String) (v : Json) (rest : List (String × Json)) :
    fillMembers d ((name, v) :: rest) = fillMember d name v >>= (fillMembers · rest) := by
  rw [fillMembers, fillMember]
  cases Key.ofName? name with
  | none => rfl
  | some key =>
    simp only
    split
    · rfl
    · cases Decode.at_ (.key name) (d.fill key v) <;> rfl

/-- **One member is read alike** from its tokens and as a value. -/
theorem readMember_tokenForm (d : Draft) (name : String) (v : Json) (rest : List Token) :
    readMember d name (.colon :: (tokenForm v ++ rest)) =
      (fillMember d name v).map fun d => (d, rest) := by
  rw [readMember, fillMember]
  cases Key.ofName? name with
  | none =>
    simp only [afterColon]
    rw [passOver_agrees d v rest]
    rfl
  | some key =>
    simp only
    split
    · rfl
    · rw [afterColon, readValue_agrees d key v rest]
      cases d.fill key v <;> rfl

theorem readMoreMembers_memberTokens (d : Draft) (members : List (String × Json))
    (rest : List Token) :
    readMoreMembers d (memberTokens [.comma] members ++ rest) =
      (fillMembers d members).map fun d => (d, rest) := by
  induction members generalizing d with
  | nil =>
    show readMoreMembers d (.closeObject :: rest) = _
    rw [readMoreMembers]
    rfl
  | cons m members ih =>
    obtain ⟨name, v⟩ := m
    have member := readMember_tokenForm d name v (memberTokens [.comma] members ++ rest)
    rw [fillMembers_cons, Json.memberTokens_cons]
    show readMoreMembers d (.comma :: .string (.ok name) :: .colon ::
      (tokenForm v ++ (memberTokens [.comma] members ++ rest))) = _
    rw [readMoreMembers]
    split
    · rename_i failed
      rw [member] at failed
      rw [map_eq_error.1 failed]
      rfl
    · rename_i filled
      rw [member] at filled
      obtain ⟨d', first, same⟩ := map_eq_ok.1 filled
      cases same
      rw [first]
      exact ih _

theorem readMembers_memberTokens (members : List (String × Json)) (rest : List Token) :
    readMembers (memberTokens [] members ++ rest) =
      (fillMembers {} members).map fun d => (d, rest) := by
  cases members with
  | nil => rfl
  | cons m members =>
    obtain ⟨name, v⟩ := m
    rw [fillMembers_cons, Json.memberTokens_cons, List.nil_append, readMembers,
      readMember_tokenForm]
    cases fillMember {} name v with
    | error e => rfl
    | ok d => exact readMoreMembers_memberTokens d members rest

/-- **Settings are read alike** from the tokens of an object and from the object. -/
theorem ofText_of_tokenForm {text : String} {members : List (String × Json)}
    (spelled : Json.tokens text.toList = tokenForm (.object members)) :
    ofText text = ofJson (.object members) := by
  have read := readMembers_memberTokens members []
  rw [List.append_nil] at read
  rw [ofText, spelled]
  show (readMembers (memberTokens [] members)).map _ = (fillMembers {} members).map _
  rw [read]
  cases fillMembers {} members <;> rfl

/-! ### Written settings -/

/-- Neither table of the settings repeats a key. -/
structure HasDistinctKeys (s : Settings) : Prop where
  spellings : s.spellings.keys.Nodup
  includes : s.includes.keys.Nodup

theorem stringTable_tableJson {t : Table String} (distinct : t.keys.Nodup) :
    Decode.stringTable (tableJson t) = .ok t := by
  have members : Decode.stringMembers (t.map fun e => (e.1, .string e.2)) = .ok t := by
    induction t with
    | nil => rfl
    | cons e rest ih =>
      rw [List.map_cons, Decode.stringMembers, ih (List.nodup_cons.1 distinct).2]
      rfl
  rw [tableJson, Decode.stringTable, members]
  exact congrArg Except.ok (Table.ofEntries_of_nodup distinct)

theorem optional_optionalJson (s : Option String) :
    Decode.optional Decode.string (optionalJson s) = .ok s := by
  cases s <;> rfl

/-- **Written settings read back.** -/
theorem ofJson_toJson {s : Settings} (distinct : s.HasDistinctKeys) : ofJson s.toJson = .ok s := by
  have command : Decode.strings (.array (s.formatterCommand.map .string)) =
      .ok s.formatterCommand := Decode.strings_eq_ok.2 rfl
  have spellings := stringTable_tableJson distinct.spellings
  have includes := stringTable_tableJson distinct.includes
  simp [toJson, ofJson, fillMembers, Key.ofName?_name, Draft.fill, command, spellings, includes,
    optional_optionalJson, Decode.at_, Except.map, Except.mapError]

/-! ### Settings that have been read -/

theorem keys_nodup_empty : (Table.keys ([] : Table String)).Nodup := List.nodup_nil

theorem keys_nodup_of_stringTable {v : Json} {t : Table String}
    (h : Decode.stringTable v = .ok t) : t.keys.Nodup := by
  cases v with
  | object members =>
    obtain ⟨entries, -, rfl⟩ := map_eq_ok.1 h
    exact Table.keys_putAll_nodup keys_nodup_empty entries
  | _ => cases h

theorem HasDistinctKeys.fill {d d' : Draft} {key : Key} {v : Json}
    (distinct : d.settings.HasDistinctKeys) (h : d.fill key v = .ok d') :
    d'.settings.HasDistinctKeys := by
  cases key with
  | spellings =>
    obtain ⟨t, ht, rfl⟩ := map_eq_ok.1 h
    exact ⟨keys_nodup_of_stringTable ht, distinct.includes⟩
  | includes =>
    obtain ⟨t, ht, rfl⟩ := map_eq_ok.1 h
    exact ⟨distinct.spellings, keys_nodup_of_stringTable ht⟩
  | _ =>
    obtain ⟨x, -, rfl⟩ := map_eq_ok.1 h
    exact ⟨distinct.spellings, distinct.includes⟩

/-- Settings that are read from the members of an object repeat no key in their tables. -/
theorem HasDistinctKeys.fillMembers {d d' : Draft} {members : List (String × Json)}
    (distinct : d.settings.HasDistinctKeys) (h : Settings.fillMembers d members = .ok d') :
    d'.settings.HasDistinctKeys := by
  induction members generalizing d with
  | nil =>
    cases h
    exact distinct
  | cons m members ih =>
    obtain ⟨name, v⟩ := m
    rw [fillMembers_cons] at h
    obtain ⟨d₁, first, later⟩ := bind_eq_ok.1 h
    refine ih ?_ later
    rw [fillMember] at first
    split at first
    · cases first
      exact distinct
    · split at first
      · cases first
      · exact distinct.fill (mapError_eq_ok.1 first)

theorem distinctKeys_of_ofJson {members : List (String × Json)} {s : Settings}
    (h : ofJson (.object members) = .ok s) : s.HasDistinctKeys := by
  obtain ⟨d, read, rfl⟩ := map_eq_ok.1 h
  exact HasDistinctKeys.fillMembers ⟨keys_nodup_empty, keys_nodup_empty⟩ read

/-- **Settings that have been read are kept by writing them**: their written form reads as the object
did from which they come. -/
theorem ofJson_toJson_of_ofJson {members : List (String × Json)} {s : Settings}
    (h : ofJson (.object members) = .ok s) : ofJson s.toJson = ofJson (.object members) :=
  (ofJson_toJson (distinctKeys_of_ofJson h)).trans h.symm

end Settings

/-- A text spells a value in which no object repeats a key.  What can be read at all spells one value
and no other, by `Json.exists_tokenForm_of_parse` and `Json.tokenForm_injective`. -/
def Json.SpelledOnce (text : String) : Prop :=
  ∃ v : Json, Json.tokens text.toList = tokenForm v ∧ v.HasDistinctKeys

/-- **Settings in a text and as a value are read alike.**  On a text that is an object in which no
object repeats a key, the reading of the text has the outcome of the reading of its value, be it
settings or an error; and the written form of settings reads back as these settings. -/
theorem settings_read_alike :
    (∀ text v, Json.parse (some Json.fileDepthLimit) text = .ok v → v.isObject = true →
      Json.SpelledOnce text → Settings.ofText text = Settings.ofJson v) ∧
    ∀ s : Settings, s.HasDistinctKeys →
      Settings.ofJson s.toJson = .ok s ∧
        (Settings.ofJson s.toJson).map Settings.options = .ok s.options := by
  constructor
  · intro text v parsed object once
    obtain ⟨u, spelled, distinct⟩ := once
    obtain ⟨u', spelled', merged⟩ := Json.exists_tokenForm_of_parse parsed
    obtain rfl : u = u' := Json.tokenForm_injective (spelled.symm.trans spelled')
    obtain rfl : u = v := (Json.merged_eq distinct).symm.trans merged
    cases u with
    | object members => exact Settings.ofText_of_tokenForm spelled
    | _ => cases object
  · intro s distinct
    rw [Settings.ofJson_toJson distinct]
    exact ⟨rfl, rfl⟩

/-- A text with a member that is passed over, and a table that may or may not be one of strings. -/
def Settings.dateText (date : String) : String :=
  "\x7b\"type_map\": \x7b\"date\": " ++ date ++ "\x7d, \"note\": [\x7b\x7d, null]\x7d"

/-- The value of the text. -/
def Settings.dateJson (date : Json) : Json :=
  .object [("type_map", .object [("date", date)]), ("note", .array [.object [], .null])]

theorem dateTexts_read_alike :
    let s : Settings := { spellings := [("date", "Day")] }
    let e : DecodeError := ⟨[.key "type_map", .key "date"], .wrongType (.bool true) .string⟩
    Settings.ofText (Settings.dateText "\"Day\"") = .ok s ∧
      Settings.ofText (Settings.dateText "true") = .error e ∧
      Settings.ofJson s.toJson = .ok s := by
  intro s e
  obtain ⟨alike, back⟩ := settings_read_alike
  have once : ∀ date : Json, date.HasDistinctKeys → (Settings.dateJson date).HasDistinctKeys := by
    intro date distinct
    simp [Settings.dateJson, Json.HasDistinctKeys, Json.MembersHaveDistinctKeys,
      Json.ItemsHaveDistinctKeys, distinct]
  have spelled : Json.SpelledOnce (Settings.dateText "\"Day\"") :=
    ⟨Settings.dateJson (.string "Day"), rfl, once (.string "Day") trivial⟩
  have spelled' : Json.SpelledOnce (Settings.dateText "true") :=
    ⟨Settings.dateJson (.bool true), rfl, once (.bool true) trivial⟩
  refine ⟨?_, ?_, (back s ⟨by decide, by decide⟩).1⟩
  · rw [alike _ (Settings.dateJson (.string "Day")) rfl rfl spelled]
    rfl
  · rw [alike _ (Settings.dateJson (.bool true)) rfl rfl spelled']
    rfl

end SchemaModel

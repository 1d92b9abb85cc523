import SchemaModel.Json.Text
import SchemaModel.Proofs.NumberTexts
import SchemaModel.Proofs.Separated
import SchemaModel.Proofs.TokenForms

/-!
# Indented texts read back

A value that is written over several lines has the tokens of the value: white space adds none, an
escaped string is one token, and a number ends at the comma or the line break behind it.  So the
text is read as the value, with its members in their order.  The numbers have to be integers of 64
bits, since others are rounded more than once when they are read.

* `Json.tokens_append` — a text that leaves the machine outside every token;
* `Json.tokens_quote` — a string between quotes;
* `Json.MayFollow`, `Json.Shows` — what stands behind a value, and that a text shows its tokens;
* `Json.shows_block` — parts between brackets;
* `Json.parse_indented` — the text of a value reads back.
-/

namespace SchemaModel.Json

/-! ### Texts one after another -/

namespace Scan

theorem foldl_advance_done (cs : List Char) (s : Scan) (done : List Token) :
    cs.foldl advance (s, done) =
      ((cs.foldl advance (s, [])).1, (cs.foldl advance (s, [])).2 ++ done) := by
  induction cs generalizing s done with
  | nil => rfl
  | cons c cs ih =>
    have head : ∀ done, advance (s, done) c = ((s.step c).2, (s.step c).1.reverse ++ done) :=
      fun _ => rfl
    rw [List.foldl_cons, List.foldl_cons, head, head, List.append_nil, ih, ih _ (List.reverse _),
      List.append_assoc]

end Scan

theorem tokens_of_foldl {text rest : List Char} {ts : List Token}
    (h : text.foldl Scan.advance (.between, []) = rest.foldl Scan.advance (.between, ts.reverse)) :
    tokens text = ts ++ tokens rest := by
  rw [Scan.foldl_advance_done rest .between ts.reverse] at h
  simp [tokens, h]

/-- A text that leaves the machine outside every token has its own tokens, whatever follows. -/
theorem tokens_append (cs : List Char) (ts : List Token)
    (ends : cs.foldl Scan.advance (.between, []) = (.between, ts.reverse)) (rest : List Char) :
    tokens (cs ++ rest) = ts ++ tokens rest := by
  refine tokens_of_foldl ?_
  rw [List.foldl_append, ends]

theorem tokens_openArray (rest : List Char) : tokens ('[' :: rest) = .openArray :: tokens rest :=
  tokens_append ['['] [.openArray] rfl rest

theorem tokens_openObject (rest : List Char) :
    tokens ('\x7b' :: rest) = .openObject :: tokens rest :=
  tokens_append ['\x7b'] [.openObject] rfl rest

theorem tokens_closeArray (rest : List Char) : tokens (']' :: rest) = .closeArray :: tokens rest :=
  tokens_append [']'] [.closeArray] rfl rest

theorem tokens_closeObject (rest : List Char) :
    tokens ('\x7d' :: rest) = .closeObject :: tokens rest :=
  tokens_append ['\x7d'] [.closeObject] rfl rest

theorem tokens_comma (rest : List Char) : tokens (',' :: rest) = .comma :: tokens rest :=
  tokens_append [','] [.comma] rfl rest

theorem tokens_colon (rest : List Char) : tokens (':' :: ' ' :: rest) = .colon :: tokens rest :=
  tokens_append [':', ' '] [.colon] rfl rest

theorem toList_lineBreak (level : ℕ) :
    (lineBreak level).toList = '\n' :: List.replicate (2 * level) ' ' := by
  simp [lineBreak]

/-- A line break and the spaces behind it add no token. -/
theorem tokens_lineBreak (level : ℕ) (rest : List Char) :
    tokens ((lineBreak level).toList ++ rest) = tokens rest := by
  have spaces : ∀ n, (List.replicate n ' ').foldl Scan.advance (.between, []) = (.between, []) := by
    intro n
    induction n with
    | zero => rfl
    | succ n ih => exact ih
  refine tokens_append _ [] ?_ rest
  rw [toList_lineBreak]
  exact spaces (2 * level)

/-! ### Strings -/

/-- Outside an escape, with some characters read. -/
def StringScan.reading (done : List Char) : StringScan := { content := .ok done }

/-- An escaped character is read as the character. -/
theorem foldl_advance_escapeChar (c : Char) (done : List Char) (ts : List Token) :
    (escapeChar c).foldl Scan.advance (.string (.reading done), ts) =
      (.string (.reading (c :: done)), ts) := by
  unfold escapeChar
  split
  case h_8 quote backslash _ _ _ _ _ =>
    split_ifs with control
    · rw [← Char.ofNat_toNat c]
      generalize c.toNat = code at control
      interval_cases code <;> rfl
    · have plain : (StringScan.reading done).step c = .more (.reading (c :: done)) := by
        show (if c = '\\' then _ else _) = _
        rw [if_neg backslash]
        show (if c = '"' then _ else if c.toNat < 0x20 then _ else _) = _
        rw [if_neg quote, if_neg control]
        rfl
      have step : (Scan.string (.reading done)).step c = ([], .string (.reading (c :: done))) := by
        unfold Scan.step
        dsimp only
        rw [plain]
      exact Scan.advance_eq step ts
  all_goals rfl

/-- **A string between quotes is one token.** -/
theorem tokens_quote (s : String) (rest : List Char) :
    tokens ((quote s).toList ++ rest) = .string (.ok s) :: tokens rest := by
  have content : ∀ (cs done : List Char),
      (cs.flatMap escapeChar).foldl Scan.advance (.string (.reading done), []) =
        (.string (.reading (cs.reverse ++ done)), []) := by
    intro cs
    induction cs with
    | nil => exact fun _ => rfl
    | cons c cs ih =>
      intro done
      rw [List.flatMap_cons, List.foldl_append, foldl_advance_escapeChar, ih, List.reverse_cons,
        List.append_assoc]
      rfl
  have ends : (quote s).toList.foldl Scan.advance (.between, []) =
      (.between, [.string (.ok s)]) := by
    rw [quote, String.toList_ofList, List.cons_append, List.foldl_cons, List.foldl_append]
    show List.foldl Scan.advance
      ((s.toList.flatMap escapeChar).foldl Scan.advance (.string (.reading []), [])) ['"'] = _
    rw [content, List.append_nil]
    show (Scan.between, [Token.string (.ok (String.ofList s.toList.reverse.reverse))]) = _
    rw [List.reverse_reverse, String.ofList_toList]
  exact tokens_append _ [.string (.ok s)] ends rest

/-! ### Values -/

/-- What may stand behind a value: nothing, or a character that ends a number. -/
def MayFollow (rest : List Char) : Prop :=
  ∀ c, rest.head? = some c → c = ',' ∨ c = '\n'

/-- A text shows tokens wherever it stands. -/
def Shows (text : String) (ts : List Token) : Prop :=
  ∀ rest, MayFollow rest → tokens (text.toList ++ rest) = ts ++ tokens rest

/-- All numbers inside the value are integers of 64 bits, with a sign or without. -/
def HasShortNumbers (v : Json) : Prop :=
  ∀ k n, v.Inside k (.number n) → ∃ i : ℤ, n = .int i ∧ -2 ^ 63 ≤ i ∧ i < 2 ^ 64

/-- The parts behind the first one may follow it, as may the line break behind the last one. -/
theorem mayFollow_separatedTail (level level' : ℕ) (parts : List String) (rest : List Char) :
    MayFollow (separatedTail ("," ++ lineBreak level) parts ++
      ((lineBreak level').toList ++ rest)) := by
  rw [toList_lineBreak, List.cons_append]
  refine may_separatedTail (fun rest => ?_) (fun rest => ?_) parts _
  · rw [String.toList_append]
    rintro c ⟨⟩
    exact .inl rfl
  · rintro c ⟨⟩
    exact .inr rfl

/-- **A written integer of 64 bits is one token**; it ends before what may follow it. -/
theorem shows_int {i : ℤ} (low : -2 ^ 63 ≤ i) (high : i < 2 ^ 64) :
    Shows (Number.int i).text [.number (some (.int i))] := by
  obtain ⟨numeral, read, stands⟩ := Number.read?_text (n := .int i) rfl
  obtain ⟨part, complete, state⟩ := Scan.exists_foldl_advance_of_read? read
  have value := Numeral.value?_eq_some stands low high
  intro rest follows
  cases rest with
  | nil => rw [List.append_nil, tokens_of_read? read, value]; rfl
  | cons c rest =>
    have ends : part.step numeral c = .finished := by
      rcases follows c rfl with rfl | rfl <;> cases part <;> first | rfl | cases complete
    have step : Scan.advance (.numeral part numeral, []) c =
        Scan.advance (.between, [.number numeral.value?]) c := by
      have found : (Scan.numeral part numeral).step c =
          (.number numeral.value? :: (Scan.start c).1, (Scan.start c).2) := by
        unfold Scan.step
        dsimp only
        rw [ends]
      show (((Scan.numeral part numeral).step c).2,
        ((Scan.numeral part numeral).step c).1.reverse ++ []) = _
      rw [found, List.reverse_cons, List.append_nil]
      rfl
    rw [← value]
    refine tokens_of_foldl ?_
    rw [List.foldl_append, state, List.foldl_cons, step]
    rfl

section Block

variable {α : Type} {write : α → String} {spell : α → List Token} {opened closed : Token}

/-- The parts behind the first one, and what closes the brackets. -/
theorem tokens_separatedTail {closing : String}
    (closes : ∀ rest, tokens (closing.toList ++ rest) = closed :: tokens rest)
    (level : ℕ) {xs : List α} (each : ∀ x ∈ xs, Shows (write x) (spell x)) (rest : List Char) :
    tokens (separatedTail ("," ++ lineBreak (level + 1)) (xs.map write) ++
        ((lineBreak level).toList ++ (closing.toList ++ rest))) =
      partTokens closed spell [.comma] xs ++ tokens rest := by
  induction xs with
  | nil =>
    show tokens ((lineBreak level).toList ++ (closing.toList ++ rest)) = _
    rw [tokens_lineBreak, closes]
    rfl
  | cons x xs ih =>
    obtain ⟨first, others⟩ := List.forall_mem_cons.1 each
    rw [List.map_cons, separatedTail_cons, String.toList_append, List.append_assoc]
    show tokens (',' :: ((lineBreak (level + 1)).toList ++ _)) = _
    rw [tokens_comma, tokens_lineBreak, first _ (mayFollow_separatedTail _ _ _ _), ih others,
      partTokens_cons]
    rfl

/-- **Parts between brackets show the tokens of the parts.** -/
theorem shows_block (opening closing : String)
    (opens : ∀ rest, tokens (opening.toList ++ rest) = opened :: tokens rest)
    (closes : ∀ rest, tokens (closing.toList ++ rest) = closed :: tokens rest) (level : ℕ)
    {xs : List α} (each : ∀ x ∈ xs, Shows (write x) (spell x)) :
    Shows (block level opening closing (xs.map write))
      (opened :: partTokens closed spell [] xs) := by
  intro rest _
  cases xs with
  | nil =>
    show tokens ((opening ++ closing).toList ++ rest) = _
    rw [String.toList_append, List.append_assoc, opens, closes]
    rfl
  | cons x xs =>
    obtain ⟨first, others⟩ := List.forall_mem_cons.1 each
    have shape : (block level opening closing ((x :: xs).map write)).toList ++ rest =
        opening.toList ++ ((lineBreak (level + 1)).toList ++ ((write x).toList ++
          (separatedTail ("," ++ lineBreak (level + 1)) (xs.map write) ++
            ((lineBreak level).toList ++ (closing.toList ++ rest))))) := by
      rw [List.map_cons, block, List.isEmpty_cons, if_neg Bool.false_ne_true]
      rw [String.toList_append, String.toList_append, String.toList_append, String.toList_append,
        toList_intercalate_cons]
      simp only [List.append_assoc]
    rw [shape, opens, tokens_lineBreak, first _ (mayFollow_separatedTail _ _ _ _),
      tokens_separatedTail closes level others, List.cons_append, partTokens_cons, List.nil_append]

end Block

/-! ### Whole values -/

theorem indentedItems_eq (level : ℕ) (items : List Json) :
    indentedItems level items = items.map (indentedAt level) := by
  induction items with
  | nil => rfl
  | cons v rest ih => rw [indentedItems, ih, List.map_cons]

theorem indentedMembers_eq (level : ℕ) (members : List (String × Json)) :
    indentedMembers level members =
      members.map fun m => quote m.1 ++ ": " ++ indentedAt level m.2 := by
  induction members with
  | nil => rfl
  | cons m rest ih => rw [indentedMembers, ih, List.map_cons]

theorem shows_indentedAt {v : Json} (short : v.HasShortNumbers) (level : ℕ) :
    Shows (v.indentedAt level) v.tokenForm := by
  induction v using Json.induction generalizing level with
  | step v ih =>
    have parts : ∀ u, v.Part u → ∀ level, Shows (u.indentedAt level) u.tokenForm :=
      fun u part => ih 0 u (.deeper part (.here u)) fun k n inside =>
        short (k + 1) n (.deeper part inside)
    cases v with
    | null => exact fun rest _ => tokens_append "null".toList [.null] rfl rest
    | bool b =>
      cases b with
      | true => exact fun rest _ => tokens_append "true".toList [.bool true] rfl rest
      | false =>
        exact fun rest _ => tokens_append "false".toList [.bool false] rfl rest
    | number n =>
      obtain ⟨i, rfl, low, high⟩ := short 0 n (.here _)
      exact shows_int low high
    | string s => exact fun rest _ => tokens_quote s rest
    | array items =>
      rw [indentedAt, indentedItems_eq, tokenForm, itemTokens_eq]
      exact shows_block "[" "]" tokens_openArray tokens_closeArray level fun v mem => parts v mem _
    | object members =>
      rw [indentedAt, indentedMembers_eq, tokenForm, memberTokens_eq]
      refine shows_block "\x7b" "\x7d" tokens_openObject tokens_closeObject level fun m mem => ?_
      intro rest follows
      rw [String.toList_append, String.toList_append, List.append_assoc, List.append_assoc,
        tokens_quote]
      show _ :: tokens (':' :: ' ' :: ((m.2.indentedAt (level + 1)).toList ++ rest)) = _
      rw [tokens_colon, parts m.2 ⟨m.1, mem⟩ _ rest follows]
      rfl

/-- **The text of a value reads back**, if no object repeats a key and all numbers are integers of
64 bits. -/
theorem parse_indented {v : Json} (distinct : v.HasDistinctKeys) (short : v.HasShortNumbers) :
    parse none v.indented = .ok v := by
  have shown := shows_indentedAt short 0 [] (fun c h => by cases h)
  rw [List.append_nil] at shown
  have spelled : tokens v.indented.toList = v.tokenForm := shown.trans (List.append_nil _)
  rw [parse_of_tokens spelled, merged_eq distinct]

end SchemaModel.Json

import Mathlib
import SchemaModel.Settings.Basic

/-!
# Names of written models

The name of a written model is made from the last component of a schema's path, so it stands in the
output directory itself.  Two schemas share a name exactly if their file names have the same stem;
the directories that they stand in make no difference.  The stem of a name is what stands before
the last `.json` in it, wherever that is; it is the name without its suffix only for names that end
in `.json` and for names without any.

* `PathName.slash_notMem_of_mem_splitSlashes` — there is no slash between the slashes;
* `PathName.join_inj` — paths below one directory are told apart by what is joined;
* `Settings.outputPathFor_eq_iff` — when two schemas share an output;
* `Text.beforeLast?_eq_some` — a text is cut at the last occurrence of a part;
* `Settings.stem_eq_withoutSuffix_iff` — when the suffix and nothing else is cut off;
* `output_names_cut_last_json` — the names of all outputs.
-/

namespace SchemaModel

namespace PathName

theorem slash_notMem_of_mem_splitSlashes {text part : List Char} (mem : part ∈ splitSlashes text) :
    '/' ∉ part := by
  induction text generalizing part with
  | nil =>
    rw [splitSlashes, List.mem_singleton] at mem
    rw [mem]
    exact List.not_mem_nil
  | cons c rest ih =>
    rw [splitSlashes] at mem
    by_cases slash : c = '/'
    · rw [if_pos slash] at mem
      rcases List.mem_cons.1 mem with rfl | mem
      · exact List.not_mem_nil
      · exact ih mem
    · rw [if_neg slash] at mem
      cases split : splitSlashes rest with
      | nil =>
        rw [split, List.mem_singleton] at mem
        rw [mem, List.mem_singleton]
        exact Ne.symm slash
      | cons first others =>
        rw [split] at mem ih
        rcases List.mem_cons.1 mem with rfl | mem
        · intro among
          rcases List.mem_cons.1 among with same | among
          · exact slash same.symm
          · exact ih List.mem_cons_self among
        · exact ih (List.mem_cons_of_mem _ mem)

/-- The name of a file has no slash in it. -/
theorem slash_notMem_fileName (path : String) : '/' ∉ ((fileName? path).getD "").toList := by
  cases found : fileName? path with
  | none => simp
  | some name =>
    have last : ((parts path).filter fun part => part ≠ "" ∧ part ≠ ".").getLast? = some name := by
      unfold fileName? at found
      split at found
      · cases found
      · exact found
    have mem := List.mem_of_mem_filter (List.mem_of_getLast? last)
    obtain ⟨part, hpart, rfl⟩ := List.mem_map.1 mem
    rw [Option.getD_some, String.toList_ofList]
    exact slash_notMem_of_mem_splitSlashes hpart

theorem join_inj {base path path' : String} (relative : isAbsolute path = false)
    (relative' : isAbsolute path' = false) : join base path = join base path' ↔ path = path' := by
  constructor
  · intro same
    rw [join, join, relative, relative', if_neg Bool.false_ne_true, if_neg Bool.false_ne_true]
      at same
    by_cases flat : base = "" ∨ endsInSlash base = true
    · rw [if_pos flat, if_pos flat] at same
      exact (String.append_right_inj base).1 same
    · rw [if_neg flat, if_neg flat] at same
      exact (String.append_right_inj (base ++ "/")).1 same
  · rintro rfl
    rfl

/-- A name without a slash stays relative with an extension behind it. -/
theorem isAbsolute_extended {name : String} (extension : String) (plain : '/' ∉ name.toList) :
    isAbsolute (name ++ "." ++ extension) = false := by
  rw [isAbsolute, String.toList_append, String.toList_append]
  cases letters : name.toList with
  | nil => rfl
  | cons c rest =>
    rw [letters] at plain
    have other : c ≠ '/' := fun same => plain (same ▸ List.mem_cons_self)
    simpa using other

end PathName

namespace Settings

theorem beforeLast?_isPrefix {part text before : List Char}
    (h : Text.beforeLast? part text = some before) : before <+: text := by
  induction text generalizing before with
  | nil =>
    rw [Text.beforeLast?] at h
    split at h
    · cases h
      exact List.prefix_refl []
    · cases h
  | cons c rest ih =>
    rw [Text.beforeLast?] at h
    cases further : Text.beforeLast? part rest with
    | some inner =>
      rw [further] at h
      cases h
      exact (List.prefix_cons_inj c).2 (ih further)
    | none =>
      rw [further] at h
      by_cases here : part.isPrefixOf (c :: rest) = true
      · simp only [here, if_true] at h
        cases h
        exact List.nil_prefix
      · simp [here] at h

theorem toList_stem_isPrefix (name : String) : (stem name).toList <+: name.toList := by
  unfold stem
  cases found : Text.beforeLast? ".json".toList name.toList with
  | none => exact List.prefix_refl _
  | some before =>
    show (String.ofList before).toList <+: name.toList
    rw [String.toList_ofList]
    exact beforeLast?_isPrefix found

theorem isAbsolute_outputName (name extension : String) (plain : '/' ∉ name.toList) :
    PathName.isAbsolute (stem name ++ "." ++ extension) = false := by
  apply PathName.isAbsolute_extended
  intro among
  exact plain ((toList_stem_isPrefix name).subset among)

/-- The stem of the file that a path names. -/
def stemOf (path : String) : String := stem ((PathName.fileName? path).getD "")

/-- **Two schemas share an output exactly if their file names have the same stem.** -/
theorem outputPathFor_eq_iff (s : Settings) (path path' directory : String) :
    s.outputPathFor path directory = s.outputPathFor path' directory ↔
      stemOf path = stemOf path' := by
  rw [outputPathFor, outputPathFor,
    PathName.join_inj (isAbsolute_outputName _ _ (PathName.slash_notMem_fileName _))
      (isAbsolute_outputName _ _ (PathName.slash_notMem_fileName _)),
    String.append_left_inj, String.append_left_inj, stemOf, stemOf]

end Settings

/-! ### Where a name is cut -/

namespace Text

theorem beforeLast?_isSome_iff {part text : List Char} :
    (beforeLast? part text).isSome = true ↔ part <:+: text := by
  induction text with
  | nil =>
    rw [beforeLast?]
    by_cases empty : part = [] <;> simp [empty]
  | cons c rest ih =>
    rw [beforeLast?, List.infix_cons_iff, ← ih]
    by_cases here : part <+: c :: rest
    · cases beforeLast? part rest <;> simp [here]
    · cases beforeLast? part rest <;> simp [here]

theorem beforeLast?_eq_none {part text : List Char} :
    beforeLast? part text = none ↔ ¬ part <:+: text := by
  rw [← beforeLast?_isSome_iff, Bool.not_eq_true, Option.isSome_eq_false_iff, Option.isNone_iff_eq_none]

/-- **What stands before the last occurrence** goes on with the part, which does not begin again
further behind. -/
theorem beforeLast?_eq_some {part before after : List Char} (nonempty : part ≠ [])
    (last : ¬ part <:+: (part ++ after).tail) :
    beforeLast? part (before ++ part ++ after) = some before := by
  induction before with
  | nil =>
    cases part with
    | nil => exact absurd rfl nonempty
    | cons c part =>
      have none : beforeLast? (c :: part) (part ++ after) = none := beforeLast?_eq_none.2 last
      simp [beforeLast?, none]
  | cons c before ih =>
    rw [List.cons_append, List.cons_append, beforeLast?, ih]

theorem exists_last_of_infix {part text : List Char} (nonempty : part ≠ [])
    (occurs : part <:+: text) :
    ∃ before after, text = before ++ part ++ after ∧ ¬ part <:+: (part ++ after).tail := by
  induction text with
  | nil =>
    exact absurd (List.eq_nil_of_infix_nil occurs) nonempty
  | cons c rest ih =>
    by_cases further : part <:+: rest
    · obtain ⟨before, after, rfl, last⟩ := ih further
      exact ⟨c :: before, after, rfl, last⟩
    · rcases List.infix_cons_iff.1 occurs with here | later
      · obtain ⟨after, same⟩ := here
        refine ⟨[], after, by simp [same], ?_⟩
        rw [same]
        exact further
      · exact absurd later further

end Text

namespace Settings

/-- The suffix of schema files. -/
def suffix : List Char := ".json".toList

/-- The name of a file without its suffix, if it ends in it. -/
def withoutSuffix (name : String) : String :=
  (name.toList.dropSuffix? suffix).elim name String.ofList

theorem withoutSuffix_of_isSuffix {name : String} {before : List Char}
    (ends : name.toList = before ++ suffix) : withoutSuffix name = String.ofList before := by
  have dropped : name.toList.dropSuffix? suffix = some before := by
    rw [List.dropSuffix?_eq_some_iff]
    exact ⟨suffix, ends, beq_self_eq_true _⟩
  rw [withoutSuffix, dropped]
  rfl

theorem withoutSuffix_of_not_isSuffix {name : String} (other : ¬ suffix <:+ name.toList) :
    withoutSuffix name = name := by
  have kept : name.toList.dropSuffix? suffix = none := by
    by_contra dropped
    obtain ⟨before, found⟩ := Option.ne_none_iff_exists'.1 dropped
    obtain ⟨s, same, equal⟩ := List.dropSuffix?_eq_some_iff.1 found
    exact other ⟨before, by rw [same, eq_of_beq equal]⟩
  rw [withoutSuffix, kept]
  rfl

/-- A name is cut at the last occurrence of the suffix. -/
theorem stem_of_last {name : String} {before after : List Char}
    (split : name.toList = before ++ suffix ++ after)
    (last : ¬ suffix <:+: (suffix ++ after).tail) : stem name = String.ofList before := by
  have cut : Text.beforeLast? suffix (before ++ suffix ++ after) = some before :=
    Text.beforeLast?_eq_some (by decide) last
  rw [stem, split]
  simp only [suffix] at cut ⊢
  rw [cut]

theorem stem_of_absent {name : String} (absent : ¬ suffix <:+: name.toList) :
    stem name = name := by
  have none := Text.beforeLast?_eq_none.2 absent
  rw [stem]
  simp only [suffix] at none
  rw [none]

theorem stem_of_isSuffix {name : String} {before : List Char}
    (ends : name.toList = before ++ suffix) : stem name = String.ofList before := by
  have split : name.toList = before ++ suffix ++ [] := by rw [ends, List.append_nil]
  exact stem_of_last split (by decide)

/-- **The suffix and nothing else is cut off a name exactly if it stands at the end or nowhere.** -/
theorem stem_eq_withoutSuffix_iff {name : String} :
    stem name = withoutSuffix name ↔ suffix <:+ name.toList ∨ ¬ suffix <:+: name.toList := by
  by_cases ends : suffix <:+ name.toList
  · obtain ⟨before, same⟩ := ends
    simp [stem_of_isSuffix same.symm, withoutSuffix_of_isSuffix same.symm, ← same]
  · by_cases occurs : suffix <:+: name.toList
    · obtain ⟨before, after, split, last⟩ := Text.exists_last_of_infix (by decide) occurs
      have shorter : String.ofList before ≠ name := by
        intro same
        have lengths := congrArg List.length split
        rw [← same, String.toList_ofList] at lengths
        simp [suffix] at lengths
      simp [stem_of_last split last, withoutSuffix_of_not_isSuffix ends, shorter, ends, occurs]
    · simp [stem_of_absent occurs, withoutSuffix_of_not_isSuffix ends, occurs]

/-- Names that end in the suffix, and names without it, are told apart by their stems. -/
theorem stem_injective {name name' : String}
    (alike : (suffix <:+ name.toList ∧ suffix <:+ name'.toList) ∨
      (¬ suffix <:+: name.toList ∧ ¬ suffix <:+: name'.toList))
    (same : stem name = stem name') : name = name' := by
  rcases alike with ⟨⟨before, split⟩, before', split'⟩ | ⟨absent, absent'⟩
  · rw [stem_of_isSuffix split.symm, stem_of_isSuffix split'.symm] at same
    have texts : before = before' := by
      rw [← String.toList_ofList (l := before), same, String.toList_ofList]
    rw [← String.toList_inj, ← split, ← split', texts]
  · rwa [stem_of_absent absent, stem_of_absent absent'] at same

theorem isAbsolute_withoutSuffix (name extension : String) (plain : '/' ∉ name.toList) :
    PathName.isAbsolute (withoutSuffix name ++ "." ++ extension) = false := by
  apply PathName.isAbsolute_extended
  by_cases ends : suffix <:+ name.toList
  · obtain ⟨before, same⟩ := ends
    rw [withoutSuffix_of_isSuffix same.symm, String.toList_ofList]
    intro among
    rw [← same] at plain
    exact plain (List.mem_append_left _ among)
  · rwa [withoutSuffix_of_not_isSuffix ends]

theorem outputPathFor_of_fileName (s : Settings) {path name : String} (directory : String)
    (named : PathName.fileName? path = some name) :
    s.outputPathFor path directory =
      PathName.join directory (stem name ++ "." ++ s.extension) := by
  rw [outputPathFor, named, Option.getD_some]

end Settings

open Settings in
/-- **An output is named for what stands before the last `.json` in the name of its schema.**  That
is the name without its suffix exactly if the name ends in `.json` or has none in it; two names that
end in `.json`, and two names that have none in them, have different outputs if they differ. -/
theorem output_names_cut_last_json (s : Settings) (directory : String) {path name : String}
    (named : PathName.fileName? path = some name) :
    (s.outputPathFor path directory =
        PathName.join directory (withoutSuffix name ++ "." ++ s.extension) ↔
      suffix <:+ name.toList ∨ ¬ suffix <:+: name.toList) ∧
    (∀ before after, name.toList = before ++ suffix ++ after →
      ¬ suffix <:+: (suffix ++ after).tail →
      s.outputPathFor path directory =
        PathName.join directory (String.ofList before ++ "." ++ s.extension)) ∧
    ∀ path' name', PathName.fileName? path' = some name' →
      (suffix <:+ name.toList ∧ suffix <:+ name'.toList) ∨
        (¬ suffix <:+: name.toList ∧ ¬ suffix <:+: name'.toList) →
      (s.outputPathFor path directory = s.outputPathFor path' directory ↔ name = name') := by
  have plain : '/' ∉ name.toList := by
    have slash := PathName.slash_notMem_fileName path
    rwa [named, Option.getD_some] at slash
  refine ⟨?_, ?_, ?_⟩
  · rw [outputPathFor_of_fileName s directory named,
      PathName.join_inj (isAbsolute_outputName _ _ plain) (isAbsolute_withoutSuffix _ _ plain),
      String.append_left_inj, String.append_left_inj]
    exact stem_eq_withoutSuffix_iff
  · intro before after split last
    rw [outputPathFor_of_fileName s directory named, stem_of_last split last]
  · intro path' name' named' alike
    rw [outputPathFor_eq_iff, stemOf, stemOf, named, named', Option.getD_some, Option.getD_some]
    exact ⟨stem_injective alike, congrArg stem⟩

/-- Of two suffixes one is cut off. -/
theorem twice_suffixed_output :
    PathName.fileName? "plans/orders.json.json" = some "orders.json.json" ∧
    PathName.fileName? "orders.json" = some "orders.json" ∧
    Settings.outputPathFor {} "plans/orders.json.json" "out" =
      PathName.join "out" (Settings.withoutSuffix "orders.json.json" ++ "." ++ "model.json") ∧
    Settings.outputPathFor {} "plans/orders.json.json" "out" = "out/orders.json.model.json" ∧
    Settings.outputPathFor {} "plans/orders.json.json" "out" ≠
      Settings.outputPathFor {} "orders.json" "out" := by
  have named : PathName.fileName? "plans/orders.json.json" = some "orders.json.json" := by decide
  have named' : PathName.fileName? "orders.json" = some "orders.json" := by decide
  have ends : Settings.suffix <:+ "orders.json.json".toList := by decide
  have ends' : Settings.suffix <:+ "orders.json".toList := by decide
  obtain ⟨whole, cut, apart⟩ := output_names_cut_last_json {} "out" named
  refine ⟨named, named', whole.2 (.inl ends), cut "orders.json".toList [] (by decide) (by decide),
    ?_⟩
  rw [Ne, apart "orders.json" "orders.json" named' (.inl ⟨ends, ends'⟩)]
  decide

/-- What stands behind the last `.json` is lost, so that two names without the suffix share an
output. -/
theorem backup_and_extension_cut :
    PathName.fileName? "notes.json.bak" = some "notes.json.bak" ∧
    PathName.fileName? "notes.jsonld" = some "notes.jsonld" ∧
    ¬ Settings.suffix <:+ "notes.json.bak".toList ∧ ¬ Settings.suffix <:+ "notes.jsonld".toList ∧
    Settings.outputPathFor {} "notes.json.bak" "out" ≠
      PathName.join "out" (Settings.withoutSuffix "notes.json.bak" ++ "." ++
        Settings.extension {}) ∧
    Settings.outputPathFor {} "notes.json.bak" "out" =
      Settings.outputPathFor {} "notes.jsonld" "out" := by
  decide

end SchemaModel

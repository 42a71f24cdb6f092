/-
  ExprMachine.Proofs.Executable.Packages

  The packages of the executable do what is asked of packages: settings that are written
  out are read back, and documents are written.
-/
import ExprMachine.Executable.Packages
import ExprMachine.Proofs.CommandLine.Settings

namespace ExprMachine.Executable

open CommandLine

-- ============================================================================
-- The forms of arguments
-- ============================================================================

variable {name value text path : String} {piece : List String} {options next : Options}

theorem formOf_plain (plain : Plain text) : formOf text = .expression := by
  rw [Plain] at plain
  rw [formOf]
  split <;> simp_all

theorem looksLikeOption_plain (plain : Plain text) : looksLikeOption text = false := by
  rw [Plain] at plain
  rw [looksLikeOption]
  split <;> simp_all

/-- The options that have values. -/
theorem cases_of_takesValue (h : takesValue name = true) :
    name = "env" ∨ name = "env-json" ∨ name = "emit" ∨ name = "diagnostics" ∨
      name = "explain" := by
  simpa [takesValue] using h

theorem formOf_apart (h : takesValue name = true) : formOf ("--" ++ name) = .option name := by
  rcases cases_of_takesValue h with rfl | rfl | rfl | rfl | rfl <;> rfl

theorem formOf_joined (h : takesValue name = true) (value : String) :
    formOf ("--" ++ name ++ "=" ++ value) = .optionWithValue name value := by
  have characters : ("--" ++ name ++ "=" ++ value).toList =
      '-' :: '-' :: (name.toList ++ '=' :: value.toList) := by
    simp [String.toList_append]
  have noEquals : name.toList.all (fun c => decide (c ≠ '=')) = true := by
    rcases cases_of_takesValue h with rfl | rfl | rfl | rfl | rfl <;> rfl
  have long : formOf ("--" ++ name ++ "=" ++ value) =
      longForm (name.toList ++ '=' :: value.toList) := by
    rw [formOf, characters]
    -- The name has characters, so that the two dashes do not end the options.
    rcases cases_of_takesValue h with rfl | rfl | rfl | rfl | rfl <;> rfl
  rw [long, longForm, List.dropWhile_append_of_pos (List.all_eq_true.1 noEquals),
    List.takeWhile_append_of_pos (List.all_eq_true.1 noEquals)]
  simp [h]

theorem formOf_shortEquals (path : String) :
    formOf ("-e=" ++ path) = .optionWithValue "env" path := by
  have characters : ("-e=" ++ path).toList = '-' :: 'e' :: '=' :: path.toList := by
    simp [String.toList_append]
  rw [formOf, characters]
  exact congrArg (Form.optionWithValue "env") String.ofList_toList

theorem formOf_shortJoined (named : path ≠ "") (noEquals : path.toList.head? ≠ some '=') :
    formOf ("-e" ++ path) = .optionWithValue "env" path := by
  have characters : ("-e" ++ path).toList = '-' :: 'e' :: path.toList := by
    simp [String.toList_append]
  have back : String.ofList path.toList = path := String.ofList_toList
  have nonempty : path.toList ≠ [] := fun none => named (String.toList_eq_nil_iff.1 none)
  rw [formOf, characters]
  generalize path.toList = value at noEquals nonempty back
  split <;> grind

-- ============================================================================
-- Reading settings back
-- ============================================================================

/-- An option is read from each way to write it, as its value is set. -/
theorem parseFrom_of_writesValue (known : takesValue name = true)
    (writes : WritesValue name value piece) (sets : setValue? options name value = some next)
    (rest : List String) : parseFrom options (piece ++ rest) = parseFrom next rest := by
  cases writes with
  | apart plain =>
    simp only [List.cons_append, List.nil_append, parseFrom, formOf_apart known,
      looksLikeOption_plain plain, sets]
    rfl
  | joined =>
    simp only [List.cons_append, List.nil_append, parseFrom, formOf_joined known, sets]

theorem parseFrom_of_writesFile (named : path ≠ "") (writes : WritesFile path piece)
    (sets : setValue? options "env" path = some next) (rest : List String) :
    parseFrom options (piece ++ rest) = parseFrom next rest := by
  cases writes with
  | long writes => exact parseFrom_of_writesValue rfl writes sets rest
  | short plain =>
    have form : formOf "-e" = .option "env" := rfl
    simp only [List.cons_append, List.nil_append, parseFrom, form, looksLikeOption_plain plain,
      sets]
    rfl
  | shortEquals =>
    simp only [List.cons_append, List.nil_append, parseFrom, formOf_shortEquals, sets]
  | shortJoined noEquals =>
    simp only [List.cons_append, List.nil_append, parseFrom, formOf_shortJoined named noEquals,
      sets]

theorem parseFrom_flag (form : formOf text = .flag name)
    (sets : setFlag? options name = some next) (rest : List String) :
    parseFrom options ([text] ++ rest) = parseFrom next rest := by
  simp only [List.cons_append, List.nil_append, parseFrom, form, sets]

/-- The arguments for one setting are read as this setting. -/
theorem parseFrom_of_sets (sets : Sets options piece next) (rest : List String) :
    parseFrom options (piece ++ rest) = parseFrom next rest := by
  cases sets with
  | @expression text unset plain =>
    have taken : setExpression? options text = some { options with expression := some text } := by
      simp [setExpression?, unset]
    simp only [List.cons_append, List.nil_append, parseFrom, formOf_plain plain, taken]
  | @environmentFile path _ unset named writes =>
    exact parseFrom_of_writesFile named writes (by simp [setValue?, unset, named]) rest
  | environmentJson unset writes =>
    exact parseFrom_of_writesValue rfl writes (by simp [setValue?, unset]) rest
  | emit unset named writes =>
    exact parseFrom_of_writesValue rfl writes (by simp [setValue?, unset, named]) rest
  | json unset =>
    have form : formOf "--json" = .flag "json" := rfl
    exact parseFrom_flag form (by simp [setFlag?, unset]) rest
  | bare unset =>
    have form : formOf "--bare" = .flag "bare" := rfl
    exact parseFrom_flag form (by simp [setFlag?, unset]) rest
  | errorFormat unset named writes =>
    exact parseFrom_of_writesValue rfl writes (by simp [setValue?, unset, named]) rest
  | noColor unset =>
    have form : formOf "--no-color" = .flag "no-color" := rfl
    exact parseFrom_flag form (by simp [setFlag?, unset]) rest
  | explain unset writes =>
    exact parseFrom_of_writesValue rfl writes (by simp [setValue?, unset]) rest

theorem parseFrom_of_written {arguments : List String} (written : Written options arguments)
    (rest : List String) : parseFrom {} (arguments ++ rest) = parseFrom options rest := by
  induction written generalizing rest with
  | nothing => rfl
  | setting _ sets ih => rw [List.append_assoc, ih, parseFrom_of_sets sets]

theorem finish_of_coherent (coherent : options.Coherent) : finish options = .ok options := by
  have single : (options.environmentFile.isSome && options.environmentJson.isSome) = false := by
    rcases coherent.once with none | none <;> simp [none]
  have asked : (options.expression.isNone && options.explain.isNone) = false := by
    rw [← Option.not_isSome, ← Option.not_isSome]
    rcases coherent.asked with some | some <;> simp [some]
  rw [finish, single, asked]
  rfl

/-- Settings that are written out and can stand together are read back. -/
theorem packages_readsSettings : packages.ReadsSettings := by
  intro options arguments written coherent
  have read := parseFrom_of_written written []
  rw [List.append_nil] at read
  change parseFrom {} arguments = _
  rw [read, parseFrom, finish_of_coherent coherent]

theorem codec_writesDocuments : codec.WritesDocuments :=
  fun document => ⟨pretty document, rfl⟩

end ExprMachine.Executable

/-
Options that are only recorded.

Of the options of a filter, two kinds say something about matching: the one for the case of
letters, and the lists of domains.  Every other option sets a flag that is carried along, or
none at all.  So filters with the same pattern text that agree in these two kinds compile
alike, and their rules accept the same queries.
-/
import UrlFilter.Proofs.Filter.Flags
import UrlFilter.Proofs.Rule.Shape
import UrlFilter.Proofs.RuleSet.DomainConstraint

namespace UrlFilter

/-- The options of a line as texts: what stands between commas behind the first dollar
sign. -/
def optionTexts (line : String) : List (List Char) :=
  match line.toList.dropWhile (· != '$') with
  | [] => []
  | _ :: options => options.splitOn ','

/-- The option for the case of letters. -/
def matchCaseText : List Char := ['m', 'a', 't', 'c', 'h', '-', 'c', 'a', 's', 'e']

/-- What the lists of domains among some options say, entry after entry. -/
def domainClauses (options : List (List Char)) : List DomainClause :=
  ((options.filterMap FilterOption.domainKeyword.isPrefixOf?).flatMap
    (·.splitOn '|')).filterMap DomainClause.ofText?

/-- Two collections of options that say the same about matching. -/
structure OptionsAgree (left right : List (List Char)) : Prop where
  matchCase_iff : matchCaseText ∈ left ↔ matchCaseText ∈ right
  included_eq : (domainClauses left).filterMap DomainClause.included? =
    (domainClauses right).filterMap DomainClause.included?
  excluded_eq : (domainClauses left).filterMap DomainClause.excluded? =
    (domainClauses right).filterMap DomainClause.excluded?

/-- Two rules that match alike: they differ at most in their texts and their flags. -/
structure Rule.MatchesAlike (left right : Rule) : Prop where
  instructions_eq : left.program.instructions = right.program.instructions
  pattern_eq : left.pattern = right.pattern
  included_eq : left.included = right.included
  excluded_eq : left.excluded = right.excluded
  accepts_eq : ∀ mode query, left.accepts mode query = right.accepts mode query

/-- Two answers to compiling a line that fail by the same fault or have rules that match
alike. -/
inductive CompileAlike :
    Except CompileError (Option Rule) → Except CompileError (Option Rule) → Prop
  | failed {left right : CompileError} : left.fault = right.fault →
      left.pattern = right.pattern → CompileAlike (.error left) (.error right)
  | compiled {left right : Rule} : left.MatchesAlike right →
      CompileAlike (.ok (some left)) (.ok (some right))

namespace FilterOption

/-- An option sets the flag for the case of letters exactly if it is the one text for it. -/
theorem flag?_ofText_eq_matchCase_iff {text : List Char} :
    (ofText text).flag? = some .matchCase ↔ text = matchCaseText := by
  constructor
  · intro h
    unfold ofText at h
    split at h
    · rename_i flag hflag
      obtain rfl : flag = .matchCase := Option.some.inj h
      have hname := List.find?_some hflag
      simp only [Flag.optionName?, Option.any_some, beq_iff_eq] at hname
      exact hname.symm
    · split at h
      · cases h
      · cases h
  · rintro rfl
    rfl

/-- No option that sets a flag is a list of domains. -/
theorem isPrefixOf?_eq_none_of_ofOptionName? {text : List Char} {flag : Flag}
    (h : Flag.ofOptionName? text = some flag) : domainKeyword.isPrefixOf? text = none := by
  have hnames : ∀ flag ∈ Flag.optional, ∀ name, flag.optionName? = some name →
      domainKeyword.isPrefixOf? name.toList = none := by decide
  have hname := List.find?_some h
  obtain ⟨name, hname, htext⟩ := (Option.any_eq_true _ _).1 hname
  rw [← beq_iff_eq.1 htext]
  exact hnames flag (List.mem_of_find?_eq_some h) name hname

theorem clauses_ofText (text : List Char) :
    (ofText text).clauses = domainClauses [text] := by
  have hentries : domainClauses [text] =
      (domainKeyword.isPrefixOf? text).elim [] fun entries =>
        (entries.splitOn '|').filterMap DomainClause.ofText? := by
    rw [domainClauses, List.filterMap_cons, List.filterMap_nil]
    cases domainKeyword.isPrefixOf? text with
    | none => rfl
    | some entries => rw [List.flatMap_singleton, Option.elim_some]
  rw [hentries, ofText]
  cases hflag : Flag.ofOptionName? text with
  | some flag =>
      rw [isPrefixOf?_eq_none_of_ofOptionName? hflag]
      rfl
  | none => cases domainKeyword.isPrefixOf? text <;> rfl

end FilterOption

theorem domainClauses_cons (option : List Char) (options : List (List Char)) :
    domainClauses (option :: options) = domainClauses [option] ++ domainClauses options := by
  simp only [domainClauses, ← List.flatMap_append, ← List.filterMap_append]
  rfl

namespace Filter

theorem options_ofText (line : String) :
    (ofText line).options = (optionTexts line).map FilterOption.ofText := by
  rw [ofText, optionTexts]
  dsimp only
  cases line.toList.dropWhile (· != '$') <;> rfl

/-- The clauses of a filter are those of its lists of domains. -/
theorem clauses_ofText (line : String) :
    (ofText line).clauses = domainClauses (optionTexts line) := by
  rw [clauses, options_ofText]
  induction optionTexts line with
  | nil => rfl
  | cons option options ih =>
      rw [List.map_cons, List.flatMap_cons, ih, FilterOption.clauses_ofText,
        domainClauses_cons option options]

/-- The case of letters counts for a filter exactly if it has the option for that. -/
theorem contains_matchCase_flags_iff (line : String) :
    (ofText line).flags.contains .matchCase = true ↔ matchCaseText ∈ optionTexts line := by
  rw [contains_flags_iff, options_ofText, List.filterMap_map, List.mem_filterMap]
  simp [FilterOption.flag?_ofText_eq_matchCase_iff]

end Filter

/-- Compiling a pattern looks at no flag but the one for the case of letters. -/
theorem Pattern.compile_congr (text : String) {left right : Flags}
    (h : left.contains .matchCase = right.contains .matchCase) :
    compile text left = compile text right := by
  rw [compile, compile, h]

/-- Rules put together from the same instructions and domain tokens match alike. -/
theorem Rule.matchesAlike_assemble (leftText rightText pattern : String)
    (instructions : List Instruction) (leftFlags rightFlags : Flags)
    (included excluded : List DomainToken) :
    (assemble leftText pattern instructions leftFlags included excluded).MatchesAlike
      (assemble rightText pattern instructions rightFlags included excluded) where
  instructions_eq := rfl
  pattern_eq := rfl
  included_eq := rfl
  excluded_eq := rfl
  accepts_eq := accepts_assemble_eq _ _ _ _ _ _ _ _ _

/-- Filters with the same pattern and the same domain tokens compile alike if the case of
letters counts for both or for neither. -/
theorem Filter.compileAlike {left right : Filter} (hpattern : left.pattern = right.pattern)
    (hcase : left.flags.contains .matchCase = right.flags.contains .matchCase)
    (hincluded : left.included = right.included)
    (hexcluded : left.excluded = right.excluded) :
    CompileAlike (left.compile.map some) (right.compile.map some) := by
  unfold compile
  rw [hpattern, hincluded, hexcluded, Pattern.compile_congr right.pattern hcase]
  cases Pattern.compile right.pattern right.flags with
  | error fault => exact .failed rfl rfl
  | ok instructions => exact .compiled (Rule.matchesAlike_assemble _ _ _ _ _ _ _ _)

/-- The answer to a line that is a filter is that of its filter. -/
theorem compileLine_eq_of_filter {line : String}
    (h : ∃ filter, Line.ofText line = .filter filter) :
    compileLine line = (Filter.ofText line).compile.map some := by
  obtain ⟨filter, hline⟩ := h
  rw [compileLine, hline, Line.eq_ofText_of_filter hline]

/-- Options that are only recorded never influence matching.  Two filters with the same
pattern text, whose options agree in the case of letters and in the domains that they include
and exclude, either both fail by the same fault or have rules that match alike, whatever other
options they have, how often and in which order. -/
theorem compileAlike_of_optionsAgree {left right : String}
    (hleft : ∃ filter, Line.ofText left = .filter filter)
    (hright : ∃ filter, Line.ofText right = .filter filter)
    (hpattern : left.toList.takeWhile (· != '$') = right.toList.takeWhile (· != '$'))
    (hoptions : OptionsAgree (optionTexts left) (optionTexts right)) :
    CompileAlike (compileLine left) (compileLine right) := by
  rw [compileLine_eq_of_filter hleft, compileLine_eq_of_filter hright]
  apply Filter.compileAlike
  · rw [← String.toList_inj, Filter.toList_pattern_ofText, Filter.toList_pattern_ofText,
      hpattern]
  · rw [Bool.eq_iff_iff, Filter.contains_matchCase_flags_iff,
      Filter.contains_matchCase_flags_iff, hoptions.matchCase_iff]
  · rw [Filter.included, Filter.included, Filter.clauses_ofText, Filter.clauses_ofText,
      hoptions.included_eq]
  · rw [Filter.excluded, Filter.excluded, Filter.clauses_ofText, Filter.clauses_ofText,
      hoptions.excluded_eq]

/-- Two exceptions with an option for the case of letters and the same domains, the second with
other flags, an option that means nothing and its domains in two lists, the excluded one
first. -/
theorem compileAlike_exceptions :
    OptionsAgree (optionTexts "@@A^$match-case,script,domain=b|~c")
        (optionTexts "@@A^$domain=~c,~image,x,domain=|b,match-case") ∧
      CompileAlike (compileLine "@@A^$match-case,script,domain=b|~c")
        (compileLine "@@A^$domain=~c,~image,x,domain=|b,match-case") := by
  have hagree : OptionsAgree (optionTexts "@@A^$match-case,script,domain=b|~c")
      (optionTexts "@@A^$domain=~c,~image,x,domain=|b,match-case") :=
    ⟨by decide, rfl, rfl⟩
  exact ⟨hagree, compileAlike_of_optionsAgree ⟨_, rfl⟩ ⟨_, rfl⟩ (by decide) hagree⟩

end UrlFilter

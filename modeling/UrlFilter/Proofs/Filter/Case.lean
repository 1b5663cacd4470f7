/-
The case of letters in filters.

Domain tokens are kept in small letters, and so are the literals of a pattern whose case does not
count.  So filters that differ only in the case of letters, in their pattern texts and in their
lists of domains, compile to the same but for the texts that they are known by.
-/
import UrlFilter.Proofs.Filter.Recorded
import UrlFilter.Proofs.Pattern.Case

namespace UrlFilter

/-- Two texts that differ at most in the case of letters of ASCII. -/
def SameButCase (left right : List Char) : Prop :=
  left.map Char.toLower = right.map Char.toLower

instance (left right : List Char) : Decidable (SameButCase left right) :=
  inferInstanceAs (Decidable (_ = _))

/-- Two texts of options that are the same, or are lists of domains that differ at most in the
case of letters. -/
inductive OptionSameButCase : List Char → List Char → Prop
  | same (option : List Char) : OptionSameButCase option option
  | domains {left right : List Char} : SameButCase left right →
      OptionSameButCase (FilterOption.domainKeyword ++ left)
        (FilterOption.domainKeyword ++ right)

/-- Two lines that differ only in the case of letters, in their pattern texts and in their lists
of domains. -/
structure LineSameButCase (left right : String) : Prop where
  pattern_same : SameButCase (left.toList.takeWhile (· != '$'))
    (right.toList.takeWhile (· != '$'))
  options_same : List.Forall₂ OptionSameButCase (optionTexts left) (optionTexts right)

/-- Two rules that differ at most in the texts that they are known by. -/
structure Rule.SameButTexts (left right : Rule) : Prop where
  program_eq : left.program = right.program
  flags_eq : left.flags = right.flags
  included_eq : left.included = right.included
  excluded_eq : left.excluded = right.excluded
  accepts_eq : ∀ mode query, left.accepts mode query = right.accepts mode query

/-- Two answers to compiling a line that fail by the same fault or have rules that differ at most
in their texts. -/
inductive CompileSameButTexts :
    Except CompileError (Option Rule) → Except CompileError (Option Rule) → Prop
  | failed {left right : CompileError} : left.fault = right.fault →
      CompileSameButTexts (.error left) (.error right)
  | compiled {left right : Rule} : left.SameButTexts right →
      CompileSameButTexts (.ok (some left)) (.ok (some right))

theorem DomainToken.ofText_toLower (text : String) : ofText text.toLower = ofText text := by
  apply congrArg DomainToken.mk
  apply String.toList_inj.1
  rw [toList_toLower, toList_toLower, List.map_map]
  exact List.map_congr_left fun c _ => toLower_toLower c

theorem DomainToken.ofText_map_toLower (token : List Char) :
    ofText (String.ofList (token.map Char.toLower)) = ofText (String.ofList token) := by
  rw [← ofText_toLower (String.ofList token)]
  apply congrArg ofText
  apply String.toList_inj.1
  rw [toList_toLower, String.toList_ofList, String.toList_ofList]

namespace DomainClause

theorem ofText?_cons_of_ne {c : Char} (hc : c ≠ '~') (rest : List Char) :
    ofText? (c :: rest) = some (included (DomainToken.ofText (String.ofList (c :: rest)))) := by
  unfold ofText?
  split <;> simp_all

/-- What an entry of a list of domains says is up to its small letters. -/
theorem ofText?_map_toLower (entry : List Char) :
    ofText? (entry.map Char.toLower) = ofText? entry := by
  have htilde : ∀ c : Char, c.toLower = '~' ↔ c = '~' := fun _ => toLower_eq_iff (by decide)
  cases entry with
  | nil => rfl
  | cons c rest =>
      by_cases hc : c = '~'
      · subst hc
        cases rest with
        | nil => rfl
        | cons next rest =>
            exact congrArg (some ∘ excluded) (DomainToken.ofText_map_toLower (next :: rest))
      · rw [List.map_cons, ofText?_cons_of_ne hc, ofText?_cons_of_ne ((htilde c).not.2 hc)]
        exact congrArg (some ∘ included) (DomainToken.ofText_map_toLower (c :: rest))

end DomainClause

namespace FilterOption

theorem ofText_domainKeyword_append (entries : List Char) :
    ofText (domainKeyword ++ entries) =
      domains ((entries.splitOn '|').filterMap DomainClause.ofText?) := by
  have hentries : domainKeyword.isPrefixOf? (domainKeyword ++ entries) = some entries :=
    List.isPrefixOf?_eq_some_iff_append_eq.2 rfl
  cases hflag : Flag.ofOptionName? (domainKeyword ++ entries) with
  | some flag =>
      rw [isPrefixOf?_eq_none_of_ofOptionName? hflag] at hentries
      contradiction
  | none => rw [ofText, hflag, hentries]

theorem ofText_eq_of_sameButCase {left right : List Char} (h : OptionSameButCase left right) :
    ofText left = ofText right := by
  cases h with
  | same => rfl
  | @domains left right hsame =>
      have hbar : ∀ c : Char, c.toLower = '|' ↔ c = '|' := fun _ => toLower_eq_iff (by decide)
      have hclauses : ∀ entries : List Char,
          ((entries.map Char.toLower).splitOn '|').filterMap DomainClause.ofText? =
            (entries.splitOn '|').filterMap DomainClause.ofText? := by
        intro entries
        rw [splitOn_map hbar, List.filterMap_map]
        exact List.filterMap_congr fun entry _ => DomainClause.ofText?_map_toLower entry
      rw [ofText_domainKeyword_append, ofText_domainKeyword_append, ← hclauses left, hsame,
        hclauses right]

end FilterOption

namespace Pattern

/-- Where the case of letters does not count, texts that differ in nothing else compile to the
same. -/
theorem compile_eq_of_toLower_eq {left right : String} {flags : Flags}
    (hflags : flags.contains .matchCase = false) (h : left.toLower = right.toLower) :
    compile left flags = compile right flags := by
  have hcased : (flags.insert .matchCase).contains .matchCase = true := by simp
  rw [← compile_toLower hcased hflags, h, compile_toLower hcased hflags]

end Pattern

namespace Filter

section SameButCase

variable {left right : String} (hsame : LineSameButCase left right)
include hsame

theorem options_eq_of_sameButCase : (ofText left).options = (ofText right).options := by
  have hoptions := hsame.options_same
  rw [options_ofText, options_ofText]
  generalize optionTexts left = leftOptions at hoptions ⊢
  generalize optionTexts right = rightOptions at hoptions ⊢
  induction hoptions with
  | nil => rfl
  | cons hoption _ ih =>
      rw [List.map_cons, List.map_cons, FilterOption.ofText_eq_of_sameButCase hoption, ih]

theorem isException_eq_of_sameButCase :
    (ofText left).isException = (ofText right).isException := by
  have hsmall : ∀ text : List Char,
      ['@', '@'].isPrefixOf (text.map Char.toLower) = ['@', '@'].isPrefixOf text := by
    intro text
    rw [← List.isSome_isPrefixOf?_eq_isPrefixOf, isPrefixOf?_map_toLower (by decide),
      Option.isSome_map, List.isSome_isPrefixOf?_eq_isPrefixOf]
  rw [isException, isException, ofText, ofText, String.toList_ofList, String.toList_ofList,
    ← hsmall, hsame.pattern_same, hsmall]

theorem flags_eq_of_sameButCase : (ofText left).flags = (ofText right).flags := by
  rw [flags, flags, isException_eq_of_sameButCase hsame, clauses, clauses,
    options_eq_of_sameButCase hsame]

theorem toLower_pattern_eq_of_sameButCase :
    (ofText left).pattern.toLower = (ofText right).pattern.toLower := by
  apply String.toList_inj.1
  rw [toList_toLower, toList_toLower, toList_pattern_ofText, toList_pattern_ofText,
    ← Pattern.normalizeChars_map_toLower, ← Pattern.normalizeChars_map_toLower,
    hsame.pattern_same]

/-- The filters of two such lines compile to the same but for their texts. -/
theorem compile_of_sameButCase (hcase : (ofText left).flags.contains .matchCase = false) :
    CompileSameButTexts ((ofText left).compile.map some) ((ofText right).compile.map some) := by
  have hflags := flags_eq_of_sameButCase hsame
  have hoptions := options_eq_of_sameButCase hsame
  have hincluded : (ofText left).included = (ofText right).included := by
    rw [included, included, clauses, clauses, hoptions]
  have hexcluded : (ofText left).excluded = (ofText right).excluded := by
    rw [excluded, excluded, clauses, clauses, hoptions]
  have hpattern : Pattern.compile (ofText left).pattern (ofText left).flags =
      Pattern.compile (ofText right).pattern (ofText left).flags :=
    Pattern.compile_eq_of_toLower_eq hcase (toLower_pattern_eq_of_sameButCase hsame)
  unfold compile
  rw [hpattern, ← hflags, ← hincluded, ← hexcluded]
  cases Pattern.compile (ofText right).pattern (ofText left).flags with
  | error fault => exact .failed rfl
  | ok instructions => exact .compiled ⟨rfl, rfl, rfl, rfl, fun _ _ => rfl⟩

end SameButCase

end Filter

/-- Not to count the case of letters is to compile small letters.  A pattern text whose case does
not count has the answer of its small letters with their case counted, be it a program or a
fault; a byte at fault is no letter.  And two filters without the option for the case of letters
that differ only in the case of letters, in their pattern texts and in their lists of domains,
either both fail by the same fault, or have rules with the same program, flags and domain tokens
that accept the same queries. -/
theorem compile_folds_case :
    (∀ (text : String) (flags : Flags), flags.contains .matchCase = false →
      Pattern.compile text.toLower (flags.insert .matchCase) = Pattern.compile text flags) ∧
      ∀ left right : String, (∃ filter, Line.ofText left = .filter filter) →
        (∃ filter, Line.ofText right = .filter filter) → matchCaseText ∉ optionTexts left →
          LineSameButCase left right →
            CompileSameButTexts (compileLine left) (compileLine right) := by
  constructor
  · intro text flags hflags
    exact Pattern.compile_toLower (by simp) hflags text
  · intro left right hleft hright hmatchCase hsame
    rw [compileLine_eq_of_filter hleft, compileLine_eq_of_filter hright]
    apply Filter.compile_of_sameButCase hsame
    rw [Bool.eq_false_iff, ne_eq, Filter.contains_matchCase_flags_iff]
    exact hmatchCase

/-- A pattern text with a wildcard, and two lines with lists of domains. -/
theorem compile_folds_case_of_hosts :
    Pattern.compile "||A*^".toLower (Flags.empty.insert .matchCase) =
        Pattern.compile "||A*^" Flags.empty ∧
      LineSameButCase "||A*^$domain=B|~c,script" "||a*^$domain=b|~C,script" ∧
      CompileSameButTexts (compileLine "||A*^$domain=B|~c,script")
        (compileLine "||a*^$domain=b|~C,script") := by
  have hsame : LineSameButCase "||A*^$domain=B|~c,script" "||a*^$domain=b|~C,script" := {
    pattern_same := by decide
    options_same := by
      have hdomains : SameButCase ['B', '|', '~', 'c'] ['b', '|', '~', 'C'] := by decide
      exact .cons (.domains hdomains) (.cons (.same ['s', 'c', 'r', 'i', 'p', 't']) .nil) }
  obtain ⟨hpattern, hlines⟩ := compile_folds_case
  refine ⟨hpattern "||A*^" Flags.empty (by decide), hsame, ?_⟩
  exact hlines _ _ ⟨_, rfl⟩ ⟨_, rfl⟩ (by decide) hsame

end UrlFilter

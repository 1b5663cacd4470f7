/-
Written filters.

A filter is written as its pattern text, a dollar sign and options with commas between them, and
a list of domains with bars between its entries.  Nothing that is written contains the sign that
ends it, so a line is taken apart where it was put together, and a filter says what was written:
the flags in whatever order and however often, and the domains one after the other, over however
many lists they are spread.
-/
import UrlFilter.Proofs.Filter.Case
import UrlFilter.Proofs.Text.Runs

namespace UrlFilter

/-- An entry of a list of domains as it is written. -/
inductive WrittenEntry
  | included (token : String)
  | excluded (token : String)
  /-- No token at all, perhaps behind a tilde. -/
  | empty (tilde : Bool)
  deriving DecidableEq, Repr

namespace WrittenEntry

/-- The text of an entry. -/
def text : WrittenEntry → List Char
  | included token => token.toList
  | excluded token => '~' :: token.toList
  | empty tilde => if tilde then ['~'] else []

/-- May the entry be written like this?  A token is not empty and has no sign in it that ends
entries, and one that is included does not look excluded. -/
def IsWritable : WrittenEntry → Prop
  | included token =>
      token ≠ "" ∧ ',' ∉ token.toList ∧ '|' ∉ token.toList ∧ ¬ ['~'] <+: token.toList
  | excluded token => token ≠ "" ∧ ',' ∉ token.toList ∧ '|' ∉ token.toList
  | empty _ => True

instance : DecidablePred IsWritable
  | included token => inferInstanceAs (Decidable
      (token ≠ "" ∧ ',' ∉ token.toList ∧ '|' ∉ token.toList ∧ ¬ ['~'] <+: token.toList))
  | excluded token =>
      inferInstanceAs (Decidable (token ≠ "" ∧ ',' ∉ token.toList ∧ '|' ∉ token.toList))
  | empty _ => inferInstanceAs (Decidable True)

/-- The token of an entry that includes one. -/
def included? : WrittenEntry → Option String
  | included token => some token
  | _ => none

/-- The token of an entry that excludes one. -/
def excluded? : WrittenEntry → Option String
  | excluded token => some token
  | _ => none

/-- What an entry says. -/
def clause? : WrittenEntry → Option DomainClause
  | included token => some (.included (DomainToken.ofText token))
  | excluded token => some (.excluded (DomainToken.ofText token))
  | empty _ => none

end WrittenEntry

/-- An option as it is written. -/
inductive WrittenOption
  | flag (flag : Flag)
  | domains (entries : List WrittenEntry)
  | unknown (text : String)
  deriving DecidableEq, Repr

namespace WrittenOption

/-- The text of an option. -/
def text : WrittenOption → List Char
  | flag name => (name.optionName?.getD "").toList
  | domains entries =>
      FilterOption.domainKeyword ++ ['|'].intercalate (entries.map WrittenEntry.text)
  | unknown text => text.toList

/-- May the option be written like this?  A flag is one that options can set, and an option that
means nothing has no comma in it and looks like no other option. -/
def IsWritable : WrittenOption → Prop
  | flag name => name ∈ Flag.optional
  | domains entries => ∀ entry ∈ entries, entry.IsWritable
  | unknown text =>
      ',' ∉ text.toList ∧ (∀ flag ∈ Flag.optional, flag.optionName? ≠ some text) ∧
        ¬ FilterOption.domainKeyword <+: text.toList

instance : DecidablePred IsWritable
  | flag name => inferInstanceAs (Decidable (name ∈ Flag.optional))
  | domains entries => inferInstanceAs (Decidable (∀ entry ∈ entries, entry.IsWritable))
  | unknown text => inferInstanceAs (Decidable (',' ∉ text.toList ∧
      (∀ flag ∈ Flag.optional, flag.optionName? ≠ some text) ∧
        ¬ FilterOption.domainKeyword <+: text.toList))

/-- The entries of an option that is a list of domains. -/
def entries : WrittenOption → List WrittenEntry
  | flag _ => []
  | domains entries => entries
  | unknown _ => []

/-- What an option says. -/
def meaning : WrittenOption → FilterOption
  | flag name => .flag name
  | domains entries => .domains (entries.filterMap WrittenEntry.clause?)
  | unknown text => .unknown text

end WrittenOption

/-- The line with a pattern text and options. -/
def writtenLine (pattern : String) (options : List WrittenOption) : String :=
  pattern ++ "$" ++ String.ofList ([','].intercalate (options.map WrittenOption.text))

/-- What a filter says of the pattern text and the options that it is written with. -/
structure Filter.Says (filter : Filter) (pattern : String) (options : List WrittenOption) :
    Prop where
  text_eq : filter.text = writtenLine pattern options
  pattern_eq : filter.pattern = Pattern.normalize pattern
  contains_flags_iff : ∀ flag, filter.flags.contains flag = true ↔
    .flag flag ∈ options ∨ (flag = .allow ∧ ['@', '@'] <+: pattern.toList) ∨
      (flag = .domain ∧ ∃ option ∈ options, ∃ entry ∈ option.entries,
        entry.included?.isSome ∨ entry.excluded?.isSome)
  included_eq : filter.included.map DomainToken.text =
    ((options.flatMap WrittenOption.entries).filterMap WrittenEntry.included?).map String.toLower
  excluded_eq : filter.excluded.map DomainToken.text =
    ((options.flatMap WrittenOption.entries).filterMap WrittenEntry.excluded?).map String.toLower

/-- What is joined by a sign has no other sign in it than its parts. -/
theorem not_mem_intercalate {c separator : Char} {parts : List (List Char)} (hne : c ≠ separator)
    (hparts : ∀ part ∈ parts, c ∉ part) : c ∉ [separator].intercalate parts := by
  induction parts with
  | nil => exact List.not_mem_nil
  | cons part parts ih =>
      have hrest := ih fun other hother => hparts other (List.mem_cons_of_mem part hother)
      cases parts with
      | nil => simpa using hparts part List.mem_cons_self
      | cons next parts =>
          rw [List.intercalate_cons_cons, List.mem_append, List.mem_append, List.mem_singleton,
            not_or, not_or]
          exact ⟨⟨hparts part List.mem_cons_self, hne⟩, hrest⟩

namespace WrittenEntry

theorem IsWritable.comma_not_mem {entry : WrittenEntry} (h : entry.IsWritable) :
    ',' ∉ entry.text := by
  cases entry with
  | included token => exact h.2.1
  | excluded token => simpa [text] using h.2.1
  | empty tilde => cases tilde <;> decide

theorem IsWritable.bar_not_mem {entry : WrittenEntry} (h : entry.IsWritable) :
    '|' ∉ entry.text := by
  cases entry with
  | included token => exact h.2.2.1
  | excluded token => simpa [text] using h.2.2
  | empty tilde => cases tilde <;> decide

/-- An entry is read as what it says. -/
theorem IsWritable.ofText?_text {entry : WrittenEntry} (h : entry.IsWritable) :
    DomainClause.ofText? entry.text = entry.clause? := by
  cases entry with
  | included token =>
      cases htoken : token.toList with
      | nil => exact absurd (String.toList_eq_nil_iff.1 htoken) h.1
      | cons c rest =>
          have hc : c ≠ '~' := by
            rintro rfl
            exact h.2.2.2 ⟨rest, htoken.symm⟩
          rw [text, htoken, DomainClause.ofText?_cons_of_ne hc, ← htoken, String.ofList_toList]
          rfl
  | excluded token =>
      cases htoken : token.toList with
      | nil => exact absurd (String.toList_eq_nil_iff.1 htoken) h.1
      | cons c rest =>
          change DomainClause.ofText? ('~' :: token.toList) = _
          rw [htoken]
          change some (DomainClause.excluded (DomainToken.ofText (String.ofList (c :: rest)))) = _
          rw [← htoken, String.ofList_toList]
          rfl
  | empty tilde => cases tilde <;> rfl

end WrittenEntry

namespace WrittenOption

/-- A flag is read off its name, and no name has a comma in it. -/
theorem ofOptionName?_and_comma {flag : Flag} (h : flag ∈ Flag.optional) :
    Flag.ofOptionName? (flag.optionName?.getD "").toList = some flag ∧
      ',' ∉ (flag.optionName?.getD "").toList := by
  revert flag
  decide +kernel

theorem IsWritable.comma_not_mem {option : WrittenOption} (h : option.IsWritable) :
    ',' ∉ option.text := by
  cases option with
  | flag name => exact (ofOptionName?_and_comma h).2
  | domains entries =>
      rw [text, List.mem_append, not_or]
      refine ⟨by decide, not_mem_intercalate (by decide) ?_⟩
      intro part hpart
      obtain ⟨entry, hentry, rfl⟩ := List.mem_map.1 hpart
      exact (h entry hentry).comma_not_mem
  | unknown text => exact h.1

/-- The entries of a list are read as what they say.  A list without entries is read as one
without a token. -/
theorem filterMap_splitOn_bar {entries : List WrittenEntry}
    (h : ∀ entry ∈ entries, entry.IsWritable) :
    ((['|'].intercalate (entries.map WrittenEntry.text)).splitOn '|').filterMap
      DomainClause.ofText? = entries.filterMap WrittenEntry.clause? := by
  cases entries with
  | nil => rfl
  | cons entry others =>
      have hbar : ∀ part ∈ (entry :: others).map WrittenEntry.text, '|' ∉ part := by
        intro part hpart
        obtain ⟨entry, hentry, rfl⟩ := List.mem_map.1 hpart
        exact (h entry hentry).bar_not_mem
      rw [List.splitOn_intercalate '|' hbar (by simp), List.filterMap_map]
      exact List.filterMap_congr fun entry hentry => (h entry hentry).ofText?_text

/-- An option is read as what it says. -/
theorem IsWritable.ofText_text {option : WrittenOption} (h : option.IsWritable) :
    FilterOption.ofText option.text = option.meaning := by
  cases option with
  | flag name =>
      rw [text, FilterOption.ofText, (ofOptionName?_and_comma h).1]
      rfl
  | domains entries =>
      rw [text, FilterOption.ofText_domainKeyword_append, filterMap_splitOn_bar h]
      rfl
  | unknown text =>
      have hname : Flag.ofOptionName? text.toList = none := by
        rw [Flag.ofOptionName?, List.find?_eq_none]
        intro flag hflag hname
        obtain ⟨name, hsome, htext⟩ := (Option.any_eq_true _ _).1 hname
        rw [String.toList_inj.1 (beq_iff_eq.1 htext)] at hsome
        exact h.2.1 flag hflag hsome
      have hkeyword : FilterOption.domainKeyword.isPrefixOf? text.toList = none := by
        rw [Option.eq_none_iff_forall_ne_some]
        intro rest hrest
        exact h.2.2 ⟨rest, List.isPrefixOf?_eq_some_iff_append_eq.1 hrest⟩
      change FilterOption.ofText text.toList = _
      rw [FilterOption.ofText, hname]
      dsimp only
      rw [hkeyword, String.ofList_toList]
      rfl

end WrittenOption

section Line

variable {pattern : String} {options : List WrittenOption}

theorem toList_writtenLine : (writtenLine pattern options).toList =
    pattern.toList ++ '$' :: [','].intercalate (options.map WrittenOption.text) := by
  simp [writtenLine]

/-- The line is cut where the pattern text ends. -/
theorem takeWhile_writtenLine (hpattern : '$' ∉ pattern.toList) :
    (writtenLine pattern options).toList.takeWhile (· != '$') = pattern.toList := by
  rw [toList_writtenLine, takeWhile_append_cons (forall_bne_of_not_mem hpattern) (by decide)]

/-- The options are those that are written, but for the empty text that stands for none. -/
theorem options_ofText_writtenLine (hpattern : '$' ∉ pattern.toList)
    (hoptions : ∀ option ∈ options, option.IsWritable) :
    (Filter.ofText (writtenLine pattern options)).options =
      if options = [] then [.unknown ""] else options.map WrittenOption.meaning := by
  have htexts : optionTexts (writtenLine pattern options) =
      ([','].intercalate (options.map WrittenOption.text)).splitOn ',' := by
    rw [optionTexts, toList_writtenLine,
      dropWhile_append_of_head? (forall_bne_of_not_mem hpattern) (by simp)]
  rw [Filter.options_ofText, htexts]
  cases options with
  | nil => rfl
  | cons option others =>
      have hcomma : ∀ text ∈ (option :: others).map WrittenOption.text, ',' ∉ text := by
        intro text htext
        obtain ⟨option, hoption, rfl⟩ := List.mem_map.1 htext
        exact (hoptions option hoption).comma_not_mem
      rw [List.splitOn_intercalate ',' hcomma (by simp), List.map_map,
        if_neg (List.cons_ne_nil _ _)]
      exact List.map_congr_left fun option hoption => (hoptions option hoption).ofText_text

/-- So what is collected from the options is collected from those that are written. -/
theorem flatMap_options_ofText_writtenLine {α : Type} {f : FilterOption → List α}
    (hnothing : f (.unknown "") = []) (hpattern : '$' ∉ pattern.toList)
    (hoptions : ∀ option ∈ options, option.IsWritable) :
    (Filter.ofText (writtenLine pattern options)).options.flatMap f =
      options.flatMap fun option => f option.meaning := by
  rw [options_ofText_writtenLine hpattern hoptions]
  split
  · rename_i hnil
    rw [hnil, List.flatMap_singleton, hnothing, List.flatMap_nil]
  · rw [List.flatMap_map]

theorem clauses_ofText_writtenLine (hpattern : '$' ∉ pattern.toList)
    (hoptions : ∀ option ∈ options, option.IsWritable) :
    (Filter.ofText (writtenLine pattern options)).clauses =
      (options.flatMap WrittenOption.entries).filterMap WrittenEntry.clause? := by
  rw [Filter.clauses, flatMap_options_ofText_writtenLine rfl hpattern hoptions,
    List.filterMap_flatMap]
  refine List.flatMap_congr fun option _ => ?_
  cases option <;> rfl

/-- A flag is named exactly if it is written. -/
theorem mem_flags_ofText_writtenLine_iff (hpattern : '$' ∉ pattern.toList)
    (hoptions : ∀ option ∈ options, option.IsWritable) (flag : Flag) :
    flag ∈ (Filter.ofText (writtenLine pattern options)).options.filterMap FilterOption.flag? ↔
      .flag flag ∈ options := by
  rw [List.filterMap_eq_flatMap_toList,
    flatMap_options_ofText_writtenLine rfl hpattern hoptions, List.mem_flatMap]
  constructor
  · rintro ⟨option, hoption, hflag⟩
    cases option with
    | flag name =>
        obtain rfl : flag = name := by simpa [WrittenOption.meaning, FilterOption.flag?] using hflag
        exact hoption
    | domains entries => cases hflag
    | unknown text => cases hflag
  · exact fun hoption => ⟨_, hoption, List.mem_singleton_self flag⟩

/-- There are clauses exactly if a token is written. -/
theorem clauses_ne_nil_iff : (options.flatMap WrittenOption.entries).filterMap
      WrittenEntry.clause? ≠ [] ↔
    ∃ option ∈ options, ∃ entry ∈ option.entries,
      entry.included?.isSome ∨ entry.excluded?.isSome := by
  have hclause : ∀ entry : WrittenEntry, entry.clause? ≠ none ↔
      entry.included?.isSome ∨ entry.excluded?.isSome := by
    intro entry
    cases entry <;> simp [WrittenEntry.clause?, WrittenEntry.included?, WrittenEntry.excluded?]
  simp only [ne_eq, List.filterMap_eq_nil_iff, List.mem_flatMap, ← hclause, not_forall,
    exists_prop]
  constructor
  · rintro ⟨entry, ⟨option, hoption, hentry⟩, hne⟩
    exact ⟨option, hoption, entry, hentry, hne⟩
  · rintro ⟨option, hoption, entry, hentry, hne⟩
    exact ⟨entry, ⟨option, hoption, hentry⟩, hne⟩

/-- Tokens are read in the order in which they are written, in small letters, if this is how
every single one is read. -/
theorem map_text_filterMap_clause? {read : DomainClause → Option DomainToken}
    {written : WrittenEntry → Option String}
    (hread : ∀ entry : WrittenEntry,
      (entry.clause?.bind read).map DomainToken.text = (written entry).map String.toLower)
    (entries : List WrittenEntry) :
    ((entries.filterMap WrittenEntry.clause?).filterMap read).map DomainToken.text =
      (entries.filterMap written).map String.toLower := by
  rw [List.filterMap_filterMap, List.map_filterMap, List.map_filterMap]
  exact List.filterMap_congr fun entry _ => hread entry

theorem Filter.says_ofText_writtenLine (hpattern : '$' ∉ pattern.toList)
    (hoptions : ∀ option ∈ options, option.IsWritable) :
    (ofText (writtenLine pattern options)).Says pattern options where
  text_eq := rfl
  pattern_eq := by
    rw [← String.toList_inj, toList_pattern_ofText, takeWhile_writtenLine hpattern,
      Pattern.toList_normalize]
  contains_flags_iff := by
    intro flag
    rw [Filter.contains_flags_iff, mem_flags_ofText_writtenLine_iff hpattern hoptions,
      isException_ofText_iff, takeWhile_writtenLine hpattern,
      clauses_ofText_writtenLine hpattern hoptions, clauses_ne_nil_iff]
  included_eq := by
    rw [included, clauses_ofText_writtenLine hpattern hoptions]
    exact map_text_filterMap_clause? (fun entry => by cases entry <;> rfl) _
  excluded_eq := by
    rw [excluded, clauses_ofText_writtenLine hpattern hoptions]
    exact map_text_filterMap_clause? (fun entry => by cases entry <;> rfl) _

end Line

/-- Reading undoes writing.  A pattern text without a dollar sign and writable options, any flags
in any order and number, lists of domains with their tokens split over them and with entries
that have none, and options that mean nothing, give a line that is a filter, unless it is a
comment or hides elements.  The filter has the line as its text, the pattern in its normal form,
exactly the flags that are written, with the flag of an exception if the pattern text begins with
the mark and the flag of a domain constraint if there is a token, and the tokens in small letters
in the order in which they are written. -/
theorem exists_filter_of_writtenLine {pattern : String} {options : List WrittenOption}
    (hpattern : '$' ∉ pattern.toList) (hoptions : ∀ option ∈ options, option.IsWritable)
    (hcomment : ¬ ['!'] <+: (writtenLine pattern options).toList)
    (hhiding : ¬ ['#', '#'] <:+: (writtenLine pattern options).toList)
    (hshowing : ¬ ['#', '@', '#'] <:+: (writtenLine pattern options).toList) :
    ∃ filter, Line.ofText (writtenLine pattern options) = .filter filter ∧
      filter.Says pattern options := by
  have hne : writtenLine pattern options ≠ "" := by
    rw [ne_eq, ← String.toList_eq_nil_iff, toList_writtenLine]
    exact List.append_ne_nil_of_right_ne_nil _ (List.cons_ne_nil _ _)
  have hmarks : Line.marksHiding (writtenLine pattern options).toList = false := by
    rw [Line.marksHiding, Bool.or_eq_false_iff, Bool.eq_false_iff, Bool.eq_false_iff, ne_eq,
      ne_eq, occurs_iff, occurs_iff]
    exact ⟨hhiding, hshowing⟩
  refine ⟨_, ?_, Filter.says_ofText_writtenLine hpattern hoptions⟩
  rw [Line.ofText_eq_of_not_comment hne hcomment, hmarks]
  rfl

/-- An exception with a flag that is written twice, three lists of domains, one of them without
entries, and an option with a dollar sign that means nothing. -/
theorem exists_filter_of_exception :
    let options : List WrittenOption :=
      [.flag (.asserted .script), .domains [.included "B", .empty true, .excluded "~C$"],
        .unknown "x$y", .flag (.asserted .script), .domains [],
        .domains [.empty false, .included "D.e"], .flag .matchCase]
    writtenLine "@@||Ad*^|" options =
        "@@||Ad*^|$script,domain=B|~|~~C$,x$y,script,domain=,domain=|D.e,match-case" ∧
      ∃ filter, Line.ofText (writtenLine "@@||Ad*^|" options) = .filter filter ∧
        filter.Says "@@||Ad*^|" options := by
  intro options
  have hline : writtenLine "@@||Ad*^|" options =
      "@@||Ad*^|$script,domain=B|~|~~C$,x$y,script,domain=,domain=|D.e,match-case" := by
    decide +kernel
  have hoptions : ∀ option ∈ options, option.IsWritable := by decide +kernel
  refine ⟨hline, exists_filter_of_writtenLine (by decide) hoptions ?_ ?_ ?_⟩
  · rw [hline]
    decide
  · rw [hline]
    decide +kernel
  · rw [hline]
    decide +kernel

end UrlFilter

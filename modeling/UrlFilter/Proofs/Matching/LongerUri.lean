/-
Longer URIs.

A rule that is not tied to the start of a URI finds in a longer URI what it found before, at a
later place.  A rule that looks for literals only, and not for the end, reads within the URI
and goes on accepting when something is put behind it.  The one move that ends where the URI
does is that over a scheme and its slashes, and behind it such a rule has nothing left to look
for.
-/
import UrlFilter.Proofs.Machine.Extend
import UrlFilter.Proofs.Matching.Host
import UrlFilter.Proofs.Rule.Shape

namespace UrlFilter

/-- A rule without domain tokens accepts what its program accepts. -/
theorem Rule.accepts_of_no_tokens {rule : Rule} (hdomain : rule.flags.contains .domain = false)
    (mode : ExclusionMode) (query : Query) :
    rule.accepts mode query = rule.program.accepts query.bytes := by
  rw [accepts, allowsDomain, hdomain]
  exact Bool.and_true _

/-- A program that is not anchored accepts whatever is put in front of a URI that it
accepts. -/
theorem Program.accepts_append_left {program : Program} {bytes : ByteArray}
    (hanchored : program.isAnchored = false) (haccepts : program.accepts bytes = true)
    (front : ByteArray) : program.accepts (front ++ bytes) = true := by
  obtain ⟨start, hstart, -, hrun⟩ := accepts_iff.1 haccepts
  refine accepts_iff.2 ⟨front.size + start, ?_, ?_, ?_⟩
  · rw [ByteArray.size_append]
    omega
  · intro h
    rw [hanchored] at h
    contradiction
  · rw [run_append_left, hrun]

/-- A token for a writable literal looks for a byte. -/
theorem Token.asksForByte {token : Token} (hwritable : token.IsWritable)
    (hliteral : token.atom ≠ .separator) (matchCase : Bool) :
    (token.instruction matchCase).AsksForByte where
  looks := token.opcode_instruction matchCase
  operand_eq := by
    have hatom := hwritable.atom_isWritable
    rw [token.operand_instruction]
    cases hbyte : token.atom with
    | separator => exact absurd hbyte hliteral
    | literal byte =>
        rw [hbyte] at hatom
        have hurl : isUrlByte byte = true := hatom
        cases matchCase with
        | false => exact ⟨lowerByte byte, lowerByte_ne_terminator hurl, rfl⟩
        | true =>
            refine ⟨byte, ?_, rfl⟩
            rintro rfl
            rw [not_isUrlByte_terminator] at hurl
            contradiction

namespace Pattern

/-- A pattern that looks for literals only, and not for the end of a URI. -/
structure IsOpenEnded (pattern : Pattern) : Prop where
  tokens_writable : ∀ token ∈ pattern.tokens, token.IsWritable
  tokens_literal : ∀ token ∈ pattern.tokens, token.atom ≠ .separator
  no_tail : pattern.tail = false

section OpenEnded

variable {pattern : Pattern} (hopen : pattern.IsOpenEnded) (matchCase : Bool)
include hopen

theorem IsOpenEnded.body_eq : pattern.body matchCase =
    pattern.tokens.map (Token.instruction matchCase) ++ [Instruction.accept] := by
  rw [body, hopen.no_tail]
  rfl

theorem IsOpenEnded.asksForByte :
    ∀ instruction ∈ pattern.tokens.map (Token.instruction matchCase),
      instruction.AsksForByte := by
  intro instruction hmem
  obtain ⟨token, htoken, rfl⟩ := List.mem_map.1 hmem
  exact Token.asksForByte (hopen.tokens_writable token htoken)
    (hopen.tokens_literal token htoken) matchCase

variable {bytes : ByteArray} {origin : Nat}

theorem IsOpenEnded.run_append_right
    (hrun : run bytes (pattern.body matchCase) origin = true) (behind : ByteArray) :
    run (bytes ++ behind) (pattern.body matchCase) origin = true := by
  rw [hopen.body_eq] at hrun ⊢
  exact UrlFilter.run_append_right (hopen.asksForByte matchCase) hrun behind

/-- A pattern with tokens needs the URI to go on where they begin. -/
theorem IsOpenEnded.lt_size_of_run (hne : pattern.tokens ≠ [])
    (hrun : run bytes (pattern.body matchCase) origin = true) : origin < bytes.size := by
  obtain ⟨token, tokens, htokens⟩ := List.exists_cons_of_ne_nil hne
  have hasks := hopen.asksForByte matchCase
  rw [hopen.body_eq, htokens, List.map_cons, List.cons_append,
    run_cons (token.opcode_ne_accept matchCase), Option.any_eq_true] at hrun
  rw [htokens, List.map_cons] at hasks
  obtain ⟨next, hmove, -⟩ := hrun
  exact ((hasks _ List.mem_cons_self).move?_append_right hmove).1

end OpenEnded

end Pattern

/-- Bytes at a place in front of the end stay there when a text goes on. -/
theorem getElem?_utf8_append_of_lt {left : String} (right : String) {place : Nat}
    (h : place < (utf8 left).length) :
    (utf8 (left ++ right))[place]? = (utf8 left)[place]? := by
  rw [utf8_append, List.getElem?_append_left h]

/-- A place within a URI where a match may start is such a place in a longer URI too. -/
theorem Anchor.Admits.append_right {anchor : Anchor} {uri : String} {origin : Nat}
    (h : anchor.Admits (utf8 uri) origin) (hlt : origin < (utf8 uri).length)
    (behind : String) : anchor.Admits (utf8 (uri ++ behind)) origin := by
  cases anchor with
  | anywhere =>
      change origin < _
      rw [utf8_append, List.length_append]
      omega
  | start => exact h
  | host =>
      obtain ⟨colon, hcolon, hscheme, hle, hend, hslashes⟩ := h
      refine ⟨colon, ?_, fun place hplace => ?_, hle, ?_, fun place hfrom hto => ?_⟩
      · rwa [getElem?_utf8_append_of_lt behind (Nat.lt_trans hle hlt)]
      · rw [getElem?_utf8_append_of_lt behind (by omega)]
        exact hscheme place hplace
      · rwa [getElem?_utf8_append_of_lt behind hlt]
      · rw [getElem?_utf8_append_of_lt behind (Nat.lt_trans hto hlt)]
        exact hslashes place hfrom hto

theorem Query.HasScheme.append_right {uri : String} (h : (mk uri).HasScheme)
    (behind : String) : (mk (uri ++ behind)).HasScheme := by
  obtain ⟨front, rest, huri, hscheme⟩ := hasScheme_iff.1 h
  refine hasScheme_iff.2 ⟨front, rest ++ utf8 behind, ?_, hscheme⟩
  change utf8 (uri ++ behind) = _
  rw [uri_mk] at huri
  rw [utf8_append, huri, List.append_assoc, List.cons_append]

/-- Where a match may start somewhere in a URI, it may start somewhere in a longer one. -/
theorem Anchor.Admits.exists_append_right {anchor : Anchor} {uri : String} {origin : Nat}
    (h : anchor.Admits (utf8 uri) origin) (behind : String) :
    ∃ origin, anchor.Admits (utf8 (uri ++ behind)) origin := by
  cases anchor with
  | anywhere => exact ⟨origin, h.append_right h behind⟩
  | start => exact ⟨0, rfl⟩
  | host =>
      obtain ⟨hscheme, -⟩ := Anchor.admits_host_iff.1 h
      exact ⟨_, Anchor.admits_host_iff.2 ⟨hscheme.append_right behind, rfl⟩⟩

/-- The program of an open-ended pattern accepts whatever is put behind a URI that it
accepts. -/
theorem Pattern.IsOpenEnded.accepts_append_right {pattern : Pattern}
    (hopen : pattern.IsOpenEnded) {matchCase : Bool} {flags : Flags} {uri : String}
    (haccepts : (Program.ofInstructions (pattern.instructions matchCase) flags).accepts
      uri.toByteArray = true) (behind : String) :
    (Program.ofInstructions (pattern.instructions matchCase) flags).accepts
      (uri ++ behind).toByteArray = true := by
  obtain ⟨hne, origin, hadmits, hrun⟩ := Program.accepts_instructions_iff.1 haccepts
  have hlonger : uri ++ behind ≠ "" := by
    intro hempty
    exact hne (String.append_eq_empty_iff.1 hempty).1
  refine Program.accepts_instructions_iff.2 ⟨hlonger, ?_⟩
  by_cases htokens : pattern.tokens = []
  · -- Nothing is looked for, so any place to start from will do.
    obtain ⟨place, hplace⟩ := hadmits.exists_append_right behind
    refine ⟨place, hplace, ?_⟩
    rw [hopen.body_eq, htokens]
    exact run_accept _ _ _
  · have hlt : origin < (utf8 uri).length := hopen.lt_size_of_run matchCase htokens hrun
    refine ⟨origin, hadmits.append_right hlt behind, ?_⟩
    rw [String.toByteArray_append]
    exact hopen.run_append_right matchCase hrun behind.toByteArray

/-- The program of a compiled rule without separators in its pattern, and without an end
anchor, is that of an open-ended pattern. -/
theorem Filter.exists_isOpenEnded_of_compile {filter : Filter} {rule : Rule}
    (h : filter.compile = .ok rule) (hcaret : '^' ∉ rule.pattern.toList)
    (htail : Instruction.tail ∉ rule.program.instructions) :
    ∃ (pattern : Pattern) (matchCase : Bool), pattern.IsOpenEnded ∧
      rule.program = Program.ofInstructions (pattern.instructions matchCase) rule.flags := by
  obtain ⟨instructions, hcompile, rfl⟩ := exists_instructions_of_compile h
  obtain ⟨lead, tail, hopens, rfl, -⟩ := Pattern.compile_eq_ok_iff.1 hcompile
  refine ⟨lead.pattern tail, _, ⟨hopens.tokens_writable, ?_, ?_⟩, rfl⟩
  · intro token htoken hseparator
    obtain ⟨front, -, hbytes⟩ := token.exists_bytes_eq
    have hmem : Byte.caret ∈ utf8 filter.pattern := by
      refine (hopens.bytes_isInfix htoken).subset ?_
      rw [hbytes, hseparator]
      exact List.mem_append_right front (List.mem_singleton_self _)
    exact hcaret ((mem_utf8_iff (by decide)).1 hmem)
  · cases tail with
    | false => rfl
    | true =>
        refine absurd ?_ htail
        change _ ∈ Pattern.instructions _ (lead.pattern true)
        simp [Pattern.instructions, Pattern.Lead.pattern]

/-- Acceptance is stable when a URI gets longer.  A compiled rule without domain tokens that
accepts a URI also accepts it with anything in front, unless the rule is anchored to the
start; and, if its pattern has no separator and its program no end anchor, with anything
behind. -/
theorem accepts_longer_uri {line : String} {rule : Rule}
    (hrule : compileLine line = .ok (some rule)) (hincluded : rule.included = [])
    (hexcluded : rule.excluded = []) {mode : ExclusionMode} {uri : String}
    (haccepts : rule.accepts mode (.mk uri) = true) :
    (rule.program.isAnchored = false → ∀ front, rule.accepts mode (.mk (front ++ uri)) = true) ∧
      ('^' ∉ rule.pattern.toList → Instruction.tail ∉ rule.program.instructions →
        ∀ behind, rule.accepts mode (.mk (uri ++ behind)) = true) := by
  have hcompile := Filter.compile_of_compileLine hrule
  have hdomain : rule.flags.contains .domain = false := by
    rw [Bool.eq_false_iff, ne_eq, (Filter.compile_wellFormed hcompile).domain_iff]
    simp [hincluded, hexcluded]
  rw [Rule.accepts_of_no_tokens hdomain] at haccepts
  simp only [Rule.accepts_of_no_tokens hdomain]
  constructor
  · intro hanchored front
    rw [Query.bytes, Query.mk, String.toByteArray_append]
    exact Program.accepts_append_left hanchored haccepts front.toByteArray
  · intro hcaret htail behind
    obtain ⟨pattern, matchCase, hopen, hprogram⟩ :=
      Filter.exists_isOpenEnded_of_compile hcompile hcaret htail
    rw [hprogram] at haccepts ⊢
    exact hopen.accepts_append_right haccepts behind

/-- A rule with a wildcard, on a URI with something in front, and the same rule for a host, on a
URI with something behind. -/
theorem accepts_longer_wildcards :
    (∃ rule, compileLine "a*/" = .ok (some rule) ∧
      rule.accepts .inert (.mk "a.b/") = true ∧
      rule.accepts .inert (.mk ("x://" ++ "a.b/")) = true) ∧
    ∃ rule, compileLine "||a*/" = .ok (some rule) ∧
      rule.accepts .inert (.mk "x://a.b/") = true ∧
      rule.accepts .inert (.mk ("x://a.b/" ++ "/c")) = true := by
  let rule := Rule.assemble "a*/" "a*/"
    [⟨.char, 0x61⟩, ⟨.skipTo, 0x2f⟩, Instruction.accept] Flags.empty [] []
  let hostRule := Rule.assemble "||a*/" "||a*/"
    [Instruction.head, Instruction.skipScheme, ⟨.char, 0x61⟩, ⟨.skipTo, 0x2f⟩,
      Instruction.accept] Flags.empty [] []
  have hrule : compileLine "a*/" = .ok (some rule) := by decide +kernel
  have haccepts : rule.accepts .inert (.mk "a.b/") = true := by decide +kernel
  have hhost : compileLine "||a*/" = .ok (some hostRule) := by decide +kernel
  have hhostAccepts : hostRule.accepts .inert (.mk "x://a.b/") = true := by decide +kernel
  exact ⟨⟨rule, hrule, haccepts, (accepts_longer_uri hrule rfl rfl haccepts).1 (by decide) _⟩,
    hostRule, hhost, hhostAccepts,
    (accepts_longer_uri hhost rfl rfl hhostAccepts).2 (by decide) (by decide) _⟩

end UrlFilter

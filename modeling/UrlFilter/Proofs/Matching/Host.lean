/-
Patterns with a host anchor.

The host anchor and the domain of a query are read by two scanners of their own.  Both go
to the same place of every URI with a scheme, so a filter for a host accepts exactly the
URIs whose domain is the host, or goes on behind it with a separator.
-/
import UrlFilter.Proofs.Matching.Wildcard
import UrlFilter.Proofs.Query.Span

namespace UrlFilter

/-- A run over the scheme of a URI goes on from the start of the domain. -/
theorem run_skipScheme_iff {uri : String} {rest : List Instruction} :
    run uri.toByteArray (Instruction.skipScheme :: rest) 0 = true ↔
      (Query.mk uri).HasScheme ∧
        run uri.toByteArray rest (Query.mk uri).domainStart = true := by
  rw [run_cons_iff (by decide)]
  simp only [Query.move?_skipScheme_eq_some_iff_domainStart]
  constructor
  · rintro ⟨next, ⟨hscheme, rfl⟩, hrest⟩
    exact ⟨hscheme, hrest⟩
  · rintro ⟨hscheme, hrest⟩
    exact ⟨_, ⟨hscheme, rfl⟩, hrest⟩

/-- A match of a host may start at the start of the domain only. -/
theorem Anchor.admits_host_iff {uri : String} {origin : Nat} :
    Anchor.host.Admits (utf8 uri) origin ↔
      (Query.mk uri).HasScheme ∧ origin = (Query.mk uri).domainStart := by
  rw [← move?_skipScheme_eq_some_iff_admits]
  exact Query.move?_skipScheme_eq_some_iff_domainStart

theorem lowerByte_ne_slash {byte : UInt8} (h : byte ≠ Byte.slash) :
    lowerByte byte ≠ Byte.slash := by
  revert byte
  apply forall_byte
  decide +kernel

/-- The tokens of a host and of the separator behind it. -/
def hostTokens (host : List UInt8) : List Token :=
  (host.map Atom.literal).map Token.here ++ [.here .separator]

theorem flatMap_bytes_hostTokens (host : List UInt8) :
    (hostTokens host).flatMap Token.bytes = host ++ [Byte.caret] := by
  rw [hostTokens, List.flatMap_append, flatMap_bytes_map_literal]
  rfl

/-- A run over a host and a separator. -/
theorem run_hostTokens_iff {host : List UInt8} (hurl : ∀ byte ∈ host, isUrlByte byte = true)
    {text : String} {origin : Nat} :
    run text.toByteArray
        ((hostTokens host).map (Token.instruction false) ++ [Instruction.accept])
        origin = true ↔
      host.map lowerByte <+: (utf8 text).drop origin ∧
        ∀ byte, (utf8 text)[origin + host.length]? = some byte →
          isSeparator byte = true := by
  have hseparator : Atom.IsWritable .separator := trivial
  rw [hostTokens, List.map_append, List.append_assoc, run_literals_iff hurl,
    List.map_singleton, List.singleton_append, run_here_iff, hseparator.fits_operand_iff,
    run_accept]
  simp only [and_true, Atom.Takes]

/-- The domain of a query, from its start on, against a host and a separator. -/
theorem Query.host_at_domainStart_iff {uri : String} {host : List UInt8}
    (hslash : ∀ byte ∈ host, byte ≠ Byte.slash) :
    (host.map lowerByte <+: (utf8 uri).drop (mk uri).domainStart ∧
      ∀ byte, (utf8 uri)[(mk uri).domainStart + host.length]? = some byte →
        isSeparator byte = true) ↔
      utf8 (mk uri).domain = host.map lowerByte ∨
        ∃ byte, isSeparator byte = true ∧
          host.map lowerByte ++ [byte] <+: utf8 (mk uri).domain := by
  have hends : ∀ byte, (byte != Byte.slash) = false → isSeparator byte = true := by
    intro byte hbyte
    have hslash : byte = Byte.slash := by simpa using hbyte
    rw [hslash]
    decide
  have hinside : ∀ byte ∈ host.map lowerByte, (byte != Byte.slash) = true := by
    intro byte hbyte
    obtain ⟨letter, hletter, rfl⟩ := List.mem_map.1 hbyte
    exact bne_iff_ne.2 (lowerByte_ne_slash (hslash letter hletter))
  rw [domain_mk, utf8_domainText, ← prefix_and_next_iff_takeWhile hends hinside,
    ← drop_domainStart_mk, List.length_map]
  simp only [List.getElem?_drop]

theorem atom_isPlain_of_mem_hostTokens {host : List UInt8}
    (hbytes : ∀ byte ∈ host, IsPlainByte byte) :
    ∀ token ∈ hostTokens host, token.atom.IsPlain := by
  intro token htoken
  rcases List.mem_append.1 htoken with htoken | htoken
  · exact atom_isPlain_of_mem_map_literal hbytes token htoken
  · rw [List.mem_singleton.1 htoken]
    trivial

/-- A plain line of the host anchor, a host and a separator has a rule.  The rule needs a
scheme and, from the start of the domain, the host in lower case and behind it a separator
or nothing. -/
theorem Line.IsPlain.exists_rule_of_host {line : String} (hplain : Line.IsPlain line)
    {host : List UInt8} (htext : utf8 line = Anchor.host.bytes ++ host ++ [Byte.caret])
    (hbytes : ∀ byte ∈ host, IsPlainByte byte)
    (hsize : host.length + 4 ≤ instructionLimit) :
    ∃ rule, compileLine line = .ok (some rule) ∧ ∀ mode uri,
      rule.accepts mode (.mk uri) = true ↔
        (Query.mk uri).HasScheme ∧
          host.map lowerByte <+: (utf8 uri).drop (Query.mk uri).domainStart ∧
          ∀ byte, (utf8 uri)[(Query.mk uri).domainStart + host.length]? = some byte →
            isSeparator byte = true := by
  have hurl : ∀ byte ∈ host, isUrlByte byte = true := fun byte hbyte => (hbytes byte hbyte).1
  have hline : line ≠ "" := by
    rintro rfl
    rw [List.append_assoc] at htext
    exact List.cons_ne_nil _ _ htext.symm
  have hseek : ∀ atom, (hostTokens host).head? ≠ some (.seek atom) := by
    intro atom hhead
    have hmem := List.mem_of_mem_head? hhead
    simp [hostTokens] at hmem
  have hlength : Anchor.host.instructions.length + (hostTokens host).length + 1 =
      host.length + 4 := by
    simp only [hostTokens, List.length_append, List.length_map, Anchor.instructions,
      List.length_cons, List.length_nil]
    omega
  rw [List.append_assoc, ← flatMap_bytes_hostTokens] at htext
  obtain ⟨rule, hrule, haccepts⟩ :=
    hplain.exists_rule_of_tokens hline htext (atom_isPlain_of_mem_hostTokens hbytes) hseek
      (by rwa [hlength])
  refine ⟨rule, hrule, fun mode uri => ?_⟩
  rw [haccepts]
  simp only [Query.uri_mk, Anchor.admits_host_iff, run_hostTokens_iff hurl]
  constructor
  · rintro ⟨-, origin, ⟨hscheme, rfl⟩, hdomain⟩
    exact ⟨hscheme, hdomain⟩
  · rintro ⟨hscheme, hdomain⟩
    exact ⟨hscheme.uri_ne_empty, _, ⟨hscheme, rfl⟩, hdomain⟩

/-- The host anchor and the domain of a query agree.  A run over the scheme goes on from
the start of the domain, or from the end of a URI without one.  So a filter for a host
accepts a URI exactly if only bytes of a scheme stand in front of the first colon and the
domain is the host, in lower case, or goes on behind it with a separator. -/
theorem accepts_host_iff_domain :
    (∀ (uri : String) (rest : List Instruction),
      run uri.toByteArray (Instruction.skipScheme :: rest) 0 = true ↔
        (Query.mk uri).HasScheme ∧
          run uri.toByteArray rest (Query.mk uri).domainStart = true) ∧
      ∀ (line : String) (host : List UInt8),
        utf8 line = Anchor.host.bytes ++ host ++ [Byte.caret] → host ≠ [] →
        (∀ byte ∈ host, IsPlainByte byte ∧ byte ≠ Byte.slash) → Line.IsPlain line →
        host.length + 4 ≤ instructionLimit →
        ∃ rule, compileLine line = .ok (some rule) ∧ ∀ mode uri,
          rule.accepts mode (.mk uri) = true ↔
            (∀ byte ∈ (utf8 uri).takeWhile (· != Byte.colon), isSchemeByte byte = true) ∧
            (utf8 (Query.mk uri).domain = host.map lowerByte ∨
              ∃ byte, isSeparator byte = true ∧
                host.map lowerByte ++ [byte] <+: utf8 (Query.mk uri).domain) := by
  refine ⟨fun uri rest => run_skipScheme_iff, ?_⟩
  intro line host htext hne hbytes hplain hsize
  obtain ⟨rule, hrule, haccepts⟩ :=
    hplain.exists_rule_of_host htext (fun byte hbyte => (hbytes byte hbyte).1) hsize
  refine ⟨rule, hrule, fun mode uri => ?_⟩
  rw [haccepts, Query.host_at_domainStart_iff fun byte hbyte => (hbytes byte hbyte).2,
    Query.HasScheme]
  refine and_congr_left fun hdomain => and_iff_right_of_imp fun _ => ?_
  -- A domain that the host fits is not empty, so there is a colon.
  apply mem_colon_of_domainText_ne_nil
  rw [Query.uri_mk, ← Query.domain_mk]
  rcases hdomain with hdomain | ⟨byte, -, hdomain⟩
  · rw [hdomain]
    simpa using hne
  · exact List.ne_nil_of_length_pos (Nat.lt_of_lt_of_le (by simp) hdomain.length_le)

/-- The filter for a host `a.b` on a URI with a port behind the host. -/
theorem accepts_host_with_port :
    run "http://a.b:8/x".toByteArray
        (Instruction.skipScheme :: [⟨.char, 0x61⟩, Instruction.accept]) 0 = true ∧
      Line.IsPlain "||A.b^" ∧ ∃ rule, compileLine "||A.b^" = .ok (some rule) ∧
        rule.accepts .inert (.mk "http://a.b:8/x") = true := by
  have hbytes : ∀ byte ∈ ([0x41, 0x2e, 0x62] : List UInt8),
      IsPlainByte byte ∧ byte ≠ Byte.slash := by
    simp only [List.mem_cons, List.not_mem_nil, or_false, forall_eq_or_imp, forall_eq]
    decide
  have hplain : Line.IsPlain "||A.b^" := by decide
  have hfront : ∀ byte ∈ (utf8 "http://a.b:8/x").takeWhile (· != Byte.colon),
      isSchemeByte byte = true := List.all_eq_true.1 (by decide)
  obtain ⟨hscheme, hhost⟩ := accepts_host_iff_domain
  obtain ⟨rule, hrule, haccepts⟩ :=
    hhost "||A.b^" [0x41, 0x2e, 0x62] (by decide) (by decide) hbytes hplain (by decide)
  exact ⟨(hscheme _ _).2 ⟨⟨by decide, hfront⟩, by decide⟩, hplain, rule, hrule,
    (haccepts .inert _).2 ⟨hfront, Or.inr ⟨Byte.colon, by decide, by decide⟩⟩⟩

end UrlFilter

import WolfInterp.Lex.Token

/-!
# Nesting of a token stream

What a well-nested stream is, as a grammar, and the stack automaton that recognises it. The
automaton reads a stream token by token and is what a lexer can be compared with.
-/

namespace WolfInterp.Lex

/-- Where a token stands: outside of literals, in a literal's body, or in a format spec. -/
inductive Place where
  | token | body | spec
  deriving DecidableEq

/-- A token that belongs to no literal. -/
def Tok.isOutside : Tok → Bool
  | .strStart _ | .strText _ | .strEnd | .interpStart | .interpEnd | .fmtStart | .fmtText _ => false
  | _ => true

/-- Well-nested streams by where they stand. -/
inductive Nests : Place → List Tok → Prop
  | nil {place : Place} : Nests place []
  | outside {tok : Tok} {rest : List Tok} (isOutside : tok.isOutside = true)
      (tail : Nests .token rest) : Nests .token (tok :: rest)
  | literal {kind : StrKind} {body rest : List Tok} (inner : Nests .body body)
      (tail : Nests .token rest) : Nests .token (.strStart kind :: body ++ .strEnd :: rest)
  | strText {text : Text} {rest : List Tok} (tail : Nests .body rest) :
      Nests .body (.strText text :: rest)
  | fmtText {text : Text} {rest : List Tok} (tail : Nests .spec rest) :
      Nests .spec (.fmtText text :: rest)
  | interp {place : Place} {code rest : List Tok} (inside : place ≠ .token)
      (inner : Nests .token code) (tail : Nests place rest) :
      Nests place (.interpStart :: code ++ .interpEnd :: rest)
  | formatted {place : Place} {code spec rest : List Tok} (inside : place ≠ .token)
      (inner : Nests .token code) (format : Nests .spec spec) (tail : Nests place rest) :
      Nests place (.interpStart :: code ++ .fmtStart :: spec ++ .interpEnd :: rest)

/-- What is open around a place of a stream. -/
inductive Mode where
  | str | interp | fmt
  deriving DecidableEq

/-- What is open after a token; no answer where the token cannot stand. -/
def Mode.step : List Mode → Tok → Option (List Mode)
  | .str :: modes, .strText _ => some (.str :: modes)
  | .str :: modes, .interpStart => some (.interp :: .str :: modes)
  | .str :: modes, .strEnd => some modes
  | .str :: _, _ => none
  | .fmt :: modes, .fmtText _ => some (.fmt :: modes)
  | .fmt :: modes, .interpStart => some (.interp :: .fmt :: modes)
  | .fmt :: modes, .interpEnd => some modes
  | .fmt :: _, _ => none
  | .interp :: modes, .fmtStart => some (.fmt :: modes)
  | .interp :: modes, .interpEnd => some modes
  | modes, .strStart _ => some (.str :: modes)
  | modes, tok => if tok.isOutside then some modes else none

/-- The code of an interpolation, with or without a format spec. -/
inductive Code : List Tok → Prop
  | plain {code : List Tok} (inner : Nests .token code) : Code code
  | formatted {code spec : List Tok} (inner : Nests .token code) (format : Nests .spec spec) :
      Code (code ++ .fmtStart :: spec)

theorem Code.interp {place : Place} {code rest : List Tok} (inside : place ≠ .token)
    (inner : Code code) (tail : Nests place rest) :
    Nests place (.interpStart :: code ++ .interpEnd :: rest) := by
  cases inner with
  | plain inner => exact .interp inside inner tail
  | formatted inner format =>
    have whole := Nests.formatted inside inner format tail
    simpa [List.append_assoc] using whole

/-- A stream that closes everything that is open, from the inside out. -/
def Closes : List Mode → List Tok → Prop
  | [], toks => Nests .token toks
  | .str :: modes, toks =>
    ∃ body rest, toks = body ++ .strEnd :: rest ∧ Nests .body body ∧ Closes modes rest
  | .interp :: modes, toks =>
    ∃ code rest, toks = code ++ .interpEnd :: rest ∧ Code code ∧ Closes modes rest
  | .fmt :: modes, toks =>
    ∃ spec rest, toks = spec ++ .interpEnd :: rest ∧ Nests .spec spec ∧ Closes modes rest

/-- A part of token mode put in front. -/
theorem Closes.prepend {modes : List Mode} {front rest : List Tok}
    (mode : modes = [] ∨ ∃ outer, modes = .interp :: outer)
    (front_nests : ∀ {tail}, Nests .token tail → Nests .token (front ++ tail))
    (closes : Closes modes rest) : Closes modes (front ++ rest) := by
  rcases mode with rfl | ⟨outer, rfl⟩
  · exact front_nests closes
  · obtain ⟨code, after, rfl, inner, closes⟩ := closes
    refine ⟨front ++ code, after, (List.append_assoc _ _ _).symm, ?_, closes⟩
    cases inner with
    | plain inner => exact .plain (front_nests inner)
    | formatted inner format =>
      rw [← List.append_assoc]
      exact .formatted (front_nests inner) format

/-- The automaton accepts only streams that close what is open. -/
theorem closes_of_steps {modes : List Mode} {toks : List Tok}
    (run : toks.foldlM Mode.step modes = some []) : Closes modes toks := by
  induction toks generalizing modes with
  | nil =>
    cases Option.some.inj run
    exact Nests.nil
  | cons tok toks ih =>
    rw [List.foldlM_cons] at run
    obtain ⟨next, step, run⟩ := Option.bind_eq_some_iff.mp run
    have later := ih run
    have inToken (notStr : ∀ outer, modes = .str :: outer → False)
        (notFmt : ∀ outer, modes = .fmt :: outer → False) :
        modes = [] ∨ ∃ outer, modes = .interp :: outer := by
      cases modes with
      | nil => exact .inl rfl
      | cons mode outer =>
        cases mode with
        | str => exact (notStr outer rfl).elim
        | interp => exact .inr ⟨outer, rfl⟩
        | fmt => exact (notFmt outer rfl).elim
    revert step
    fun_cases Mode.step modes tok with
    | case1 outer text =>
      rintro ⟨⟩
      obtain ⟨body, rest, rfl, inner, closes⟩ := later
      exact ⟨.strText text :: body, rest, rfl, .strText inner, closes⟩
    | case2 outer =>
      rintro ⟨⟩
      obtain ⟨code, _, rfl, code_nests, body, rest, rfl, inner, closes⟩ := later
      refine ⟨.interpStart :: code ++ .interpEnd :: body, rest, ?_, ?_, closes⟩
      · simp [List.append_assoc]
      · exact code_nests.interp nofun inner
    | case3 outer =>
      rintro ⟨⟩
      exact ⟨[], toks, rfl, .nil, later⟩
    | case4 => nofun
    | case5 outer text =>
      rintro ⟨⟩
      obtain ⟨spec, rest, rfl, inner, closes⟩ := later
      exact ⟨.fmtText text :: spec, rest, rfl, .fmtText inner, closes⟩
    | case6 outer =>
      rintro ⟨⟩
      obtain ⟨code, _, rfl, code_nests, spec, rest, rfl, inner, closes⟩ := later
      refine ⟨.interpStart :: code ++ .interpEnd :: spec, rest, ?_, ?_, closes⟩
      · simp [List.append_assoc]
      · exact code_nests.interp nofun inner
    | case7 outer =>
      rintro ⟨⟩
      exact ⟨[], toks, rfl, .nil, later⟩
    | case8 => nofun
    | case9 outer =>
      rintro ⟨⟩
      obtain ⟨spec, rest, rfl, inner, closes⟩ := later
      exact ⟨.fmtStart :: spec, rest, rfl, .formatted .nil inner, closes⟩
    | case10 outer =>
      rintro ⟨⟩
      exact ⟨[], toks, rfl, .plain .nil, later⟩
    | case11 =>
      rename_i kind notStr notFmt
      rintro ⟨⟩
      obtain ⟨body, rest, rfl, inner, closes⟩ := later
      have literal {tail : List Tok} (nests : Nests .token tail) :
          Nests .token (.strStart kind :: body ++ [.strEnd] ++ tail) := by
        simpa [List.append_assoc] using @Nests.literal kind _ _ inner nests
      have whole := closes.prepend (inToken notStr notFmt) literal
      simpa [List.append_assoc] using whole
    | case12 =>
      rintro ⟨⟩
      exact @Closes.prepend _ [tok] _ (inToken ‹_› ‹_›) (.outside ‹_›) later
    | case13 => nofun

end WolfInterp.Lex

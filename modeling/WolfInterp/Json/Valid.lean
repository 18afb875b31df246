import Mathlib.Data.List.DropRight
import WolfInterp.Json.Grammar
import WolfInterp.Lib.Fallible

/-!
# What the reader accepts

The reader and the grammar agree on every text in which no `\u` escape is followed by a plus sign.
`u32::from_str_radix` takes a leading plus, so `\u+041` is read as `\u0041`: the reader accepts a
text exactly when the text with a zero in the place of these plus signs is JSON.
-/

namespace WolfInterp.Json

open Fallible

/-! ## Scanning -/

section Scanning

variable {text rest : Text}

theorem eat_eq_some {byte : Char} : eat byte text = some rest ↔ text = byte :: rest := by
  cases text with
  | nil => simp [eat]
  | cons c tail =>
    simp only [eat, Option.ite_none_right_eq_some, Option.some.injEq, List.cons.injEq]

@[simp]
theorem eat_cons (byte : Char) (rest : Text) : eat byte (byte :: rest) = some rest :=
  eat_eq_some.mpr rfl

theorem eat_of_ne {byte c : Char} (differs : c ≠ byte) (rest : Text) :
    eat byte (c :: rest) = none := by
  rw [eat, if_neg differs]

theorem skipWs_append {blank : Text} (isBlank : Blank blank) (rest : Text) :
    skipWs (blank ++ rest) = skipWs rest :=
  List.dropWhile_append_of_pos isBlank

theorem skipWs_cons {c : Char} (visible : isWs c = false) (rest : Text) :
    skipWs (c :: rest) = c :: rest :=
  List.dropWhile_cons_of_neg (by simp [visible])

/-- Whitespace comes off the front, all of it. -/
theorem skipWs_spec (text : Text) : ∃ blank, Blank blank ∧ text = blank ++ skipWs text := by
  refine ⟨text.takeWhile isWs, fun c member => ?_, (List.takeWhile_append_dropWhile).symm⟩
  exact List.mem_takeWhile_imp member

theorem span_append (text rest : Text) : span (text ++ rest) rest = text := by
  simp [span]

end Scanning

/-! ## Numbers -/

section Numbers

variable {text rest : Text}

/-- No digit comes first. -/
def NoDigit (text : Text) : Prop := ∀ c ∈ text.head?, isDigit c = false

/-- What may follow a number. -/
def Follows (text : Text) : Prop :=
  ∀ c ∈ text.head?, isDigit c = false ∧ c ≠ '.' ∧ c ≠ 'e' ∧ c ≠ 'E'

theorem digits_sound (read : digits text = .ok rest) :
    ∃ ds, text = ds ++ rest ∧ Digits ds ∧ NoDigit rest := by
  cases text with
  | nil => cases read
  | cons c tail =>
    rw [digits] at read
    split at read
    · rename_i digit
      cases read
      refine ⟨c :: tail.takeWhile isDigit, ?_, ⟨by simp, ?_⟩, ?_⟩
      · rw [List.cons_append, List.takeWhile_append_dropWhile]
      · intro d member
        rcases List.mem_cons.mp member with rfl | member
        · exact digit
        · exact List.mem_takeWhile_imp member
      · intro d head
        have stopped := List.head?_dropWhile_not isDigit tail
        rw [Option.mem_def.mp head] at stopped
        simpa using stopped
    · cases read

theorem digits_complete {ds : Text} (isDigits : Digits ds) (stops : NoDigit rest) :
    digits (ds ++ rest) = .ok rest := by
  obtain ⟨some_one, each⟩ := isDigits
  cases ds with
  | nil => exact absurd rfl some_one
  | cons c tail =>
    rw [List.cons_append, digits, if_pos (each c List.mem_cons_self)]
    rw [List.dropWhile_append_of_pos fun d member => each d (List.mem_cons_of_mem c member)]
    cases rest with
    | nil => rfl
    | cons d rest =>
      have stop := stops d rfl
      rw [List.dropWhile_cons_of_neg (by simp [stop])]

theorem ne_of_digit {c d : Char} (digit : isDigit c = true) (other : isDigit d = false) :
    c ≠ d := by
  rintro rfl
  rw [digit] at other
  cases other

theorem digits_head {ds : Text} (isDigits : Digits ds) (rest : Text) :
    ∃ c tail, ds ++ rest = c :: tail ∧ isDigit c = true := by
  obtain ⟨some_one, each⟩ := isDigits
  cases ds with
  | nil => exact absurd rfl some_one
  | cons c tail => exact ⟨c, tail ++ rest, rfl, each c List.mem_cons_self⟩

theorem intPart_sound (read : intPart text = .ok rest) :
    ∃ int, text = int ++ rest ∧ IntPart int := by
  cases text with
  | nil => cases read
  | cons c tail =>
    rw [intPart] at read
    split at read
    · rename_i zero
      cases read
      exact ⟨['0'], by rw [zero]; rfl, .inl rfl⟩
    · rename_i nonzero
      obtain ⟨ds, split, isDigits, _⟩ := digits_sound read
      refine ⟨ds, split, .inr ⟨isDigits, fun head => ?_⟩⟩
      obtain ⟨some_one, _⟩ := isDigits
      cases ds with
      | nil => exact some_one rfl
      | cons d ds =>
        obtain ⟨rfl, _⟩ := List.cons.inj split
        exact nonzero (Option.some.inj head)

theorem intPart_complete {int : Text} (isInt : IntPart int) (stops : NoDigit rest) :
    intPart (int ++ rest) = .ok rest := by
  rcases isInt with rfl | ⟨isDigits, nonzero⟩
  · rfl
  · obtain ⟨c, tail, split, _⟩ := digits_head isDigits rest
    have differs : c ≠ '0' := by
      rintro rfl
      cases int with
      | nil => exact isDigits.1 rfl
      | cons d ds => exact nonzero (congrArg some (List.cons.inj split).1)
    rw [split, intPart, if_neg differs, ← split]
    exact digits_complete isDigits stops

theorem fracPart_sound (read : fracPart text = .ok rest) :
    ∃ frac, text = frac ++ rest ∧ FracPart frac := by
  rw [fracPart] at read
  split at read
  · rename_i tail dot
    obtain ⟨ds, split, isDigits, _⟩ := digits_sound read
    exact ⟨'.' :: ds, by rw [eat_eq_some.mp dot, split]; rfl, .inr ⟨ds, rfl, isDigits⟩⟩
  · cases read
    exact ⟨[], rfl, .inl rfl⟩

theorem fracPart_complete {frac : Text} (isFrac : FracPart frac)
    (stops : ∀ c ∈ rest.head?, isDigit c = false ∧ c ≠ '.') :
    fracPart (frac ++ rest) = .ok rest := by
  rcases isFrac with rfl | ⟨ds, rfl, isDigits⟩
  · rw [List.nil_append, fracPart]
    cases rest with
    | nil => rfl
    | cons c rest => rw [eat_of_ne (stops c rfl).2]
  · rw [List.cons_append, fracPart, eat_cons]
    exact digits_complete isDigits fun c head => (stops c head).1

theorem expPart_sound (read : expPart text = .ok rest) :
    ∃ exp, text = exp ++ rest ∧ ExpPart exp := by
  rw [expPart] at read
  split at read
  · rename_i tail letter
    obtain ⟨ds, split, isDigits, _⟩ := digits_sound read
    have marked : ∃ e, text = e :: tail ∧ (e = 'e' ∨ e = 'E') := by
      rcases Option.or_eq_some_iff.mp letter with small | ⟨_, large⟩
      · exact ⟨'e', eat_eq_some.mp small, .inl rfl⟩
      · exact ⟨'E', eat_eq_some.mp large, .inr rfl⟩
    obtain ⟨e, rfl, isE⟩ := marked
    have signed : ∃ sign, tail = sign ++ (ds ++ rest) ∧
        (sign = [] ∨ sign = ['+'] ∨ sign = ['-']) := by
      rw [← split]
      cases found : (eat '+' tail).or (eat '-' tail) with
      | none => exact ⟨[], rfl, .inl rfl⟩
      | some after =>
        rcases Option.or_eq_some_iff.mp found with plus | ⟨_, minus⟩
        · exact ⟨['+'], eat_eq_some.mp plus, .inr (.inl rfl)⟩
        · exact ⟨['-'], eat_eq_some.mp minus, .inr (.inr rfl)⟩
    obtain ⟨sign, rfl, isSign⟩ := signed
    exact ⟨e :: sign ++ ds, by simp, .inr ⟨e, sign, ds, rfl, isE, isSign, isDigits⟩⟩
  · cases read
    exact ⟨[], rfl, .inl rfl⟩

theorem expPart_complete {exp : Text} (isExp : ExpPart exp)
    (stops : ∀ c ∈ rest.head?, isDigit c = false ∧ c ≠ 'e' ∧ c ≠ 'E') :
    expPart (exp ++ rest) = .ok rest := by
  rcases isExp with rfl | ⟨e, sign, ds, rfl, isE, isSign, isDigits⟩
  · rw [List.nil_append, expPart]
    cases rest with
    | nil => rfl
    | cons c rest =>
      rw [eat_of_ne (stops c rfl).2.1, eat_of_ne (stops c rfl).2.2]
      rfl
  · have read := digits_complete isDigits fun c head => (stops c head).1
    have marked : (eat 'e' (e :: sign ++ ds ++ rest)).or (eat 'E' (e :: sign ++ ds ++ rest)) =
        some (sign ++ (ds ++ rest)) := by
      rcases isE with rfl | rfl
      · simp [eat]
      · simp [eat]
    rw [expPart, marked]
    rcases isSign with rfl | rfl | rfl
    · obtain ⟨c, tail, split, digit⟩ := digits_head isDigits rest
      rw [List.nil_append, split]
      dsimp only
      rw [eat_of_ne (ne_of_digit digit rfl), eat_of_ne (ne_of_digit digit rfl), ← split]
      exact read
    · exact read
    · exact read

theorem number_sound {start : Text} {node : Node} (read : number start = .ok (node, rest)) :
    ∃ text, start = text ++ rest ∧ Number text ∧ node = .num text := by
  have signed : ∃ sign,
      start = sign ++ (eat '-' start).getD start ∧ (sign = [] ∨ sign = ['-']) := by
    cases found : eat '-' start with
    | none => exact ⟨[], rfl, .inl rfl⟩
    | some after => exact ⟨['-'], eat_eq_some.mp found, .inr rfl⟩
  obtain ⟨sign, signSplit, isSign⟩ := signed
  obtain ⟨afterInt, readInt, read⟩ := bind_eq_ok.mp read
  obtain ⟨afterFrac, readFrac, read⟩ := bind_eq_ok.mp read
  obtain ⟨afterExp, readExp, read⟩ := bind_eq_ok.mp read
  obtain ⟨rfl, rfl⟩ := Prod.mk.inj (Except.ok.inj read)
  obtain ⟨int, intSplit, isInt⟩ := intPart_sound readInt
  obtain ⟨frac, rfl, isFrac⟩ := fracPart_sound readFrac
  obtain ⟨exp, rfl, isExp⟩ := expPart_sound readExp
  have split : start = sign ++ int ++ frac ++ exp ++ afterExp := by
    rw [signSplit, intSplit]
    simp only [List.append_assoc]
  refine ⟨sign ++ int ++ frac ++ exp, split, ⟨sign, int, frac, exp, rfl, isSign, isInt, isFrac,
    isExp⟩, ?_⟩
  rw [split, span_append]

theorem expPart_head {exp : Text} (isExp : ExpPart exp) (follows : Follows rest) :
    ∀ c ∈ (exp ++ rest).head?, isDigit c = false ∧ c ≠ '.' := by
  rcases isExp with rfl | ⟨e, sign, ds, rfl, rfl | rfl, _, _⟩
  · exact fun c head => ⟨(follows c head).1, (follows c head).2.1⟩
  · rintro c ⟨⟩
    decide
  · rintro c ⟨⟩
    decide

theorem fracPart_head {frac : Text} (isFrac : FracPart frac)
    (stops : ∀ c ∈ rest.head?, isDigit c = false ∧ c ≠ '.') : NoDigit (frac ++ rest) := by
  rcases isFrac with rfl | ⟨ds, rfl, _⟩
  · exact fun c head => (stops c head).1
  · rintro c ⟨⟩
    decide

theorem intPart_head {int : Text} (isInt : IntPart int) (rest : Text) :
    ∃ c tail, int ++ rest = c :: tail ∧ isDigit c = true := by
  rcases isInt with rfl | ⟨isDigits, _⟩
  · exact ⟨'0', rest, rfl, rfl⟩
  · exact digits_head isDigits rest

theorem number_complete {text : Text} (isNumber : Number text) (follows : Follows rest) :
    number (text ++ rest) = .ok (.num text, rest) := by
  obtain ⟨sign, int, frac, exp, rfl, isSign, isInt, isFrac, isExp⟩ := isNumber
  have afterInt := expPart_head isExp follows
  have afterSign : (eat '-' (sign ++ (int ++ (frac ++ (exp ++ rest))))).getD
      (sign ++ (int ++ (frac ++ (exp ++ rest)))) = int ++ (frac ++ (exp ++ rest)) := by
    rcases isSign with rfl | rfl
    · obtain ⟨c, tail, split, digit⟩ := intPart_head isInt (frac ++ (exp ++ rest))
      rw [List.nil_append, split, eat_of_ne (ne_of_digit digit rfl), Option.getD_none]
    · rfl
  have readInt := intPart_complete isInt (fracPart_head isFrac afterInt)
  have readFrac := fracPart_complete isFrac afterInt
  have readExp := expPart_complete isExp fun c head =>
    ⟨(follows c head).1, (follows c head).2.2⟩
  have assoc : sign ++ int ++ frac ++ exp ++ rest = sign ++ (int ++ (frac ++ (exp ++ rest))) := by
    simp only [List.append_assoc]
  have spanned := span_append (sign ++ int ++ frac ++ exp) rest
  rw [assoc] at spanned ⊢
  simp only [number, afterSign, readInt, readFrac, readExp, spanned, bind, Except.bind, pure,
    Except.pure]

end Numbers

/-! ## Plus signs in escapes -/

/-- A zero in the place of every plus sign that follows `\u`. -/
def respell : Text → Text
  | '\\' :: 'u' :: '+' :: rest => '\\' :: 'u' :: '0' :: respell rest
  | '\\' :: c :: rest => '\\' :: c :: respell rest
  | c :: rest => c :: respell rest
  | [] => []

section Respell

variable {text rest : Text}

@[simp]
theorem respell_nil : respell [] = [] := rfl

/-- The rules of the respelling, one for each row of it. -/
theorem respell_rows : (∀ {c : Char}, c ≠ '\\' → ∀ rest, respell (c :: rest) = c :: respell rest) ∧
    (∀ rest, respell ('\\' :: 'u' :: '+' :: rest) = '\\' :: 'u' :: '0' :: respell rest) ∧
    (∀ {c : Char}, c ≠ 'u' → ∀ rest, respell ('\\' :: c :: rest) = '\\' :: c :: respell rest) ∧
    (∀ {c : Char}, c ≠ '+' → ∀ rest,
      respell ('\\' :: 'u' :: c :: rest) = '\\' :: 'u' :: respell (c :: rest)) := by
  refine ⟨fun plain rest => ?_, fun rest => ?_, fun notU rest => ?_, fun notPlus rest => ?_⟩
  · cases rest with
    | nil => simp [respell]
    | cons d rest =>
      rw [respell]
      · exact fun _ isSlash _ => plain isSlash
      · exact fun _ _ isSlash _ => plain isSlash
  · rw [respell]
  · rw [respell]
    exact fun _ isU _ => notU isU
  · rw [respell]
    exact fun _ _ isPlus => notPlus (List.cons.inj isPlus).1

variable {c : Char}

theorem respell_cons (plain : c ≠ '\\') (rest : Text) :
    respell (c :: rest) = c :: respell rest := respell_rows.1 plain rest

@[simp]
theorem respell_plus (rest : Text) :
    respell ('\\' :: 'u' :: '+' :: rest) = '\\' :: 'u' :: '0' :: respell rest :=
  respell_rows.2.1 rest

theorem respell_escape (notU : c ≠ 'u') (rest : Text) :
    respell ('\\' :: c :: rest) = '\\' :: c :: respell rest := respell_rows.2.2.1 notU rest

theorem respell_unicode (notPlus : c ≠ '+') (rest : Text) :
    respell ('\\' :: 'u' :: c :: rest) = '\\' :: 'u' :: respell (c :: rest) :=
  respell_rows.2.2.2 notPlus rest

/-- Only what follows a backslash changes. -/
theorem respell_append {piece : Text} (plain : '\\' ∉ piece) (rest : Text) :
    respell (piece ++ rest) = piece ++ respell rest := by
  induction piece with
  | nil => rfl
  | cons c piece ih =>
    have head : c ≠ '\\' := fun isSlash => plain (isSlash ▸ List.mem_cons_self)
    have tail : '\\' ∉ piece := fun member => plain (List.mem_cons_of_mem c member)
    rw [List.cons_append, respell_cons head, ih tail]
    rfl

theorem length_respell (text : Text) : (respell text).length = text.length := by
  fun_induction respell text with
  | case1 rest ih | case2 c rest _ ih | case3 c rest _ _ ih => simpa using ih
  | case4 => rfl

theorem head_respell (text : Text) : (respell text).head? = text.head? := by
  fun_cases respell text
  · rfl
  · rfl
  · rfl
  · rfl

/-- A plain character of the respelled text is one of the text. -/
theorem respell_eq_cons {after : Text} (plain : c ≠ '\\') (spelled : respell text = c :: after) :
    ∃ rest, text = c :: rest ∧ respell rest = after := by
  have head : text.head? = some c := by
    rw [← head_respell, spelled]
    rfl
  cases text with
  | nil => cases head
  | cons d rest =>
    cases head
    rw [respell_cons plain] at spelled
    exact ⟨rest, rfl, (List.cons.inj spelled).2⟩

theorem respell_eq_append {piece after : Text} (plain : '\\' ∉ piece)
    (spelled : respell text = piece ++ after) :
    ∃ rest, text = piece ++ rest ∧ respell rest = after := by
  induction piece generalizing text with
  | nil => exact ⟨text, rfl, spelled⟩
  | cons c piece ih =>
    have head : c ≠ '\\' := fun isSlash => plain (isSlash ▸ List.mem_cons_self)
    have tail : '\\' ∉ piece := fun member => plain (List.mem_cons_of_mem c member)
    obtain ⟨inner, rfl, spelledInner⟩ := respell_eq_cons head spelled
    obtain ⟨rest, rfl, spelledRest⟩ := ih tail spelledInner
    exact ⟨rest, rfl, spelledRest⟩

/-- An escape of the respelled text is one of the text, with the same letter. -/
theorem respell_eq_slash {after : Text} (spelled : respell text = '\\' :: c :: after) :
    ∃ rest, text = '\\' :: c :: rest := by
  revert spelled
  fun_cases respell text with
  | case1 rest =>
    intro spelled
    obtain rfl := (List.cons.inj (List.cons.inj spelled).2).1
    exact ⟨'+' :: rest, rfl⟩
  | case2 d rest =>
    intro spelled
    obtain rfl := (List.cons.inj (List.cons.inj spelled).2).1
    exact ⟨rest, rfl⟩
  | case3 d rest _ other =>
    intro spelled
    obtain ⟨rfl, tail⟩ := List.cons.inj spelled
    cases rest with
    | nil => cases tail
    | cons e rest => exact absurd rfl (other e rest rfl)
  | case4 => nofun

end Respell

/-! ## Strings -/

section Strings

variable {text rest : Text} {c : Char} {value : Nat} {digits decoded : Text}

/-- A hexadecimal digit is none of the marks the reader looks for. -/
theorem toDigit_plain (digit : toDigit c = some value) : c ≠ '\\' ∧ c ≠ '+' := by
  constructor
  · rintro rfl
    cases digit
  · rintro rfl
    cases digit

theorem fromDigits_four_iff {a b d : Char} :
    fromDigits [a, b, c, d] = some value ↔ Quad [a, b, c, d] value := by
  constructor
  · intro read
    simp only [fromDigits, List.foldlM_cons, List.foldlM_nil, bind, Option.bind_eq_some_iff,
      Option.map_eq_some_iff, pure, Option.some.injEq] at read
    obtain
      ⟨_, ⟨w, first, rfl⟩, _, ⟨x, second, rfl⟩, _, ⟨y, third, rfl⟩, _, ⟨z, fourth, rfl⟩, rfl⟩ :=
      read
    rw [Nat.mul_zero, Nat.zero_add]
    exact .digits first second third fourth
  · rintro ⟨first, second, third, fourth⟩
    simp [fromDigits, first, second, third, fourth]

theorem fromDigits_three_iff {b d : Char} :
    fromDigits [b, c, d] = some value ↔ Quad ['0', b, c, d] value := by
  have zero : toDigit '0' = some 0 := rfl
  rw [← fromDigits_four_iff]
  simp [fromDigits, zero]

theorem fromStrRadix_plus (b c d : Char) : fromStrRadix ['+', b, c, d] = fromDigits [b, c, d] := rfl

theorem fromStrRadix_of_ne {a : Char} (notPlus : a ≠ '+') (b c d : Char) :
    fromStrRadix [a, b, c, d] = fromDigits [a, b, c, d] := by
  rw [fromStrRadix]
  · nofun
  · exact fun isPlus => notPlus (List.cons.inj isPlus).1
  · exact fun _ isPlus => notPlus (List.cons.inj isPlus).1

theorem hex4_of_radix {a b d : Char} (radix : fromStrRadix [a, b, c, d] = some value)
    (rest : Text) :
    hex4 ([a, b, c, d] ++ rest) = .ok (value, rest) := by
  change hex4 (a :: b :: c :: d :: rest) = _
  rw [hex4, radix]

theorem Quad.plain (quad : Quad digits value) : '\\' ∉ digits := by
  obtain ⟨first, second, third, fourth⟩ := quad
  simp only [List.mem_cons, List.not_mem_nil, or_false, not_or]
  exact ⟨(toDigit_plain first).1.symm, (toDigit_plain second).1.symm, (toDigit_plain third).1.symm,
    (toDigit_plain fourth).1.symm⟩

/-- The reader takes four hexadecimal digits, or three after a plus sign. -/
theorem hex4_sound (read : hex4 text = .ok (value, rest)) : ∃ digits, Quad digits value ∧
      respell ('\\' :: 'u' :: text) = '\\' :: 'u' :: digits ++ respell rest := by
  revert read
  fun_cases hex4 text with
  | case1 a b c d tail parsed radix =>
    intro read
    obtain ⟨rfl, rfl⟩ := Prod.mk.inj (Except.ok.inj read)
    by_cases isPlus : a = '+'
    · subst isPlus
      have quad := fromDigits_three_iff.mp ((fromStrRadix_plus b c d).symm.trans radix)
      have plain : '\\' ∉ [b, c, d] := fun member => quad.plain (List.mem_cons_of_mem '0' member)
      refine ⟨['0', b, c, d], quad, ?_⟩
      have spelled := respell_append plain tail
      rw [respell_plus]
      exact congrArg (fun tail => '\\' :: 'u' :: '0' :: tail) spelled
    · rw [fromStrRadix_of_ne isPlus] at radix
      have quad := fromDigits_four_iff.mp radix
      refine ⟨[a, b, c, d], quad, ?_⟩
      have spelled := respell_append quad.plain tail
      rw [respell_unicode isPlus]
      exact congrArg (fun tail => '\\' :: 'u' :: tail) spelled
  | case2 => nofun
  | case3 => nofun

theorem hex4_complete {after : Text} (quad : Quad digits value)
    (spelled : respell ('\\' :: 'u' :: text) = '\\' :: 'u' :: digits ++ after) :
    ∃ rest, respell rest = after ∧ hex4 text = .ok (value, rest) := by
  obtain ⟨a, tail, rfl⟩ : ∃ a tail, text = a :: tail := by
    cases text with
    | nil =>
      cases quad
      cases spelled
    | cons a tail => exact ⟨a, tail, rfl⟩
  by_cases isPlus : a = '+'
  · subst isPlus
    rw [respell_plus] at spelled
    obtain ⟨b, c, d, rfl, plain⟩ : ∃ b c d, digits = ['0', b, c, d] ∧ '\\' ∉ [b, c, d] := by
      have unslashed := quad.plain
      cases quad with
      | digits =>
        rename_i a b c d _ _ _ _ _ _ _ _
        have zero := (List.cons.inj (List.cons.inj (List.cons.inj spelled).2).2).1
        exact ⟨b, c, d, by rw [← zero], fun member => unslashed (List.mem_cons_of_mem a member)⟩
    have spelledTail : respell tail = [b, c, d] ++ after :=
      (List.cons.inj (List.cons.inj (List.cons.inj spelled).2).2).2
    obtain ⟨rest, rfl, spelledRest⟩ := respell_eq_append plain spelledTail
    refine ⟨rest, spelledRest, ?_⟩
    exact hex4_of_radix ((fromStrRadix_plus b c d).trans (fromDigits_three_iff.mpr quad)) rest
  · rw [respell_unicode isPlus] at spelled
    have spelledText := (List.cons.inj (List.cons.inj spelled).2).2
    obtain ⟨rest, split, spelledRest⟩ := respell_eq_append quad.plain spelledText
    refine ⟨rest, spelledRest, ?_⟩
    cases quad with
    | digits first second third fourth =>
      have radix := fromDigits_four_iff.mpr (.digits first second third fourth)
      obtain ⟨rfl, rfl⟩ := List.cons.inj split
      exact hex4_of_radix ((fromStrRadix_of_ne isPlus _ _ _).trans radix) rest

theorem toDigit_lt (digit : toDigit c = some value) : value < 16 := by
  have code (d : Char) : c ≤ d ↔ c.toNat ≤ d.toNat := Iff.rfl
  rw [toDigit] at digit
  split at digit
  · rename_i range
    have upper : c.toNat ≤ '9'.toNat := range.2
    cases digit
    simp only [Char.reduceToNat] at upper ⊢
    omega
  · split at digit
    · rename_i range
      have upper : c.toNat ≤ 'f'.toNat := range.2
      cases digit
      simp only [Char.reduceToNat] at upper ⊢
      omega
    · split at digit
      · rename_i range
        have upper : c.toNat ≤ 'F'.toNat := range.2
        cases digit
        simp only [Char.reduceToNat] at upper ⊢
        omega
      · cases digit

theorem Quad.lt (quad : Quad digits value) : value < 0x10000 := by
  obtain ⟨first, second, third, fourth⟩ := quad
  have first := toDigit_lt first
  have second := toDigit_lt second
  have third := toDigit_lt third
  have fourth := toDigit_lt fourth
  omega

theorem fromU32_sound (read : fromU32 value = .ok c) : c = Char.ofNat value := by
  rw [fromU32] at read
  split at read
  · exact (Except.ok.inj read).symm
  · cases read

/-- Outside the surrogates, four digits are a scalar value. -/
theorem fromU32_of_quad (quad : Quad digits value) (high : isHigh value = false)
    (low : isLow value = false) : fromU32 value = .ok (Char.ofNat value) := by
  have bound := quad.lt
  simp only [isHigh, isLow, decide_eq_false_iff_not] at high low
  rw [fromU32, if_pos]
  rw [Nat.isValidChar]
  omega

/-- A surrogate pair is a scalar value. -/
theorem fromU32_of_pair {high low : Nat} (isHigh : isHigh high = true) (isLow : isLow low = true) :
    fromU32 (combine high low) = .ok (Char.ofNat (combine high low)) := by
  simp only [Json.isHigh, Json.isLow, decide_eq_true_eq] at isHigh isLow
  have lower : 0x10000 ≤ combine high low := by
    unfold combine
    omega
  have upper : combine high low < 0x110000 := by
    unfold combine
    omega
  have inRange : (combine high low).isValidChar := .inr ⟨by omega, upper⟩
  exact if_pos inRange

theorem unicode_sound (read : unicode text = .ok (c, rest)) :
    ∃ piece, Piece piece c ∧ respell ('\\' :: 'u' :: text) = piece ++ respell rest := by
  obtain ⟨⟨first, afterFirst⟩, readFirst, read⟩ := bind_eq_ok.mp read
  obtain ⟨digits, quad, spelled⟩ := hex4_sound readFirst
  dsimp only at read
  split at read
  · cases read
  rename_i notLow
  split at read
  · rename_i high
    split at read
    · cases read
    · rename_i afterMark marked
      obtain ⟨afterSlash, slash, mark⟩ := Option.bind_eq_some_iff.mp marked
      obtain rfl := eat_eq_some.mp slash
      obtain rfl := eat_eq_some.mp mark
      obtain ⟨⟨second, afterSecond⟩, readSecond, read⟩ := bind_eq_ok.mp read
      obtain ⟨digits', quad', spelled'⟩ := hex4_sound readSecond
      dsimp only at read
      split at read
      · rename_i low
        obtain ⟨scalar, readScalar, read⟩ := bind_eq_ok.mp read
        cases read
        have isPair := Piece.pair quad quad' high low
        rw [← fromU32_sound readScalar] at isPair
        refine ⟨_, isPair, ?_⟩
        rw [spelled, spelled']
        simp only [List.cons_append, List.append_assoc]
      · cases read
  · rename_i notHigh
    obtain ⟨scalar, readScalar, read⟩ := bind_eq_ok.mp read
    cases read
    obtain rfl := fromU32_sound readScalar
    exact ⟨_, .unicode quad (by simpa using notHigh) (by simpa using notLow), spelled⟩

theorem escape_sound (read : escape text = .ok (c, rest)) :
    ∃ piece, Piece piece c ∧ respell ('\\' :: text) = piece ++ respell rest := by
  cases text with
  | nil => cases read
  | cons letter tail =>
    rw [escape] at read
    split at read
    · rename_i isU
      rw [isU]
      exact unicode_sound read
    · rename_i notU
      split at read
      · rename_i decoded found
        obtain ⟨rfl, rfl⟩ := Prod.mk.inj (Except.ok.inj read)
        exact ⟨_, .short found, respell_escape notU tail⟩
      · cases read

theorem stringLoop_sound {fuel : Nat} {out : Text}
    (read : stringLoop fuel out text = .ok (decoded, rest)) :
    ∃ body later, Body body later ∧ decoded = out ++ later ∧
      respell text = body ++ '"' :: respell rest := by
  induction fuel generalizing out text with
  | zero => cases read
  | succ fuel ih =>
    cases text with
    | nil => cases read
    | cons c tail =>
      rw [stringLoop] at read
      split at read
      · rename_i isQuote
        obtain ⟨rfl, rfl⟩ := Prod.mk.inj (Except.ok.inj read)
        rw [isQuote]
        exact ⟨[], [], .nil, (List.append_nil out).symm, respell_cons (by decide) tail⟩
      · rename_i unquoted
        split at read
        · rename_i isSlash
          obtain ⟨⟨d, afterEscape⟩, readEscape, read⟩ := bind_eq_ok.mp read
          obtain ⟨piece, isPiece, spelledPiece⟩ := escape_sound readEscape
          obtain ⟨body, later, isBody, rfl, spelledBody⟩ := ih read
          refine ⟨piece ++ body, d :: later, .cons isPiece isBody, ?_, ?_⟩
          · rw [List.append_assoc]
            rfl
          · rw [isSlash, spelledPiece, spelledBody, List.append_assoc]
        · rename_i unescaped
          split at read
          · cases read
          · rename_i visible
            obtain ⟨body, later, isBody, rfl, spelledBody⟩ := ih read
            have isPiece : Piece [c] c := .plain (by omega) unquoted unescaped
            refine ⟨[c] ++ body, c :: later, .cons isPiece isBody, ?_, ?_⟩
            · rw [List.append_assoc]
              rfl
            · rw [respell_cons unescaped, spelledBody]
              rfl

theorem unicode_of_quad {after : Text} (quad : Quad digits value) (high : isHigh value = false)
    (low : isLow value = false)
    (spelled : respell ('\\' :: 'u' :: text) = '\\' :: 'u' :: digits ++ after) :
    ∃ rest, respell rest = after ∧ unicode text = .ok (Char.ofNat value, rest) := by
  obtain ⟨rest, spelledRest, read⟩ := hex4_complete quad spelled
  refine ⟨rest, spelledRest, ?_⟩
  refine bind_eq_ok.mpr ⟨(value, rest), read, ?_⟩
  dsimp only
  rw [if_neg (by simp [low]), if_neg (by simp [high])]
  exact bind_eq_ok.mpr ⟨_, fromU32_of_quad quad high low, rfl⟩

theorem unicode_of_pair {first second after : Text} {high low : Nat} (quad : Quad first high)
    (quad' : Quad second low) (isHigh : isHigh high = true) (isLow : isLow low = true)
    (spelled : respell ('\\' :: 'u' :: text) =
      '\\' :: 'u' :: first ++ ('\\' :: 'u' :: second ++ after)) :
    ∃ rest, respell rest = after ∧ unicode text = .ok (Char.ofNat (combine high low), rest) := by
  obtain ⟨afterFirst, spelledFirst, readFirst⟩ := hex4_complete quad spelled
  obtain ⟨tail, rfl⟩ := respell_eq_slash spelledFirst
  obtain ⟨rest, spelledRest, readSecond⟩ := hex4_complete quad' spelledFirst
  refine ⟨rest, spelledRest, ?_⟩
  have notLow : Json.isLow high = false := by
    simp only [Json.isHigh, Json.isLow, decide_eq_true_eq, decide_eq_false_iff_not] at isHigh ⊢
    omega
  have marked : (eat '\\' ('\\' :: 'u' :: tail)).bind (eat 'u') = some tail := rfl
  refine bind_eq_ok.mpr ⟨(high, '\\' :: 'u' :: tail), readFirst, ?_⟩
  dsimp only
  rw [if_neg (by simp [notLow]), if_pos isHigh, marked]
  refine bind_eq_ok.mpr ⟨(low, rest), readSecond, ?_⟩
  dsimp only
  rw [if_pos isLow]
  exact bind_eq_ok.mpr ⟨_, fromU32_of_pair isHigh isLow, rfl⟩

/-- The letter `u` starts no one-letter escape. -/
theorem shortEscape_ne {letter : Char} (escape : shortEscape letter = some c) : letter ≠ 'u' := by
  rintro rfl
  cases escape

/-- One round reads one piece. -/
theorem stringLoop_piece {piece after : Text} (isPiece : Piece piece c)
    (spelled : respell text = piece ++ after) : ∃ rest, respell rest = after ∧
      ∀ fuel out, stringLoop (fuel + 1) out text = stringLoop fuel (out ++ [c]) rest := by
  cases isPiece with
  | plain visible unquoted unescaped =>
    obtain ⟨rest, rfl, spelledRest⟩ := respell_eq_cons unescaped spelled
    refine ⟨rest, spelledRest, fun fuel out => ?_⟩
    rw [stringLoop, if_neg unquoted, if_neg unescaped, if_neg (by omega)]
  | short found =>
    rename_i letter
    obtain ⟨rest, rfl⟩ := respell_eq_slash spelled
    have notU := shortEscape_ne found
    rw [respell_escape notU] at spelled
    refine ⟨rest, (List.cons.inj (List.cons.inj spelled).2).2, fun fuel out => ?_⟩
    have read : escape (letter :: rest) = .ok (c, rest) := by
      rw [escape, if_neg notU, found]
    rw [stringLoop, if_neg (by decide), if_pos rfl, read]
    rfl
  | unicode quad high low =>
    obtain ⟨tail, rfl⟩ := respell_eq_slash spelled
    obtain ⟨rest, spelledRest, read⟩ := unicode_of_quad quad high low spelled
    refine ⟨rest, spelledRest, fun fuel out => ?_⟩
    rw [stringLoop, if_neg (by decide), if_pos rfl, escape, if_pos rfl, read]
    rfl
  | pair quad quad' isHigh isLow =>
    obtain ⟨tail, rfl⟩ := respell_eq_slash spelled
    simp only [List.cons_append, List.append_assoc] at spelled
    obtain ⟨rest, spelledRest, read⟩ := unicode_of_pair quad quad' isHigh isLow spelled
    refine ⟨rest, spelledRest, fun fuel out => ?_⟩
    rw [stringLoop, if_neg (by decide), if_pos rfl, escape, if_pos rfl, read]
    rfl

theorem Piece.length_pos {piece : Text} (isPiece : Piece piece c) : 0 < piece.length := by
  cases isPiece with
  | plain => exact Nat.one_pos
  | short => exact Nat.two_pos
  | unicode | pair => exact Nat.succ_pos _

theorem stringLoop_complete {body after : Text} (isBody : Body body decoded) {fuel : Nat}
    {out : Text} (enough : body.length < fuel) (spelled : respell text = body ++ '"' :: after) :
    ∃ rest, respell rest = after ∧ stringLoop fuel out text = .ok (out ++ decoded, rest) := by
  induction isBody generalizing fuel out text with
  | nil =>
    obtain ⟨rest, rfl, spelledRest⟩ := respell_eq_cons (by decide) spelled
    obtain ⟨fuel, rfl⟩ := Nat.exists_eq_succ_of_ne_zero (Nat.ne_of_gt enough)
    refine ⟨rest, spelledRest, ?_⟩
    rw [stringLoop, if_pos rfl, List.append_nil]
  | @cons _ later _ _ isPiece _ ih =>
    have visible := isPiece.length_pos
    rw [List.length_append] at enough
    rw [List.append_assoc] at spelled
    obtain ⟨left, rfl⟩ : ∃ left, fuel = left + 1 := ⟨fuel - 1, by omega⟩
    obtain ⟨middle, spelledMiddle, round⟩ := stringLoop_piece isPiece spelled
    have shorter : later.length < left := by omega
    obtain ⟨rest, spelledRest, read⟩ := ih shorter spelledMiddle
    refine ⟨rest, spelledRest, ?_⟩
    rw [round, read, List.append_assoc]
    rfl

theorem string_sound (read : string text = .ok (decoded, rest)) :
    ∃ body, Body body decoded ∧ respell text = body ++ '"' :: respell rest := by
  obtain ⟨body, later, isBody, rfl, spelled⟩ := stringLoop_sound read
  exact ⟨body, isBody, spelled⟩

theorem string_complete {body after : Text} (isBody : Body body decoded)
    (spelled : respell text = body ++ '"' :: after) :
    ∃ rest, respell rest = after ∧ string text = .ok (decoded, rest) := by
  have shorter : body.length < text.length := by
    rw [← length_respell text, spelled, List.length_append, List.length_cons]
    omega
  exact stringLoop_complete isBody shorter spelled

end Strings

/-! ## Values -/

section Values

variable {text rest : Text} {fuel depth : Nat} {node : Node}

theorem Blank.plain {blank : Text} (isBlank : Blank blank) : '\\' ∉ blank :=
  fun member => absurd (isBlank _ member) (by decide)

theorem Digits.plain {ds : Text} (isDigits : Digits ds) : '\\' ∉ ds :=
  fun member => absurd (isDigits.2 _ member) (by decide)

theorem Number.plain (isNumber : Number text) : '\\' ∉ text := by
  obtain ⟨sign, int, frac, exp, rfl, isSign, isInt, isFrac, isExp⟩ := isNumber
  have signPlain : '\\' ∉ sign := by
    rcases isSign with rfl | rfl
    · decide
    · decide
  have intPlain : '\\' ∉ int := by
    rcases isInt with rfl | ⟨isDigits, _⟩
    · decide
    · exact isDigits.plain
  have fracPlain : '\\' ∉ frac := by
    rcases isFrac with rfl | ⟨ds, rfl, isDigits⟩
    · exact List.not_mem_nil
    · simpa using isDigits.plain
  have expPlain : '\\' ∉ exp := by
    rcases isExp with rfl | ⟨e, sign, ds, rfl, isE, isSign, isDigits⟩
    · exact List.not_mem_nil
    · have := isDigits.plain
      rcases isE with rfl | rfl
      · rcases isSign with rfl | rfl | rfl
        · simpa
        · simpa
        · simpa
      · rcases isSign with rfl | rfl | rfl
        · simpa
        · simpa
        · simpa
  simp [signPlain, intPlain, fracPlain, expPlain]

theorem respell_skipWs (text : Text) :
    ∃ blank, Blank blank ∧ respell text = blank ++ respell (skipWs text) := by
  obtain ⟨blank, isBlank, split⟩ := skipWs_spec text
  refine ⟨blank, isBlank, ?_⟩
  rw [← respell_append isBlank.plain, ← split]

/-- A mark after whitespace. -/
theorem respell_eat {mark : Char} (plain : mark ≠ '\\')
    (read : eat mark (skipWs text) = some rest) :
    ∃ blank, Blank blank ∧ respell text = blank ++ mark :: respell rest := by
  obtain ⟨blank, isBlank, spelled⟩ := respell_skipWs text
  refine ⟨blank, isBlank, ?_⟩
  rw [spelled, eat_eq_some.mp read, respell_cons plain]

theorem literal_sound {word : Text} {meaning : Node}
    (read : literal word meaning text = .ok (node, rest)) :
    text = word ++ rest ∧ node = meaning := by
  rw [literal] at read
  split at read
  · rename_i starts
    cases read
    obtain ⟨tail, rfl⟩ := List.isPrefixOf_iff_prefix.mp starts
    rw [List.drop_left]
    exact ⟨rfl, rfl⟩
  · cases read

theorem skipWs_skipWs (text : Text) : skipWs (skipWs text) = skipWs text :=
  List.dropWhile_idempotent isWs text

/-- What the value reader answers for is a value of the respelled text. -/
def ReadsValue (fuel : Nat) : Prop :=
  ∀ {depth : Nat} {text rest : Text} {node : Node}, depth ≤ maxDepth →
    value fuel depth text = .ok (node, rest) →
    ∃ piece, Value (maxDepth - depth) piece node ∧ respell text = piece ++ respell rest

/-- A kind of container: its loop, and how the grammar spells it. -/
structure Container (α σ ε : Type) where
  opening : Char
  close : Char
  start : σ
  push : σ → α → σ
  finish : σ → Node
  element : Nat → Nat → Text → Except Error (α × Text)
  loop : Nat → Nat → σ → Text → Except Error (Node × Text)
  spelling : ε → Text
  meaning : ε → α
  Spelled : Nat → ε → Prop
  marks : opening ≠ '\\' ∧ (close = ']' ∨ close = '}')
  opens : ∀ fuel depth text, value (fuel + 1) depth (opening :: text) =
    container close (finish start) (loop fuel (depth + 1) start) (depth + 1) text
  dry : ∀ depth known text, loop 0 depth known text = .error .parse
  skips : ∀ fuel depth text, element fuel depth (skipWs text) = element fuel depth text
  /-- An element, then a comma and the loop again, or the closing mark. -/
  round : ∀ fuel depth known text, loop (fuel + 1) depth known text = do
    let (read, rest) ← element fuel depth text
    match eat ',' (skipWs rest) with
    | some rest => loop fuel depth (push known read) rest
    | none =>
      match eat close (skipWs rest) with
      | some rest => .ok (finish (push known read), rest)
      | none => .error .parse
  empty : ∀ {depth : Nat} {blank : Text}, Blank blank →
    Value (depth + 1) (opening :: blank ++ [close]) (finish start)
  filled : ∀ {depth : Nat} {found : List ε}, found ≠ [] → (∀ one ∈ found, Spelled depth one) →
    Value (depth + 1) (opening :: commas (found.map spelling) ++ [close])
      (finish ((found.map meaning).foldl push start))

def Entry.Spelled (depth : Nat) (entry : Entry) : Prop :=
  entry.Blanks ∧ Value depth entry.text entry.node

theorem foldl_push (nodes : List Node) :
    nodes.foldl (fun nodes node => nodes ++ [node]) [] = nodes := by
  induction nodes using List.reverseRecOn with
  | nil => rfl
  | append_singleton nodes node ih => rw [List.foldl_append, ih]; rfl

def arrays : Container Node (List Node) Entry where
  opening := '['
  close := ']'
  start := []
  push nodes node := nodes ++ [node]
  finish := .array
  element fuel depth text := value fuel depth (skipWs text)
  loop := items
  spelling := Entry.spelling
  meaning := Entry.node
  Spelled := Entry.Spelled
  marks := by decide
  opens fuel depth text := by rw [value, if_neg (by decide), if_pos rfl]
  dry _ _ _ := rfl
  skips fuel depth text := by rw [skipWs_skipWs]
  round _ _ _ _ := rfl
  empty := .emptyArray
  filled some_one all := by
    rw [foldl_push]
    exact .array some_one (fun one among => (all one among).1) fun one among => (all one among).2

/-- A name, its colon and a value. -/
def readMember (fuel depth : Nat) (text : Text) : Except Error ((Text × Node) × Text) :=
  match eat '"' (skipWs text) with
  | none => .error .parse
  | some rest => do
    let (key, rest) ← string rest
    match eat ':' (skipWs rest) with
    | none => .error .parse
    | some rest =>
      let (node, rest) ← value fuel depth (skipWs rest)
      return ((key, node), rest)

def objects : Container (Text × Node) (List (Text × Node)) (Name × Entry) where
  opening := '{'
  close := '}'
  start := []
  push known pair := insert known pair.1 pair.2
  finish := .object
  element := readMember
  loop := members
  spelling member := member.1.spelling ++ member.2.spelling
  meaning member := (member.1.decoded, member.2.node)
  Spelled depth member := member.1.Spells ∧ member.2.Spelled depth
  marks := by decide
  opens fuel depth text := by rw [value, if_pos rfl]
  dry _ _ _ := rfl
  skips fuel depth text := by rw [readMember, skipWs_skipWs, readMember]
  round fuel depth known text := by
    rw [members, readMember]
    rcases eat '"' (skipWs text) with _ | rest
    · rfl
    · dsimp only
      rcases string rest with _ | ⟨key, rest⟩
      · rfl
      · dsimp only [bind, Except.bind]
        rcases eat ':' (skipWs rest) with _ | rest
        · rfl
        · dsimp only
          cases value fuel depth (skipWs rest) <;> rfl
  empty := .emptyObject
  filled some_one all := .object some_one (fun one among => (all one among).1)
    (fun one among => (all one among).2.1) fun one among => (all one among).2.2

theorem commas_cons {entry : Text} {entries : List Text} (some_one : entries ≠ []) :
    commas (entry :: entries) = entry ++ ',' :: commas entries := by
  cases entries with
  | nil => exact absurd rfl some_one
  | cons => rfl

section

variable {mark : Char} {afterMark : Text} {pair : Text × Node} (reads : ReadsValue fuel)
  (shallow : depth ≤ maxDepth) (plain : mark ≠ '\\')
include reads shallow plain

/-- A value and the mark after it, with whitespace between, are an entry. -/
theorem entry_sound (read : value fuel depth (skipWs text) = .ok (node, rest))
    (marked : eat mark (skipWs rest) = some afterMark) :
    ∃ entry : Entry, entry.Spelled (maxDepth - depth) ∧ entry.node = node ∧
      respell text = entry.spelling ++ mark :: respell afterMark := by
  obtain ⟨before, isBefore, spelledBefore⟩ := respell_skipWs text
  obtain ⟨piece, isValue, spelledPiece⟩ := reads shallow read
  obtain ⟨after, isAfter, spelledAfter⟩ := respell_eat plain marked
  refine ⟨⟨before, piece, after, node⟩, ⟨⟨isBefore, isAfter⟩, isValue⟩, rfl, ?_⟩
  rw [spelledBefore, spelledPiece, spelledAfter, Entry.spelling]
  simp only [List.append_assoc]

/-- A member and the mark after it. -/
theorem member_sound (read : readMember fuel depth text = .ok (pair, rest))
    (marked : eat mark (skipWs rest) = some afterMark) : ∃ member : Name × Entry,
      (member.1.Spells ∧ member.2.Spelled (maxDepth - depth)) ∧
      (member.1.decoded, member.2.node) = pair ∧
      respell text = member.1.spelling ++ member.2.spelling ++ mark :: respell afterMark := by
  rw [readMember] at read
  split at read
  · cases read
  rename_i afterQuote quote
  obtain ⟨before, isBefore, spelledBefore⟩ := respell_eat (by decide) quote
  obtain ⟨⟨key, afterKey⟩, readKey, read⟩ := bind_eq_ok.mp read
  obtain ⟨body, isBody, spelledBody⟩ := string_sound readKey
  dsimp only at read
  split at read
  · cases read
  rename_i afterColon colon
  obtain ⟨after, isAfter, spelledAfter⟩ := respell_eat (by decide) colon
  obtain ⟨⟨first, afterFirst⟩, readFirst, read⟩ := bind_eq_ok.mp read
  cases read
  obtain ⟨entry, isEntry, rfl, spelled⟩ := entry_sound reads shallow plain readFirst marked
  refine ⟨(⟨before, body, after, key⟩, entry), ⟨⟨isBefore, isBody, isAfter⟩, isEntry⟩, rfl, ?_⟩
  rw [spelledBefore, spelledBody, spelledAfter, spelled, Name.spelling]
  simp only [List.append_assoc, List.cons_append, List.nil_append]

end

namespace Container

variable {α σ ε : Type} (kind : Container α σ ε)

/-- An element and the mark after it are one of the grammar's. -/
def Reads (fuel : Nat) : Prop :=
  ∀ {depth : Nat} {text rest after : Text} {mark : Char} {read : α}, depth ≤ maxDepth →
    mark ≠ '\\' → kind.element fuel depth text = .ok (read, rest) →
    eat mark (skipWs rest) = some after →
    ∃ one, kind.Spelled (maxDepth - depth) one ∧ kind.meaning one = read ∧
      respell text = kind.spelling one ++ mark :: respell after

variable {kind}

theorem close_plain : kind.close ≠ '\\' := by
  rcases kind.marks.2 with close | close <;> rw [close] <;> decide

theorem loop_sound (reads : ∀ left < fuel, kind.Reads left) (shallow : depth ≤ maxDepth) {known : σ}
    (read : kind.loop fuel depth known text = .ok (node, rest)) :
    ∃ found, found ≠ [] ∧ (∀ one ∈ found, kind.Spelled (maxDepth - depth) one) ∧
      node = kind.finish ((found.map kind.meaning).foldl kind.push known) ∧
      respell text = commas (found.map kind.spelling) ++ kind.close :: respell rest := by
  induction fuel generalizing known text with
  | zero =>
    rw [kind.dry] at read
    cases read
  | succ fuel ih =>
    have first : kind.Reads fuel := reads fuel fuel.lt_succ_self
    rw [kind.round] at read
    obtain ⟨⟨value, afterFirst⟩, readFirst, read⟩ := bind_eq_ok.mp read
    dsimp only at read
    split at read
    · rename_i afterComma comma
      obtain ⟨one, isOne, rfl, spelled⟩ := first shallow (by decide) readFirst comma
      obtain ⟨found, some_one, all, rfl, spelledMore⟩ :=
        ih (fun left below => reads left (below.trans fuel.lt_succ_self)) read
      refine ⟨one :: found, List.cons_ne_nil _ _, List.forall_mem_cons.mpr ⟨isOne, all⟩, rfl, ?_⟩
      rw [spelled, spelledMore, List.map_cons, commas_cons (by simpa using some_one)]
      simp only [List.append_assoc, List.cons_append]
    · split at read
      · rename_i afterClose close
        cases read
        obtain ⟨one, isOne, rfl, spelled⟩ := first shallow close_plain readFirst close
        exact ⟨[one], List.cons_ne_nil _ _, List.forall_mem_singleton.mpr isOne, rfl, spelled⟩
      · cases read

theorem loop_skipWs (fuel depth : Nat) (known : σ) (text : Text) :
    kind.loop fuel depth known (skipWs text) = kind.loop fuel depth known text := by
  cases fuel with
  | zero => rw [kind.dry, kind.dry]
  | succ fuel => rw [kind.round, kind.round, kind.skips]

/-- A container is empty, or its loop runs. -/
theorem sound (reads : ∀ left < fuel, kind.Reads left)
    (read : value (fuel + 1) depth (kind.opening :: text) = .ok (node, rest)) :
    ∃ piece, Value (maxDepth - depth) piece node ∧
      respell (kind.opening :: text) = piece ++ respell rest := by
  rw [kind.opens, container] at read
  split at read
  · cases read
  rename_i shallow
  have level : maxDepth - depth = maxDepth - (depth + 1) + 1 := by omega
  rw [level, respell_cons kind.marks.1]
  split at read
  · rename_i afterClose closed
    cases read
    obtain ⟨blank, isBlank, spelled⟩ := respell_eat close_plain closed
    refine ⟨_, kind.empty isBlank, ?_⟩
    rw [spelled]
    simp only [List.append_assoc, List.cons_append, List.nil_append]
  · rw [loop_skipWs] at read
    obtain ⟨found, some_one, all, rfl, spelled⟩ := loop_sound reads (Nat.le_of_not_lt shallow) read
    refine ⟨_, kind.filled some_one all, ?_⟩
    rw [spelled]
    simp only [List.append_assoc, List.cons_append, List.nil_append]

end Container

theorem scalar_sound {piece : Text} {level : Nat} (isValue : Value level piece node)
    (plain : '\\' ∉ piece) (split : text = piece ++ rest) :
    ∃ piece, Value level piece node ∧ respell text = piece ++ respell rest :=
  ⟨piece, isValue, by rw [split, respell_append plain]⟩

/-- What the value reader reads is of the grammar. -/
theorem readsValue (fuel : Nat) : ReadsValue fuel := by
  induction fuel using Nat.strong_induction_on with
  | _ fuel ih =>
  intro depth text rest node shallow read
  rcases fuel with _ | fuel
  · cases read
  have reads {left : Nat} (below : left < fuel) : ReadsValue left :=
    ih left (below.trans fuel.lt_succ_self)
  rcases text with _ | ⟨c, tail⟩
  · cases read
  by_cases isBrace : c = '{'
  · subst isBrace
    exact objects.sound (fun left below _ _ _ _ _ _ => member_sound (reads below)) read
  by_cases isBracket : c = '['
  · subst isBracket
    exact arrays.sound (fun left below _ _ _ _ _ _ => entry_sound (reads below)) read
  rw [value, if_neg isBrace, if_neg isBracket] at read
  split at read
  · rename_i isQuote
    obtain ⟨⟨decoded, afterString⟩, readString, read⟩ := bind_eq_ok.mp read
    cases read
    obtain ⟨body, isBody, spelled⟩ := string_sound readString
    refine ⟨_, .string isBody, ?_⟩
    rw [isQuote, respell_cons (by decide), spelled]
    simp only [List.append_assoc, List.cons_append, List.nil_append]
  · split at read
    · obtain ⟨split, rfl⟩ := literal_sound read
      exact scalar_sound .true_ (by decide) split
    · split at read
      · obtain ⟨split, rfl⟩ := literal_sound read
        exact scalar_sound .false_ (by decide) split
      · split at read
        · obtain ⟨split, rfl⟩ := literal_sound read
          exact scalar_sound .null (by decide) split
        · split at read
          · obtain ⟨spelling, split, isNumber, rfl⟩ := number_sound read
            exact scalar_sound (.number isNumber) isNumber.plain split
          · cases read

theorem parse_sound (read : parse text = .ok node) : Spells (respell text) node := by
  obtain ⟨⟨parsed, rest⟩, readValue, read⟩ := bind_eq_ok.mp read
  dsimp only at read
  split at read
  · rename_i atEnd
    cases read
    obtain ⟨before, isBefore, spelledBefore⟩ := respell_skipWs text
    obtain ⟨piece, isValue, spelledPiece⟩ := readsValue _ (Nat.zero_le _) readValue
    obtain ⟨after, isAfter, spelledAfter⟩ := respell_skipWs rest
    refine ⟨before, piece, after, ?_, isBefore, isAfter, isValue⟩
    rw [spelledBefore, spelledPiece, spelledAfter, atEnd, respell_nil, List.append_nil,
      List.append_assoc]
  · cases read

end Values

section Complete

variable {text after : Text} {fuel depth level : Nat} {node : Node}

/-- The reader reads the piece, at every depth that leaves room for it. -/
def ReadBack (level : Nat) (piece : Text) (node : Node) : Prop :=
  ∀ {fuel depth : Nat} {text after : Text}, depth + level ≤ maxDepth → 2 * piece.length ≤ fuel →
    Follows after → respell text = piece ++ after →
    ∃ rest, respell rest = after ∧ value fuel depth text = .ok (node, rest)

/-- A value starts with a visible character that closes nothing. -/
def Starts (piece : Text) : Prop :=
  ∃ c tail, piece = c :: tail ∧ isWs c = false ∧ c ≠ '\\' ∧ c ≠ ']' ∧ c ≠ '}'

variable {c mark close : Char} {blank : Text}

theorem digit_starts (digit : isDigit c = true) (tail : Text) : Starts (c :: tail) := by
  refine ⟨c, tail, rfl, ?_, ne_of_digit digit rfl, ne_of_digit digit rfl, ne_of_digit digit rfl⟩
  rw [isWs, decide_eq_false_iff_not]
  rintro (rfl | rfl | rfl | rfl) <;> exact absurd digit (by decide)

/-- A number starts with a minus sign or a digit. -/
theorem Number.head {piece : Text} (isNumber : Number piece) :
    ∃ c tail, piece = c :: tail ∧ (c = '-' ∨ isDigit c = true) := by
  obtain ⟨sign, int, frac, exp, rfl, isSign, isInt, isFrac, isExp⟩ := isNumber
  rcases isSign with rfl | rfl
  · obtain ⟨c, tail, split, digit⟩ := intPart_head isInt (frac ++ exp)
    exact ⟨c, tail, by simpa using split, .inr digit⟩
  · exact ⟨'-', int ++ frac ++ exp, by simp, .inl rfl⟩

theorem Value.starts {piece : Text} (isValue : Value level piece node) : Starts piece := by
  cases isValue with
  | null => exact ⟨'n', _, rfl, by decide⟩
  | true_ => exact ⟨'t', _, rfl, by decide⟩
  | false_ => exact ⟨'f', _, rfl, by decide⟩
  | number isNumber =>
    obtain ⟨c, tail, rfl, rfl | digit⟩ := isNumber.head
    · exact ⟨'-', tail, rfl, by decide⟩
    · exact digit_starts digit tail
  | string => exact ⟨'"', _, rfl, by decide⟩
  | emptyArray | array => exact ⟨'[', _, rfl, by decide⟩
  | emptyObject | object => exact ⟨'{', _, rfl, by decide⟩

/-- Whitespace before a visible character comes off. -/
theorem skipWs_blank {tail : Text} (isBlank : Blank blank) (visible : isWs c = false)
    (plain : c ≠ '\\') (spelled : respell text = blank ++ c :: tail) :
    ∃ rest, skipWs text = c :: rest ∧ respell rest = tail := by
  obtain ⟨trimmed, rfl, spelledTrimmed⟩ := respell_eq_append isBlank.plain spelled
  obtain ⟨rest, rfl, spelledRest⟩ := respell_eq_cons plain spelledTrimmed
  exact ⟨rest, by rw [skipWs_append isBlank, skipWs_cons visible], spelledRest⟩

theorem follows_of_blank (isBlank : Blank blank) (notDigit : isDigit mark = false)
    (notDot : mark ≠ '.') (notE : mark ≠ 'e' ∧ mark ≠ 'E') (after : Text) :
    Follows (blank ++ mark :: after) := by
  intro c head
  cases blank with
  | nil =>
    cases head
    exact ⟨notDigit, notDot, notE⟩
  | cons d blank =>
    obtain rfl := Option.some.inj head
    have isWs := isBlank d List.mem_cons_self
    simp only [Json.isWs, decide_eq_true_eq] at isWs
    rcases isWs with rfl | rfl | rfl | rfl <;> decide

/-- The marks that may stand after an entry. -/
def Separates (mark : Char) : Prop := mark = ',' ∨ mark = ']' ∨ mark = '}'

theorem Separates.follows (separates : Separates mark) (isBlank : Blank blank) (after : Text) :
    Follows (blank ++ mark :: after) := by
  rcases separates with rfl | rfl | rfl
  · exact follows_of_blank isBlank (by decide) (by decide) (by decide) after
  · exact follows_of_blank isBlank (by decide) (by decide) (by decide) after
  · exact follows_of_blank isBlank (by decide) (by decide) (by decide) after

/-- An entry is read up to the mark after it. -/
theorem entry_complete {entry : Entry} (separates : Separates mark) (blanks : entry.Blanks)
    (starts : Starts entry.text) (readBack : ReadBack level entry.text entry.node)
    (room : depth + level ≤ maxDepth) (enough : 2 * entry.text.length ≤ fuel)
    (spelled : respell text = entry.spelling ++ mark :: after) :
    ∃ middle rest, value fuel depth (skipWs text) = .ok (entry.node, middle) ∧
      skipWs middle = mark :: rest ∧ respell rest = after := by
  obtain ⟨isBefore, isAfter⟩ := blanks
  obtain ⟨c, tail, split, visible, plain, _, _⟩ := starts
  rw [Entry.spelling, split] at spelled
  simp only [List.append_assoc, List.cons_append] at spelled
  obtain ⟨trimmed, trim, spelledTrimmed⟩ := skipWs_blank isBefore visible plain spelled
  have spelledPiece : respell (c :: trimmed) = entry.text ++ (entry.after ++ mark :: after) := by
    rw [respell_cons plain, spelledTrimmed, split]
    rfl
  obtain ⟨middle, spelledMiddle, read⟩ :=
    readBack room enough (separates.follows isAfter after) spelledPiece
  have seen : isWs mark = false ∧ mark ≠ '\\' := by
    rcases separates with rfl | rfl | rfl <;> decide
  obtain ⟨rest, found, spelledRest⟩ := skipWs_blank isAfter seen.1 seen.2 spelledMiddle
  exact ⟨middle, rest, by rw [trim, read], found, spelledRest⟩

theorem name_complete {name : Name} (spells : name.Spells)
    (spelled : respell text = name.spelling ++ after) : ∃ afterQuote afterKey afterColon,
      eat '"' (skipWs text) = some afterQuote ∧ string afterQuote = .ok (name.decoded, afterKey) ∧
        eat ':' (skipWs afterKey) = some afterColon ∧ respell afterColon = after := by
  obtain ⟨isBefore, isBody, isAfter⟩ := spells
  simp only [Name.spelling, List.append_assoc, List.cons_append, List.nil_append] at spelled
  obtain ⟨afterQuote, quote, spelledQuote⟩ := skipWs_blank isBefore (by decide) (by decide) spelled
  obtain ⟨afterKey, spelledKey, readKey⟩ := string_complete isBody spelledQuote
  obtain ⟨afterColon, colon, spelledColon⟩ :=
    skipWs_blank isAfter (by decide) (by decide) spelledKey
  exact ⟨afterQuote, afterKey, afterColon, by rw [quote, eat_cons], readKey, by
    rw [colon, eat_cons],
    spelledColon⟩

theorem commas_head {entry : Text} (entries : List Text) (tail : Text) :
    ∃ more, commas (entry :: entries) ++ tail = entry ++ more := by
  cases entries with
  | nil => exact ⟨tail, rfl⟩
  | cons second later => exact ⟨_, List.append_assoc _ _ _⟩

/-- A piece between two plain characters is read back if the reader reads it from there. -/
theorem readBack_closed {piece : Text} (plain : c ≠ '\\')
    (reads : ∀ {left depth : Nat} {tail after : Text}, depth + level ≤ maxDepth →
      2 * piece.length < left → respell tail = piece ++ close :: after →
      ∃ rest, respell rest = after ∧ value (left + 1) depth (c :: tail) = .ok (node, rest)) :
    ReadBack level (c :: piece ++ [close]) node := by
  intro fuel depth text after room enough _ spelled
  simp only [List.cons_append, List.append_assoc, List.nil_append, List.length_cons,
    List.length_append] at spelled enough
  obtain ⟨left, rfl⟩ : ∃ left, fuel = left + 1 := ⟨fuel - 1, by omega⟩
  obtain ⟨tail, rfl, spelledTail⟩ := respell_eq_cons plain spelled
  exact reads room (by omega) spelledTail

namespace Container

variable {α σ ε : Type} (kind : Container α σ ε)

/-- An element is read up to the mark after it, and starts with no closing mark. -/
structure ReadsBack (level : Nat) (one : ε) : Prop where
  starts : ∃ blank piece, kind.spelling one = blank ++ piece ∧ Blank blank ∧ Starts piece
  reads : ∀ {fuel depth : Nat} {text after : Text} {mark : Char}, depth + level ≤ maxDepth →
    Separates mark → 2 * (kind.spelling one).length ≤ fuel →
    respell text = kind.spelling one ++ mark :: after →
    ∃ middle rest, kind.element fuel depth text = .ok (kind.meaning one, middle) ∧
      skipWs middle = mark :: rest ∧ respell rest = after

variable {kind} {found : List ε}

section

variable (some_one : found ≠ []) (all : ∀ one ∈ found, kind.ReadsBack level one)
include some_one all

theorem loop_complete (room : depth + level ≤ maxDepth) {fuel : Nat} (known : σ) {text : Text}
    (enough : 2 * (commas (found.map kind.spelling)).length < fuel)
    (spelled : respell text = commas (found.map kind.spelling) ++ kind.close :: after) :
    ∃ rest, respell rest = after ∧ kind.loop fuel depth known text =
      .ok (kind.finish ((found.map kind.meaning).foldl kind.push known), rest) := by
  induction found generalizing fuel known text with
  | nil => exact absurd rfl some_one
  | cons one found ih =>
    obtain ⟨left, rfl⟩ : ∃ left, fuel = left + 1 := ⟨fuel - 1, by omega⟩
    obtain ⟨first, all⟩ := List.forall_mem_cons.mp all
    by_cases last : found = []
    · subst last
      have bound : 2 * (kind.spelling one).length ≤ left := Nat.le_of_lt_succ enough
      have notComma : kind.close ≠ ',' := by
        rcases kind.marks.2 with close | close <;> rw [close] <;> decide
      obtain ⟨middle, rest, read, close, spelledRest⟩ :=
        first.reads room (.inr kind.marks.2) bound spelled
      refine ⟨rest, spelledRest, ?_⟩
      rw [kind.round, bind_of_ok read]
      dsimp only
      rw [close, eat_of_ne notComma, eat_cons]
      rfl
    · rw [List.map_cons, commas_cons (by simpa using last)] at enough spelled
      rw [List.length_append, List.length_cons] at enough
      rw [List.append_assoc] at spelled
      have bound : 2 * (kind.spelling one).length ≤ left := by omega
      obtain ⟨middle, rest, read, comma, spelledRest⟩ := first.reads room (.inl rfl) bound spelled
      have shorter : 2 * (commas (found.map kind.spelling)).length < left := by omega
      obtain ⟨final, spelledFinal, readMore⟩ :=
        ih last all (kind.push known (kind.meaning one)) shorter spelledRest
      refine ⟨final, spelledFinal, ?_⟩
      rw [kind.round, bind_of_ok read]
      dsimp only
      rw [comma, eat_cons]
      exact readMore

/-- What the first element starts with is not the closing mark. -/
theorem head_ne {tail : Text} (spelled : respell text = commas (found.map kind.spelling) ++ tail) :
    eat kind.close (skipWs text) = none := by
  cases found with
  | nil => exact absurd rfl some_one
  | cons one found =>
    obtain ⟨more, split⟩ := commas_head (found.map kind.spelling) tail
    obtain ⟨blank, _, same, isBlank, c, inner, rfl, visible, plain, notBracket, notBrace⟩ :=
      (all one List.mem_cons_self).starts
    rw [List.map_cons, split, same, List.append_assoc] at spelled
    obtain ⟨rest, trimmed, _⟩ := skipWs_blank isBlank visible plain spelled
    rw [trimmed]
    apply eat_of_ne
    rcases kind.marks.2 with close | close <;> rwa [close]

theorem readBack :
    ReadBack (level + 1) (kind.opening :: commas (found.map kind.spelling) ++ [kind.close])
      (kind.finish ((found.map kind.meaning).foldl kind.push kind.start)) := by
  apply readBack_closed kind.marks.1
  intro left depth tail after room enough spelledTail
  have inside : depth + 1 + level ≤ maxDepth := by omega
  obtain ⟨rest, spelledRest, read⟩ :=
    loop_complete some_one all inside kind.start (by omega) spelledTail
  refine ⟨rest, spelledRest, ?_⟩
  rw [kind.opens, container, if_neg (by omega), head_ne some_one all spelledTail, loop_skipWs, read]

end

theorem readBack_empty (isBlank : Blank blank) :
    ReadBack (level + 1) (kind.opening :: blank ++ [kind.close]) (kind.finish kind.start) := by
  apply readBack_closed kind.marks.1
  intro left depth tail after room enough spelledTail
  have visible : isWs kind.close = false := by
    rcases kind.marks.2 with close | close <;> rw [close] <;> decide
  obtain ⟨rest, trimmed, spelledRest⟩ := skipWs_blank isBlank visible close_plain spelledTail
  refine ⟨rest, spelledRest, ?_⟩
  rw [kind.opens, container, if_neg (by omega), trimmed, eat_cons]

end Container

theorem entry_readsBack {entry : Entry} (spelled : entry.Spelled level)
    (readBack : ReadBack level entry.text entry.node) : arrays.ReadsBack level entry where
  starts := ⟨entry.before, _, List.append_assoc _ _ _, spelled.1.1, by
    obtain ⟨c, tail, split, starts⟩ := spelled.2.starts
    exact ⟨c, tail ++ entry.after, by rw [split]; rfl, starts⟩⟩
  reads room separates enough spelledEntry := by
    have longer : entry.text.length ≤ entry.spelling.length := by
      simp only [Entry.spelling, List.length_append]
      omega
    exact entry_complete separates spelled.1 spelled.2.starts readBack room
      ((Nat.mul_le_mul_left 2 longer).trans enough) spelledEntry

theorem member_readsBack {member : Name × Entry} (spells : member.1.Spells)
    (entry : arrays.ReadsBack level member.2) : objects.ReadsBack level member where
  starts := ⟨member.1.before, _, by
    change member.1.spelling ++ member.2.spelling = _
    simp only [Name.spelling, List.append_assoc, List.cons_append]
    rfl, spells.1, '"', _, rfl, by decide⟩
  reads {fuel _ _ _ _} room separates enough spelled := by
    have shorter : 2 * member.2.spelling.length ≤ fuel := by
      have whole : 2 * (member.1.spelling ++ member.2.spelling).length ≤ fuel := enough
      rw [List.length_append] at whole
      omega
    obtain ⟨afterQuote, afterKey, afterColon, quote, readKey, colon, spelledColon⟩ :=
      name_complete spells (spelled.trans (List.append_assoc _ _ _))
    obtain ⟨middle, rest, read, close, spelledRest⟩ :=
      entry.reads room separates shorter spelledColon
    refine ⟨middle, rest, ?_, close, spelledRest⟩
    change readMember _ _ _ = _
    rw [readMember, quote]
    dsimp only
    rw [bind_of_ok readKey]
    dsimp only
    rw [colon]
    exact bind_eq_ok.mpr ⟨_, read, rfl⟩

theorem literal_complete {word : Text} (plain : '\\' ∉ word)
    (spelled : respell text = word ++ after) : ∃ rest, respell rest = after ∧ text = word ++ rest ∧
      literal word node text = .ok (node, rest) := by
  obtain ⟨rest, rfl, spelledRest⟩ := respell_eq_append plain spelled
  refine ⟨rest, spelledRest, rfl, ?_⟩
  rw [literal, if_pos (List.isPrefixOf_iff_prefix.mpr (List.prefix_append word rest)),
    List.drop_left]

theorem readBack_literal {word : Text} (plain : '\\' ∉ c :: word) (reads : ∀ left depth tail,
      value (left + 1) depth (c :: tail) = literal (c :: word) node (c :: tail)) :
    ReadBack level (c :: word) node := by
  intro fuel depth text after _ enough _ spelled
  rw [List.length_cons] at enough
  obtain ⟨left, rfl⟩ : ∃ left, fuel = left + 1 := ⟨fuel - 1, by omega⟩
  obtain ⟨rest, spelledRest, rfl, read⟩ := literal_complete plain spelled
  exact ⟨rest, spelledRest, (reads left depth _).trans read⟩

theorem readBack_number {piece : Text} (isNumber : Number piece) :
    ReadBack level piece (.num piece) := by
  intro fuel depth text after room enough follows spelled
  obtain ⟨rest, rfl, rfl⟩ := respell_eq_append isNumber.plain spelled
  refine ⟨rest, rfl, ?_⟩
  have follows : Follows rest := by
    rw [Follows, ← head_respell]
    exact follows
  have read := number_complete isNumber follows
  obtain ⟨c, tail, rfl, first⟩ := isNumber.head
  obtain ⟨left, rfl⟩ : ∃ left, fuel = left + 1 := ⟨fuel - 1, by
    rw [List.length_cons] at enough
    omega⟩
  have differs {d : Char} (other : isDigit d = false ∧ d ≠ '-') : c ≠ d := by
    rcases first with rfl | digit
    · exact other.2.symm
    · exact ne_of_digit digit other.1
  rw [List.cons_append, value, if_neg (differs (by decide)), if_neg (differs (by decide)),
    if_neg (differs (by decide)), if_neg (differs (by decide)), if_neg (differs (by decide)),
    if_neg (differs (by decide)), if_pos first]
  exact read

theorem readBack_string {body decoded : Text} (isBody : Body body decoded) :
    ReadBack level ('"' :: body ++ ['"']) (.str decoded) := by
  apply readBack_closed (by decide)
  intro left depth tail after room enough spelledTail
  obtain ⟨rest, spelledRest, read⟩ := string_complete isBody spelledTail
  refine ⟨rest, spelledRest, ?_⟩
  rw [value, if_neg (by decide), if_neg (by decide), if_pos rfl]
  exact bind_eq_ok.mpr ⟨(decoded, rest), read, rfl⟩

/-- The reader reads every value of the grammar back, up to plus signs in escapes. -/
theorem Value.readBack {piece : Text} (isValue : Value level piece node) :
    ReadBack level piece node := by
  induction isValue with
  | null =>
    refine readBack_literal (by decide) fun _ _ _ => ?_
    rw [value, if_neg (by decide), if_neg (by decide), if_neg (by decide), if_neg (by decide),
      if_neg (by decide), if_pos rfl]
  | true_ =>
    refine readBack_literal (by decide) fun _ _ _ => ?_
    rw [value, if_neg (by decide), if_neg (by decide), if_neg (by decide), if_pos rfl]
  | false_ =>
    refine readBack_literal (by decide) fun _ _ _ => ?_
    rw [value, if_neg (by decide), if_neg (by decide), if_neg (by decide), if_neg (by decide),
      if_pos rfl]
  | number isNumber => exact readBack_number isNumber
  | string isBody => exact readBack_string isBody
  | emptyArray isBlank => exact arrays.readBack_empty isBlank
  | @array _ entries some_one blanks values ih =>
    rw [← foldl_push (entries.map Entry.node)]
    exact arrays.readBack some_one fun entry among =>
      entry_readsBack ⟨blanks entry among, values entry among⟩ (ih entry among)
  | emptyObject isBlank => exact objects.readBack_empty isBlank
  | object some_one names blanks values ih =>
    exact objects.readBack some_one fun member among => member_readsBack (names member among)
      (entry_readsBack ⟨blanks member among, values member among⟩ (ih member among))

theorem Blank.follows (isBlank : Blank blank) : Follows blank := by
  intro c head
  have isWs := isBlank c (List.mem_of_mem_head? head)
  simp only [Json.isWs, decide_eq_true_eq] at isWs
  rcases isWs with rfl | rfl | rfl | rfl <;> decide

theorem parse_complete (spells : Spells (respell text) node) : parse text = .ok node := by
  obtain ⟨before, inner, after, spelled, isBefore, isAfter, isValue⟩ := spells
  obtain ⟨c, tail, split, visible, plain, _⟩ := isValue.starts
  have length : inner.length ≤ text.length := by
    rw [← length_respell text, spelled, List.length_append, List.length_append]
    omega
  rw [split, List.append_assoc, List.cons_append] at spelled
  obtain ⟨trimmed, trim, spelledTrimmed⟩ := skipWs_blank isBefore visible plain spelled
  have spelledInner : respell (skipWs text) = inner ++ after := by
    rw [trim, respell_cons plain, spelledTrimmed, split]
    rfl
  have enough : 2 * inner.length ≤ 2 * text.length + 1 := by omega
  obtain ⟨rest, spelledRest, read⟩ :=
    isValue.readBack (Nat.le_of_eq (Nat.zero_add maxDepth)) enough isAfter.follows spelledInner
  have atEnd : skipWs rest = [] := by
    obtain ⟨final, rfl, spelledFinal⟩ :=
      respell_eq_append isAfter.plain (spelledRest.trans (List.append_nil after).symm)
    have empty : final = [] := by
      rw [← List.length_eq_zero_iff, ← length_respell, spelledFinal]
      rfl
    rw [skipWs_append isAfter, empty]
    rfl
  refine bind_eq_ok.mpr ⟨(node, rest), read, ?_⟩
  dsimp only
  rw [if_pos atEnd]
  rfl

/-- The reader and the grammar agree on the value, up to plus signs in escapes. -/
theorem parse_iff : parse text = .ok node ↔ Spells (respell text) node :=
  ⟨parse_sound, parse_complete⟩

end Complete

/-! ## Texts of the grammar -/

section Kept

variable {piece : Text} {level : Nat} {node : Node}

/-- No plus sign of the piece follows `\u`, whatever comes after the piece. -/
def Kept (piece : Text) : Prop := ∀ tail, respell (piece ++ tail) = piece ++ respell tail

theorem kept_of_plain (plain : '\\' ∉ piece) : Kept piece := respell_append plain

theorem kept_nil : Kept [] := fun _ => rfl

theorem Kept.append {first second : Text} (one : Kept first) (two : Kept second) :
    Kept (first ++ second) := by
  intro tail
  rw [List.append_assoc, one, two, List.append_assoc]

theorem Kept.cons {c : Char} (plain : c ≠ '\\') (kept : Kept piece) : Kept (c :: piece) := by
  intro tail
  rw [List.cons_append, respell_cons plain, kept]
  rfl

theorem Blank.kept (isBlank : Blank piece) : Kept piece := kept_of_plain isBlank.plain

theorem Quad.kept {digits : Text} {value : Nat} (quad : Quad digits value) :
    Kept ('\\' :: 'u' :: digits) := by
  intro tail
  cases quad with
  | digits first second third fourth =>
    have plain := (Quad.digits first second third fourth).plain
    have spelled := respell_append plain tail
    change respell ('\\' :: 'u' :: _ :: _) = _
    rw [respell_unicode (toDigit_plain first).2]
    exact congrArg (fun tail => '\\' :: 'u' :: tail) spelled

theorem Piece.kept {c : Char} (isPiece : Piece piece c) : Kept piece := by
  cases isPiece with
  | plain _ _ unescaped => exact kept_nil.cons unescaped
  | short found => exact fun tail => respell_escape (shortEscape_ne found) tail
  | unicode quad _ _ => exact quad.kept
  | pair quad quad' _ _ => exact quad.kept.append quad'.kept

theorem Body.kept {decoded : Text} (isBody : Body piece decoded) : Kept piece := by
  induction isBody with
  | nil => exact kept_nil
  | cons isPiece _ ih => exact isPiece.kept.append ih

theorem Kept.commas {pieces : List Text} (kept : ∀ piece ∈ pieces, Kept piece) :
    Kept (commas pieces) := by
  induction pieces with
  | nil => exact kept_nil
  | cons piece pieces ih =>
    obtain ⟨first, later⟩ := List.forall_mem_cons.mp kept
    by_cases last : pieces = []
    · rw [last]
      exact first
    · rw [commas_cons last]
      exact first.append ((ih later).cons (by decide))

theorem Entry.kept {entry : Entry} (blanks : entry.Blanks) (kept : Kept entry.text) :
    Kept entry.spelling :=
  (blanks.1.kept.append kept).append blanks.2.kept

theorem Name.kept {name : Name} (spells : name.Spells) : Kept name.spelling := by
  obtain ⟨isBefore, isBody, isAfter⟩ := spells
  have colon : Kept [':'] := kept_nil.cons (by decide)
  have afterBody := (isAfter.kept.append colon).cons (show '"' ≠ '\\' by decide)
  have quoted := (isBody.kept.append afterBody).cons (show '"' ≠ '\\' by decide)
  have whole := isBefore.kept.append quoted
  simpa only [Name.spelling, List.append_assoc, List.cons_append] using whole

theorem Value.kept (isValue : Value level piece node) : Kept piece := by
  induction isValue with
  | null | true_ | false_ => exact kept_of_plain (by decide)
  | number isNumber => exact kept_of_plain isNumber.plain
  | string isBody =>
    have close : Kept ['"'] := kept_nil.cons (by decide)
    exact (isBody.kept.append close).cons (by decide)
  | emptyArray isBlank =>
    have close : Kept [']'] := kept_nil.cons (by decide)
    exact (isBlank.kept.append close).cons (by decide)
  | @array _ entries _ blanks _ ih =>
    have close : Kept [']'] := kept_nil.cons (by decide)
    have inner : Kept (commas (entries.map Entry.spelling)) := by
      refine .commas fun piece member => ?_
      obtain ⟨entry, isEntry, rfl⟩ := List.mem_map.mp member
      exact Entry.kept (blanks entry isEntry) (ih entry isEntry)
    exact (inner.append close).cons (by decide)
  | emptyObject isBlank =>
    have close : Kept ['}'] := kept_nil.cons (by decide)
    exact (isBlank.kept.append close).cons (by decide)
  | @object _ found _ names blanks _ ih =>
    have close : Kept ['}'] := kept_nil.cons (by decide)
    have inner : Kept (commas (found.map fun member =>
        member.1.spelling ++ member.2.spelling)) := by
      refine .commas fun piece isPiece => ?_
      obtain ⟨member, isMember, rfl⟩ := List.mem_map.mp isPiece
      exact (Name.kept (names member isMember)).append
        (Entry.kept (blanks member isMember) (ih member isMember))
    exact (inner.append close).cons (by decide)

/-- No plus sign follows `\u` in a text of the grammar. -/
theorem Spells.respell {text : Text} (spells : Spells text node) : respell text = text := by
  obtain ⟨before, inner, after, rfl, isBefore, isAfter, isValue⟩ := spells
  have kept := ((isBefore.kept.append isValue.kept).append isAfter.kept) []
  simpa using kept

end Kept

/-! ## Validity -/

/-- A text of the grammar is read as the value it names. -/
theorem parse_of_spells {text : Text} {node : Node} (spells : Spells text node) :
    parse text = .ok node := by
  apply parse_complete
  rw [spells.respell]
  exact spells

theorem valid_iff_parse {text : Text} : valid text = true ↔ ∃ node, parse text = .ok node := by
  rw [valid]
  cases parse text with
  | error e => exact ⟨nofun, fun ⟨_, isOk⟩ => nomatch isOk⟩
  | ok node => exact ⟨fun _ => ⟨node, rfl⟩, fun _ => rfl⟩

/-- What the reader accepts: the texts that are JSON with a zero for each plus sign after `\u`. -/
theorem valid_iff_respell {text : Text} : valid text = true ↔ Rfc (respell text) := by
  rw [valid_iff_parse]
  exact exists_congr fun node => parse_iff

/-- The reader agrees with the grammar on a text exactly when no `\u` of it is followed by a plus
sign, or the text is not JSON with zeros in their place either. -/
theorem valid_iff_rfc (text : Text) :
    (valid text = true ↔ Rfc text) ↔ (respell text = text ∨ ¬ Rfc (respell text)) := by
  rw [valid_iff_respell]
  constructor
  · intro agree
    by_cases isRfc : Rfc (respell text)
    · obtain ⟨node, spells⟩ := agree.mp isRfc
      exact .inl spells.respell
    · exact .inr isRfc
  · rintro (same | notRfc)
    · rw [same]
    · refine ⟨fun isRfc => absurd isRfc notRfc, fun ⟨node, spells⟩ => ?_⟩
      rw [spells.respell]
      exact ⟨node, spells⟩

/-- `"\u+041"` is accepted and is no JSON. -/
theorem valid_plus : valid ['"', '\\', 'u', '+', '0', '4', '1', '"'] = true ∧
      ¬ Rfc ['"', '\\', 'u', '+', '0', '4', '1', '"'] := by
  refine ⟨by decide, fun ⟨node, spells⟩ => ?_⟩
  exact absurd spells.respell (by decide)

end WolfInterp.Json

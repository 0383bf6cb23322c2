import KerberosHttp.Proofs.Json.Value
import Mathlib.Data.List.TakeWhile
import Mathlib.Tactic.IntervalCases

/-!
# JSON texts

Which characters write a value: each of its tokens in turn, with white space before any of them
and at the end.

## Strategy

A string ends with its quote and a word with its last letter, but a number goes on as long as it
can.  So what is read of the characters of a token may depend on what follows them, and only for a
number something has to be known of that (`Stops`, `Token.EndsBefore`).  Under this condition the
token is read back with the rest left over (`Token.read?_append`), and then a text token by token
(`readUpTo_of_writes`).

## Main statement

* `Value.Writes.read_eq`: a text that writes a value says the events of the value.
-/

namespace KerberosHttp.Json

/-! ## Strings -/

/-- The characters between the quotes of a string. -/
inductive UnitsWritten : List StringUnit → List Char → Prop
  | nil : UnitsWritten [] []
  | char {c : Char} {units : List StringUnit} {chars : List Char} (hquote : c ≠ '"')
      (hslash : c ≠ '\\') (hcontrol : ' ' ≤ c) (hrest : UnitsWritten units chars) :
      UnitsWritten (.char c :: units) (c :: chars)
  | short {letter c : Char} {units : List StringUnit} {chars : List Char}
      (hletter : shortEscape? letter = some c) (hrest : UnitsWritten units chars) :
      UnitsWritten (.char c :: units) ('\\' :: letter :: chars)
  | escaped {a b c d : Char} {unit : Nat} {units : List StringUnit} {chars : List Char}
      (hunit : codeUnit? a b c d = some unit) (hrest : UnitsWritten units chars) :
      UnitsWritten (.escaped unit :: units) ('\\' :: 'u' :: a :: b :: c :: d :: chars)

/-- The units of a text that is written as it is. -/
def StringUnit.plain (text : String) : List StringUnit := text.toList.map .char

theorem StringUnit.text?_plain (text : String) : text? (plain text) = some text := by
  have hchars : ∀ chars : List Char, chars? (chars.map .char) = some chars := by
    intro chars
    induction chars with
    | nil => rfl
    | cons c rest ih => rw [List.map_cons, chars?, ih, Option.map_some]
  rw [text?, plain, hchars, Option.map_some, String.ofList_toList]

/-- Whether a character stands for itself between quotes. -/
def isPlain (c : Char) : Bool := c != '"' && c != '\\' && ' ' ≤ c

theorem unitsWritten_plain {text : String} (hplain : text.toList.all isPlain = true) :
    UnitsWritten (StringUnit.plain text) text.toList := by
  unfold StringUnit.plain
  generalize text.toList = chars at hplain ⊢
  induction chars with
  | nil => exact .nil
  | cons c rest ih =>
      rw [List.all_cons, Bool.and_eq_true] at hplain
      obtain ⟨hc, hrest⟩ := hplain
      simp only [isPlain, Bool.and_eq_true, bne_iff_ne, decide_eq_true_eq] at hc
      exact .char hc.1.1 hc.1.2 hc.2 (ih hrest)

theorem stringBody_append {units : List StringUnit} {chars : List Char}
    (hwritten : UnitsWritten units chars) (rest : List Char) :
    stringBody (chars ++ '"' :: rest) = some (units, rest) := by
  induction hwritten with
  | nil => rfl
  | @char c units chars hquote hslash hcontrol _ ih =>
      rw [List.cons_append, stringBody, if_neg (by simpa [hslash] using hcontrol), ih]
      · rfl
      · exact hquote
      · rintro a b c d rest rfl
        exact absurd rfl hslash
      · rintro a rest rfl
        exact absurd rfl hslash
  | @short letter c units chars hletter _ ih =>
      have hletter' : letter ≠ 'u' := by
        rintro rfl
        cases hletter
      rw [List.cons_append, List.cons_append, stringBody, hletter, ih]
      · rfl
      · intro a b c d rest hu
        exact absurd hu hletter'
  | @escaped a b c d unit units chars hunit _ ih =>
      simp only [List.cons_append, stringBody, hunit, ih]
      rfl

/-! ## Numbers -/

/-- What cannot go on with a number. -/
def Stops (rest : List Char) : Prop :=
  ∀ c ∈ rest.head?, c.isDigit = false ∧ c ≠ '.' ∧ c ≠ 'e' ∧ c ≠ 'E'

/-- Digits of a number, at least one. -/
structure IsDigits (found : List Nat) : Prop where
  some : found ≠ []
  small : ∀ digit ∈ found, digit < 10

def digitChars (found : List Nat) : List Char := found.map Nat.digitChar

theorem isDigit_digitChar {digit : Nat} (hdigit : digit < 10) :
    (Nat.digitChar digit).isDigit = true := by
  interval_cases digit <;> rfl

theorem toNat_digitChar {digit : Nat} (hdigit : digit < 10) :
    (Nat.digitChar digit).toNat - '0'.toNat = digit := by
  interval_cases digit <;> rfl

/-- The digits at the front of a text are all that stand there. -/
theorem digits_append {found : List Nat} (hfound : IsDigits found) {rest : List Char}
    (hends : ∀ c ∈ rest.head?, c.isDigit = false) :
    digits (digitChars found ++ rest) = (found, rest) := by
  have hall : ∀ c ∈ digitChars found, c.isDigit = true := by
    intro c hc
    obtain ⟨digit, hdigit, rfl⟩ := List.mem_map.mp hc
    exact isDigit_digitChar (hfound.small digit hdigit)
  have htake : rest.takeWhile Char.isDigit = [] ∧ rest.dropWhile Char.isDigit = rest := by
    cases rest with
    | nil => exact ⟨rfl, rfl⟩
    | cons c rest => simp [hends c rfl]
  have hvalues : (digitChars found).map (fun c => c.toNat - '0'.toNat) = found := by
    rw [digitChars, List.map_map]
    conv_rhs => rw [← List.map_id found]
    exact List.map_congr_left fun digit hdigit => toNat_digitChar (hfound.small digit hdigit)
  rw [digits, List.takeWhile_append_of_pos hall, List.dropWhile_append_of_pos hall, htake.1,
    htake.2, List.append_nil, hvalues]

/-- A point and the digits after it, or nothing. -/
inductive FractionWritten : Option (List Nat) → List Char → Prop
  | absent : FractionWritten none []
  | present {found : List Nat} (hfound : IsDigits found) :
      FractionWritten (some found) ('.' :: digitChars found)

/-- An exponent with a sign or without one, or nothing. -/
inductive ExponentWritten : Option (Bool × List Nat) → List Char → Prop
  | absent : ExponentWritten none []
  | plain {e : Char} {found : List Nat} (he : e = 'e' ∨ e = 'E') (hfound : IsDigits found) :
      ExponentWritten (some (false, found)) (e :: digitChars found)
  | plus {e : Char} {found : List Nat} (he : e = 'e' ∨ e = 'E') (hfound : IsDigits found) :
      ExponentWritten (some (false, found)) (e :: '+' :: digitChars found)
  | minus {e : Char} {found : List Nat} (he : e = 'e' ∨ e = 'E') (hfound : IsDigits found) :
      ExponentWritten (some (true, found)) (e :: '-' :: digitChars found)

/-- A number by its parts. -/
def NumberText.ofParts (negative : Bool) (whole : List Nat) (fraction : Option (List Nat))
    (exponent : Option (Bool × List Nat)) : NumberText :=
  { negative, whole, fraction := fraction.getD [],
    isReal := fraction.isSome || exponent.isSome,
    exponentNegative := (exponent.map (·.1)).getD false,
    exponent := (exponent.map (·.2)).getD [] }

/-- A number without its sign.  A zero leads no other digits. -/
inductive NumberWritten (negative : Bool) : NumberText → List Char → Prop
  | parts {whole : List Nat} {fraction : Option (List Nat)} {exponent : Option (Bool × List Nat)}
      {fractionChars exponentChars : List Char} (hwhole : IsDigits whole)
      (hzero : whole.head? = some 0 → whole = [0])
      (hfraction : FractionWritten fraction fractionChars)
      (hexponent : ExponentWritten exponent exponentChars) :
      NumberWritten negative (.ofParts negative whole fraction exponent)
        (digitChars whole ++ (fractionChars ++ exponentChars))

/-- No sign is read where a digit stands. -/
theorem exponentPart_cons {e : Char} (he : e = 'e' ∨ e = 'E') {found : List Nat}
    (hfound : IsDigits found) {rest : List Char} (hends : ∀ c ∈ rest.head?, c.isDigit = false) :
    exponentPart (e :: (digitChars found ++ rest)) = some (some (false, found), rest) ∧
    exponentPart (e :: '+' :: (digitChars found ++ rest)) = some (some (false, found), rest) ∧
    exponentPart (e :: '-' :: (digitChars found ++ rest)) = some (some (true, found), rest) := by
  have hread := digits_append hfound hends
  obtain ⟨first, others, rfl⟩ := List.exists_cons_of_ne_nil hfound.some
  have hfirst := isDigit_digitChar (hfound.small first List.mem_cons_self)
  refine ⟨?_, ?_, ?_⟩
  · have hplus : Nat.digitChar first ≠ '+' := fun h => by simp [h] at hfirst
    have hminus : Nat.digitChar first ≠ '-' := fun h => by simp [h] at hfirst
    simp only [digitChars, List.map_cons, List.cons_append] at hread ⊢
    simp only [exponentPart, if_pos he]
    split <;> simp_all
  · simp only [exponentPart, if_pos he, hread]
  · simp only [exponentPart, if_pos he, hread]

theorem exponentPart_append {exponent : Option (Bool × List Nat)} {chars rest : List Char}
    (hwritten : ExponentWritten exponent chars) (hstops : Stops rest) :
    exponentPart (chars ++ rest) = some (exponent, rest) := by
  have hends : ∀ c ∈ rest.head?, c.isDigit = false := fun c hc => (hstops c hc).1
  cases hwritten with
  | absent =>
      cases rest with
      | nil => rfl
      | cons c rest =>
          obtain ⟨-, -, hlower, hupper⟩ := hstops c rfl
          rw [List.nil_append]
          unfold exponentPart
          exact if_neg (not_or.mpr ⟨hlower, hupper⟩)
  | plain he hfound => exact (exponentPart_cons he hfound hends).1
  | plus he hfound => exact (exponentPart_cons he hfound hends).2.1
  | minus he hfound => exact (exponentPart_cons he hfound hends).2.2

theorem fractionPart_append {fraction : Option (List Nat)} {chars rest : List Char}
    (hwritten : FractionWritten fraction chars)
    (hends : ∀ c ∈ rest.head?, c.isDigit = false ∧ c ≠ '.') :
    fractionPart (chars ++ rest) = some (fraction, rest) := by
  cases hwritten with
  | absent =>
      cases rest with
      | nil => rfl
      | cons c rest =>
          obtain ⟨-, hpoint⟩ := hends c rfl
          rw [List.nil_append, fractionPart]
          simpa using hpoint
  | @present found hfound =>
      have hread := digits_append hfound fun c hc => (hends c hc).1
      obtain ⟨first, others, rfl⟩ := List.exists_cons_of_ne_nil hfound.some
      rw [List.cons_append, fractionPart, hread]

/-- What follows the fraction does not go on with it. -/
theorem ExponentWritten.head_append {exponent : Option (Bool × List Nat)}
    {chars rest : List Char} (hwritten : ExponentWritten exponent chars) (hstops : Stops rest) :
    ∀ c ∈ (chars ++ rest).head?, c.isDigit = false ∧ c ≠ '.' := by
  have hmark : ∀ {e : Char} (tail : List Char), e = 'e' ∨ e = 'E' →
      ∀ c ∈ (e :: tail).head?, c.isDigit = false ∧ c ≠ '.' := by
    rintro e tail (rfl | rfl) c hc
    · cases hc
      decide
    · cases hc
      decide
  cases hwritten with
  | absent => exact fun c hc => ⟨(hstops c hc).1, (hstops c hc).2.1⟩
  | plain he hfound => exact hmark _ he
  | plus he hfound => exact hmark _ he
  | minus he hfound => exact hmark _ he

theorem FractionWritten.head_append {fraction : Option (List Nat)} {chars rest : List Char}
    (hwritten : FractionWritten fraction chars)
    (hends : ∀ c ∈ rest.head?, c.isDigit = false ∧ c ≠ '.') :
    ∀ c ∈ (chars ++ rest).head?, c.isDigit = false := by
  cases hwritten with
  | absent => exact fun c hc => (hends c hc).1
  | present hfound =>
      intro c hc
      cases hc
      rfl

theorem numberBody_append {negative : Bool} {text : NumberText} {chars rest : List Char}
    (hwritten : NumberWritten negative text chars) (hstops : Stops rest) :
    numberBody negative (chars ++ rest) = some (text, rest) := by
  obtain ⟨hwhole, hzero, hfraction, hexponent⟩ := hwritten
  rename_i whole fraction exponent fractionChars exponentChars
  have hends := hexponent.head_append hstops
  have hdigits := digits_append hwhole (hfraction.head_append hends)
  have hread := fractionPart_append hfraction hends
  rw [List.append_assoc, List.append_assoc, numberBody, hdigits]
  match whole, hwhole, hzero with
  | [], hwhole, _ => exact absurd rfl hwhole.some
  | 0 :: _ :: _, _, hzero => cases hzero rfl
  | [0], _, _ =>
      simp only [hread, Option.bind_eq_bind, Option.bind_some,
        exponentPart_append hexponent hstops]
      rfl
  | (_ + 1) :: _, _, _ =>
      simp only [hread, Option.bind_eq_bind, Option.bind_some,
        exponentPart_append hexponent hstops]
      rfl

/-- A number begins with a digit. -/
theorem NumberWritten.exists_cons {negative : Bool} {text : NumberText} {chars : List Char}
    (hwritten : NumberWritten negative text chars) :
    ∃ digit rest, digit < 10 ∧ chars = Nat.digitChar digit :: rest := by
  obtain ⟨hwhole, -, -, -⟩ := hwritten
  obtain ⟨first, others, rfl⟩ := List.exists_cons_of_ne_nil hwhole.some
  exact ⟨first, _, hwhole.small first List.mem_cons_self, rfl⟩

/-! ## Tokens -/

/-- The characters of a token. -/
inductive Token.Written : Token → List Char → Prop
  | openBrace : Written .openBrace ['\x7b']
  | closeBrace : Written .closeBrace ['\x7d']
  | openBracket : Written .openBracket ['[']
  | closeBracket : Written .closeBracket [']']
  | colon : Written .colon [':']
  | comma : Written .comma [',']
  | string {units : List StringUnit} {chars : List Char} (hunits : UnitsWritten units chars) :
      Written (.string units) ('"' :: (chars ++ ['"']))
  | number {text : NumberText} {chars : List Char} (hnumber : NumberWritten false text chars) :
      Written (.number text) chars
  | negated {text : NumberText} {chars : List Char} (hnumber : NumberWritten true text chars) :
      Written (.number text) ('-' :: chars)
  | trueWord : Written (.boolean true) ['t', 'r', 'u', 'e']
  | falseWord : Written (.boolean false) ['f', 'a', 'l', 's', 'e']
  | nullWord : Written .null ['n', 'u', 'l', 'l']

theorem Token.Written.plain (text : String) (hplain : text.toList.all isPlain = true) :
    Written (.string (StringUnit.plain text)) ('"' :: (text.toList ++ ['"'])) :=
  .string (unitsWritten_plain hplain)

/-- A token is over where a text goes on so.  Only a number has no end of its own. -/
def Token.EndsBefore (token : Token) (rest : List Char) : Prop :=
  ∀ text, token = .number text → Stops rest

theorem Token.read?_append {token : Token} {chars rest : List Char}
    (hwritten : Written token chars) (hends : token.EndsBefore rest) :
    Token.read? (chars ++ rest) = some (token, rest) := by
  cases hwritten with
  | @string units chars hunits =>
      rw [List.cons_append, List.append_assoc, List.singleton_append, Token.read?,
        stringBody_append hunits]
      rfl
  | @number text _ hnumber =>
      have hbody := numberBody_append hnumber (hends text rfl)
      obtain ⟨digit, others, hdigit, rfl⟩ := hnumber.exists_cons
      have hread : Token.read? (Nat.digitChar digit :: (others ++ rest)) =
          (numberBody false (Nat.digitChar digit :: (others ++ rest))).map fun found =>
            (.number found.1, found.2) := by
        interval_cases digit <;> rfl
      rw [List.cons_append] at hbody ⊢
      rw [hread, hbody]
      rfl
  | @negated text chars hnumber =>
      rw [List.cons_append, Token.read?, numberBody_append hnumber (hends text rfl)]
      rfl
  | _ => rfl

/-- A token begins with something that is not blank. -/
theorem Token.Written.exists_cons {token : Token} {chars : List Char}
    (hwritten : Written token chars) : ∃ c rest, chars = c :: rest ∧ isSpace c = false := by
  cases hwritten with
  | number hnumber =>
      obtain ⟨digit, rest, hdigit, rfl⟩ := hnumber.exists_cons
      exact ⟨_, rest, rfl, by interval_cases digit <;> rfl⟩
  | _ => exact ⟨_, _, rfl, rfl⟩

/-! ## Texts -/

/-- Tokens with white space before each and at the end. -/
inductive Writes : List Token → List Char → Prop
  | done {spaces : List Char} (hspaces : ∀ c ∈ spaces, isSpace c = true) : Writes [] spaces
  | token {token : Token} {tokens : List Token} {spaces chars rest : List Char}
      (hspaces : ∀ c ∈ spaces, isSpace c = true) (hwritten : token.Written chars)
      (hends : token.EndsBefore rest) (hrest : Writes tokens rest) :
      Writes (token :: tokens) (spaces ++ (chars ++ rest))

/-- A token with no white space before it. -/
theorem Writes.next {token : Token} {tokens : List Token} {chars rest : List Char}
    (hwritten : token.Written chars) (hends : token.EndsBefore rest) (hrest : Writes tokens rest) :
    Writes (token :: tokens) (chars ++ rest) :=
  .token (List.forall_mem_nil _) hwritten hends hrest

theorem Token.readUpTo_blank {text : List Char} (hblank : text.dropWhile isSpace = [])
    (limit : Nat) : readUpTo limit text = ⟨[], true⟩ := by
  unfold readUpTo
  rw [hblank]

theorem Token.readUpTo_succ {text chars rest : List Char} {c : Char} {token : Token}
    (hchars : text.dropWhile isSpace = c :: chars) (hread : read? (c :: chars) = some (token, rest))
    (limit : Nat) : readUpTo (limit + 1) text = (readUpTo limit rest).behind [token] := by
  rw [readUpTo.eq_def]
  simp only [hchars, hread]
  rfl

/-- Each token takes a character at least, and so all are read. -/
theorem readUpTo_of_writes {tokens : List Token} {chars : List Char}
    (hwrites : Writes tokens chars) {limit : Nat} (hlimit : chars.length ≤ limit) :
    Token.readUpTo limit chars = ⟨tokens, true⟩ := by
  induction hwrites generalizing limit with
  | done hspaces => exact Token.readUpTo_blank (List.dropWhile_eq_nil_iff.mpr hspaces) limit
  | @token token tokens spaces chars rest hspaces hwritten hends hrest ih =>
      have hread := Token.read?_append hwritten hends
      obtain ⟨c, others, rfl, hc⟩ := hwritten.exists_cons
      have hchars : (spaces ++ (c :: others ++ rest)).dropWhile isSpace = c :: (others ++ rest) := by
        rw [List.dropWhile_append_of_pos hspaces, List.cons_append, List.dropWhile_cons_of_neg]
        simp [hc]
      simp only [List.length_append, List.length_cons] at hlimit
      obtain ⟨limit, rfl⟩ : ∃ smaller, limit = smaller + 1 := ⟨limit - 1, by omega⟩
      rw [Token.readUpTo_succ hchars hread, ih (by omega)]
      rfl

/-- A text writes a value. -/
def Value.Writes (value : Value) (text : String) : Prop :=
  Json.Writes value.tokens text.toList

/-- A text that writes a value says what the value says. -/
theorem Value.Writes.read_eq {value : Value} {text : String} (hwrites : value.Writes text) :
    Event.read text = ⟨value.events, true⟩ := by
  have htokens : Token.readAll text = ⟨value.tokens, true⟩ :=
    readUpTo_of_writes hwrites (Nat.le_of_eq String.length_toList)
  rw [Event.read, htokens]
  exact value.ofTokens_tokens

end KerberosHttp.Json

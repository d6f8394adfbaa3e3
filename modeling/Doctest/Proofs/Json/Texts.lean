import Mathlib.Data.Bool.AllAny
import Mathlib.Tactic.IntervalCases
import Doctest.Proofs.Json.Tokens

/-! The texts of a value: its tokens in writing, with blanks between them wherever one likes. A character of
a string may stand for itself or be escaped in several ways, so a value has many texts. From each of them it
is read back. -/
namespace Doctest

namespace JsonToken

/-! The grammar of texts. -/

/-- A hexadecimal digit, of either case. -/
def IsHex (d : Nat) (c : Char) : Prop :=
  "0123456789abcdef".toList[d]? = some c ∨ "0123456789ABCDEF".toList[d]? = some c

/-- A number in four hexadecimal digits. -/
inductive HexText : Nat → List Char → Prop
  | four {a b c d : Nat} {w x y z : Char} : IsHex a w → IsHex b x → IsHex c y → IsHex d z →
    HexText (((a * 16 + b) * 16 + c) * 16 + d) [w, x, y, z]

/-- The letters after a backslash, with the characters that they stand for. -/
def shortEscapes : List (Char × Char) :=
  [('"', '"'), ('\\', '\\'), ('/', '/'), ('b', '\x08'), ('f', '\x0c'), ('n', '\n'), ('r', '\r'),
    ('t', '\t')]

inductive UnitText : StringUnit → List Char → Prop
  | plain {c : Char} : 0x20 ≤ c.toNat → c ≠ '"' → c ≠ '\\' → UnitText (.char c) [c]
  | short {e c : Char} : (e, c) ∈ shortEscapes → UnitText (.char c) ['\\', e]
  | code {n : Nat} {ds : List Char} : HexText n ds → n < 0xd800 ∨ 0xe000 ≤ n →
    UnitText (.char (Char.ofNat n)) ('\\' :: 'u' :: ds)
  | half {n : Nat} {ds : List Char} : HexText n ds → 0xd800 ≤ n → n < 0xe000 →
    UnitText (.half n) ('\\' :: 'u' :: ds)

inductive UnitsText : List StringUnit → List Char → Prop
  | nil : UnitsText [] []
  | cons {u : StringUnit} {us : List StringUnit} {text rest : List Char} : UnitText u text →
    UnitsText us rest → UnitsText (u :: us) (text ++ rest)

/-- The characters that the units of a string stand for. A high half needs a low one after it. -/
inductive Denotes : List StringUnit → List Char → Prop
  | nil : Denotes [] []
  | char {c : Char} {us : List StringUnit} {cs : List Char} : Denotes us cs →
    Denotes (.char c :: us) (c :: cs)
  | pair {high low : Nat} {us : List StringUnit} {cs : List Char} : high < 0xdc00 → 0xdc00 ≤ low →
    Denotes us cs → Denotes (.half high :: .half low :: us)
      (Char.ofNat (0x10000 + (high - 0xd800) * 0x400 + (low - 0xdc00)) :: cs)

def IsDigits (ds : List Char) : Prop :=
  ds ≠ [] ∧ ∀ d ∈ ds, isDigit d

/-- Digits that do not start with a zero, or a zero alone. -/
def IsWhole (ds : List Char) : Prop :=
  IsDigits ds ∧ (ds.head? = some '0' → ds = ['0'])

def IsFraction (cs : List Char) : Prop :=
  cs = [] ∨ ∃ ds, IsDigits ds ∧ cs = '.' :: ds

def IsExponent (cs : List Char) : Prop :=
  cs = [] ∨ ∃ e sign ds, (e = 'e' ∨ e = 'E') ∧ (sign = [] ∨ sign = ['+'] ∨ sign = ['-']) ∧ IsDigits ds ∧
    cs = e :: (sign ++ ds)

/-- A number that has a sign, a fraction or an exponent. -/
def IsLiteral (text : List Char) : Prop :=
  ∃ sign whole fraction exponent, (sign = [] ∨ sign = ['-']) ∧ IsWhole whole ∧ IsFraction fraction ∧
    IsExponent exponent ∧ ¬ (sign = [] ∧ fraction = [] ∧ exponent = []) ∧
      text = sign ++ whole ++ fraction ++ exponent

/-- A token in writing. -/
inductive Spelled : JsonToken → List Char → Prop
  | openArray : Spelled .openArray ['[']
  | closeArray : Spelled .closeArray [']']
  | openObject : Spelled .openObject ['{']
  | closeObject : Spelled .closeObject ['}']
  | comma : Spelled .comma [',']
  | colon : Spelled .colon [':']
  | null : Spelled (.scalar .null) "null".toList
  | bool (b : Bool) : Spelled (.scalar (.bool b)) (toString b).toList
  | natural (n : Nat) : Spelled (.scalar (.number (.natural n))) (toString n).toList
  | literal {text : List Char} : IsLiteral text →
    Spelled (.scalar (.number (.other (String.ofList text)))) text
  | string {units : List StringUnit} {text : List Char} {s : String} : UnitsText units text →
    Denotes units s.toList → Spelled (.scalar (.string (some s))) ('"' :: (text ++ ['"']))
  | broken {units : List StringUnit} {text : List Char} : UnitsText units text →
    (∀ cs, ¬ Denotes units cs) → Spelled (.scalar (.string none)) ('"' :: (text ++ ['"']))

/-- Tokens in writing, with blanks before and after each of them. -/
inductive Spells : List JsonToken → List Char → Prop
  | nil {blanks : List Char} : (∀ c ∈ blanks, isBlank c) → Spells [] blanks
  | cons {blanks text rest : List Char} {token : JsonToken} {tokens : List JsonToken} :
    (∀ c ∈ blanks, isBlank c) → Spelled token text → Spells tokens rest →
      Spells (token :: tokens) (blanks ++ (text ++ rest))

/-! Strings. -/

theorem hexValue?_eq {d : Nat} {c : Char} (h : IsHex d c) : hexValue? c = some d := by
  have hd : d < 16 := by
    rcases h with h | h
    all_goals
      have hlt := (List.getElem?_eq_some_iff.mp h).1
      simpa using hlt
  rcases h with h | h
  all_goals
    interval_cases d <;> (obtain rfl := Option.some.inj h; rfl)

theorem unitOfHex?_eq {n : Nat} {w x y z : Char} (h : HexText n [w, x, y, z]) :
    unitOfHex? w x y z = some (unitOfCode n) := by
  cases h with
  | four hw hx hy hz =>
    unfold unitOfHex?
    rw [hexValue?_eq hw, hexValue?_eq hx, hexValue?_eq hy, hexValue?_eq hz]
    rfl

theorem escaped?_eq {e c : Char} (h : (e, c) ∈ shortEscapes) : escaped? e = some c := by
  simp only [shortEscapes, List.mem_cons, Prod.mk.injEq, List.not_mem_nil, or_false] at h
  rcases h with ⟨rfl, rfl⟩ | ⟨rfl, rfl⟩ | ⟨rfl, rfl⟩ | ⟨rfl, rfl⟩ | ⟨rfl, rfl⟩ | ⟨rfl, rfl⟩ | ⟨rfl, rfl⟩ |
    ⟨rfl, rfl⟩ <;> rfl

/-- A unit is read from its text, and reading goes on behind it. -/
theorem UnitText.stringUnits?_append {u : StringUnit} {text : List Char} (h : UnitText u text)
    (rest : List Char) : stringUnits? (text ++ rest) =
      (stringUnits? rest).map fun (units, after) => (u :: units, after) := by
  have hunit {n : Nat} {ds : List Char} (hds : HexText n ds) : stringUnits? ('\\' :: 'u' :: ds ++ rest) =
      (stringUnits? rest).map fun (units, after) => (unitOfCode n :: units, after) := by
    obtain ⟨w, x, y, z, rfl⟩ : ∃ w x y z, ds = [w, x, y, z] := by
      cases hds
      exact ⟨_, _, _, _, rfl⟩
    show stringUnits? ('\\' :: 'u' :: w :: x :: y :: z :: rest) = _
    rw [stringUnits?, unitOfHex?_eq hds]
    cases stringUnits? rest <;> rfl
  cases h with
  | @plain c hcode hquote hslash =>
    rw [List.singleton_append, stringUnits?.eq_def]
    split
    · contradiction
    · next heq => exact absurd (List.cons.inj heq).1 hquote
    · next heq => exact absurd (List.cons.inj heq).1 hslash
    · next heq => exact absurd (List.cons.inj heq).1 hslash
    · next heq =>
      obtain ⟨rfl, rfl⟩ := List.cons.inj heq
      have hno : ¬ (c.toNat < 0x20 ∨ c = '\\') := by
        rintro (hlt | heq)
        · omega
        · exact hslash heq
      rw [if_neg hno]
      cases stringUnits? rest <;> rfl
  | @short e c hmem =>
    have hne : e ≠ 'u' := by
      rintro rfl
      simp [shortEscapes] at hmem
    rw [List.cons_append, List.singleton_append, stringUnits?.eq_def]
    split
    · contradiction
    · next heq => exact absurd (List.cons.inj heq).1 (by decide)
    · next heq => exact absurd (List.cons.inj (List.cons.inj heq).2).1 hne
    · next heq =>
      obtain ⟨rfl, rfl⟩ := List.cons.inj (List.cons.inj heq).2
      rw [escaped?_eq hmem]
      cases stringUnits? rest <;> rfl
    · next hno heq =>
      obtain ⟨rfl, rfl⟩ := List.cons.inj heq
      exact (hno e rest rfl rfl).elim
  | @code n ds hds hrange =>
    have hcode : unitOfCode n = .char (Char.ofNat n) := if_neg (by omega)
    rw [hunit hds, hcode]
  | @half n ds hds hlow hhigh =>
    have hcode : unitOfCode n = .half n := if_pos ⟨hlow, hhigh⟩
    rw [hunit hds, hcode]

theorem UnitsText.stringUnits?_append {us : List StringUnit} {text : List Char} (h : UnitsText us text)
    (rest : List Char) : stringUnits? (text ++ '"' :: rest) = some (us, rest) := by
  induction h with
  | nil => rfl
  | cons hunit _ ih => rw [List.append_assoc, hunit.stringUnits?_append, ih, Option.map_some]

theorem Denotes.pairUp?_eq {us : List StringUnit} {cs : List Char} (h : Denotes us cs) :
    pairUp? us = some cs := by
  induction h with
  | nil => rfl
  | char _ ih => rw [pairUp?, ih, Option.map_some]
  | pair hhigh hlow _ ih => rw [pairUp?, if_pos ⟨hhigh, hlow⟩, ih, Option.map_some]

theorem denotes_of_pairUp? {us : List StringUnit} {cs : List Char} (h : pairUp? us = some cs) :
    Denotes us cs := by
  fun_induction pairUp? us generalizing cs with
  | case1 =>
    obtain rfl := Option.some.inj h
    exact .nil
  | case2 c rest ih =>
    obtain ⟨cs, hcs, rfl⟩ := Option.map_eq_some_iff.mp h
    exact .char (ih hcs)
  | case3 high low rest hpair ih =>
    obtain ⟨cs, hcs, rfl⟩ := Option.map_eq_some_iff.mp h
    exact .pair hpair.1 hpair.2 (ih hcs)
  | case4 => contradiction
  | case5 => contradiction

/-! Numbers. -/

/-- A number does not go on where this text begins. -/
def Ends (rest : List Char) : Prop :=
  ∀ c ∈ rest.head?, isDigit c = false ∧ c ≠ '.' ∧ c ≠ 'e' ∧ c ≠ 'E'

theorem digits_append {ds rest : List Char} (hds : ∀ d ∈ ds, isDigit d)
    (hrest : ∀ c ∈ rest.head?, isDigit c = false) : digits (ds ++ rest) = (ds, rest) := by
  unfold digits
  have hnone : rest.takeWhile isDigit = [] ∧ rest.dropWhile isDigit = rest := by
    cases rest with
    | nil => exact ⟨rfl, rfl⟩
    | cons c rest =>
      have hc : isDigit c = false := hrest c rfl
      simp [hc]
  rw [List.takeWhile_append_of_pos hds, List.dropWhile_append_of_pos hds, hnone.1, hnone.2,
    List.append_nil]

theorem IsWhole.wholePart?_append {ds rest : List Char} (h : IsWhole ds)
    (hrest : ∀ c ∈ rest.head?, isDigit c = false) : wholePart? (ds ++ rest) = some (ds, rest) := by
  obtain ⟨⟨hne, hall⟩, hzero⟩ := h
  obtain ⟨d, ds, rfl⟩ := List.exists_cons_of_ne_nil hne
  by_cases hd : d = '0'
  · subst hd
    rw [hzero rfl]
    rfl
  · have hdigits := JsonToken.digits_append hall hrest
    unfold wholePart?
    split
    · next heq => exact absurd (List.cons.inj heq).1 hd
    · rw [hdigits]

/-- What may follow the whole part is a fraction, an exponent or the end. -/
theorem IsFraction.head_append {cs rest : List Char} (h : IsFraction cs)
    (hrest : ∀ c ∈ rest.head?, isDigit c = false) : ∀ c ∈ (cs ++ rest).head?, isDigit c = false := by
  rcases h with rfl | ⟨ds, -, rfl⟩
  · exact hrest
  · intro c hc
    obtain rfl : '.' = c := by simpa using hc
    decide

theorem IsExponent.head_append {cs rest : List Char} (h : IsExponent cs) (hrest : Ends rest) :
    ∀ c ∈ (cs ++ rest).head?, isDigit c = false ∧ c ≠ '.' := by
  rcases h with rfl | ⟨e, sign, ds, he, -, -, rfl⟩
  · exact fun c hc => ⟨(hrest c hc).1, (hrest c hc).2.1⟩
  · intro c hc
    obtain rfl : e = c := by simpa using hc
    rcases he with rfl | rfl <;> decide

theorem IsFraction.fractionPart?_append {cs rest : List Char} (h : IsFraction cs)
    (hrest : ∀ c ∈ rest.head?, isDigit c = false ∧ c ≠ '.') :
    fractionPart? (cs ++ rest) = some (cs, rest) := by
  rcases h with rfl | ⟨ds, ⟨hne, hall⟩, rfl⟩
  · unfold fractionPart?
    split
    · next heq =>
      rw [List.nil_append] at heq
      exact absurd rfl (hrest '.' (by rw [heq]; rfl)).2
    · rfl
  · have hdigits := JsonToken.digits_append hall fun c hc => (hrest c hc).1
    rw [List.cons_append, fractionPart?, hdigits]
    cases ds with
    | nil => exact absurd rfl hne
    | cons d ds => rfl

theorem IsExponent.exponentPart?_append {cs rest : List Char} (h : IsExponent cs) (hrest : Ends rest) :
    exponentPart? (cs ++ rest) = some (cs, rest) := by
  rcases h with rfl | ⟨e, sign, ds, he, hsign, ⟨hne, hall⟩, rfl⟩
  · unfold exponentPart?
    rw [List.nil_append]
    split
    · next e rest =>
      obtain ⟨-, -, hlower, hupper⟩ := hrest e rfl
      exact if_neg (not_or.mpr ⟨hlower, hupper⟩)
    · rfl
  · have hdigits := JsonToken.digits_append hall fun c hc => (hrest c hc).1
    obtain ⟨d, ds, rfl⟩ := List.exists_cons_of_ne_nil hne
    have hd : isDigit d := hall d List.mem_cons_self
    have hsigned : signPart ['+', '-'] (sign ++ (d :: ds ++ rest)) = (sign, d :: ds ++ rest) := by
      rcases hsign with rfl | rfl | rfl
      · have hnone : d ∉ ['+', '-'] := by
          intro hmem
          simp only [List.mem_cons, List.not_mem_nil, or_false] at hmem
          rcases hmem with rfl | rfl <;> exact absurd hd (by decide)
        exact if_neg hnone
      · rfl
      · rfl
    rw [List.cons_append, List.append_assoc, exponentPart?, if_pos he]
    dsimp only
    rw [hsigned]
    dsimp only
    rw [hdigits]
    rfl

/-- A number is read up to its end. -/
theorem number?_append {sign whole fraction exponent rest : List Char} (hsign : sign = [] ∨ sign = ['-'])
    (hwhole : IsWhole whole) (hfraction : IsFraction fraction) (hexponent : IsExponent exponent)
    (hrest : Ends rest) : number? (sign ++ whole ++ fraction ++ exponent ++ rest) =
      if sign = [] ∧ fraction = [] ∧ exponent = [] then some (.natural (decimalValue whole), rest)
      else some (.other (String.ofList (sign ++ whole ++ fraction ++ exponent)), rest) := by
  have hsigned : signPart ['-'] (sign ++ (whole ++ (fraction ++ (exponent ++ rest)))) =
      (sign, whole ++ (fraction ++ (exponent ++ rest))) := by
    rcases hsign with rfl | rfl
    · obtain ⟨d, ds, rfl⟩ := List.exists_cons_of_ne_nil hwhole.1.1
      have hd : isDigit d := hwhole.1.2 d List.mem_cons_self
      have hnone : d ∉ ['-'] := by
        intro hmem
        obtain rfl := List.mem_singleton.mp hmem
        exact absurd hd (by decide)
      exact if_neg hnone
    · rfl
  have hafter := hexponent.head_append hrest
  simp only [List.append_assoc]
  unfold number?
  rw [hsigned]
  dsimp only
  rw [hwhole.wholePart?_append (hfraction.head_append fun c hc => (hafter c hc).1)]
  dsimp only [Option.bind_eq_bind, Option.bind_some]
  rw [hfraction.fractionPart?_append hafter]
  dsimp only [Option.bind_some]
  rw [hexponent.exponentPart?_append hrest]
  simp only [Option.bind_some, List.append_assoc, Option.pure_def]

theorem isWhole_toDigits (n : Nat) : IsWhole (Nat.toDigits 10 n) := by
  refine ⟨⟨Nat.toDigits_ne_nil, ?_⟩, ?_⟩
  · intro d hd
    have hdigit := Nat.isDigit_of_mem_toDigits (by decide) (by decide) hd
    simpa [isDigit, Char.isDigit, Char.le_def] using hdigit
  · -- The first digit of a greater number is that of its tenth, which is not zero.
    induction n using Nat.strong_induction_on with
    | _ n ih =>
      intro hhead
      by_cases hlt : n < 10
      · rw [Nat.toDigits_of_lt_base hlt] at hhead ⊢
        exact congrArg (· :: []) (Option.some.inj hhead)
      · have hle : 10 ≤ n := Nat.not_lt.mp hlt
        rw [Nat.toDigits_of_base_le (by decide) hle] at hhead
        obtain ⟨d, ds, hds⟩ := List.exists_cons_of_ne_nil (Nat.toDigits_ne_nil : Nat.toDigits 10 (n / 10) ≠ [])
        have htenth : Nat.toDigits 10 (n / 10) = ['0'] := by
          apply ih (n / 10) (by omega)
          rw [hds] at hhead ⊢
          exact hhead
        have hzero := Nat.ofDigitChars_ten_toDigits (n := n / 10)
        rw [htenth] at hzero
        have hvalue : Nat.ofDigitChars 10 ['0'] 0 = 0 := rfl
        omega

theorem decimalValue_toDigits (n : Nat) : decimalValue (Nat.toDigits 10 n) = n := by
  have h := Nat.ofDigitChars_ten_toDigits (n := n)
  unfold Nat.ofDigitChars at h
  unfold decimalValue
  simpa only [Nat.mul_comm] using h

/-! Tokens. -/

theorem IsLiteral.number?_append {text rest : List Char} (h : IsLiteral text) (hrest : Ends rest) :
    number? (text ++ rest) = some (.other (String.ofList text), rest) := by
  obtain ⟨sign, whole, fraction, exponent, hsign, hwhole, hfraction, hexponent, hne, rfl⟩ := h
  rw [JsonToken.number?_append hsign hwhole hfraction hexponent hrest, if_neg hne]

theorem number?_toString (n : Nat) {rest : List Char} (hrest : Ends rest) :
    number? ((toString n).toList ++ rest) = some (.natural n, rest) := by
  have h := number?_append (.inl rfl) (isWhole_toDigits n) (.inl rfl) (.inl rfl) hrest
  simpa [decimalValue_toDigits, Nat.toString_eq_ofList_toDigits] using h

/-- What begins with a digit or a minus sign is no bracket, no string and no word. -/
theorem next?_of_number {c : Char} {cs : List Char} (hc : isDigit c ∨ c = '-') :
    next? (c :: cs) = (number? (c :: cs)).map fun (n, rest) => (.scalar (.number n), rest) := by
  have hne : c ∉ ['[', ']', '{', '}', ',', ':', '"', 'n', 't', 'f'] := by
    intro hmem
    rcases hc with hc | rfl
    · have hnone : ∀ d ∈ ['[', ']', '{', '}', ',', ':', '"', 'n', 't', 'f'], isDigit d = false :=
        List.all_iff_forall_prop.mp (by decide)
      rw [hnone c hmem] at hc
      contradiction
    · exact absurd hmem (by decide)
  have hword : word? (c :: cs) = none := by
    unfold word?
    split <;> simp_all
  unfold next?
  split <;> simp_all

theorem IsLiteral.exists_cons {text : List Char} (h : IsLiteral text) :
    ∃ c cs, text = c :: cs ∧ (isDigit c ∨ c = '-') := by
  obtain ⟨sign, whole, fraction, exponent, hsign, ⟨⟨hne, hall⟩, -⟩, -, -, -, rfl⟩ := h
  obtain ⟨d, ds, rfl⟩ := List.exists_cons_of_ne_nil hne
  rcases hsign with rfl | rfl
  · exact ⟨d, ds ++ fraction ++ exponent, rfl, .inl (hall d List.mem_cons_self)⟩
  · exact ⟨'-', d :: ds ++ fraction ++ exponent, rfl, .inr rfl⟩

theorem exists_toString_eq_cons (n : Nat) : ∃ c cs, (toString n).toList = c :: cs ∧ isDigit c := by
  obtain ⟨⟨hne, hall⟩, -⟩ := isWhole_toDigits n
  obtain ⟨d, ds, hds⟩ := List.exists_cons_of_ne_nil hne
  rw [Nat.toString_eq_ofList_toDigits, String.toList_ofList]
  exact ⟨d, ds, hds, hall d (hds ▸ List.mem_cons_self)⟩

/-- A token is read from its text, if a number ends there. -/
theorem Spelled.next?_append {token : JsonToken} {text rest : List Char} (h : Spelled token text)
    (hrest : token.isScalar → Ends rest) : next? (text ++ rest) = some (token, rest) := by
  cases h with
  | openArray | closeArray | openObject | closeObject | comma | colon | null => rfl
  | bool b => cases b <;> rfl
  | natural n =>
    obtain ⟨c, cs, heq, hc⟩ := exists_toString_eq_cons n
    have hnumber := number?_toString n (hrest rfl)
    rw [heq] at hnumber ⊢
    rw [List.cons_append, next?_of_number (.inl hc), ← List.cons_append, hnumber, Option.map_some]
  | literal hliteral =>
    have hnumber := hliteral.number?_append (hrest rfl)
    obtain ⟨c, cs, rfl, hc⟩ := hliteral.exists_cons
    rw [List.cons_append, next?_of_number hc, ← List.cons_append, hnumber, Option.map_some]
  | @string units text s hunits hdenotes =>
    have hstring := hunits.stringUnits?_append rest
    rw [List.cons_append, List.append_assoc, List.singleton_append, next?, hstring, Option.map_some]
    dsimp only
    rw [hdenotes.pairUp?_eq, Option.map_some, String.ofList_toList]
  | @broken units text hunits hnone =>
    have hstring := hunits.stringUnits?_append rest
    have hpair : pairUp? units = none := by
      cases hunits : pairUp? units with
      | none => rfl
      | some cs => exact (hnone cs (denotes_of_pairUp? hunits)).elim
    rw [List.cons_append, List.append_assoc, List.singleton_append, next?, hstring, Option.map_some]
    dsimp only
    rw [hpair, Option.map_none]

theorem isBlank_of_number {c : Char} (hc : isDigit c ∨ c = '-') : isBlank c = false := by
  rw [Bool.eq_false_iff]
  intro hblank
  have hnone : ∀ d ∈ [' ', '\t', '\n', '\r'], isDigit d = false ∧ d ≠ '-' :=
    List.all_iff_forall_prop.mp (by decide)
  obtain ⟨hdigit, hminus⟩ := hnone c (by simpa [isBlank, or_assoc] using hblank)
  rcases hc with hc | hc
  · rw [hdigit] at hc
    exact absurd hc Bool.false_ne_true
  · exact hminus hc

/-- A token does not begin with a blank. -/
theorem Spelled.exists_cons {token : JsonToken} {text : List Char} (h : Spelled token text) :
    ∃ c cs, text = c :: cs ∧ isBlank c = false := by
  cases h with
  | bool b => cases b <;> exact ⟨_, _, rfl, rfl⟩
  | natural n =>
    obtain ⟨c, cs, heq, hc⟩ := exists_toString_eq_cons n
    exact ⟨c, cs, heq, isBlank_of_number (.inl hc)⟩
  | literal hliteral =>
    obtain ⟨c, cs, heq, hc⟩ := hliteral.exists_cons
    exact ⟨c, cs, heq, isBlank_of_number hc⟩
  | _ => exact ⟨_, _, rfl, rfl⟩

theorem Spelled.ends {token : JsonToken} {text : List Char} (h : Spelled token text)
    (hscalar : token.isScalar = false) (rest : List Char) : Ends (text ++ rest) := by
  intro c hc
  cases h <;> first | contradiction | (obtain rfl := Option.some.inj hc; decide)

/-- Where no scalar comes next, blanks or not, a number ends. -/
theorem Spells.ends {tokens : List JsonToken} {text : List Char} (h : Spells tokens text)
    (hhead : ∀ t ∈ tokens.head?, t.isScalar = false) : Ends text := by
  have hblank {c : Char} (hc : isBlank c) : isDigit c = false ∧ c ≠ '.' ∧ c ≠ 'e' ∧ c ≠ 'E' := by
    have hall : ∀ d ∈ [' ', '\t', '\n', '\r'], isDigit d = false ∧ d ≠ '.' ∧ d ≠ 'e' ∧ d ≠ 'E' :=
      List.all_iff_forall_prop.mp (by decide)
    exact hall c (by simpa [isBlank, or_assoc] using hc)
  cases h with
  | nil hblanks => exact fun c hc => hblank (hblanks c (List.mem_of_mem_head? hc))
  | @cons blanks text rest token tokens hblanks htoken _ =>
    cases blanks with
    | nil => exact htoken.ends (hhead token rfl) rest
    | cons b blanks =>
      intro c hc
      obtain rfl := Option.some.inj hc
      exact hblank (hblanks b List.mem_cons_self)

theorem split?_cons_blank {c : Char} (hc : isBlank c) (cs : List Char) : split? (c :: cs) = split? cs := by
  rw [split?, if_pos hc]

theorem split?_of_next? {c : Char} {cs after : List Char} {token : JsonToken} (hc : isBlank c = false)
    (h : next? (c :: cs) = some (token, after)) :
    split? (c :: cs) = (split? after).map (token :: ·) := by
  rw [split?, if_neg (by simp [hc])]
  split <;> simp_all

theorem split?_blanks {blanks : List Char} (h : ∀ c ∈ blanks, isBlank c) (rest : List Char) :
    split? (blanks ++ rest) = split? rest := by
  induction blanks with
  | nil => rfl
  | cons c blanks ih =>
    rw [List.cons_append, split?_cons_blank (h c List.mem_cons_self)]
    exact ih fun d hd => h d (List.mem_cons_of_mem _ hd)

/-- The tokens are found again in each of their texts. -/
theorem Spells.split?_eq {tokens : List JsonToken} {text : List Char} (h : Spells tokens text)
    (hapart : Apart tokens) : split? text = some tokens := by
  induction h with
  | @nil blanks hblanks =>
    have hsplit := split?_blanks hblanks []
    rw [List.append_nil] at hsplit
    rw [hsplit, split?]
  | @cons blanks text rest token tokens hblanks htoken hrest ih =>
    obtain ⟨hhead, htail⟩ := List.isChain_cons.mp hapart
    have hends : token.isScalar → Ends rest := by
      intro hscalar
      apply hrest.ends
      intro u hu
      rcases hhead u hu with hnot | hu
      · rw [hscalar] at hnot
        contradiction
      · exact hu
    have hnext := htoken.next?_append hends
    obtain ⟨c, cs, rfl, hc⟩ := htoken.exists_cons
    rw [List.cons_append] at hnext ⊢
    rw [split?_blanks hblanks, split?_of_next? hc hnext, ih htail, Option.map_some]

/-! Texts that are put together. -/

theorem Spells.blanks_append {tokens : List JsonToken} {blanks text : List Char}
    (hblanks : ∀ c ∈ blanks, isBlank c) (h : Spells tokens text) : Spells tokens (blanks ++ text) := by
  have hboth {more : List Char} (hmore : ∀ c ∈ more, isBlank c) : ∀ c ∈ blanks ++ more, isBlank c := by
    intro c hc
    rcases List.mem_append.mp hc with hc | hc
    · exact hblanks c hc
    · exact hmore c hc
  cases h with
  | nil hmore => exact .nil (hboth hmore)
  | cons hmore htoken hrest =>
    rw [← List.append_assoc]
    exact .cons (hboth hmore) htoken hrest

theorem Spells.append {ts us : List JsonToken} {text more : List Char} (h : Spells ts text)
    (hmore : Spells us more) : Spells (ts ++ us) (text ++ more) := by
  induction h with
  | nil hblanks => exact hmore.blanks_append hblanks
  | cons hblanks htoken _ ih =>
    rw [List.cons_append, List.append_assoc, List.append_assoc]
    exact .cons hblanks htoken ih

theorem Spelled.spells_cons {token : JsonToken} {tokens : List JsonToken} {text rest : List Char}
    (h : Spelled token text) (hrest : Spells tokens rest) : Spells (token :: tokens) (text ++ rest) :=
  .cons (fun _ hc => absurd hc List.not_mem_nil) h hrest

theorem Spelled.spells {token : JsonToken} {text : List Char} (h : Spelled token text) :
    Spells [token] text := by
  have hspells := h.spells_cons (.nil fun c hc => absurd hc List.not_mem_nil)
  rwa [List.append_nil] at hspells

/-! Control characters stand between tokens only. -/

theorem IsHex.le_toNat {d : Nat} {c : Char} (h : IsHex d c) : 0x20 ≤ c.toNat := by
  have hall : ∀ c ∈ "0123456789abcdef".toList ++ "0123456789ABCDEF".toList, 0x20 ≤ c.toNat :=
    List.all_iff_forall_prop.mp (by decide)
  apply hall c
  rw [List.mem_append]
  exact h.imp List.mem_of_getElem? List.mem_of_getElem?

theorem le_toNat_of_isDigit {c : Char} (h : isDigit c) : 0x20 ≤ c.toNat := by
  unfold isDigit at h
  rw [Bool.and_eq_true, decide_eq_true_eq, decide_eq_true_eq] at h
  exact Nat.le_trans (by decide) (Char.le_def.mp h.1)

theorem UnitText.le_toNat {u : StringUnit} {text : List Char} (h : UnitText u text) :
    ∀ c ∈ text, 0x20 ≤ c.toNat := by
  have hhex {n : Nat} {ds : List Char} (hds : HexText n ds) : ∀ c ∈ '\\' :: 'u' :: ds, 0x20 ≤ c.toNat := by
    cases hds with
    | four hw hx hy hz =>
      simp [hw.le_toNat, hx.le_toNat, hy.le_toNat, hz.le_toNat]
  cases h with
  | plain hcode => simpa using hcode
  | @short e c hmem =>
    have hall : ∀ f ∈ shortEscapes, 0x20 ≤ f.1.toNat := by decide
    simpa using hall _ hmem
  | code hds => exact hhex hds
  | half hds => exact hhex hds

theorem UnitsText.le_toNat {us : List StringUnit} {text : List Char} (h : UnitsText us text) :
    ∀ c ∈ text, 0x20 ≤ c.toNat := by
  induction h with
  | nil => simp
  | cons hunit _ ih => exact List.forall_mem_append.mpr ⟨hunit.le_toNat, ih⟩

theorem IsLiteral.le_toNat {text : List Char} (h : IsLiteral text) : ∀ c ∈ text, 0x20 ≤ c.toNat := by
  have hdigits {ds : List Char} (hds : IsDigits ds) : ∀ c ∈ ds, 0x20 ≤ c.toNat := fun c hc =>
    le_toNat_of_isDigit (hds.2 c hc)
  obtain ⟨sign, whole, fraction, exponent, hsign, hwhole, hfraction, hexponent, -, rfl⟩ := h
  have hminus : ∀ c ∈ sign, 0x20 ≤ c.toNat := by
    rcases hsign with rfl | rfl <;> exact List.all_iff_forall_prop.mp (by decide)
  have hpoint : ∀ c ∈ fraction, 0x20 ≤ c.toNat := by
    rcases hfraction with rfl | ⟨ds, hds, rfl⟩
    · simp
    · exact List.forall_mem_cons.mpr ⟨by decide, hdigits hds⟩
  have hpower : ∀ c ∈ exponent, 0x20 ≤ c.toNat := by
    rcases hexponent with rfl | ⟨e, esign, ds, he, hesign, hds, rfl⟩
    · simp
    · refine List.forall_mem_cons.mpr ⟨?_, List.forall_mem_append.mpr ⟨?_, hdigits hds⟩⟩
      · rcases he with rfl | rfl <;> decide
      · rcases hesign with rfl | rfl | rfl <;> exact List.all_iff_forall_prop.mp (by decide)
  simp only [List.forall_mem_append]
  exact ⟨⟨⟨hminus, hdigits hwhole.1⟩, hpoint⟩, hpower⟩

theorem Spelled.le_toNat {token : JsonToken} {text : List Char} (h : Spelled token text) :
    ∀ c ∈ text, 0x20 ≤ c.toNat := by
  have hquoted {us : List StringUnit} {text : List Char} (hunits : UnitsText us text) :
      ∀ c ∈ '"' :: (text ++ ['"']), 0x20 ≤ c.toNat :=
    List.forall_mem_cons.mpr ⟨by decide, List.forall_mem_append.mpr ⟨hunits.le_toNat,
      List.all_iff_forall_prop.mp (by decide)⟩⟩
  cases h with
  | natural n =>
    intro c hc
    rw [Nat.toString_eq_ofList_toDigits, String.toList_ofList] at hc
    exact le_toNat_of_isDigit ((isWhole_toDigits n).1.2 c hc)
  | literal hliteral => exact hliteral.le_toNat
  | string hunits => exact hquoted hunits
  | broken hunits => exact hquoted hunits
  | bool b => cases b <;> exact List.all_iff_forall_prop.mp (by decide)
  | _ => exact List.all_iff_forall_prop.mp (by decide)

/-- Without its blanks a text is a single line. -/
theorem Spells.exists_line {tokens : List JsonToken} {text : List Char} (h : Spells tokens text) :
    ∃ line, Spells tokens line ∧ ∀ c ∈ line, 0x20 ≤ c.toNat := by
  induction h with
  | nil => exact ⟨[], .nil (by simp), by simp⟩
  | cons _ htoken _ ih =>
    obtain ⟨line, hline, hcodes⟩ := ih
    exact ⟨_, htoken.spells_cons hline, List.forall_mem_append.mpr ⟨htoken.le_toNat, hcodes⟩⟩

end JsonToken

/-- A text of an array or object gives the array or object. -/
theorem JsonValue.read?_of_spells {v : JsonValue} (hv : v.IsNested) {text : List Char}
    (h : JsonToken.Spells v.tokens text) : read? text = some v :=
  read?_of_split? hv (h.split?_eq v.apart_tokens)

end Doctest

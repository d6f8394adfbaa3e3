import Doctest.Json.Value
import Doctest.Text.Blank

/-! The tokens of a JSON text. -/
namespace Doctest

inductive JsonToken
  | openArray | closeArray | openObject | closeObject | comma | colon
  | scalar (value : JsonValue)
deriving Repr

namespace JsonToken

/-- A unit of a string: a character, or half of a surrogate pair, which only an escape can give. -/
inductive StringUnit
  | char (c : Char)
  | half (n : Nat)
deriving DecidableEq, Repr

def isDigit (c : Char) : Bool :=
  '0' ≤ c && c ≤ '9'

def hexValue? (c : Char) : Option Nat :=
  if isDigit c then some (c.toNat - '0'.toNat)
  else if 'a' ≤ c ∧ c ≤ 'f' then some (c.toNat - 'a'.toNat + 10)
  else if 'A' ≤ c ∧ c ≤ 'F' then some (c.toNat - 'A'.toNat + 10)
  else none

def unitOfCode (n : Nat) : StringUnit :=
  if 0xd800 ≤ n ∧ n < 0xe000 then .half n else .char (Char.ofNat n)

def unitOfHex? (a b c d : Char) : Option StringUnit := do
  let a ← hexValue? a
  let b ← hexValue? b
  let c ← hexValue? c
  let d ← hexValue? d
  pure (unitOfCode (((a * 16 + b) * 16 + c) * 16 + d))

/-- The character that a backslash and a letter stand for. -/
def escaped? : Char → Option Char
  | '"' => some '"'
  | '\\' => some '\\'
  | '/' => some '/'
  | 'b' => some '\x08'
  | 'f' => some '\x0c'
  | 'n' => some '\n'
  | 'r' => some '\r'
  | 't' => some '\t'
  | _ => none

/-- The units of a string whose quote has been read, and the text after it. -/
def stringUnits? : List Char → Option (List StringUnit × List Char)
  | [] => none
  | '"' :: rest => some ([], rest)
  | '\\' :: 'u' :: a :: b :: c :: d :: rest => do
    let unit ← unitOfHex? a b c d
    let (units, rest) ← stringUnits? rest
    pure (unit :: units, rest)
  | '\\' :: e :: rest => do
    let c ← escaped? e
    let (units, rest) ← stringUnits? rest
    pure (.char c :: units, rest)
  | c :: rest =>
    if c.toNat < 0x20 ∨ c = '\\' then none
    else do
      let (units, rest) ← stringUnits? rest
      pure (.char c :: units, rest)

/-- The characters of a string. Two halves of a pair that follow each other are one character. -/
def pairUp? : List StringUnit → Option (List Char)
  | [] => some []
  | .char c :: rest => (pairUp? rest).map (c :: ·)
  | .half high :: .half low :: rest =>
    if high < 0xdc00 ∧ 0xdc00 ≤ low then
      (pairUp? rest).map (Char.ofNat (0x10000 + (high - 0xd800) * 0x400 + (low - 0xdc00)) :: ·)
    else none
  | .half _ :: _ => none

def digits (cs : List Char) : List Char × List Char :=
  (cs.takeWhile isDigit, cs.dropWhile isDigit)

/-- One of the given signs, if it stands at the front. -/
def signPart (signs : List Char) (cs : List Char) : List Char × List Char :=
  match cs with
  | c :: rest => if c ∈ signs then ([c], rest) else ([], cs)
  | [] => ([], [])

/-- The whole part: a zero alone or digits that do not start with one. -/
def wholePart? (cs : List Char) : Option (List Char × List Char) :=
  match cs with
  | '0' :: rest => some (['0'], rest)
  | _ =>
    match digits cs with
    | ([], _) => none
    | found => some found

def fractionPart? (cs : List Char) : Option (List Char × List Char) :=
  match cs with
  | '.' :: rest =>
    match digits rest with
    | ([], _) => none
    | (ds, rest) => some ('.' :: ds, rest)
  | _ => some ([], cs)

def exponentPart? (cs : List Char) : Option (List Char × List Char) :=
  match cs with
  | e :: rest =>
    if e = 'e' ∨ e = 'E' then
      let signed := signPart ['+', '-'] rest
      match digits signed.2 with
      | ([], _) => none
      | (ds, rest) => some (e :: signed.1 ++ ds, rest)
    else some ([], cs)
  | [] => some ([], [])

def decimalValue (ds : List Char) : Nat :=
  ds.foldl (fun n d => n * 10 + (d.toNat - '0'.toNat)) 0

/-- A number and the text after it. -/
def number? (cs : List Char) : Option (JsonNumber × List Char) := do
  let signed := signPart ['-'] cs
  let (whole, rest) ← wholePart? signed.2
  let (fraction, rest) ← fractionPart? rest
  let (exponent, rest) ← exponentPart? rest
  if signed.1 = [] ∧ fraction = [] ∧ exponent = [] then pure (.natural (decimalValue whole), rest)
  else pure (.other (String.ofList (signed.1 ++ whole ++ fraction ++ exponent)), rest)

/-- The words that stand for values. -/
def word? (cs : List Char) : Option (JsonValue × List Char) :=
  match cs with
  | 'n' :: 'u' :: 'l' :: 'l' :: rest => some (.null, rest)
  | 't' :: 'r' :: 'u' :: 'e' :: rest => some (.bool true, rest)
  | 'f' :: 'a' :: 'l' :: 's' :: 'e' :: rest => some (.bool false, rest)
  | _ => none

def isBlank (c : Char) : Bool :=
  c = ' ' || c = '\t' || c = '\n' || c = '\r'

/-- The first token, which is not blank, and the text after it. -/
def next? (cs : List Char) : Option (JsonToken × List Char) :=
  match cs with
  | '[' :: rest => some (.openArray, rest)
  | ']' :: rest => some (.closeArray, rest)
  | '{' :: rest => some (.openObject, rest)
  | '}' :: rest => some (.closeObject, rest)
  | ',' :: rest => some (.comma, rest)
  | ':' :: rest => some (.colon, rest)
  | '"' :: rest =>
    (stringUnits? rest).map fun (units, rest) =>
      (.scalar (.string ((pairUp? units).map String.ofList)), rest)
  | _ =>
    match word? cs with
    | some (v, rest) => some (.scalar v, rest)
    | none => (number? cs).map fun (n, rest) => (.scalar (.number n), rest)

theorem length_stringUnits?_lt {cs : List Char} {units : List StringUnit} {rest : List Char}
    (h : stringUnits? cs = some (units, rest)) : rest.length < cs.length := by
  fun_induction stringUnits? cs generalizing units rest <;>
    simp_all [Option.bind_eq_some_iff, -Option.pure_def]
  case case3 ih =>
    obtain ⟨_, _, us, h', _⟩ := h
    have := ih h'
    omega
  case case4 ih =>
    obtain ⟨_, _, us, h', _⟩ := h
    have := ih h'
    omega
  case case6 ih =>
    obtain ⟨us, h', _⟩ := h
    have := ih h'
    omega

theorem length_digits_le (cs : List Char) : (digits cs).2.length ≤ cs.length :=
  (List.dropWhile_sublist _).length_le

theorem length_wholePart?_lt {cs ds rest : List Char} (h : wholePart? cs = some (ds, rest)) :
    rest.length < cs.length := by
  unfold wholePart? at h
  split at h
  · simp_all
  · split at h
    · simp at h
    · next found hne =>
      have happ : (digits cs).1 ++ (digits cs).2 = cs := List.takeWhile_append_dropWhile
      have hlen := congrArg List.length happ
      simp only [Option.some.injEq] at h
      rw [h] at hlen hne
      cases ds with
      | nil => exact absurd rfl (hne rest)
      | cons d ds => simp at hlen; omega

theorem length_fractionPart?_le {cs ds rest : List Char}
    (h : fractionPart? cs = some (ds, rest)) : rest.length ≤ cs.length := by
  unfold fractionPart? at h
  split at h
  · next tail =>
    have := length_digits_le tail
    split at h <;> simp_all
    omega
  · simp_all

theorem length_signPart_le (signs cs : List Char) : (signPart signs cs).2.length ≤ cs.length := by
  unfold signPart
  split
  · split <;> simp
  · simp

theorem length_exponentPart?_le {cs ds rest : List Char}
    (h : exponentPart? cs = some (ds, rest)) : rest.length ≤ cs.length := by
  unfold exponentPart? at h
  split at h
  · next e tail =>
    have h1 := length_signPart_le ['+', '-'] tail
    have h2 := length_digits_le (signPart ['+', '-'] tail).2
    split at h
    · dsimp only at h
      split at h <;> simp_all
      omega
    · simp_all
  · simp_all

theorem length_number?_lt {cs : List Char} {n : JsonNumber} {rest : List Char}
    (h : number? cs = some (n, rest)) : rest.length < cs.length := by
  unfold number? at h
  simp only [Option.bind_eq_bind, Option.bind_eq_some_iff, Prod.exists] at h
  obtain ⟨_, r1, h1, _, r2, h2, _, r3, h3, h⟩ := h
  obtain rfl : r3 = rest := by split at h <;> exact congrArg Prod.snd (Option.some.inj h)
  have := length_signPart_le ['-'] cs
  have := length_wholePart?_lt h1
  have := length_fractionPart?_le h2
  have := length_exponentPart?_le h3
  omega

theorem length_word?_lt {cs : List Char} {v : JsonValue} {rest : List Char}
    (h : word? cs = some (v, rest)) : rest.length < cs.length := by
  unfold word? at h
  split at h <;> simp_all <;> omega

theorem length_next?_lt {cs : List Char} {token : JsonToken} {rest : List Char}
    (h : next? cs = some (token, rest)) : rest.length < cs.length := by
  unfold next? at h
  split at h <;> try (simp_all; done)
  · next tail =>
    simp only [Option.map_eq_some_iff, Prod.mk.injEq, Prod.exists] at h
    obtain ⟨units, rest', h', _, rfl⟩ := h
    exact Nat.lt_succ_of_lt (length_stringUnits?_lt h')
  · split at h
    · next h' => simp_all; exact length_word?_lt h'
    · simp only [Option.map_eq_some_iff, Prod.mk.injEq, Prod.exists] at h
      obtain ⟨n, rest', h', _, rfl⟩ := h
      exact length_number?_lt h'

/-- The tokens of a text, or none where something in it is no token. -/
def split? (cs : List Char) : Option (List JsonToken) :=
  match cs with
  | [] => some []
  | c :: rest =>
    if isBlank c then split? rest
    else
      match _h : next? (c :: rest) with
      | none => none
      | some (token, after) =>
        (split? after).map (token :: ·)
termination_by cs.length
decreasing_by
  · exact Nat.lt_succ_self rest.length
  · exact length_next?_lt _h

end JsonToken

end Doctest
